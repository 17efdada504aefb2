import Mathlib.Data.List.Basic

/-!
# Mapping a list with a state

Each item is mapped in the state that the one before it leaves, and a step that ends without a
result ends the whole map.
-/

namespace Jdbx.Library

variable {σ α β : Type} {step : σ → α → Option (β × σ)}

def mapState (step : σ → α → Option (β × σ)) : σ → List α → Option (List β × σ)
  | state, [] => some ([], state)
  | state, item :: items =>
      (step state item).bind fun first =>
        (mapState step first.2 items).map fun rest => (first.1 :: rest.1, rest.2)

theorem mapState_eq_self {step : σ → α → Option (α × σ)} (items : List α)
    (same : ∀ item ∈ items, ∀ state, step state item = some (item, state)) (state : σ) :
    mapState step state items = some (items, state) := by
  induction items with
  | nil => rfl
  | cons item items ih =>
      obtain ⟨first, rest⟩ := List.forall_mem_cons.mp same
      rw [mapState, first state, Option.bind_some, ih rest]
      rfl

theorem mapState_returns {invariant : σ → Prop} {items : List α}
    (returns : ∀ item ∈ items, ∀ state, invariant state →
      ∃ result next, step state item = some (result, next) ∧ invariant next)
    {state : σ} (holds : invariant state) :
    ∃ results next, mapState step state items = some (results, next) ∧ invariant next := by
  induction items generalizing state with
  | nil => exact ⟨[], state, rfl, holds⟩
  | cons item items ih =>
      obtain ⟨first, rest⟩ := List.forall_mem_cons.mp returns
      obtain ⟨result, middle, stepped, kept⟩ := first state holds
      obtain ⟨results, next, mapped, last⟩ := ih rest kept
      refine ⟨result :: results, next, ?_, last⟩
      rw [mapState, stepped, Option.bind_some, mapped]
      rfl

variable {items : List α} {results : List β} {state last : σ}

theorem mapState_getElem? (mapped : mapState step state items = some (results, last))
    {index : Nat} {item : α} (there : items[index]? = some item) :
    ∃ before after result, results[index]? = some result ∧
      step before item = some (result, after) := by
  induction items generalizing state results index with
  | nil => cases there
  | cons first items ih =>
      obtain ⟨result, stepped, rest⟩ := Option.bind_eq_some_iff.mp mapped
      obtain ⟨later, mapsOn, same⟩ := Option.map_eq_some_iff.mp rest
      cases same
      cases index with
      | zero =>
          cases there
          exact ⟨state, result.2, result.1, rfl, stepped⟩
      | succ index => exact ih mapsOn there

theorem mapState_map {γ : Type} {before : α → γ} {after : β → γ}
    (keeps : ∀ state item result next, step state item = some (result, next) →
      after result = before item)
    (mapped : mapState step state items = some (results, last)) :
    results.map after = items.map before := by
  induction items generalizing state results with
  | nil =>
      cases mapped
      rfl
  | cons first items ih =>
      obtain ⟨result, stepped, rest⟩ := Option.bind_eq_some_iff.mp mapped
      obtain ⟨later, mapsOn, same⟩ := Option.map_eq_some_iff.mp rest
      cases same
      rw [List.map_cons, List.map_cons, keeps _ _ _ _ stepped, ih mapsOn]

end Jdbx.Library
