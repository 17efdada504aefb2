import Mathlib.Data.List.Nodup
import Mathlib.Logic.Function.Basic

/-!
# Lists that share out their elements

Each element names at most one owner, and each owner lists its elements, every one
once.  A list may take in an element without an owner, and may be cut down to some
of its elements, where the others lose their owner.
-/

namespace Jdbx.Library

variable {α β : Type} [DecidableEq α] [DecidableEq β] {lists : α → List β}
  {owner : β → Option α} {listing : α} {element : β} {kept : List β}

structure Owns (lists : α → List β) (owner : β → Option α) : Prop where
  agree : ∀ listing element, element ∈ lists listing ↔ owner element = some listing
  nodup : ∀ listing, (lists listing).Nodup

def ownerAfterCut (owner : β → Option α) (listing : α) (kept : List β) (element : β) :
    Option α :=
  if owner element = some listing ∧ element ∉ kept then none else owner element

omit [DecidableEq α] [DecidableEq β] in
theorem owns_empty : Owns (fun _ : α => ([] : List β)) fun _ => none :=
  ⟨fun _ _ => by simp, fun _ => List.nodup_nil⟩

omit [DecidableEq α] [DecidableEq β] in
theorem Owns.unique (owns : Owns lists owner) {other : α} (here : element ∈ lists listing)
    (there : element ∈ lists other) : listing = other := by
  have named : owner element = some listing := (owns.agree listing element).mp here
  exact Option.some.inj (named.symm.trans ((owns.agree other element).mp there))

theorem Owns.append (owns : Owns lists owner) (free : owner element = none) :
    Owns (Function.update lists listing (lists listing ++ [element]))
      (Function.update owner element (some listing)) := by
  have apart : ∀ other, element ∉ lists other := fun other member => by
    simp [(owns.agree other element).mp member] at free
  constructor
  · intro other tested
    by_cases same : tested = element
    · subst same
      by_cases sameList : other = listing
      · simp [sameList]
      · simp [sameList, apart, Ne.symm sameList]
    · by_cases sameList : other = listing
      · subst sameList
        simp [same, owns.agree]
      · simp [same, sameList, owns.agree]
  · intro other
    by_cases sameList : other = listing
    · subst sameList
      have fresh : (lists other ++ [element]).Nodup :=
        (owns.nodup other).append (List.nodup_singleton element)
          (List.disjoint_singleton.mpr (apart other))
      simpa using fresh
    · simpa [sameList] using owns.nodup other

theorem Owns.cut (owns : Owns lists owner) (nodup : kept.Nodup)
    (part : ∀ element ∈ kept, element ∈ lists listing) :
    Owns (Function.update lists listing kept) (ownerAfterCut owner listing kept) := by
  constructor
  · intro other tested
    by_cases sameList : other = listing
    · subst sameList
      rw [Function.update_self, ownerAfterCut]
      by_cases stays : tested ∈ kept
      · simp [stays, (owns.agree other tested).mp (part tested stays)]
      · simp [stays]
    · rw [Function.update_of_ne sameList, ownerAfterCut, owns.agree]
      by_cases named : owner tested = some listing
      · have notOther : some listing ≠ some other := fun same =>
          sameList (Option.some.inj same).symm
        by_cases stays : tested ∈ kept <;> simp [named, stays, notOther]
      · simp [named]
  · intro other
    by_cases sameList : other = listing
    · subst sameList
      simpa using nodup
    · simpa [sameList] using owns.nodup other

theorem Owns.erase (owns : Owns lists owner) (named : owner element = some listing) :
    Owns (Function.update lists listing ((lists listing).erase element))
      (Function.update owner element none) := by
  have after : Function.update owner element none =
      ownerAfterCut owner listing ((lists listing).erase element) := by
    funext tested
    simp only [ownerAfterCut, (owns.nodup listing).mem_erase_iff]
    by_cases same : tested = element
    · subst same
      simp [named]
    · simp [same, owns.agree]
  rw [after]
  exact owns.cut ((owns.nodup listing).erase element) fun _ member => List.mem_of_mem_erase member

end Jdbx.Library
