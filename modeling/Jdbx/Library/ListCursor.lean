import Mathlib.Data.List.Basic
import Mathlib.Data.List.Nodup

/-!
# Iterating over a list by position while it changes

A cursor keeps a position in a list that others append to and erase from.  It
yields no item twice.  It yields every item that is there all the time, as long
as nothing is erased before its position while there are items left to yield.
-/

namespace Jdbx.Library

variable {α : Type} [DecidableEq α]

/-- A position, the items that have been there since the cursor was made, and
the items that it has yielded. -/
structure ListCursor (α : Type) where
  position : Nat
  present : List α
  yielded : List α

namespace ListCursor

def start (items : List α) : ListCursor α :=
  { position := 0, present := items, yielded := [] }

def advance (cursor : ListCursor α) (item : α) : ListCursor α :=
  { cursor with position := cursor.position + 1, yielded := cursor.yielded ++ [item] }

def without (cursor : ListCursor α) (item : α) : ListCursor α :=
  { cursor with present := cursor.present.filter (· ≠ item) }

def Covers (items : List α) (cursor : ListCursor α) : Prop :=
  ∀ item ∈ cursor.present, item ∈ cursor.yielded ∨ item ∈ items.drop cursor.position

/-- Nothing is yielded twice. -/
structure Once (items : List α) (cursor : ListCursor α) : Prop where
  nodup : cursor.yielded.Nodup
  passed : ∀ item ∈ cursor.yielded, item ∉ items.drop cursor.position

omit [DecidableEq α] in
theorem mem_drop_iff {items : List α} {position : Nat} {item : α} :
    item ∈ items.drop position ↔ ∃ index, position ≤ index ∧ items[index]? = some item := by
  rw [List.mem_iff_getElem?]
  constructor
  · rintro ⟨index, found⟩
    rw [List.getElem?_drop] at found
    exact ⟨position + index, Nat.le_add_right _ _, found⟩
  · rintro ⟨index, after, found⟩
    refine ⟨index - position, ?_⟩
    rw [List.getElem?_drop, Nat.add_sub_cancel' after]
    exact found

variable {items : List α} {cursor : ListCursor α} {item : α} {index : Nat}

omit [DecidableEq α] in
theorem covers_start (items : List α) : Covers items (start items) :=
  fun _ member => Or.inr member

omit [DecidableEq α] in
theorem once_start (items : List α) : Once items (start items) :=
  ⟨List.nodup_nil, fun _ member => absurd member List.not_mem_nil⟩

omit [DecidableEq α] in
theorem Covers.append (covers : Covers items cursor) (more : List α) :
    Covers (items ++ more) cursor := by
  intro tested member
  refine (covers tested member).imp_right fun ahead => ?_
  rw [List.drop_append]
  exact List.mem_append_left _ ahead

omit [DecidableEq α] in
theorem Once.append (once : Once items cursor) (fresh : item ∉ cursor.yielded) :
    Once (items ++ [item]) cursor := by
  refine ⟨once.nodup, fun tested member ahead => ?_⟩
  rw [List.drop_append] at ahead
  rcases List.mem_append.mp ahead with old | new
  · exact once.passed tested member old
  · rw [List.mem_singleton.mp (List.mem_of_mem_drop new)] at member
    exact fresh member

theorem Covers.erase (covers : Covers items cursor) (found : items[index]? = some item)
    (behind : index < cursor.position → items.length ≤ cursor.position) :
    Covers (items.eraseIdx index) (cursor.without item) := by
  intro tested member
  obtain ⟨present, other⟩ := List.mem_filter.mp member
  have other : tested ≠ item := by simpa using other
  refine (covers tested present).imp_right fun ahead => ?_
  obtain ⟨place, after, held⟩ := mem_drop_iff.mp ahead
  have inside : place < items.length := (List.getElem?_eq_some_iff.mp held).1
  have notBefore : cursor.position ≤ index := by
    by_contra before
    exact absurd (behind (Nat.lt_of_not_le before)) (by omega)
  have elsewhere : place ≠ index := by
    rintro rfl
    rw [held] at found
    exact other (Option.some.inj found)
  refine mem_drop_iff.mpr ?_
  rcases Nat.lt_or_gt_of_ne elsewhere with left | right
  · exact ⟨place, after, by rw [List.getElem?_eraseIdx_of_lt left, held]⟩
  · refine ⟨place - 1, show cursor.position ≤ place - 1 by omega, ?_⟩
    rw [List.getElem?_eraseIdx_of_ge (by omega), Nat.sub_add_cancel (by omega), held]

theorem Once.erase (once : Once items cursor) (index : Nat) (item : α) :
    Once (items.eraseIdx index) (cursor.without item) := by
  refine ⟨once.nodup, fun tested member ahead => once.passed tested member ?_⟩
  obtain ⟨place, after, held⟩ := mem_drop_iff.mp ahead
  rw [List.getElem?_eraseIdx] at held
  have after : cursor.position ≤ place := after
  split_ifs at held
  · exact mem_drop_iff.mpr ⟨place, after, held⟩
  · exact mem_drop_iff.mpr ⟨place + 1, by omega, held⟩

omit [DecidableEq α] in
theorem drop_position (found : items[cursor.position]? = some item) :
    items.drop cursor.position = item :: items.drop (cursor.position + 1) := by
  obtain ⟨inside, rfl⟩ := List.getElem?_eq_some_iff.mp found
  exact List.drop_eq_getElem_cons inside

omit [DecidableEq α] in
theorem Covers.advance (covers : Covers items cursor)
    (found : items[cursor.position]? = some item) : Covers items (cursor.advance item) := by
  intro tested member
  have ahead := covers tested member
  rw [drop_position found, List.mem_cons] at ahead
  simp only [ListCursor.advance, List.mem_append, List.mem_singleton]
  tauto

omit [DecidableEq α] in
theorem Once.advance (once : Once items cursor) (nodup : items.Nodup)
    (found : items[cursor.position]? = some item) : Once items (cursor.advance item) := by
  have split := drop_position found
  have ahead : item ∈ items.drop cursor.position := split ▸ List.mem_cons_self
  have notAgain : item ∉ items.drop (cursor.position + 1) := by
    have rest := nodup.sublist (List.drop_sublist cursor.position items)
    rw [split] at rest
    exact (List.nodup_cons.mp rest).1
  refine ⟨?_, fun tested member => ?_⟩
  · refine once.nodup.append (List.nodup_singleton item) ?_
    rw [List.disjoint_singleton]
    exact fun member => once.passed item member ahead
  · rcases List.mem_append.mp member with old | new
    · intro later
      exact once.passed tested old (split ▸ List.mem_cons_of_mem item later)
    · rw [List.mem_singleton.mp new]
      exact notAgain

omit [DecidableEq α] in
theorem Covers.at_end (covers : Covers items cursor) (ends : items.length ≤ cursor.position) :
    ∀ item ∈ cursor.present, item ∈ cursor.yielded := by
  intro item member
  refine (covers item member).resolve_right fun ahead => ?_
  rw [List.drop_eq_nil_of_le ends] at ahead
  exact absurd ahead List.not_mem_nil

end ListCursor

end Jdbx.Library
