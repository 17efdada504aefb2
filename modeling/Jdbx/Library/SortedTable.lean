import Jdbx.Library.Entries
import Mathlib.Data.List.Pairwise

/-!
# Sorted tables

Entries in ascending order of their keys, found by binary search.  A position is
said by the entries before it and those behind it, so that an insertion or a
removal there is an equation between lists.
-/

namespace Jdbx.Library

open Std

/-- Halve the positions from `left` to before `limit` until the key is met or none
is left.  `compareAt` is how the key compares to the one at a position. -/
def binarySearch (compareAt : Nat → Option Ordering) : Nat → Nat → Nat → Option (Nat × Bool)
  | 0, left, _ => some (left, false)
  | fuel + 1, left, limit =>
      if left < limit then
        let mid := (left + limit - 1) / 2
        match compareAt mid with
        | none => none
        | some .eq => some (mid, true)
        | some .lt => binarySearch compareAt fuel left mid
        | some .gt => binarySearch compareAt fuel (mid + 1) limit
      else some (left, false)

section Tables

variable {κ ν : Type} {compare : κ → κ → Ordering}

def Ascending (compare : κ → κ → Ordering) (entries : List (κ × ν)) : Prop :=
  entries.Pairwise fun first second => compare first.1 second.1 = .lt

/-- Where a key stands, or where it would. -/
inductive Located (compare : κ → κ → Ordering) (key : κ) : List (κ × ν) → Nat → Bool → Prop where
  | found (front : List (κ × ν)) (value : ν) (back : List (κ × ν)) :
      Located compare key (front ++ (key, value) :: back) front.length true
  | missing (front back : List (κ × ν))
      (below : ∀ entry ∈ front, compare entry.1 key = .lt)
      (above : ∀ entry ∈ back, compare key entry.1 = .lt) :
      Located compare key (front ++ back) front.length false

variable {key : κ} {entries : List (κ × ν)}

theorem located_between {index : Nat} (inside : index ≤ entries.length)
    (below : ∀ entry ∈ entries.take index, compare entry.1 key = .lt)
    (above : ∀ entry ∈ entries.drop index, compare key entry.1 = .lt) :
    Located compare key entries index false := by
  have located := Located.missing (entries.take index) (entries.drop index) below above
  rwa [List.take_append_drop, List.length_take_of_le inside] at located

theorem located_at [LawfulEqCmp compare] {index : Nat} (inside : index < entries.length)
    (same : compare key entries[index].1 = .eq) : Located compare key entries index true := by
  have split : entries.take index ++ entries[index] :: entries.drop (index + 1) = entries := by
    rw [← List.drop_eq_getElem_cons inside, List.take_append_drop]
  have isKey : entries[index] = (key, entries[index].2) := by
    rw [LawfulEqCmp.eq_of_compare same]
  rw [isKey] at split
  have located : Located compare key
      (entries.take index ++ (key, entries[index].2) :: entries.drop (index + 1))
        (entries.take index).length true :=
    .found _ _ _
  rwa [split, List.length_take_of_le (Nat.le_of_lt inside)] at located

theorem binarySearch_located [TransCmp compare] [LawfulEqCmp compare]
    (ascending : Ascending compare entries) {compareAt : Nat → Option Ordering}
    (compares : ∀ index (inside : index < entries.length),
      compareAt index = some (compare key entries[index].1)) :
    ∀ {fuel left limit : Nat}, limit ≤ left + fuel → left ≤ limit → limit ≤ entries.length →
      (∀ entry ∈ entries.take left, compare entry.1 key = .lt) →
        (∀ entry ∈ entries.drop limit, compare key entry.1 = .lt) →
          ∃ position found, binarySearch compareAt fuel left limit = some (position, found) ∧
            Located compare key entries position found := by
  intro fuel
  induction fuel with
  | zero =>
      intro left limit enough ordered inside below above
      obtain rfl : left = limit := Nat.le_antisymm ordered enough
      exact ⟨left, false, rfl, located_between inside below above⟩
  | succ fuel ih =>
      intro left limit enough ordered inside below above
      rw [binarySearch]
      split_ifs with remains
      · have middle : left ≤ (left + limit - 1) / 2 ∧ (left + limit - 1) / 2 < limit := by
          omega
        generalize (left + limit - 1) / 2 = mid at middle
        have midInside : mid < entries.length := Nat.lt_of_lt_of_le middle.2 inside
        have sortedAt := List.pairwise_iff_getElem.mp ascending
        simp only [compares mid midInside]
        cases compared : compare key entries[mid].1 with
        | eq => exact ⟨mid, true, rfl, located_at midInside compared⟩
        | lt =>
            refine ih (by omega) middle.1 (Nat.le_of_lt midInside) below fun entry member => ?_
            obtain ⟨offset, bound, rfl⟩ := List.mem_iff_getElem.mp member
            rw [List.getElem_drop]
            rw [List.length_drop] at bound
            rcases Nat.eq_zero_or_pos offset with rfl | behind
            · exact compared
            · exact TransCmp.lt_trans compared (sortedAt mid (mid + offset) midInside (by omega)
                (by omega))
        | gt =>
            refine ih (by omega) (by omega) inside (fun entry member => ?_) above
            have less : compare entries[mid].1 key = .lt := OrientedCmp.lt_of_gt compared
            obtain ⟨index, bound, rfl⟩ := List.mem_iff_getElem.mp member
            rw [List.getElem_take]
            rw [List.length_take] at bound
            rcases Nat.lt_or_eq_of_le (show index ≤ mid by omega) with before | rfl
            · exact TransCmp.lt_trans (sortedAt index mid (by omega) midInside before) less
            · exact less
      · obtain rfl : left = limit := by omega
        exact ⟨left, false, rfl, located_between inside below above⟩

section Changes

variable {front back : List (κ × ν)} {value other : ν}

theorem Ascending.insert (ascending : Ascending compare (front ++ back)) [TransCmp compare]
    (below : ∀ entry ∈ front, compare entry.1 key = .lt)
    (above : ∀ entry ∈ back, compare key entry.1 = .lt) (value : ν) :
    Ascending compare (front ++ (key, value) :: back) := by
  obtain ⟨inFront, inBack, across⟩ := List.pairwise_append.mp ascending
  refine List.pairwise_append.mpr ⟨inFront, List.pairwise_cons.mpr ⟨above, inBack⟩, ?_⟩
  intro first before second behind
  rcases List.mem_cons.mp behind with rfl | later
  · exact below first before
  · exact across first before second later

theorem Ascending.remove (ascending : Ascending compare (front ++ (key, value) :: back)) :
    Ascending compare (front ++ back) :=
  ascending.sublist (List.Sublist.append_left (List.sublist_cons_self _ _) front)

theorem Ascending.replace (ascending : Ascending compare (front ++ (key, value) :: back))
    (other : ν) : Ascending compare (front ++ (key, other) :: back) := by
  obtain ⟨inFront, inBack, across⟩ := List.pairwise_append.mp ascending
  obtain ⟨above, later⟩ := List.pairwise_cons.mp inBack
  refine List.pairwise_append.mpr ⟨inFront, List.pairwise_cons.mpr ⟨above, later⟩, ?_⟩
  intro first before second behind
  rcases List.mem_cons.mp behind with rfl | member
  · exact across first before (key, value) List.mem_cons_self
  · exact across first before second (List.mem_cons_of_mem _ member)

variable [DecidableEq κ] [ReflCmp compare]

theorem getEntry_eq_none_of_below (below : ∀ entry ∈ front, compare entry.1 key = .lt) :
    getEntry key front = none := by
  apply getEntry_eq_none_iff.mpr
  intro member
  obtain ⟨entry, inside, rfl⟩ := List.mem_map.mp member
  simpa [ReflCmp.compare_self] using below entry inside

theorem getEntry_eq_none_of_above (above : ∀ entry ∈ back, compare key entry.1 = .lt) :
    getEntry key back = none := by
  apply getEntry_eq_none_iff.mpr
  intro member
  obtain ⟨entry, inside, rfl⟩ := List.mem_map.mp member
  simpa [ReflCmp.compare_self] using above entry inside

theorem Ascending.getEntry_found (ascending : Ascending compare (front ++ (key, value) :: back)) :
    getEntry key (front ++ (key, value) :: back) = some value := by
  obtain ⟨_, _, across⟩ := List.pairwise_append.mp ascending
  have below : ∀ entry ∈ front, compare entry.1 key = .lt :=
    fun entry member => across entry member (key, value) List.mem_cons_self
  rw [getEntry_append, getEntry_eq_none_of_below below, Option.none_or]
  simp [getEntry]

theorem Ascending.getEntry_removed
    (ascending : Ascending compare (front ++ (key, value) :: back)) :
    getEntry key (front ++ back) = none := by
  obtain ⟨_, inBack, across⟩ := List.pairwise_append.mp ascending
  have below : ∀ entry ∈ front, compare entry.1 key = .lt :=
    fun entry member => across entry member (key, value) List.mem_cons_self
  rw [getEntry_append, getEntry_eq_none_of_below below, Option.none_or]
  exact getEntry_eq_none_of_above (List.pairwise_cons.mp inBack).1

omit [ReflCmp compare] in
theorem getEntry_insert_of_ne {tested : κ} (different : tested ≠ key) :
    getEntry tested (front ++ (key, value) :: back) = getEntry tested (front ++ back) := by
  rw [getEntry_append, getEntry_append]
  simp [getEntry, Ne.symm different]

theorem getEntry_missing (below : ∀ entry ∈ front, compare entry.1 key = .lt)
    (above : ∀ entry ∈ back, compare key entry.1 = .lt) :
    getEntry key (front ++ back) = none := by
  rw [getEntry_append, getEntry_eq_none_of_below below, getEntry_eq_none_of_above above,
    Option.none_or]

end Changes

end Tables

end Jdbx.Library
