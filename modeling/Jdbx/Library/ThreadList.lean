import Mathlib.Algebra.GroupWithZero.Nat
import Mathlib.Data.List.Basic
import Mathlib.Data.List.Perm.Basic

/-!
# One of a list of threads takes a step

A step puts a new place for one thread in the list of all places.  What can be
read off the places changes at that thread only.
-/

namespace Jdbx.Library

variable {α β : Type} {places : List α} {index : Nat} {old : α}

theorem forall_mem_set {property : α → Prop} (holds : ∀ place ∈ places, property place) {new : α}
    (meets : property new) (index : Nat) : ∀ place ∈ places.set index new, property place := by
  intro place member
  rcases List.mem_or_eq_of_mem_set member with before | rfl
  · exact holds place before
  · exact meets

theorem getElem?_set_cases {new place : α} {other : Nat}
    (there : (places.set index new)[other]? = some place) :
    (other = index ∧ place = new) ∨ (other ≠ index ∧ places[other]? = some place) := by
  rw [List.getElem?_set] at there
  split_ifs at there with same
  · exact Or.inl ⟨same.symm, (Option.some.inj there).symm⟩
  · exact Or.inr ⟨Ne.symm same, there⟩

theorem countP_set (found : places[index]? = some old) (new : α) (property : α → Bool) :
    (places.set index new).countP property + (if property old then 1 else 0) =
      places.countP property + (if property new then 1 else 0) := by
  induction places generalizing index with
  | nil => cases found
  | cons first places ih =>
      cases index with
      | zero =>
          cases found
          simp only [List.set_cons_zero, List.countP_cons]
          omega
      | succ index =>
          have rest := ih found
          simp only [List.set_cons_succ, List.countP_cons]
          omega

theorem sum_map_set (found : places[index]? = some old) (new : α) (number : α → Nat) :
    ((places.set index new).map number).sum + number old =
      (places.map number).sum + number new := by
  induction places generalizing index with
  | nil => cases found
  | cons first places ih =>
      cases index with
      | zero =>
          cases found
          simp only [List.set_cons_zero, List.map_cons, List.sum_cons]
          omega
      | succ index =>
          have rest := ih found
          simp only [List.set_cons_succ, List.map_cons, List.sum_cons]
          omega

theorem flatMap_set_perm (shows : α → List β) (found : places[index]? = some old) (new : α) :
    ∃ others, (places.flatMap shows).Perm (shows old ++ others) ∧
      ((places.set index new).flatMap shows).Perm (shows new ++ others) := by
  induction places generalizing index with
  | nil => cases found
  | cons first places ih =>
      cases index with
      | zero =>
          cases found
          rw [List.set_cons_zero, List.flatMap_cons, List.flatMap_cons]
          exact ⟨places.flatMap shows, .rfl, .rfl⟩
      | succ index =>
          obtain ⟨others, before, after⟩ := ih found
          rw [List.set_cons_succ, List.flatMap_cons, List.flatMap_cons]
          refine ⟨shows first ++ others, ?_, ?_⟩
          · exact (before.append_left _).trans (List.perm_append_comm_assoc _ _ _)
          · exact (after.append_left _).trans (List.perm_append_comm_assoc _ _ _)

theorem filterMap_set_perm (shows : α → Option β) (found : places[index]? = some old) (new : α) :
    ∃ others, (places.filterMap shows).Perm ((shows old).toList ++ others) ∧
      ((places.set index new).filterMap shows).Perm ((shows new).toList ++ others) := by
  rw [List.filterMap_eq_flatMap_toList, List.filterMap_eq_flatMap_toList]
  exact flatMap_set_perm (fun place => (shows place).toList) found new

end Jdbx.Library
