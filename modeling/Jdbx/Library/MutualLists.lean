import Mathlib.Data.List.Nodup
import Mathlib.Logic.Function.Basic

/-!
# A relation that both sides list

Each left element lists its partners on the right, and each right element lists its
partners on the left.  The two are linked where they list the same relation, each pair
once.
-/

namespace Jdbx.Library

variable {α β : Type} [DecidableEq α] [DecidableEq β]

structure MutualLists (α β : Type) where
  left : α → List β
  right : β → List α

namespace MutualLists

variable {lists : MutualLists α β} {first : α} {second : β}

structure Linked (lists : MutualLists α β) : Prop where
  agree : ∀ first second, second ∈ lists.left first ↔ first ∈ lists.right second
  left : ∀ first, (lists.left first).Nodup
  right : ∀ second, (lists.right second).Nodup

def link (lists : MutualLists α β) (first : α) (second : β) : MutualLists α β where
  left := Function.update lists.left first (lists.left first ++ [second])
  right := Function.update lists.right second (lists.right second ++ [first])

def forget (lists : MutualLists α β) (first : α) : MutualLists α β where
  left := Function.update lists.left first []
  right := fun second => (lists.right second).filter (· ≠ first)

theorem Linked.link (linked : lists.Linked) (apart : second ∉ lists.left first) :
    (lists.link first second).Linked := by
  have apartRight : first ∉ lists.right second := fun member =>
    apart ((linked.agree first second).mpr member)
  constructor
  · intro tested other
    by_cases sameFirst : tested = first
    · subst sameFirst
      by_cases sameSecond : other = second
      · subst sameSecond
        simp [MutualLists.link]
      · simp [MutualLists.link, sameSecond, linked.agree]
    · by_cases sameSecond : other = second
      · subst sameSecond
        simp [MutualLists.link, sameFirst, linked.agree]
      · simp [MutualLists.link, sameFirst, sameSecond, linked.agree]
  · intro tested
    by_cases same : tested = first
    · subst same
      simpa [MutualLists.link, List.nodup_append] using
        ⟨linked.left tested, fun other member equal => apart (equal ▸ member)⟩
    · simpa [MutualLists.link, same] using linked.left tested
  · intro tested
    by_cases same : tested = second
    · subst same
      simpa [MutualLists.link, List.nodup_append] using
        ⟨linked.right tested, fun other member equal => apartRight (equal ▸ member)⟩
    · simpa [MutualLists.link, same] using linked.right tested

omit [DecidableEq β] in
theorem Linked.forget (linked : lists.Linked) (first : α) : (lists.forget first).Linked := by
  constructor
  · intro tested other
    by_cases same : tested = first
    · simp [MutualLists.forget, same]
    · simp [MutualLists.forget, same, linked.agree]
  · intro tested
    by_cases same : tested = first
    · simp [MutualLists.forget, same]
    · simpa [MutualLists.forget, same] using linked.left tested
  · intro other
    exact (linked.right other).filter _

end MutualLists

end Jdbx.Library
