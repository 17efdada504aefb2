import Mathlib.Data.List.Nodup
import Mathlib.Logic.Function.Basic

/-!
# Chains of nodes

Nodes that point to each other, and the list of those on the way from one to the end.
-/

namespace Jdbx.Library

variable {α : Type} {next other : α → Option α} {start : Option α} {node target last new : α}
  {nodes rest : List α}

/-- The way from `start` to the node that points nowhere. -/
inductive Path (next : α → Option α) : Option α → List α → Prop
  | nil : Path next none []
  | cons {node : α} {nodes : List α} :
      Path next (next node) nodes → Path next (some node) (node :: nodes)

namespace Path

theorem congr (path : Path next start nodes) (same : ∀ node ∈ nodes, other node = next node) :
    Path other start nodes := by
  induction path with
  | nil => exact .nil
  | @cons node nodes tail ih =>
      apply Path.cons
      rw [same node List.mem_cons_self]
      exact ih fun inside member => same inside (List.mem_cons_of_mem _ member)

theorem eq_cons (path : Path next (some node) nodes) :
    ∃ rest, nodes = node :: rest ∧ Path next (next node) rest := by
  cases path with
  | cons tail => exact ⟨_, rfl, tail⟩

theorem target_mem_tail (path : Path next start nodes) (member : node ∈ nodes)
    (points : next node = some target) : target ∈ nodes.tail := by
  induction path with
  | nil => cases member
  | @cons first rest tail ih =>
      rcases List.mem_cons.mp member with rfl | member
      · rw [points] at tail
        obtain ⟨others, rfl, -⟩ := tail.eq_cons
        exact List.mem_cons_self
      · exact List.mem_of_mem_tail (ih member)

theorem target_mem (path : Path next start nodes) (member : node ∈ nodes)
    (points : next node = some target) : target ∈ nodes :=
  List.mem_of_mem_tail (path.target_mem_tail member points)

theorem push (path : Path next start nodes) (points : next new = start) :
    Path next (some new) (new :: nodes) := by
  apply Path.cons
  rwa [points]

variable [DecidableEq α]

theorem update (path : Path next start nodes) (outside : node ∉ nodes) (target : Option α) :
    Path (Function.update next node target) start nodes := by
  apply path.congr
  intro inside member
  apply Function.update_of_ne
  rintro rfl
  exact outside member

theorem append (path : Path next start nodes) (nodup : nodes.Nodup) (member : last ∈ nodes)
    (ends : next last = none) (newEnds : next new = none) (fresh : new ∉ nodes) :
    Path (Function.update next last (some new)) start (nodes ++ [new]) := by
  induction path with
  | nil => cases member
  | @cons first rest tail ih =>
      have notSame : new ≠ last := fun same => fresh (same ▸ member)
      obtain ⟨firstOutside, restNodup⟩ := List.nodup_cons.mp nodup
      apply Path.cons
      by_cases isLast : first = last
      · subst isLast
        rw [ends] at tail
        cases tail
        rw [Function.update_self]
        apply Path.cons
        rw [Function.update_of_ne notSame, newEnds]
        exact .nil
      · rw [Function.update_of_ne isLast]
        apply ih restNodup
        · exact (List.mem_cons.mp member).resolve_left fun same => isLast same.symm
        · exact fun inside => fresh (List.mem_cons_of_mem first inside)

end Path

end Jdbx.Library
