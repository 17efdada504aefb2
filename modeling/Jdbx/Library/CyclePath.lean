import Jdbx.Library.CycleSearch

/-!
# The path of a search that met a cycle

A search that meets a cycle stops with its path in progress.  The path is the walk that goes
from a vertex to the first of its successors that reaches a cycle.
-/

namespace Jdbx.Library

open Relation

section Walks

variable {α : Type}

/-- The search goes on with `next` once it has left the successors before it. -/
def Toward (successors : α → List α) (vertex next : α) : Prop :=
  ∃ front back, successors vertex = front ++ next :: back ∧
    ∀ other ∈ front, ¬ ReachesCycle successors other

def FirstInto (successors : α → List α) (vertex next : α) : Prop :=
  Toward successors vertex next ∧ ReachesCycle successors next

def OnWalk (successors : α → List α) (vertices : List α) (vertex : α) : Prop :=
  ∃ front root back, vertices = front ++ root :: back ∧
    (∀ other ∈ front, ¬ ReachesCycle successors other) ∧ ReachesCycle successors root ∧
      ReflTransGen (FirstInto successors) root vertex

variable {successors : α → List α}

theorem Toward.edge {vertex next : α} (toward : Toward successors vertex next) :
    Edge successors vertex next := by
  obtain ⟨front, back, layout, _⟩ := toward
  rw [Edge, layout]
  simp

theorem first_unique {property : α → Prop} {front back front' back' : List α} {first first' : α}
    (same : front ++ first :: back = front' ++ first' :: back')
    (free : ∀ other ∈ front, ¬ property other) (free' : ∀ other ∈ front', ¬ property other)
    (holds : property first) (holds' : property first') : first = first' := by
  induction front generalizing front' with
  | nil =>
      cases front' with
      | nil => exact (List.cons.inj same).1
      | cons other front' =>
          rw [(List.cons.inj same).1] at holds
          exact absurd holds (free' other List.mem_cons_self)
  | cons other front ih =>
      cases front' with
      | nil =>
          rw [← (List.cons.inj same).1] at holds'
          exact absurd holds' (free other List.mem_cons_self)
      | cons other' front' =>
          exact ih (List.cons.inj same).2
            (fun item member => free item (List.mem_cons_of_mem _ member))
            (fun item member => free' item (List.mem_cons_of_mem _ member))

theorem FirstInto.unique {vertex next other : α} (first : FirstInto successors vertex next)
    (second : FirstInto successors vertex other) : next = other := by
  obtain ⟨⟨front, back, layout, free⟩, reaches⟩ := first
  obtain ⟨⟨front', back', layout', free'⟩, reaches'⟩ := second
  exact first_unique (layout.symm.trans layout') free free' reaches reaches'

theorem onWalk_cons_of_safe {start : α} {rest : List α}
    (safe : ¬ ReachesCycle successors start) (vertex : α) :
    OnWalk successors (start :: rest) vertex ↔ OnWalk successors rest vertex := by
  constructor
  · rintro ⟨front, root, back, layout, free, reaches, walk⟩
    cases front with
    | nil =>
        rw [← (List.cons.inj layout).1] at reaches
        exact absurd reaches safe
    | cons first front =>
        exact ⟨front, root, back, (List.cons.inj layout).2,
          fun other member => free other (List.mem_cons_of_mem _ member), reaches, walk⟩
  · rintro ⟨front, root, back, rfl, free, reaches, walk⟩
    refine ⟨start :: front, root, back, rfl, fun other member => ?_, reaches, walk⟩
    rcases List.mem_cons.mp member with rfl | isFront
    · exact safe
    · exact free other isFront

theorem onWalk_cons_of_reaches {start : α} {rest : List α}
    (reaches : ReachesCycle successors start) (vertex : α) :
    OnWalk successors (start :: rest) vertex ↔
      ReflTransGen (FirstInto successors) start vertex := by
  constructor
  · rintro ⟨front, root, back, layout, free, rootReaches, walk⟩
    have same : start = root :=
      first_unique (show [] ++ start :: rest = front ++ root :: back from layout) nofun free reaches
        rootReaches
    rwa [same]
  · exact fun walk => ⟨[], start, rest, rfl, nofun, reaches, walk⟩

theorem walk_of_toward {root vertex : α} (way : ReflTransGen (Toward successors) root vertex)
    (reaches : ReachesCycle successors vertex) :
    ReachesCycle successors root ∧ ReflTransGen (FirstInto successors) root vertex := by
  induction way using ReflTransGen.head_induction_on with
  | refl => exact ⟨reaches, .refl⟩
  | head toward _ ih =>
      obtain ⟨vertex, path, cycle⟩ := ih.1
      exact ⟨⟨vertex, path.head toward.edge, cycle⟩, .head ⟨toward, ih.1⟩ ih.2⟩

end Walks

variable {α : Type} [DecidableEq α] {successors : α → List α}

/-- The search has come from the root to the vertices in progress, and goes on from each of
them to another, or to `start`. -/
structure Underway (successors : α → List α) (root : α) (marks : Marks α) (start : α) :
    Prop where
  came : ∀ vertex, marks vertex = .inProgress → ReflTransGen (Toward successors) root vertex
  goes : ∀ vertex, marks vertex = .inProgress →
    ∃ next, Toward successors vertex next ∧ (marks next = .inProgress ∨ next = start)

/-- The search stands still, and all vertices in progress lead to one another. -/
structure ClosedPath (successors : α → List α) (root : α) (marks : Marks α) : Prop where
  came : ∀ vertex, marks vertex = .inProgress → ReflTransGen (Toward successors) root vertex
  goes : ∀ vertex, marks vertex = .inProgress →
    ∃ next, Toward successors vertex next ∧ marks next = .inProgress

def EndsClosed (successors : α → List α) (root : α)
    (search : Marks α → α → Option (Bool × Marks α)) : Prop :=
  ∀ marks start after, marks start = .unvisited → VisitedSafe successors marks →
    PathTo successors marks start → Underway successors root marks start →
      ReflTransGen (Toward successors) root start → search marks start = some (true, after) →
        ClosedPath successors root after

omit [DecidableEq α] in
theorem Explored.sameProgress {before after : Marks α}
    (explored : Explored successors before false after) (vertex : α) :
    after vertex = .inProgress ↔ before vertex = .inProgress :=
  ⟨explored.samePath rfl vertex, explored.inProgress vertex⟩

/-- The loop over the successors of `start`, of which those before are safe. -/
theorem searchEach_closed {root start : α}
    {search : Marks α → α → Option (Bool × Marks α)} (explores : Explores successors search)
    (closes : EndsClosed successors root search) :
    ∀ {targets front : List α} {marks after : Marks α}, successors start = front ++ targets →
      (∀ other ∈ front, ¬ ReachesCycle successors other) → marks start = .inProgress →
      VisitedSafe successors marks → PathTo successors marks start →
      (∀ vertex, marks vertex = .inProgress → ReflTransGen (Toward successors) root vertex) →
      (∀ vertex, marks vertex = .inProgress → vertex ≠ start →
        ∃ next, Toward successors vertex next ∧ marks next = .inProgress) →
      searchEach search marks targets = some (true, after) → ClosedPath successors root after := by
  intro targets
  induction targets with
  | nil =>
      intro front marks after _ _ _ _ _ _ _ outcome
      simp [searchEach] at outcome
  | cons next rest ih =>
      intro front marks after layout free onPath safe path came goes outcome
      have toward : Toward successors start next := ⟨front, rest, layout, free⟩
      have further : ¬ ReachesCycle successors next →
          ∀ other ∈ front ++ [next], ¬ ReachesCycle successors other := by
        intro nextSafe other member
        rcases List.mem_append.mp member with isFront | isNext
        · exact free other isFront
        · exact List.mem_singleton.mp isNext ▸ nextSafe
      have layout' : successors start = (front ++ [next]) ++ rest := by
        rw [layout, List.append_assoc, List.singleton_append]
      rw [searchEach] at outcome
      split at outcome
      · -- the edge to `next` closes the cycle
        rename_i marked
        simp only [Option.some.injEq, Prod.mk.injEq, true_and] at outcome
        subst outcome
        refine ⟨came, fun vertex isPath => ?_⟩
        by_cases same : vertex = start
        · exact ⟨next, same ▸ toward, marked⟩
        · exact goes vertex isPath same
      · rename_i marked
        exact ih layout' (further (safe next marked)) onPath safe path came goes
          outcome
      · rename_i fresh
        have pathNext : PathTo successors marks next := fun vertex isPath =>
          (path vertex isPath).tail toward.edge
        split at outcome
        · rename_i middle searched
          obtain ⟨explored, marked⟩ :=
            explores marks next false middle fresh safe pathNext searched
          have same := explored.sameProgress
          refine ih layout' (further (explored.safe rfl next ?_))
            ((same start).mpr onPath) (explored.safe rfl)
            (fun vertex isPath => path vertex ((same vertex).mp isPath))
            (fun vertex isPath => came vertex ((same vertex).mp isPath)) ?_ outcome
          · simpa using marked
          · intro vertex isPath different
            obtain ⟨onward, leads, stays⟩ := goes vertex ((same vertex).mp isPath) different
            exact ⟨onward, leads, (same onward).mpr stays⟩
        · refine closes marks next after fresh safe pathNext ⟨came, fun vertex isPath => ?_⟩
            ((came start onPath).tail toward) outcome
          by_cases same : vertex = start
          · exact ⟨next, same ▸ toward, .inr rfl⟩
          · obtain ⟨onward, leads, stays⟩ := goes vertex isPath same
            exact ⟨onward, leads, .inl stays⟩

theorem searchFrom_closes (successors : α → List α) (root : α) :
    ∀ fuel : Nat, EndsClosed successors root (searchFrom successors fuel) := by
  intro fuel
  induction fuel with
  | zero =>
      intro marks start after _ _ _ _ _ outcome
      cases outcome
  | succ fuel ih =>
      intro marks start after fresh safe path underway way outcome
      rw [searchFrom] at outcome
      split at outcome
      · simp at outcome
      · have marked : ∀ vertex, Function.update marks start .inProgress vertex = .inProgress →
            vertex = start ∨ marks vertex = .inProgress := by
          intro vertex isPath
          by_cases same : vertex = start
          · exact .inl same
          · rw [Function.update_of_ne same] at isPath
            exact .inr isPath
        refine searchEach_closed (searchFrom_explores successors fuel) ih
          (List.nil_append _).symm (fun _ member => absurd member List.not_mem_nil)
          (Function.update_self ..) ?_ ?_ ?_ ?_ outcome
        · intro vertex left
          by_cases same : vertex = start
          · rw [same, Function.update_self] at left
            cases left
          · exact safe vertex (by rwa [Function.update_of_ne same] at left)
        · intro vertex isPath
          rcases marked vertex isPath with same | before
          · rw [same]
          · exact path vertex before
        · intro vertex isPath
          rcases marked vertex isPath with same | before
          · rwa [same]
          · exact underway.came vertex before
        · intro vertex isPath different
          obtain ⟨next, toward, stays⟩ :=
            underway.goes vertex ((marked vertex isPath).resolve_left different)
          refine ⟨next, toward, ?_⟩
          by_cases same : next = start
          · rw [same, Function.update_self]
          · rw [Function.update_of_ne same]
            exact stays.resolve_right same

omit [DecidableEq α] in
theorem ClosedPath.onPath_iff {root : α} {marks : Marks α}
    (closed : ClosedPath successors root marks) (rootOnPath : marks root = .inProgress)
    (intoCycle : ∀ vertex, marks vertex = .inProgress → ReachesCycle successors vertex)
    (vertex : α) :
    marks vertex = .inProgress ↔ ReflTransGen (FirstInto successors) root vertex := by
  constructor
  · exact fun isPath => (walk_of_toward (closed.came vertex isPath) (intoCycle vertex isPath)).2
  · intro walk
    induction walk with
    | refl => exact rootOnPath
    | tail _ first ih =>
        obtain ⟨next, toward, stays⟩ := closed.goes _ ih
        have same := first.unique ⟨toward, intoCycle next stays⟩
        exact same ▸ stays

theorem searchAll_onWalk {fuel : Nat} :
    ∀ {vertices : List α} {marks after : Marks α}, VisitedSafe successors marks →
      (∀ vertex, marks vertex ≠ .inProgress) →
      searchAll successors fuel marks vertices = some (true, after) →
        ∀ vertex, after vertex = .inProgress ↔ OnWalk successors vertices vertex := by
  intro vertices
  induction vertices with
  | nil =>
      intro marks after _ _ outcome
      simp [searchAll] at outcome
  | cons start rest ih =>
      intro marks after safe noPath outcome vertex
      rw [searchAll] at outcome
      split_ifs at outcome with fresh
      · have path : PathTo successors marks start :=
          fun other onPath => absurd onPath (noPath other)
        split at outcome
        · rename_i middle searched
          obtain ⟨explored, marked⟩ :=
            searchFrom_explores successors fuel marks start false middle fresh safe path searched
          rw [onWalk_cons_of_safe (explored.safe rfl start (by simpa using marked))]
          exact ih (explored.safe rfl)
            (fun other onPath => noPath other (explored.samePath rfl other onPath)) outcome vertex
        · obtain ⟨explored, marked⟩ :=
            searchFrom_explores successors fuel marks start true after fresh safe path outcome
          have closed := searchFrom_closes successors start fuel marks start after fresh safe path
            ⟨fun other onPath => absurd onPath (noPath other),
              fun other onPath => absurd onPath (noPath other)⟩ .refl outcome
          have startOnPath : after start = .inProgress := by simpa using marked
          have intoCycle := explored.intoCycle rfl
          rw [onWalk_cons_of_reaches (intoCycle start startOnPath)]
          exact closed.onPath_iff startOnPath intoCycle vertex
      · rw [onWalk_cons_of_safe (safe start ?_)]
        · exact ih safe noPath outcome vertex
        cases marked : marks start with
        | unvisited => exact absurd marked fresh
        | inProgress => exact absurd marked (noPath start)
        | visited => rfl

end Jdbx.Library
