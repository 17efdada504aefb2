import Mathlib.Logic.Relation
import Mathlib.Data.List.Basic
import Mathlib.Logic.Function.Basic

/-!
# Depth-first search for a cycle

A graph gives each vertex the list of its successors.  The search marks the
vertices of the path that it is on as in progress and those that it has left
as visited; an edge to a vertex in progress closes a cycle.  The rules of the
module say what the marks mean when the search ends, with or without a cycle,
and how much fuel it needs.
-/

namespace Jdbx.Library

open Relation

/-- What a search knows of a vertex. -/
inductive Mark where
  | unvisited
  | inProgress
  | visited
  deriving DecidableEq, Repr

variable {α : Type} [DecidableEq α]

abbrev Marks (α : Type) := α → Mark

/-- The loop over the successors of a vertex. -/
def searchEach (search : Marks α → α → Option (Bool × Marks α)) :
    Marks α → List α → Option (Bool × Marks α)
  | marks, [] => some (false, marks)
  | marks, next :: rest =>
    match marks next with
    | .inProgress => some (true, marks)
    | .visited => searchEach search marks rest
    | .unvisited =>
      match search marks next with
      | some (false, marks) => searchEach search marks rest
      | outcome => outcome

/-- The search from one vertex: whether it met a cycle, and the marks.  Out of
fuel it has no outcome. -/
def searchFrom (successors : α → List α) : Nat → Marks α → α → Option (Bool × Marks α)
  | 0, _, _ => none
  | fuel + 1, marks, start =>
    match searchEach (searchFrom successors fuel)
        (Function.update marks start .inProgress) (successors start) with
    | some (false, marks) => some (false, Function.update marks start .visited)
    | outcome => outcome

def searchAll (successors : α → List α) (fuel : Nat) :
    Marks α → List α → Option (Bool × Marks α)
  | marks, [] => some (false, marks)
  | marks, start :: rest =>
    if marks start = .unvisited then
      match searchFrom successors fuel marks start with
      | some (false, marks) => searchAll successors fuel marks rest
      | outcome => outcome
    else searchAll successors fuel marks rest

/-! ## The meaning of the marks -/

def Edge (successors : α → List α) (source target : α) : Prop :=
  target ∈ successors source

def ReachesCycle (successors : α → List α) (start : α) : Prop :=
  ∃ vertex, ReflTransGen (Edge successors) start vertex ∧
    TransGen (Edge successors) vertex vertex

variable {successors : α → List α} {search : Marks α → α → Option (Bool × Marks α)}
  {marks : Marks α} {start : α}

omit [DecidableEq α] in
theorem ReachesCycle.successor (reaches : ReachesCycle successors start) :
    ∃ next ∈ successors start, ReachesCycle successors next := by
  obtain ⟨vertex, path, cycle⟩ := reaches
  rcases ReflTransGen.cases_head path with rfl | ⟨next, edge, path⟩
  · obtain ⟨next, edge, back⟩ := TransGen.head'_iff.mp cycle
    exact ⟨next, edge, start, back, cycle⟩
  · exact ⟨next, edge, vertex, path, cycle⟩

def VisitedSafe (successors : α → List α) (marks : Marks α) : Prop :=
  ∀ vertex, marks vertex = .visited → ¬ ReachesCycle successors vertex

def PathTo (successors : α → List α) (marks : Marks α) (start : α) : Prop :=
  ∀ vertex, marks vertex = .inProgress → ReflTransGen (Edge successors) vertex start

/-- What an outcome of the search tells: without a cycle the visited vertices
are safe and the path is as before; with one the whole path leads into it. -/
structure Explored (successors : α → List α) (before : Marks α) (found : Bool)
    (after : Marks α) : Prop where
  inProgress : ∀ vertex, before vertex = .inProgress → after vertex = .inProgress
  visited : ∀ vertex, before vertex = .visited → after vertex = .visited
  samePath : found = false → ∀ vertex, after vertex = .inProgress → before vertex = .inProgress
  safe : found = false → VisitedSafe successors after
  intoCycle : found = true →
    ∀ vertex, after vertex = .inProgress → ReachesCycle successors vertex

omit [DecidableEq α] in
theorem Explored.refl (safe : VisitedSafe successors marks) :
    Explored successors marks false marks where
  inProgress _ same := same
  visited _ same := same
  samePath _ _ same := same
  safe _ := safe
  intoCycle impossible := by cases impossible

omit [DecidableEq α] in
theorem Explored.trans {first second third : Marks α} {found : Bool}
    (before : Explored successors first false second)
    (after : Explored successors second found third) :
    Explored successors first found third where
  inProgress vertex onPath := after.inProgress vertex (before.inProgress vertex onPath)
  visited vertex left := after.visited vertex (before.visited vertex left)
  samePath none vertex onPath := before.samePath rfl vertex (after.samePath none vertex onPath)
  safe := after.safe
  intoCycle := after.intoCycle

def Explores (successors : α → List α)
    (search : Marks α → α → Option (Bool × Marks α)) : Prop :=
  ∀ marks start found after, marks start = .unvisited → VisitedSafe successors marks →
    PathTo successors marks start → search marks start = some (found, after) →
      Explored successors marks found after ∧
        after start = if found then .inProgress else .visited

omit [DecidableEq α] in
theorem searchEach_explored (explores : Explores successors search) :
    ∀ {targets : List α} {marks after : Marks α} {found : Bool},
      (∀ next ∈ targets, Edge successors start next) → VisitedSafe successors marks →
      PathTo successors marks start → searchEach search marks targets = some (found, after) →
        Explored successors marks found after ∧
          (found = false → ∀ next ∈ targets, after next = .visited) := by
  intro targets
  induction targets with
  | nil =>
    intro marks after found _ safe _ outcome
    simp only [searchEach, Option.some.injEq, Prod.mk.injEq] at outcome
    obtain ⟨rfl, rfl⟩ := outcome
    exact ⟨Explored.refl safe, by simp⟩
  | cons next rest ih =>
    intro marks after found edges safe path outcome
    have edge : Edge successors start next := edges next List.mem_cons_self
    have restEdges : ∀ other ∈ rest, Edge successors start other :=
      fun other member => edges other (List.mem_cons_of_mem next member)
    rw [searchEach] at outcome
    split at outcome
    · rename_i onPath
      -- the edge closes a cycle through `next`, and all of the path leads to it
      simp only [Option.some.injEq, Prod.mk.injEq] at outcome
      obtain ⟨rfl, rfl⟩ := outcome
      have cycle : TransGen (Edge successors) next next :=
        TransGen.tail' (path next onPath) edge
      refine ⟨⟨fun _ same => same, fun _ same => same, ?_, ?_, ?_⟩, ?_⟩
      · intro impossible
        cases impossible
      · intro impossible
        cases impossible
      · intro _ vertex vertexOnPath
        exact ⟨next, (path vertex vertexOnPath).tail edge, cycle⟩
      · intro impossible
        cases impossible
    · rename_i left
      obtain ⟨explored, all⟩ := ih restEdges safe path outcome
      refine ⟨explored, fun none other member => ?_⟩
      rcases List.mem_cons.mp member with rfl | member
      · exact explored.visited other left
      · exact all none other member
    · rename_i fresh
      have pathNext : PathTo successors marks next :=
        fun vertex onPath => (path vertex onPath).tail edge
      split at outcome
      · rename_i middle searched
        obtain ⟨explored, marked⟩ :=
          explores marks next false middle fresh safe pathNext searched
        have pathMiddle : PathTo successors middle start :=
          fun vertex onPath => path vertex (explored.samePath rfl vertex onPath)
        obtain ⟨exploredRest, all⟩ :=
          ih restEdges (explored.safe rfl) pathMiddle outcome
        refine ⟨explored.trans exploredRest, fun none other member => ?_⟩
        rcases List.mem_cons.mp member with rfl | member
        · exact exploredRest.visited other (by simpa using marked)
        · exact all none other member
      · rename_i noFalse
        cases found with
        | false => exact absurd outcome (noFalse after)
        | true =>
          obtain ⟨explored, _⟩ := explores marks next true after fresh safe pathNext outcome
          exact ⟨explored, by simp⟩

theorem explored_start {found : Bool} {after : Marks α} (fresh : marks start = .unvisited)
    (explored : Explored successors (Function.update marks start .inProgress) found after) :
    after start = .inProgress ∧
      (∀ vertex, marks vertex = .inProgress → after vertex = .inProgress) ∧
      (∀ vertex, marks vertex = .visited → after vertex = .visited) := by
  refine ⟨explored.inProgress start (by simp), fun vertex onPath => ?_, fun vertex left => ?_⟩
  · by_cases same : vertex = start
    · rw [same, fresh] at onPath
      cases onPath
    · exact explored.inProgress vertex (by rwa [Function.update_of_ne same])
  · by_cases same : vertex = start
    · rw [same, fresh] at left
      cases left
    · exact explored.visited vertex (by rwa [Function.update_of_ne same])

theorem searchFrom_explores (successors : α → List α) :
    ∀ fuel : Nat, Explores successors (searchFrom successors fuel) := by
  intro fuel
  induction fuel with
  | zero =>
    intro marks start found after _ _ _ outcome
    cases outcome
  | succ fuel ih =>
    intro marks start found after fresh safe path outcome
    have safeMarked : VisitedSafe successors (Function.update marks start .inProgress) := by
      intro vertex left
      by_cases same : vertex = start
      · rw [same, Function.update_self] at left
        cases left
      · exact safe vertex (by rwa [Function.update_of_ne same] at left)
    have pathMarked : PathTo successors (Function.update marks start .inProgress) start := by
      intro vertex onPath
      by_cases same : vertex = start
      · rw [same]
      · exact path vertex (by rwa [Function.update_of_ne same] at onPath)
    have edges : ∀ next ∈ successors start, Edge successors start next :=
      fun next member => member
    rw [searchFrom] at outcome
    split at outcome
    · rename_i middle searched
      simp only [Option.some.injEq, Prod.mk.injEq] at outcome
      obtain ⟨rfl, rfl⟩ := outcome
      obtain ⟨explored, all⟩ :=
        searchEach_explored ih edges safeMarked pathMarked searched
      obtain ⟨startMarked, kept, left⟩ := explored_start fresh explored
      -- every successor of `start` is visited, so that `start` is safe too
      have startSafe : ¬ ReachesCycle successors start := by
        intro reaches
        obtain ⟨next, member, further⟩ := reaches.successor
        exact explored.safe rfl next (all rfl next member) further
      refine ⟨⟨?_, ?_, ?_, ?_, by simp⟩, by simp⟩
      · intro vertex onPath
        by_cases same : vertex = start
        · rw [same, fresh] at onPath
          cases onPath
        · rw [Function.update_of_ne same]
          exact kept vertex onPath
      · intro vertex gone
        by_cases same : vertex = start
        · rw [same, Function.update_self]
        · rw [Function.update_of_ne same]
          exact left vertex gone
      · intro _ vertex onPath
        by_cases same : vertex = start
        · rw [same, Function.update_self] at onPath
          cases onPath
        · rw [Function.update_of_ne same] at onPath
          have before := explored.samePath rfl vertex onPath
          rwa [Function.update_of_ne same] at before
      · intro _ vertex gone
        by_cases same : vertex = start
        · rw [same]
          exact startSafe
        · rw [Function.update_of_ne same] at gone
          exact explored.safe rfl vertex gone
    · rename_i noFalse
      cases found with
      | false => exact absurd outcome (noFalse after)
      | true =>
        obtain ⟨explored, _⟩ :=
          searchEach_explored ih edges safeMarked pathMarked outcome
        obtain ⟨startMarked, kept, left⟩ := explored_start fresh explored
        exact ⟨⟨kept, left, by simp, by simp, explored.intoCycle⟩,
          by simpa using startMarked⟩

theorem searchAll_spec {fuel : Nat} :
    ∀ {vertices : List α} {marks after : Marks α} {found : Bool},
      VisitedSafe successors marks → (∀ vertex, marks vertex ≠ .inProgress) →
      searchAll successors fuel marks vertices = some (found, after) →
        (found = false → ∀ vertex ∈ vertices, ¬ ReachesCycle successors vertex) ∧
          (found = true → (∃ vertex ∈ vertices, after vertex = .inProgress) ∧
            ∀ vertex, after vertex = .inProgress → ReachesCycle successors vertex) := by
  intro vertices
  induction vertices with
  | nil =>
    intro marks after found _ _ outcome
    simp only [searchAll, Option.some.injEq, Prod.mk.injEq] at outcome
    obtain ⟨rfl, rfl⟩ := outcome
    simp
  | cons start rest ih =>
    intro marks after found safe noPath outcome
    rw [searchAll] at outcome
    split_ifs at outcome with fresh
    · have path : PathTo successors marks start :=
        fun vertex onPath => absurd onPath (noPath vertex)
      split at outcome
      · rename_i middle searched
        obtain ⟨explored, marked⟩ :=
          searchFrom_explores successors fuel marks start false middle fresh safe path searched
        have noPathMiddle : ∀ vertex, middle vertex ≠ .inProgress :=
          fun vertex onPath => noPath vertex (explored.samePath rfl vertex onPath)
        obtain ⟨none, some⟩ := ih (explored.safe rfl) noPathMiddle outcome
        refine ⟨fun nothing vertex member => ?_, fun met => ?_⟩
        · rcases List.mem_cons.mp member with rfl | member
          · exact explored.safe rfl vertex (by simpa using marked)
          · exact none nothing vertex member
        · obtain ⟨⟨vertex, member, onPath⟩, all⟩ := some met
          exact ⟨⟨vertex, List.mem_cons_of_mem start member, onPath⟩, all⟩
      · rename_i noFalse
        cases found with
        | false => exact absurd outcome (noFalse after)
        | true =>
          obtain ⟨explored, marked⟩ :=
            searchFrom_explores successors fuel marks start true after fresh safe path outcome
          refine ⟨by simp, fun _ => ⟨⟨start, List.mem_cons_self, by simpa using marked⟩, ?_⟩⟩
          exact explored.intoCycle rfl
    · obtain ⟨none, some⟩ := ih safe noPath outcome
      refine ⟨fun nothing vertex member => ?_, fun met => ?_⟩
      · rcases List.mem_cons.mp member with rfl | member
        · have left : marks vertex = .visited := by
            cases marked : marks vertex with
            | unvisited => exact absurd marked fresh
            | inProgress => exact absurd marked (noPath vertex)
            | visited => rfl
          exact safe vertex left
        · exact none nothing vertex member
      · obtain ⟨⟨vertex, member, onPath⟩, all⟩ := some met
        exact ⟨⟨vertex, List.mem_cons_of_mem start member, onPath⟩, all⟩

def unvisitedCount (vertices : List α) (marks : Marks α) : Nat :=
  vertices.countP fun vertex => marks vertex = .unvisited

def KeepsVisits (search : Marks α → α → Option (Bool × Marks α)) : Prop :=
  ∀ marks start found after, search marks start = some (found, after) →
    ∀ vertex, after vertex = .unvisited → marks vertex = .unvisited

omit [DecidableEq α] in
theorem searchEach_keepsVisits (keeps : KeepsVisits search) :
    ∀ {targets : List α} {marks after : Marks α} {found : Bool},
      searchEach search marks targets = some (found, after) →
        ∀ vertex, after vertex = .unvisited → marks vertex = .unvisited := by
  intro targets
  induction targets with
  | nil =>
    intro marks after found outcome vertex
    simp only [searchEach, Option.some.injEq, Prod.mk.injEq] at outcome
    rw [outcome.2]
    exact id
  | cons next rest ih =>
    intro marks after found outcome vertex still
    rw [searchEach] at outcome
    split at outcome
    · simp only [Option.some.injEq, Prod.mk.injEq] at outcome
      rwa [outcome.2]
    · exact ih outcome vertex still
    · split at outcome
      · rename_i middle searched
        exact keeps marks next false middle searched vertex
          (ih outcome vertex still)
      · exact keeps marks next found after outcome vertex still

theorem searchFrom_keepsVisits (successors : α → List α) :
    ∀ fuel : Nat, KeepsVisits (searchFrom successors fuel) := by
  intro fuel
  induction fuel with
  | zero =>
    intro marks start found after outcome
    cases outcome
  | succ fuel ih =>
    intro marks start found after outcome vertex still
    rw [searchFrom] at outcome
    have before : Function.update marks start .inProgress vertex = .unvisited := by
      split at outcome
      · rename_i middle searched
        simp only [Option.some.injEq, Prod.mk.injEq] at outcome
        obtain ⟨-, rfl⟩ := outcome
        apply searchEach_keepsVisits ih searched vertex
        by_cases same : vertex = start
        · rw [same, Function.update_self] at still
          cases still
        · rwa [Function.update_of_ne same] at still
      · exact searchEach_keepsVisits ih outcome vertex still
    by_cases same : vertex = start
    · rw [same, Function.update_self] at before
      cases before
    · rwa [Function.update_of_ne same] at before

omit [DecidableEq α] in
theorem unvisitedCount_le (vertices : List α) {before after : Marks α}
    (keeps : ∀ vertex, after vertex = .unvisited → before vertex = .unvisited) :
    unvisitedCount vertices after ≤ unvisitedCount vertices before := by
  apply List.countP_mono_left
  intro vertex _ still
  simpa using keeps vertex (by simpa using still)

theorem unvisitedCount_update_lt {vertices : List α} (member : start ∈ vertices)
    (fresh : marks start = .unvisited) :
    unvisitedCount vertices (Function.update marks start .inProgress) <
      unvisitedCount vertices marks := by
  have fewer : ∀ others : List α,
      unvisitedCount others (Function.update marks start .inProgress) ≤
        unvisitedCount others marks := by
    intro others
    apply unvisitedCount_le others
    intro vertex still
    by_cases same : vertex = start
    · rw [same, Function.update_self] at still
      cases still
    · rwa [Function.update_of_ne same] at still
  obtain ⟨front, back, layout⟩ := List.append_of_mem member
  have front_le := fewer front
  have back_le := fewer back
  simp only [unvisitedCount] at front_le back_le
  simp only [unvisitedCount, layout, List.countP_append, List.countP_cons, Function.update_self,
    fresh, reduceCtorEq, decide_false, decide_true, if_true, Bool.false_eq_true, if_false]
  omega

section Enough

variable {vertices : List α} (closed : ∀ vertex ∈ vertices, ∀ next ∈ successors vertex,
  next ∈ vertices)
include closed

theorem searchFrom_enough :
    ∀ {fuel : Nat} {marks : Marks α} {start : α}, start ∈ vertices → marks start = .unvisited →
      unvisitedCount vertices marks ≤ fuel →
        ∃ outcome, searchFrom successors fuel marks start = some outcome := by
  intro fuel
  induction fuel with
  | zero =>
    intro marks start member fresh enough
    have fewer := unvisitedCount_update_lt member fresh
    omega
  | succ fuel ih =>
    intro marks start member fresh enough
    have each : ∀ (targets : List α) (marks : Marks α), (∀ next ∈ targets, next ∈ vertices) →
        unvisitedCount vertices marks ≤ fuel →
          ∃ outcome, searchEach (searchFrom successors fuel) marks targets = some outcome := by
      intro targets
      induction targets with
      | nil =>
        intro marks _ _
        exact ⟨_, rfl⟩
      | cons next rest restHypothesis =>
        intro marks members enough
        have restMembers : ∀ other ∈ rest, other ∈ vertices :=
          fun other member => members other (List.mem_cons_of_mem next member)
        rw [searchEach]
        split
        · exact ⟨_, rfl⟩
        · exact restHypothesis marks restMembers enough
        · rename_i nextFresh
          obtain ⟨⟨found, middle⟩, searched⟩ :=
            ih (members next List.mem_cons_self) nextFresh enough
          rw [searched]
          cases found with
          | true => exact ⟨_, rfl⟩
          | false =>
            apply restHypothesis middle restMembers
            have fewer := unvisitedCount_le vertices
              (searchFrom_keepsVisits successors fuel marks next false middle searched)
            omega
    have fewer := unvisitedCount_update_lt member fresh
    obtain ⟨⟨found, middle⟩, searched⟩ := each (successors start)
      (Function.update marks start .inProgress) (closed start member) (by omega)
    rw [searchFrom, searched]
    cases found <;> exact ⟨_, rfl⟩

theorem searchAll_enough {fuel : Nat} :
    ∀ {starts : List α} {marks : Marks α}, (∀ start ∈ starts, start ∈ vertices) →
      unvisitedCount vertices marks ≤ fuel →
        ∃ outcome, searchAll successors fuel marks starts = some outcome := by
  intro starts
  induction starts with
  | nil =>
    intro marks _ _
    exact ⟨_, rfl⟩
  | cons start rest ih =>
    intro marks members enough
    have restMembers : ∀ other ∈ rest, other ∈ vertices :=
      fun other member => members other (List.mem_cons_of_mem start member)
    rw [searchAll]
    split_ifs with fresh
    · obtain ⟨⟨found, middle⟩, searched⟩ :=
        searchFrom_enough closed (members start List.mem_cons_self) fresh enough
      rw [searched]
      cases found with
      | true => exact ⟨_, rfl⟩
      | false =>
        apply ih restMembers
        have fewer := unvisitedCount_le vertices
          (searchFrom_keepsVisits successors fuel marks start false middle searched)
        omega
    · exact ih restMembers enough

end Enough

end Jdbx.Library
