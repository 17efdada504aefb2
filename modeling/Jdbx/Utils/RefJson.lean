import Jdbx.Library.GuardedRun
import Mathlib.Data.List.Nodup
import Mathlib.Logic.Function.Basic

/-!
# Reference-counted JSON values

A wrapper is found through a map of fixed size, and the callback of the last release takes its
value out of the map.  A value that finds no free slot is wrapped all the same: it has no entry,
and the next call that asks for it makes a second wrapper.
-/

namespace Jdbx

open Library

/-- `ref_counted_t` with `ref_json_free` for its `free_fn`. -/
structure RefCounted where
  object : Nat
  refCount : Nat

def maxRefJsonObjects : Nat := 1000

/-- The taken slots of `g_ref_json_map`: values and their wrappers. -/
abbrev RefJsonMap : Type :=
  List (Nat × Nat)

def findRefJson (map : RefJsonMap) (value : Nat) : Option Nat :=
  (map.find? (·.1 = value)).map Prod.snd

def addRefJson (map : RefJsonMap) (value rc : Nat) : RefJsonMap :=
  if map.length < maxRefJsonObjects then map ++ [(value, rc)] else map

def removeRefJson (map : RefJsonMap) (value : Nat) : RefJsonMap :=
  map.eraseP (·.1 = value)

/-- The map and the live wrappers, with what has been handed out and not released, and the
values that were wrapped and freed, as often as they were. -/
structure RefState where
  map : RefJsonMap
  heap : Nat → Option RefCounted
  references : List (Nat × Nat)
  created : List Nat
  freed : List Nat

def newRefState : RefState where
  map := []
  heap := fun _ => none
  references := []
  created := []
  freed := []

namespace RefState

/-- `ref_counter_acquire` of a wrapper that was found, which is handed out. -/
def handOut (state : RefState) (value rc : Nat) : RefState :=
  { state with
    heap := Function.update state.heap rc <| (state.heap rc).map fun wrapper =>
      { wrapper with refCount := wrapper.refCount + 1 }
    references := (value, rc) :: state.references }

/-- `ref_json_create`, where `allocated` is the wrapper that `BUFFER_ALLOC` gives. -/
def create (state : RefState) (value : Nat) (allocated : Option Nat) : RefState :=
  if value = 0 then state
  else
    match findRefJson state.map value, allocated with
    | some rc, _ => state.handOut value rc
    | none, none => state
    | none, some rc =>
        { state with
          map := addRefJson state.map value rc
          heap := Function.update state.heap rc (some { object := value, refCount := 1 })
          references := (value, rc) :: state.references
          created := value :: state.created }

/-- `ref_json_acquire`. -/
def acquire (state : RefState) (value : Nat) (allocated : Option Nat) : RefState :=
  if value = 0 then state
  else
    match findRefJson state.map value with
    | some rc => state.handOut value rc
    | none => state.create value allocated

/-- `ref_json_release`, with which the caller gives up a reference. -/
def release (state : RefState) (value rc : Nat) : RefState :=
  let state := { state with references := state.references.erase (value, rc) }
  match state.heap rc with
  | none => state
  | some wrapper =>
      if wrapper.refCount = 0 then state
      else if wrapper.refCount - 1 = 0 then
        { state with
          map := removeRefJson state.map wrapper.object
          heap := Function.update state.heap rc none
          freed := wrapper.object :: state.freed }
      else
        { state with
          heap := Function.update state.heap rc
            (some { wrapper with refCount := wrapper.refCount - 1 }) }

def wrapped (state : RefState) (rc : Nat) : Option Nat :=
  (state.heap rc).map RefCounted.object

def outstanding (state : RefState) (value : Nat) : Nat :=
  state.references.countP fun reference => reference.1 = value

end RefState

inductive RefCall where
  | create (value : Nat) (allocated : Option Nat)
  | acquire (value : Nat) (allocated : Option Nat)
  | release (value rc : Nat)

/-- A wrapper is allocated where none is live, and a reference is released once. -/
def refStep (state : RefState) : RefCall → Option RefState
  | .create value allocated =>
      if ∀ rc ∈ allocated, state.heap rc = none then some (state.create value allocated) else none
  | .acquire value allocated =>
      if ∀ rc ∈ allocated, state.heap rc = none then some (state.acquire value allocated) else none
  | .release value rc =>
      if (value, rc) ∈ state.references then some (state.release value rc) else none

/-- Each value has one live wrapper at most, which counts its references; no entry and no
reference is of a freed wrapper; and for each wrapper that was made for a value the value was freed
once, unless references are left. -/
structure RefsKept (state : RefState) : Prop where
  single : ∀ {rc other value}, state.wrapped rc = some value →
    state.wrapped other = some value → rc = other
  counted : ∀ {rc wrapper}, state.heap rc = some wrapper →
    wrapper.refCount = state.outstanding wrapper.object ∧ wrapper.refCount ≠ 0
  held : ∀ {value rc}, (value, rc) ∈ state.references → state.wrapped rc = some value
  entries : ∀ {value rc}, (value, rc) ∈ state.map → state.wrapped rc = some value
  entriesOnce : (state.map.map Prod.fst).Nodup
  freedOnce : ∀ value,
    state.created.count value = state.freed.count value + min (state.outstanding value) 1

/-- A call that makes a wrapper is for a value without references: no value is asked for again
whose wrapper has no entry. -/
def AsksForEntry (state : RefState) : RefCall → Prop
  | .create value allocated | .acquire value allocated =>
      ∀ rc ∈ allocated, state.heap rc = none → value ≠ 0 → findRefJson state.map value = none →
        state.outstanding value = 0
  | .release _ _ => True

section Map

variable {map : RefJsonMap} {value rc : Nat} {entry : Nat × Nat}

theorem mem_of_findRefJson (found : findRefJson map value = some rc) : (value, rc) ∈ map := by
  obtain ⟨entry, first, rfl⟩ := Option.map_eq_some_iff.mp found
  have same : entry.1 = value := by simpa using List.find?_some first
  rw [← same]
  exact List.mem_of_find?_eq_some first

theorem mem_addRefJson (member : entry ∈ addRefJson map value rc) :
    entry = (value, rc) ∨ entry ∈ map := by
  rw [addRefJson] at member
  split_ifs at member with room
  · exact (List.mem_append.mp member).symm.imp_left List.mem_singleton.mp
  · exact Or.inr member

theorem nodup_addRefJson (missing : findRefJson map value = none)
    (nodup : (map.map Prod.fst).Nodup) : ((addRefJson map value rc).map Prod.fst).Nodup := by
  rw [addRefJson]
  split_ifs with room
  · have fresh : value ∉ map.map Prod.fst := by
      intro member
      obtain ⟨entry, inMap, same⟩ := List.mem_map.mp member
      have none := List.find?_eq_none.mp (Option.map_eq_none_iff.mp missing) entry inMap
      exact none (decide_eq_true same)
    rw [List.map_append, List.nodup_append]
    refine ⟨nodup, List.nodup_singleton _, fun key member other isNew same => fresh ?_⟩
    have isValue : key = value := same.trans (List.mem_singleton.mp isNew)
    rwa [isValue] at member
  · exact nodup

theorem mem_removeRefJson (nodup : (map.map Prod.fst).Nodup)
    (member : entry ∈ removeRefJson map value) : entry ∈ map ∧ entry.1 ≠ value := by
  refine ⟨List.mem_of_mem_eraseP member, ?_⟩
  induction map with
  | nil => cases member
  | cons first map ih =>
      obtain ⟨apart, nodup⟩ := List.nodup_cons.mp nodup
      rw [removeRefJson, List.eraseP_cons] at member
      by_cases same : first.1 = value
      · rw [decide_eq_true same, cond_true] at member
        intro again
        exact apart (List.mem_map.mpr ⟨entry, member, again.trans same.symm⟩)
      · rw [decide_eq_false same, cond_false] at member
        rcases List.mem_cons.mp member with rfl | later
        · exact same
        · exact ih nodup later

end Map

section Calls

variable {state next : RefState} {value rc : Nat}

theorem RefsKept.outstanding_ne_zero (kept : RefsKept state)
    (live : state.wrapped rc = some value) : state.outstanding value ≠ 0 := by
  obtain ⟨wrapper, inHeap, rfl⟩ := Option.map_eq_some_iff.mp live
  exact (kept.counted inHeap).1 ▸ (kept.counted inHeap).2

/-- What every call does: it makes, counts or frees the one wrapper of a value. -/
structure RefChange (state next : RefState) (value rc : Nat) : Prop where
  before : state.wrapped rc = some value ∨ state.heap rc = none ∧ state.outstanding value = 0
  after : next.outstanding value = 0 ∧ next.heap rc = none ∨
    next.outstanding value ≠ 0 ∧
      next.heap rc = some { object := value, refCount := next.outstanding value }
  heap : ∀ other ≠ rc, next.heap other = state.heap other
  outstanding : ∀ other ≠ value, next.outstanding other = state.outstanding other
  references : ∀ reference ∈ next.references, reference = (value, rc) ∨
    reference ∈ state.references
  map : ∀ entry ∈ next.map, (entry = (value, rc) ∨ entry ∈ state.map) ∧
    (next.outstanding value = 0 → entry.1 ≠ value)
  entriesOnce : (next.map.map Prod.fst).Nodup
  freedOnce : ∀ tested,
    next.created.count tested = next.freed.count tested + min (next.outstanding tested) 1

theorem RefsKept.change (kept : RefsKept state) (value rc : Nat)
    (change : RefChange state next value rc) : RefsKept next := by
  -- The wrapper of the call is the one of its value before, and there is no other.
  have own {object : Nat} (live : state.wrapped rc = some object) : object = value := by
    rcases change.before with before | ⟨empty, -⟩
    · exact Option.some.inj (live.symm.trans before)
    · rw [RefState.wrapped, empty] at live
      cases live
  have apart {other : Nat} (different : other ≠ rc) : state.wrapped other ≠ some value := by
    intro live
    rcases change.before with before | ⟨-, unasked⟩
    · exact different (kept.single live before)
    · exact kept.outstanding_ne_zero live unasked
  have wrapped {other : Nat} (different : other ≠ rc) :
      next.wrapped other = state.wrapped other :=
    congrArg _ (change.heap other different)
  have live (asked : next.outstanding value ≠ 0) : next.wrapped rc = some value := by
    rcases change.after with ⟨unasked, -⟩ | ⟨-, inHeap⟩
    · exact absurd unasked asked
    · rw [RefState.wrapped, inHeap]
      rfl
  have ownNext {object : Nat} (isLive : next.wrapped rc = some object) : object = value := by
    rcases change.after with ⟨-, empty⟩ | ⟨asked, -⟩
    · rw [RefState.wrapped, empty] at isLive
      cases isLive
    · exact Option.some.inj (isLive.symm.trans (live asked))
  have stays {object other : Nat} (before : state.wrapped other = some object)
      (asked : object = value → next.outstanding value ≠ 0) :
      next.wrapped other = some object := by
    by_cases same : other = rc
    · subst same
      obtain rfl := own before
      exact live (asked rfl)
    · exact (wrapped same).trans before
  constructor
  · intro first second object isFirst isSecond
    by_cases one : first = rc <;> by_cases two : second = rc
    · rw [one, two]
    · subst one
      obtain rfl := ownNext isFirst
      exact absurd ((wrapped two).symm.trans isSecond) (apart two)
    · subst two
      obtain rfl := ownNext isSecond
      exact absurd ((wrapped one).symm.trans isFirst) (apart one)
    · exact kept.single ((wrapped one).symm.trans isFirst) ((wrapped two).symm.trans isSecond)
  · intro tested wrapper inHeap
    by_cases same : tested = rc
    · rw [same] at inHeap
      rcases change.after with ⟨-, empty⟩ | ⟨asked, full⟩
      · exact absurd (empty.symm.trans inHeap) (Option.some_ne_none _).symm
      · obtain rfl := Option.some.inj (full.symm.trans inHeap)
        exact ⟨rfl, asked⟩
    · rw [change.heap tested same] at inHeap
      have different : wrapper.object ≠ value := fun object =>
        apart same (by rw [RefState.wrapped, inHeap, ← object]; rfl)
      rw [change.outstanding _ different]
      exact kept.counted inHeap
  · intro object tested member
    have asked (same : object = value) : next.outstanding value ≠ 0 :=
      Nat.ne_of_gt (List.countP_pos_iff.mpr ⟨_, member, decide_eq_true same⟩)
    rcases change.references _ member with first | later
    · cases first
      exact live (asked rfl)
    · exact stays (kept.held later) asked
  · intro object tested member
    have inMap := change.map _ member
    rcases inMap.1 with first | later
    · cases first
      exact live fun unasked => inMap.2 unasked rfl
    · exact stays (kept.entries later) fun same unasked => inMap.2 unasked same
  · exact change.entriesOnce
  · exact change.freedOnce

theorem countP_cons_reference (references : List (Nat × Nat)) (value rc tested : Nat) :
    ((value, rc) :: references).countP (fun reference => reference.1 = tested) =
      references.countP (fun reference => reference.1 = tested) +
        if value = tested then 1 else 0 := by
  rw [List.countP_cons]
  simp

theorem countP_erase_reference {references : List (Nat × Nat)}
    (member : (value, rc) ∈ references) (tested : Nat) :
    (references.erase (value, rc)).countP (fun reference => reference.1 = tested) +
        (if value = tested then 1 else 0) =
      references.countP (fun reference => reference.1 = tested) := by
  rw [(List.perm_cons_erase member).countP_eq, countP_cons_reference]

theorem RefsKept.handOut (kept : RefsKept state)
    (found : findRefJson state.map value = some rc) : RefsKept (state.handOut value rc) := by
  have live := kept.entries (mem_of_findRefJson found)
  have asked := kept.outstanding_ne_zero live
  have more (tested : Nat) : (state.handOut value rc).outstanding tested =
      state.outstanding tested + if value = tested then 1 else 0 :=
    countP_cons_reference state.references value rc tested
  have own : (state.handOut value rc).outstanding value = state.outstanding value + 1 := by
    rw [more, if_pos rfl]
  have other (tested : Nat) (different : tested ≠ value) :
      (state.handOut value rc).outstanding tested = state.outstanding tested := by
    rw [more, if_neg different.symm, Nat.add_zero]
  apply kept.change value rc
  refine ⟨Or.inl live, Or.inr ⟨by omega, ?_⟩,
    fun _ different => Function.update_of_ne different _ _, other,
    fun _ member => List.mem_cons.mp member,
    fun _ member => ⟨Or.inr member, fun unasked => by omega⟩, kept.entriesOnce, fun tested => ?_⟩
  · obtain ⟨wrapper, inHeap, rfl⟩ := Option.map_eq_some_iff.mp live
    rw [own, ← (kept.counted inHeap).1]
    simp [RefState.handOut, inHeap]
  · have law := kept.freedOnce tested
    by_cases same : tested = value
    · rw [same] at law ⊢
      exact law.trans (congrArg _ (by omega))
    · rw [other tested same]
      exact law

theorem RefsKept.create (kept : RefsKept state) {allocated : Option Nat}
    (fresh : ∀ rc ∈ allocated, state.heap rc = none)
    (asks : ∀ rc ∈ allocated, state.heap rc = none → value ≠ 0 →
      findRefJson state.map value = none → state.outstanding value = 0) :
    RefsKept (state.create value allocated) := by
  unfold RefState.create
  split_ifs with null
  · exact kept
  split
  · rename_i found
    exact kept.handOut found
  · exact kept
  · rename_i rc found
    have empty := fresh rc rfl
    have unasked := asks rc rfl empty null found
    have more := countP_cons_reference state.references value rc
    rw [RefState.outstanding] at unasked
    apply kept.change value rc
    refine ⟨Or.inr ⟨empty, unasked⟩, Or.inr ?_,
      fun _ different => Function.update_of_ne different _ _, fun other different => ?_,
      fun _ member => List.mem_cons.mp member,
      fun entry member => ⟨mem_addRefJson member, fun none => ?_⟩,
      nodup_addRefJson found kept.entriesOnce, fun tested => ?_⟩
    · simp [RefState.outstanding, more, unasked]
    · simp [RefState.outstanding, more, different.symm]
    · simp [RefState.outstanding, more] at none
    · have law := kept.freedOnce tested
      simp only [RefState.outstanding, more, List.count_cons] at law ⊢
      by_cases same : value = tested
      · subst same
        simpa [unasked] using law
      · simpa [same] using law

theorem RefsKept.release (kept : RefsKept state) (member : (value, rc) ∈ state.references) :
    RefsKept (state.release value rc) := by
  have live := kept.held member
  obtain ⟨wrapper, inHeap, rfl⟩ := Option.map_eq_some_iff.mp live
  have counted := kept.counted inHeap
  have fewer := countP_erase_reference member
  have own := fewer wrapper.object
  rw [if_pos rfl] at own
  rw [RefState.outstanding] at counted
  have others (other : Nat) (different : other ≠ wrapper.object) :
      (state.references.erase (wrapper.object, rc)).countP
        (fun reference => reference.1 = other) = state.outstanding other := by
    have same := fewer other
    rwa [if_neg different.symm] at same
  simp only [RefState.release, inHeap, if_neg counted.2]
  split_ifs with last
  · apply kept.change wrapper.object rc
    refine ⟨Or.inl live,
      Or.inl ⟨by simp only [RefState.outstanding]; omega, Function.update_self ..⟩,
      fun _ different => Function.update_of_ne different _ _, others,
      fun _ left => Or.inr (List.mem_of_mem_erase left), fun entry inMap => ?_,
      kept.entriesOnce.sublist (List.eraseP_sublist.map _), fun tested => ?_⟩
    · have left := mem_removeRefJson kept.entriesOnce inMap
      exact ⟨Or.inr left.1, fun _ => left.2⟩
    · have law := kept.freedOnce tested
      simp only [RefState.outstanding, List.count_cons] at law others ⊢
      by_cases same : wrapper.object = tested
      · subst same
        simp only [beq_self_eq_true, if_true]
        omega
      · simp only [beq_iff_eq, same, if_false]
        rw [others tested (Ne.symm same)]
        exact law
  · apply kept.change wrapper.object rc
    refine ⟨Or.inl live, Or.inr ⟨by simp only [RefState.outstanding]; omega, ?_⟩,
      fun _ different => Function.update_of_ne different _ _, others,
      fun _ left => Or.inr (List.mem_of_mem_erase left),
      fun _ inMap => ⟨Or.inr inMap, fun unasked => ?_⟩, kept.entriesOnce, fun tested => ?_⟩
    · simp only [Function.update_self, RefState.outstanding]
      congr 2
      omega
    · simp only [RefState.outstanding] at unasked
      omega
    · have law := kept.freedOnce tested
      simp only [RefState.outstanding] at law others ⊢
      by_cases same : wrapper.object = tested
      · subst same
        omega
      · rw [others tested (Ne.symm same)]
        exact law

end Calls

/-- A call whose wrapper would be the second one of its value breaks the law. -/
theorem not_refsKept_of_asked {state : RefState} {value rc : Nat} (kept : RefsKept state)
    (empty : state.heap rc = none) (notNull : value ≠ 0)
    (missing : findRefJson state.map value = none) (asked : state.outstanding value ≠ 0) :
    ¬RefsKept (state.create value (some rc)) := by
  obtain ⟨reference, member, isValue⟩ :=
    List.countP_pos_iff.mp (Nat.pos_of_ne_zero asked)
  have held : state.wrapped reference.2 = some reference.1 := kept.held member
  rw [of_decide_eq_true isValue] at held
  have different : reference.2 ≠ rc := by
    intro same
    rw [same, RefState.wrapped, empty] at held
    cases held
  have first : (state.create value (some rc)).wrapped reference.2 = some value := by
    rw [← held]
    simp [RefState.create, notNull, missing, RefState.wrapped, Function.update_of_ne different]
  have second : (state.create value (some rc)).wrapped rc = some value := by
    simp [RefState.create, notNull, missing, RefState.wrapped]
  exact fun after => different (after.single first second)

theorem acquire_eq_create (state : RefState) (value : Nat) (allocated : Option Nat) :
    state.acquire value allocated = state.create value allocated := by
  unfold RefState.acquire RefState.create
  split_ifs with null
  · rfl
  · cases findRefJson state.map value <;> rfl

theorem keeps_refsKept : Keeps refStep AsksForEntry RefsKept := by
  intro state call next kept asks taken
  cases call with
  | create value allocated =>
      obtain ⟨fresh, same⟩ := Option.ite_none_right_eq_some.mp taken
      obtain rfl := Option.some.inj same
      exact kept.create fresh asks
  | acquire value allocated =>
      obtain ⟨fresh, same⟩ := Option.ite_none_right_eq_some.mp taken
      obtain rfl := Option.some.inj same
      rw [acquire_eq_create]
      exact kept.create fresh asks
  | release value rc =>
      obtain ⟨member, same⟩ := Option.ite_none_right_eq_some.mp taken
      obtain rfl := Option.some.inj same
      exact kept.release member

theorem refsKept_newRefState : RefsKept newRefState :=
  ⟨nofun, nofun, nofun, nofun, List.nodup_nil, fun _ => rfl⟩

/-- The law holds behind every call of a run exactly when no call makes a wrapper for a value
that has references. -/
theorem refsKept_iff (calls : List RefCall) :
    EveryStep refStep (fun state call => ∀ next ∈ refStep state call, RefsKept next)
        newRefState calls ↔
      EveryStep refStep AsksForEntry newRefState calls := by
  apply EveryStep.iff_of_keeps keeps_refsKept _ refsKept_newRefState
  intro state call kept
  have breaks {value : Nat} {allocated : Option Nat}
      (after : (∀ rc ∈ allocated, state.heap rc = none) → RefsKept (state.create value allocated)) :
      AsksForEntry state (.create value allocated) := by
    intro rc member empty notNull missing
    obtain rfl := Option.mem_def.mp member
    by_contra asked
    exact not_refsKept_of_asked kept empty notNull missing asked
      (after fun other same => Option.some.inj same ▸ empty)
  refine ⟨fun after => ?_, fun asks next taken => keeps_refsKept state call next kept asks taken⟩
  cases call with
  | create value allocated => exact breaks fun fresh => after _ (if_pos fresh)
  | acquire value allocated =>
      refine breaks fun fresh => ?_
      rw [← acquire_eq_create]
      exact after _ (if_pos fresh)
  | release value rc => trivial

/-- The first `count` values, each with a wrapper of its own. -/
def fillCalls (count : Nat) : List RefCall :=
  (List.range count).map fun index => .create (index + 1) (some index)

/-- The first values have an entry, the later ones have none. -/
structure Filled (count : Nat) (state : RefState) : Prop where
  length : state.map.length = min count maxRefJsonObjects
  keys : ∀ entry ∈ state.map, entry.1 ≤ count ∧ entry.1 ≤ maxRefJsonObjects
  heap : ∀ rc ≥ count, state.heap rc = none
  last : ∀ rc, count = rc + 1 → state.heap rc = some { object := count, refCount := 1 }

theorem create_of_absent {state : RefState} {value : Nat} (rc : Nat) (notNull : value ≠ 0)
    (absent : ∀ entry ∈ state.map, entry.1 ≠ value) :
    state.create value (some rc) =
      { state with
        map := addRefJson state.map value rc
        heap := Function.update state.heap rc (some { object := value, refCount := 1 })
        references := (value, rc) :: state.references
        created := value :: state.created } := by
  have missing : findRefJson state.map value = none := by
    rw [findRefJson, Option.map_eq_none_iff, List.find?_eq_none]
    exact fun entry member same => absent entry member (of_decide_eq_true same)
  simp [RefState.create, notNull, missing]

theorem filled_run (count : Nat) :
    ∃ state, runFrom refStep newRefState (fillCalls count) = some state ∧ Filled count state := by
  induction count with
  | zero => exact ⟨_, rfl, rfl, nofun, fun _ _ => rfl, nofun⟩
  | succ count ih =>
      obtain ⟨state, reached, filled⟩ := ih
      have created := create_of_absent count (Nat.succ_ne_zero count) fun entry member =>
        Nat.ne_of_lt (Nat.lt_succ_of_le (filled.keys entry member).1)
      refine ⟨state.create (count + 1) (some count), ?_, ?_⟩
      · rw [fillCalls] at reached
        rw [fillCalls, List.range_succ, List.map_append, runFrom_append, reached, Option.bind_some]
        exact congrArg (Option.bind · _)
          (if_pos fun rc same => Option.some.inj same ▸ filled.heap count (Nat.le_refl _))
      · rw [created]
        refine ⟨?_, fun entry member => ?_, fun rc later => ?_, fun rc same => ?_⟩
        · have length := filled.length
          simp only [addRefJson]
          split_ifs with room
          · rw [List.length_append, List.length_singleton]
            omega
          · omega
        · simp only [addRefJson] at member
          split_ifs at member with room
          · have length := filled.length
            rcases List.mem_append.mp member with old | new
            · have bound := filled.keys entry old
              exact ⟨Nat.le_succ_of_le bound.1, bound.2⟩
            · rw [List.mem_singleton.mp new]
              exact ⟨Nat.le_refl _, by change count + 1 ≤ _; omega⟩
          · have bound := filled.keys entry member
            exact ⟨Nat.le_succ_of_le bound.1, bound.2⟩
        · have apart : rc ≠ count := Nat.ne_of_gt later
          exact (Function.update_of_ne apart _ _).trans (filled.heap rc (Nat.le_of_succ_le later))
        · obtain rfl := Nat.succ.inj same
          exact Function.update_self ..

/-- Behind a full map a value that is asked for twice gets two wrappers. -/
theorem not_kept_of_full {count : Nat} (full : maxRefJsonObjects ≤ count) :
    ¬EveryStep refStep (fun state call => ∀ next ∈ refStep state call, RefsKept next)
      newRefState (fillCalls (count + 1) ++ [.create (count + 1) (some (count + 1))]) := by
  intro kept
  obtain ⟨state, reached, filled⟩ := filled_run (count + 1)
  have empty := filled.heap (count + 1) (Nat.le_refl _)
  have absent : ∀ entry ∈ state.map, entry.1 ≠ count + 1 := fun entry member =>
    Nat.ne_of_lt (Nat.lt_succ_of_le (Nat.le_trans (filled.keys entry member).2 full))
  have after : RefsKept (state.create (count + 1) (some (count + 1))) :=
    kept.last reached _ (if_pos fun rc same => Option.some.inj same ▸ empty)
  rw [create_of_absent (count + 1) (Nat.succ_ne_zero count) absent] at after
  have apart : count ≠ count + 1 := Nat.ne_of_lt (Nat.lt_succ_self count)
  refine apart (after.single (?_ : _ = some (count + 1)) ?_)
  · simp [RefState.wrapped, filled.last count rfl]
  · simp [RefState.wrapped]

/-- A thousand values, one more, and that one again. -/
theorem overfull_not_kept :
    ¬EveryStep refStep (fun state call => ∀ next ∈ refStep state call, RefsKept next)
      newRefState (fillCalls 1001 ++ [.create 1001 (some 1001)]) :=
  not_kept_of_full (Nat.le_refl maxRefJsonObjects)

end Jdbx
