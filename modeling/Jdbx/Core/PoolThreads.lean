import Jdbx.Core.PoolQueue
import Mathlib.Data.Option.Basic

/-!
# The threads of the thread pool

A worker that leaves takes one off the count, and whichever worker stands in the last slot is
no longer listed.  The array lists the workers as long as it is the last one that leaves, no
worker is stored past the end of the array or cut off with it, and none is started behind the
back of `thread_pool_destroy`.
-/

namespace Jdbx

open Library

variable {ω : Type} {state next : PoolState ω} {event : PoolEvent ω} {thread : Nat}
  {old : WorkerPlace ω} {listed : List Nat}

namespace PoolState

def listedThreads (state : PoolState ω) : List (Option Nat) :=
  state.pool.threads.take state.pool.threadCount

def HasReturned (state : PoolState ω) (thread : Nat) : Prop :=
  ∃ place, state.workers[thread]? = some place ∧ place.returned = true

theorem startWorker_stored (state : PoolState ω)
    (below : state.pool.threadCount < state.pool.maxThreads)
    (inside : state.pool.threadCount < state.pool.threads.length) :
    state.startWorker = { state with
      pool := { state.pool with
        threads := state.pool.threads.set state.pool.threadCount (some state.workers.length)
        threadCount := state.pool.threadCount + 1
        peakThreads := max state.pool.peakThreads (state.pool.threadCount + 1) }
      workers := state.workers ++ [.start] } := by
  rw [startWorker, if_pos below, storeThread, if_pos inside]

theorem startWorker_sizes (state : PoolState ω) :
    state.startWorker.pool.threadCount = state.pool.threadCount + 1 ∧
      state.startWorker.pool.threads.length = state.pool.threads.length ∧
      state.startWorker.pool.maxThreads = state.pool.maxThreads := by
  rw [startWorker, storeThread]
  split_ifs
  · exact ⟨rfl, List.length_set, rfl⟩
  · exact ⟨rfl, rfl, rfl⟩
  · exact ⟨rfl, rfl, rfl⟩

theorem startWorkers_sizes : ∀ (needed starts : Nat) (state : PoolState ω),
    (state.startWorkers needed starts).1.pool.threadCount =
        state.pool.threadCount + min needed starts ∧
      (state.startWorkers needed starts).1.pool.threads.length = state.pool.threads.length ∧
      (state.startWorkers needed starts).1.pool.maxThreads = state.pool.maxThreads
  | 0, _, state => by
    rw [Nat.zero_min]
    exact ⟨rfl, rfl, rfl⟩
  | _ + 1, 0, state => by
    rw [Nat.min_zero]
    exact ⟨rfl, rfl, rfl⟩
  | needed + 1, starts + 1, state => by
    have first := state.startWorker_sizes
    have rest := startWorkers_sizes needed starts state.startWorker
    rw [startWorkers, rest.1, rest.2.1, rest.2.2, first.1, first.2.1, first.2.2,
      Nat.add_min_add_right]
    exact ⟨by omega, rfl, rfl⟩

theorem startWorkers_enough : ∀ (needed starts : Nat) (state : PoolState ω),
    (state.startWorkers needed starts).2 = decide (needed ≤ starts)
  | 0, starts, _ => (decide_eq_true (Nat.zero_le starts)).symm
  | needed + 1, 0, _ => rfl
  | needed + 1, starts + 1, state => by
    rw [startWorkers, startWorkers_enough needed starts]
    exact decide_eq_decide.mpr Nat.succ_le_succ_iff.symm

end PoolState

def DestroyPlace.released : DestroyPlace → Bool
  | .releasing | .freed => true
  | _ => false

/-- The first `thread_count` slots hold every worker that has not returned, once, and
otherwise only workers that have ended for the shutdown; nothing was written past the array;
and no worker is left when `thread_pool_destroy` releases the pool. -/
structure PoolThreadsLaw (state : PoolState ω) : Prop where
  within : state.pool.threadCount ≤ state.pool.threads.length
  distinct : state.listedThreads.Nodup
  live : ∀ (thread : Nat) (place : WorkerPlace ω), state.workers[thread]? = some place →
    place.returned = false → some thread ∈ state.listedThreads
  only : ∀ slot ∈ state.listedThreads, ∃ (thread : Nat) (place : WorkerPlace ω),
    slot = some thread ∧ state.workers[thread]? = some place ∧
      (place.returned = false ∨ place = .ended ∧ state.pool.shutdown = true)
  noStray : state.strayWrites = []
  joined : state.destroyer.released = true →
    ∀ place ∈ state.workers, place.returned = true

def ThreadsLawAfter (state : PoolState ω) (event : PoolEvent ω) : Prop :=
  ∀ next ∈ poolStep state event, PoolThreadsLaw next

def WorkerPlace.isWaiting : WorkerPlace ω → Bool
  | .waiting => true
  | _ => false

/-- `thread_pool_destroy` will still come to the slot of so many threads. -/
def DestroyPlace.Reaches (count : Nat) : DestroyPlace → Prop
  | .idle => True
  | .counting index | .reading index => index ≤ count
  | .joining index _ => index < count
  | .releasing | .freed => False

instance (count : Nat) : DecidablePred (DestroyPlace.Reaches count)
  | .idle => inferInstanceAs (Decidable True)
  | .counting _ | .reading _ => inferInstanceAs (Decidable (_ ≤ _))
  | .joining _ _ => inferInstanceAs (Decidable (_ < _))
  | .releasing | .freed => inferInstanceAs (Decidable False)

/-- The threads that `thread_pool_adjust` creates. -/
def PoolState.adjustStarts (state : PoolState ω) (minThreads starts : Nat) : Nat :=
  min (minThreads - state.pool.threadCount) starts

/-- A worker that leaves stands in the last slot.  New threads fit in the array, and
`thread_pool_destroy` still comes to them; and the array is not cut off before its last
thread. -/
def KeepsThreads (state : PoolState ω) : PoolEvent ω → Prop
  | .addWork _ _ _ | .destroy => True
  | .adjust minThreads maxThreads starts resized =>
    0 < minThreads → minThreads ≤ maxThreads →
      (0 < state.adjustStarts minThreads.toNat starts →
        state.pool.threadCount + state.adjustStarts minThreads.toNat starts ≤
            state.pool.threads.length ∧
          state.destroyer.Reaches state.pool.threadCount) ∧
      (minThreads.toNat - state.pool.threadCount ≤ starts →
        state.pool.maxThreads < maxThreads.toNat → resized = true →
          max state.pool.threadCount minThreads.toNat ≤ maxThreads.toNat)
  | .work thread expired =>
    ∀ place ∈ state.workers[thread]?, place.isWaiting = true → expired = true →
      state.pool.minThreads < state.pool.threadCount →
        state.pool.threads[state.pool.threadCount - 1]? = some (some thread)

instance (state : PoolState ω) : DecidablePred (KeepsThreads state)
  | .addWork _ _ _ | .destroy => inferInstanceAs (Decidable True)
  | .adjust _ _ _ _ => inferInstanceAs (Decidable (_ → _ → _ ∧ _))
  | .work thread _ => inferInstanceAs (Decidable (∀ place ∈ state.workers[thread]?, _))

theorem DestroyPlace.Reaches.mono {place : DestroyPlace} {count more : Nat}
    (reaches : place.Reaches count) (atMost : count ≤ more) : place.Reaches more := by
  cases place with
  | counting index => exact Nat.le_trans reaches atMost
  | reading index => exact Nat.le_trans reaches atMost
  | joining index thread => exact Nat.lt_of_lt_of_le reaches atMost
  | idle => trivial
  | releasing => exact reaches
  | freed => exact reaches

/-! ## What such steps keep -/

def DestroyPlace.passed : DestroyPlace → Nat
  | .counting index | .reading index | .joining index _ => index
  | .idle | .releasing | .freed => 0

/-- The workers in the order of their slots. -/
structure ListsThreads (state : PoolState ω) (listed : List Nat) : Prop where
  slots : state.listedThreads = listed.map some
  length : listed.length = state.pool.threadCount
  distinct : listed.Nodup
  counted : ∀ thread : Nat, thread ∈ listed ↔
    ∃ place, state.workers[thread]? = some place ∧ place.counted = true
  noStray : state.strayWrites = []
  called : state.pool.shutdown = false → state.destroyer = .idle
  finished : ∀ place ∈ state.workers, place = .ended → state.pool.shutdown = true
  passed : ∀ (index thread : Nat), index < state.destroyer.passed →
    listed[index]? = some thread → state.HasReturned thread
  current : ∀ (index thread : Nat), state.destroyer = .joining index thread →
    index < state.pool.threadCount → listed[index]? = some thread
  joined : state.destroyer.released = true →
    ∀ thread ∈ listed, state.HasReturned thread

theorem PoolState.hasReturned_set {state : PoolState ω}
    (there : state.workers[thread]? = some old) (stays : old.returned = false)
    (new : WorkerPlace ω) {other : Nat} (returned : state.HasReturned other) :
    (state.goTo thread new).HasReturned other := by
  obtain ⟨place, otherThere, has⟩ := returned
  have apart : thread ≠ other := by
    rintro rfl
    obtain rfl := Option.some.inj (there.symm.trans otherThere)
    rw [stays] at has
    cases has
  refine ⟨place, ?_, has⟩
  exact (List.getElem?_set_ne apart).trans otherThere

namespace ListsThreads

section Steps

variable (lists : ListsThreads state listed)

include lists

theorem law : PoolThreadsLaw state := by
  have inSlots : ∀ thread ∈ listed, some thread ∈ state.listedThreads := by
    intro thread member
    rw [lists.slots]
    exact List.mem_map_of_mem member
  have isListed : ∀ (thread : Nat) (place : WorkerPlace ω),
      state.workers[thread]? = some place → place.returned = false → thread ∈ listed := by
    intro thread place there live
    refine (lists.counted thread).mpr ⟨place, there, ?_⟩
    cases place <;> first | rfl | cases live
  refine {
    within := ?_
    distinct := ?_
    live := fun thread place there live => inSlots thread (isListed thread place there live)
    only := ?_
    noStray := lists.noStray
    joined := ?_ }
  · have lengths := congrArg List.length lists.slots
    rw [List.length_map, lists.length, PoolState.listedThreads, List.length_take] at lengths
    omega
  · rw [lists.slots]
    exact lists.distinct.map (Option.some_injective Nat)
  · intro slot member
    rw [lists.slots] at member
    obtain ⟨thread, inside, rfl⟩ := List.mem_map.mp member
    obtain ⟨place, there, counts⟩ := (lists.counted thread).mp inside
    refine ⟨thread, place, rfl, there, ?_⟩
    cases place with
    | timedOut => cases counts
    | ended => exact Or.inr ⟨rfl, lists.finished _ (List.mem_of_getElem? there) rfl⟩
    | _ => exact Or.inl rfl
  · intro released place member
    by_contra live
    obtain ⟨thread, there⟩ := List.mem_iff_getElem?.mp member
    have inside := isListed thread place there (Bool.eq_false_iff.mpr live)
    obtain ⟨other, otherThere, returned⟩ := lists.joined released thread inside
    obtain rfl := Option.some.inj (there.symm.trans otherThere)
    exact live returned

theorem goTo (there : state.workers[thread]? = some old) (stays : old.returned = false)
    {new : WorkerPlace ω} (counted : new.counted = true)
    (finished : new = .ended → state.pool.shutdown = true) :
    ListsThreads (state.goTo thread new) listed := by
  have returned : ∀ other, state.HasReturned other →
      (state.goTo thread new).HasReturned other :=
    fun other => PoolState.hasReturned_set there stays new
  have wasCounted : old.counted = true := by
    cases old <;> first | rfl | cases stays
  exact { lists with
    counted := by
      intro other
      rw [lists.counted other]
      by_cases same : thread = other
      · subst same
        have inside := (List.getElem?_eq_some_iff.mp there).1
        exact iff_of_true ⟨old, there, wasCounted⟩
          ⟨new, List.getElem?_set_self inside, counted⟩
      · have unchanged : (state.goTo thread new).workers[other]? = state.workers[other]? :=
          List.getElem?_set_ne same
        rw [unchanged]
    finished := forall_mem_set lists.finished finished thread
    passed := fun index other below found =>
      returned other (lists.passed index other below found)
    joined := fun released other member => returned other (lists.joined released other member) }

theorem setBounds (minThreads maxThreads : Nat) :
    ListsThreads (state.setBounds minThreads maxThreads) listed :=
  { lists with }

theorem listed_last (some_listed : 0 < state.pool.threadCount)
    (last : state.pool.threads[state.pool.threadCount - 1]? = some (some thread)) :
    ∃ rest, listed = rest ++ [thread] := by
  have taken : state.listedThreads[state.pool.threadCount - 1]? = some (some thread) := by
    rw [PoolState.listedThreads, List.getElem?_take_of_lt (Nat.sub_one_lt_of_lt some_listed)]
    exact last
  rw [lists.slots, List.getElem?_map] at taken
  obtain ⟨found, isFound, same⟩ := Option.map_eq_some_iff.mp taken
  cases same
  rw [← lists.length, ← List.getLast?_eq_getElem?] at isFound
  exact List.getLast?_eq_some_iff.mp isFound

end Steps

theorem leave {rest : List Nat} (lists : ListsThreads state (rest ++ [thread]))
    (there : state.workers[thread]? = some .waiting) :
    ListsThreads (state.leave thread) rest := by
  have returned : ∀ other, state.HasReturned other → (state.leave thread).HasReturned other :=
    fun other => PoolState.hasReturned_set there rfl .timedOut
  have count : state.pool.threadCount = rest.length + 1 := by
    rw [← lists.length, List.length_append, List.length_singleton]
  have earlier : ∀ (index : Nat), index < rest.length →
      (rest ++ [thread])[index]? = rest[index]? :=
    fun index inside => List.getElem?_append_left inside
  have stays : WorkerPlace.timedOut = (.ended : WorkerPlace ω) → state.pool.shutdown = true :=
    nofun
  have apart : thread ∉ rest := fun member =>
    List.disjoint_of_nodup_append lists.distinct member (List.mem_singleton_self thread)
  exact { lists with
    slots := by
      have slots := congrArg (List.take rest.length) lists.slots
      rw [PoolState.listedThreads, List.take_take, count, List.map_append,
        List.take_append_of_le_length (Nat.le_of_eq (List.length_map _).symm),
        List.take_of_length_le (Nat.le_of_eq (List.length_map _)),
        Nat.min_eq_left (Nat.le_succ _)] at slots
      change state.pool.threads.take (state.pool.threadCount - 1) = rest.map some
      rw [count]
      exact slots
    length := by
      change rest.length = state.pool.threadCount - 1
      rw [count, Nat.add_sub_cancel]
    distinct := lists.distinct.of_append_left
    counted := by
      intro other
      by_cases same : thread = other
      · subst same
        have inside := (List.getElem?_eq_some_iff.mp there).1
        refine iff_of_false apart fun counts => ?_
        obtain ⟨place, now, counted⟩ := counts
        have hasLeft : (state.leave thread).workers[thread]? = some .timedOut :=
          List.getElem?_set_self inside
        obtain rfl := Option.some.inj (hasLeft.symm.trans now)
        cases counted
      · have unchanged : (state.leave thread).workers[other]? = state.workers[other]? :=
          List.getElem?_set_ne same
        rw [unchanged, ← lists.counted other, List.mem_append, List.mem_singleton]
        exact (or_iff_left (Ne.symm same)).symm
    finished := forall_mem_set lists.finished stays thread
    passed := by
      intro index other below found
      have inside := (List.getElem?_eq_some_iff.mp found).1
      exact returned other (lists.passed index other below ((earlier index inside).trans found))
    current := by
      intro index other joining below
      have inside : index < rest.length := by
        have : index < state.pool.threadCount - 1 := below
        omega
      rw [← earlier index inside]
      exact lists.current index other joining (by omega)
    joined := fun released other member =>
      returned other (lists.joined released other (List.mem_append_left _ member)) }

section Starts

variable (lists : ListsThreads state listed)

include lists

theorem startWorker (below : state.pool.threadCount < state.pool.maxThreads)
    (inside : state.pool.threadCount < state.pool.threads.length)
    (reaches : state.destroyer.Reaches state.pool.threadCount) :
    ListsThreads state.startWorker (listed ++ [state.workers.length]) := by
  have started := state.startWorker_stored below inside
  have older : ∀ (other : Nat) (place : WorkerPlace ω), state.workers[other]? = some place →
      state.startWorker.workers[other]? = some place := by
    intro other place there
    rw [started, List.getElem?_append_left (List.getElem?_eq_some_iff.mp there).1]
    exact there
  have returned : ∀ other, state.HasReturned other → state.startWorker.HasReturned other := by
    intro other has
    obtain ⟨place, there, isReturned⟩ := has
    exact ⟨place, older other place there, isReturned⟩
  have isNew : state.workers.length ∉ listed := by
    intro member
    obtain ⟨place, there, -⟩ := (lists.counted _).mp member
    exact Nat.lt_irrefl _ (List.getElem?_eq_some_iff.mp there).1
  have unreleased : state.destroyer.released ≠ true := by
    cases destroyer : state.destroyer with
    | releasing | freed =>
      rw [destroyer] at reaches
      exact reaches.elim
    | _ => exact Bool.false_ne_true
  have before : state.destroyer.passed ≤ listed.length := by
    rw [lists.length]
    cases destroyer : state.destroyer with
    | counting index =>
      rw [destroyer] at reaches
      exact reaches
    | reading index =>
      rw [destroyer] at reaches
      exact reaches
    | joining index other =>
      rw [destroyer] at reaches
      exact Nat.le_of_lt reaches
    | _ => exact Nat.zero_le _
  rw [started] at older returned ⊢
  exact {
    slots := by
      have slots := lists.slots
      rw [PoolState.listedThreads] at slots
      change (state.pool.threads.set state.pool.threadCount (some state.workers.length)).take
        (state.pool.threadCount + 1) = _
      rw [List.take_add_one, List.getElem?_set_self inside, List.take_set_of_le (Nat.le_refl _),
        slots, List.map_append]
      rfl
    length := by
      rw [List.length_append, lists.length]
      rfl
    distinct := by
      refine List.nodup_append.mpr ⟨lists.distinct, List.nodup_singleton _, ?_⟩
      intro other member new isSelf same
      rw [same, List.mem_singleton.mp isSelf] at member
      exact isNew member
    counted := by
      intro other
      rw [List.mem_append, List.mem_singleton, lists.counted other]
      constructor
      · rintro (⟨place, there, counts⟩ | rfl)
        · exact ⟨place, older other place there, counts⟩
        · exact ⟨.start, List.getElem?_concat_length, rfl⟩
      · rintro ⟨place, there, counts⟩
        by_cases new : other = state.workers.length
        · exact Or.inr new
        · have inBounds := (List.getElem?_eq_some_iff.mp there).1
          rw [List.length_append, List.length_singleton] at inBounds
          rw [List.getElem?_append_left (by omega)] at there
          exact Or.inl ⟨place, there, counts⟩
    noStray := lists.noStray
    called := lists.called
    finished := by
      intro place member isEnded
      rcases List.mem_append.mp member with earlier | new
      · exact lists.finished place earlier isEnded
      · rw [List.mem_singleton.mp new] at isEnded
        cases isEnded
    passed := by
      intro index other below found
      rw [List.getElem?_append_left (Nat.lt_of_lt_of_le below before)] at found
      exact returned other (lists.passed index other below found)
    current := by
      intro index other joining _
      have within : index < state.pool.threadCount := by
        have joins : state.destroyer = .joining index other := joining
        rw [joins] at reaches
        exact reaches
      rw [List.getElem?_append_left (lists.length ▸ within)]
      exact lists.current index other joining within
    joined := fun released => (unreleased released).elim }

end Starts

theorem startWorkers : ∀ (needed starts : Nat) {state : PoolState ω} {listed : List Nat},
    ListsThreads state listed →
    (0 < min needed starts →
      state.pool.threadCount + min needed starts ≤ state.pool.maxThreads ∧
        state.pool.threadCount + min needed starts ≤ state.pool.threads.length ∧
        state.destroyer.Reaches state.pool.threadCount) →
    ∃ grown, ListsThreads (state.startWorkers needed starts).1 grown
  | 0, _, _, listed, lists, _ => ⟨listed, lists⟩
  | _ + 1, 0, _, listed, lists, _ => ⟨listed, lists⟩
  | needed + 1, starts + 1, state, listed, lists, fits => by
    rw [Nat.add_min_add_right] at fits
    obtain ⟨below, inside, reaches⟩ := fits (Nat.succ_pos _)
    have first := lists.startWorker (by omega) (by omega) reaches
    have sizes := state.startWorker_sizes
    have sameDestroyer : state.startWorker.destroyer = state.destroyer := by
      rw [state.startWorker_stored (by omega) (by omega)]
    refine startWorkers needed starts first fun _ => ?_
    rw [sizes.1, sizes.2.1, sizes.2.2, sameDestroyer]
    exact ⟨by omega, by omega, reaches.mono (Nat.le_succ _)⟩

section Calls

variable (lists : ListsThreads state listed)

include lists

theorem resize {capacity : Nat} (fits : state.pool.threadCount ≤ capacity) :
    ListsThreads (state.resize capacity) listed := by
  have within := lists.law.within
  exact { lists with
    slots := by
      change (state.pool.threads.take capacity ++ List.replicate
        (capacity - state.pool.threads.length) none).take state.pool.threadCount = _
      rw [List.take_append_of_le_length, List.take_take, Nat.min_eq_left fits]
      · exact lists.slots
      · rw [List.length_take]
        exact Nat.le_min.mpr ⟨fits, within⟩ }

theorem addWork (capacity : state.pool.maxThreads ≤ state.pool.threads.length) (work : ω)
    (allocated created : Bool) :
    ∃ grown, ListsThreads (state.addWork work allocated created) grown := by
  have called : ListsThreads { state with calls := state.calls + 1 } listed := { lists with }
  rw [PoolState.addWork]
  split_ifs with unallocated shutdown full below
  · exact ⟨listed, called⟩
  · exact ⟨listed, called⟩
  · have idle := lists.called (Bool.eq_false_iff.mpr shutdown)
    have reaches : state.destroyer.Reaches state.pool.threadCount := by
      rw [idle]
      trivial
    have grown := called.startWorker below (Nat.lt_of_lt_of_le below capacity) reaches
    exact ⟨_, { grown with }⟩
  · exact ⟨listed, called⟩
  · exact ⟨listed, called⟩
  · exact ⟨listed, { called with }⟩

theorem adjust {minThreads maxThreads : Int} {starts : Nat} {resized : Bool}
    (keeps : KeepsThreads state (.adjust minThreads maxThreads starts resized)) :
    ∃ grown, ListsThreads (state.adjust minThreads maxThreads starts resized) grown := by
  rw [PoolState.adjust]
  split_ifs with invalid
  · exact ⟨listed, lists⟩
  · obtain ⟨fits, uncut⟩ := keeps (by omega) (by omega)
    rw [PoolState.adjustStarts] at fits
    have bounded := lists.setBounds minThreads.toNat maxThreads.toNat
    obtain ⟨grown, growsLists⟩ := bounded.startWorkers
      (minThreads.toNat - state.pool.threadCount) starts fun more => by
        have within : state.pool.threadCount +
            min (minThreads.toNat - state.pool.threadCount) starts ≤ maxThreads.toNat := by
          omega
        exact ⟨within, (fits more).1, (fits more).2⟩
    have sizes := PoolState.startWorkers_sizes (minThreads.toNat - state.pool.threadCount) starts
      (state.setBounds minThreads.toNat maxThreads.toNat)
    have enough := PoolState.startWorkers_enough (minThreads.toNat - state.pool.threadCount)
      starts (state.setBounds minThreads.toNat maxThreads.toNat)
    rw [PoolState.adjustTo]
    split
    next after answer =>
      rw [answer] at growsLists
      exact ⟨grown, growsLists.setBounds _ _⟩
    next after answer =>
      rw [answer] at growsLists sizes enough
      have count : after.pool.threadCount = state.pool.threadCount +
          min (minThreads.toNat - state.pool.threadCount) starts := sizes.1
      have allStarted := of_decide_eq_true enough.symm
      split_ifs with more isResized
      · have bound := uncut allStarted more isResized
        have fits : after.pool.threadCount ≤ maxThreads.toNat := by
          rw [count, Nat.min_eq_left allStarted]
          omega
        exact ⟨grown, growsLists.resize fits⟩
      · exact ⟨grown, growsLists.setBounds _ _⟩
      · exact ⟨grown, growsLists⟩

theorem proceed (there : state.workers[thread]? = some old) (stays : old.returned = false) :
    ListsThreads (state.proceed thread) listed := by
  rw [PoolState.proceed]
  split
  · split_ifs with shutdown
    · exact lists.goTo there stays rfl fun _ => shutdown
    · exact lists.goTo there stays rfl (fun ended => by cases ended)
  · next item rest queue =>
      have takes : ListsThreads (state.goTo thread (.running item)) listed :=
        lists.goTo there stays rfl (fun ended => by cases ended)
      exact { takes with }

theorem workerStep {expired : Bool} (there : state.workers[thread]? = some old)
    (keeps : KeepsThreads state (.work thread expired))
    (taken : next ∈ state.workerStep thread expired old) : ∃ left, ListsThreads next left := by
  cases old with
  | start =>
    rcases PoolState.workerStep_cases taken with
      ⟨item, running, -⟩ | ⟨-, ⟨-, rfl⟩ | ⟨waiting, -⟩ | ⟨reporting, -⟩⟩
    · cases running
    · exact ⟨listed, lists.proceed there rfl⟩
    · cases waiting
    · cases reporting
  | waiting =>
    rw [PoolState.workerStep] at taken
    split_ifs at taken with freed leaves
    · cases taken
    · cases taken
      have some_listed : 0 < state.pool.threadCount := Nat.zero_lt_of_lt leaves.2
      obtain ⟨rest, rfl⟩ := lists.listed_last some_listed
        (keeps .waiting there rfl leaves.1 leaves.2)
      exact ⟨rest, lists.leave there⟩
    · cases taken
      exact ⟨listed, lists.proceed there rfl⟩
  | running item =>
    cases taken
    have executes : ListsThreads (state.goTo thread .reporting) listed :=
      lists.goTo there rfl rfl (fun ended => by cases ended)
    exact ⟨listed, { executes with }⟩
  | reporting =>
    rcases PoolState.workerStep_cases taken with
      ⟨item, running, -⟩ | ⟨-, ⟨idle, -⟩ | ⟨waiting, -⟩ | ⟨-, rfl⟩⟩
    · cases running
    · rcases idle with start | waiting
      · cases start
      · cases waiting
    · cases waiting
    · have reports : ListsThreads (state.goTo thread .start) listed :=
        lists.goTo there rfl rfl (fun ended => by cases ended)
      exact ⟨listed, { reports with }⟩
  | timedOut => cases taken
  | ended => cases taken

theorem destroyStep (taken : next ∈ state.destroyStep) : ListsThreads next listed := by
  have started : state.pool.shutdown = true ∨ state.destroyer = .idle := by
    cases shutdown : state.pool.shutdown with
    | true => exact Or.inl rfl
    | false => exact Or.inr (lists.called shutdown)
  have isClosing (busy : state.destroyer ≠ .idle) : state.pool.shutdown ≠ false := by
    rw [started.resolve_right busy]
    decide
  rw [PoolState.destroyStep] at taken
  cases destroyer : state.destroyer with
  | idle =>
    simp only [destroyer] at taken
    cases taken
    exact { lists with
      called := fun open_ => by cases open_
      finished := fun _ _ _ => rfl
      passed := fun _ _ below _ => (Nat.not_lt_zero _ below).elim
      current := fun _ _ joining => by cases joining
      joined := fun released => by cases released }
  | counting index =>
    simp only [destroyer] at taken
    have passed : ∀ (slot thread : Nat), slot < index → listed[slot]? = some thread →
        state.HasReturned thread := by
      intro slot thread below
      exact lists.passed slot thread (destroyer ▸ below)
    split_ifs at taken with below
    · cases taken
      exact { lists with
        called := fun open_ => (isClosing (destroyer ▸ nofun) open_).elim
        passed := passed
        current := fun _ _ joining => by cases joining
        joined := fun released => by cases released }
    · cases taken
      exact { lists with
        called := fun open_ => (isClosing (destroyer ▸ nofun) open_).elim
        passed := fun _ _ below _ => (Nat.not_lt_zero _ below).elim
        current := fun _ _ joining => by cases joining
        joined := by
          intro _ thread member
          obtain ⟨slot, found⟩ := List.mem_iff_getElem?.mp member
          have inside := (List.getElem?_eq_some_iff.mp found).1
          rw [lists.length] at inside
          exact passed slot thread (by omega) found }
  | reading index =>
    simp only [destroyer] at taken
    split at taken
    next thread slot =>
      cases taken
      exact { lists with
        called := fun open_ => (isClosing (destroyer ▸ nofun) open_).elim
        passed := fun other thread below => lists.passed other thread (destroyer ▸ below)
        current := by
          intro other found joining below
          obtain ⟨rfl, rfl⟩ := DestroyPlace.joining.inj joining
          have inSlots : state.listedThreads[index]? = some (some thread) := by
            rw [PoolState.listedThreads, List.getElem?_take_of_lt below]
            exact slot
          rw [lists.slots, List.getElem?_map] at inSlots
          obtain ⟨other, isFound, same⟩ := Option.map_eq_some_iff.mp inSlots
          exact Option.some.inj same ▸ isFound
        joined := fun released => by cases released }
    next => cases taken
  | joining index thread =>
    simp only [destroyer] at taken
    split_ifs at taken with returned
    · cases taken
      exact { lists with
        called := fun open_ => (isClosing (destroyer ▸ nofun) open_).elim
        passed := by
          intro slot other below found
          by_cases isLast : slot = index
          · subst isLast
            have inside := (List.getElem?_eq_some_iff.mp found).1
            have current := lists.current slot thread destroyer (lists.length ▸ inside)
            obtain rfl := Option.some.inj (current.symm.trans found)
            cases there : state.workers[thread]? with
            | none =>
              rw [there] at returned
              cases returned
            | some place =>
              rw [there] at returned
              exact ⟨place, there, returned⟩
          · have earlier : slot < index := Nat.lt_of_le_of_ne (Nat.le_of_lt_succ below) isLast
            exact lists.passed slot other (destroyer ▸ earlier) found
        current := fun _ _ joining => by cases joining
        joined := fun released => by cases released }
    · cases taken
  | releasing =>
    simp only [destroyer] at taken
    cases taken
    exact { lists with
      called := fun open_ => (isClosing (destroyer ▸ nofun) open_).elim
      passed := fun _ _ below _ => (Nat.not_lt_zero _ below).elim
      current := fun _ _ joining => by cases joining
      joined := fun _ => lists.joined (congrArg DestroyPlace.released destroyer) }
  | freed =>
    simp only [destroyer] at taken
    cases taken

end Calls

end ListsThreads

def PoolState.HasRoom (state : PoolState ω) : Prop :=
  state.pool.maxThreads ≤ state.pool.threads.length

theorem addWork_hasRoom (room : state.HasRoom) (work : ω) (allocated created : Bool) :
    (state.addWork work allocated created).HasRoom := by
  have sizes := PoolState.startWorker_sizes { state with calls := state.calls + 1 }
  have grown : PoolState.HasRoom
      ({ state with calls := state.calls + 1 } : PoolState ω).startWorker := by
    rw [PoolState.HasRoom, sizes.2.1, sizes.2.2]
    exact room
  rw [PoolState.addWork]
  split_ifs
  · exact room
  · exact room
  · exact grown
  · exact room
  · exact room
  · exact room

theorem adjust_hasRoom (room : state.HasRoom) (minThreads maxThreads : Int) (starts : Nat)
    (resized : Bool) : (state.adjust minThreads maxThreads starts resized).HasRoom := by
  have capacity : state.pool.maxThreads ≤ state.pool.threads.length := room
  have sizes := PoolState.startWorkers_sizes (minThreads.toNat - state.pool.threadCount) starts
    (state.setBounds minThreads.toNat maxThreads.toNat)
  rw [PoolState.adjust]
  split_ifs
  · exact room
  · rw [PoolState.adjustTo]
    split
    next after answer =>
      rw [answer] at sizes
      have length : after.pool.threads.length = state.pool.threads.length := sizes.2.1
      exact Nat.le_trans capacity (Nat.le_of_eq length.symm)
    next after answer =>
      rw [answer] at sizes
      have length : after.pool.threads.length = state.pool.threads.length := sizes.2.1
      have bound : after.pool.maxThreads = maxThreads.toNat := sizes.2.2
      split_ifs with more
      · change after.pool.maxThreads ≤ (after.pool.threads.take maxThreads.toNat ++
          List.replicate (maxThreads.toNat - after.pool.threads.length) none).length
        rw [List.length_append, List.length_take, List.length_replicate, bound]
        omega
      · exact Nat.le_trans capacity (Nat.le_of_eq length.symm)
      · rw [PoolState.HasRoom, bound, length]
        omega

theorem hasRoom_step (room : state.HasRoom) (taken : next ∈ poolStep state event) :
    next.HasRoom := by
  rcases poolStep_cases taken with
    ⟨work, allocated, created, rfl, -, rfl⟩ |
    ⟨minThreads, maxThreads, starts, resized, rfl, -, rfl⟩ | ⟨rfl, destroys⟩ |
    ⟨thread, expired, place, rfl, -, works⟩
  · exact addWork_hasRoom room work allocated created
  · exact adjust_hasRoom room minThreads maxThreads starts resized
  · rcases PoolState.destroyStep_cases destroys with ⟨-, rfl⟩ | ⟨-, place, -, rfl⟩ | ⟨-, rfl⟩
    · exact room
    · exact room
    · exact room
  · rcases PoolState.workerStep_cases works with
      ⟨item, -, rfl⟩ | ⟨-, ⟨-, rfl⟩ | ⟨-, -, rfl⟩ | ⟨-, rfl⟩⟩
    · exact room
    · rw [PoolState.proceed]
      split
      · split_ifs
        · exact room
        · exact room
      · exact room
    · exact room
    · exact room

theorem listsThreads_step (lists : ListsThreads state listed) (room : state.HasRoom)
    (keeps : KeepsThreads state event) (taken : next ∈ poolStep state event) :
    ∃ after, ListsThreads next after := by
  rcases poolStep_cases taken with
    ⟨work, allocated, created, rfl, -, rfl⟩ |
    ⟨minThreads, maxThreads, starts, resized, rfl, -, rfl⟩ | ⟨rfl, destroys⟩ |
    ⟨thread, expired, place, rfl, there, works⟩
  · exact lists.addWork room work allocated created
  · exact lists.adjust keeps
  · exact ⟨listed, lists.destroyStep destroys⟩
  · exact lists.workerStep there keeps works

theorem listsThreads_create {config : PoolConfig}
    (created : threadPoolCreateConfig config = some state) :
    ListsThreads state (List.range config.minThreads.toNat) ∧ state.HasRoom := by
  rw [threadPoolCreateConfig] at created
  split_ifs at created with invalid
  cases created
  constructor
  · exact {
      slots := List.take_left' (by rw [List.length_map, List.length_range])
      length := List.length_range
      distinct := List.nodup_range
      counted := by
        intro thread
        rw [List.mem_range]
        constructor
        · intro below
          exact ⟨.start, List.getElem?_replicate_of_lt below, rfl⟩
        · rintro ⟨place, there, -⟩
          have inside := (List.getElem?_eq_some_iff.mp there).1
          rwa [List.length_replicate] at inside
      noStray := rfl
      called := fun _ => rfl
      finished := by
        intro place member isEnded
        rw [List.eq_of_mem_replicate member] at isEnded
        cases isEnded
      passed := fun _ _ below _ => (Nat.not_lt_zero _ below).elim
      current := nofun
      joined := nofun }
  · change config.maxThreads.toNat ≤ List.length _
    rw [List.length_append, List.length_map, List.length_range, List.length_replicate]
    omega

/-- In a run whose steps keep the list of threads, the law holds in every state. -/
theorem poolThreads_lawful {config : PoolConfig} {start : PoolState ω}
    (created : threadPoolCreateConfig config = some start) {events : List (PoolEvent ω)}
    (keeps : EveryStep poolStep KeepsThreads start events) :
    PoolThreadsLaw start ∧ EveryStep poolStep ThreadsLawAfter start events := by
  obtain ⟨lists, room⟩ := listsThreads_create created
  have keepsLists : Keeps poolStep KeepsThreads fun state : PoolState ω =>
      (∃ listed, ListsThreads state listed) ∧ state.HasRoom := by
    intro state event next inv keeps taken
    obtain ⟨⟨listed, lists⟩, room⟩ := inv
    exact ⟨listsThreads_step lists room keeps taken, hasRoom_step room taken⟩
  refine ⟨lists.law, EveryStep.of_keeps keepsLists ?_ ⟨⟨_, lists⟩, room⟩ keeps⟩
  intro state event inv keeps next taken
  obtain ⟨⟨listed, lists⟩, room⟩ := inv
  obtain ⟨after, listsAfter⟩ := listsThreads_step lists room keeps taken
  exact listsAfter.law

def poolOfTwo : PoolState Nat :=
  (threadPoolCreateConfig ⟨2, 2, 4⟩).get rfl

def destroySteps (count : Nat) : List (PoolEvent Nat) :=
  List.replicate count .destroy

def lastWorkerLeaves : List (PoolEvent Nat) :=
  [.adjust 1 2 0 true, .work 1 false, .work 1 true, .addWork 7 true true, .work 0 false,
    .work 0 false, .work 0 false] ++ destroySteps 3 ++ [.work 0 false] ++ destroySteps 3

theorem poolThreads_lawful_lastWorkerLeaves :
    PoolThreadsLaw poolOfTwo ∧ EveryStep poolStep ThreadsLawAfter poolOfTwo lastWorkerLeaves := by
  have created : threadPoolCreateConfig ⟨2, 2, 4⟩ = some poolOfTwo := rfl
  have keeps : EveryStep poolStep KeepsThreads poolOfTwo lastWorkerLeaves := by
    decide +kernel
  exact poolThreads_lawful created keeps

def firstWorkerLeaves : List (PoolEvent Nat) :=
  [.adjust 1 2 0 true, .work 0 false, .work 0 true] ++ destroySteps 6

theorem not_threadsLaw_firstWorkerLeaves :
    ¬ EveryStep poolStep ThreadsLawAfter poolOfTwo firstWorkerLeaves := by
  intro lawful
  have joined : EveryStep poolStep (fun state event => (poolStep state event).all fun next =>
      !next.destroyer.released || next.workers.all WorkerPlace.returned)
      poolOfTwo firstWorkerLeaves := by
    apply lawful.mono
    intro state event law
    rw [Option.all_eq_true]
    intro next taken
    cases released : next.destroyer.released with
    | false => rfl
    | true => exact List.all_eq_true.mpr ((law next taken).joined released)
  exact absurd joined (by decide +kernel)

end Jdbx
