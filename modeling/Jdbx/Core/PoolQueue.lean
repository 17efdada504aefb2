import Jdbx.Core.ThreadPool
import Jdbx.Library.ThreadList
import Mathlib.Data.List.Nodup

/-!
# The queue of the thread pool

Every item that was accepted is in the queue, with one worker, executed or dropped, and leaves
the queue in the order of submission.  The queue outgrows its bound just where a submission
answers a full queue with a new thread.
-/

namespace Jdbx

open Library

variable {ω : Type} {state : PoolState ω} {thread : Nat} {old : WorkerPlace ω}
  {item : WorkItem ω}

namespace PoolState

theorem storeThread_eq (state : PoolState ω) (index thread : Nat) :
    ∃ threads strayWrites, state.storeThread index thread = { state with
      pool := { state.pool with threads := threads }, strayWrites := strayWrites } := by
  rw [storeThread]
  split_ifs
  · exact ⟨_, _, rfl⟩
  · exact ⟨_, _, rfl⟩

theorem startWorker_eq (state : PoolState ω) :
    ∃ threads strayWrites, state.startWorker = { state with
      pool := { state.pool with
        threads := threads
        threadCount := state.pool.threadCount + 1
        peakThreads := max state.pool.peakThreads (state.pool.threadCount + 1) }
      workers := state.workers ++ [.start]
      strayWrites := strayWrites } := by
  rw [startWorker]
  obtain ⟨threads, strayWrites, stored⟩ :=
    state.storeThread_eq state.pool.threadCount state.workers.length
  split_ifs
  · rw [stored]
    exact ⟨_, _, rfl⟩
  · exact ⟨_, _, rfl⟩

def inHand (state : PoolState ω) : List (WorkItem ω) :=
  state.workers.filterMap WorkerPlace.item

end PoolState

/-- An accepted item has left the queue, waits in it, or was dropped, in the order of
submission; and what has left the queue is executed, each item once, or in the hand of one
worker. -/
structure PoolQueueLaw (state : PoolState ω) : Prop where
  size : state.pool.queueSize = state.pool.queue.length
  bounded : state.pool.queueSize ≤ state.pool.maxQueueSize
  active : state.pool.activeThreads = state.workers.countP WorkerPlace.busy
  inOrder : state.taken ++ state.pool.queue ++ state.dropped = state.accepted
  executes : (state.executed ++ state.inHand).Perm state.taken
  distinct : state.accepted.Nodup
  once : state.executed.Nodup

def GrowsFullQueue (state : PoolState ω) : PoolEvent ω → Prop
  | .addWork _ allocated created =>
      allocated = true ∧ created = true ∧ state.destroyer ≠ .freed ∧
        state.pool.shutdown = false ∧ state.pool.maxQueueSize ≤ state.pool.queueSize ∧
        state.pool.threadCount < state.pool.maxThreads
  | _ => False

instance (state : PoolState ω) : DecidablePred (GrowsFullQueue state)
  | .addWork _ _ _ => inferInstanceAs (Decidable (_ ∧ _ ∧ _ ∧ _ ∧ _ ∧ _))
  | .adjust _ _ _ _ | .destroy | .work _ _ => inferInstanceAs (Decidable False)

/-! ## What every step keeps -/

def WorkerPlace.counted : WorkerPlace ω → Bool
  | .timedOut => false
  | _ => true

/-- `thread_count` counts the workers that have not left by time-out, and a worker leaves for
the shutdown only when no work is left. -/
structure PoolKept (state : PoolState ω) : Prop where
  size : state.pool.queueSize = state.pool.queue.length
  active : state.pool.activeThreads = state.workers.countP WorkerPlace.busy
  inOrder : state.taken ++ state.pool.queue ++ state.dropped = state.accepted
  executes : (state.executed ++ state.inHand).Perm state.taken
  called : ∀ item ∈ state.accepted, item.ticket < state.calls
  distinct : state.accepted.Nodup
  held : state.destroyer ≠ .freed → state.dropped = []
  emptied : state.destroyer = .freed → state.pool.queue = []
  positive : 0 < state.pool.minThreads
  counted : state.pool.threadCount = state.workers.countP WorkerPlace.counted
  enough : 0 < state.pool.threadCount
  finished : ∀ place ∈ state.workers, place = .ended →
    state.pool.shutdown = true ∧ state.pool.queue = []

namespace PoolKept

section Steps

variable (kept : PoolKept state)

include kept

theorem law (bounded : state.pool.queueSize ≤ state.pool.maxQueueSize) : PoolQueueLaw state := by
  have fewer : state.taken.Nodup := by
    have distinct := kept.distinct
    rw [← kept.inOrder, List.append_assoc] at distinct
    exact distinct.of_append_left
  have hands := kept.executes.nodup_iff.mpr fewer
  exact {
    size := kept.size
    bounded := bounded
    active := kept.active
    inOrder := kept.inOrder
    executes := kept.executes
    distinct := kept.distinct
    once := hands.of_append_left }

theorem finished_set {new : WorkerPlace ω} (leaves : new ≠ .ended) :
    ∀ place ∈ state.workers.set thread new, place = .ended →
      state.pool.shutdown = true ∧ state.pool.queue = [] :=
  forall_mem_set kept.finished (fun isEnded => (leaves isEnded).elim) thread

theorem goTo (there : state.workers[thread]? = some old) {new : WorkerPlace ω}
    (busy : new.busy = old.busy) (hand : new.item = old.item) (counted : new.counted = old.counted)
    (finished : new = .ended → state.pool.shutdown = true ∧ state.pool.queue = []) :
    PoolKept (state.goTo thread new) := by
  obtain ⟨others, before, after⟩ := filterMap_set_perm WorkerPlace.item there new
  have inHand : (state.goTo thread new).inHand.Perm state.inHand :=
    after.trans (hand ▸ before.symm)
  have busyCount := countP_set there new WorkerPlace.busy
  have countedCount := countP_set there new WorkerPlace.counted
  rw [busy] at busyCount
  rw [counted] at countedCount
  exact { kept with
    active := kept.active.trans (Nat.add_right_cancel busyCount).symm
    executes := (inHand.append_left _).trans kept.executes
    counted := kept.counted.trans (Nat.add_right_cancel countedCount).symm
    finished := forall_mem_set kept.finished finished thread }

theorem setBounds {minThreads : Nat} (positive : 0 < minThreads) (maxThreads : Nat) :
    PoolKept (state.setBounds minThreads maxThreads) :=
  { kept with positive := positive }

theorem resize (capacity : Nat) : PoolKept (state.resize capacity) :=
  { kept with }

theorem call : PoolKept { state with calls := state.calls + 1 } :=
  { kept with called := fun item member => Nat.lt_succ_of_lt (kept.called item member) }

theorem enqueueWork (open_ : state.pool.shutdown = false) (running : state.destroyer ≠ .freed)
    (fresh : ∀ other ∈ state.accepted, other.ticket < item.ticket)
    (called : item.ticket < state.calls) : PoolKept (state.enqueueWork item) := by
  have nothing := kept.held running
  have inOrder := kept.inOrder
  rw [nothing, List.append_nil] at inOrder
  exact { kept with
    size := by
      change state.pool.queueSize + 1 = (state.pool.queue ++ [item]).length
      rw [List.length_append, List.length_singleton, kept.size]
    inOrder := by
      change state.taken ++ (state.pool.queue ++ [item]) ++ state.dropped =
        state.accepted ++ [item]
      rw [nothing, List.append_nil, ← List.append_assoc, inOrder]
    called := by
      intro other member
      rcases List.mem_append.mp member with before | new
      · exact kept.called other before
      · exact List.mem_singleton.mp new ▸ called
    distinct := by
      apply List.nodup_append.mpr
      refine ⟨kept.distinct, List.nodup_singleton item, ?_⟩
      intro other before new isNew same
      rw [same, List.mem_singleton.mp isNew] at before
      exact Nat.lt_irrefl _ (fresh item before)
    emptied := fun freed => (running freed).elim
    finished := by
      intro place member isEnded
      have := (kept.finished place member isEnded).1
      rw [open_] at this
      cases this }

theorem startWorker : PoolKept state.startWorker := by
  obtain ⟨threads, strayWrites, started⟩ := state.startWorker_eq
  rw [started]
  have inHand : (state.workers ++ [WorkerPlace.start]).filterMap WorkerPlace.item =
      state.inHand := by
    rw [List.filterMap_append]
    exact List.append_nil _
  exact { kept with
    active := by
      change _ = (state.workers ++ [WorkerPlace.start]).countP WorkerPlace.busy
      rw [List.countP_append]
      exact kept.active
    executes := by
      change (state.executed ++ (state.workers ++ [WorkerPlace.start]).filterMap _).Perm _
      rw [inHand]
      exact kept.executes
    counted := by
      change _ = (state.workers ++ [WorkerPlace.start]).countP WorkerPlace.counted
      rw [List.countP_append, ← kept.counted]
      rfl
    enough := Nat.succ_pos _
    finished := by
      intro place member isEnded
      rcases List.mem_append.mp member with before | new
      · exact kept.finished place before isEnded
      · rw [List.mem_singleton.mp new] at isEnded
        cases isEnded }

theorem take {rest : List (WorkItem ω)} (queue : state.pool.queue = item :: rest)
    (there : state.workers[thread]? = some old) (idle : old.busy = false)
    (counted : old.counted = true) (running : state.destroyer ≠ .freed) :
    PoolKept ({ state with
      pool := { state.pool with
        queue := rest
        queueSize := state.pool.queueSize - 1
        activeThreads := state.pool.activeThreads + 1 }
      taken := state.taken ++ [item] }.goTo thread (.running item)) := by
  have nothing := kept.held running
  have noHand : old.item = none := by
    cases old <;> first | rfl | cases idle
  obtain ⟨others, before, after⟩ := filterMap_set_perm WorkerPlace.item there (.running item)
  rw [noHand] at before
  have busyCount := countP_set there (.running item) WorkerPlace.busy
  have countedCount := countP_set there (.running item) WorkerPlace.counted
  rw [idle] at busyCount
  rw [counted] at countedCount
  exact { kept with
    size := by
      change state.pool.queueSize - 1 = rest.length
      rw [kept.size, queue, List.length_cons, Nat.add_sub_cancel]
    active := by
      change state.pool.activeThreads + 1 = _
      rw [kept.active]
      exact busyCount.symm
    inOrder := by
      change state.taken ++ [item] ++ rest ++ state.dropped = state.accepted
      rw [← kept.inOrder, queue, nothing, List.append_assoc state.taken]
      rfl
    executes := by
      have hands : (state.executed ++ (item :: others)).Perm (state.taken ++ [item]) := by
        have split := (before.symm.append_left state.executed).trans kept.executes
        refine List.perm_middle.trans ?_
        exact (split.cons item).trans (List.perm_append_singleton item state.taken).symm
      exact (after.append_left state.executed).trans hands
    emptied := fun freed => (running freed).elim
    counted := kept.counted.trans (Nat.add_right_cancel countedCount).symm
    finished := by
      intro place member isEnded
      rcases List.mem_or_eq_of_mem_set member with before | rfl
      · have := (kept.finished place before isEnded).2
        rw [queue] at this
        cases this
      · cases isEnded }

theorem proceed (there : state.workers[thread]? = some old) (idle : old.busy = false)
    (counted : old.counted = true) (running : state.destroyer ≠ .freed) :
    PoolKept (state.proceed thread) := by
  have noHand : old.item = none := by
    cases old <;> first | rfl | cases idle
  rw [PoolState.proceed]
  cases queue : state.pool.queue with
  | nil =>
      by_cases shutdown : state.pool.shutdown = true
      · rw [if_pos shutdown]
        exact kept.goTo there idle.symm noHand.symm counted.symm fun _ => ⟨shutdown, queue⟩
      · rw [if_neg shutdown]
        exact kept.goTo there idle.symm noHand.symm counted.symm nofun
  | cons item rest => exact kept.take queue there idle counted running

theorem leave (there : state.workers[thread]? = some .waiting)
    (more : state.pool.minThreads < state.pool.threadCount) : PoolKept (state.leave thread) := by
  obtain ⟨others, before, after⟩ := filterMap_set_perm WorkerPlace.item there .timedOut
  have busyCount := countP_set there .timedOut WorkerPlace.busy
  have countedCount := countP_set there .timedOut WorkerPlace.counted
  have positive := kept.positive
  exact { kept with
    active := kept.active.trans (Nat.add_right_cancel busyCount).symm
    executes := ((after.trans before.symm).append_left _).trans kept.executes
    counted := by
      have fewer : (state.workers.set thread .timedOut).countP WorkerPlace.counted + 1 =
          state.pool.threadCount := kept.counted ▸ countedCount
      exact (Nat.eq_sub_of_add_eq fewer).symm
    enough := Nat.sub_pos_of_lt (Nat.lt_of_le_of_lt positive more)
    finished := kept.finished_set nofun }

theorem execute (there : state.workers[thread]? = some (.running item)) :
    PoolKept (state.execute thread item) := by
  obtain ⟨others, before, after⟩ := filterMap_set_perm WorkerPlace.item there .reporting
  have busyCount := countP_set there .reporting WorkerPlace.busy
  have countedCount := countP_set there .reporting WorkerPlace.counted
  exact { kept with
    active := kept.active.trans (Nat.add_right_cancel busyCount).symm
    executes := by
      have hands : (state.executed ++ [item] ++ others).Perm state.taken := by
        rw [List.append_assoc]
        exact (before.symm.append_left _).trans kept.executes
      exact (after.append_left _).trans hands
    counted := kept.counted.trans (Nat.add_right_cancel countedCount).symm
    finished := kept.finished_set nofun }

theorem report (there : state.workers[thread]? = some .reporting) :
    PoolKept (state.report thread) := by
  obtain ⟨others, before, after⟩ := filterMap_set_perm WorkerPlace.item there .start
  have busyCount := countP_set there .start WorkerPlace.busy
  have countedCount := countP_set there .start WorkerPlace.counted
  exact { kept with
    active := by
      have fewer : (state.workers.set thread .start).countP WorkerPlace.busy =
          state.pool.activeThreads - 1 := by
        rw [kept.active]
        exact Nat.eq_sub_of_add_eq busyCount
      exact fewer.symm
    executes := ((after.trans before.symm).append_left _).trans kept.executes
    counted := kept.counted.trans (Nat.add_right_cancel countedCount).symm
    finished := kept.finished_set nofun }

theorem shutDown (running : state.destroyer ≠ .freed) : PoolKept state.shutDown :=
  { kept with
    held := fun _ => kept.held running
    emptied := nofun
    finished := fun place member isEnded => ⟨rfl, (kept.finished place member isEnded).2⟩ }

theorem moveDestroyer {place : DestroyPlace} (running : state.destroyer ≠ .freed)
    (unfreed : place ≠ .freed) : PoolKept { state with destroyer := place } :=
  { kept with
    held := fun _ => kept.held running
    emptied := fun freed => (unfreed freed).elim }

theorem release (running : state.destroyer ≠ .freed) : PoolKept state.release := by
  have nothing := kept.held running
  exact { kept with
    size := rfl
    inOrder := by
      change state.taken ++ [] ++ (state.dropped ++ state.pool.queue) = state.accepted
      rw [← kept.inOrder, nothing, List.append_nil, List.append_nil, List.nil_append]
    held := fun unfreed => (unfreed rfl).elim
    emptied := fun _ => rfl
    finished := fun place member isEnded => ⟨(kept.finished place member isEnded).1, rfl⟩ }

end Steps

theorem addWork (kept : PoolKept state) (work : ω) (allocated created : Bool)
    (running : state.destroyer ≠ .freed) : PoolKept (state.addWork work allocated created) := by
  have called := kept.call
  rw [PoolState.addWork]
  split_ifs with unallocated shutdown full below
  · exact called
  · exact called
  · obtain ⟨threads, strayWrites, started⟩ :=
      PoolState.startWorker_eq { state with calls := state.calls + 1 }
    have grown := called.startWorker
    rw [started] at grown ⊢
    exact grown.enqueueWork (Bool.eq_false_iff.mpr shutdown) running kept.called
      (Nat.lt_succ_self _)
  · exact called
  · exact called
  · exact called.enqueueWork (Bool.eq_false_iff.mpr shutdown) running kept.called
      (Nat.lt_succ_self _)

theorem startWorkers : ∀ (needed starts : Nat) {state : PoolState ω}, PoolKept state →
    PoolKept (state.startWorkers needed starts).1
  | 0, _, _, kept => kept
  | _ + 1, 0, _, kept => kept
  | needed + 1, starts + 1, _, kept => startWorkers needed starts kept.startWorker

theorem adjust (kept : PoolKept state) (minThreads maxThreads : Int) (starts : Nat)
    (resized : Bool) : PoolKept (state.adjust minThreads maxThreads starts resized) := by
  rw [PoolState.adjust]
  split_ifs with invalid
  · exact kept
  · have positive : 0 < minThreads.toNat := by omega
    have grown := startWorkers (minThreads.toNat - state.pool.threadCount) starts
      (kept.setBounds positive maxThreads.toNat)
    have restored := grown.setBounds kept.positive state.pool.maxThreads
    rw [PoolState.adjustTo]
    split
    next after answer =>
      rw [answer] at restored
      exact restored
    next after answer =>
      rw [answer] at grown restored
      split_ifs
      · exact grown.resize _
      · exact restored
      · exact grown

variable {next : PoolState ω}

theorem destroyStep (kept : PoolKept state) (taken : next ∈ state.destroyStep) : PoolKept next := by
  rcases PoolState.destroyStep_cases taken with
    ⟨idle, rfl⟩ | ⟨running, place, unfreed, rfl⟩ | ⟨releasing, rfl⟩
  · exact kept.shutDown (idle ▸ nofun)
  · exact kept.moveDestroyer running unfreed
  · exact kept.release (releasing ▸ nofun)

theorem workerStep (kept : PoolKept state) (there : state.workers[thread]? = some old)
    {expired : Bool} (taken : next ∈ state.workerStep thread expired old) :
    PoolKept next := by
  rcases PoolState.workerStep_cases taken with
    ⟨item, rfl, rfl⟩ | ⟨running, ⟨rfl | rfl, rfl⟩ | ⟨rfl, more, rfl⟩ | ⟨rfl, rfl⟩⟩
  · exact kept.execute there
  · exact kept.proceed there rfl rfl running
  · exact kept.proceed there rfl rfl running
  · exact kept.leave there more
  · exact kept.report there

theorem step (kept : PoolKept state) {event : PoolEvent ω} (taken : next ∈ poolStep state event) :
    PoolKept next := by
  rcases poolStep_cases taken with
    ⟨work, allocated, created, rfl, running, rfl⟩ |
    ⟨minThreads, maxThreads, starts, resized, rfl, running, rfl⟩ | ⟨rfl, destroys⟩ |
    ⟨thread, expired, place, rfl, there, works⟩
  · exact kept.addWork work allocated created running
  · exact kept.adjust minThreads maxThreads starts resized
  · exact kept.destroyStep destroys
  · exact kept.workerStep there works

end PoolKept

end Jdbx
