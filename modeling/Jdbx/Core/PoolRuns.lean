import Jdbx.Core.PoolQueue
import Jdbx.Library.FairRuns

/-!
# Runs of the thread pool

Submissions, workers, resizing and shutdown in any order.  No item is lost, doubled or
overtaken; and if no worker is kept waiting for ever, every accepted item is executed or
dropped at some time.
-/

namespace Jdbx

open Library

variable {ω : Type} {state next : PoolState ω} {event : PoolEvent ω} {thread : Nat}
  {place : WorkerPlace ω} {item : WorkItem ω}

def QueueLawAfter (state : PoolState ω) (event : PoolEvent ω) : Prop :=
  ∀ next ∈ poolStep state event, PoolQueueLaw next

def PoolEvent.worker : PoolEvent ω → Option Nat
  | .work thread _ => some thread
  | _ => none

def CanWork (state : PoolState ω) (thread : Nat) : Prop :=
  ∃ expired next, next ∈ poolStep state (.work thread expired)

/-- No worker that can go on is kept waiting for ever: locks are granted, waits time out, and
the functions of the items return. -/
def FairPool (states : Nat → PoolState ω) (events : Nat → PoolEvent ω) : Prop :=
  FairRun CanWork (fun event thread => event.worker = some thread) states events

theorem poolKept_create {config : PoolConfig}
    (created : threadPoolCreateConfig config = some state) : PoolKept state := by
  rw [threadPoolCreateConfig] at created
  split_ifs at created with invalid
  cases created
  have positive : 0 < config.minThreads.toNat := by omega
  have noHand : (List.replicate config.minThreads.toNat (WorkerPlace.start : WorkerPlace ω)
      ).filterMap WorkerPlace.item = [] := by
    rw [List.filterMap_replicate_of_none rfl]
  exact {
    size := rfl
    active := (List.countP_eq_zero.mpr fun place member => by
      rw [List.eq_of_mem_replicate member]
      exact Bool.false_ne_true).symm
    inOrder := rfl
    executes := List.Perm.of_eq noHand
    called := fun _ member => (List.not_mem_nil member).elim
    distinct := List.nodup_nil
    held := fun _ => rfl
    emptied := fun _ => rfl
    positive := positive
    counted := by
      change config.minThreads.toNat = _
      rw [List.countP_replicate]
      rfl
    enough := positive
    finished := by
      intro place member isEnded
      rw [List.eq_of_mem_replicate member] at isEnded
      cases isEnded }

def PoolState.Bounded (state : PoolState ω) : Prop :=
  state.pool.queueSize ≤ state.pool.maxQueueSize

theorem startWorkers_queueSize : ∀ (needed starts : Nat) (state : PoolState ω),
    (state.startWorkers needed starts).1.pool.queueSize = state.pool.queueSize ∧
      (state.startWorkers needed starts).1.pool.maxQueueSize = state.pool.maxQueueSize
  | 0, _, _ => ⟨rfl, rfl⟩
  | _ + 1, 0, _ => ⟨rfl, rfl⟩
  | needed + 1, starts + 1, state => by
      obtain ⟨threads, strayWrites, started⟩ := state.startWorker_eq
      have rest := startWorkers_queueSize needed starts state.startWorker
      rw [PoolState.startWorkers, rest.1, rest.2, started]
      exact ⟨rfl, rfl⟩

theorem adjust_queueSize (minThreads maxThreads : Int) (starts : Nat) (resized : Bool) :
    (state.adjust minThreads maxThreads starts resized).pool.queueSize = state.pool.queueSize ∧
      (state.adjust minThreads maxThreads starts resized).pool.maxQueueSize =
        state.pool.maxQueueSize := by
  have grown := startWorkers_queueSize (minThreads.toNat - state.pool.threadCount) starts
    (state.setBounds minThreads.toNat maxThreads.toNat)
  rw [PoolState.adjust]
  split_ifs
  · exact ⟨rfl, rfl⟩
  · rw [PoolState.adjustTo]
    split
    next after answer =>
      rw [answer] at grown
      exact grown
    next after answer =>
      rw [answer] at grown
      split_ifs
      · exact grown
      · exact grown
      · exact grown

theorem proceed_queueSize (thread : Nat) :
    (state.proceed thread).pool.queueSize ≤ state.pool.queueSize ∧
      (state.proceed thread).pool.maxQueueSize = state.pool.maxQueueSize := by
  rw [PoolState.proceed]
  split
  · split_ifs
    · exact ⟨Nat.le_refl _, rfl⟩
    · exact ⟨Nat.le_refl _, rfl⟩
  · exact ⟨Nat.sub_le _ _, rfl⟩

theorem destroyStep_queueSize (taken : next ∈ state.destroyStep) :
    next.pool.queueSize ≤ state.pool.queueSize ∧
      next.pool.maxQueueSize = state.pool.maxQueueSize := by
  rcases PoolState.destroyStep_cases taken with
    ⟨-, rfl⟩ | ⟨-, place, -, rfl⟩ | ⟨-, rfl⟩
  · exact ⟨Nat.le_refl _, rfl⟩
  · exact ⟨Nat.le_refl _, rfl⟩
  · exact ⟨Nat.zero_le _, rfl⟩

theorem workerStep_queueSize {expired : Bool}
    (taken : next ∈ state.workerStep thread expired place) :
    next.pool.queueSize ≤ state.pool.queueSize ∧
      next.pool.maxQueueSize = state.pool.maxQueueSize := by
  rcases PoolState.workerStep_cases taken with
    ⟨item, -, rfl⟩ | ⟨-, ⟨-, rfl⟩ | ⟨-, -, rfl⟩ | ⟨-, rfl⟩⟩
  · exact ⟨Nat.le_refl _, rfl⟩
  · exact proceed_queueSize thread
  · exact ⟨Nat.le_refl _, rfl⟩
  · exact ⟨Nat.le_refl _, rfl⟩

theorem addWork_bounded (bounded : state.Bounded) {work : ω} {allocated created : Bool}
    (running : state.destroyer ≠ .freed) :
    (state.addWork work allocated created).Bounded ↔
      ¬ GrowsFullQueue state (.addWork work allocated created) := by
  have within : state.pool.queueSize ≤ state.pool.maxQueueSize := bounded
  rw [PoolState.addWork]
  split_ifs with unallocated shutdown full below isCreated
  · refine iff_of_true bounded fun grows => ?_
    rw [grows.1] at unallocated
    cases unallocated
  · refine iff_of_true bounded fun grows => ?_
    rw [grows.2.2.2.1] at shutdown
    cases shutdown
  · obtain ⟨threads, strayWrites, started⟩ :=
      PoolState.startWorker_eq { state with calls := state.calls + 1 }
    have grows : GrowsFullQueue state (.addWork work allocated created) := by
      refine ⟨?_, isCreated, running, Bool.eq_false_iff.mpr shutdown, full, below⟩
      simpa using unallocated
    refine iff_of_false ?_ (not_not_intro grows)
    rw [started]
    exact fun within => Nat.lt_irrefl _ (Nat.lt_of_lt_of_le (Nat.lt_succ_of_le full) within)
  · exact iff_of_true bounded fun grows => isCreated grows.2.1
  · exact iff_of_true bounded fun grows => below grows.2.2.2.2.2
  · exact iff_of_true (Nat.lt_of_not_le full) fun grows => full grows.2.2.2.2.1

theorem bounded_step (bounded : state.Bounded) (taken : next ∈ poolStep state event) :
    next.Bounded ↔ ¬ GrowsFullQueue state event := by
  have smaller : next.pool.queueSize ≤ state.pool.queueSize ∧
      next.pool.maxQueueSize = state.pool.maxQueueSize → next.Bounded := by
    intro sizes
    rw [PoolState.Bounded, sizes.2]
    exact Nat.le_trans sizes.1 bounded
  rcases poolStep_cases taken with
    ⟨work, allocated, created, rfl, running, rfl⟩ |
    ⟨minThreads, maxThreads, starts, resized, rfl, running, rfl⟩ | ⟨rfl, destroys⟩ |
    ⟨thread, expired, place, rfl, there, works⟩
  · exact addWork_bounded bounded running
  · have sizes := @adjust_queueSize ω state minThreads maxThreads starts resized
    exact iff_of_true (smaller ⟨Nat.le_of_eq sizes.1, sizes.2⟩) id
  · exact iff_of_true (smaller (destroyStep_queueSize destroys)) id
  · exact iff_of_true (smaller (workerStep_queueSize works)) id

theorem taken_of_growsFullQueue (grows : GrowsFullQueue state event) :
    ∃ next, next ∈ poolStep state event := by
  cases event with
  | addWork work allocated created => exact ⟨_, if_neg grows.2.2.1⟩
  | _ => exact grows.elim

theorem queueLaw_iff (kept : PoolKept state) (bounded : state.Bounded)
    (events : List (PoolEvent ω)) :
    EveryStep poolStep QueueLawAfter state events ↔
      EveryStep poolStep (fun state event => ¬ GrowsFullQueue state event) state events := by
  have keeps : Keeps poolStep (fun state event => ¬ GrowsFullQueue state event)
      fun state : PoolState ω => PoolKept state ∧ state.Bounded := by
    intro state event next inv noGrowth taken
    exact ⟨inv.1.step taken, (bounded_step inv.2 taken).mpr noGrowth⟩
  refine EveryStep.iff_of_keeps keeps ?_ ⟨kept, bounded⟩
  intro state event inv
  constructor
  · intro lawful grows
    obtain ⟨next, taken⟩ := taken_of_growsFullQueue grows
    exact (bounded_step inv.2 taken).mp (lawful next taken).bounded grows
  · intro noGrowth next taken
    exact (inv.1.step taken).law ((bounded_step inv.2 taken).mpr noGrowth)

end Jdbx
