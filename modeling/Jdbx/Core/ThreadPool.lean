import Jdbx.Library.GuardedRun

/-!
# The thread pool

`thread_pool.c`: a queue of work items, an array of worker threads, and one mutex.  Each
section under the mutex is one step, and so is each access without it.  Threads are numbered
in the order in which they are created.

Beside what the code keeps, the state lists the items that were accepted, taken, executed and
dropped, and the places past the end of the array that were written.
-/

namespace Jdbx

/-- A `work_item_t`, marked with the number of its submission. -/
structure WorkItem (ω : Type) where
  ticket : Nat
  work : ω
  deriving DecidableEq

/-- Where a worker stands in `thread_worker`. -/
inductive WorkerPlace (ω : Type) where
  /-- At the head of its loop. -/
  | start
  /-- In `pthread_cond_timedwait`. -/
  | waiting
  /-- The item is taken, and its function has not returned. -/
  | running (item : WorkItem ω)
  /-- The function has returned, and `active_threads` still counts the worker. -/
  | reporting
  /-- Has left after an idle time. -/
  | timedOut
  /-- Has left for the shutdown. -/
  | ended

namespace WorkerPlace

variable {ω : Type}

def busy : WorkerPlace ω → Bool
  | running _ | reporting => true
  | _ => false

def item : WorkerPlace ω → Option (WorkItem ω)
  | running item => some item
  | _ => none

def returned : WorkerPlace ω → Bool
  | timedOut | ended => true
  | _ => false

end WorkerPlace

/-- Where the caller of `thread_pool_destroy` stands: before the check of the count, before it
reads the slot, in `pthread_join`, or after the loop. -/
inductive DestroyPlace where
  | idle
  | counting (index : Nat)
  | reading (index : Nat)
  | joining (index thread : Nat)
  | releasing
  | freed
  deriving DecidableEq

/-- `thread_pool_t`.  A slot of the array has no thread until one is stored. -/
structure ThreadPool (ω : Type) where
  queue : List (WorkItem ω)
  queueSize : Nat
  maxQueueSize : Nat
  threads : List (Option Nat)
  threadCount : Nat
  minThreads : Nat
  maxThreads : Nat
  activeThreads : Nat
  shutdown : Bool
  tasksProcessed : Nat
  peakQueueSize : Nat
  peakThreads : Nat

structure PoolState (ω : Type) where
  pool : ThreadPool ω
  workers : List (WorkerPlace ω)
  destroyer : DestroyPlace
  /-- The submissions that have been called. -/
  calls : Nat
  /-- The items of the submissions that returned 0. -/
  accepted : List (WorkItem ω)
  /-- The items in the order in which they left the queue. -/
  taken : List (WorkItem ω)
  /-- The items whose function has been executed. -/
  executed : List (WorkItem ω)
  /-- The items that `thread_pool_destroy` has freed. -/
  dropped : List (WorkItem ω)
  /-- The indices past the end of the array at which it was written. -/
  strayWrites : List Nat

/-- `thread_pool_config_t`, but for the idle time. -/
structure PoolConfig where
  minThreads : Int
  maxThreads : Int
  queueSize : Int

section Model

variable {ω : Type}

/-- `thread_pool_create_config`, where the system grants what it asks for. -/
def threadPoolCreateConfig (config : PoolConfig) : Option (PoolState ω) :=
  if config.minThreads ≤ 0 ∨ config.maxThreads ≤ 0 ∨ config.minThreads > config.maxThreads ∨
      config.queueSize ≤ 0 then none
  else
    let count := config.minThreads.toNat
    let capacity := config.maxThreads.toNat
    some {
      pool := {
        queue := []
        queueSize := 0
        maxQueueSize := config.queueSize.toNat
        threads := (List.range count).map some ++ List.replicate (capacity - count) none
        threadCount := count
        minThreads := count
        maxThreads := capacity
        activeThreads := 0
        shutdown := false
        tasksProcessed := 0
        peakQueueSize := 0
        peakThreads := count }
      workers := List.replicate count .start
      destroyer := .idle
      calls := 0
      accepted := []
      taken := []
      executed := []
      dropped := []
      strayWrites := [] }

namespace PoolState

variable (state : PoolState ω)

def goTo (thread : Nat) (place : WorkerPlace ω) : PoolState ω :=
  { state with workers := state.workers.set thread place }

/-- `pool->threads[index] = thread`.  What a write past the array changes is not modelled. -/
def storeThread (index thread : Nat) : PoolState ω :=
  if index < state.pool.threads.length then
    { state with pool := { state.pool with threads := state.pool.threads.set index (some thread) } }
  else { state with strayWrites := state.strayWrites ++ [index] }

/-- A thread is created, stored where the count is below the maximum, and counted. -/
def startWorker : PoolState ω :=
  let thread := state.workers.length
  let index := state.pool.threadCount
  let stored := if index < state.pool.maxThreads then state.storeThread index thread else state
  { stored with
    pool := { stored.pool with
      threadCount := index + 1
      peakThreads := max stored.pool.peakThreads (index + 1) }
    workers := stored.workers ++ [.start] }

/-- The item is put at the end of the queue, and the submission returns 0. -/
def enqueueWork (item : WorkItem ω) : PoolState ω :=
  { state with
    pool := { state.pool with
      queue := state.pool.queue ++ [item]
      queueSize := state.pool.queueSize + 1
      peakQueueSize := max state.pool.peakQueueSize (state.pool.queueSize + 1) }
    accepted := state.accepted ++ [item] }

/-- `thread_pool_add_work`.  `allocated` is the answer of `BUFFER_ALLOC`, and `created` the
answer of `pthread_create`. -/
def addWork (work : ω) (allocated created : Bool) : PoolState ω :=
  let item := { ticket := state.calls, work := work }
  let called := { state with calls := state.calls + 1 }
  if !allocated then called
  else if state.pool.shutdown then called
  else if state.pool.queueSize ≥ state.pool.maxQueueSize then
    if state.pool.threadCount < state.pool.maxThreads then
      if created then called.startWorker.enqueueWork item else called
    else called
  else called.enqueueWork item

/-- The loop of `thread_pool_adjust`: so many threads are needed, and so many calls of
`pthread_create` succeed.  The answer is whether there were enough. -/
def startWorkers (state : PoolState ω) : Nat → Nat → PoolState ω × Bool
  | 0, _ => (state, true)
  | _ + 1, 0 => (state, false)
  | needed + 1, starts + 1 => startWorkers state.startWorker needed starts

def setBounds (minThreads maxThreads : Nat) : PoolState ω :=
  { state with pool := { state.pool with minThreads := minThreads, maxThreads := maxThreads } }

/-- `BUFFER_REALLOC` of the array. -/
def resize (capacity : Nat) : PoolState ω :=
  { state with
    pool := { state.pool with
      threads := state.pool.threads.take capacity ++
        List.replicate (capacity - state.pool.threads.length) none } }

/-- `thread_pool_adjust` under the mutex. -/
def adjustTo (minThreads maxThreads starts : Nat) (resized : Bool) : PoolState ω :=
  let oldMin := state.pool.minThreads
  let oldMax := state.pool.maxThreads
  let bounded := state.setBounds minThreads maxThreads
  match bounded.startWorkers (minThreads - state.pool.threadCount) starts with
  | (grown, false) => grown.setBounds oldMin oldMax
  | (grown, true) =>
      if maxThreads > oldMax then
        if resized then grown.resize maxThreads else grown.setBounds oldMin oldMax
      else grown

/-- `thread_pool_adjust`.  `starts` calls of `pthread_create` succeed, and `resized` is the
answer of `BUFFER_REALLOC`. -/
def adjust (minThreads maxThreads : Int) (starts : Nat) (resized : Bool) : PoolState ω :=
  if minThreads ≤ 0 ∨ maxThreads ≤ 0 ∨ minThreads > maxThreads then state
  else state.adjustTo minThreads.toNat maxThreads.toNat starts resized

/-- The worker waits while there is no work and no shutdown; it leaves for a shutdown without
work; and otherwise it takes the first item. -/
def proceed (thread : Nat) : PoolState ω :=
  match state.pool.queue with
  | [] => if state.pool.shutdown then state.goTo thread .ended else state.goTo thread .waiting
  | item :: rest =>
      { state with
        pool := { state.pool with
          queue := rest
          queueSize := state.pool.queueSize - 1
          activeThreads := state.pool.activeThreads + 1 }
        taken := state.taken ++ [item] }.goTo thread (.running item)

def leave (thread : Nat) : PoolState ω :=
  { state with pool := { state.pool with threadCount := state.pool.threadCount - 1 } }.goTo
    thread .timedOut

def execute (thread : Nat) (item : WorkItem ω) : PoolState ω :=
  { state with executed := state.executed ++ [item] }.goTo thread .reporting

def report (thread : Nat) : PoolState ω :=
  { state with
    pool := { state.pool with
      tasksProcessed := state.pool.tasksProcessed + 1
      activeThreads := state.pool.activeThreads - 1 } }.goTo thread .start

/-- The first section of `thread_pool_destroy`. -/
def shutDown : PoolState ω :=
  { state with pool := { state.pool with shutdown := true }, destroyer := .counting 0 }

/-- The end of `thread_pool_destroy`: what is left in the queue is freed with the pool. -/
def release : PoolState ω :=
  { state with
    pool := { state.pool with queue := [], queueSize := 0 }
    dropped := state.dropped ++ state.pool.queue
    destroyer := .freed }

/-- The next step of `thread_pool_destroy`.  A join waits until the thread has returned, and
a slot without a thread cannot be joined. -/
def destroyStep : Option (PoolState ω) :=
  match state.destroyer with
  | .idle => some state.shutDown
  | .counting index =>
      if index < state.pool.threadCount then some { state with destroyer := .reading index }
      else some { state with destroyer := .releasing }
  | .reading index =>
      match state.pool.threads[index]? with
      | some (some thread) => some { state with destroyer := .joining index thread }
      | _ => none
  | .joining index thread =>
      if (state.workers[thread]?.map WorkerPlace.returned).getD false then
        some { state with destroyer := .counting (index + 1) }
      else none
  | .releasing => some state.release
  | .freed => none

/-- The next step of a worker.  `expired` says that its wait timed out and that it has been
idle for `idle_timeout`.  A worker of a pool that is freed can only finish its item. -/
def workerStep (thread : Nat) (expired : Bool) : WorkerPlace ω → Option (PoolState ω)
  | .start => if state.destroyer = .freed then none else some (state.proceed thread)
  | .waiting =>
      if state.destroyer = .freed then none
      else if expired ∧ state.pool.threadCount > state.pool.minThreads then
        some (state.leave thread)
      else some (state.proceed thread)
  | .running item => some (state.execute thread item)
  | .reporting => if state.destroyer = .freed then none else some (state.report thread)
  | .timedOut | .ended => none

end PoolState

attribute [grind =] threadPoolCreateConfig PoolState.destroyStep

inductive PoolEvent (ω : Type) where
  | addWork (work : ω) (allocated created : Bool)
  | adjust (minThreads maxThreads : Int) (starts : Nat) (resized : Bool)
  | destroy
  | work (thread : Nat) (expired : Bool)

/-- One step.  A pool that is freed takes no call. -/
def poolStep (state : PoolState ω) : PoolEvent ω → Option (PoolState ω)
  | .addWork work allocated created =>
      if state.destroyer = .freed then none else some (state.addWork work allocated created)
  | .adjust minThreads maxThreads starts resized =>
      if state.destroyer = .freed then none
      else some (state.adjust minThreads maxThreads starts resized)
  | .destroy => state.destroyStep
  | .work thread expired =>
      match state.workers[thread]? with
      | some place => state.workerStep thread expired place
      | none => none

end Model

variable {ω : Type} {state next : PoolState ω} {thread : Nat} {place : WorkerPlace ω}

namespace PoolState

theorem destroyStep_cases (taken : next ∈ state.destroyStep) :
    (state.destroyer = .idle ∧ next = state.shutDown) ∨
      (state.destroyer ≠ .freed ∧ ∃ place, place ≠ .freed ∧
        next = { state with destroyer := place }) ∨
      (state.destroyer = .releasing ∧ next = state.release) := by
  rw [destroyStep] at taken
  cases destroyer : state.destroyer with
  | idle =>
      simp only [destroyer] at taken
      exact Or.inl ⟨rfl, (Option.some.inj taken).symm⟩
  | counting index =>
      simp only [destroyer] at taken
      split_ifs at taken
      · exact Or.inr (Or.inl ⟨nofun, .reading index, nofun, (Option.some.inj taken).symm⟩)
      · exact Or.inr (Or.inl ⟨nofun, .releasing, nofun, (Option.some.inj taken).symm⟩)
  | reading index =>
      simp only [destroyer] at taken
      split at taken
      next thread _ =>
        exact Or.inr (Or.inl ⟨nofun, .joining index thread, nofun, (Option.some.inj taken).symm⟩)
      next => cases taken
  | joining index thread =>
      simp only [destroyer] at taken
      split_ifs at taken
      · exact Or.inr (Or.inl ⟨nofun, .counting (index + 1), nofun, (Option.some.inj taken).symm⟩)
      · cases taken
  | releasing =>
      simp only [destroyer] at taken
      exact Or.inr (Or.inr ⟨rfl, (Option.some.inj taken).symm⟩)
  | freed =>
      simp only [destroyer] at taken
      cases taken

theorem workerStep_cases {expired : Bool}
    (taken : next ∈ state.workerStep thread expired place) :
    (∃ item, place = .running item ∧ next = state.execute thread item) ∨
      (state.destroyer ≠ .freed ∧
        (((place = .start ∨ place = .waiting) ∧ next = state.proceed thread) ∨
          (place = .waiting ∧ state.pool.minThreads < state.pool.threadCount ∧
            next = state.leave thread) ∨
          (place = .reporting ∧ next = state.report thread))) := by
  cases place with
  | start =>
      rw [workerStep] at taken
      split_ifs at taken with freed
      · cases taken
      · exact Or.inr ⟨freed, Or.inl ⟨Or.inl rfl, (Option.some.inj taken).symm⟩⟩
  | waiting =>
      rw [workerStep] at taken
      split_ifs at taken with freed leaves
      · cases taken
      · exact Or.inr ⟨freed, Or.inr (Or.inl ⟨rfl, leaves.2, (Option.some.inj taken).symm⟩)⟩
      · exact Or.inr ⟨freed, Or.inl ⟨Or.inr rfl, (Option.some.inj taken).symm⟩⟩
  | running item => exact Or.inl ⟨item, rfl, (Option.some.inj taken).symm⟩
  | reporting =>
      rw [workerStep] at taken
      split_ifs at taken with freed
      · cases taken
      · exact Or.inr ⟨freed, Or.inr (Or.inr ⟨rfl, (Option.some.inj taken).symm⟩)⟩
  | timedOut => cases taken
  | ended => cases taken

end PoolState

theorem poolStep_cases {event : PoolEvent ω} (taken : next ∈ poolStep state event) :
    (∃ work allocated created, event = .addWork work allocated created ∧
        state.destroyer ≠ .freed ∧ next = state.addWork work allocated created) ∨
      (∃ minThreads maxThreads starts resized,
        event = .adjust minThreads maxThreads starts resized ∧ state.destroyer ≠ .freed ∧
          next = state.adjust minThreads maxThreads starts resized) ∨
      (event = .destroy ∧ next ∈ state.destroyStep) ∨
      (∃ thread expired place, event = .work thread expired ∧
        state.workers[thread]? = some place ∧ next ∈ state.workerStep thread expired place) := by
  cases event with
  | addWork work allocated created =>
      rw [poolStep] at taken
      split_ifs at taken with freed
      · cases taken
      · exact Or.inl ⟨work, allocated, created, rfl, freed, (Option.some.inj taken).symm⟩
  | adjust minThreads maxThreads starts resized =>
      rw [poolStep] at taken
      split_ifs at taken with freed
      · cases taken
      · exact Or.inr (Or.inl ⟨minThreads, maxThreads, starts, resized, rfl, freed,
          (Option.some.inj taken).symm⟩)
  | destroy => exact Or.inr (Or.inr (Or.inl ⟨rfl, taken⟩))
  | work thread expired =>
      rw [poolStep] at taken
      cases there : state.workers[thread]? with
      | none =>
          rw [there] at taken
          cases taken
      | some place =>
          rw [there] at taken
          exact Or.inr (Or.inr (Or.inr ⟨thread, expired, place, rfl, there, taken⟩))

end Jdbx
