import Jdbx.Core.PoolProgress

/-!
# Waiting for the thread pool

`thread_pool_wait` blocks on `idle_cond` while there is an item in the queue or at work.  The
worker that finishes the last item wakes one of the callers that are blocked, so a caller is
stranded just where a second one was blocked.
-/

namespace Jdbx

open Library

variable {ω : Type} {waiters : List WaiterPlace}

/-- Where a call of `thread_pool_wait` stands: in `pthread_cond_wait`, woken and about to look
again, or behind its return. -/
inductive WaiterPlace where
  | blocked
  | woken
  | returned
  deriving DecidableEq

/-- The pool, with the calls of `thread_pool_wait` in the order in which they were made. -/
structure WaitedPool (ω : Type) where
  state : PoolState ω
  waiters : List WaiterPlace

section Model

def PoolState.NoWork (state : PoolState ω) : Prop :=
  state.pool.queueSize = 0 ∧ state.pool.activeThreads = 0

instance (state : PoolState ω) : Decidable state.NoWork :=
  inferInstanceAs (Decidable (_ ∧ _))

/-- The condition of the loop of `thread_pool_wait`. -/
def PoolState.lookIdle (state : PoolState ω) : WaiterPlace :=
  if state.pool.queueSize > 0 ∨ state.pool.activeThreads > 0 then .blocked else .returned

def PoolState.reports (state : PoolState ω) (thread : Nat) : Bool :=
  match state.workers[thread]? with
  | some .reporting => true
  | _ => false

/-- `pthread_cond_signal(&pool->idle_cond)` wakes a blocked caller: the chosen one, or else the
first. -/
def signalIdle (waiters : List WaiterPlace) (chosen : Nat) : List WaiterPlace :=
  if waiters[chosen]? = some .blocked then waiters.set chosen .woken
  else waiters.set (waiters.idxOf .blocked) .woken

inductive WaitEvent (ω : Type) where
  | addWork (work : ω) (allocated created : Bool)
  | work (thread : Nat) (expired : Bool) (chosen : Nat)
  | wait
  /-- A woken caller has the mutex again. -/
  | look (waiter : Nat)
  /-- `pthread_cond_wait` may return without a signal. -/
  | wake (waiter : Nat)

/-- One section under the mutex. -/
def waitStep (pool : WaitedPool ω) : WaitEvent ω → Option (WaitedPool ω)
  | .addWork work allocated created =>
      (poolStep pool.state (.addWork work allocated created)).map fun next =>
        { pool with state := next }
  | .work thread expired chosen =>
      (poolStep pool.state (.work thread expired)).map fun next =>
        if pool.state.reports thread ∧ next.NoWork then
          { state := next, waiters := signalIdle pool.waiters chosen }
        else { pool with state := next }
  | .wait => some { pool with waiters := pool.waiters ++ [pool.state.lookIdle] }
  | .look waiter =>
      if pool.waiters[waiter]? = some .woken then
        some { pool with waiters := pool.waiters.set waiter pool.state.lookIdle }
      else none
  | .wake waiter =>
      if pool.waiters[waiter]? = some .blocked then
        some { pool with waiters := pool.waiters.set waiter .woken }
      else none

end Model

def PoolState.AllDone (state : PoolState ω) : Prop :=
  state.pool.queue = [] ∧ ∀ place ∈ state.workers, place.busy = false

/-- With all work done no caller is blocked, and a caller returns only then. -/
structure WaitsLawfully (pool next : WaitedPool ω) : Prop where
  noneStranded : next.state.AllDone → .blocked ∉ next.waiters
  returnsDone : ∀ waiter : Nat, next.waiters[waiter]? = some .returned →
    pool.waiters[waiter]? = some .returned ∨ next.state.AllDone

def WaitsServed (pool : WaitedPool ω) (event : WaitEvent ω) : Prop :=
  ∀ next ∈ waitStep pool event, WaitsLawfully pool next

/-- Where the only worker with an item reports its end behind an empty queue, at most one
caller is blocked. -/
def OneBlocked (pool : WaitedPool ω) : WaitEvent ω → Prop
  | .work thread _ _ => pool.state.reports thread → pool.state.pool.queueSize = 0 →
      pool.state.pool.activeThreads = 1 → pool.waiters.count .blocked ≤ 1
  | _ => True

theorem count_set_woken {waiter : Nat} (there : waiters[waiter]? = some .blocked) :
    (waiters.set waiter .woken).count .blocked + 1 = waiters.count .blocked :=
  countP_set there .woken (· == .blocked)

theorem count_signalIdle (waiters : List WaiterPlace) (chosen : Nat) :
    (signalIdle waiters chosen).count .blocked = waiters.count .blocked - 1 := by
  rw [signalIdle]
  split_ifs with there
  · exact Nat.eq_sub_of_add_eq (count_set_woken there)
  · by_cases member : .blocked ∈ waiters
    · have found : waiters[waiters.idxOf .blocked]? = some .blocked :=
        List.getElem?_idxOf member
      exact Nat.eq_sub_of_add_eq (count_set_woken found)
    · rw [List.set_eq_of_length_le (Nat.le_of_eq (List.idxOf_eq_length_iff.mpr member).symm),
        List.count_eq_zero.mpr member]

theorem blocked_mem_signalIdle {chosen : Nat} :
    .blocked ∈ signalIdle waiters chosen ↔ 1 < waiters.count .blocked := by
  rw [← List.count_pos_iff, count_signalIdle]
  omega

theorem returned_of_set {waiter other : Nat}
    (there : (waiters.set waiter .woken)[other]? = some .returned) :
    waiters[other]? = some .returned := by
  rcases getElem?_set_cases there with ⟨-, different⟩ | ⟨-, same⟩
  · cases different
  · exact same

theorem returned_of_signalIdle {chosen other : Nat}
    (there : (signalIdle waiters chosen)[other]? = some .returned) :
    waiters[other]? = some .returned := by
  rw [signalIdle] at there
  split_ifs at there
  · exact returned_of_set there
  · exact returned_of_set there

variable {state next : PoolState ω} {thread : Nat}

theorem lookIdle_eq_blocked : state.lookIdle = .blocked ↔ ¬state.NoWork := by
  rw [PoolState.lookIdle, PoolState.NoWork]
  split_ifs with work
  · exact iff_of_true rfl (by omega)
  · exact iff_of_false nofun (by omega)

theorem lookIdle_eq_returned : state.lookIdle = .returned ↔ state.NoWork := by
  rw [PoolState.lookIdle, PoolState.NoWork]
  split_ifs with work
  · exact iff_of_false nofun (by omega)
  · exact iff_of_true rfl (by omega)

theorem PoolKept.noWork_iff (kept : PoolKept state) : state.NoWork ↔ state.AllDone := by
  rw [PoolState.NoWork, PoolState.AllDone, kept.size, kept.active, List.length_eq_zero_iff,
    List.countP_eq_zero]
  simp

theorem noWork_of_addWork {work : ω} {allocated created : Bool}
    (quiet : (state.addWork work allocated created).NoWork) : state.NoWork := by
  rw [PoolState.addWork] at quiet
  split_ifs at quiet
  · exact quiet
  · exact quiet
  · cases quiet.1
  · exact quiet
  · exact quiet
  · cases quiet.1

/-- A step behind which there is no work takes the report of the last item, or there was no
work before it. -/
theorem noWork_of_work (kept : PoolKept state) {expired : Bool}
    (taken : next ∈ poolStep state (.work thread expired)) (quiet : next.NoWork) :
    (state.reports thread = true ∧ state.pool.queueSize = 0 ∧ state.pool.activeThreads = 1) ∨
      (state.reports thread = false ∧ state.NoWork) := by
  rw [poolStep] at taken
  split at taken
  next place there =>
    rcases PoolState.workerStep_cases taken with
      ⟨item, rfl, rfl⟩ | ⟨-, ⟨waits, rfl⟩ | ⟨rfl, -, rfl⟩ | ⟨rfl, rfl⟩⟩
    · exact Or.inr ⟨by rw [PoolState.reports, there], quiet⟩
    · refine Or.inr ⟨?_, ?_⟩
      · rw [PoolState.reports, there]
        rcases waits with rfl | rfl
        · rfl
        · rfl
      · rw [PoolState.proceed] at quiet
        split at quiet
        · split_ifs at quiet
          · exact quiet
          · exact quiet
        · cases quiet.2
    · exact Or.inr ⟨by rw [PoolState.reports, there], quiet⟩
    · have busy : 0 < state.pool.activeThreads := by
        rw [kept.active, List.countP_pos_iff]
        exact ⟨.reporting, List.mem_of_getElem? there, rfl⟩
      have less : state.pool.activeThreads - 1 = 0 := quiet.2
      exact Or.inl ⟨by rw [PoolState.reports, there], quiet.1, by omega⟩
  next => cases taken

theorem report_of_reports (running : state.destroyer ≠ .freed)
    (reports : state.reports thread = true) (expired : Bool) :
    poolStep state (.work thread expired) = some (state.report thread) := by
  rw [PoolState.reports] at reports
  split at reports
  next there =>
    rw [poolStep, there]
    exact if_neg running
  next => cases reports

theorem workerStep_destroyer {expired : Bool} {place : WorkerPlace ω}
    (taken : next ∈ state.workerStep thread expired place) :
    next.destroyer = state.destroyer := by
  rcases PoolState.workerStep_cases taken with
    ⟨item, -, rfl⟩ | ⟨-, ⟨-, rfl⟩ | ⟨-, -, rfl⟩ | ⟨-, rfl⟩⟩
  · rfl
  · rw [PoolState.proceed]
    split
    · split_ifs
      · rfl
      · rfl
    · rfl
  · rfl
  · rfl

theorem addWork_destroyer (work : ω) (allocated created : Bool) :
    (state.addWork work allocated created).destroyer = state.destroyer := by
  rw [PoolState.addWork]
  split_ifs
  · rfl
  · rfl
  · obtain ⟨threads, strayWrites, started⟩ :=
      PoolState.startWorker_eq { state with calls := state.calls + 1 }
    rw [started]
    rfl
  · rfl
  · rfl
  · rfl

/-- A pool that is not freed, and in which no caller is blocked without work. -/
structure WaitKept (pool : WaitedPool ω) : Prop where
  kept : PoolKept pool.state
  running : pool.state.destroyer ≠ .freed
  served : pool.state.NoWork → .blocked ∉ pool.waiters

variable {pool after : WaitedPool ω} {event : WaitEvent ω}

theorem WaitKept.lawful (kept : WaitKept after)
    (returns : ∀ waiter : Nat, after.waiters[waiter]? = some .returned →
      pool.waiters[waiter]? = some .returned ∨ after.state.NoWork) :
    WaitsLawfully pool after where
  noneStranded := fun done => kept.served (kept.kept.noWork_iff.mpr done)
  returnsDone := fun waiter there =>
    (returns waiter there).imp_right kept.kept.noWork_iff.mp

theorem WaitKept.look (kept : WaitKept pool)
    (others : ∀ place ∈ waiters, place ∈ pool.waiters ∨ place = pool.state.lookIdle) :
    WaitKept { pool with waiters := waiters } where
  kept := kept.kept
  running := kept.running
  served := by
    intro quiet member
    rcases others _ member with old | new
    · exact kept.served quiet old
    · exact lookIdle_eq_blocked.mp new.symm quiet

theorem WaitKept.step (kept : WaitKept pool) (one : OneBlocked pool event)
    (taken : after ∈ waitStep pool event) : WaitKept after ∧ WaitsLawfully pool after := by
  cases event with
  | addWork work allocated created =>
      obtain ⟨next, stepped, same⟩ := Option.map_eq_some_iff.mp taken
      subst same
      have nextKept := kept.kept.step stepped
      rw [poolStep, if_neg kept.running] at stepped
      cases stepped
      have afterKept : WaitKept
          { pool with state := pool.state.addWork work allocated created } :=
        { kept := nextKept
          running := @addWork_destroyer ω pool.state work allocated created ▸ kept.running
          served := fun quiet => kept.served (noWork_of_addWork quiet) }
      exact ⟨afterKept, afterKept.lawful fun _ there => Or.inl there⟩
  | work thread expired chosen =>
      obtain ⟨next, stepped, same⟩ := Option.map_eq_some_iff.mp taken
      subst same
      have nextKept := kept.kept.step stepped
      have running : next.destroyer ≠ .freed := by
        rw [poolStep] at stepped
        split at stepped
        next place there => exact workerStep_destroyer stepped ▸ kept.running
        next => cases stepped
      split_ifs with signals
      · have few : pool.waiters.count .blocked ≤ 1 := by
          rcases noWork_of_work kept.kept stepped signals.2 with ⟨reports, empty, last⟩ | ⟨none, -⟩
          · exact one reports empty last
          · rw [none] at signals
            cases signals.1
        have afterKept : WaitKept
            { state := next, waiters := signalIdle pool.waiters chosen } :=
          { kept := nextKept
            running := running
            served := fun _ member => Nat.not_lt.mpr few (blocked_mem_signalIdle.mp member) }
        exact ⟨afterKept, afterKept.lawful fun _ there => Or.inl (returned_of_signalIdle there)⟩
      · have afterKept : WaitKept { pool with state := next } := by
          refine ⟨nextKept, running, fun quiet => kept.served ?_⟩
          rcases noWork_of_work kept.kept stepped quiet with ⟨reports, -⟩ | ⟨-, before⟩
          · exact (signals ⟨reports, quiet⟩).elim
          · exact before
        exact ⟨afterKept, afterKept.lawful fun _ there => Or.inl there⟩
  | wait =>
      cases taken
      have afterKept : WaitKept { pool with waiters := pool.waiters ++ [pool.state.lookIdle] } :=
        kept.look fun place member =>
          (List.mem_append.mp member).imp_right List.mem_singleton.mp
      refine ⟨afterKept, afterKept.lawful fun waiter there => ?_⟩
      rw [List.getElem?_append] at there
      split_ifs at there with inside
      · exact Or.inl there
      · exact Or.inr (lookIdle_eq_returned.mp
          (List.mem_singleton.mp (List.mem_of_getElem? there)).symm)
  | look waiter =>
      obtain ⟨-, same⟩ := Option.ite_none_right_eq_some.mp taken
      cases same
      have afterKept : WaitKept
          { pool with waiters := pool.waiters.set waiter pool.state.lookIdle } :=
        kept.look fun place member => List.mem_or_eq_of_mem_set member
      refine ⟨afterKept, afterKept.lawful fun other there => ?_⟩
      rcases getElem?_set_cases there with ⟨-, looked⟩ | ⟨-, same⟩
      · exact Or.inr (lookIdle_eq_returned.mp looked.symm)
      · exact Or.inl same
  | wake waiter =>
      obtain ⟨-, same⟩ := Option.ite_none_right_eq_some.mp taken
      cases same
      have afterKept : WaitKept { pool with waiters := pool.waiters.set waiter .woken } := by
        refine ⟨kept.kept, kept.running, fun quiet member => ?_⟩
        rcases List.mem_or_eq_of_mem_set member with old | new
        · exact kept.served quiet old
        · cases new
      exact ⟨afterKept, afterKept.lawful fun _ there => Or.inl (returned_of_set there)⟩

/-- A second caller that is blocked when the last item is reported stays blocked. -/
theorem WaitKept.oneBlocked (kept : WaitKept pool) (served : WaitsServed pool event) :
    OneBlocked pool event := by
  cases event with
  | work thread expired chosen =>
      intro reports empty last
      by_contra many
      have quiet : (pool.state.report thread).NoWork := by
        refine ⟨empty, ?_⟩
        change pool.state.pool.activeThreads - 1 = 0
        rw [last]
      have stepped := report_of_reports kept.running reports expired
      have done := (kept.kept.step stepped).noWork_iff.mp quiet
      have lawful : WaitsLawfully pool
          { state := pool.state.report thread
            waiters := signalIdle pool.waiters chosen } := by
        apply served
        rw [waitStep, stepped, Option.map_some, if_pos ⟨reports, quiet⟩]
        rfl
      exact lawful.noneStranded done (blocked_mem_signalIdle.mpr (Nat.lt_of_not_le many))
  | _ => trivial

def PoolState.unwaited (state : PoolState ω) : WaitedPool ω :=
  { state := state, waiters := [] }

/-- No caller is stranded and none returns early, in a run of any calls and workers on a new
pool, exactly when each report of the last item finds at most one caller blocked. -/
theorem waitsServed_iff {config : PoolConfig} {start : PoolState ω}
    (created : threadPoolCreateConfig config = some start) (events : List (WaitEvent ω)) :
    EveryStep waitStep WaitsServed start.unwaited events ↔
      EveryStep waitStep OneBlocked start.unwaited events := by
  have first : WaitKept start.unwaited := by
    refine ⟨poolKept_create created, ?_, fun _ => List.not_mem_nil⟩
    rw [threadPoolCreateConfig] at created
    split_ifs at created
    cases created
    nofun
  refine EveryStep.iff_of_keeps
    (fun pool event after kept one taken => (kept.step one taken).1) ?_ first
  intro pool event kept
  exact ⟨kept.oneBlocked, fun one after taken => (kept.step one taken).2⟩

def twoWaiters : List (WaitEvent Nat) :=
  [.addWork 7 true true, .wait, .wait, .work 0 false 0, .work 0 false 0]

theorem waitsServed_iff_twoWaiters :
    EveryStep waitStep WaitsServed smallPool.unwaited twoWaiters ↔
      EveryStep waitStep OneBlocked smallPool.unwaited twoWaiters := by
  have created : threadPoolCreateConfig ⟨1, 2, 1⟩ = some smallPool := rfl
  exact waitsServed_iff created twoWaiters

/-- The worker reports the item, and the second caller is left blocked. -/
theorem not_waitsServed_twoWaiters :
    ¬EveryStep waitStep WaitsServed smallPool.unwaited (twoWaiters ++ [.work 0 false 0]) := by
  intro served
  obtain ⟨pool, reached, blocked⟩ : ∃ pool,
      runFrom waitStep smallPool.unwaited twoWaiters = some pool ∧
        ∃ after, waitStep pool (.work 0 false 0) = some after ∧ after.state.pool.queue = [] ∧
          (∀ place ∈ after.state.workers, place.busy = false) ∧
            after.waiters = [.woken, .blocked] :=
    ⟨_, rfl, _, rfl, rfl, by decide +kernel, rfl⟩
  obtain ⟨after, taken, empty, idle, waiters⟩ := blocked
  refine (served.last reached after taken).noneStranded ⟨empty, idle⟩ ?_
  rw [waiters]
  exact List.mem_cons_of_mem _ List.mem_cons_self

end Jdbx
