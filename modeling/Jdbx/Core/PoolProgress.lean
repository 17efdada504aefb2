import Jdbx.Core.PoolRuns

/-!
# No work waits for ever

In an endless fair run an item that stays in the queue would leave every worker without
anything to do but take it.
-/

namespace Jdbx

open Library

variable {ω : Type} {state next : PoolState ω} {event : PoolEvent ω} {thread : Nat}
  {place : WorkerPlace ω} {item : WorkItem ω} {states : Nat → PoolState ω}
  {events : Nat → PoolEvent ω}

/-! ## What one step leaves -/

/-- What a step of `mover` leaves: the items that were accepted and taken, and the places of
the other workers; and a new thread starts at the head of its loop. -/
structure GoesOn (state next : PoolState ω) (mover : Option Nat) : Prop where
  accepted : state.accepted <+: next.accepted
  taken : state.taken.length ≤ next.taken.length
  others : ∀ thread place, mover ≠ some thread → state.workers[thread]? = some place →
    next.workers[thread]? = some place
  counted : next.pool.threadCount ≤ state.pool.threadCount ∨
    ∃ thread : Nat, next.workers[thread]? = some WorkerPlace.start

namespace GoesOn

theorem others_set (thread : Nat) (new : WorkerPlace ω) :
    ∀ other place, some thread ≠ some other → state.workers[other]? = some place →
      (state.workers.set thread new)[other]? = some place := by
  intro other place different there
  rw [List.getElem?_set_ne (fun same => different (congrArg some same))]
  exact there

theorem goTo (thread : Nat) (new : WorkerPlace ω) :
    GoesOn state (state.goTo thread new) (some thread) where
  accepted := List.prefix_rfl
  taken := Nat.le_refl _
  others := others_set thread new
  counted := Or.inl (Nat.le_refl _)

theorem refl : GoesOn state state none where
  accepted := List.prefix_rfl
  taken := Nat.le_refl _
  others := fun _ _ _ there => there
  counted := Or.inl (Nat.le_refl _)

theorem startWorker : GoesOn state state.startWorker none ∧
    ∃ thread : Nat, state.startWorker.workers[thread]? = some WorkerPlace.start := by
  obtain ⟨threads, strayWrites, started⟩ := state.startWorker_eq
  rw [started]
  have new : (state.workers ++ [WorkerPlace.start])[state.workers.length]? =
      some WorkerPlace.start :=
    List.getElem?_concat_length
  refine ⟨⟨List.prefix_rfl, Nat.le_refl _, ?_, Or.inr ⟨_, new⟩⟩, _, new⟩
  intro thread place _ there
  rw [List.getElem?_append_left (List.getElem?_eq_some_iff.mp there).1]
  exact there

theorem startWorkers : ∀ (needed starts : Nat) (state : PoolState ω),
    GoesOn state (state.startWorkers needed starts).1 none
  | 0, _, _ => refl
  | _ + 1, 0, _ => refl
  | needed + 1, starts + 1, state => by
      obtain ⟨first, thread, new⟩ := @startWorker ω state
      have rest := startWorkers needed starts state.startWorker
      exact {
        accepted := first.accepted.trans rest.accepted
        taken := Nat.le_trans first.taken rest.taken
        others := fun other place mover there =>
          rest.others other place mover (first.others other place mover there)
        counted := Or.inr ⟨thread, rest.others thread _ nofun new⟩ }

theorem enqueueWork {before : PoolState ω} (goesOn : GoesOn before state none)
    (item : WorkItem ω) : GoesOn before (state.enqueueWork item) none :=
  { goesOn with accepted := goesOn.accepted.trans (List.prefix_append _ _) }

theorem addWork (work : ω) (allocated created : Bool) :
    GoesOn state (state.addWork work allocated created) none := by
  have called : GoesOn state { state with calls := state.calls + 1 } none := { refl with }
  have started : GoesOn state
      ({ state with calls := state.calls + 1 } : PoolState ω).startWorker none :=
    { startWorker.1 with }
  rw [PoolState.addWork]
  split_ifs
  · exact called
  · exact called
  · exact started.enqueueWork _
  · exact called
  · exact called
  · exact called.enqueueWork _

theorem adjust (minThreads maxThreads : Int) (starts : Nat) (resized : Bool) :
    GoesOn state (state.adjust minThreads maxThreads starts resized) none := by
  have grown := startWorkers (minThreads.toNat - state.pool.threadCount) starts
    (state.setBounds minThreads.toNat maxThreads.toNat)
  rw [PoolState.adjust]
  split_ifs
  · exact refl
  · rw [PoolState.adjustTo]
    split
    next after answer =>
      rw [answer] at grown
      exact { grown with }
    next after answer =>
      rw [answer] at grown
      split_ifs
      · exact { grown with }
      · exact { grown with }
      · exact { grown with }

theorem proceed (thread : Nat) : GoesOn state (state.proceed thread) (some thread) := by
  rw [PoolState.proceed]
  split
  · split_ifs
    · exact goTo thread .ended
    · exact goTo thread .waiting
  · next item rest queue =>
      exact { goTo thread (.running item) with
        taken := by
          change _ ≤ (state.taken ++ [item]).length
          rw [List.length_append]
          exact Nat.le_add_right _ _ }

theorem workerStep {expired : Bool} (taken : next ∈ state.workerStep thread expired place) :
    GoesOn state next (some thread) := by
  rcases PoolState.workerStep_cases taken with
    ⟨item, -, rfl⟩ | ⟨-, ⟨-, rfl⟩ | ⟨-, -, rfl⟩ | ⟨-, rfl⟩⟩
  · exact { goTo thread .reporting with }
  · exact proceed thread
  · exact { goTo thread .timedOut with counted := Or.inl (Nat.sub_le _ _) }
  · exact { goTo thread .start with }

theorem destroyStep (taken : next ∈ state.destroyStep) : GoesOn state next none := by
  rcases PoolState.destroyStep_cases taken with ⟨-, rfl⟩ | ⟨-, place, -, rfl⟩ | ⟨-, rfl⟩
  · exact { refl with }
  · exact { refl with }
  · exact { refl with }

theorem step (taken : next ∈ poolStep state event) : GoesOn state next event.worker := by
  rcases poolStep_cases taken with
    ⟨work, allocated, created, rfl, running, rfl⟩ |
    ⟨minThreads, maxThreads, starts, resized, rfl, running, rfl⟩ | ⟨rfl, destroys⟩ |
    ⟨thread, expired, place, rfl, there, works⟩
  · exact addWork work allocated created
  · exact adjust minThreads maxThreads starts resized
  · exact destroyStep destroys
  · exact workerStep works

end GoesOn

theorem step_worker {expired : Bool} (there : state.workers[thread]? = some place) :
    poolStep state (.work thread expired) = state.workerStep thread expired place := by
  rw [poolStep, there]

theorem canWork_of_running (there : state.workers[thread]? = some (.running item)) :
    CanWork state thread := by
  refine ⟨false, ?_⟩
  rw [step_worker there]
  exact ⟨_, rfl⟩

theorem canWork_of_place (there : state.workers[thread]? = some place)
    (stays : place.returned = false) (running : state.destroyer ≠ .freed) :
    CanWork state thread := by
  refine ⟨false, ?_⟩
  rw [step_worker there]
  cases place with
  | start => exact ⟨_, if_neg running⟩
  | waiting =>
      refine ⟨state.proceed thread, ?_⟩
      rw [PoolState.workerStep, if_neg running, if_neg (fun leaves => Bool.false_ne_true leaves.1)]
      rfl
  | running item => exact ⟨_, rfl⟩
  | reporting => exact ⟨_, if_neg running⟩
  | timedOut => cases stays
  | ended => cases stays

theorem proceed_takes (work : state.pool.queue ≠ []) (thread : Nat) :
    (state.proceed thread).taken.length = state.taken.length + 1 := by
  rw [PoolState.proceed]
  cases queue : state.pool.queue with
  | nil => exact (work queue).elim
  | cons item rest => exact List.length_append

section Runs

variable (run : EndlessRun poolStep states events) (fair : FairPool states events)

include run

theorem workers_stay {time : Nat} (other : (events time).worker ≠ some thread)
    (there : (states time).workers[thread]? = some place) :
    (states (time + 1)).workers[thread]? = some place :=
  (GoesOn.step (run time)).others thread place other there

theorem worker_moves {time : Nat} (moves : (events time).worker = some thread)
    (there : (states time).workers[thread]? = some place) :
    ∃ expired, states (time + 1) ∈ (states time).workerStep thread expired place := by
  have taken := run time
  cases event : events time with
  | work mover expired =>
      rw [event] at moves taken
      cases moves
      rw [step_worker there] at taken
      exact ⟨expired, taken⟩
  | addWork work allocated created => rw [event] at moves; cases moves
  | adjust minThreads maxThreads starts resized => rw [event] at moves; cases moves
  | destroy => rw [event] at moves; cases moves

theorem accepted_stays {early : Nat} : ∀ late, early ≤ late →
    (states early).accepted <+: (states late).accepted := by
  intro late after
  induction late, after using Nat.le_induction with
  | base => exact List.prefix_rfl
  | succ late after ih => exact ih.trans (GoesOn.step (run late)).accepted

include fair

theorem executed_of_running {time : Nat}
    (there : (states time).workers[thread]? = some (.running item)) :
    ∃ later, time ≤ later ∧ item ∈ (states later).executed := by
  refine fair.leads (fun time => (states time).workers[thread]? = some (.running item))
    (fun time => item ∈ (states time).executed) thread ?_ ?_ ?_ there
  · exact fun later _ held => canWork_of_running held
  · exact fun later _ held other => workers_stay run other held
  · intro later _ held moves
    obtain ⟨expired, taken⟩ := worker_moves run moves held
    obtain same := Option.some.inj taken
    rw [← same]
    exact List.mem_append_right _ (List.mem_singleton_self item)

end Runs

/-! ## Work that would wait for ever -/

/-- From `time` on the item stays in the queue. -/
def WaitsFrom (states : Nat → PoolState ω) (item : WorkItem ω) (time : Nat) : Prop :=
  ∀ later, time ≤ later → item ∈ (states later).pool.queue

/-- From `time` on no item leaves the queue. -/
def StillFrom (states : Nat → PoolState ω) (time : Nat) : Prop :=
  ∀ later, time ≤ later → (states later).taken.length = (states time).taken.length

section Waiting

variable (run : EndlessRun poolStep states events) (fair : FairPool states events)
  (kept : ∀ time, PoolKept (states time)) {time : Nat} (waits : WaitsFrom states item time)

include kept waits

theorem unfreed_of_waits : ∀ later, time ≤ later → (states later).destroyer ≠ .freed := by
  intro later after freed
  have inQueue := waits later after
  rw [(kept later).emptied freed] at inQueue
  exact List.not_mem_nil inQueue

omit kept in
theorem queue_of_waits : ∀ later, time ≤ later → (states later).pool.queue ≠ [] := by
  intro later after empty
  have inQueue := waits later after
  rw [empty] at inQueue
  exact List.not_mem_nil inQueue

theorem accepted_of_waits : ∀ later, time ≤ later →
    (states later).taken ++ (states later).pool.queue = (states later).accepted := by
  intro later after
  have inOrder := (kept later).inOrder
  rw [(kept later).held (unfreed_of_waits kept waits later after), List.append_nil] at inOrder
  exact inOrder

include run

theorem exists_still : ∃ settled, time ≤ settled ∧ StillFrom states settled := by
  have split := accepted_of_waits kept waits time (Nat.le_refl _)
  have inAccepted : item ∈ (states time).accepted :=
    split ▸ List.mem_append_right _ (waits time (Nat.le_refl _))
  obtain ⟨position, placed⟩ := List.mem_iff_getElem?.mp inAccepted
  have before : ∀ later, time ≤ later → (states later).taken.length ≤ position := by
    intro later after
    by_contra beyond
    obtain ⟨others, stays⟩ := accepted_stays run later after
    have placedLater : (states later).accepted[position]? = some item := by
      rw [← stays, List.getElem?_append_left (List.getElem?_eq_some_iff.mp placed).1]
      exact placed
    rw [← accepted_of_waits kept waits later after,
      List.getElem?_append_left (Nat.lt_of_not_le beyond)] at placedLater
    have distinct := (kept later).distinct
    rw [← accepted_of_waits kept waits later after] at distinct
    exact List.disjoint_of_nodup_append distinct (List.mem_of_getElem? placedLater)
      (waits later after)
  obtain ⟨settled, after, same⟩ :=
    exists_settled (fun later => position - (states later).taken.length)
      fun later (_ : time ≤ later) =>
        Nat.sub_le_sub_left (GoesOn.step (run later)).taken position
  refine ⟨settled, after, fun later afterSettled => ?_⟩
  have first := before settled after
  have second := before later (Nat.le_trans after afterSettled)
  have equal := same later afterSettled
  omega

section Still

variable (still : StillFrom states time) {later : Nat}

include still

omit run kept in
theorem not_proceed_of_still (after : time ≤ later) (thread : Nat) :
    states (later + 1) ≠ (states later).proceed thread := by
  intro proceeds
  have takes := proceed_takes (queue_of_waits waits later after) thread
  rw [← proceeds, still (later + 1) (Nat.le_succ_of_le after), still later after] at takes
  omega

include fair

theorem not_start_of_still (after : time ≤ later) (thread : Nat) :
    (states later).workers[thread]? ≠ some .start := by
  intro there
  have never : ∃ last, later ≤ last ∧ False := by
    refine fair.leads (fun time => (states time).workers[thread]? = some .start)
      (fun _ => False) thread ?_ ?_ ?_ there
    · intro last afterwards held
      exact canWork_of_place held rfl
        (unfreed_of_waits kept waits last (Nat.le_trans after afterwards))
    · exact fun last _ held other => workers_stay run other held
    · intro last afterwards held moves
      obtain ⟨expired, taken⟩ := worker_moves run moves held
      have noProceed := not_proceed_of_still waits still (Nat.le_trans after afterwards) thread
      rcases PoolState.workerStep_cases taken with
        ⟨item, running, -⟩ | ⟨-, ⟨-, proceeds⟩ | ⟨waiting, -⟩ | ⟨reporting, -⟩⟩
      · cases running
      · exact noProceed proceeds
      · cases waiting
      · cases reporting
  obtain ⟨-, -, absurdity⟩ := never
  exact absurdity

theorem not_reporting_of_still (after : time ≤ later) (thread : Nat) :
    (states later).workers[thread]? ≠ some .reporting := by
  intro there
  have starts : ∃ last, later ≤ last ∧ (states last).workers[thread]? = some .start := by
    refine fair.leads (fun time => (states time).workers[thread]? = some .reporting)
      (fun time => (states time).workers[thread]? = some .start) thread ?_ ?_ ?_ there
    · intro last afterwards held
      exact canWork_of_place held rfl
        (unfreed_of_waits kept waits last (Nat.le_trans after afterwards))
    · exact fun last _ held other => workers_stay run other held
    · intro last _ held moves
      obtain ⟨expired, taken⟩ := worker_moves run moves held
      rcases PoolState.workerStep_cases taken with
        ⟨item, running, -⟩ | ⟨-, ⟨idle, -⟩ | ⟨waiting, -⟩ | ⟨-, reports⟩⟩
      · cases running
      · rcases idle with start | waiting
        · cases start
        · cases waiting
      · cases waiting
      · rw [reports]
        exact List.getElem?_set_self (List.getElem?_eq_some_iff.mp held).1
  obtain ⟨last, afterwards, start⟩ := starts
  exact not_start_of_still run fair kept waits still (Nat.le_trans after afterwards) thread start

theorem not_running_of_still (after : time ≤ later) (thread : Nat) (other : WorkItem ω) :
    (states later).workers[thread]? ≠ some (.running other) := by
  intro there
  have reports : ∃ last, later ≤ last ∧ (states last).workers[thread]? = some .reporting := by
    refine fair.leads (fun time => (states time).workers[thread]? = some (.running other))
      (fun time => (states time).workers[thread]? = some .reporting) thread ?_ ?_ ?_ there
    · exact fun last _ held => canWork_of_running held
    · exact fun last _ held other => workers_stay run other held
    · intro last _ held moves
      obtain ⟨expired, taken⟩ := worker_moves run moves held
      obtain same := Option.some.inj taken
      rw [← same]
      exact List.getElem?_set_self (List.getElem?_eq_some_iff.mp held).1
  obtain ⟨last, afterwards, reporting⟩ := reports
  exact not_reporting_of_still run fair kept waits still (Nat.le_trans after afterwards) thread
    reporting

theorem not_still : False := by
  have falls : ∀ later, time ≤ later →
      (states (later + 1)).pool.threadCount ≤ (states later).pool.threadCount := by
    intro later after
    rcases (GoesOn.step (run later)).counted with fewer | ⟨thread, start⟩
    · exact fewer
    · exact (not_start_of_still run fair kept waits still (Nat.le_succ_of_le after) thread
        start).elim
  obtain ⟨settled, after, same⟩ :=
    exists_settled (fun time => (states time).pool.threadCount) falls
  have some_counts : 0 < (states settled).workers.countP WorkerPlace.counted :=
    (kept settled).counted ▸ (kept settled).enough
  obtain ⟨place, member, counted⟩ := List.countP_pos_iff.mp some_counts
  obtain ⟨thread, there⟩ := List.mem_iff_getElem?.mp member
  have leaves : ∃ last, settled ≤ last ∧ False := by
    cases place with
    | start => exact (not_start_of_still run fair kept waits still after thread there).elim
    | running other =>
        exact (not_running_of_still run fair kept waits still after thread other there).elim
    | reporting => exact (not_reporting_of_still run fair kept waits still after thread there).elim
    | ended =>
        have empty := ((kept settled).finished _ member rfl).2
        exact (queue_of_waits waits settled after empty).elim
    | timedOut => cases counted
    | waiting =>
        refine fair.leads (fun time => (states time).workers[thread]? = some .waiting)
          (fun _ => False) thread ?_ ?_ ?_ there
        · intro last afterwards held
          exact canWork_of_place held rfl
            (unfreed_of_waits kept waits last (Nat.le_trans after afterwards))
        · exact fun last _ held other => workers_stay run other held
        · intro last afterwards held moves
          obtain ⟨expired, taken⟩ := worker_moves run moves held
          have sinceTime := Nat.le_trans after afterwards
          rcases PoolState.workerStep_cases taken with
            ⟨item, running, -⟩ | ⟨-, ⟨-, proceeds⟩ | ⟨-, more, leaves⟩ | ⟨reporting, -⟩⟩
          · cases running
          · exact not_proceed_of_still waits still sinceTime thread proceeds
          · have before := same last afterwards
            have afterStep := same (last + 1) (Nat.le_succ_of_le afterwards)
            rw [leaves] at afterStep
            have fewer : (states last).pool.threadCount - 1 = (states last).pool.threadCount :=
              afterStep.trans before.symm
            omega
          · cases reporting
  obtain ⟨-, -, absurdity⟩ := leaves
  exact absurdity

end Still

include fair in
theorem not_waitsFrom : False := by
  obtain ⟨settled, after, still⟩ := exists_still run kept waits
  have waitsOn : WaitsFrom states item settled :=
    fun later afterwards => waits later (Nat.le_trans after afterwards)
  exact not_still run fair kept waitsOn still

end Waiting

theorem executed_or_dropped (run : EndlessRun poolStep states events)
    (fair : FairPool states events) (kept : ∀ time, PoolKept (states time)) {time : Nat}
    (accepted : item ∈ (states time).accepted) :
    ∃ later, item ∈ (states later).executed ∨ item ∈ (states later).dropped := by
  by_contra never
  suffices waits : WaitsFrom states item time from not_waitsFrom run fair kept waits
  intro later after
  have inOrder := (kept later).inOrder
  have inAccepted := (accepted_stays run later after).subset accepted
  rw [← inOrder, List.append_assoc] at inAccepted
  rcases List.mem_append.mp inAccepted with taken | remaining
  · have executes := (kept later).executes.mem_iff.mpr taken
    rcases List.mem_append.mp executes with executed | inHand
    · exact (never ⟨later, Or.inl executed⟩).elim
    · obtain ⟨place, member, hand⟩ := List.mem_filterMap.mp inHand
      obtain ⟨thread, there⟩ := List.mem_iff_getElem?.mp member
      cases place with
      | running other =>
          cases hand
          obtain ⟨last, -, executed⟩ := executed_of_running run fair there
          exact (never ⟨last, Or.inl executed⟩).elim
      | _ => cases hand
  · rcases List.mem_append.mp remaining with queued | dropped
    · exact queued
    · exact (never ⟨later, Or.inr dropped⟩).elim

/-- A new pool keeps the law in just the runs in which no full queue grows; and in every endless
fair run whatever was accepted is executed or dropped. -/
theorem poolQueue_lawful {config : PoolConfig} {start : PoolState ω}
    (created : threadPoolCreateConfig config = some start) :
    PoolQueueLaw start ∧
      (∀ events, EveryStep poolStep QueueLawAfter start events ↔
        EveryStep poolStep (fun state event => ¬ GrowsFullQueue state event) start events) ∧
      ∀ states events, states 0 = start → EndlessRun poolStep states events →
        FairPool states events → ∀ time, ∀ item ∈ (states time).accepted,
          ∃ later, item ∈ (states later).executed ∨ item ∈ (states later).dropped := by
  have kept := poolKept_create created
  have bounded : start.Bounded := by
    rw [threadPoolCreateConfig] at created
    split_ifs at created
    cases created
    exact Nat.zero_le _
  refine ⟨kept.law bounded, queueLaw_iff kept bounded, ?_⟩
  intro states events first run fair time item accepted
  have always : ∀ later, PoolKept (states later) := by
    have keeps : ∀ (state : PoolState ω) event next, PoolKept state → next ∈ poolStep state event →
        PoolKept next := fun state event next inv taken => inv.step taken
    intro later
    exact run.invariant_from keeps (first ▸ kept) later (Nat.zero_le later)
  exact executed_or_dropped run fair always accepted

def smallPool : PoolState Nat :=
  (threadPoolCreateConfig ⟨1, 2, 1⟩).get rfl

def busyEvents : Nat → PoolEvent Nat
  | 0 => .addWork 7 true true
  | _ + 1 => .work 0 false

def busyStates : Nat → PoolState Nat
  | 0 => smallPool
  | time + 1 => (poolStep (busyStates time) (busyEvents time)).getD smallPool

theorem busyStates_add_five : ∀ time, busyStates (time + 5) = busyStates 5
  | 0 => rfl
  | time + 1 => by
      rw [Nat.succ_add, busyStates, busyStates_add_five time]
      rfl

theorem endlessRun_busyStates : EndlessRun poolStep busyStates busyEvents
  | 0 => rfl
  | 1 => rfl
  | 2 => rfl
  | 3 => rfl
  | 4 => rfl
  | time + 5 => by
      have goesOn := busyStates_add_five (time + 1)
      rw [Nat.succ_add] at goesOn
      rw [goesOn, busyStates_add_five]
      rfl

theorem fairPool_busyStates : FairPool busyStates busyEvents := by
  intro thread time canWork
  obtain ⟨expired, next, taken⟩ := canWork
  have alone : (busyStates time).workers.length = 1 := by
    match time with
    | 0 | 1 | 2 | 3 | 4 => rfl
    | time + 5 =>
        rw [busyStates_add_five]
        rfl
  have isFirst : thread = 0 := by
    cases there : (busyStates time).workers[thread]? with
    | none =>
        rw [poolStep, there] at taken
        cases taken
    | some place =>
        have inside := (List.getElem?_eq_some_iff.mp there).1
        omega
  exact ⟨time + 1, Nat.le_succ time, Or.inl (congrArg some isFirst.symm)⟩

theorem poolQueue_lawful_busyStates :
    ∃ later, ⟨0, 7⟩ ∈ (busyStates later).executed ∨ ⟨0, 7⟩ ∈ (busyStates later).dropped := by
  have created : threadPoolCreateConfig ⟨1, 2, 1⟩ = some smallPool := rfl
  exact (poolQueue_lawful created).2.2 busyStates busyEvents rfl endlessRun_busyStates
    fairPool_busyStates 1 ⟨0, 7⟩ (List.mem_singleton_self _)

/-- Two submissions before a worker takes an item. -/
theorem not_queueLaw_secondSubmission :
    ¬ EveryStep poolStep QueueLawAfter smallPool
      [.addWork 7 true true, .addWork 8 true true] := by
  intro lawful
  have within : EveryStep poolStep (fun state event => (poolStep state event).all fun next =>
      decide (next.pool.queueSize ≤ next.pool.maxQueueSize)) smallPool
      [.addWork 7 true true, .addWork 8 true true] := by
    apply lawful.mono
    intro state event law
    rw [Option.all_eq_true]
    exact fun next taken => decide_eq_true (law next taken).bounded
  exact absurd within (by decide +kernel)

end Jdbx
