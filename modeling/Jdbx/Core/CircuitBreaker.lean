import Jdbx.Core.RateLimiter

/-!
# The circuit breaker of a service

The limiter keeps the breaker of a service in a document, and looks it up under the
uuid that it put into it.  It meets no such document again: like the counters of the
connection rate, it is stored under a uuid of the store's own.
-/

namespace Jdbx

open Library

variable {δ : Type}

/-- The circuit part of `rate_limiter_config_t`. -/
structure CircuitConfig where
  failureThreshold : Int32
  resetTimeout : Int32
  halfOpenRequests : Int32

inductive CircuitState where
  | closed
  | opened
  | halfOpen
  deriving DecidableEq, Repr

def CircuitState.number : CircuitState → Int32
  | .closed => 0
  | .opened => 1
  | .halfOpen => 2

theorem CircuitState.number_injective {left right : CircuitState}
    (same : left.number = right.number) : left = right := by
  revert same
  cases left <;> cases right <;> decide

/-- The `doc_id` of a service, `"circuit-%s"` into 256 bytes. -/
def circuitId (serviceName : Bytes) : Bytes :=
  (ascii "circuit-" ++ serviceName).take 255

section Limiter

variable [CDouble δ]

/-- `json_create_number` of an integer. -/
def createNumber (integer : Int64) : JsonValue δ :=
  .number (CDouble.ofInt64 integer)

/-- The field of a circuit document, as an `int`. -/
def circuitInt (stray : JsonValue δ → δ) (doc : JsonValue δ) (key : Bytes) : Option Int32 :=
  (jsonObjectGet doc key).map fun value => CDouble.toInt32 (valueNumber stray value)

def resetDue (stray : JsonValue δ → δ) (config : CircuitConfig) (doc : JsonValue δ)
    (state : Int32) (now : Int64) : Bool :=
  match jsonObjectGet doc (ascii "last_failure") with
  | some lastFailure =>
      state == CircuitState.opened.number &&
        decide (config.resetTimeout.toInt64 ≤
          now - CDouble.toInt64 (valueNumber stray lastFailure))
  | none => false

def circuitBreakerGetState (stray : JsonValue δ → δ) (config : CircuitConfig) (db : Database δ)
    (serviceName : Bytes) (now : Int64) (moment : Moment) : Int32 × Database δ :=
  let docId := circuitId serviceName
  match storageGetDocument db docId with
  | none => (CircuitState.closed.number, db)
  | some doc =>
      match circuitInt stray doc (ascii "state") with
      | none => (CircuitState.closed.number, db)
      | some stored =>
          let halfOpenRequests := circuitInt stray doc (ascii "half_open_requests")
          let due := resetDue stray config doc stored now
          let state := if due then CircuitState.halfOpen.number else stored
          let doc :=
            if due then
              jsonObjectSet
                (jsonObjectSet doc (ascii "state")
                  (createNumber CircuitState.halfOpen.number.toInt64))
                (ascii "half_open_requests") (createNumber 0)
            else doc
          let db := if due then (storageUpdateDocument moment db docId doc).2 else db
          -- The requests are those of the document as it was read.
          if state = CircuitState.halfOpen.number ∧
              ∃ requests ∈ halfOpenRequests, config.halfOpenRequests ≤ requests then
            let doc :=
              jsonObjectSet
                (jsonObjectSet doc (ascii "state")
                  (createNumber CircuitState.opened.number.toInt64))
                (ascii "last_failure") (createNumber now)
            (CircuitState.opened.number, (storageUpdateDocument moment db docId doc).2)
          else (state, db)

def circuitBreakerRecordSuccess (stray : JsonValue δ → δ) (db : Database δ)
    (serviceName : Bytes) (moment : Moment) : Database δ :=
  let docId := circuitId serviceName
  match storageGetDocument db docId with
  | none => db
  | some doc =>
      if circuitInt stray doc (ascii "state") = some CircuitState.halfOpen.number then
        let doc :=
          jsonObjectSet doc (ascii "state") (createNumber CircuitState.closed.number.toInt64)
        let doc := jsonObjectSet doc (ascii "failure_count") (createNumber 0)
        let doc := jsonObjectSet doc (ascii "half_open_requests") (createNumber 0)
        (storageUpdateDocument moment db docId doc).2
      else db

def newCircuit (serviceName : Bytes) : JsonValue δ :=
  .object [(ascii "uuid", .string (circuitId serviceName)),
    (ascii "type", .string (ascii "circuit_breaker")),
    (ascii "library", .string (ascii "system")),
    (ascii "service_name", .string serviceName)]

/-- The document after a failure: open from the threshold on, with an hour to live. -/
def failedCircuit (config : CircuitConfig) (doc : JsonValue δ) (state failureCount : Int32)
    (now : Int64) : JsonValue δ :=
  let state :=
    if config.failureThreshold ≤ failureCount ∧ state = CircuitState.closed.number then
      CircuitState.opened.number
    else state
  let doc := jsonObjectSet doc (ascii "state") (createNumber state.toInt64)
  let doc := jsonObjectSet doc (ascii "failure_count") (createNumber failureCount.toInt64)
  let doc := jsonObjectSet doc (ascii "last_failure") (createNumber now)
  jsonObjectSet doc (ascii "expires_at") (createNumber (now + 3600))

def circuitBreakerRecordFailure (stray : JsonValue δ → δ) (config : CircuitConfig)
    (db : Database δ) (serviceName : Bytes) (now : Int64) (moment : Moment) : Database δ :=
  let docId := circuitId serviceName
  match storageGetDocument db docId with
  | some doc =>
      let failureCount :=
        ((circuitInt stray doc (ascii "failure_count")).map (· + 1)).getD 1
      let state := (circuitInt stray doc (ascii "state")).getD CircuitState.closed.number
      let doc :=
        if state = CircuitState.halfOpen.number then
          let requests := (circuitInt stray doc (ascii "half_open_requests")).getD 0
          jsonObjectSet doc (ascii "half_open_requests") (createNumber (requests + 1).toInt64)
        else doc
      (storageUpdateDocument moment db docId
        (failedCircuit config doc state failureCount now)).2
  | none =>
      (storageInsertDocument moment db
        (failedCircuit config (newCircuit serviceName) CircuitState.closed.number 1 now)).2

inductive CircuitEvent (δ : Type) where
  | check (serviceName : Bytes) (now : Int64) (moment : Moment)
  | success (serviceName : Bytes) (moment : Moment)
  | failure (serviceName : Bytes) (now : Int64) (moment : Moment)
  | call (event : Moment × StoreCall δ)

/-- One step: a service is checked, a success or a failure of it is recorded, or a
request calls the store. -/
def circuitStep (stray : JsonValue δ → δ) (config : CircuitConfig) (db : Database δ) :
    CircuitEvent δ → Option (Database δ)
  | .check serviceName now moment =>
      some (circuitBreakerGetState stray config db serviceName now moment).2
  | .success serviceName moment => some (circuitBreakerRecordSuccess stray db serviceName moment)
  | .failure serviceName now moment =>
      some (circuitBreakerRecordFailure stray config db serviceName now moment)
  | .call event => storeStep db event

end Limiter

/-- A breaker, with the failures since it last closed. -/
structure Breaker where
  state : CircuitState
  failures : Nat
  lastFailure : Int64

def Breaker.initial : Breaker :=
  { state := .closed, failures := 0, lastFailure := 0 }

def Breaker.check (config : CircuitConfig) (now : Int64) (breaker : Breaker) : Breaker :=
  if breaker.state = .opened ∧ config.resetTimeout.toInt64 ≤ now - breaker.lastFailure then
    { breaker with state := .halfOpen }
  else breaker

def Breaker.succeed (breaker : Breaker) : Breaker :=
  match breaker.state with
  | .halfOpen => { breaker with state := .closed, failures := 0 }
  | .closed | .opened => breaker

def Breaker.fail (config : CircuitConfig) (now : Int64) (breaker : Breaker) : Breaker :=
  { state :=
      if breaker.state = .closed ∧ (breaker.failures + 1 : Nat) < config.failureThreshold.toInt then
        .closed
      else .opened
    failures := breaker.failures + 1
    lastFailure := now }

def breakerStep (config : CircuitConfig) (serviceName : Bytes) (breaker : Breaker) :
    CircuitEvent δ → Breaker
  | .check service now _ => if service = serviceName then breaker.check config now else breaker
  | .success service _ => if service = serviceName then breaker.succeed else breaker
  | .failure service now _ => if service = serviceName then breaker.fail config now else breaker
  | .call _ => breaker

def breakerAfter (config : CircuitConfig) (serviceName : Bytes) (events : List (CircuitEvent δ)) :
    Breaker :=
  events.foldl (breakerStep config serviceName) .initial

def failuresOf (serviceName : Bytes) (events : List (CircuitEvent δ)) : Nat :=
  events.countP fun
    | .failure service _ _ => service = serviceName
    | .check _ _ _ | .success _ _ | .call _ => false

/-- Whenever a service is checked in a run, its breaker says what is answered. -/
def ActsAsBreaker [CDouble δ] (stray : JsonValue δ → δ) (config : CircuitConfig)
    (db : Database δ) (events : List (CircuitEvent δ)) : Prop :=
  ∀ before after reached, events = before ++ after →
    runFrom (circuitStep stray config) db before = some reached →
      ∀ serviceName now moment,
        (circuitBreakerGetState stray config reached serviceName now moment).1 =
          ((breakerAfter config serviceName before).check config now).state.number

/-! ## The breaker of the events -/

section Reference

variable (config : CircuitConfig) (serviceName : Bytes)

theorem breakerAfter_concat (events : List (CircuitEvent δ)) (event : CircuitEvent δ) :
    breakerAfter config serviceName (events ++ [event]) =
      breakerStep config serviceName (breakerAfter config serviceName events) event := by
  rw [breakerAfter, List.foldl_append]
  rfl

def BelowThreshold (events : List (CircuitEvent δ)) : Prop :=
  failuresOf serviceName events = 0 ∨
    (failuresOf serviceName events : Int) < config.failureThreshold.toInt

theorem failuresOf_concat (events : List (CircuitEvent δ)) (event : CircuitEvent δ) :
    failuresOf serviceName (events ++ [event]) =
      failuresOf serviceName events + failuresOf serviceName [event] :=
  List.countP_append

theorem breakerStep_closed {breaker : Breaker} (closed : breaker.state = .closed)
    (event : CircuitEvent δ) :
    (failuresOf serviceName [event] = 0 ∧ breakerStep config serviceName breaker event = breaker) ∨
      (failuresOf serviceName [event] = 1 ∧
        ∃ now, breakerStep config serviceName breaker event = breaker.fail config now) := by
  cases event with
  | check service now moment =>
      left
      simp [failuresOf, breakerStep, Breaker.check, closed]
  | success service moment =>
      left
      simp [failuresOf, breakerStep, Breaker.succeed, closed]
  | failure service now moment =>
      by_cases same : service = serviceName
      · right
        refine ⟨?_, now, ?_⟩
        · simp [failuresOf, same]
        · simp [breakerStep, same]
      · left
        simp [failuresOf, breakerStep, same]
  | call event =>
      left
      simp [failuresOf, breakerStep]

theorem fail_closed_iff {breaker : Breaker} (closed : breaker.state = .closed) (now : Int64) :
    (breaker.fail config now).state = .closed ↔
      (breaker.failures + 1 : Nat) < config.failureThreshold.toInt := by
  simp [Breaker.fail, closed]

theorem belowThreshold_before {before after events : List (CircuitEvent δ)}
    (split : events = before ++ after) (below : BelowThreshold config serviceName events) :
    BelowThreshold config serviceName before := by
  have count : failuresOf serviceName events =
      failuresOf serviceName before + failuresOf serviceName after := by
    rw [split]
    exact List.countP_append
  unfold BelowThreshold at below ⊢
  omega

theorem breakerAfter_of_below (events : List (CircuitEvent δ))
    (below : BelowThreshold config serviceName events) :
    (breakerAfter config serviceName events).state = .closed ∧
      (breakerAfter config serviceName events).failures = failuresOf serviceName events := by
  induction events using List.reverseRecOn with
  | nil => exact ⟨rfl, rfl⟩
  | append_singleton before event ih =>
      have held := ih (belowThreshold_before config serviceName rfl below)
      rw [BelowThreshold, failuresOf_concat] at below
      rw [breakerAfter_concat, failuresOf_concat]
      cases breakerStep_closed config serviceName held.1 event with
      | inl unnoticed =>
          rw [unnoticed.1, unnoticed.2]
          exact held
      | inr failed =>
          obtain ⟨one, now, step⟩ := failed
          rw [one] at below
          rw [one, step]
          refine ⟨(fail_closed_iff config held.1 now).mpr ?_, congrArg (· + 1) held.2⟩
          rw [held.2]
          omega

theorem below_of_closed (events : List (CircuitEvent δ))
    (closed : ∀ before after, events = before ++ after →
      (breakerAfter config serviceName before).state = .closed) :
    BelowThreshold config serviceName events := by
  induction events using List.reverseRecOn with
  | nil => exact .inl rfl
  | append_singleton before event ih =>
      have belowBefore := ih fun earlier rest same =>
        closed earlier (rest ++ [event]) (by rw [same, List.append_assoc])
      have held := breakerAfter_of_below config serviceName before belowBefore
      have last := closed (before ++ [event]) [] (List.append_nil _).symm
      rw [breakerAfter_concat] at last
      rw [BelowThreshold, failuresOf_concat]
      cases breakerStep_closed config serviceName held.1 event with
      | inl unnoticed =>
          rw [unnoticed.1]
          exact belowBefore
      | inr failed =>
          obtain ⟨one, now, step⟩ := failed
          rw [step, fail_closed_iff config held.1 now, held.2] at last
          rw [one]
          exact .inr last

theorem check_closed_iff (breaker : Breaker) (now : Int64) :
    (breaker.check config now).state = .closed ↔ breaker.state = .closed := by
  unfold Breaker.check
  split
  · rename_i due
    simp [due.1]
  · exact Iff.rfl

end Reference

theorem circuitId_take (serviceName : Bytes) : (circuitId serviceName).take 4 = ascii "circ" := by
  rw [circuitId, List.take_take]
  exact List.take_append_of_le_length (by decide)

section Runs

variable [CDouble δ] {stray : JsonValue δ → δ} {config : CircuitConfig} {db : Database δ}

theorem GeneratedKeys.circuit (generated : GeneratedKeys db) (serviceName : Bytes) :
    Jdbx.storageGetDocument db (circuitId serviceName) = none :=
  generated.absent (by rw [circuitId_take]; decide)

theorem GeneratedKeys.circuitState (generated : GeneratedKeys db) (serviceName : Bytes)
    (now : Int64) (moment : Moment) :
    circuitBreakerGetState stray config db serviceName now moment =
      (CircuitState.closed.number, db) := by
  simp only [circuitBreakerGetState, generated.circuit serviceName]

theorem GeneratedKeys.circuitStep {next : Database δ} (generated : GeneratedKeys db)
    {event : CircuitEvent δ} (taken : Jdbx.circuitStep stray config db event = some next) :
    GeneratedKeys next := by
  cases event with
  | check serviceName now moment =>
      simp only [Jdbx.circuitStep, generated.circuitState, Option.some.injEq] at taken
      exact taken ▸ generated
  | success serviceName moment =>
      simp only [Jdbx.circuitStep, circuitBreakerRecordSuccess, generated.circuit serviceName,
        Option.some.injEq] at taken
      exact taken ▸ generated
  | failure serviceName now moment =>
      simp only [Jdbx.circuitStep, circuitBreakerRecordFailure, generated.circuit serviceName,
        Option.some.injEq] at taken
      exact taken ▸ generated.storageInsert _ _
  | call event => exact generated.storeStep taken

/-- The breakers of a run are those of its events just where every service stays below
the threshold. -/
theorem actsAsBreaker_iff (empty : db.documents = .empty) {events : List (CircuitEvent δ)}
    {last : Database δ} (reached : runFrom (circuitStep stray config) db events = some last) :
    ActsAsBreaker stray config db events ↔
      ∀ serviceName, BelowThreshold config serviceName events := by
  have answered : ∀ before after now serviceName moment, events = before ++ after →
      ∃ middle, runFrom (circuitStep stray config) db before = some middle ∧
        (circuitBreakerGetState stray config middle serviceName now moment).1 =
          CircuitState.closed.number := by
    intro before after now serviceName moment split
    rw [split, runFrom_append] at reached
    obtain ⟨middle, run, -⟩ := Option.bind_eq_some_iff.mp reached
    have generated : GeneratedKeys middle :=
      invariant_reached (fun _ _ _ kept taken => kept.circuitStep taken)
        (generatedKeys_empty empty) run
    exact ⟨middle, run, congrArg Prod.fst (generated.circuitState serviceName now moment)⟩
  constructor
  · intro acts serviceName
    apply below_of_closed
    intro before after split
    obtain ⟨middle, run, closed⟩ := answered before after 0 serviceName ⟨0, 0⟩ split
    have same := acts before after middle split run serviceName 0 ⟨0, 0⟩
    rw [closed] at same
    exact (check_closed_iff config _ 0).mp (CircuitState.number_injective same.symm)
  · intro below before after middle split run serviceName now moment
    obtain ⟨other, otherRun, closed⟩ := answered before after now serviceName moment split
    obtain rfl := Option.some.inj (run.symm.trans otherRun)
    have held := breakerAfter_of_below config serviceName before
      (belowThreshold_before config serviceName split (below serviceName))
    rw [closed, (check_closed_iff config _ now).mpr held.1]

end Runs

def defaultCircuit : CircuitConfig where
  failureThreshold := 5
  resetTimeout := 30
  halfOpenRequests := 3

/-- Failures of the service `ssl`, a second apart. -/
def sslFailures (count : Nat) : List (CircuitEvent Rat) :=
  (List.range count).map fun index =>
    .failure (ascii "ssl") (1700000000 + Int64.ofNat index)
      ⟨1700000000 + Int64.ofNat index, UInt32.ofNat index⟩

def circuitRun (count : Nat) : Option (Database Rat) :=
  runFrom (circuitStep (fun _ => 0) defaultCircuit)
    { documents := .empty, queryCache := none, docCache := none } (sslFailures count)

theorem actsAsBreaker_iff_fourFailures :
    ∃ last, circuitRun 4 = some last ∧
      (ActsAsBreaker (fun _ => 0) defaultCircuit
          { documents := .empty, queryCache := none, docCache := none } (sslFailures 4) ↔
        ∀ serviceName, BelowThreshold defaultCircuit serviceName (sslFailures 4)) := by
  have goesOn : (circuitRun 4).isSome := by decide +kernel
  obtain ⟨last, reached⟩ := Option.isSome_iff_exists.mp goesOn
  exact ⟨last, reached, actsAsBreaker_iff rfl reached⟩

/-- The fifth failure does not open the circuit. -/
theorem not_actsAsBreaker_fiveFailures :
    ¬ ActsAsBreaker (fun _ => 0) defaultCircuit
      { documents := .empty, queryCache := none, docCache := none } (sslFailures 5) := by
  intro acts
  have goesOn : (circuitRun 5).isSome := by decide +kernel
  obtain ⟨last, reached⟩ := Option.isSome_iff_exists.mp goesOn
  have answered := acts (sslFailures 5) [] last (List.append_nil _).symm reached (ascii "ssl")
    1700000005 ⟨0, 0⟩
  have opened : ((breakerAfter defaultCircuit (ascii "ssl") (sslFailures 5)).check defaultCircuit
      1700000005).state = .opened := by
    decide +kernel
  have stillClosed : (circuitRun 5).map (fun last => (circuitBreakerGetState (fun _ => 0)
      defaultCircuit last (ascii "ssl") 1700000005 ⟨0, 0⟩).1) = some 0 := by
    decide +kernel
  rw [reached, Option.map_some, answered, opened] at stillClosed
  exact absurd stillClosed (by decide)

end Jdbx
