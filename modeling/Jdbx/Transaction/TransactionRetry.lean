import Jdbx.Library.IntRange
import Mathlib.Algebra.Order.Ring.Int

/-!
# Retrying a transaction

The delay before a retry doubles with each attempt, and the cap of the policy is looked at only
after the doubling.  Every step is `int` arithmetic: a policy whose delay leaves the range of
`int` before the cap has no delay at all.
-/

namespace Jdbx

structure RetryPolicy where
  maxAttempts : Int
  baseDelayMs : Int
  maxDelayMs : Int
  jitterFactorPercent : Int
  deadlockPrioritized : Int

def defaultRetryPolicy : RetryPolicy where
  maxAttempts := 3
  baseDelayMs := 100
  maxDelayMs := 2000
  jitterFactorPercent := 20
  deadlockPrioritized := 1

structure RetryState where
  attempt : Nat
  nextDelayMs : Int
  policy : RetryPolicy
  deadlockDetected : Bool
  firstAttemptTime : Int
  operationsSucceeded : Int

/-- The part of `calculate_retry_delay` before the jitter.  A shift `1 << attempt` that does not
fit has no value. -/
def cappedDelay (policy : RetryPolicy) (attempt : Nat) : Option Int :=
  (asInt (2 ^ attempt)).bind fun factor =>
    (asInt (policy.baseDelayMs * factor)).map fun delay =>
      if delay > policy.maxDelayMs then policy.maxDelayMs else delay

def clampedDelay (policy : RetryPolicy) (delay : Int) : Int :=
  if delay < policy.baseDelayMs then policy.baseDelayMs
  else if delay > policy.maxDelayMs then policy.maxDelayMs
  else delay

/-- The jitter of `calculate_retry_delay`, where `rand` is the value of `rand()`. -/
def jitteredDelay (rand : Nat) (policy : RetryPolicy) (delay : Int) : Option Int :=
  if policy.jitterFactorPercent > 0 then
    (asInt (delay * policy.jitterFactorPercent)).bind fun scaled =>
      let jitterRange := scaled.tdiv 100
      (asInt (jitterRange * 2)).bind fun doubled =>
        (asInt (doubled + 1)).bind fun width =>
          (asInt ((rand : Int).tmod width - jitterRange)).bind fun jitter =>
            (asInt (delay + jitter)).map (clampedDelay policy)
  else some delay

def calculateRetryDelay (rand : Nat) (state : RetryState) : Option Int :=
  (cappedDelay state.policy state.attempt).bind fun delay =>
    (jitteredDelay rand state.policy delay).map fun delay =>
      if state.deadlockDetected ∧ state.policy.deadlockPrioritized ≠ 0 then delay.tdiv 2
      else delay

/-- The state of `transaction_retry_init` before its delay is calculated. -/
def freshRetryState (policy : RetryPolicy) (now : Int) : RetryState where
  attempt := 0
  nextDelayMs := 0
  policy := policy
  deadlockDetected := false
  firstAttemptTime := now
  operationsSucceeded := 0

def transactionRetryInit (policy : Option RetryPolicy) (now : Int) (rand : Nat) :
    Option RetryState :=
  let state := freshRetryState (policy.getD defaultRetryPolicy) now
  (calculateRetryDelay rand state).map fun delay => { state with nextDelayMs := delay }

def transactionShouldRetry (state : RetryState) (errorCode : Int) : RetryState × Bool :=
  if (state.attempt : Int) ≥ state.policy.maxAttempts then (state, false)
  else
    ({ state with deadlockDetected := errorCode == -1 },
      errorCode == -1 || errorCode == -2 || errorCode == -3 || errorCode == -4)

def transactionRetryNext (rand : Nat) (state : RetryState) : Option RetryState :=
  let state := { state with attempt := state.attempt + 1 }
  (calculateRetryDelay rand state).map fun delay =>
    { state with nextDelayMs := delay, operationsSucceeded := 0 }

/-- The states that the calls reach; `transaction_retry_next` is called while a retry is
allowed. -/
inductive RetriesReach (policy : RetryPolicy) : RetryState → Prop
  | init {now : Int} {rand : Nat} {state : RetryState} :
      (rand : Int) ≤ intMax →
      transactionRetryInit (some policy) now rand = some state →
      RetriesReach policy state
  | should {state : RetryState} (errorCode : Int) :
      RetriesReach policy state →
      RetriesReach policy (transactionShouldRetry state errorCode).1
  | next {rand : Nat} {state after : RetryState} :
      RetriesReach policy state →
      (state.attempt : Int) < policy.maxAttempts →
      (rand : Int) ≤ intMax →
      transactionRetryNext rand state = some after →
      RetriesReach policy after

/-- The states for which the calls calculate a delay. -/
inductive Calculates (policy : RetryPolicy) : RetryState → Prop
  | init (now : Int) : Calculates policy (freshRetryState policy now)
  | next {state : RetryState} :
      RetriesReach policy state →
      (state.attempt : Int) < policy.maxAttempts →
      Calculates policy { state with attempt := state.attempt + 1 }

/-- The policies of callers: a positive base delay up to the maximum, a percentage, `int`s. -/
structure RetryPolicy.Valid (policy : RetryPolicy) : Prop where
  base_pos : 0 < policy.baseDelayMs
  base_le : policy.baseDelayMs ≤ policy.maxDelayMs
  max_le : policy.maxDelayMs ≤ intMax
  jitter_nonneg : 0 ≤ policy.jitterFactorPercent
  jitter_le : policy.jitterFactorPercent ≤ 100
  attempts_le : policy.maxAttempts ≤ intMax

def RetryPolicy.backoff (policy : RetryPolicy) (attempt : Nat) : Int :=
  min (policy.baseDelayMs * 2 ^ attempt) policy.maxDelayMs

def RetryPolicy.Delays (policy : RetryPolicy) (halved : Prop) (delay : Int) : Prop :=
  ∃ full, policy.baseDelayMs ≤ full ∧ full ≤ policy.maxDelayMs ∧
    (¬halved ∧ delay = full ∨ halved ∧ delay = full / 2)

/-- No computation leaves `int`, and the delay is the one of the policy. -/
structure DelaySound (rand : Nat) (state : RetryState) : Prop where
  capped : cappedDelay state.policy state.attempt = some (state.policy.backoff state.attempt)
  delay : ∃ delay, calculateRetryDelay rand state = some delay ∧
    state.policy.Delays (state.deadlockDetected ∧ state.policy.deadlockPrioritized ≠ 0) delay

/-- Every calculation of a run is sound, and every state of it has a delay of the policy. -/
structure RetriesSound (policy : RetryPolicy) : Prop where
  calculation : ∀ state, Calculates policy state →
    ∀ rand : Nat, (rand : Int) ≤ intMax → DelaySound rand state
  reached : ∀ state, RetriesReach policy state → ∃ halved,
    (halved → policy.deadlockPrioritized ≠ 0) ∧ policy.Delays halved state.nextDelayMs

/-- The numbers of the last attempt stay in `int`. -/
def RetryPolicy.Fits (policy : RetryPolicy) : Prop :=
  let last := policy.maxAttempts.toNat
  policy.baseDelayMs * 2 ^ last ≤ intMax ∧
    (0 < policy.jitterFactorPercent →
      policy.backoff last * policy.jitterFactorPercent ≤ intMax ∧
        policy.backoff last + policy.backoff last * policy.jitterFactorPercent / 100 ≤ intMax)

variable {policy : RetryPolicy} {state : RetryState}

theorem clampedDelay_between (valid : policy.Valid) (delay : Int) :
    policy.baseDelayMs ≤ clampedDelay policy delay ∧
      clampedDelay policy delay ≤ policy.maxDelayMs := by
  have ordered := valid.base_le
  rw [clampedDelay]
  split_ifs <;> omega

theorem RetryPolicy.backoff_between (valid : policy.Valid) (attempt : Nat) :
    policy.baseDelayMs ≤ policy.backoff attempt ∧ policy.backoff attempt ≤ policy.maxDelayMs := by
  have ordered := valid.base_le
  have doubled : policy.baseDelayMs * 1 ≤ policy.baseDelayMs * 2 ^ attempt :=
    Int.mul_le_mul_of_nonneg_left (one_le_pow₀ (by decide)) valid.base_pos.le
  rw [RetryPolicy.backoff]
  omega

theorem RetryPolicy.backoff_mono (valid : policy.Valid) {attempt last : Nat}
    (reached : attempt ≤ last) : policy.backoff attempt ≤ policy.backoff last :=
  min_le_min_right _ <|
    Int.mul_le_mul_of_nonneg_left (pow_le_pow_right₀ (by decide) reached) valid.base_pos.le

theorem cappedDelay_eq (valid : policy.Valid) {attempt : Nat}
    (fits : policy.baseDelayMs * 2 ^ attempt ≤ intMax) :
    cappedDelay policy attempt = some (policy.backoff attempt) := by
  have factor_pos : (0 : Int) < 2 ^ attempt :=
    pow_pos (by decide) attempt
  have factor_le : 1 * 2 ^ attempt ≤ policy.baseDelayMs * 2 ^ attempt :=
    Int.mul_le_mul_of_nonneg_right valid.base_pos factor_pos.le
  rw [intMax] at fits
  rw [cappedDelay, asInt_of_small factor_pos.le (by omega), Option.bind_some,
    asInt_of_small (by omega) (by omega), Option.map_some, RetryPolicy.backoff]
  split_ifs <;> congr 1 <;> omega

theorem jitteredDelay_eq (jitter : 0 < policy.jitterFactorPercent) {delay : Int}
    (delay_nonneg : 0 ≤ delay) (scaled : delay * policy.jitterFactorPercent ≤ intMax) (rand : Nat) :
    let jitterRange := delay * policy.jitterFactorPercent / 100
    jitteredDelay rand policy delay =
      (asInt (delay + (rand % (jitterRange * 2 + 1) - jitterRange))).map (clampedDelay policy) := by
  intro jitterRange
  have product_nonneg : 0 ≤ delay * policy.jitterFactorPercent :=
    Int.mul_nonneg delay_nonneg jitter.le
  have range_eq : (delay * policy.jitterFactorPercent).tdiv 100 = jitterRange :=
    Int.tdiv_eq_ediv_of_nonneg product_nonneg
  have range_nonneg : 0 ≤ jitterRange := Int.ediv_nonneg product_nonneg (by decide)
  have range_le : jitterRange * 100 ≤ delay * policy.jitterFactorPercent :=
    Int.ediv_mul_le _ (by decide)
  rw [intMax] at scaled
  have low := Int.emod_nonneg (rand : Int) (by omega : jitterRange * 2 + 1 ≠ 0)
  have high := Int.emod_lt_of_pos (rand : Int) (by omega : 0 < jitterRange * 2 + 1)
  simp only [jitteredDelay]
  rw [if_pos jitter, asInt_of_small product_nonneg (by omega), Option.bind_some, range_eq,
    asInt_of_small (by omega) (by omega), Option.bind_some,
    asInt_of_small (by omega) (by omega), Option.bind_some,
    Int.tmod_eq_emod_of_nonneg (Int.natCast_nonneg rand),
    asInt_of_between (by omega) (by omega), Option.bind_some]

theorem jitteredDelay_between (valid : policy.Valid) {delay : Int}
    (low : policy.baseDelayMs ≤ delay) (high : delay ≤ policy.maxDelayMs)
    (fits : 0 < policy.jitterFactorPercent →
      delay * policy.jitterFactorPercent ≤ intMax ∧
        delay + delay * policy.jitterFactorPercent / 100 ≤ intMax) (rand : Nat) :
    ∃ full, jitteredDelay rand policy delay = some full ∧
      policy.baseDelayMs ≤ full ∧ full ≤ policy.maxDelayMs := by
  have delay_nonneg : 0 ≤ delay := valid.base_pos.le.trans low
  by_cases jitter : 0 < policy.jitterFactorPercent
  · obtain ⟨scaled, inside⟩ := fits jitter
    have at_most : delay * policy.jitterFactorPercent ≤ delay * 100 :=
      Int.mul_le_mul_of_nonneg_left valid.jitter_le delay_nonneg
    have range_nonneg : 0 ≤ delay * policy.jitterFactorPercent / 100 :=
      Int.ediv_nonneg (Int.mul_nonneg delay_nonneg jitter.le) (by decide)
    rw [jitteredDelay_eq jitter delay_nonneg scaled]
    generalize delay * policy.jitterFactorPercent / 100 = jitterRange at *
    have nonneg := Int.emod_nonneg (rand : Int) (by omega : jitterRange * 2 + 1 ≠ 0)
    have below := Int.emod_lt_of_pos (rand : Int) (by omega : 0 < jitterRange * 2 + 1)
    rw [intMax] at inside
    rw [asInt_of_between (by omega) (by omega), Option.map_some]
    exact ⟨_, rfl, clampedDelay_between valid _⟩
  · exact ⟨delay, if_neg jitter, low, high⟩

theorem delaySound_of_fits (valid : state.policy.Valid) (fits : state.policy.Fits)
    (reached : state.attempt ≤ state.policy.maxAttempts.toNat) (rand : Nat) :
    DelaySound rand state := by
  have monotone := RetryPolicy.backoff_mono valid reached
  have low := (RetryPolicy.backoff_between valid state.attempt).1
  have high := (RetryPolicy.backoff_between valid state.attempt).2
  have grown : state.policy.baseDelayMs * 2 ^ state.attempt ≤ intMax :=
    (Int.mul_le_mul_of_nonneg_left (pow_le_pow_right₀ (by decide) reached)
      valid.base_pos.le).trans fits.1
  have jittered (jitter : 0 < state.policy.jitterFactorPercent) :
      state.policy.backoff state.attempt * state.policy.jitterFactorPercent ≤ intMax ∧
        state.policy.backoff state.attempt +
          state.policy.backoff state.attempt * state.policy.jitterFactorPercent / 100 ≤ intMax := by
    have scaled := Int.mul_le_mul_of_nonneg_right monotone jitter.le
    have divided := Int.ediv_le_ediv (c := 100) (by decide) scaled
    have last := fits.2 jitter
    exact ⟨scaled.trans last.1, (Int.add_le_add monotone divided).trans last.2⟩
  have capped := cappedDelay_eq valid grown
  obtain ⟨full, calculated, full_low, full_high⟩ :=
    jitteredDelay_between valid low high jittered rand
  refine ⟨capped, _, by rw [calculateRetryDelay, capped, Option.bind_some, calculated]; rfl,
    full, full_low, full_high, ?_⟩
  split_ifs with halved
  · exact .inr ⟨halved, Int.tdiv_eq_ediv_of_nonneg (valid.base_pos.le.trans full_low)⟩
  · exact .inl ⟨halved, rfl⟩

theorem transactionShouldRetry_fst (state : RetryState) (errorCode : Int) :
    ∃ deadlockDetected,
      (transactionShouldRetry state errorCode).1 = { state with deadlockDetected } := by
  rw [transactionShouldRetry]
  split_ifs
  · exact ⟨state.deadlockDetected, rfl⟩
  · exact ⟨errorCode == -1, rfl⟩

theorem RetriesReach.policy_eq (run : RetriesReach policy state) :
    state.policy = policy ∧ state.attempt ≤ policy.maxAttempts.toNat := by
  induction run with
  | init _ started =>
      obtain ⟨delay, -, rfl⟩ := Option.map_eq_some_iff.mp started
      exact ⟨rfl, Nat.zero_le _⟩
  | should errorCode _ ih =>
      obtain ⟨deadlockDetected, same⟩ := transactionShouldRetry_fst _ errorCode
      rw [same]
      exact ih
  | next _ allowed _ stepped ih =>
      obtain ⟨delay, -, rfl⟩ := Option.map_eq_some_iff.mp stepped
      exact ⟨ih.1, by change _ + 1 ≤ _; omega⟩

theorem Calculates.policy_eq (calculates : Calculates policy state) :
    state.policy = policy ∧ state.attempt ≤ policy.maxAttempts.toNat := by
  cases calculates with
  | init now => exact ⟨rfl, Nat.zero_le _⟩
  | next run allowed => exact ⟨run.policy_eq.1, by change _ + 1 ≤ _; omega⟩

theorem RetriesReach.calculated (run : RetriesReach policy state) :
    ∃ before, ∃ rand : Nat, ∃ delay, Calculates policy before ∧ (rand : Int) ≤ intMax ∧
      calculateRetryDelay rand before = some delay ∧ state.nextDelayMs = delay := by
  induction run with
  | @init now rand _ bounded started =>
      obtain ⟨delay, calculated, rfl⟩ := Option.map_eq_some_iff.mp started
      exact ⟨_, rand, delay, .init now, bounded, calculated, rfl⟩
  | should errorCode _ ih =>
      obtain ⟨deadlockDetected, same⟩ := transactionShouldRetry_fst _ errorCode
      rw [same]
      exact ih
  | @next rand _ _ run allowed bounded stepped _ =>
      obtain ⟨delay, calculated, rfl⟩ := Option.map_eq_some_iff.mp stepped
      exact ⟨_, rand, delay, .next run allowed, bounded, calculated, rfl⟩

theorem retriesSound_of_fits (valid : policy.Valid) (fits : policy.Fits) :
    RetriesSound policy := by
  have sound (state) (calculates : Calculates policy state) (rand : Nat) :
      DelaySound rand state := by
    obtain ⟨rfl, reached⟩ := calculates.policy_eq
    exact delaySound_of_fits valid fits reached rand
  refine ⟨fun state calculates rand _ => sound state calculates rand, fun state run => ?_⟩
  obtain ⟨before, rand, delay, calculates, -, calculated, same⟩ := run.calculated
  obtain ⟨found, again, delays⟩ := (sound before calculates rand).delay
  rw [calculated, Option.some_inj] at again
  rw [calculates.policy_eq.1] at delays
  exact ⟨_, And.right, by rw [same, again]; exact delays⟩

theorem RetriesSound.calculates (sound : RetriesSound policy) {attempt : Nat}
    (inside : attempt ≤ policy.maxAttempts.toNat) :
    ∃ state, Calculates policy state ∧ state.attempt = attempt := by
  induction attempt with
  | zero => exact ⟨_, .init 0, rfl⟩
  | succ attempt ih =>
      obtain ⟨state, calculates, rfl⟩ := ih (by omega)
      obtain ⟨delay, calculated, -⟩ :=
        (sound.calculation state calculates 0 (by decide)).delay
      have run : ∃ after, RetriesReach policy after ∧ after.attempt = state.attempt := by
        cases calculates with
        | init now =>
            have started := congrArg (Option.map fun delay =>
              { freshRetryState policy now with nextDelayMs := delay }) calculated
            exact ⟨_, .init (by decide : ((0 : Nat) : Int) ≤ intMax) started, rfl⟩
        | @next before run allowed =>
            have stepped := congrArg (Option.map fun delay =>
              { before with
                attempt := before.attempt + 1, nextDelayMs := delay,
                operationsSucceeded := 0 }) calculated
            exact ⟨_, .next run allowed (by decide : ((0 : Nat) : Int) ≤ intMax) stepped, rfl⟩
      obtain ⟨after, run, same⟩ := run
      exact ⟨_, .next run (by rw [same]; omega), congrArg (· + 1) same⟩

theorem fits_of_retriesSound (valid : policy.Valid) (sound : RetriesSound policy) :
    policy.Fits := by
  obtain ⟨state, calculates, last⟩ := sound.calculates le_rfl
  have delays (rand : Nat) (bounded : (rand : Int) ≤ intMax) :=
    sound.calculation state calculates rand bounded
  obtain ⟨same, -⟩ := calculates.policy_eq
  subst same
  have capped := (delays 0 (by decide)).capped
  have backoff_nonneg : 0 ≤ state.policy.backoff state.attempt :=
    valid.base_pos.le.trans (RetryPolicy.backoff_between valid _).1
  have jitteredSome (rand : Nat) (bounded : (rand : Int) ≤ intMax) :
      ∃ full, jitteredDelay rand state.policy (state.policy.backoff state.attempt) = some full := by
    obtain ⟨delay, calculated, -⟩ := (delays rand bounded).delay
    rw [calculateRetryDelay, capped, Option.bind_some, Option.map_eq_some_iff] at calculated
    exact ⟨_, calculated.choose_spec.1⟩
  rw [RetryPolicy.Fits, ← last]
  refine ⟨?_, fun jitter => ?_⟩
  · obtain ⟨factor, shifted, rest⟩ := Option.bind_eq_some_iff.mp capped
    obtain ⟨delay, multiplied, -⟩ := Option.map_eq_some_iff.mp rest
    rw [(asInt_eq_some shifted).1]
    exact (asInt_eq_some multiplied).2
  · have scaled :
        state.policy.backoff state.attempt * state.policy.jitterFactorPercent ≤ intMax := by
      obtain ⟨full, jittered⟩ := jitteredSome 0 (by decide)
      rw [jitteredDelay, if_pos jitter] at jittered
      obtain ⟨product, multiplied, -⟩ := Option.bind_eq_some_iff.mp jittered
      exact (asInt_eq_some multiplied).2
    refine ⟨scaled, ?_⟩
    have range_nonneg :
        0 ≤ state.policy.backoff state.attempt * state.policy.jitterFactorPercent / 100 :=
      Int.ediv_nonneg (Int.mul_nonneg backoff_nonneg jitter.le) (by decide)
    have equation := jitteredDelay_eq jitter backoff_nonneg scaled
    generalize ranged :
      state.policy.backoff state.attempt * state.policy.jitterFactorPercent / 100 = jitterRange
        at range_nonneg equation ⊢
    obtain ⟨range, rfl⟩ := Int.eq_ofNat_of_zero_le range_nonneg
    have bounded : ((range * 2 : Nat) : Int) ≤ intMax := by
      rw [intMax] at scaled ⊢
      omega
    obtain ⟨full, jittered⟩ := jitteredSome (range * 2) bounded
    rw [equation, Option.map_eq_some_iff] at jittered
    obtain ⟨sum, added, -⟩ := jittered
    have top : ((range * 2 : Nat) : Int) % ((range : Int) * 2 + 1) = (range : Int) * 2 := by
      rw [Int.emod_eq_of_lt] <;> omega
    rw [top] at added
    have fits := (asInt_eq_some added).2
    rw [intMax]
    omega

theorem retriesSound_iff (valid : policy.Valid) : RetriesSound policy ↔ policy.Fits :=
  ⟨fits_of_retriesSound valid, retriesSound_of_fits valid⟩

theorem defaultRetryPolicy_sound : RetriesSound defaultRetryPolicy :=
  (retriesSound_iff ⟨by decide, by decide, by decide, by decide, by decide, by decide⟩).mpr
    ⟨by decide, fun _ => ⟨by decide, by decide⟩⟩

theorem retries_overflow :
    ¬RetriesSound { defaultRetryPolicy with maxAttempts := 25 } := by
  intro sound
  have fits := (fits_of_retriesSound
    ⟨by decide, by decide, by decide, by decide, by decide, by decide⟩ sound).1
  exact absurd fits (by decide)

end Jdbx
