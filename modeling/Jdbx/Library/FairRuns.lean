import Jdbx.Library.GuardedRun
import Mathlib.Order.Basic
import Mathlib.Data.Nat.Init

/-!
# Endless fair runs

A run without an end, and parties that are not kept waiting: a party that can go on takes a
step at some later time, or can no longer go on.  The rule of the module turns what the next
step of one party does into what comes about at some time.
-/

namespace Jdbx.Library

variable {σ ε ι : Type} {step : σ → ε → Option σ} {states : Nat → σ} {events : Nat → ε}
  {canStep : σ → ι → Prop} {stepsOf : ε → ι → Prop} {invariant : σ → Prop}

def EndlessRun (step : σ → ε → Option σ) (states : Nat → σ) (events : Nat → ε) : Prop :=
  ∀ time, states (time + 1) ∈ step (states time) (events time)

def FairRun (canStep : σ → ι → Prop) (stepsOf : ε → ι → Prop) (states : Nat → σ)
    (events : Nat → ε) : Prop :=
  ∀ party time, canStep (states time) party →
    ∃ later, time ≤ later ∧ (stepsOf (events later) party ∨ ¬ canStep (states later) party)

namespace EndlessRun

variable (run : EndlessRun step states events)

include run

theorem invariant_from
    (keeps : ∀ state event next, invariant state → next ∈ step state event → invariant next)
    {time : Nat} (holds : invariant (states time)) :
    ∀ later, time ≤ later → invariant (states later) := by
  intro later after
  induction later, after using Nat.le_induction with
  | base => exact holds
  | succ later after ih => exact keeps _ _ _ ih (run later)

end EndlessRun

theorem FairRun.leads (fair : FairRun canStep stepsOf states events) (holds goal : Nat → Prop)
    (party : ι) {time : Nat}
    (enabled : ∀ later, time ≤ later → holds later → canStep (states later) party)
    (stays : ∀ later, time ≤ later → holds later → ¬ stepsOf (events later) party →
      holds (later + 1))
    (moves : ∀ later, time ≤ later → holds later → stepsOf (events later) party →
      goal (later + 1))
    (now : holds time) : ∃ later, time ≤ later ∧ goal later := by
  by_contra never
  have waits : ∀ later, time ≤ later → holds later → ¬ stepsOf (events later) party := by
    intro later after held steps
    exact never ⟨later + 1, Nat.le_succ_of_le after, moves later after held steps⟩
  have still : ∀ later, time ≤ later → holds later := by
    intro later after
    induction later, after using Nat.le_induction with
    | base => exact now
    | succ later after ih => exact stays later after ih (waits later after ih)
  obtain ⟨later, after, goesOn⟩ := fair party time (enabled time (Nat.le_refl _) now)
  have held := still later after
  rcases goesOn with steps | disabled
  · exact waits later after held steps
  · exact disabled (enabled later after held)

theorem exists_settled (number : Nat → Nat) {start : Nat}
    (falls : ∀ time, start ≤ time → number (time + 1) ≤ number time) :
    ∃ settled, start ≤ settled ∧ ∀ time, settled ≤ time → number time = number settled := by
  have descends : ∀ early, start ≤ early → ∀ late, early ≤ late → number late ≤ number early := by
    intro early began late after
    induction late, after using Nat.le_induction with
    | base => exact Nat.le_refl _
    | succ late after ih => exact Nat.le_trans (falls late (Nat.le_trans began after)) ih
  have search : ∀ value early, start ≤ early → number early = value →
      ∃ settled, start ≤ settled ∧ ∀ time, settled ≤ time → number time = number settled := by
    intro value
    induction value using Nat.strongRecOn with
    | ind value ih =>
        intro early began rfl
        by_cases lower : ∃ late, early ≤ late ∧ number late < number early
        · obtain ⟨late, after, less⟩ := lower
          exact ih _ less late (Nat.le_trans began after) rfl
        · refine ⟨early, began, fun time after => ?_⟩
          have bound := descends early began time after
          have notLess : ¬ number time < number early := fun less => lower ⟨time, after, less⟩
          omega
  exact search (number start) start (Nat.le_refl _) rfl

end Jdbx.Library
