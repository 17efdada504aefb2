import Mathlib.Data.List.Basic

/-!
# Runs whose steps meet a condition

A machine takes one event after another, and a step without a next state ends
the run.  `EveryStep condition` says of a run that each of its steps meets a
condition on the state before it.  The rule of the module turns an invariant
that such steps keep into a property of every step of the run.
-/

namespace Jdbx.Library

variable {σ ε : Type} {step : σ → ε → Option σ} {condition property : σ → ε → Prop}
  {invariant : σ → Prop} {others : List ε}

/-- Each step of the run meets `condition`, read in the state before the step. -/
def EveryStep (step : σ → ε → Option σ) (condition : σ → ε → Prop) : σ → List ε → Prop
  | _, [] => True
  | state, event :: events =>
      condition state event ∧
        ∀ next ∈ step state event, EveryStep step condition next events

instance decidableEveryStep [∀ state event, Decidable (condition state event)] :
    ∀ (events : List ε) (state : σ), Decidable (EveryStep step condition state events)
  | [], _ => inferInstanceAs (Decidable True)
  | event :: events, state =>
      have (next : σ) := decidableEveryStep events next
      inferInstanceAs
        (Decidable (condition state event ∧
          ∀ next ∈ step state event, EveryStep step condition next events))

def runFrom (step : σ → ε → Option σ) : σ → List ε → Option σ
  | state, [] => some state
  | state, event :: events => (step state event).bind fun next => runFrom step next events

/-- `condition` keeps `invariant`. -/
def Keeps (step : σ → ε → Option σ) (condition : σ → ε → Prop) (invariant : σ → Prop) : Prop :=
  ∀ state event next, invariant state → condition state event →
    next ∈ step state event → invariant next

theorem EveryStep.of_keeps (keeps : Keeps step condition invariant)
    (gives : ∀ state event, invariant state → condition state event → property state event) :
    ∀ {events : List ε} {state : σ}, invariant state →
      EveryStep step condition state events → EveryStep step property state events := by
  intro events
  induction events with
  | nil =>
      intro state _ _
      trivial
  | cons event events ih =>
      intro state holds meets
      refine ⟨gives state event holds meets.1, ?_⟩
      intro next taken
      have kept : invariant next := keeps state event next holds meets.1 taken
      exact ih kept (meets.2 next taken)

theorem invariant_runFrom (keeps : Keeps step condition invariant) :
    ∀ {events : List ε} {state last : σ}, invariant state →
      EveryStep step condition state events → runFrom step state events = some last →
        invariant last := by
  intro events
  induction events with
  | nil =>
      intro state last holds _ reached
      cases reached
      exact holds
  | cons event events ih =>
      intro state last holds meets reached
      obtain ⟨next, taken, rest⟩ := Option.bind_eq_some_iff.mp reached
      have kept : invariant next := keeps state event next holds meets.1 taken
      exact ih kept (meets.2 next taken) rest

theorem EveryStep.total
    (goesOn : ∀ state event, invariant state → condition state event →
      ∃ next, step state event = some next ∧ invariant next) :
    ∀ {events : List ε} {state : σ}, invariant state →
      EveryStep step condition state events →
        ∃ last, runFrom step state events = some last ∧ invariant last := by
  intro events
  induction events with
  | nil =>
      intro state holds _
      exact ⟨state, rfl, holds⟩
  | cons event events ih =>
      intro state holds meets
      obtain ⟨next, taken, kept⟩ := goesOn state event holds meets.1
      obtain ⟨last, reached, ends⟩ := ih kept (meets.2 next taken)
      refine ⟨last, ?_, ends⟩
      rw [runFrom, taken, Option.bind_some, reached]

theorem EveryStep.mono (weaker : ∀ state event, condition state event → property state event) :
    ∀ {events : List ε} {state : σ}, EveryStep step condition state events →
      EveryStep step property state events := by
  intro events state meets
  have noInvariant : Keeps step condition fun _ => True := fun _ _ _ _ _ _ => trivial
  exact EveryStep.of_keeps noInvariant (fun state event _ met => weaker state event met)
    trivial meets

theorem EveryStep.iff_of_keeps (keeps : Keeps step condition invariant)
    (same : ∀ state event, invariant state → (property state event ↔ condition state event))
    {events : List ε} {state : σ} (holds : invariant state) :
    EveryStep step property state events ↔ EveryStep step condition state events := by
  constructor
  · have keepsToo : Keeps step property invariant := by
      intro state event next holds met taken
      exact keeps state event next holds ((same state event holds).mp met) taken
    apply EveryStep.of_keeps keepsToo ?_ holds
    exact fun state event holds met => (same state event holds).mp met
  · apply EveryStep.of_keeps keeps ?_ holds
    exact fun state event holds met => (same state event holds).mpr met

theorem EveryStep.and_mem :
    ∀ {events : List ε} {state : σ}, EveryStep step condition state events →
      EveryStep step (fun state event => event ∈ events ∧ condition state event) state events := by
  intro events
  induction events with
  | nil =>
      intro state _
      trivial
  | cons event events ih =>
      intro state meets
      refine ⟨⟨List.mem_cons_self, meets.1⟩, fun next taken => ?_⟩
      apply (ih (meets.2 next taken)).mono
      exact fun _ _ member => ⟨List.mem_cons_of_mem event member.1, member.2⟩

theorem runFrom_append :
    ∀ {events : List ε} {state : σ}, runFrom step state (events ++ others) =
      (runFrom step state events).bind fun middle => runFrom step middle others := by
  intro events
  induction events with
  | nil =>
      intro state
      rfl
  | cons event events ih =>
      intro state
      rw [List.cons_append, runFrom, runFrom, Option.bind_assoc]
      exact congrArg _ (funext fun next => ih)

theorem EveryStep.of_append :
    ∀ {events : List ε} {state : σ}, EveryStep step condition state (events ++ others) →
      EveryStep step condition state events ∧
        ∀ middle, runFrom step state events = some middle →
          EveryStep step condition middle others := by
  intro events
  induction events with
  | nil =>
      intro state meets
      refine ⟨trivial, fun middle reached => ?_⟩
      cases reached
      exact meets
  | cons event events ih =>
      intro state meets
      refine ⟨⟨meets.1, fun next taken => (ih (meets.2 next taken)).1⟩, ?_⟩
      intro middle reached
      obtain ⟨next, taken, rest⟩ := Option.bind_eq_some_iff.mp reached
      exact (ih (meets.2 next taken)).2 middle rest

theorem EveryStep.append :
    ∀ {events : List ε} {state : σ}, EveryStep step condition state events →
      (∀ middle, runFrom step state events = some middle →
        EveryStep step condition middle others) →
      EveryStep step condition state (events ++ others) := by
  intro events
  induction events with
  | nil =>
      intro state _ rest
      exact rest state rfl
  | cons event events ih =>
      intro state meets rest
      refine ⟨meets.1, fun next taken => ih (meets.2 next taken) ?_⟩
      intro middle reached
      exact rest middle (Option.bind_eq_some_iff.mpr ⟨next, taken, reached⟩)

theorem EveryStep.last {event : ε} {last : σ} :
    ∀ {events : List ε} {state : σ}, EveryStep step condition state (events ++ [event]) →
      runFrom step state events = some last → condition last event := by
  intro events
  induction events with
  | nil =>
      intro state meets reached
      cases reached
      exact meets.1
  | cons first events ih =>
      intro state meets reached
      obtain ⟨next, taken, rest⟩ := Option.bind_eq_some_iff.mp reached
      exact ih (meets.2 next taken) rest

theorem invariant_reached
    (keeps : ∀ state event next, invariant state → next ∈ step state event → invariant next) :
    ∀ {events : List ε} {state last : σ}, invariant state →
      runFrom step state events = some last → invariant last := by
  intro events
  induction events with
  | nil =>
      intro state last holds reached
      cases reached
      exact holds
  | cons event events ih =>
      intro state last holds reached
      obtain ⟨next, taken, rest⟩ := Option.bind_eq_some_iff.mp reached
      exact ih (keeps state event next holds taken) rest

theorem invariant_history {invariant : List ε → σ → Prop}
    (keeps : ∀ past state event next, invariant past state → next ∈ step state event →
      invariant (past ++ [event]) next) :
    ∀ {events past : List ε} {state last : σ}, invariant past state →
      runFrom step state events = some last → invariant (past ++ events) last := by
  intro events
  induction events with
  | nil =>
      intro past state last holds reached
      cases reached
      rwa [List.append_nil]
  | cons event events ih =>
      intro past state last holds reached
      obtain ⟨next, taken, rest⟩ := Option.bind_eq_some_iff.mp reached
      rw [← List.singleton_append, ← List.append_assoc]
      exact ih (keeps past state event next holds taken) rest

/-- What the last step that writes has written. -/
def lastWritten {ν : Type} (step : σ → ε → Option σ) (written : σ → ε → Option ν) :
    σ → List ε → Option ν
  | _, [] => none
  | state, event :: events =>
      ((step state event).bind fun next => lastWritten step written next events).or
        (written state event)

theorem lastWritten_of_reached {ν : Type} {written : σ → ε → Option ν} {held : σ → Option ν}
    (only : ∀ state event next value, next ∈ step state event → held next = some value →
      (written state event).or (held state) = some value) :
    ∀ {events : List ε} {state last : σ} {value : ν}, runFrom step state events = some last →
      held last = some value →
        (lastWritten step written state events).or (held state) = some value := by
  intro events
  induction events with
  | nil =>
      intro state last value reached found
      cases reached
      exact found
  | cons event events ih =>
      intro state last value reached found
      obtain ⟨next, taken, rest⟩ := Option.bind_eq_some_iff.mp reached
      have later := ih rest found
      rw [lastWritten, taken, Option.bind_some, Option.or_assoc]
      cases writes : lastWritten step written next events with
      | some other =>
          rw [writes] at later
          exact later
      | none =>
          rw [writes, Option.none_or] at later
          exact only state event next value taken later

theorem runFrom_iff_everyStep {holds : σ → Prop}
    (step_iff : ∀ state event next, next ∈ step state event →
      (holds next ↔ holds state ∧ condition state event)) :
    ∀ {events : List ε} {state last : σ}, runFrom step state events = some last →
      (holds last ↔ holds state ∧ EveryStep step condition state events) := by
  intro events
  induction events with
  | nil =>
      intro state last reached
      cases reached
      simp [EveryStep]
  | cons event events ih =>
      intro state last reached
      obtain ⟨next, taken, rest⟩ := Option.bind_eq_some_iff.mp reached
      have onlyNext : (∀ other ∈ step state event, EveryStep step condition other events) ↔
          EveryStep step condition next events := by
        simp [taken]
      rw [ih rest, step_iff state event next taken, EveryStep, onlyNext,
        and_assoc]

theorem runFrom_iff_of_invariant {broken : σ → Prop}
    (keeps : Keeps step condition invariant)
    (breaks : ∀ state event next, invariant state → ¬ condition state event →
      next ∈ step state event → broken next)
    (stays : ∀ state event next, broken state → next ∈ step state event → broken next)
    (sound : ∀ state, invariant state → ¬ broken state) :
    ∀ {events : List ε} {state last : σ}, invariant state →
      runFrom step state events = some last →
        (¬ broken last ↔ EveryStep step condition state events) := by
  intro events
  induction events with
  | nil =>
      intro state last holds reached
      cases reached
      exact iff_of_true (sound state holds) trivial
  | cons event events ih =>
      intro state last holds reached
      obtain ⟨next, taken, rest⟩ := Option.bind_eq_some_iff.mp reached
      have onlyNext : (∀ other ∈ step state event, EveryStep step condition other events) ↔
          EveryStep step condition next events := by
        simp [taken]
      rw [EveryStep, onlyNext]
      by_cases met : condition state event
      · have kept : invariant next := keeps state event next holds met taken
        rw [ih kept rest]
        exact (and_iff_right met).symm
      · have lasting : broken last :=
          invariant_reached stays (breaks state event next holds met taken) rest
        simp [met, lasting]

end Jdbx.Library
