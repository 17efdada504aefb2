import Jdbx.Database.Deadlocks
import Jdbx.Library.GuardedRun

/-!
# Ending transactions beside deadlock resolution

`transaction_commit` and `transaction_rollback` test and set the state of a
transaction in one section under `transaction->lock`, and each round of
`lock_manager_check_deadlocks` marks its victim in one such section.  What the
calls do outside of these sections changes neither a state nor the lock table.
-/

namespace Jdbx

open Library

/-- The lock table and the transactions, by address. -/
structure TransactionSystem where
  lockTable : LockTable
  deadlockDetection : Bool
  transactions : Nat → Transaction

/-- The section of `transaction_commit` and `transaction_rollback`: `state` is
the one in which the transaction ends. -/
def Transaction.endAs (transaction : Transaction) (state : TransactionState)
    (commitTime : Int64) : Int32 × Transaction :=
  if transaction.state = .committed then (-2, transaction)
  else if transaction.state = .aborted then (-3, transaction)
  else (0, { transaction with state, commitTime })

namespace TransactionSystem

def endTransaction (system : TransactionSystem) (state : TransactionState) (transaction : Nat)
    (commitTime : Int64) : Int32 × TransactionSystem :=
  let (result, ended) := (system.transactions transaction).endAs state commitTime
  (result,
    { system with transactions := Function.update system.transactions transaction ended })

def commit (system : TransactionSystem) (transaction : Nat) (commitTime : Int64) :
    Int32 × TransactionSystem :=
  system.endTransaction .committed transaction commitTime

def rollback (system : TransactionSystem) (transaction : Nat) (commitTime : Int64) :
    Int32 × TransactionSystem :=
  system.endTransaction .aborted transaction commitTime

/-- The victim of one round of `lock_manager_check_deadlocks`. -/
def victim (system : TransactionSystem) : Option Nat :=
  let nodes := buildWaitForGraph system.lockTable
  if !system.deadlockDetection || nodes.isEmpty then none
  else
    match detectCycles nodes (nodes.map WaitForNode.transaction) with
    | some (true, marks) => selectDeadlockVictim system.transactions marks nodes
    | _ => none

/-- One round of `lock_manager_check_deadlocks`. -/
def resolve (system : TransactionSystem) : TransactionSystem :=
  match system.victim with
  | some victim =>
      { system with transactions := abortTransactionForDeadlock system.transactions victim }
  | none => system

end TransactionSystem

/-- One section. -/
inductive EndingEvent where
  | commit (transaction : Nat) (commitTime : Int64)
  | rollback (transaction : Nat) (commitTime : Int64)
  | resolve
  deriving DecidableEq, Repr

/-- The transaction whose commit or rollback returns 0, and the system after the
section. -/
def TransactionSystem.section (system : TransactionSystem) :
    EndingEvent → Option Nat × TransactionSystem
  | .commit transaction commitTime =>
      let (result, system) := system.commit transaction commitTime
      (if result = 0 then some transaction else none, system)
  | .rollback transaction commitTime =>
      let (result, system) := system.rollback transaction commitTime
      (if result = 0 then some transaction else none, system)
  | .resolve => (none, system.resolve)

theorem resolve_lockTable (system : TransactionSystem) :
    system.resolve.lockTable = system.lockTable := by
  unfold TransactionSystem.resolve
  split <;> rfl

/-! ## The history of a run -/

def holdsLock (table : LockTable) (transaction : Nat) : Bool :=
  table.flatten.any fun entry =>
    entry.grantedQueue.any fun request => request.transaction == transaction

/-- What has happened to each transaction. -/
structure EndingHistory where
  /-- It was `ABORTING` or `ABORTED`. -/
  everAborted : Nat → Bool
  everCommitted : Nat → Bool
  /-- The calls that returned 0. -/
  successes : Nat → Nat
  /-- The sections that took its locks away. -/
  releases : Nat → Nat

def TransactionState.isAbort (state : TransactionState) : Bool :=
  state = .aborting ∨ state = .aborted

def EndingHistory.start (system : TransactionSystem) : EndingHistory where
  everAborted transaction := (system.transactions transaction).state.isAbort
  everCommitted transaction := (system.transactions transaction).state = .committed
  successes _ := 0
  releases _ := 0

/-- The history with one more section. -/
def EndingHistory.after (history : EndingHistory) (before : TransactionSystem)
    (ended : Option Nat) (system : TransactionSystem) : EndingHistory where
  everAborted transaction :=
    history.everAborted transaction || (system.transactions transaction).state.isAbort
  everCommitted transaction :=
    history.everCommitted transaction || (system.transactions transaction).state = .committed
  successes transaction :=
    if ended = some transaction then history.successes transaction + 1
    else history.successes transaction
  releases transaction :=
    if holdsLock before.lockTable transaction ∧ ¬ holdsLock system.lockTable transaction then
      history.releases transaction + 1
    else history.releases transaction

/-- A system with its history and the locks held when the run began. -/
structure TrackedEnding where
  system : TransactionSystem
  history : EndingHistory
  held : Nat → Bool

def TrackedEnding.start (system : TransactionSystem) : TrackedEnding where
  system
  history := .start system
  held := holdsLock system.lockTable

def TrackedEnding.after (tracked : TrackedEnding) (event : EndingEvent) : TrackedEnding :=
  let (ended, system) := tracked.system.section event
  { tracked with system, history := tracked.history.after tracked.system ended system }

def endingStep (tracked : TrackedEnding) (event : EndingEvent) : Option TrackedEnding :=
  some (tracked.after event)

/-- What a section is to keep: an abort and a commit are final, one call ends a
transaction, and with it the locks it held are released once. -/
structure EndsOnce (tracked : TrackedEnding) (event : EndingEvent) : Prop where
  abortFinal : ∀ transaction, tracked.history.everAborted transaction = true →
    ((tracked.after event).system.transactions transaction).state ≠ .committed
  commitFinal : ∀ transaction, tracked.history.everCommitted transaction = true →
    ((tracked.after event).system.transactions transaction).state ≠ .aborted
  single : ∀ transaction, (tracked.after event).history.successes transaction ≤ 1
  released : ∀ transaction, tracked.held transaction = true →
    0 < (tracked.after event).history.successes transaction →
      (tracked.after event).history.releases transaction = 1

/-- No victim commits, and a transaction that ends holds no lock. -/
def EndsUnlocked (tracked : TrackedEnding) : EndingEvent → Prop
  | .commit transaction _ =>
      let state := (tracked.system.transactions transaction).state
      state ≠ .aborting ∧
        (state ≠ .committed ∧ state ≠ .aborted →
          holdsLock tracked.system.lockTable transaction = false)
  | .rollback transaction _ =>
      let state := (tracked.system.transactions transaction).state
      state ≠ .committed ∧ state ≠ .aborted →
        holdsLock tracked.system.lockTable transaction = false
  | .resolve => True

instance (tracked : TrackedEnding) (event : EndingEvent) : Decidable (EndsUnlocked tracked event) :=
  match event with
  | .commit _ _ => inferInstanceAs (Decidable (_ ∧ (_ ∧ _ → _)))
  | .rollback _ _ => inferInstanceAs (Decidable (_ ∧ _ → _))
  | .resolve => inferInstanceAs (Decidable True)

/-! ## The invariant -/

/-- The history agrees with the states, and no ended transaction holds a lock. -/
structure EndingLaw (tracked : TrackedEnding) : Prop where
  held : tracked.held = holdsLock tracked.system.lockTable
  aborted : ∀ transaction, tracked.history.everAborted transaction =
    (tracked.system.transactions transaction).state.isAbort
  committed : ∀ transaction, tracked.history.everCommitted transaction =
    decide ((tracked.system.transactions transaction).state = .committed)
  single : ∀ transaction, tracked.history.successes transaction ≤ 1
  ended : ∀ transaction, 0 < tracked.history.successes transaction →
    ((tracked.system.transactions transaction).state = .committed ∨
        (tracked.system.transactions transaction).state = .aborted) ∧
      tracked.held transaction = false
  unreleased : ∀ transaction, tracked.history.releases transaction = 0

theorem endingLaw_start (system : TransactionSystem) : EndingLaw (.start system) where
  held := rfl
  aborted _ := rfl
  committed _ := rfl
  single _ := Nat.zero_le 1
  ended _ positive := absurd positive (lt_irrefl 0)
  unreleased _ := rfl

theorem section_lockTable (system : TransactionSystem) (event : EndingEvent) :
    (system.section event).2.lockTable = system.lockTable := by
  cases event with
  | commit | rollback => rfl
  | resolve => exact resolve_lockTable system

theorem endAs_of_unfinished {transaction : Transaction} (state : TransactionState)
    (commitTime : Int64) (notCommitted : transaction.state ≠ .committed)
    (notAborted : transaction.state ≠ .aborted) :
    transaction.endAs state commitTime = (0, { transaction with state, commitTime }) := by
  rw [Transaction.endAs, if_neg notCommitted, if_neg notAborted]

theorem endAs_of_finished {transaction : Transaction} (state : TransactionState)
    (commitTime : Int64)
    (finished : transaction.state = .committed ∨ transaction.state = .aborted) :
    (transaction.endAs state commitTime).1 ≠ 0 ∧
      (transaction.endAs state commitTime).2 = transaction := by
  unfold Transaction.endAs
  rcases finished with committed | aborted
  · simp [committed]
  · simp [aborted]

theorem endTransaction_cases (system : TransactionSystem) (state : TransactionState)
    (ended other : Nat) (commitTime : Int64) :
    ((system.endTransaction state ended commitTime).1 = 0 ∧
        (system.transactions ended).state ≠ .committed ∧
        (system.transactions ended).state ≠ .aborted ∧
        ((system.endTransaction state ended commitTime).2.transactions other).state =
          if other = ended then state else (system.transactions other).state) ∨
      ((system.endTransaction state ended commitTime).1 ≠ 0 ∧
        ((system.transactions ended).state = .committed ∨
          (system.transactions ended).state = .aborted) ∧
        ((system.endTransaction state ended commitTime).2.transactions other).state =
          (system.transactions other).state) := by
  by_cases finished : (system.transactions ended).state = .committed ∨
      (system.transactions ended).state = .aborted
  · obtain ⟨refused, unchanged⟩ := endAs_of_finished state commitTime finished
    refine Or.inr ⟨refused, finished, ?_⟩
    simp only [TransactionSystem.endTransaction, unchanged, Function.update_eq_self]
  · obtain ⟨notCommitted, notAborted⟩ := not_or.mp finished
    have succeeds := endAs_of_unfinished state commitTime notCommitted notAborted
    refine Or.inl ⟨by rw [TransactionSystem.endTransaction, succeeds], notCommitted, notAborted, ?_⟩
    simp only [TransactionSystem.endTransaction, succeeds, Function.update_apply]
    split <;> rfl

theorem section_cases (system : TransactionSystem) (event : EndingEvent) (transaction : Nat) :
    ((system.section event).1 = some transaction ∧
        (system.transactions transaction).state ≠ .committed ∧
        (system.transactions transaction).state ≠ .aborted ∧
        ((∃ time, event = .commit transaction time) ∧
            ((system.section event).2.transactions transaction).state = .committed ∨
          (∃ time, event = .rollback transaction time) ∧
            ((system.section event).2.transactions transaction).state = .aborted)) ∨
      ((system.section event).1 ≠ some transaction ∧
        (((system.section event).2.transactions transaction).state =
            (system.transactions transaction).state ∨
          (system.transactions transaction).state = .active ∧
            ((system.section event).2.transactions transaction).state = .aborting)) := by
  cases event with
  | commit ended time =>
      simp only [TransactionSystem.section, TransactionSystem.commit]
      rcases endTransaction_cases system .committed ended transaction time with
        ⟨succeeds, notCommitted, notAborted, state⟩ | ⟨refused, finished, state⟩
      · by_cases same : transaction = ended
        · subst same
          rw [if_pos rfl] at state
          exact Or.inl ⟨if_pos succeeds, notCommitted, notAborted, Or.inl ⟨⟨time, rfl⟩, state⟩⟩
        · rw [if_neg same] at state
          refine Or.inr ⟨?_, Or.inl state⟩
          simp [succeeds, Ne.symm same]
      · exact Or.inr ⟨by simp [refused], Or.inl state⟩
  | rollback ended time =>
      simp only [TransactionSystem.section, TransactionSystem.rollback]
      rcases endTransaction_cases system .aborted ended transaction time with
        ⟨succeeds, notCommitted, notAborted, state⟩ | ⟨refused, finished, state⟩
      · by_cases same : transaction = ended
        · subst same
          rw [if_pos rfl] at state
          exact Or.inl ⟨if_pos succeeds, notCommitted, notAborted, Or.inr ⟨⟨time, rfl⟩, state⟩⟩
        · rw [if_neg same] at state
          refine Or.inr ⟨?_, Or.inl state⟩
          simp [succeeds, Ne.symm same]
      · exact Or.inr ⟨by simp [refused], Or.inl state⟩
  | resolve =>
      refine Or.inr ⟨by simp [TransactionSystem.section], ?_⟩
      simp only [TransactionSystem.section, TransactionSystem.resolve]
      split
      · rename_i victim _
        by_cases same : transaction = victim
        · subst same
          by_cases active : (system.transactions transaction).state = .active
          · exact Or.inr ⟨active, by simp [abortTransactionForDeadlock, active]⟩
          · exact Or.inl (by simp [abortTransactionForDeadlock, active])
        · exact Or.inl (by simp [abortTransactionForDeadlock, same])
      · exact Or.inl rfl

section Law

variable {tracked : TrackedEnding} {event : EndingEvent}

theorem releases_after (event : EndingEvent) (transaction : Nat) :
    (tracked.after event).history.releases transaction = tracked.history.releases transaction := by
  have same := section_lockTable tracked.system event
  simp only [TrackedEnding.after, EndingHistory.after, same, and_not_self_iff, if_false]

theorem successes_after (event : EndingEvent) (transaction : Nat) :
    (tracked.after event).history.successes transaction =
      if (tracked.system.section event).1 = some transaction then
        tracked.history.successes transaction + 1
      else tracked.history.successes transaction :=
  rfl

theorem after_system (event : EndingEvent) :
    (tracked.after event).system = (tracked.system.section event).2 :=
  rfl

theorem everAborted_after (event : EndingEvent) (transaction : Nat) :
    (tracked.after event).history.everAborted transaction =
      (tracked.history.everAborted transaction ||
        ((tracked.system.section event).2.transactions transaction).state.isAbort) :=
  rfl

theorem everCommitted_after (event : EndingEvent) (transaction : Nat) :
    (tracked.after event).history.everCommitted transaction =
      (tracked.history.everCommitted transaction ||
        decide (((tracked.system.section event).2.transactions transaction).state =
          .committed)) :=
  rfl

theorem EndingLaw.next (law : EndingLaw tracked) (ends : EndsOnce tracked event) :
    EndingLaw (tracked.after event) where
  held := by
    rw [after_system, section_lockTable]
    exact law.held
  aborted transaction := by
    have final := ends.abortFinal transaction
    have before := law.aborted transaction
    rw [everAborted_after, after_system, before]
    cases wasAbort : (tracked.system.transactions transaction).state.isAbort with
    | false => exact Bool.false_or _
    | true =>
        rw [wasAbort] at before
        rcases section_cases tracked.system event transaction with
          ⟨-, -, -, ⟨-, committed⟩ | ⟨-, aborted⟩⟩ | ⟨-, same | ⟨active, -⟩⟩
        · exact absurd committed (final before)
        · rw [aborted]
          rfl
        · rw [same, wasAbort]
          rfl
        · rw [active] at wasAbort
          cases wasAbort
  committed transaction := by
    rw [everCommitted_after, after_system, law.committed transaction]
    rcases section_cases tracked.system event transaction with
      ⟨-, notCommitted, -, -⟩ | ⟨-, same | ⟨active, -⟩⟩
    · rw [decide_eq_false notCommitted]
      exact Bool.false_or _
    · rw [same, Bool.or_self]
    · rw [active]
      exact Bool.false_or _
  single := ends.single
  ended transaction positive := by
    rcases section_cases tracked.system event transaction with
      ⟨-, -, -, outcome⟩ | ⟨other, moved⟩
    · refine ⟨outcome.imp And.right And.right, ?_⟩
      apply Bool.eq_false_iff.mpr
      intro held
      have released := ends.released transaction held positive
      rw [releases_after, law.unreleased] at released
      cases released
    · rw [successes_after, if_neg other] at positive
      obtain ⟨finished, unheld⟩ := law.ended transaction positive
      rw [after_system]
      refine ⟨?_, unheld⟩
      rcases moved with same | ⟨active, -⟩
      · rwa [same]
      · simp [active] at finished
  unreleased transaction := by
    rw [releases_after, law.unreleased]

theorem endsOnce_of_endsUnlocked (law : EndingLaw tracked)
    (unlocked : EndsUnlocked tracked event) : EndsOnce tracked event where
  abortFinal transaction everAborted := by
    rw [law.aborted] at everAborted
    rw [after_system]
    rcases section_cases tracked.system event transaction with
      ⟨-, -, notAborted, ⟨⟨time, rfl⟩, -⟩ | ⟨-, aborted⟩⟩ | ⟨-, same | ⟨-, aborting⟩⟩
    · -- A commit ends no transaction that was aborting.
      have notAborting := unlocked.1
      simp [TransactionState.isAbort, notAborting, notAborted] at everAborted
    · simp [aborted]
    · intro committed
      rw [← same, committed] at everAborted
      cases everAborted
    · simp [aborting]
  commitFinal transaction everCommitted := by
    rw [law.committed, decide_eq_true_eq] at everCommitted
    rw [after_system]
    rcases section_cases tracked.system event transaction with
      ⟨-, notCommitted, -, -⟩ | ⟨-, same | ⟨active, -⟩⟩
    · exact absurd everCommitted notCommitted
    · simp [same, everCommitted]
    · simp [active] at everCommitted
  single transaction := by
    rw [successes_after]
    split
    · rename_i ended
      rcases section_cases tracked.system event transaction with
        ⟨-, notCommitted, notAborted, -⟩ | ⟨other, -⟩
      · by_contra twice
        obtain ⟨finished, -⟩ := law.ended transaction (by omega)
        exact finished.elim notCommitted notAborted
      · exact absurd ended other
    · exact law.single transaction
  released transaction held positive := by
    have unheld : tracked.held transaction = false := by
      rw [successes_after] at positive
      split at positive
      · rename_i ended
        rw [law.held]
        rcases section_cases tracked.system event transaction with
          ⟨-, notCommitted, notAborted, ⟨⟨time, rfl⟩, -⟩ | ⟨⟨time, rfl⟩, -⟩⟩ | ⟨other, -⟩
        · exact unlocked.2 ⟨notCommitted, notAborted⟩
        · exact unlocked ⟨notCommitted, notAborted⟩
        · exact absurd ended other
      · exact (law.ended transaction positive).2
    rw [unheld] at held
    cases held

theorem section_of_unfinished {transaction : Nat} (time : Int64)
    (notCommitted : (tracked.system.transactions transaction).state ≠ .committed)
    (notAborted : (tracked.system.transactions transaction).state ≠ .aborted) :
    ((tracked.system.section (.commit transaction time)).1 = some transaction ∧
        ((tracked.system.section (.commit transaction time)).2.transactions transaction).state =
          .committed) ∧
      (tracked.system.section (.rollback transaction time)).1 = some transaction := by
  have commits := endAs_of_unfinished .committed time notCommitted notAborted
  have rollsBack := endAs_of_unfinished .aborted time notCommitted notAborted
  simp [TransactionSystem.section, TransactionSystem.commit, TransactionSystem.rollback,
    TransactionSystem.endTransaction, commits, rollsBack]

theorem unheld_of_endsOnce (law : EndingLaw tracked) (ends : EndsOnce tracked event)
    {transaction : Nat} (ended : (tracked.system.section event).1 = some transaction) :
    holdsLock tracked.system.lockTable transaction = false := by
  rw [← law.held]
  apply Bool.eq_false_iff.mpr
  intro held
  have positive : 0 < (tracked.after event).history.successes transaction := by
    rw [successes_after, if_pos ended]
    exact Nat.succ_pos _
  have released := ends.released transaction held positive
  rw [releases_after, law.unreleased] at released
  cases released

theorem endsUnlocked_of_endsOnce (law : EndingLaw tracked) (ends : EndsOnce tracked event) :
    EndsUnlocked tracked event := by
  cases event with
  | commit transaction time =>
      constructor
      · intro aborting
        have everAborted : tracked.history.everAborted transaction = true := by
          rw [law.aborted, aborting]
          rfl
        have notCommitted : (tracked.system.transactions transaction).state ≠ .committed := by
          simp [aborting]
        have notAborted : (tracked.system.transactions transaction).state ≠ .aborted := by
          simp [aborting]
        have commits := (section_of_unfinished time notCommitted notAborted).1.2
        exact ends.abortFinal transaction everAborted commits
      · rintro ⟨notCommitted, notAborted⟩
        exact unheld_of_endsOnce law ends (section_of_unfinished time notCommitted notAborted).1.1
  | rollback transaction time =>
      rintro ⟨notCommitted, notAborted⟩
      exact unheld_of_endsOnce law ends (section_of_unfinished time notCommitted notAborted).2
  | resolve => trivial

end Law

/-- Every section of a run keeps what is claimed just where no victim commits
and no transaction ends with a lock. -/
theorem endings_once (system : TransactionSystem) (events : List EndingEvent) :
    EveryStep endingStep EndsOnce (.start system) events ↔
      EveryStep endingStep EndsUnlocked (.start system) events := by
  have keeps : Keeps endingStep EndsUnlocked EndingLaw := by
    intro tracked event next law unlocked taken
    cases taken
    exact law.next (endsOnce_of_endsUnlocked law unlocked)
  apply EveryStep.iff_of_keeps keeps ?_ (endingLaw_start system)
  exact fun _ _ law => ⟨endsUnlocked_of_endsOnce law, endsOnce_of_endsUnlocked law⟩

/-- Transaction 1 waits for a document that it has locked itself. -/
def lockedTwice : TransactionSystem where
  lockTable := [[writtenDocument 0 (ascii "a") (writeRequest 2 1 .waiting)
    (writeRequest 1 1 .granted)]]
  deadlockDetection := true
  transactions _ :=
    { id := ascii "tx", state := .active, startTime := 100, commitTime := 0,
      userId := ascii "user", isolationLevel := .serializable }

/-- The victim of the deadlock commits. -/
theorem not_endsOnce_lockedTwice :
    ¬ EveryStep endingStep EndsOnce (.start lockedTwice) [.resolve, .commit 1 200] := by
  intro everyStep
  have ends : EndsOnce _ _ := (everyStep.2 _ rfl).1
  exact ends.abortFinal 1 (by decide) (by decide)

end Jdbx
