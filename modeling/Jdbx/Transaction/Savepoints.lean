import Jdbx.Library.GuardedRun
import Jdbx.Transaction.Transaction
import Jdbx.Utils.Json
import Mathlib.Data.List.Forall2

/-!
# Savepoints

The operations and savepoints of one transaction.  An operation's record is
never changed once it is in the list, so the pointers that the transaction and
its savepoints hold into the list are lists here.
-/

namespace Jdbx

open Library

inductive OperationType where
  | insert
  | update
  | delete
  deriving DecidableEq, Repr

structure TransactionOperation (δ : Type) where
  type : OperationType
  collectionName : Bytes
  documentId : Bytes
  beforeState : Option (JsonValue δ)
  afterState : Option (JsonValue δ)

structure Savepoint (δ : Type) where
  name : Bytes
  operation : List (TransactionOperation δ)
  operationCount : Int32

/-- The operations and savepoints of a `transaction_t`. -/
structure TransactionWork (δ : Type) extends Transaction where
  operations : List (TransactionOperation δ)
  operationCount : Int32
  savepoints : List (Savepoint δ)

variable {δ : Type}

/-! ## The calls -/

section Calls

/-- The `document_id` of an insert, and the document with the `uuid` it then has. -/
def insertedDocument (document : JsonValue δ) (now : Int64) (random : Nat) :
    Bytes × JsonValue δ :=
  match jsonObjectGet document (ascii "uuid") with
  | some (.string uuid) => (uuid, document)
  | _ =>
      let newId := generateTransactionId now random
      (newId, jsonObjectSet document (ascii "uuid") (.string newId))

def insertOperation (collection : Bytes) (document : JsonValue δ) (now : Int64) (random : Nat) :
    TransactionOperation δ :=
  let inserted := insertedDocument document now random
  { type := .insert
    collectionName := collection
    documentId := inserted.1
    beforeState := none
    afterState := some (jsonClone inserted.2) }

def updateOperation (collection id : Bytes) (document : JsonValue δ) : TransactionOperation δ where
  type := .update
  collectionName := collection
  documentId := id
  beforeState := none
  afterState := some (jsonClone document)

def deleteOperation (collection id : Bytes) : TransactionOperation δ where
  type := .delete
  collectionName := collection
  documentId := id
  beforeState := none
  afterState := none

namespace TransactionWork

def addOperation (transaction : TransactionWork δ) (operation : TransactionOperation δ) :
    TransactionWork δ :=
  { transaction with
    operations := operation :: transaction.operations
    operationCount := transaction.operationCount + 1 }

def insertDocument (transaction : TransactionWork δ) (collection : Bytes)
    (document : JsonValue δ) (now : Int64) (random : Nat) :
    Int × TransactionWork δ × JsonValue δ :=
  if transaction.state ≠ .active then
    (-1, transaction, document)
  else
    (0, transaction.addOperation (insertOperation collection document now random),
      (insertedDocument document now random).2)

def updateDocument (transaction : TransactionWork δ) (collection id : Bytes)
    (document : JsonValue δ) : Int × TransactionWork δ :=
  if transaction.state ≠ .active then
    (-1, transaction)
  else
    (0, transaction.addOperation (updateOperation collection id document))

def deleteDocument (transaction : TransactionWork δ) (collection id : Bytes) :
    Int × TransactionWork δ :=
  if transaction.state ≠ .active then
    (-1, transaction)
  else
    (0, transaction.addOperation (deleteOperation collection id))

def createSavepoint (transaction : TransactionWork δ) (savepointName : Bytes) :
    Int × TransactionWork δ :=
  if transaction.state ≠ .active then
    (-1, transaction)
  else
    let savepoint : Savepoint δ :=
      { name := savepointName
        operation := transaction.operations
        operationCount := transaction.operationCount }
    (0, { transaction with savepoints := savepoint :: transaction.savepoints })

def rollbackToSavepoint (transaction : TransactionWork δ) (savepointName : Bytes) :
    Int × TransactionWork δ :=
  if transaction.state ≠ .active then
    (-1, transaction)
  else
    match transaction.savepoints.find? fun savepoint => savepoint.name == savepointName with
    | none => (-9, transaction)
    | some savepoint =>
        -- The savepoints in front of this one stay in the list.
        (0, { transaction with
          operations := savepoint.operation
          operationCount := savepoint.operationCount })

def releaseSavepoint (transaction : TransactionWork δ) (savepointName : Bytes) :
    Int × TransactionWork δ :=
  if transaction.state ≠ .active then
    (-1, transaction)
  else
    match transaction.savepoints.find? fun savepoint => savepoint.name == savepointName with
    | none => (-9, transaction)
    | some _ =>
        (0, { transaction with
          savepoints := transaction.savepoints.eraseP fun savepoint =>
            savepoint.name == savepointName })

end TransactionWork

/-- A call on a transaction. -/
inductive SavepointCall (δ : Type) where
  | insertDocument (collection : Bytes) (document : JsonValue δ) (now : Int64) (random : Nat)
  | updateDocument (collection id : Bytes) (document : JsonValue δ)
  | deleteDocument (collection id : Bytes)
  | createSavepoint (savepointName : Bytes)
  | rollbackToSavepoint (savepointName : Bytes)
  | releaseSavepoint (savepointName : Bytes)

/-- What a call returns and the transaction after it. -/
def TransactionWork.call (transaction : TransactionWork δ) :
    SavepointCall δ → Int × TransactionWork δ
  | .insertDocument collection document now random =>
      let (status, transaction, _) := transaction.insertDocument collection document now random
      (status, transaction)
  | .updateDocument collection id document => transaction.updateDocument collection id document
  | .deleteDocument collection id => transaction.deleteDocument collection id
  | .createSavepoint savepointName => transaction.createSavepoint savepointName
  | .rollbackToSavepoint savepointName => transaction.rollbackToSavepoint savepointName
  | .releaseSavepoint savepointName => transaction.releaseSavepoint savepointName

def SavepointCall.operation? : SavepointCall δ → Option (TransactionOperation δ)
  | .insertDocument collection document now random =>
      some (insertOperation collection document now random)
  | .updateDocument collection id document => some (updateOperation collection id document)
  | .deleteDocument collection id => some (deleteOperation collection id)
  | _ => none

end Calls

/-- The history of a transaction, each list newest first.  A call's time is its
number in the run. -/
structure WorkHistory (δ : Type) where
  clock : Nat
  /-- The operations performed, with their times. -/
  performed : List (Nat × TransactionOperation δ)
  /-- The names and times of the savepoints not released. -/
  savepoints : List (Bytes × Nat)
  /-- The time of the savepoint and of the call, for each rollback. -/
  rollbacks : List (Nat × Nat)

namespace WorkHistory

def Undone (history : WorkHistory δ) (time : Nat) : Prop :=
  ∃ rollback ∈ history.rollbacks, rollback.1 < time ∧ time < rollback.2

instance (history : WorkHistory δ) (time : Nat) : Decidable (history.Undone time) :=
  inferInstanceAs
    (Decidable (∃ rollback ∈ history.rollbacks, rollback.1 < time ∧ time < rollback.2))

def upTo (history : WorkHistory δ) (time : Nat) : List (TransactionOperation δ) :=
  (history.performed.filter fun one => one.1 ≤ time ∧ ¬ history.Undone one.1).map Prod.snd

def remaining (history : WorkHistory δ) : List (TransactionOperation δ) :=
  history.upTo history.clock

def named (history : WorkHistory δ) (savepointName : Bytes) : Option (Bytes × Nat) :=
  history.savepoints.find? fun savepoint => savepoint.1 == savepointName

/-- The history with one more call. -/
def after (history : WorkHistory δ) (call : SavepointCall δ) : WorkHistory δ :=
  let history := { history with clock := history.clock + 1 }
  match call with
  | .createSavepoint savepointName =>
      { history with savepoints := (savepointName, history.clock) :: history.savepoints }
  | .rollbackToSavepoint savepointName =>
      match history.named savepointName with
      | none => history
      | some (_, created) =>
          { history with rollbacks := (created, history.clock) :: history.rollbacks }
  | .releaseSavepoint savepointName =>
      { history with
        savepoints := history.savepoints.eraseP fun savepoint => savepoint.1 == savepointName }
  | call =>
      match call.operation? with
      | none => history
      | some operation =>
          { history with performed := (history.clock, operation) :: history.performed }

end WorkHistory

abbrev TrackedWork (δ : Type) := TransactionWork δ × WorkHistory δ

def callStep (tracked : TrackedWork δ) (call : SavepointCall δ) : Option (TrackedWork δ) :=
  some ((tracked.1.call call).2, tracked.2.after call)

/-- A transaction as it begins. -/
def begunWork (transaction : Transaction) : TrackedWork δ :=
  ({ transaction with
      state := .active
      operations := []
      operationCount := 0
      savepoints := [] },
    { clock := 0, performed := [], savepoints := [], rollbacks := [] })

/-- The call leaves the operations performed and not undone, and their number.
A rollback that succeeds removes what was performed after its savepoint, and its
savepoint was not created after one rolled back to since. -/
structure TracksHistory (tracked : TrackedWork δ) (call : SavepointCall δ) : Prop where
  operations : (tracked.1.call call).2.operations = (tracked.2.after call).remaining
  operationCount :
    (tracked.1.call call).2.operationCount.toInt = (tracked.1.call call).2.operations.length
  rollback : ∀ savepointName, call = .rollbackToSavepoint savepointName →
    (tracked.1.call call).1 = 0 →
      ∃ savepoint ∈ tracked.2.named savepointName, ¬ tracked.2.Undone savepoint.2 ∧
        (tracked.1.call call).2.operations = tracked.2.upTo savepoint.2

/-- A rollback names no savepoint created after one rolled back to since, and an
operation finds room in an `int` count. -/
def NamesCurrent (tracked : TrackedWork δ) : SavepointCall δ → Prop
  | .rollbackToSavepoint savepointName =>
      ∀ savepoint ∈ tracked.2.named savepointName, ¬ tracked.2.Undone savepoint.2
  | .createSavepoint _ => True
  | .releaseSavepoint _ => True
  | _ => tracked.2.remaining.length + 1 < 2 ^ 31

instance (tracked : TrackedWork δ) (call : SavepointCall δ) :
    Decidable (NamesCurrent tracked call) :=
  match call with
  | .rollbackToSavepoint savepointName =>
      inferInstanceAs (Decidable
        (∀ savepoint ∈ tracked.2.named savepointName, ¬ tracked.2.Undone savepoint.2))
  | .createSavepoint _ => inferInstanceAs (Decidable True)
  | .releaseSavepoint _ => inferInstanceAs (Decidable True)
  | .insertDocument _ _ _ _ => inferInstanceAs (Decidable (tracked.2.remaining.length + 1 < 2 ^ 31))
  | .updateDocument _ _ _ => inferInstanceAs (Decidable (tracked.2.remaining.length + 1 < 2 ^ 31))
  | .deleteDocument _ _ => inferInstanceAs (Decidable (tracked.2.remaining.length + 1 < 2 ^ 31))

/-! ## The invariant -/

/-- A savepoint not undone holds the operations performed up to it. -/
structure SavepointOf (history : WorkHistory δ) (savepoint : Savepoint δ)
    (created : Bytes × Nat) : Prop where
  name : savepoint.name = created.1
  time : created.2 ≤ history.clock
  operation : ¬ history.Undone created.2 → savepoint.operation = history.upTo created.2
  operationCount : ¬ history.Undone created.2 →
    savepoint.operationCount.toInt = savepoint.operation.length

/-- A transaction that agrees with its history. -/
structure Tracked (tracked : TrackedWork δ) : Prop where
  active : tracked.1.state = .active
  operations : tracked.1.operations = tracked.2.remaining
  operationCount : tracked.1.operationCount.toInt = tracked.1.operations.length
  savepoints : List.Forall₂ (SavepointOf tracked.2) tracked.1.savepoints tracked.2.savepoints
  performed : ∀ one ∈ tracked.2.performed, one.1 ≤ tracked.2.clock
  rollbacks : ∀ rollback ∈ tracked.2.rollbacks, rollback.2 ≤ tracked.2.clock

section History

variable {history : WorkHistory δ}

theorem upTo_congr {later : WorkHistory δ} {time laterTime : Nat}
    (performed : later.performed = history.performed)
    (agree : ∀ one ∈ history.performed,
      (one.1 ≤ laterTime ∧ ¬ later.Undone one.1) ↔ (one.1 ≤ time ∧ ¬ history.Undone one.1)) :
    later.upTo laterTime = history.upTo time := by
  unfold WorkHistory.upTo
  rw [performed]
  congr 1
  apply List.filter_congr
  intro one member
  exact decide_eq_decide.mpr (agree one member)

theorem undone_rollback {created at_ time : Nat} :
    ({ history with clock := at_, rollbacks := (created, at_) :: history.rollbacks } :
      WorkHistory δ).Undone time ↔ created < time ∧ time < at_ ∨ history.Undone time :=
  List.exists_mem_cons_iff _ _ _

theorem upTo_rollback {created time at_ : Nat} (early : time ≤ created) :
    ({ history with clock := at_, rollbacks := (created, at_) :: history.rollbacks } :
      WorkHistory δ).upTo time = history.upTo time := by
  apply upTo_congr (by rfl)
  intro one _
  rw [undone_rollback]
  constructor
  · rintro ⟨before, kept⟩
    exact ⟨before, fun undone => kept (Or.inr undone)⟩
  · rintro ⟨before, kept⟩
    refine ⟨before, ?_⟩
    rintro (⟨after, -⟩ | undone)
    · omega
    · exact kept undone

theorem remaining_rollback {created : Nat}
    (performed : ∀ one ∈ history.performed, one.1 ≤ history.clock) :
    ({ history with
        clock := history.clock + 1
        rollbacks := (created, history.clock + 1) :: history.rollbacks } :
      WorkHistory δ).remaining = history.upTo created := by
  apply upTo_congr (by rfl)
  intro one member
  have before : one.1 ≤ history.clock := performed one member
  rw [undone_rollback]
  constructor
  · rintro ⟨-, kept⟩
    refine ⟨?_, fun undone => kept (Or.inr undone)⟩
    by_contra after
    exact kept (Or.inl ⟨by omega, by omega⟩)
  · rintro ⟨early, kept⟩
    refine ⟨by simp only; omega, ?_⟩
    rintro (⟨after, -⟩ | undone)
    · omega
    · exact kept undone

theorem upTo_of_clock_le {time : Nat}
    (performed : ∀ one ∈ history.performed, one.1 ≤ history.clock) (late : history.clock ≤ time) :
    history.upTo time = history.remaining := by
  apply upTo_congr rfl
  intro one member
  have before : one.1 ≤ history.clock := performed one member
  have beforeLate : one.1 ≤ time := before.trans late
  simp only [before, beforeLate]

theorem not_undone_of_clock_lt {time : Nat}
    (rollbacks : ∀ rollback ∈ history.rollbacks, rollback.2 ≤ history.clock)
    (late : history.clock < time) : ¬ history.Undone time := by
  rintro ⟨rollback, member, -, before⟩
  have past := rollbacks rollback member
  omega

theorem upTo_perform {time later : Nat} (operation : TransactionOperation δ) :
    ({ history with clock := later, performed := (later, operation) :: history.performed } :
      WorkHistory δ).upTo time =
      if later ≤ time ∧ ¬ history.Undone later then operation :: history.upTo time
      else history.upTo time := by
  simp only [WorkHistory.upTo, List.filter_cons, decide_eq_true_eq]
  split
  · rename_i kept
    exact (if_pos kept).symm
  · rename_i dropped
    exact (if_neg dropped).symm

theorem remaining_perform
    (performed : ∀ one ∈ history.performed, one.1 ≤ history.clock)
    (rollbacks : ∀ rollback ∈ history.rollbacks, rollback.2 ≤ history.clock)
    (operation : TransactionOperation δ) :
    ({ history with
        clock := history.clock + 1
        performed := (history.clock + 1, operation) :: history.performed } :
      WorkHistory δ).remaining = operation :: history.remaining := by
  have fresh : ¬ history.Undone (history.clock + 1) :=
    not_undone_of_clock_lt rollbacks (Nat.lt_succ_self history.clock)
  rw [WorkHistory.remaining, upTo_perform, if_pos ⟨le_refl _, fresh⟩,
    upTo_of_clock_le performed (Nat.le_succ history.clock)]

end History

section Related

variable {α β : Type} {related : α → β → Prop} {p : α → Bool} {q : β → Bool}

theorem find?_related {left : List α} {right : List β} (lists : List.Forall₂ related left right)
    (agree : ∀ a b, related a b → p a = q b) :
    Option.Rel related (left.find? p) (right.find? q) := by
  induction lists with
  | nil => exact .none
  | cons head _ ih =>
      rename_i a b _ _ _
      have same : p a = q b := agree a b head
      cases found : q b with
      | true => simpa [List.find?_cons, same, found] using Option.Rel.some head
      | false => simpa [List.find?_cons, same, found] using ih

theorem eraseP_related {left : List α} {right : List β} (lists : List.Forall₂ related left right)
    (agree : ∀ a b, related a b → p a = q b) :
    List.Forall₂ related (left.eraseP p) (right.eraseP q) := by
  induction lists with
  | nil => exact .nil
  | cons head tail ih =>
      rename_i a b _ _
      have same : p a = q b := agree a b head
      cases found : q b with
      | true => simpa [List.eraseP_cons, same, found] using tail
      | false => simpa [List.eraseP_cons, same, found] using ⟨head, ih⟩

end Related

/-! ## One call -/

section Call

variable {transaction : TransactionWork δ} {history : WorkHistory δ} {call : SavepointCall δ}

theorem SavepointOf.of_upTo {later : WorkHistory δ} {savepoint : Savepoint δ}
    {created : Bytes × Nat} (held : SavepointOf history savepoint created)
    (clock : history.clock ≤ later.clock)
    (undone : ¬ later.Undone created.2 → ¬ history.Undone created.2)
    (upTo : ¬ later.Undone created.2 → later.upTo created.2 = history.upTo created.2) :
    SavepointOf later savepoint created where
  name := held.name
  time := held.time.trans clock
  operation kept := (held.operation (undone kept)).trans (upTo kept).symm
  operationCount kept := held.operationCount (undone kept)

theorem named_cases (tracked : Tracked (transaction, history)) (savepointName : Bytes) :
    (transaction.savepoints.find? (fun savepoint => savepoint.name == savepointName) = none ∧
        history.named savepointName = none) ∨
      ∃ savepoint created,
        transaction.savepoints.find? (fun savepoint => savepoint.name == savepointName) =
            some savepoint ∧
          history.named savepointName = some created ∧ SavepointOf history savepoint created := by
  have found : Option.Rel (SavepointOf history)
      (transaction.savepoints.find? fun savepoint => savepoint.name == savepointName)
      (history.named savepointName) := by
    apply find?_related tracked.savepoints
    intro savepoint created held
    rw [held.name]
  generalize transaction.savepoints.find? (fun savepoint => savepoint.name == savepointName) = left
    at found
  generalize history.named savepointName = right at found
  cases found with
  | none => exact Or.inl ⟨rfl, rfl⟩
  | some held => exact Or.inr ⟨_, _, rfl, rfl, held⟩

theorem call_of_operation (history : WorkHistory δ) (call : SavepointCall δ)
    (active : transaction.state = .active) {operation : TransactionOperation δ}
    (performs : call.operation? = some operation) :
    transaction.call call = (0, transaction.addOperation operation) ∧
      history.after call =
        { history with
          clock := history.clock + 1
          performed := (history.clock + 1, operation) :: history.performed } := by
  cases call with
  | insertDocument collection document now random =>
      cases performs
      simp [TransactionWork.call, TransactionWork.insertDocument, active, WorkHistory.after,
        SavepointCall.operation?]
  | updateDocument collection id document =>
      cases performs
      simp [TransactionWork.call, TransactionWork.updateDocument, active, WorkHistory.after,
        SavepointCall.operation?]
  | deleteDocument collection id =>
      cases performs
      simp [TransactionWork.call, TransactionWork.deleteDocument, active, WorkHistory.after,
        SavepointCall.operation?]
  | createSavepoint | rollbackToSavepoint | releaseSavepoint => cases performs

theorem toInt_add_one {count : Int32} {length : Nat} (counted : count.toInt = length) :
    (count + 1).toInt = (length + 1 : Nat) ↔ length + 1 < 2 ^ 31 := by
  have small := Int32.toInt_lt count
  rw [Int32.toInt_add, counted, show (1 : Int32).toInt = 1 by decide, Int.bmod_def]
  omega

theorem Tracked.perform (tracked : Tracked (transaction, history))
    (operation : TransactionOperation δ) (room : history.remaining.length + 1 < 2 ^ 31) :
    Tracked (transaction.addOperation operation,
      { history with
        clock := history.clock + 1
        performed := (history.clock + 1, operation) :: history.performed }) where
  active := tracked.active
  operations := by
    rw [remaining_perform tracked.performed tracked.rollbacks, ← tracked.operations]
    rfl
  operationCount := by
    have counted : transaction.operationCount.toInt = history.remaining.length := by
      rw [tracked.operationCount, tracked.operations]
    have next := (toInt_add_one counted).mpr room
    rw [show history.remaining.length = transaction.operations.length by
      rw [← tracked.operations]] at next
    exact next
  savepoints := by
    apply tracked.savepoints.imp
    intro savepoint created held
    refine held.of_upTo (Nat.le_succ _) (fun kept => kept) fun _ => ?_
    have past : ¬ history.clock + 1 ≤ created.2 := Nat.not_le.mpr (Nat.lt_succ_of_le held.time)
    rw [upTo_perform, if_neg fun both => past both.1]
  performed := by
    intro one member
    rcases List.mem_cons.mp member with rfl | earlier
    · exact le_refl _
    · exact (tracked.performed one earlier).trans (Nat.le_succ _)
  rollbacks := fun rollback member => (tracked.rollbacks rollback member).trans (Nat.le_succ _)

theorem Tracked.savepointCall (tracked : Tracked (transaction, history))
    {savepoints : List (Savepoint δ)} {named : List (Bytes × Nat)}
    (related : List.Forall₂
      (SavepointOf { history with clock := history.clock + 1, savepoints := named })
      savepoints named) :
    Tracked ({ transaction with savepoints },
      { history with clock := history.clock + 1, savepoints := named }) where
  active := tracked.active
  operations := by
    rw [show transaction.operations = history.remaining from tracked.operations]
    exact (upTo_of_clock_le tracked.performed (Nat.le_succ history.clock)).symm
  operationCount := tracked.operationCount
  savepoints := related
  performed := fun one member => (tracked.performed one member).trans (Nat.le_succ _)
  rollbacks := fun rollback member => (tracked.rollbacks rollback member).trans (Nat.le_succ _)

theorem savepoints_later (tracked : Tracked (transaction, history)) (named : List (Bytes × Nat)) :
    List.Forall₂ (SavepointOf { history with clock := history.clock + 1, savepoints := named })
      transaction.savepoints history.savepoints := by
  apply tracked.savepoints.imp
  intro savepoint created held
  exact held.of_upTo (Nat.le_succ _) (fun kept => kept) fun _ => rfl

theorem Tracked.rollback (tracked : Tracked (transaction, history)) {savepoint : Savepoint δ}
    {created : Bytes × Nat} (held : SavepointOf history savepoint created)
    (current : ¬ history.Undone created.2) :
    Tracked ({ transaction with
        operations := savepoint.operation
        operationCount := savepoint.operationCount },
      { history with
        clock := history.clock + 1
        rollbacks := (created.2, history.clock + 1) :: history.rollbacks }) where
  active := tracked.active
  operations := (held.operation current).trans (remaining_rollback tracked.performed).symm
  operationCount := held.operationCount current
  savepoints := by
    apply tracked.savepoints.imp
    intro other otherCreated otherHeld
    refine otherHeld.of_upTo (Nat.le_succ _)
      (fun kept undone => kept (undone_rollback.mpr (Or.inr undone))) fun kept => ?_
    -- A savepoint that is kept is no newer than the one rolled back to.
    apply upTo_rollback
    by_contra newer
    have past : otherCreated.2 < history.clock + 1 := Nat.lt_succ_of_le otherHeld.time
    exact kept (undone_rollback.mpr (Or.inl ⟨Nat.lt_of_not_le newer, past⟩))
  performed := fun one member => (tracked.performed one member).trans (Nat.le_succ _)
  rollbacks := by
    intro rollback member
    rcases List.mem_cons.mp member with rfl | earlier
    · exact le_refl _
    · exact (tracked.rollbacks rollback earlier).trans (Nat.le_succ _)

theorem Tracked.nextCall (tracked : Tracked (transaction, history))
    (current : NamesCurrent (transaction, history) call) :
    Tracked ((transaction.call call).2, history.after call) := by
  have active : transaction.state = .active := tracked.active
  have idle : Tracked (transaction, { history with clock := history.clock + 1 }) :=
    tracked.savepointCall (savepoints_later tracked history.savepoints)
  cases call with
  | insertDocument collection document now random =>
      obtain ⟨called, after⟩ :=
        call_of_operation history (.insertDocument collection document now random) active rfl
      rw [called, after]
      exact tracked.perform _ current
  | updateDocument collection id document =>
      obtain ⟨called, after⟩ :=
        call_of_operation history (.updateDocument collection id document) active rfl
      rw [called, after]
      exact tracked.perform _ current
  | deleteDocument collection id =>
      obtain ⟨called, after⟩ :=
        call_of_operation history (.deleteDocument collection id) active rfl
      rw [called, after]
      exact tracked.perform _ current
  | createSavepoint savepointName =>
      simp only [TransactionWork.call, TransactionWork.createSavepoint, active, ne_eq,
        not_true_eq_false, if_false, WorkHistory.after]
      apply tracked.savepointCall
      refine .cons ⟨rfl, le_refl _, fun _ => ?_, fun _ => tracked.operationCount⟩
        (savepoints_later tracked _)
      exact Eq.trans tracked.operations
        (upTo_of_clock_le tracked.performed (Nat.le_succ history.clock)).symm
  | rollbackToSavepoint savepointName =>
      simp only [TransactionWork.call, TransactionWork.rollbackToSavepoint, active, ne_eq,
        not_true_eq_false, if_false, WorkHistory.after]
      rcases named_cases tracked savepointName with
        ⟨found, unnamed⟩ | ⟨savepoint, created, found, named, held⟩
      · have unnamed : ({ history with clock := history.clock + 1 } : WorkHistory δ).named
            savepointName = none := unnamed
        rw [found, unnamed]
        exact idle
      · have kept : ¬ history.Undone created.2 := current created named
        have named : ({ history with clock := history.clock + 1 } : WorkHistory δ).named
            savepointName = some created := named
        rw [found, named]
        exact tracked.rollback held kept
  | releaseSavepoint savepointName =>
      simp only [TransactionWork.call, TransactionWork.releaseSavepoint, active, ne_eq,
        not_true_eq_false, if_false, WorkHistory.after]
      have released := eraseP_related (savepoints_later tracked
        (history.savepoints.eraseP fun savepoint => savepoint.1 == savepointName))
        (p := fun savepoint => savepoint.name == savepointName)
        (q := fun savepoint => savepoint.1 == savepointName)
        (fun savepoint created held => by rw [held.name])
      rcases named_cases tracked savepointName with
        ⟨found, unnamed⟩ | ⟨savepoint, created, found, named, held⟩
      · have absent : history.savepoints.eraseP (fun savepoint => savepoint.1 == savepointName) =
            history.savepoints := by
          apply List.eraseP_of_forall_not
          intro created member
          exact List.find?_eq_none.mp unnamed created member
        rw [found, absent]
        exact idle
      · rw [found]
        exact tracked.savepointCall released

theorem tracksHistory_of_namesCurrent (tracked : Tracked (transaction, history))
    (current : NamesCurrent (transaction, history) call) :
    TracksHistory (transaction, history) call := by
  have next := tracked.nextCall current
  refine ⟨next.operations, next.operationCount, ?_⟩
  rintro savepointName rfl succeeded
  have active : transaction.state = .active := tracked.active
  rcases named_cases tracked savepointName with
    ⟨found, -⟩ | ⟨savepoint, created, found, named, held⟩
  · simp [TransactionWork.call, TransactionWork.rollbackToSavepoint, active, found] at succeeded
  · have kept : ¬ history.Undone created.2 := current created named
    refine ⟨created, named, kept, ?_⟩
    simp only [TransactionWork.call, TransactionWork.rollbackToSavepoint, active, ne_eq,
      not_true_eq_false, if_false, found]
    exact held.operation kept

theorem namesCurrent_of_tracksHistory (tracked : Tracked (transaction, history))
    (tracks : TracksHistory (transaction, history) call) :
    NamesCurrent (transaction, history) call := by
  have active : transaction.state = .active := tracked.active
  have room {operation : TransactionOperation δ} (performs : call.operation? = some operation) :
      history.remaining.length + 1 < 2 ^ 31 := by
    have counted := tracks.operationCount
    have before : transaction.operationCount.toInt = history.remaining.length := by
      rw [← tracked.operations]
      exact tracked.operationCount
    rw [(call_of_operation history call active performs).1] at counted
    apply (toInt_add_one before).mp
    rw [← tracked.operations]
    exact counted
  cases call with
  | insertDocument | updateDocument | deleteDocument => exact room rfl
  | createSavepoint | releaseSavepoint => trivial
  | rollbackToSavepoint savepointName =>
      intro created named
      rcases named_cases tracked savepointName with
        ⟨-, unnamed⟩ | ⟨savepoint, foundCreated, found, foundNamed, -⟩
      · rw [show history.named savepointName = some created from named] at unnamed
        cases unnamed
      · have succeeded : (transaction.call (.rollbackToSavepoint savepointName)).1 = 0 := by
          simp [TransactionWork.call, TransactionWork.rollbackToSavepoint, active, found]
        obtain ⟨other, otherNamed, kept, -⟩ := tracks.rollback savepointName rfl succeeded
        have same : other = created := Option.some.inj (otherNamed.symm.trans named)
        rwa [same] at kept

end Call

theorem tracked_begunWork (transaction : Transaction) :
    Tracked (begunWork transaction : TrackedWork δ) where
  active := rfl
  operations := rfl
  operationCount := rfl
  savepoints := .nil
  performed := fun _ member => nomatch member
  rollbacks := fun _ member => nomatch member

theorem keeps_tracked : Keeps callStep NamesCurrent (Tracked : TrackedWork δ → Prop) := by
  rintro ⟨transaction, history⟩ call next tracked current taken
  cases taken
  exact tracked.nextCall current

/-- Every call of a run leaves the operations performed and not undone just
where no rollback names a savepoint that an earlier one left behind. -/
theorem savepoints_trackHistory (transaction : Transaction) (calls : List (SavepointCall δ)) :
    EveryStep callStep TracksHistory (begunWork transaction) calls ↔
      EveryStep callStep NamesCurrent (begunWork transaction) calls := by
  apply EveryStep.iff_of_keeps keeps_tracked ?_ (tracked_begunWork transaction)
  exact fun _ _ holds => ⟨namesCurrent_of_tracksHistory holds, tracksHistory_of_namesCurrent holds⟩

def savepointSample : Transaction where
  id := ascii "tx_1_000000"
  state := .active
  startTime := 1
  commitTime := 0
  userId := ascii "u"
  isolationLevel := .readCommitted

def innerAfterOuter : List (SavepointCall Rat) :=
  [.createSavepoint (ascii "outer"), .deleteDocument (ascii "c") (ascii "1"),
    .createSavepoint (ascii "inner"), .rollbackToSavepoint (ascii "outer"),
    .rollbackToSavepoint (ascii "inner")]

/-- The last rollback brings the undone delete back. -/
theorem not_tracksHistory_innerAfterOuter :
    ¬ EveryStep callStep TracksHistory (begunWork savepointSample) innerAfterOuter := by
  intro everyStep
  have last := (everyStep.2 _ rfl).2 _ rfl
  have tracks : TracksHistory _ _ := ((last.2 _ rfl).2 _ rfl).1
  have lengths := congrArg List.length tracks.operations
  revert lengths
  decide

end Jdbx
