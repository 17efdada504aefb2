import Jdbx.Library.GuardedRun
import Jdbx.Transaction.TransactionLog

/-!
# Recovering the transactions of a run

A manager with a log attached begins, commits and rolls back transactions.  A
transaction is logged once, when it ends, and the reader takes this one record
for a start.  So recovery finds the committed transactions just in the runs
that commit none.
-/

namespace Jdbx

open Library

/-- The array of a transaction manager, in which a transaction stays when it has
ended, and the lines of the log attached to it. -/
structure TransactionManager where
  activeTransactions : List Transaction
  log : List Bytes
  deriving DecidableEq, Repr

/-- `transaction_begin`.  An isolation level out of range is `none`. -/
def transactionBegin (manager : TransactionManager) (isolationLevel : Option IsolationLevel)
    (userId : Bytes) (idTime : Int64) (random : Nat) (startTime : Int64) : TransactionManager :=
  let transaction : Transaction :=
    { id := generateTransactionId idTime random
      state := .active
      startTime
      commitTime := 0
      userId := cString userId
      isolationLevel := isolationLevel.getD .readCommitted }
  { manager with activeTransactions := manager.activeTransactions ++ [transaction] }

section End

variable (δ : Type) [CDouble δ]

/-- What `transaction_commit` and `transaction_rollback` share: `state` is the
state in which a transaction ends that has not ended yet. -/
def endTransaction (state : TransactionState) (manager : TransactionManager) (index : Nat)
    (transaction : Transaction) (commitTime logTime : Int64) : Int32 × TransactionManager :=
  if transaction.state = .committed then (-2, manager)
  else if transaction.state = .aborted then (-3, manager)
  else
    let ended := { transaction with state, commitTime }
    (0,
      { activeTransactions := manager.activeTransactions.set index ended
        log := manager.log ++ [stateChangeLine δ logTime ended] })

/-- `transaction_commit` of the transaction at `index`. -/
def transactionCommit (manager : TransactionManager) (index : Nat) (transaction : Transaction)
    (commitTime logTime : Int64) : Int32 × TransactionManager :=
  endTransaction δ .committed manager index transaction commitTime logTime

/-- `transaction_rollback` of the transaction at `index`. -/
def transactionRollback (manager : TransactionManager) (index : Nat) (transaction : Transaction)
    (commitTime logTime : Int64) : Int32 × TransactionManager :=
  endTransaction δ .aborted manager index transaction commitTime logTime

end End

/-- A call, with the times and the random number that it reads.  `index` tells
the transaction it is given. -/
inductive TransactionCall where
  | begin (isolationLevel : Option IsolationLevel) (userId : Bytes) (idTime : Int64)
      (random : Nat) (startTime : Int64)
  | commit (index : Nat) (commitTime logTime : Int64)
  | rollback (index : Nat) (commitTime logTime : Int64)
  deriving DecidableEq, Repr

/-- A manager and the ids of the transactions whose commit returned 0. -/
structure LoggedRun where
  manager : TransactionManager
  committed : List Bytes
  deriving DecidableEq, Repr

def LoggedRun.start (created : Int64) : LoggedRun where
  manager := { activeTransactions := [], log := logHeader created }
  committed := []

section Runs

variable (δ : Type) [CDouble δ]

/-- One call.  There is no step for a transaction that was never begun. -/
def transactionStep (run : LoggedRun) : TransactionCall → Option LoggedRun
  | .begin isolationLevel userId idTime random startTime =>
      some
        { run with
          manager :=
            transactionBegin run.manager isolationLevel userId idTime random startTime }
  | .commit index commitTime logTime =>
      run.manager.activeTransactions[index]?.map fun transaction =>
        let (result, manager) :=
          transactionCommit δ run.manager index transaction commitTime logTime
        { manager
          committed := if result = 0 then run.committed ++ [transaction.id] else run.committed }
  | .rollback index commitTime logTime =>
      run.manager.activeTransactions[index]?.map fun transaction =>
        { run with
          manager :=
            (transactionRollback δ run.manager index transaction commitTime logTime).2 }

/-- Reading the log classifies as committed the transactions whose commit
returned 0, and counts them. -/
structure RecoversCommitted (run : LoggedRun) : Prop where
  classified : ∀ id,
    (∃ transaction ∈ recoveredTransactions δ run.manager.log.flatten,
      transaction.id = id ∧ transaction.state = .committed) ↔ id ∈ run.committed
  counted : transactionLogReadOperations δ run.manager.log.flatten = run.committed.length

end Runs

def CommitsNothing (run : LoggedRun) : TransactionCall → Prop
  | .commit index _ _ =>
      ∀ transaction ∈ run.manager.activeTransactions[index]?,
        transaction.state = .committed ∨ transaction.state = .aborted
  | _ => True

/-! ## What the calls write -/

theorem mem_decimal_plain {byte : UInt8} (plain : isdigit byte = false) (n : Nat) :
    byte ∉ decimal n := by
  intro member
  rw [decimal_isdigit n byte member] at plain
  cases plain

theorem generateTransactionId_token (now : Int64) (random : Nat) :
    generateTransactionId now random ≠ [] ∧
      ∀ byte ∈ ([124, 10, 0] : Bytes), byte ∉ generateTransactionId now random := by
  constructor
  · simp [generateTransactionId, show ascii "tx_" = [116, 120, 95] by decide]
  · intro byte special member
    have inside := List.mem_of_mem_take member
    have facts : ∀ byte ∈ ([124, 10, 0] : Bytes), byte ∉ ascii "tx_" ∧ byte ≠ 45 ∧ byte ≠ 95 ∧
        byte ≠ 48 ∧ isdigit byte = false :=
      List.all_iff_forall_prop.mp (by decide)
    obtain ⟨noWord, noMinus, noUnderscore, noZero, noDigit⟩ := facts byte special
    simp [noWord, noUnderscore, noZero, not_mem_formatInt64 noMinus noDigit,
      mem_decimal_plain noDigit] at inside

/-- A record of the log: when it was written, and of which transaction. -/
structure LogRecord where
  time : Int64
  index : Nat
  transaction : Transaction

section Lawful

variable (δ : Type) [CDouble δ]

/-- The log holds one record of each transaction that has ended, as it is now. -/
structure Recorded (created : Int64) (manager : TransactionManager) (records : List LogRecord) :
    Prop where
  lines : manager.log =
    logHeader created ++ records.map fun record => stateChangeLine δ record.time record.transaction
  current : ∀ record ∈ records,
    manager.activeTransactions[record.index]? = some record.transaction
  ended : ∀ record ∈ records,
    record.transaction.state = .committed ∨ record.transaction.state = .aborted
  once : (records.map LogRecord.index).Nodup

/-- What every call keeps. -/
structure TransactionManager.Lawful (created : Int64) (manager : TransactionManager) : Prop where
  loggable : ∀ transaction ∈ manager.activeTransactions, transaction.Loggable
  recorded : ∃ records, Recorded δ created manager records

end Lawful

section Steps

variable {δ : Type} [CDouble δ] {created : Int64} {manager : TransactionManager}
  {records : List LogRecord}

theorem Recorded.begins (recorded : Recorded δ created manager records)
    (transaction : Transaction) :
    Recorded δ created
      { manager with activeTransactions := manager.activeTransactions ++ [transaction] }
      records := by
  refine ⟨recorded.lines, ?_, recorded.ended, recorded.once⟩
  intro record member
  have held := recorded.current record member
  rw [List.getElem?_append_left (List.getElem?_eq_some_iff.mp held).1, held]

theorem Recorded.ends {state : TransactionState} (ends : state = .committed ∨ state = .aborted)
    (recorded : Recorded δ created manager records) {index : Nat} {transaction : Transaction}
    (given : manager.activeTransactions[index]? = some transaction)
    (committed : transaction.state ≠ .committed) (aborted : transaction.state ≠ .aborted)
    (commitTime logTime : Int64) :
    Recorded δ created
      { activeTransactions :=
          manager.activeTransactions.set index { transaction with state, commitTime }
        log := manager.log ++ [stateChangeLine δ logTime { transaction with state, commitTime }] }
      (records ++ [⟨logTime, index, { transaction with state, commitTime }⟩]) := by
  have below := (List.getElem?_eq_some_iff.mp given).1
  have fresh : ∀ record ∈ records, record.index ≠ index := by
    intro record member same
    have current := recorded.current record member
    rw [same, given, Option.some.injEq] at current
    rcases recorded.ended record member with hasCommitted | hasAborted
    · exact committed (current ▸ hasCommitted)
    · exact aborted (current ▸ hasAborted)
  refine ⟨?_, ?_, ?_, ?_⟩
  · simp [recorded.lines]
  · intro record member
    rcases List.mem_append.mp member with old | new
    · rw [List.getElem?_set_ne (fresh record old).symm]
      exact recorded.current record old
    · obtain rfl := List.mem_singleton.mp new
      rw [List.getElem?_set_self below]
  · intro record member
    rcases List.mem_append.mp member with old | new
    · exact recorded.ended record old
    · obtain rfl := List.mem_singleton.mp new
      exact ends
  · rw [List.map_append, List.nodup_append]
    refine ⟨recorded.once, List.nodup_singleton _, ?_⟩
    intro number member other otherMember
    obtain ⟨record, recordMember, rfl⟩ := List.mem_map.mp member
    obtain rfl := List.mem_singleton.mp otherMember
    exact fresh record recordMember

theorem transactionBegin_lawful (lawful : manager.Lawful δ created)
    (isolationLevel : Option IsolationLevel) (userId : Bytes) (idTime : Int64) (random : Nat)
    (startTime : Int64) :
    (transactionBegin manager isolationLevel userId idTime random startTime).Lawful δ created := by
  obtain ⟨records, recorded⟩ := lawful.recorded
  refine ⟨?_, records, recorded.begins _⟩
  intro transaction member
  rcases List.mem_append.mp member with old | new
  · exact lawful.loggable transaction old
  · obtain rfl := List.mem_singleton.mp new
    have token := generateTransactionId_token idTime random
    refine ⟨token.1, token.2, ?_⟩
    intro nul
    simpa using List.mem_takeWhile_imp nul

theorem endTransaction_lawful {state : TransactionState}
    (ends : state = .committed ∨ state = .aborted) (lawful : manager.Lawful δ created)
    {index : Nat} {transaction : Transaction}
    (given : manager.activeTransactions[index]? = some transaction) (commitTime logTime : Int64) :
    (endTransaction δ state manager index transaction commitTime logTime).2.Lawful δ created := by
  rw [endTransaction]
  split_ifs with committed aborted
  · exact lawful
  · exact lawful
  · obtain ⟨records, recorded⟩ := lawful.recorded
    refine ⟨?_, _, recorded.ends ends given committed aborted commitTime logTime⟩
    intro tested member
    rcases List.mem_or_eq_of_mem_set member with old | new
    · exact lawful.loggable tested old
    · have loggable := lawful.loggable transaction (List.mem_of_getElem? given)
      exact new ▸ ⟨loggable.idNonempty, loggable.idToken, loggable.userId⟩

theorem transactionStep_lawful {run next : LoggedRun} {call : TransactionCall}
    (lawful : run.manager.Lawful δ created) (taken : next ∈ transactionStep δ run call) :
    next.manager.Lawful δ created := by
  cases call with
  | begin isolationLevel userId idTime random startTime =>
      cases taken
      exact transactionBegin_lawful lawful isolationLevel userId idTime random startTime
  | commit index commitTime logTime =>
      obtain ⟨transaction, given, rfl⟩ := Option.map_eq_some_iff.mp taken
      exact endTransaction_lawful (Or.inl rfl) lawful given commitTime logTime
  | rollback index commitTime logTime =>
      obtain ⟨transaction, given, rfl⟩ := Option.map_eq_some_iff.mp taken
      exact endTransaction_lawful (Or.inr rfl) lawful given commitTime logTime

theorem start_lawful (created : Int64) : (LoggedRun.start created).manager.Lawful δ created :=
  ⟨by simp [LoggedRun.start], [], by simp [LoggedRun.start], by simp, by simp, List.nodup_nil⟩

theorem transactionStep_committed_iff {run next : LoggedRun} {call : TransactionCall}
    (taken : next ∈ transactionStep δ run call) :
    next.committed = [] ↔ run.committed = [] ∧ CommitsNothing run call := by
  cases call with
  | begin isolationLevel userId idTime random startTime =>
      cases taken
      simp [CommitsNothing]
  | commit index commitTime logTime =>
      obtain ⟨transaction, given, rfl⟩ := Option.map_eq_some_iff.mp taken
      simp only [CommitsNothing, given, Option.mem_some, transactionCommit, endTransaction]
      split_ifs <;> simp_all
  | rollback index commitTime logTime =>
      obtain ⟨transaction, given, rfl⟩ := Option.map_eq_some_iff.mp taken
      simp [CommitsNothing]

/-- The log of a run has a record of each transaction that has ended, and the committed ones
are those whose commit returned 0, in this order. -/
structure LogsEnds (δ : Type) [CDouble δ] (created : Int64) (run : LoggedRun)
    (records : List LogRecord) : Prop extends Recorded δ created run.manager records where
  every : ∀ index transaction, run.manager.activeTransactions[index]? = some transaction →
    transaction.state = .active ∨ ∃ record ∈ records, record.index = index
  commits : (records.filter (·.transaction.state = .committed)).map (·.transaction.id) =
    run.committed

section Log

variable {run next : LoggedRun}

theorem LogsEnds.begins (logs : LogsEnds δ created run records) {transaction : Transaction}
    (active : transaction.state = .active) :
    LogsEnds δ created
      { run with
        manager :=
          { run.manager with
            activeTransactions := run.manager.activeTransactions ++ [transaction] } }
      records := by
  refine ⟨logs.toRecorded.begins transaction, fun index tested given => ?_, logs.commits⟩
  by_cases old : index < run.manager.activeTransactions.length
  · rw [List.getElem?_append_left old] at given
    exact logs.every index tested given
  · rw [List.getElem?_append_right (Nat.le_of_not_lt old)] at given
    rw [List.mem_singleton.mp (List.mem_of_getElem? given)]
    exact Or.inl active

theorem LogsEnds.ends (logs : LogsEnds δ created run records) {state : TransactionState}
    (ends : state = .committed ∨ state = .aborted) {index : Nat} {transaction : Transaction}
    (given : run.manager.activeTransactions[index]? = some transaction)
    (committed : transaction.state ≠ .committed) (aborted : transaction.state ≠ .aborted)
    (commitTime logTime : Int64) :
    LogsEnds δ created
      { manager :=
          { activeTransactions :=
              run.manager.activeTransactions.set index { transaction with state, commitTime }
            log := run.manager.log ++
              [stateChangeLine δ logTime { transaction with state, commitTime }] }
        committed :=
          if state = .committed then run.committed ++ [transaction.id] else run.committed }
      (records ++ [⟨logTime, index, { transaction with state, commitTime }⟩]) := by
  refine ⟨logs.toRecorded.ends ends given committed aborted commitTime logTime, ?_, ?_⟩
  · intro other tested held
    by_cases same : index = other
    · exact Or.inr ⟨_, List.mem_append_right _ (List.mem_singleton_self _), same⟩
    · rw [List.getElem?_set_ne same] at held
      refine (logs.every other tested held).imp_right fun recorded => ?_
      obtain ⟨record, member, about⟩ := recorded
      exact ⟨record, List.mem_append_left _ member, about⟩
  · rw [List.filter_append, List.map_append, logs.commits]
    by_cases isCommitted : state = .committed <;> simp [isCommitted]

theorem logsEnds_step {call : TransactionCall} (logs : LogsEnds δ created run records)
    (taken : next ∈ transactionStep δ run call) :
    ∃ added, LogsEnds δ created next (records ++ added) := by
  have same : LogsEnds δ created run (records ++ []) := (List.append_nil records).symm ▸ logs
  cases call with
  | begin isolationLevel userId idTime random startTime =>
      cases taken
      exact ⟨[], same.begins rfl⟩
  | commit index commitTime logTime =>
      obtain ⟨transaction, given, rfl⟩ := Option.map_eq_some_iff.mp taken
      rw [transactionCommit, endTransaction]
      split_ifs with committed aborted
      · exact ⟨[], same⟩
      · exact ⟨[], same⟩
      · exact ⟨_, logs.ends (Or.inl rfl) given committed aborted commitTime logTime⟩
  | rollback index commitTime logTime =>
      obtain ⟨transaction, given, rfl⟩ := Option.map_eq_some_iff.mp taken
      rw [transactionRollback, endTransaction]
      split_ifs with committed aborted
      · exact ⟨[], same⟩
      · exact ⟨[], same⟩
      · exact ⟨_, logs.ends (Or.inr rfl) given committed aborted commitTime logTime⟩

theorem logsEnds_start (created : Int64) : LogsEnds δ created (LoggedRun.start created) [] where
  toRecorded := ⟨by simp [LoggedRun.start], by simp, by simp, List.nodup_nil⟩
  every := by simp [LoggedRun.start]
  commits := rfl

theorem logsEnds_runFrom {calls : List TransactionCall} (logs : LogsEnds δ created run records)
    (reached : runFrom (transactionStep δ) run calls = some next) :
    ∃ added, LogsEnds δ created next (records ++ added) := by
  have keeps : ∀ run call next, (∃ added, LogsEnds δ created run (records ++ added)) →
      next ∈ transactionStep δ run call → ∃ added, LogsEnds δ created next (records ++ added) := by
    intro run call next earlier taken
    obtain ⟨added, held⟩ := earlier
    obtain ⟨more, grown⟩ := logsEnds_step held taken
    exact ⟨added ++ more, List.append_assoc records added more ▸ grown⟩
  exact invariant_reached keeps ⟨[], (List.append_nil records).symm ▸ logs⟩ reached

end Log

end Steps

section Reading

variable {δ : Type} [CDouble δ]

theorem createRecoveryTransaction_active {entry : LogEntry} {transaction : RecoveredTransaction}
    (created : createRecoveryTransaction δ entry = some transaction) :
    transaction.id = entry.transactionId ∧ transaction.state = .active := by
  unfold createRecoveryTransaction at created
  split at created
  · split at created
    · cases created
      exact ⟨rfl, rfl⟩
    · cases created
  · cases created

def lineTransaction (line : Bytes) : Option Bytes :=
  (parseLogLine (cString line)).map LogEntry.transactionId

theorem readLogLine_cases {transactions : List RecoveredTransaction} {line : Bytes}
    (unknown : ∀ id ∈ lineTransaction line, id ∉ transactions.map RecoveredTransaction.id) :
    readLogLine δ transactions line = transactions ∨
      ∃ transaction, transaction.state = .active ∧
        lineTransaction line = some transaction.id ∧
          readLogLine δ transactions line = transactions ++ [transaction] := by
  unfold readLogLine
  cases parsed : parseLogLine (cString line) with
  | none => exact Or.inl rfl
  | some entry =>
      have about : lineTransaction line = some entry.transactionId := by
        rw [lineTransaction, parsed, Option.map_some]
      have absent : (transactions.any fun transaction =>
          transaction.id == entry.transactionId) = false := by
        simpa using unknown entry.transactionId about
      simp only [absent, Bool.false_eq_true, if_false]
      by_cases state : entry.type = ascii "STATE"
      · rw [if_pos state]
        cases made : createRecoveryTransaction δ entry with
        | none => exact Or.inl rfl
        | some transaction =>
            have active := createRecoveryTransaction_active made
            by_cases room : transactions.length < maxRecoveryTransactions
            · refine Or.inr ⟨transaction, active.2, by rw [about, active.1], ?_⟩
              simp only [room, if_true]
            · refine Or.inl ?_
              simp only [room, if_false]
      · rw [if_neg state]
        exact Or.inl rfl

theorem foldl_readLogLine_active :
    ∀ {lines : List Bytes} {transactions : List RecoveredTransaction},
      (transactions.map RecoveredTransaction.id ++ lines.filterMap lineTransaction).Nodup →
        (∀ transaction ∈ transactions, transaction.state = .active) →
          ∀ transaction ∈ lines.foldl (readLogLine δ) transactions,
            transaction.state = .active := by
  intro lines
  induction lines with
  | nil =>
      intro transactions _ active
      exact active
  | cons line lines ih =>
      intro transactions distinct active
      have unknown : ∀ id ∈ lineTransaction line,
          id ∉ transactions.map RecoveredTransaction.id := by
        intro id about member
        have apart := (List.nodup_append.mp distinct).2.2 id member id
        rw [List.filterMap_cons, Option.mem_def.mp about] at apart
        exact apart List.mem_cons_self rfl
      rw [List.foldl_cons]
      rcases readLogLine_cases (δ := δ) unknown with same | ⟨transaction, isActive, about, added⟩
      · rw [same]
        apply ih _ active
        have fewer := (List.sublist_cons_self line lines).filterMap lineTransaction
        exact List.Nodup.sublist (fewer.append_left _) distinct
      · rw [added]
        apply ih
        · rw [List.map_append, List.append_assoc]
          rwa [List.filterMap_cons, about] at distinct
        · intro tested member
          rcases List.mem_append.mp member with old | new
          · exact active tested old
          · exact List.mem_singleton.mp new ▸ isActive

theorem logHeader_lines (created : Int64) :
    ∀ line ∈ logHeader created,
      (∃ text, line = text ++ [10] ∧ 10 ∉ text) ∧ lineTransaction line = none := by
  have comment : ∀ rest : Bytes, lineTransaction (35 :: rest) = none := by
    intro rest
    simp [lineTransaction, parseLogLine, cString]
  intro line member
  rw [logHeader, List.mem_cons, List.mem_singleton] at member
  rcases member with rfl | rfl
  · exact ⟨⟨_, rfl, by decide⟩, comment _⟩
  · have time : 10 ∉ formatInt64 created := not_mem_formatInt64 (by decide) (by decide) created
    have words : 10 ∉ ascii "# Created: " := by decide
    exact ⟨⟨_, rfl, by simp [time, words]⟩, comment _⟩

theorem recoveredTransactions_active {created : Int64} {manager : TransactionManager}
    (lawful : manager.Lawful δ created)
    (distinct : (manager.activeTransactions.map Transaction.id).Nodup)
    (short : ∀ line ∈ manager.log, line.length < maxLogLineSize) :
    ∀ transaction ∈ recoveredTransactions δ manager.log.flatten,
      transaction.state = .active := by
  obtain ⟨records, recorded⟩ := lawful.recorded
  have loggable : ∀ record ∈ records, record.transaction.Loggable := by
    intro record member
    exact lawful.loggable _ (List.mem_of_getElem? (recorded.current record member))
  have fits : ∀ line ∈ manager.log, FitsLine maxLogLineSize line := by
    intro line member
    have shortLine := short line member
    rw [recorded.lines] at member
    rcases List.mem_append.mp member with head | written
    · exact ⟨(logHeader_lines created line head).1, shortLine⟩
    · obtain ⟨record, recordMember, rfl⟩ := List.mem_map.mp written
      exact fitsLine_stateChangeLine (loggable record recordMember) shortLine
  have about : manager.log.filterMap lineTransaction =
      records.map fun record => record.transaction.id := by
    rw [recorded.lines, List.filterMap_append,
      List.filterMap_eq_nil_iff.mpr fun line member => (logHeader_lines created line member).2, List.nil_append,
      List.filterMap_map, ← List.filterMap_eq_map]
    apply List.filterMap_congr
    intro record member
    simp [lineTransaction, parseLogLine_stateChangeLine record.time (loggable record member)]
  have once : (records.map fun record => record.transaction.id).Nodup := by
    apply List.Nodup.map_on _ (List.Nodup.of_map _ recorded.once)
    intro record member other otherMember same
    have current := recorded.current record member
    have otherCurrent := recorded.current other otherMember
    have below : record.index < (manager.activeTransactions.map Transaction.id).length := by
      simpa using (List.getElem?_eq_some_iff.mp current).1
    have sameIndex : record.index = other.index := by
      apply (List.getElem?_inj below distinct).mp
      rw [List.getElem?_map, List.getElem?_map, current, otherCurrent, Option.map_some,
        Option.map_some, same]
    exact List.inj_on_of_nodup_map recorded.once member otherMember sameIndex
  rw [recoveredTransactions, readLines_flatten fits]
  apply foldl_readLogLine_active
  · rwa [about]
  · simp

end Reading

/-- In a run whose ids differ and whose log fits the reader's lines, recovery
finds what was committed just where nothing was. -/
theorem recoversCommitted_iff (δ : Type) [CDouble δ] (created : Int64)
    (calls : List TransactionCall) (run : LoggedRun)
    (reached : runFrom (transactionStep δ) (LoggedRun.start created) calls = some run)
    (distinct : (run.manager.activeTransactions.map Transaction.id).Nodup)
    (short : ∀ line ∈ run.manager.log, line.length < maxLogLineSize) :
    RecoversCommitted δ run ↔
      EveryStep (transactionStep δ) CommitsNothing (LoggedRun.start created) calls := by
  have lawful : run.manager.Lawful δ created :=
    invariant_reached (fun _ _ _ lawful taken => transactionStep_lawful lawful taken)
      (start_lawful created) reached
  have active := recoveredTransactions_active lawful distinct short
  have none : transactionLogReadOperations δ run.manager.log.flatten = 0 := by
    rw [transactionLogReadOperations, List.countP_eq_zero]
    intro transaction member
    simp [active transaction member]
  have nothing : run.committed = [] ↔ RecoversCommitted δ run := by
    constructor
    · intro empty
      refine ⟨fun id => ?_, by rw [none, empty, List.length_nil]⟩
      simp only [empty, List.not_mem_nil, iff_false, not_exists, not_and]
      intro transaction member _ committed
      rw [active transaction member] at committed
      cases committed
    · intro recovers
      rw [← List.length_eq_zero_iff, ← recovers.counted, none]
  have commits := runFrom_iff_everyStep
    (fun _ _ _ taken => transactionStep_committed_iff (δ := δ) taken) reached
  rw [← nothing, commits]
  simp [LoggedRun.start]

def twoTransactions : List TransactionCall :=
  [.begin (some .serializable) (ascii "ada") 100 1 100, .begin none (ascii "bob") 101 2 101,
    .rollback 0 102 102, .commit 0 103 103]

theorem recoversCommitted_iff_twoTransactions :
    ∃ run, runFrom (transactionStep Rat) (LoggedRun.start 99) twoTransactions = some run ∧
      (RecoversCommitted Rat run ↔
        EveryStep (transactionStep Rat) CommitsNothing (LoggedRun.start 99) twoTransactions) := by
  have runs : ∃ run ∈ runFrom (transactionStep Rat) (LoggedRun.start 99) twoTransactions,
      (run.manager.activeTransactions.map Transaction.id).Nodup ∧
        ∀ line ∈ run.manager.log, line.length < maxLogLineSize := by
    decide +kernel
  obtain ⟨run, reached, distinct, short⟩ := runs
  exact ⟨run, reached, recoversCommitted_iff Rat 99 twoTransactions run reached distinct short⟩

def oneCommit : List TransactionCall :=
  [.begin (some .serializable) (ascii "ada") 100 1 100, .commit 0 102 102]

/-- The commit returns 0, and no transaction is recovered as committed. -/
theorem not_recoversCommitted_oneCommit :
    ∃ run, runFrom (transactionStep Rat) (LoggedRun.start 99) oneCommit = some run ∧
      run.committed.length = 1 ∧
        (run.manager.activeTransactions.map Transaction.id).Nodup ∧
          (∀ line ∈ run.manager.log, line.length < maxLogLineSize) ∧
            ¬ RecoversCommitted Rat run := by
  have runs : ∃ run ∈ runFrom (transactionStep Rat) (LoggedRun.start 99) oneCommit,
      run.committed.length = 1 ∧
        (run.manager.activeTransactions.map Transaction.id).Nodup ∧
          (∀ line ∈ run.manager.log, line.length < maxLogLineSize) ∧
            transactionLogReadOperations Rat run.manager.log.flatten = 0 := by
    decide +kernel
  obtain ⟨run, reached, one, distinct, short, none⟩ := runs
  refine ⟨run, reached, one, distinct, short, fun recovers => ?_⟩
  have counted := recovers.counted
  omega

end Jdbx
