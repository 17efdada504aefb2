import Jdbx.Library.LineFile
import Jdbx.Library.Strtok
import Jdbx.Transaction.Transaction
import Jdbx.Utils.JsonParse
import Jdbx.Utils.JsonStringify
import Mathlib.Data.Bool.AllAny

/-!
# The transaction log

The writer appends a line `TIMESTAMP|TYPE|TRANSACTION_ID|DATA_JSON` for each
change of state.  The reader takes the first `STATE` line of a transaction for
its start, whatever state it holds, and every later one for a change of state.
-/

namespace Jdbx

open Library

section Write

variable (δ : Type) [CDouble δ]

/-- The data of a `STATE` entry. -/
def stateChangeData (transaction : Transaction) : JsonValue δ :=
  let data : JsonValue δ :=
    .object [(ascii "state", .string transaction.state.toBytes),
      (ascii "user_id", .string transaction.userId)]
  let data :=
    if transaction.state = .active then
      jsonObjectSet data (ascii "isolation_level") (.string transaction.isolationLevel.toBytes)
    else data
  if transaction.state = .committed ∧ transaction.commitTime > 0 then
    jsonObjectSet data (ascii "commit_time") (.integer transaction.commitTime)
  else data

/-- The line that `log_append_entry` writes. -/
def logLine (now : Int64) (type transactionId dataJson : Bytes) : Bytes :=
  formatInt64 now ++ 124 :: (type ++ 124 :: (transactionId ++ 124 :: (dataJson ++ [10])))

/-- The line that `transaction_log_write_state_change` appends. -/
def stateChangeLine (now : Int64) (transaction : Transaction) : Bytes :=
  logLine now (ascii "STATE") transaction.id (jsonStringify (stateChangeData δ transaction))

end Write

/-- The header that `transaction_log_create` writes into a new file. -/
def logHeader (now : Int64) : List Bytes :=
  [ascii "# JSONDB Transaction Log - Format: TIMESTAMP|TYPE|TRANSACTION_ID|DATA_JSON" ++ [10],
    ascii "# Created: " ++ formatInt64 now ++ [10]]

/-! ## Reading -/

def maxLogLineSize : Nat := 4096

def maxRecoveryTransactions : Nat := 1000

/-- The fields of a log line. -/
structure LogEntry where
  timestamp : Int64
  type : Bytes
  transactionId : Bytes
  dataJson : Bytes
  deriving DecidableEq, Repr

def parseLogLine (line : Bytes) : Option LogEntry :=
  if line.head? = some 35 ∨ line.head? = none ∨ line.head? = some 10 then none
  else
    (strtok [124] line).bind fun (token, line) =>
      (strtok [124] line).bind fun (type, line) =>
        (strtok [124] line).bind fun (transactionId, line) =>
          (strtok [10] line).map fun (dataJson, _) =>
            { timestamp := atol token, type, transactionId, dataJson }

/-- The transactions that recovery builds.  Their operations are read by
nothing, and are left out; `none` is `ISOLATION_INVALID`. -/
structure RecoveredTransaction where
  id : Bytes
  state : TransactionState
  startTime : Int64
  commitTime : Int64
  userId : Bytes
  isolationLevel : Option IsolationLevel
  deriving DecidableEq, Repr

def isolationLevelFromString (level : Bytes) : Option IsolationLevel :=
  [IsolationLevel.readUncommitted, .readCommitted, .serializable].find? fun tested =>
    level.map tolower == tested.toBytes.map tolower

section Read

variable (δ : Type) [CDouble δ]

def createRecoveryTransaction (entry : LogEntry) : Option RecoveredTransaction :=
  match (jsonParse entry.dataJson : Option (JsonValue δ)) with
  | some (.object fields) =>
      match jsonObjectGet (.object fields) (ascii "user_id") with
      | some (.string userId) =>
          some
            { id := entry.transactionId
              state := .active
              startTime := entry.timestamp
              commitTime := 0
              userId
              isolationLevel :=
                match jsonObjectGet (.object fields) (ascii "isolation_level") with
                | some (.string level) => isolationLevelFromString level
                | _ => some .readCommitted }
      | _ => none
  | _ => none

def updateTransactionState (transaction : RecoveredTransaction) (dataJson : Bytes) :
    RecoveredTransaction :=
  match (jsonParse dataJson : Option (JsonValue δ)) with
  | some (.object fields) =>
      match jsonObjectGet (.object fields) (ascii "state") with
      | some (.string state) =>
          if state = ascii "active" then { transaction with state := .active }
          else if state = ascii "committing" then { transaction with state := .committing }
          else if state = ascii "committed" then
            { transaction with
              state := .committed
              commitTime :=
                match jsonObjectGet (.object fields) (ascii "commit_time") with
                | some (.integer commitTime) => commitTime
                | _ => transaction.commitTime }
          else if state = ascii "aborting" then { transaction with state := .aborting }
          else if state = ascii "aborted" then { transaction with state := .aborted }
          else transaction
      | _ => transaction
  | _ => transaction

/-- The turn of the reading loop for one line.  The transactions read so far
have different ids, so that at most one of them is updated. -/
def readLogLine (transactions : List RecoveredTransaction) (line : Bytes) :
    List RecoveredTransaction :=
  match parseLogLine (cString line) with
  | none => transactions
  | some entry =>
      if entry.type = ascii "STATE" then
        if transactions.any fun transaction => transaction.id == entry.transactionId then
          transactions.map fun transaction =>
            if transaction.id = entry.transactionId then
              updateTransactionState δ transaction entry.dataJson
            else transaction
        else
          match createRecoveryTransaction δ entry with
          | some transaction =>
              if transactions.length < maxRecoveryTransactions then transactions ++ [transaction]
              else transactions
          | none => transactions
      else transactions

/-- The transactions that `transaction_log_read_operations` classifies. -/
def recoveredTransactions (file : Bytes) : List RecoveredTransaction :=
  (readLines maxLogLineSize file).foldl (readLogLine δ) []

def transactionLogReadOperations (file : Bytes) : Nat :=
  (recoveredTransactions δ file).countP fun transaction => transaction.state = .committed

end Read

variable {δ : Type} [CDouble δ] {transaction : Transaction}

def ObjectWithout (byte : UInt8) (value : JsonValue δ) : Prop :=
  ∃ entries, value = .object entries ∧ ∀ entry ∈ entries, byte ∉ stringifyEntry entry

theorem stateChangeData_eq_object (δ : Type) [CDouble δ] (transaction : Transaction) :
    ∃ entries, stateChangeData δ transaction = .object entries := by
  rw [stateChangeData]
  split_ifs <;> exact ⟨_, rfl⟩

theorem ObjectWithout.set {byte : UInt8} {object : JsonValue δ}
    (without : ObjectWithout byte object) {key : Bytes} {value : JsonValue δ}
    (absent : byte ∉ stringifyEntry (key, value)) :
    ObjectWithout byte (jsonObjectSet object key value) := by
  obtain ⟨entries, rfl, others⟩ := without
  refine ⟨setEntry key value entries, rfl, fun entry member => ?_⟩
  rcases mem_setEntry member with rfl | old
  · exact absent
  · exact others entry old

theorem ObjectWithout.not_mem {byte : UInt8} {object : JsonValue δ}
    (without : ObjectWithout byte object) (plain : byte ∉ [44, 123, 125]) :
    byte ∉ jsonStringify object := by
  obtain ⟨entries, rfl, absent⟩ := without
  simp only [List.mem_cons, List.not_mem_nil, or_false, not_or] at plain
  have inside : byte ∉ [44].intercalate (stringifyEntries entries) := by
    rw [stringifyEntries_eq_map]
    apply not_mem_intercalate plain.1
    intro text member
    obtain ⟨entry, entryMember, rfl⟩ := List.mem_map.mp member
    exact absent entry entryMember
  simp [jsonStringify, stringifyValue, plain, inside]

theorem not_mem_stateChangeData {byte : UInt8}
    (absent : byte = 10 ∨ byte = 0 ∧ NulFree transaction.userId) :
    byte ∉ jsonStringify (stateChangeData δ transaction) := by
  have control : byte ∉ ([34, 92, 98, 102, 110, 114, 116] : Bytes) ∧
      byte ∉ ([44, 123, 125] : Bytes) ∧ byte ≠ 58 ∧ byte ≠ 45 ∧ isdigit byte = false := by
    rcases absent with rfl | ⟨rfl, -⟩ <;> decide
  obtain ⟨noEscape, plain, notColon, notMinus, noDigit⟩ := control
  have entry : ∀ key ∈ [ascii "state", ascii "user_id", ascii "isolation_level",
      ascii "commit_time"], ∀ value : JsonValue δ, byte ∉ stringifyValue value →
        byte ∉ stringifyEntry (key, value) := by
    intro key member value valueAbsent
    have word : ∀ text ∈ [ascii "state", ascii "user_id", ascii "isolation_level",
        ascii "commit_time"], byte ∉ escapeString text := by
      rcases absent with rfl | ⟨rfl, -⟩ <;> decide
    simp [stringifyEntry, word key member, notColon, valueAbsent]
  have state : byte ∉ escapeString transaction.state.toBytes := by
    cases transaction.state <;> rcases absent with rfl | ⟨rfl, -⟩ <;> decide
  have isolationLevel : byte ∉ escapeString transaction.isolationLevel.toBytes := by
    cases transaction.isolationLevel <;> rcases absent with rfl | ⟨rfl, -⟩ <;> decide
  have userId : byte ∉ escapeString transaction.userId := by
    apply not_mem_escapeString noEscape
    rcases absent with rfl | ⟨rfl, nulFree⟩
    · exact Or.inl rfl
    · exact Or.inr nulFree
  have both : ObjectWithout byte (.object [(ascii "state", .string transaction.state.toBytes),
      (ascii "user_id", .string transaction.userId)] : JsonValue δ) := by
    refine ⟨_, rfl, ?_⟩
    simp only [List.forall_mem_cons, List.not_mem_nil, false_implies, implies_true, and_true]
    exact ⟨entry _ (by simp) _ state, entry _ (by simp) _ userId⟩
  have withLevel := both.set (entry (ascii "isolation_level") (by simp)
    (.string transaction.isolationLevel.toBytes) isolationLevel)
  have commitTime := entry (ascii "commit_time") (by simp) (.integer transaction.commitTime)
    (not_mem_formatInt64 notMinus noDigit transaction.commitTime)
  have without : ObjectWithout byte (stateChangeData δ transaction) := by
    rw [stateChangeData]
    split_ifs
    · exact withLevel.set commitTime
    · exact both.set commitTime
    · exact withLevel
    · exact both
  exact without.not_mem plain

/-- What makes the line of a transaction readable: its id is a token of a line,
and its user id a C string. -/
structure Transaction.Loggable (transaction : Transaction) : Prop where
  idNonempty : transaction.id ≠ []
  idToken : ∀ byte ∈ ([124, 10, 0] : Bytes), byte ∉ transaction.id
  userId : NulFree transaction.userId

theorem fitsLine_stateChangeLine {now : Int64} (loggable : transaction.Loggable)
    (short : (stateChangeLine δ now transaction).length < maxLogLineSize) :
    FitsLine maxLogLineSize (stateChangeLine δ now transaction) := by
  have timestamp : 10 ∉ formatInt64 now := not_mem_formatInt64 (by decide) (by decide) now
  have type : 10 ∉ ascii "STATE" := by decide
  have data : 10 ∉ jsonStringify (stateChangeData δ transaction) :=
    not_mem_stateChangeData (Or.inl rfl)
  refine ⟨⟨formatInt64 now ++ 124 :: (ascii "STATE" ++ 124 :: (transaction.id ++ 124 ::
    jsonStringify (stateChangeData δ transaction))), ?_, ?_⟩, short⟩
  · simp [stateChangeLine, logLine]
  · simp [timestamp, type, data, loggable.idToken 10 (by decide)]

theorem parseLogLine_stateChangeLine (now : Int64) (loggable : transaction.Loggable) :
    parseLogLine (cString (stateChangeLine δ now transaction)) =
      some
        { timestamp := atol (formatInt64 now)
          type := ascii "STATE"
          transactionId := transaction.id
          dataJson := jsonStringify (stateChangeData δ transaction) } := by
  have timestamp : ∀ byte ∈ ([124, 0] : Bytes), byte ∉ formatInt64 now := by
    have outside : ∀ byte ∈ ([124, 0] : Bytes), byte ≠ 45 ∧ isdigit byte = false :=
      List.all_iff_forall_prop.mp (by decide)
    intro byte member
    exact not_mem_formatInt64 (outside byte member).1 (outside byte member).2 now
  have type : ∀ byte ∈ ([124, 0] : Bytes), byte ∉ ascii "STATE" :=
    List.all_iff_forall_prop.mp (by decide)
  have lineFeed : 10 ∉ jsonStringify (stateChangeData δ transaction) :=
    not_mem_stateChangeData (Or.inl rfl)
  have nul : 0 ∉ jsonStringify (stateChangeData δ transaction) :=
    not_mem_stateChangeData (Or.inr ⟨rfl, loggable.userId⟩)
  have plain : NulFree (stateChangeLine δ now transaction) := by
    simp [NulFree, stateChangeLine, logLine, timestamp 0 (by decide), type 0 (by decide), nul,
      loggable.idToken 0 (by decide)]
  have notEmpty : jsonStringify (stateChangeData δ transaction) ≠ [] := by
    obtain ⟨entries, object⟩ := stateChangeData_eq_object δ transaction
    rw [object, jsonStringify, stringifyValue]
    exact List.cons_ne_nil _ _
  have only : ∀ {byte : UInt8} {text : Bytes}, byte ∉ text → ∀ other ∈ text, other ∉ [byte] := by
    intro byte text absent other member same
    exact absent (List.mem_singleton.mp same ▸ member)
  have first := fun rest => strtok_cons (List.mem_singleton_self 124) (formatInt64_ne_nil now)
    (only (timestamp 124 (by decide))) rest
  have second := fun rest => strtok_cons (List.mem_singleton_self 124)
    (show ascii "STATE" ≠ [] by decide) (only (type 124 (by decide))) rest
  have third := fun rest => strtok_cons (List.mem_singleton_self 124) loggable.idNonempty
    (only (loggable.idToken 124 (by decide))) rest
  have fourth := strtok_cons (List.mem_singleton_self 10) notEmpty (only lineFeed) []
  obtain ⟨head, tail, layout⟩ := List.exists_cons_of_ne_nil (formatInt64_ne_nil now)
  have visible : ¬ (head = 35 ∨ head = 10) := by
    have member : head ∈ formatInt64 now := by simp [layout]
    rintro (rfl | rfl) <;> exact not_mem_formatInt64 (by decide) (by decide) now member
  have start : (stateChangeLine δ now transaction).head? = some head := by
    simp [stateChangeLine, logLine, layout]
  rw [cString_eq_self plain, parseLogLine, start, if_neg (by simpa using visible)]
  simp only [stateChangeLine, logLine, first, second, third, fourth, Option.bind_some,
    Option.map_some]

end Jdbx
