import Jdbx.Library.KeyedTable
import Jdbx.Transaction.RecoveryRuns
import Jdbx.Transaction.Savepoints
import Mathlib.Data.Nat.Digits.Lemmas

/-!
# Compacting the transaction log

Compaction drops the records of transactions that have ended, all but those that
say so.  The reader takes the first `STATE` record it meets for a start, so a
record that comes to be the first one no longer counts as a change of state.

The files are opened and renamed without failure.
-/

namespace Jdbx

open Library

/-- `transaction_operation_t`, as far as the log has it. -/
structure LoggedOperation (δ : Type) where
  type : OperationType
  collectionName : Bytes
  documentId : Option Bytes
  beforeState : Option (JsonValue δ)
  afterState : Option (JsonValue δ)

def OperationType.toBytes : OperationType → Bytes
  | .insert => ascii "insert"
  | .update => ascii "update"
  | .delete => ascii "delete"

section Write

variable {δ : Type} [CDouble δ]

/-- The data of an `OPERATION` entry. -/
def operationData (operation : LoggedOperation δ) : JsonValue δ :=
  let data : JsonValue δ :=
    .object [(ascii "type", .string operation.type.toBytes),
      (ascii "collection", .string operation.collectionName)]
  let data :=
    match operation.documentId with
    | some documentId => jsonObjectSet data (ascii "document_id") (.string documentId)
    | none => data
  let data :=
    match operation.beforeState with
    | some beforeState => jsonObjectSet data (ascii "before_state") (jsonClone beforeState)
    | none => data
  match operation.afterState with
  | some afterState => jsonObjectSet data (ascii "after_state") (jsonClone afterState)
  | none => data

/-- `transaction_log_write_state_change` and `transaction_log_write_operation`. -/
inductive LogCall (δ : Type) where
  | stateChange (now : Int64) (transaction : Transaction)
  | operation (now : Int64) (transactionId : Bytes) (operation : LoggedOperation δ)

/-- The line that the call appends, its parts written with `"%s"`. -/
def LogCall.line : LogCall δ → Bytes
  | .stateChange now transaction =>
    logLine now (ascii "STATE") (cString transaction.id)
      (cString (jsonStringify (stateChangeData δ transaction)))
  | .operation now transactionId logged =>
    logLine now (ascii "OPERATION") (cString transactionId)
      (cString (jsonStringify (operationData logged)))

def writtenLog (created : Int64) (calls : List (LogCall δ)) : Bytes :=
  (logHeader created ++ calls.map LogCall.line).flatten

end Write

/-- A transaction that recovery builds, with its operations. -/
structure RecoveringTransaction (δ : Type) where
  transaction : RecoveredTransaction
  operations : List (LoggedOperation δ)

section Read

variable (δ : Type) [CDouble δ]

def operationTypeFromString (type : Bytes) : Option OperationType :=
  [OperationType.insert, .update, .delete].find? fun tested => type == tested.toBytes

def operationFromJson (dataJson : Bytes) : Option (LoggedOperation δ) :=
  match (jsonParse dataJson : Option (JsonValue δ)) with
  | some (.object fields) =>
    match jsonObjectGet (.object fields) (ascii "type"),
      jsonObjectGet (.object fields) (ascii "collection") with
    | some (.string type), some (.string collectionName) =>
      (operationTypeFromString type).map fun type =>
        { type
          collectionName
          documentId :=
            match jsonObjectGet (.object fields) (ascii "document_id") with
            | some (.string documentId) => some documentId
            | _ => none
          beforeState :=
            (jsonObjectGet (.object fields) (ascii "before_state")).map jsonClone
          afterState :=
            (jsonObjectGet (.object fields) (ascii "after_state")).map jsonClone }
    | _, _ => none
  | _ => none

def RecoveringTransaction.advance (recovering : RecoveringTransaction δ) (entry : LogEntry) :
    RecoveringTransaction δ :=
  if entry.type = ascii "STATE" then
    { recovering with
      transaction := updateTransactionState δ recovering.transaction entry.dataJson }
  else if entry.type = ascii "OPERATION" then
    match operationFromJson δ entry.dataJson with
    | some operation => { recovering with operations := operation :: recovering.operations }
    | none => recovering
  else recovering

def startRecovering (entry : LogEntry) : Option (RecoveringTransaction δ) :=
  if entry.type = ascii "STATE" then
    (createRecoveryTransaction δ entry).map fun transaction => { transaction, operations := [] }
  else none

/-- The turn of the loop of `transaction_log_read_operations` for one entry. -/
def readLogEntry (transactions : List (RecoveringTransaction δ)) (entry : LogEntry) :
    List (RecoveringTransaction δ) :=
  if transactions.any fun recovering => recovering.transaction.id == entry.transactionId then
    transactions.map fun recovering =>
      if recovering.transaction.id = entry.transactionId then recovering.advance δ entry
      else recovering
  else
    match startRecovering δ entry with
    | some recovering =>
      if transactions.length < maxRecoveryTransactions then transactions ++ [recovering]
      else transactions
    | none => transactions

def readEntries (lines : List Bytes) : List LogEntry :=
  lines.filterMap fun line => parseLogLine (cString line)

/-- The transactions of `transaction_log_read_operations`, with their operations. -/
def recoveringTransactions (file : Bytes) : List (RecoveringTransaction δ) :=
  (readEntries (readLines maxLogLineSize file)).foldl (readLogEntry δ) []

end Read

def maxCompletedTransactions : Nat := 1000

/-- `strstr(text, word) != NULL`. -/
def strstr (text word : Bytes) : Bool :=
  decide (word <:+: text)

section Compact

variable (δ : Type) [CDouble δ]

def endsTransaction (entry : LogEntry) : Bool :=
  entry.type = ascii "STATE" &&
    match (jsonParse entry.dataJson : Option (JsonValue δ)) with
    | some (.object fields) =>
      match jsonObjectGet (.object fields) (ascii "state") with
      | some (.string state) => state = ascii "committed" || state = ascii "aborted"
      | _ => false
    | _ => false

def noteCompleted (completed : List Bytes) (entry : LogEntry) : List Bytes :=
  if completed.length < maxCompletedTransactions ∧ endsTransaction δ entry ∧
      entry.transactionId ∉ completed then
    completed ++ [entry.transactionId]
  else completed

def completedTransactions (lines : List Bytes) : List Bytes :=
  (readEntries lines).foldl (noteCompleted δ) []

end Compact

def isFinal (entry : LogEntry) : Bool :=
  (entry.type = ascii "STATE" &&
    (strstr entry.dataJson (ascii "\"state\":\"committed\"") ||
      strstr entry.dataJson (ascii "\"state\":\"aborted\""))) ||
    entry.type = ascii "AUDIT"

def keepEntry (completed : List Bytes) (entry : LogEntry) : Bool :=
  entry.transactionId ∉ completed || isFinal entry

def keepLine (completed : List Bytes) (line : Bytes) : Bool :=
  ((parseLogLine (cString line)).map (keepEntry completed)).getD false

def compactHeader (now : Int64) : List Bytes :=
  [ascii "# JSONDB Transaction Log - Format: TIMESTAMP|TYPE|TRANSACTION_ID|DATA_JSON" ++ [10],
    ascii "# Compacted: " ++ formatInt64 now ++ [10]]

def transactionLogCompact (δ : Type) [CDouble δ] (now : Int64) (file : Bytes) : Bytes :=
  let lines := readLines maxLogLineSize file
  let completed := completedTransactions δ lines
  (compactHeader now ++ (lines.filter (keepLine completed)).map cString).flatten

/-! ## What is compared -/

section Compare

variable (δ : Type) [CDouble δ]

def recoveredAs (transactions : List (RecoveringTransaction δ)) (id : Bytes) :
    Option (RecoveringTransaction δ) :=
  transactions.find? fun recovering => recovering.transaction.id = id

/-- Recovery of the compacted log finds the same state of every transaction, and
the same operations of those that no record of the log ends. -/
structure CompactsFaithfully (file compacted : Bytes) : Prop where
  states : ∀ id,
    (recoveredAs δ (recoveringTransactions δ compacted) id).map (·.transaction.state) =
      (recoveredAs δ (recoveringTransactions δ file) id).map (·.transaction.state)
  operations : ∀ id,
    (∀ entry ∈ readEntries (readLines maxLogLineSize file),
      entry.transactionId = id → endsTransaction δ entry = false) →
      (recoveredAs δ (recoveringTransactions δ compacted) id).map (·.operations) =
        (recoveredAs δ (recoveringTransactions δ file) id).map (·.operations)

/-- The state that an entry gives to a transaction that is known. -/
def recordedState (entry : LogEntry) : Option TransactionState :=
  if entry.type = ascii "STATE" then
    match (jsonParse entry.dataJson : Option (JsonValue δ)) with
    | some (.object fields) =>
      match jsonObjectGet (.object fields) (ascii "state") with
      | some (.string state) =>
        [TransactionState.active, .committing, .committed, .aborting, .aborted].find?
          fun tested => state == tested.toBytes
      | _ => none
    | _ => none
  else none

theorem updateTransactionState_id (transaction : RecoveredTransaction) (dataJson : Bytes) :
    (updateTransactionState δ transaction dataJson).id = transaction.id := by
  unfold updateTransactionState
  split
  · split
    · split_ifs <;> rfl
    · rfl
  · rfl

theorem advance_id (recovering : RecoveringTransaction δ) (entry : LogEntry) :
    (recovering.advance δ entry).transaction.id = recovering.transaction.id := by
  unfold RecoveringTransaction.advance
  split_ifs
  · exact updateTransactionState_id δ recovering.transaction entry.dataJson
  · split <;> rfl
  · rfl

theorem startRecovering_spec {entry : LogEntry} {recovering : RecoveringTransaction δ}
    (started : startRecovering δ entry = some recovering) :
    recovering.transaction.id = entry.transactionId ∧ recovering.transaction.state = .active := by
  rw [startRecovering] at started
  split_ifs at started
  obtain ⟨transaction, created, rfl⟩ := Option.map_eq_some_iff.mp started
  exact createRecoveryTransaction_active created

def recovery : Bookkeeping LogEntry (RecoveringTransaction δ) Bytes where
  eventKey := LogEntry.transactionId
  rowKey recovering := recovering.transaction.id
  start := startRecovering δ
  advance := RecoveringTransaction.advance δ
  start_key started := (startRecovering_spec δ started).1
  advance_key := advance_id δ

def tabledIds (entries : List LogEntry) : List Bytes :=
  (recovery δ).tabled maxRecoveryTransactions entries

def endedIds (entries : List LogEntry) : List Bytes :=
  firstKeys maxCompletedTransactions
    ((entries.filter (endsTransaction δ)).map LogEntry.transactionId)

def lastState (records : List LogEntry) : Option TransactionState :=
  match records.dropWhile fun record => (startRecovering δ record).isNone with
  | [] => none
  | _ :: later => some ((later.filterMap (recordedState δ)).getLast?.getD .active)

def withoutEnded (entries : List LogEntry) : List LogEntry :=
  entries.filter fun entry => entry.transactionId ∉ endedIds δ entries || isFinal entry

/-- The reader has room for the same transactions without the other records of
those that are ended, and the final records of these say the last state, after
one of them has been taken for the start. -/
structure FinalRecordsTell (entries : List LogEntry) : Prop where
  tabled : ∀ id, id ∈ tabledIds δ (withoutEnded δ entries) ↔ id ∈ tabledIds δ entries
  last : ∀ id ∈ tabledIds δ entries, id ∈ endedIds δ entries →
    lastState δ ((entries.filter (·.transactionId = id)).filter isFinal) =
      lastState δ (entries.filter (·.transactionId = id))

end Compare

/-! ## What the reader makes of entries -/

theorem readEntries_cons (line : Bytes) (lines : List Bytes) :
    readEntries (line :: lines) = (parseLogLine (cString line)).toList ++ readEntries lines := by
  cases parsed : parseLogLine (cString line) <;> simp [readEntries, parsed]

theorem readEntries_append (lines others : List Bytes) :
    readEntries (lines ++ others) = readEntries lines ++ readEntries others :=
  List.filterMap_append

section Reading

variable {δ : Type} [CDouble δ]

theorem readLogEntry_eq_turn (transactions : List (RecoveringTransaction δ)) (entry : LogEntry) :
    readLogEntry δ transactions entry =
      (recovery δ).turn maxRecoveryTransactions transactions entry := by
  have known : (transactions.any fun recovering =>
      recovering.transaction.id == entry.transactionId) = true ↔
        (recovery δ).eventKey entry ∈ transactions.map (recovery δ).rowKey := by
    simp [recovery]
  rw [readLogEntry, Bookkeeping.turn]
  by_cases present : (recovery δ).eventKey entry ∈ transactions.map (recovery δ).rowKey
  · rw [if_pos (known.mpr present), if_pos present]
    rfl
  · rw [if_neg fun found => present (known.mp found), if_neg present]
    cases started : startRecovering δ entry <;> simp only [recovery, started]

theorem recoveredAs_foldl (entries : List LogEntry) (id : Bytes) :
    recoveredAs δ (entries.foldl (readLogEntry δ) []) id =
      if id ∈ tabledIds δ entries then (recovery δ).history entries id else none := by
  have turns : readLogEntry δ = (recovery δ).turn maxRecoveryTransactions := by
    funext transactions entry
    exact readLogEntry_eq_turn transactions entry
  rw [turns]
  have found := Bookkeeping.find?_foldl_turn (recovery δ) maxRecoveryTransactions entries id
  by_cases tabled : id ∈ (recovery δ).tabled maxRecoveryTransactions entries
  · rw [if_pos tabled] at found
    rw [tabledIds, if_pos tabled]
    exact found
  · rw [if_neg tabled] at found
    rw [tabledIds, if_neg tabled]
    exact found

theorem updateTransactionState_state (transaction : RecoveredTransaction) {entry : LogEntry}
    (state : entry.type = ascii "STATE") :
    (updateTransactionState δ transaction entry.dataJson).state =
      (recordedState δ entry).getD transaction.state := by
  rw [recordedState, if_pos state, updateTransactionState]
  cases parsed : (jsonParse entry.dataJson : Option (JsonValue δ)) with
  | none => rfl
  | some value =>
    cases value with
    | object fields =>
      simp only
      cases held : jsonObjectGet (.object fields : JsonValue δ) (ascii "state") with
      | none => rfl
      | some value =>
        cases value with
        | string word =>
          simp only
          split_ifs with active committing committed aborting aborted
          · simp [active, TransactionState.toBytes]
          · rw [committing]
            rfl
          · rw [committed]
            rfl
          · rw [aborting]
            rfl
          · rw [aborted]
            rfl
          · simp [TransactionState.toBytes, active, committing, committed, aborting,
              aborted]
        | _ => rfl
    | _ => rfl

theorem advance_state (recovering : RecoveringTransaction δ) (entry : LogEntry) :
    (recovering.advance δ entry).transaction.state =
      (recordedState δ entry).getD recovering.transaction.state := by
  by_cases state : entry.type = ascii "STATE"
  · rw [RecoveringTransaction.advance, if_pos state]
    exact updateTransactionState_state recovering.transaction state
  · rw [RecoveringTransaction.advance, if_neg state, recordedState, if_neg state]
    split_ifs
    · split <;> rfl
    · rfl

theorem foldl_advance_state (recovering : RecoveringTransaction δ) (later : List LogEntry) :
    (later.foldl (RecoveringTransaction.advance δ) recovering).transaction.state =
      (later.filterMap (recordedState δ)).getLast?.getD recovering.transaction.state := by
  induction later using List.reverseRecOn with
  | nil => rfl
  | append_singleton later entry ih =>
    rw [List.foldl_concat, advance_state, ih, List.filterMap_append]
    cases recorded : recordedState δ entry with
    | none => simp [recorded]
    | some state => simp [recorded]

theorem foldl_follow_some (recovering : RecoveringTransaction δ) (later : List LogEntry) :
    later.foldl (recovery δ).follow (some recovering) =
      some (later.foldl (RecoveringTransaction.advance δ) recovering) := by
  induction later generalizing recovering with
  | nil => rfl
  | cons entry later ih => exact ih (recovering.advance δ entry)

theorem foldl_follow_state (records : List LogEntry) :
    (records.foldl (recovery δ).follow none).map (·.transaction.state) = lastState δ records := by
  induction records with
  | nil => rfl
  | cons record later ih =>
    rw [List.foldl_cons, Bookkeeping.follow]
    cases started : startRecovering δ record with
    | none =>
      have skipped : lastState δ (record :: later) = lastState δ later := by
        rw [lastState, List.dropWhile_cons_of_pos (by simp [started])]
        rfl
      rw [skipped, ← ih]
      simp only [recovery, started]
    | some recovering =>
      have starts : (recovery δ).start record = some recovering := started
      rw [lastState, List.dropWhile_cons_of_neg (by simp [started])]
      simp only [starts]
      rw [foldl_follow_some, Option.map_some, foldl_advance_state,
        (startRecovering_spec δ started).2]

theorem recoveredAs_state (entries : List LogEntry) (id : Bytes) :
    (recoveredAs δ (entries.foldl (readLogEntry δ) []) id).map (·.transaction.state) =
      if id ∈ tabledIds δ entries then lastState δ (entries.filter (·.transactionId = id))
      else none := by
  rw [recoveredAs_foldl]
  split_ifs
  · exact foldl_follow_state _
  · rfl

theorem isSome_recoveredAs_iff {entries : List LogEntry} {id : Bytes} :
    ((recoveredAs δ (entries.foldl (readLogEntry δ) []) id).map
      (·.transaction.state)).isSome ↔ id ∈ tabledIds δ entries := by
  rw [Option.isSome_map, recoveredAs_foldl]
  split_ifs with tabled
  · exact iff_of_true (Bookkeeping.isSome_history_of_mem tabled) tabled
  · exact iff_of_false (by simp) tabled

end Reading

/-! ## What compaction leaves -/

section Compaction

variable {δ : Type} [CDouble δ]

theorem fitsLine_compactHeader (now : Int64) :
    ∀ line ∈ compactHeader now, FitsLine maxLogLineSize line := by
  intro line member
  rw [compactHeader, List.mem_cons, List.mem_singleton] at member
  rcases member with rfl | rfl
  · exact ⟨⟨_, rfl, by decide⟩, by decide⟩
  · have time : 10 ∉ formatInt64 now := not_mem_formatInt64 (by decide) (by decide) now
    have words : 10 ∉ ascii "# Compacted: " := by decide
    refine ⟨⟨_, rfl, by simp [time, words]⟩, ?_⟩
    have short := length_formatInt64_le now
    have length : (ascii "# Compacted: ").length = 13 := by decide
    simp only [List.length_append, List.length_singleton, length, maxLogLineSize]
    omega

theorem readEntries_compactHeader (now : Int64) : readEntries (compactHeader now) = [] := by
  simp [readEntries, compactHeader, parseLogLine, cString, ascii]

theorem nulFree_line (call : LogCall δ) : NulFree call.line := by
  have time : ∀ now : Int64, 0 ∉ formatInt64 now := fun now =>
    not_mem_formatInt64 (by decide) (by decide) now
  have state : 0 ∉ ascii "STATE" := by decide
  have operation : 0 ∉ ascii "OPERATION" := by decide
  have string : ∀ text, 0 ∉ cString text := nulFree_cString
  cases call with
  | stateChange now transaction => simp [NulFree, LogCall.line, logLine, time, state, string]
  | operation now transactionId logged =>
    simp [NulFree, LogCall.line, logLine, time, operation, string]

theorem nulFree_writtenLog (created : Int64) (calls : List (LogCall δ)) :
    NulFree (writtenLog created calls) := by
  intro nul
  rw [writtenLog] at nul
  obtain ⟨line, member, inside⟩ := List.mem_flatten.mp nul
  rcases List.mem_append.mp member with head | written
  · have time : 0 ∉ formatInt64 created := not_mem_formatInt64 (by decide) (by decide) created
    have words : 0 ∉ ascii "# Created: " := by decide
    rw [logHeader, List.mem_cons, List.mem_singleton] at head
    rcases head with rfl | rfl
    · revert inside
      decide
    · simp [time, words] at inside
  · obtain ⟨call, _, rfl⟩ := List.mem_map.mp written
    exact nulFree_line call inside

theorem endsLine_writtenLog (created : Int64) (calls : List (LogCall δ)) :
    EndsLine (writtenLog created calls) := by
  apply endsLine_flatten
  intro line member
  rcases List.mem_append.mp member with head | written
  · obtain ⟨text, ends, _⟩ := (logHeader_lines created line head).1
    exact ⟨text, ends⟩
  · obtain ⟨call, _, rfl⟩ := List.mem_map.mp written
    cases call with
    | stateChange now transaction =>
      refine ⟨formatInt64 now ++ 124 :: (ascii "STATE" ++ 124 :: (cString transaction.id ++
        124 :: cString (jsonStringify (stateChangeData δ transaction)))), ?_⟩
      simp [LogCall.line, logLine]
    | operation now transactionId logged =>
      refine ⟨formatInt64 now ++ 124 :: (ascii "OPERATION" ++ 124 :: (cString transactionId ++
        124 :: cString (jsonStringify (operationData logged)))), ?_⟩
      simp [LogCall.line, logLine]

theorem completedTransactions_eq (lines : List Bytes) :
    completedTransactions δ lines = endedIds δ (readEntries lines) := by
  have turn : noteCompleted δ = fun completed entry =>
      if endsTransaction δ entry then note maxCompletedTransactions completed entry.transactionId
      else completed := by
    funext completed entry
    rw [noteCompleted, note]
    by_cases ends : endsTransaction δ entry
    · simp [ends]
    · simp [ends]
  rw [completedTransactions, turn, endedIds, ← foldl_note, List.foldl_map, List.foldl_filter]

theorem readEntries_filter_keepLine (completed : List Bytes) (lines : List Bytes) :
    readEntries (lines.filter (keepLine completed)) =
      (readEntries lines).filter (keepEntry completed) := by
  induction lines with
  | nil => rfl
  | cons line lines ih =>
    rw [readEntries_cons, List.filter_append, List.filter_cons]
    cases parsed : parseLogLine (cString line) with
    | none => simp [keepLine, parsed, ih]
    | some entry =>
      by_cases kept : keepEntry completed entry
      · simp [keepLine, parsed, kept, readEntries_cons, ih]
      · simp [keepLine, parsed, kept, ih]

theorem readEntries_compact (now : Int64) {file : Bytes} (ends : EndsLine file)
    (nulFree : NulFree file) :
    readEntries (readLines maxLogLineSize (transactionLogCompact δ now file)) =
      withoutEnded δ (readEntries (readLines maxLogLineSize file)) := by
  have large : 1 < maxLogLineSize := by decide
  have pieces := pieces_readLines large ends
  have strings : ∀ line ∈ readLines maxLogLineSize file, cString line = line := fun line member =>
    cString_eq_self (nulFree_readLines large ends nulFree line member)
  have copied : ∀ keep : Bytes → Bool, ((readLines maxLogLineSize file).filter keep).map cString =
      (readLines maxLogLineSize file).filter keep := by
    intro keep
    rw [List.map_congr_left fun line member => strings line (List.mem_of_mem_filter member),
      List.map_id']
  rw [transactionLogCompact, copied, readLines_pieces]
  · rw [readEntries_append, readEntries_compactHeader, List.nil_append,
      readEntries_filter_keepLine, completedTransactions_eq]
    rfl
  · intro line member
    rcases List.mem_append.mp member with head | kept
    · exact Or.inl (fitsLine_compactHeader now line head)
    · exact pieces line (List.mem_of_mem_filter kept)

theorem filter_withoutEnded (entries : List LogEntry) (id : Bytes) :
    (withoutEnded δ entries).filter (·.transactionId = id) =
      if id ∈ endedIds δ entries then (entries.filter (·.transactionId = id)).filter isFinal
      else entries.filter (·.transactionId = id) := by
  rw [withoutEnded, List.filter_filter]
  split_ifs with ended
  · rw [List.filter_filter]
    apply List.filter_congr
    intro entry _
    by_cases about : entry.transactionId = id
    · simp [about, ended]
    · simp [about]
  · apply List.filter_congr
    intro entry _
    by_cases about : entry.transactionId = id
    · simp [about, ended]
    · simp [about]

theorem not_mem_endedIds {entries : List LogEntry} {id : Bytes}
    (unended : ∀ entry ∈ entries, entry.transactionId = id → endsTransaction δ entry = false) :
    id ∉ endedIds δ entries := by
  intro ended
  obtain ⟨entry, member, about⟩ := List.mem_map.mp (mem_of_mem_firstKeys ended)
  obtain ⟨inside, ends⟩ := List.mem_filter.mp member
  rw [unended entry inside about] at ends
  cases ends

theorem states_withoutEnded_iff (entries : List LogEntry) :
    (∀ id, (recoveredAs δ ((withoutEnded δ entries).foldl (readLogEntry δ) []) id).map
        (·.transaction.state) =
      (recoveredAs δ (entries.foldl (readLogEntry δ) []) id).map (·.transaction.state)) ↔
      FinalRecordsTell δ entries := by
  constructor
  · intro states
    have tabled : ∀ id, id ∈ tabledIds δ (withoutEnded δ entries) ↔ id ∈ tabledIds δ entries := by
      intro id
      rw [← isSome_recoveredAs_iff, ← isSome_recoveredAs_iff, states id]
    refine ⟨tabled, fun id present ended => ?_⟩
    have same := states id
    rwa [recoveredAs_state, recoveredAs_state, if_pos ((tabled id).mpr present), if_pos present,
      filter_withoutEnded, if_pos ended] at same
  · intro tell id
    rw [recoveredAs_state, recoveredAs_state]
    by_cases present : id ∈ tabledIds δ entries
    · rw [if_pos ((tell.tabled id).mpr present), if_pos present, filter_withoutEnded]
      split_ifs with ended
      · exact tell.last id present ended
      · rfl
    · rw [if_neg fun kept => present ((tell.tabled id).mp kept), if_neg present]

theorem recoveredAs_withoutEnded {entries : List LogEntry} {id : Bytes}
    (unended : ∀ entry ∈ entries, entry.transactionId = id → endsTransaction δ entry = false)
    (tabled : id ∈ tabledIds δ (withoutEnded δ entries) ↔ id ∈ tabledIds δ entries) :
    recoveredAs δ ((withoutEnded δ entries).foldl (readLogEntry δ) []) id =
      recoveredAs δ (entries.foldl (readLogEntry δ) []) id := by
  have same : (recovery δ).history (withoutEnded δ entries) id =
      (recovery δ).history entries id := by
    have kept := filter_withoutEnded (δ := δ) entries id
    rw [if_neg (not_mem_endedIds unended)] at kept
    exact congrArg (List.foldl (recovery δ).follow none) kept
  rw [recoveredAs_foldl, recoveredAs_foldl, same]
  simp only [tabled]

end Compaction

/-- Compacting a written log is faithful just where the final records of the
transactions that have ended tell their states. -/
theorem compact_faithful (δ : Type) [CDouble δ] (created now : Int64) (calls : List (LogCall δ)) :
    CompactsFaithfully δ (writtenLog created calls)
        (transactionLogCompact δ now (writtenLog created calls)) ↔
      FinalRecordsTell δ (readEntries (readLines maxLogLineSize (writtenLog created calls))) := by
  have compacted := readEntries_compact (δ := δ) now (endsLine_writtenLog created calls)
    (nulFree_writtenLog created calls)
  rw [← states_withoutEnded_iff]
  constructor
  · intro faithful
    have states := faithful.states
    simpa only [recoveringTransactions, compacted] using states
  · intro states
    have tell := (states_withoutEnded_iff _).mp states
    refine ⟨?_, ?_⟩
    · simpa only [recoveringTransactions, compacted] using states
    · intro id unended
      rw [recoveringTransactions, compacted]
      exact congrArg (Option.map _) (recoveredAs_withoutEnded unended (tell.tabled id))

section Whole

variable {δ : Type} [CDouble δ]

end Whole

def committedOnce : List (LogCall Rat) :=
  let transaction : Transaction :=
    { id := ascii "tx_1", state := .active, startTime := 100, commitTime := 0,
      userId := ascii "ada", isolationLevel := .serializable }
  [.stateChange 100 transaction,
    .stateChange 102 { transaction with state := .committed, commitTime := 102 }]

/-- The transaction is recovered as committed, and after compaction as active. -/
theorem not_compactsFaithfully_committedOnce :
    let file := writtenLog 99 committedOnce
    let compacted := transactionLogCompact Rat 200 file
    (recoveredAs Rat (recoveringTransactions Rat file) (ascii "tx_1")).map
        (·.transaction.state) = some .committed ∧
      (recoveredAs Rat (recoveringTransactions Rat compacted) (ascii "tx_1")).map
          (·.transaction.state) = some .active ∧
        ¬ CompactsFaithfully Rat file compacted := by
  have before : (recoveredAs Rat (recoveringTransactions Rat (writtenLog 99 committedOnce))
      (ascii "tx_1")).map (·.transaction.state) = some .committed := by
    decide +kernel
  have after : (recoveredAs Rat (recoveringTransactions Rat
      (transactionLogCompact Rat 200 (writtenLog 99 committedOnce))) (ascii "tx_1")).map
        (·.transaction.state) = some .active := by
    decide +kernel
  refine ⟨before, after, fun faithful => ?_⟩
  have same := faithful.states (ascii "tx_1")
  rw [before, after] at same
  cases same

end Jdbx
