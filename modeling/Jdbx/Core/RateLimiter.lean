import Jdbx.Database.StoreRuns

/-!
# The connection rate of a client

The limiter keeps one counter document for each client address.  It looks the
document up under the uuid that it put into it, and `storage_insert_document`
gives every document a uuid of its own.
-/

namespace Jdbx

open Library

variable {δ : Type}

/-- `value.number`, whatever the type of the value.  What the member reads where
another one was written is `stray`. -/
def valueNumber (stray : JsonValue δ → δ) : JsonValue δ → δ
  | .number number => number
  | value => stray value

/-- The `doc_id` of a client, `"connrate-%s"` into 256 bytes. -/
def connectionRateId (ipAddress : Bytes) : Bytes :=
  (ascii "connrate-" ++ ipAddress).take 255

section Limiter

variable [CDouble δ] {db : Database δ} {event : Moment × StoreCall δ}

/-- The `count` of a counter document, if its `timestamp` is this second. -/
def connectionsThisSecond (stray : JsonValue δ → δ) (doc : JsonValue δ) (now : Int64) :
    Option Int32 :=
  match jsonObjectGet doc (ascii "timestamp"), jsonObjectGet doc (ascii "count") with
  | some timestampVal, some countVal =>
      if CDouble.toInt64 (valueNumber stray timestampVal) = now then
        some (CDouble.toInt32 (valueNumber stray countVal))
      else none
  | _, _ => none

def connectionRateCheck (stray : JsonValue δ → δ) (connectionRateLimit : Int32)
    (db : Database δ) (ipAddress : Bytes) (now : Int64) : Bool :=
  match (storageGetDocument db (connectionRateId ipAddress)).bind fun doc =>
      connectionsThisSecond stray doc now with
  | some connections => decide (connections < connectionRateLimit)
  | none => true

def newConnectionRate (ipAddress : Bytes) : JsonValue δ :=
  .object [(ascii "uuid", .string (connectionRateId ipAddress)),
    (ascii "type", .string (ascii "connection_rate")),
    (ascii "library", .string (ascii "system")),
    (ascii "ip_address", .string ipAddress)]

/-- The document with its counter, `now` and a minute to live. -/
def countedConnection (doc : JsonValue δ) (connections : Int32) (now : Int64) : JsonValue δ :=
  let doc := jsonObjectSet doc (ascii "timestamp") (.number (CDouble.ofInt64 now))
  let doc :=
    jsonObjectSet doc (ascii "count") (.number (CDouble.ofInt64 connections.toInt64))
  jsonObjectSet doc (ascii "expires_at") (.number (CDouble.ofInt64 (now + 60)))

def connectionRateRecord (stray : JsonValue δ → δ) (db : Database δ) (ipAddress : Bytes)
    (now : Int64) (moment : Moment) : Database δ :=
  let docId := connectionRateId ipAddress
  match storageGetDocument db docId with
  | some doc =>
      let connections := ((connectionsThisSecond stray doc now).map (· + 1)).getD 1
      (storageUpdateDocument moment db docId (countedConnection doc connections now)).2
  | none =>
      (storageInsertDocument moment db
        (countedConnection (newConnectionRate ipAddress) 1 now)).2

/-- The accept loop over the store that it shares with every request. -/
structure AcceptLoop (δ : Type) where
  db : Database δ
  /-- The client whose connection passed the check and is not yet recorded. -/
  unrecorded : Option Bytes
  /-- Every connection that passed the check, with the second of the check. -/
  admitted : List (Bytes × Int64)

def AcceptLoop.start (db : Database δ) : AcceptLoop δ :=
  { db := db, unrecorded := none, admitted := [] }

inductive AcceptEvent (δ : Type) where
  | check (ipAddress : Bytes) (now : Int64)
  | record (now : Int64) (moment : Moment)
  | call (event : Moment × StoreCall δ)

/-- One step: the loop checks a connection, or records the one it admitted, or a
request calls the store. -/
def acceptStep (stray : JsonValue δ → δ) (connectionRateLimit : Int32) (loop : AcceptLoop δ) :
    AcceptEvent δ → Option (AcceptLoop δ)
  | .check ipAddress now =>
      match loop.unrecorded with
      | some _ => none
      | none =>
          if connectionRateCheck stray connectionRateLimit loop.db ipAddress now then
            some { loop with
              unrecorded := some ipAddress
              admitted := loop.admitted ++ [(ipAddress, now)] }
          else some loop
  | .record now moment =>
      loop.unrecorded.map fun ipAddress =>
        { loop with
          db := connectionRateRecord stray loop.db ipAddress now moment
          unrecorded := none }
  | .call event => (storeStep loop.db event).map fun db => { loop with db := db }

omit [CDouble δ] in
def attempts (events : List (AcceptEvent δ)) : List (Bytes × Int64) :=
  events.filterMap fun
    | .check ipAddress now => some (ipAddress, now)
    | .record _ _ | .call _ => none

/-- No client has more than `limit` of the connections in any one second. -/
def WithinRate (limit : Int32) (connections : List (Bytes × Int64)) : Prop :=
  ∀ ipAddress second, (connections.count (ipAddress, second) : Int) ≤ limit.toInt

/-! ## The uuids of a store -/

def GeneratedKeys (db : Database δ) : Prop :=
  ∀ entry ∈ db.documents.entries, entry.1.take 4 = ascii "doc-"

omit [CDouble δ] in
theorem documentUuid_take (moment : Moment) : (documentUuid moment).take 4 = ascii "doc-" := by
  rw [documentUuid, List.append_assoc, List.append_assoc]
  exact List.take_append_of_le_length (by decide)

omit [CDouble δ] in
theorem connectionRateId_take (ipAddress : Bytes) :
    (connectionRateId ipAddress).take 4 = ascii "conn" := by
  rw [connectionRateId, List.take_take]
  exact List.take_append_of_le_length (by decide)

theorem GeneratedKeys.storageGetDocument (generated : GeneratedKeys db) {uuid : Bytes}
    {document : JsonValue δ} (stored : storageGetDocument db uuid = some document) :
    uuid.take 4 = ascii "doc-" := by
  obtain ⟨text, found, _⟩ := Option.bind_eq_some_iff.mp stored
  exact generated (uuid, text) (mem_of_getEntry_eq_some found)

theorem GeneratedKeys.absent (generated : GeneratedKeys db) {uuid : Bytes}
    (other : uuid.take 4 ≠ ascii "doc-") : Jdbx.storageGetDocument db uuid = none := by
  by_contra stored
  obtain ⟨document, found⟩ := Option.ne_none_iff_exists'.mp stored
  exact other (generated.storageGetDocument found)

theorem GeneratedKeys.connectionRate (generated : GeneratedKeys db) (ipAddress : Bytes) :
    Jdbx.storageGetDocument db (connectionRateId ipAddress) = none :=
  generated.absent (by rw [connectionRateId_take]; decide)

omit [CDouble δ] in
theorem insertion_take {moment : Moment} {document value : JsonValue δ} {key : Bytes}
    (writes : insertion db moment document = some (key, value)) :
    key.take 4 = ascii "doc-" := by
  rw [insertion] at writes
  split_ifs at writes
  cases writes
  exact documentUuid_take moment

theorem GeneratedKeys.written (generated : GeneratedKeys db) {key : Bytes}
    {document : JsonValue δ} (writes : Jdbx.written db event = some (key, document)) :
    key.take 4 = ascii "doc-" := by
  obtain ⟨moment, call⟩ := event
  cases call with
  | storageInsertDocument _ | virtualInsert _ _ _ _ _ | dbInsertDocument _ _ _ =>
      exact insertion_take writes
  | storageUpdateDocument uuid _ | virtualUpdate uuid _ =>
      obtain ⟨held, stored, equal⟩ := Option.map_eq_some_iff.mp writes
      cases equal
      exact generated.storageGetDocument stored
  | dbUpdateDocument library collection id update =>
      obtain ⟨held, stored, matched⟩ := Option.bind_eq_some_iff.mp writes
      split_ifs at matched
      cases matched
      exact generated.storageGetDocument stored
  | storageDeleteDocument _ | virtualDelete _ | dbDeleteDocument _ _ _ | virtualGet _
  | storageQueryDocuments _ | dbGetDocument _ _ _ | dbQueryDocuments _ _ _ => cases writes

theorem GeneratedKeys.storeStep {db next : Database δ} (generated : GeneratedKeys db)
    (taken : Jdbx.storeStep db event = some next) :
    GeneratedKeys next := by
  obtain ⟨⟨answer, _⟩, performed, rfl⟩ := Option.map_eq_some_iff.mp taken
  intro entry member
  rcases (performCall_writes performed).atMost entry member with old | ⟨document, writes, _⟩
  · exact generated entry old
  · exact generated.written writes

theorem GeneratedKeys.storageInsert (generated : GeneratedKeys db) (document : JsonValue δ)
    (moment : Moment) :
    GeneratedKeys (storageInsertDocument moment db document).2 := by
  intro entry member
  rcases mem_skiplistInsert member with old | rfl
  · exact generated entry old
  · exact documentUuid_take moment

theorem GeneratedKeys.record (generated : GeneratedKeys db) (stray : JsonValue δ → δ)
    (ipAddress : Bytes) (now : Int64) (moment : Moment) :
    GeneratedKeys (connectionRateRecord stray db ipAddress now moment) := by
  simp only [connectionRateRecord, generated.connectionRate ipAddress]
  exact generated.storageInsert _ _

variable {stray : JsonValue δ → δ} {limit : Int32} {events : List (AcceptEvent δ)}

theorem GeneratedKeys.connectionRateCheck (generated : GeneratedKeys db) (ipAddress : Bytes)
    (now : Int64) :
    Jdbx.connectionRateCheck stray limit db ipAddress now = true := by
  simp only [Jdbx.connectionRateCheck, generated.connectionRate ipAddress, Option.bind_none]

theorem GeneratedKeys.acceptStep {loop next : AcceptLoop δ} {event : AcceptEvent δ}
    (generated : GeneratedKeys loop.db)
    (taken : Jdbx.acceptStep stray limit loop event = some next) :
    GeneratedKeys next.db ∧ next.admitted = loop.admitted ++ attempts [event] := by
  cases event with
  | check ipAddress now =>
      cases waiting : loop.unrecorded with
      | some other =>
          simp only [Jdbx.acceptStep, waiting] at taken
          cases taken
      | none =>
          simp only [Jdbx.acceptStep, waiting, generated.connectionRateCheck, if_true] at taken
          cases taken
          exact ⟨generated, rfl⟩
  | record now moment =>
      obtain ⟨ipAddress, _, rfl⟩ := Option.map_eq_some_iff.mp taken
      exact ⟨generated.record stray ipAddress now moment, (List.append_nil _).symm⟩
  | call event =>
      obtain ⟨db, called, rfl⟩ := Option.map_eq_some_iff.mp taken
      exact ⟨generated.storeStep called, (List.append_nil _).symm⟩

theorem admitted_eq_attempts {loop last : AcceptLoop δ} (generated : GeneratedKeys loop.db)
    (reached : runFrom (acceptStep stray limit) loop events = some last) :
    last.admitted = loop.admitted ++ attempts events := by
  induction events generalizing loop with
  | nil =>
      cases reached
      exact (List.append_nil _).symm
  | cons event events ih =>
      obtain ⟨next, taken, rest⟩ := Option.bind_eq_some_iff.mp reached
      obtain ⟨kept, one⟩ := generated.acceptStep taken
      have split : attempts (event :: events) = attempts [event] ++ attempts events :=
        List.filterMap_append (l := [event])
      rw [ih kept rest, one, split, List.append_assoc]

omit [CDouble δ] in
theorem generatedKeys_empty (empty : db.documents = .empty) :
    GeneratedKeys db := by
  intro entry member
  rw [empty] at member
  cases member

/-- The limiter keeps to its limit just where the clients do. -/
theorem withinRate_admitted_iff {db : Database δ} (empty : db.documents = .empty)
    {last : AcceptLoop δ}
    (reached : runFrom (acceptStep stray limit) (AcceptLoop.start db) events = some last) :
    WithinRate limit last.admitted ↔ WithinRate limit (attempts events) := by
  have all : last.admitted = [] ++ attempts events :=
    admitted_eq_attempts (generatedKeys_empty empty) reached
  rw [all, List.nil_append]

end Limiter

def elevenAttempts : List (AcceptEvent Rat) :=
  (List.range 11).flatMap fun attempt =>
    [.check (ascii "10.0.0.7") 1700000000,
      .record 1700000000 ⟨1700000000, UInt32.ofNat attempt⟩]

def acceptedRun (events : List (AcceptEvent Rat)) : Option (AcceptLoop Rat) :=
  runFrom (acceptStep (fun _ => 0) 10)
    (AcceptLoop.start { documents := .empty, queryCache := none, docCache := none }) events

/-- The eleventh connection is admitted like the others. -/
theorem elevenAttempts_exceed :
    ∃ last, acceptedRun elevenAttempts = some last ∧ ¬ WithinRate 10 last.admitted := by
  have goesOn : (acceptedRun elevenAttempts).isSome := by decide +kernel
  obtain ⟨last, reached⟩ := Option.isSome_iff_exists.mp goesOn
  refine ⟨last, reached, fun within => ?_⟩
  have all : last.admitted = [] ++ attempts elevenAttempts :=
    admitted_eq_attempts (generatedKeys_empty rfl) reached
  have eleven : (attempts elevenAttempts).count (ascii "10.0.0.7", 1700000000) = 11 := by
    decide +kernel
  have counted := within (ascii "10.0.0.7") 1700000000
  rw [all, List.nil_append, eleven] at counted
  exact absurd counted (by decide)

/-- The first ten of them. -/
theorem withinRate_admitted_iff_ten :
    ∃ last, acceptedRun (elevenAttempts.take 20) = some last ∧
      (WithinRate 10 last.admitted ↔ WithinRate 10 (attempts (elevenAttempts.take 20))) := by
  have goesOn : (acceptedRun (elevenAttempts.take 20)).isSome := by decide +kernel
  obtain ⟨last, reached⟩ := Option.isSome_iff_exists.mp goesOn
  exact ⟨last, reached, withinRate_admitted_iff rfl reached⟩

end Jdbx
