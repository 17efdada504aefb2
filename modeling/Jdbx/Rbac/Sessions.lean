import Jdbx.Database.UnifiedDocuments
import Jdbx.Library.GuardedRun

/-!
# Sessions under many threads

`rbac_sessions.c`.  Sessions are documents of the unified collection: created
active, found by their token, stamped when they are validated, and invalidated
by clearing `active`.

`storage_update_document` reads, merges and writes under `coll->lock`, but
`get_or_create_collection` gets `coll` from `skiplist_search`, which returns a
copy: every call locks a lock of its own, and the lock keeps nobody out.  So a
query, the read of an update and its write are steps of their own.
-/

namespace Jdbx

open Library

/-- `strftime` of `gmtime`, in the format `%Y-%m-%dT%H:%M:%SZ`. -/
abbrev Calendar :=
  Int64 → Bytes

variable {δ : Type}

/-- `if (text) json_object_set(doc, key, json_create_string(text))`. -/
def setOptionalString (doc : JsonValue δ) (key : Bytes) (text : Option Bytes) : JsonValue δ :=
  match text with
  | some text => jsonObjectSet doc key (.string text)
  | none => doc

/-- What `rbac_db_create_session` is called with. -/
structure SessionRequest where
  userId : Bytes
  token : Bytes
  expiresAt : Int64
  ipAddress : Option Bytes
  userAgent : Option Bytes

/-- The document that `rbac_db_create_session` builds. -/
def sessionDocument (calendar : Calendar) (now : Int64) (request : SessionRequest)
    (username : Option Bytes) : JsonValue δ :=
  let doc : JsonValue δ :=
    .object [(ascii "type", .string (ascii "session")), (ascii "library", .string (ascii "system")),
      (ascii "collection", .string (ascii "sessions")), (ascii "owner", .string (ascii "system")),
      (ascii "user_id", .string request.userId), (ascii "token", .string request.token)]
  let doc := setOptionalString doc (ascii "username") username
  let doc := jsonObjectSet doc (ascii "created_at") (.string (calendar now))
  let doc := jsonObjectSet doc (ascii "last_seen") (.string (calendar now))
  let doc := jsonObjectSet doc (ascii "expires_at") (.string (calendar request.expiresAt))
  let doc := setOptionalString doc (ascii "ip_address") request.ipAddress
  let doc := setOptionalString doc (ascii "user_agent") request.userAgent
  jsonObjectSet doc (ascii "active") (.boolean true)

def tokenQuery (token : Bytes) : JsonValue δ :=
  .object [(ascii "token", .string token), (ascii "active", .boolean true)]

def sessionId (session : JsonValue δ) : Option Bytes :=
  jsonGetString (jsonObjectGet session (ascii "uuid"))

/-! ## Threads -/

inductive SessionCall where
  | createSession (request : SessionRequest)
  | validateSession (token : Bytes)
  | invalidateSession (sessionId : Bytes)
  | invalidateSessionsByToken (token : Bytes)

/-- What has happened to sessions: one was stored, one was invalidated with
success, or a call of `rbac_db_validate_session` returned a user id.  `asked` is
how much had happened when the call queried the store. -/
inductive SessionEvent where
  | created (uuid token userId : Bytes)
  | invalidated (uuid : Bytes)
  | validated (asked : Nat) (token userId : Bytes) (session : Option Bytes)
  deriving DecidableEq

/-- Why `virtual_update` is called: for `last_seen`, with what the call will
return, or to invalidate, with the sessions still to come. -/
inductive SessionUpdate where
  | lastSeen (asked : Nat) (token userId uuid : Bytes)
  | invalidation (uuid : Bytes) (others : List Bytes)

def SessionUpdate.uuid : SessionUpdate → Bytes
  | lastSeen _ _ _ uuid | invalidation uuid _ => uuid

def SessionUpdate.fields (calendar : Calendar) (now : Int64) : SessionUpdate → JsonValue δ
  | lastSeen _ _ _ _ => .object [(ascii "last_seen", .string (calendar now))]
  | invalidation _ _ =>
      .object [(ascii "active", .boolean false),
        (ascii "invalidated_at", .string (calendar now))]

/-- Where a thread stands.  `since` is how much had happened when the update
read its document, and `text` what it is going to write. -/
inductive SessionPhase where
  | idle
  | lookUser (request : SessionRequest)
  | insert (request : SessionRequest) (username : Option Bytes)
  | find (token : Bytes)
  | findAll (token : Bytes)
  | read (update : SessionUpdate)
  | write (update : SessionUpdate) (text : Bytes) (since : Nat)

structure SessionState (δ : Type) where
  db : Database δ
  threads : Nat → SessionPhase
  past : List SessionEvent

/-- A thread calls a function, or goes on to its next access of the store, where
`granted` says that no memory is refused. -/
inductive SessionStep where
  | call (thread : Nat) (call : SessionCall)
  | goOn (thread : Nat) (moment : Moment) (granted : Bool)

def SessionState.start (documents : DocumentList) : SessionState δ where
  db := { documents, queryCache := none, docCache := none }
  threads := fun _ => .idle
  past := []

def SessionCall.phase : SessionCall → SessionPhase
  | createSession request => .lookUser request
  | validateSession token => .find token
  | invalidateSession sessionId => .read (.invalidation sessionId [])
  | invalidateSessionsByToken token => .findAll token

/-- The loop of `rbac_db_invalidate_sessions_by_token`, and its end. -/
def invalidateNext : List Bytes → SessionPhase
  | [] => .idle
  | uuid :: others => .read (.invalidation uuid others)

namespace SessionUpdate

/-- Where the thread goes behind `virtual_update`. -/
def next : SessionUpdate → SessionPhase
  | lastSeen _ _ _ _ => .idle
  | invalidation _ others => invalidateNext others

/-- What has happened with the update.  `rbac_db_validate_session` does not look
at its result. -/
def happened (updated : Bool) : SessionUpdate → List SessionEvent
  | lastSeen asked token userId uuid => [.validated asked token userId (some uuid)]
  | invalidation uuid _ => if updated then [.invalidated uuid] else []

end SessionUpdate

namespace SessionState

variable (state : SessionState δ)

def advance (thread : Nat) (phase : SessionPhase) (events : List SessionEvent) : SessionState δ :=
  { state with
    threads := Function.update state.threads thread phase
    past := state.past ++ events }

variable [CDouble δ]

/-- The `documents` of a `virtual_query`. -/
def foundDocuments (type collection : Bytes) (filters : JsonValue δ) : List (JsonValue δ) :=
  match jsonObjectGet
      (virtualQuery state.db type (ascii "system") (some collection) filters)
      (ascii "documents") with
  | some (.array documents) => documents
  | _ => []

def foundSessions (token : Bytes) : List (JsonValue δ) :=
  state.foundDocuments (ascii "session") (ascii "sessions") (tokenQuery token)

/-- The `username` of the first user with the id. -/
def lookupUsername (userId : Bytes) : Option Bytes :=
  match state.foundDocuments (ascii "user") (ascii "users")
      (.object [(ascii "uuid", .string userId)]) with
  | userDoc :: _ => jsonGetString (jsonObjectGet userDoc (ascii "username"))
  | [] => none

/-- `virtual_insert` of a session. -/
def insertSession (calendar : Calendar) (moment : Moment) (thread : Nat)
    (request : SessionRequest) (username : Option Bytes) : SessionState δ :=
  let uuid := documentUuid moment
  let inserted := virtualInsert moment state.db (ascii "session") (ascii "system")
    (some (ascii "sessions")) (sessionDocument calendar moment.now request username)
    (ascii "system")
  let stored := (skiplistSearch state.db.documents uuid).isNone
  { state.advance thread .idle
      (if stored then [.created uuid request.token request.userId] else []) with
    db := inserted.2 }

/-- The query of `rbac_db_validate_session`. -/
def findSession (thread : Nat) (token : Bytes) (granted : Bool) : SessionState δ :=
  match state.foundSessions token with
  | [] => state.advance thread .idle []
  | session :: _ =>
      match jsonObjectGet session (ascii "user_id"), granted with
      | some (.string userId), true =>
          match sessionId session with
          | some uuid =>
              state.advance thread (.read (.lastSeen state.past.length token userId uuid)) []
          | none => state.advance thread .idle [.validated state.past.length token userId none]
      | _, _ => state.advance thread .idle []

/-- `virtual_update` up to the merged text. -/
def readForUpdate (calendar : Calendar) (moment : Moment) (thread : Nat)
    (update : SessionUpdate) (granted : Bool) : SessionState δ :=
  match storageGetDocument state.db update.uuid, granted with
  | some existingDoc, true =>
      let document := jsonObjectSet (jsonDeepCopy (update.fields calendar moment.now))
        (ascii "updated_at") (.integer moment.now)
      state.advance thread
        (.write update (jsonStringify (updatedDocument moment document existingDoc))
          state.past.length) []
  | _, _ => state.advance thread update.next (update.happened false)

/-- The end of `virtual_update`. -/
def writeUpdate (thread : Nat) (update : SessionUpdate) (text : Bytes) : SessionState δ :=
  { state.advance thread update.next (update.happened true) with
    db := { state.db with documents := replaceDocument state.db.documents update.uuid text } }

/-- One step of one thread. -/
def step (calendar : Calendar) : SessionStep → Option (SessionState δ)
  | .call thread call =>
      match state.threads thread with
      | .idle => some (state.advance thread call.phase [])
      | _ => none
  | .goOn thread moment granted =>
      match state.threads thread with
      | .idle => none
      | .lookUser request =>
          let username :=
            if granted then state.lookupUsername request.userId else some (ascii "admin")
          some (state.advance thread (.insert request username) [])
      | .insert request username =>
          if granted then some (state.insertSession calendar moment thread request username)
          else some (state.advance thread .idle [])
      | .find token => some (state.findSession thread token granted)
      | .findAll token =>
          let sessions := if granted then state.foundSessions token else []
          some (state.advance thread (invalidateNext (sessions.filterMap sessionId)) [])
      | .read update => some (state.readForUpdate calendar moment thread update granted)
      | .write update text _ => some (state.writeUpdate thread update text)

end SessionState

end Jdbx
