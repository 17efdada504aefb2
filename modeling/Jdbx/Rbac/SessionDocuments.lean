import Jdbx.Rbac.Sessions
import Jdbx.Utils.JsonReread

/-!
# Session documents

What the store says about sessions: which call created a document, what its
fields are however often it has been read and written, and whether it is active.
-/

namespace Jdbx

open Library

variable {δ : Type}

/-! ## Fields of written documents -/

theorem getEntry_escapeEntries {key : Bytes} (plain : Plain key)
    (entries : List (Bytes × JsonValue δ)) :
    getEntry key (escapeEntries entries) = (getEntry key entries).map escapeValue := by
  have unchanged := (escapeText_eq_self_iff key).mpr plain
  induction entries with
  | nil => rfl
  | cons entry entries ih =>
      obtain ⟨other, value⟩ := entry
      have same : escapeText other = key ↔ other = key := by
        constructor
        · intro equal
          exact escapeText_injective (equal.trans unchanged.symm)
        · rintro rfl
          exact unchanged
      simp only [escapeEntries, getEntry, same]
      split_ifs
      · rfl
      · exact ih

theorem jsonObjectGet_escapeValue {key : Bytes} (plain : Plain key) (value : JsonValue δ) :
    jsonObjectGet (escapeValue value) key = (jsonObjectGet value key).map escapeValue := by
  cases value with
  | object entries => exact getEntry_escapeEntries plain entries
  | null | boolean _ | number _ | integer _ | string _ | array _ => rfl

theorem escapeValue_eq_string {value : JsonValue δ} {text : Bytes} (plain : Plain text)
    (escaped : escapeValue value = .string text) : value = .string text := by
  cases value with
  | string held =>
      rw [escapeValue, JsonValue.string.injEq] at escaped
      rw [escapeText_injective (escaped.trans ((escapeText_eq_self_iff text).mpr plain).symm)]
  | null | boolean _ | number _ | integer _ | array _ | object _ => cases escaped

theorem numberFree_escapeValue : ∀ {depth : Nat} {value : JsonValue δ}, Copyable depth value →
    NumberFree value → NumberFree (escapeValue value) := by
  intro depth
  induction depth with
  | zero =>
      intro value copyable
      exact copyable.elim
  | succ depth ih =>
      intro value copyable numberFree
      cases value with
      | array items =>
          rw [escapeValue, escapeItems_eq_map]
          apply numberFreeItems_iff.mpr
          intro item member
          obtain ⟨inner, inside, rfl⟩ := List.mem_map.mp member
          exact ih (copyable inner inside)
            (numberFreeItems_iff.mp numberFree inner inside)
      | object entries =>
          rw [escapeValue, escapeEntries_eq_map]
          apply numberFreeEntries_iff.mpr
          intro entry member
          obtain ⟨inner, inside, rfl⟩ := List.mem_map.mp member
          exact ih (copyable.2 inner inside)
            (numberFreeEntries_iff.mp numberFree inner inside)
      | number number => exact numberFree.elim
      | null | boolean _ | integer _ | string _ => trivial

/-- A value that `json_deep_copy` copies and that holds no `JSON_NUMBER`. -/
structure IsDocument (value : JsonValue δ) : Prop where
  copyable : Copyable (maxJsonRecursionDepth + 1) value
  numberFree : NumberFree value

def IsObject (value : JsonValue δ) : Prop :=
  ∃ entries, value = .object entries

def IsScalar : JsonValue δ → Prop
  | .boolean _ | .integer _ | .string _ => True
  | _ => False

section Documents

variable {value scalar : JsonValue δ}

theorem IsScalar.copyable (isScalar : IsScalar scalar) (levels : Nat) :
    Copyable (levels + 1) scalar := by
  cases scalar <;> trivial

theorem IsObject.set (isObject : IsObject value) (key : Bytes) (scalar : JsonValue δ) :
    IsObject (jsonObjectSet value key scalar) := by
  obtain ⟨entries, rfl⟩ := isObject
  exact ⟨_, rfl⟩

theorem IsObject.get_set_self (isObject : IsObject value) (key : Bytes) (scalar : JsonValue δ) :
    jsonObjectGet (jsonObjectSet value key scalar) key = some scalar := by
  obtain ⟨entries, rfl⟩ := isObject
  exact jsonObjectGet_set_self entries key scalar

theorem IsDocument.deepCopy (isDocument : IsDocument value) : jsonDeepCopy value = value :=
  jsonDeepCopy_eq_self (by decide) isDocument.copyable

theorem IsDocument.set (isDocument : IsDocument value) (key : Bytes)
    (isScalar : IsScalar scalar) : IsDocument (jsonObjectSet value key scalar) := by
  refine ⟨isDocument.copyable.set (isScalar.copyable _) key, ?_⟩
  cases value with
  | object entries =>
      apply numberFreeEntries_iff.mpr
      intro entry member
      rcases mem_setEntry member with rfl | old
      · cases scalar <;> trivial
      · exact numberFreeEntries_iff.mp isDocument.numberFree entry old
  | null | boolean _ | number _ | integer _ | string _ | array _ => exact isDocument.numberFree

theorem isDocument_object {entries : List (Bytes × JsonValue δ)}
    (distinct : (entryKeys entries).Nodup) (scalars : ∀ entry ∈ entries, IsScalar entry.2) :
    IsDocument (.object entries) := by
  refine ⟨⟨distinct, fun entry member => (scalars entry member).copyable _⟩,
    numberFreeEntries_iff.mpr fun entry member => ?_⟩
  have isScalar := scalars entry member
  cases scalar : entry.2 <;> rw [scalar] at isScalar <;> trivial

theorem mergeFields_induction (property : JsonValue δ → Prop) {copy : JsonValue δ → JsonValue δ}
    {isProtected : Bytes → Bool} {fields : List (Bytes × JsonValue δ)}
    (sets : ∀ object key value, property object → (key, value) ∈ fields →
      property (jsonObjectSet object key (copy value)))
    {existing : JsonValue δ} (holds : property existing) :
    property (mergeFields copy isProtected (.object fields) existing) := by
  rw [mergeFields]
  generalize entryKeys fields = keys
  induction keys generalizing existing with
  | nil => exact holds
  | cons key keys ih =>
      rw [List.foldl_cons]
      apply ih
      split_ifs
      · exact holds
      · split
        · rename_i found
          exact sets _ _ _ holds (mem_of_getEntry_eq_some found)
        · exact holds

end Documents

/-- The document under the uuid is no session, or one that some call created, as
its fields say; if it is dead it is not active. -/
structure SessionLaw (past : List SessionEvent) (dead : Prop) (uuid : Bytes)
    (value : JsonValue δ) : Prop where
  numberFree : NumberFree value
  session : jsonObjectGet value (ascii "type") = some (.string (ascii "session")) →
    ∃ token userId, .created uuid token userId ∈ past ∧
      Plain uuid ∧ Plain token ∧ Plain userId ∧
        jsonObjectGet value (ascii "uuid") = some (.string uuid) ∧
          jsonObjectGet value (ascii "token") = some (.string token) ∧
            jsonObjectGet value (ascii "user_id") = some (.string userId) ∧
              (dead → jsonObjectGet value (ascii "active") ≠ some (.boolean true))

section Laws

variable {past : List SessionEvent} {dead : Prop} {uuid : Bytes} {value : JsonValue δ}

theorem SessionLaw.mono {more : List SessionEvent} {other : Prop}
    (law : SessionLaw past dead uuid value) (subset : past ⊆ more) (fewer : other → dead) :
    SessionLaw more other uuid value := by
  refine ⟨law.numberFree, fun isSession => ?_⟩
  obtain ⟨token, userId, created, plainUuid, plainToken, plainUser, ownUuid, ownToken, user,
    active⟩ := law.session isSession
  exact ⟨token, userId, subset created, plainUuid, plainToken, plainUser, ownUuid, ownToken, user,
    fun isDead => active (fewer isDead)⟩

theorem SessionLaw.escaped (law : SessionLaw past dead uuid value)
    (isDocument : IsDocument value) : SessionLaw past dead uuid (escapeValue value) := by
  refine ⟨numberFree_escapeValue isDocument.copyable isDocument.numberFree, fun isSession => ?_⟩
  rw [jsonObjectGet_escapeValue (by decide)] at isSession
  obtain ⟨held, type, escaped⟩ := Option.map_eq_some_iff.mp isSession
  rw [escapeValue_eq_string (by decide) escaped] at type
  obtain ⟨token, userId, created, plainUuid, plainToken, plainUser, ownUuid, ownToken, user,
    active⟩ := law.session type
  have kept : ∀ {key text : Bytes}, Plain key → Plain text →
      jsonObjectGet value key = some (.string text) →
        jsonObjectGet (escapeValue value) key = some (.string text) := by
    intro key text plainKey plainText holds
    rw [jsonObjectGet_escapeValue plainKey, holds, Option.map_some, escapeValue,
      (escapeText_eq_self_iff text).mpr plainText]
  refine ⟨token, userId, created, plainUuid, plainToken, plainUser,
    kept (by decide) plainUuid ownUuid, kept (by decide) plainToken ownToken,
    kept (by decide) plainUser user, fun isDead isActive => active isDead ?_⟩
  rw [jsonObjectGet_escapeValue (by decide)] at isActive
  obtain ⟨flag, holds, escapedFlag⟩ := Option.map_eq_some_iff.mp isActive
  rw [holds]
  cases flag with
  | boolean boolean => exact congrArg some escapedFlag
  | null | number _ | integer _ | string _ | array _ | object _ => cases escapedFlag

variable [CDouble δ]

def TextLaw (δ : Type) [CDouble δ] (past : List SessionEvent) (dead : Prop)
    (uuid text : Bytes) : Prop :=
  ∀ value : JsonValue δ, jsonParse text = some value → SessionLaw past dead uuid value

theorem TextLaw.mono {text : Bytes} {more : List SessionEvent} {other : Prop}
    (law : TextLaw δ past dead uuid text) (subset : past ⊆ more) (fewer : other → dead) :
    TextLaw δ more other uuid text :=
  fun value read => (law value read).mono subset fewer

theorem SessionLaw.written (law : SessionLaw past dead uuid value)
    (isDocument : IsDocument value) : TextLaw δ past dead uuid (jsonStringify value) := by
  intro parsed read
  rw [jsonParse_jsonStringify_escaped isDocument.copyable isDocument.numberFree read]
  exact law.escaped isDocument

end Laws

/-! ## What an update writes -/

section Updates

variable {calendar : Calendar} {moment : Moment} {update : SessionUpdate}
  {existing : JsonValue δ}

/-- The entries of the merged document. -/
def SessionUpdate.entries (calendar : Calendar) (now : Int64) (update : SessionUpdate) :
    List (Bytes × JsonValue δ) :=
  match update with
  | lastSeen _ _ _ _ =>
      [(ascii "last_seen", .string (calendar now)), (ascii "updated_at", .integer now)]
  | invalidation _ _ =>
      [(ascii "active", .boolean false), (ascii "invalidated_at", .string (calendar now)),
        (ascii "updated_at", .integer now)]

theorem SessionUpdate.fields_document (update : SessionUpdate) (calendar : Calendar)
    (now : Int64) :
    jsonObjectSet (jsonDeepCopy (update.fields calendar now : JsonValue δ)) (ascii "updated_at")
      (.integer now) = .object (update.entries calendar now) := by
  have isDocument : IsDocument (update.fields calendar now : JsonValue δ) := by
    cases update with
    | lastSeen => exact isDocument_object (List.nodup_singleton _) (by simp [IsScalar])
    | invalidation =>
        have distinct : [ascii "active", ascii "invalidated_at"].Nodup := by decide
        exact isDocument_object distinct (by simp [IsScalar])
  rw [isDocument.deepCopy]
  cases update with
  | lastSeen =>
      have fresh : ascii "updated_at" ∉ [ascii "last_seen"] := by decide
      exact congrArg JsonValue.object (setEntry_of_not_mem fresh _)
  | invalidation =>
      have fresh : ascii "updated_at" ∉ [ascii "active", ascii "invalidated_at"] := by decide
      exact congrArg JsonValue.object (setEntry_of_not_mem fresh _)

theorem SessionUpdate.entries_scalar (update : SessionUpdate) (calendar : Calendar)
    (now : Int64) : ∀ entry ∈ (update.entries calendar now : List (Bytes × JsonValue δ)),
      IsScalar entry.2 := by
  cases update <;> simp [entries, IsScalar]

theorem IsDocument.updated (isDocument : IsDocument existing) (calendar : Calendar)
    (moment : Moment) (update : SessionUpdate) :
    IsDocument (updatedDocument moment (.object (update.entries calendar moment.now)) existing) := by
  rw [updatedDocument, isDocument.deepCopy]
  refine IsDocument.set (mergeFields_induction IsDocument ?_ isDocument) _ trivial
  intro object key value holds member
  have isScalar := update.entries_scalar calendar moment.now _ member
  rw [jsonClone_eq_self_of_copyable (isScalar.copyable 0)]
  exact holds.set key isScalar

theorem updatedDocument_get_of_ne (isDocument : IsDocument existing)
    {entries : List (Bytes × JsonValue δ)} {key : Bytes} (absent : key ∉ entryKeys entries)
    (different : key ≠ ascii "modified_at") :
    jsonObjectGet (updatedDocument moment (.object entries) existing) key =
      jsonObjectGet existing key := by
  rw [updatedDocument, isDocument.deepCopy, jsonObjectGet_set_of_ne _ different]
  refine mergeFields_induction
    (fun merged => jsonObjectGet merged key = jsonObjectGet existing key) ?_ rfl
  intro object other value holds member
  have named : key ≠ other := by
    rintro rfl
    exact absent (List.mem_map_of_mem member)
  rw [jsonObjectGet_set_of_ne _ named, holds]

theorem invalidated_not_active (isDocument : IsDocument existing) (isObject : IsObject existing)
    (uuid : Bytes) (others : List Bytes) :
    jsonObjectGet (updatedDocument moment
      (.object ((SessionUpdate.invalidation uuid others).entries calendar moment.now)) existing)
        (ascii "active") = some (.boolean false) := by
  obtain ⟨entries, rfl⟩ := isObject
  rw [updatedDocument, isDocument.deepCopy, jsonObjectGet_set_of_ne _ (by decide)]
  obtain ⟨merged, layout, fields⟩ := mergeFields_object (δ := δ) jsonClone (fun _ => false)
    ((SessionUpdate.invalidation uuid others).entries calendar moment.now) entries
  rw [layout]
  exact fields (ascii "active")

def SessionUpdate.deadAfter (dead : Prop) : SessionUpdate → Prop
  | lastSeen _ _ _ _ => dead
  | invalidation _ _ => True

theorem SessionLaw.updated {past : List SessionEvent} {dead : Prop} {uuid : Bytes}
    (law : SessionLaw past dead uuid existing) (isDocument : IsDocument existing)
    (calendar : Calendar) (moment : Moment) (update : SessionUpdate) :
    SessionLaw past (update.deadAfter dead) uuid
      (updatedDocument moment (.object (update.entries calendar moment.now)) existing) := by
  refine ⟨(isDocument.updated calendar moment update).numberFree, fun isSession => ?_⟩
  have named : entryKeys (update.entries calendar moment.now : List (Bytes × JsonValue δ)) ⊆
      [ascii "active", ascii "invalidated_at", ascii "last_seen", ascii "updated_at"] := by
    cases update with
    | lastSeen =>
        have inside : [ascii "last_seen", ascii "updated_at"] ⊆
            [ascii "active", ascii "invalidated_at", ascii "last_seen", ascii "updated_at"] := by
          decide
        exact inside
    | invalidation =>
        have inside : [ascii "active", ascii "invalidated_at", ascii "updated_at"] ⊆
            [ascii "active", ascii "invalidated_at", ascii "last_seen", ascii "updated_at"] := by
          decide
        exact inside
  have kept : ∀ key, key ∉
      [ascii "active", ascii "invalidated_at", ascii "last_seen", ascii "updated_at"] →
        key ≠ ascii "modified_at" →
          jsonObjectGet (updatedDocument moment
            (.object (update.entries calendar moment.now)) existing) key =
              jsonObjectGet existing key :=
    fun key absent different =>
      updatedDocument_get_of_ne isDocument (fun member => absent (named member)) different
  rw [kept _ (by decide) (by decide)] at isSession
  obtain ⟨token, userId, created, plainUuid, plainToken, plainUser, ownUuid, ownToken, user,
    active⟩ := law.session isSession
  refine ⟨token, userId, created, plainUuid, plainToken, plainUser,
    (kept _ (by decide) (by decide)).trans ownUuid, (kept _ (by decide) (by decide)).trans ownToken,
    (kept _ (by decide) (by decide)).trans user, fun isDead => ?_⟩
  cases update with
  | lastSeen asked seenToken seenUser seenUuid =>
      have absent : ascii "active" ∉ [ascii "last_seen", ascii "updated_at"] := by decide
      rw [updatedDocument_get_of_ne isDocument absent (by decide)]
      exact active isDead
  | invalidation target others =>
      have isObject : IsObject existing := by
        cases existing with
        | object entries => exact ⟨entries, rfl⟩
        | null | boolean _ | number _ | integer _ | string _ | array _ => cases isSession
      rw [invalidated_not_active isDocument isObject]
      simp

theorem TextLaw.updated [CDouble δ] {past : List SessionEvent} {dead : Prop} {uuid text : Bytes}
    (law : TextLaw δ past dead uuid text) (read : jsonParse text = some existing)
    (calendar : Calendar) (moment : Moment) (update : SessionUpdate) :
    TextLaw δ past (update.deadAfter dead) uuid (jsonStringify (updatedDocument moment
      (.object (update.entries calendar moment.now)) existing)) := by
  have held := law existing read
  have isDocument : IsDocument existing := ⟨jsonParse_copyable read, held.numberFree⟩
  exact (held.updated isDocument calendar moment update).written
    (isDocument.updated calendar moment update)

end Updates

section Creation

variable {value : JsonValue δ} {request : SessionRequest}

/-- The fields of a new session that the law is about. -/
structure IsNewSession (request : SessionRequest) (value : JsonValue δ) : Prop where
  isDocument : IsDocument value
  isObject : IsObject value
  token : jsonObjectGet value (ascii "token") = some (.string request.token)
  user : jsonObjectGet value (ascii "user_id") = some (.string request.userId)

theorem IsNewSession.set (isNew : IsNewSession request value) {key : Bytes} {scalar : JsonValue δ}
    (isScalar : IsScalar scalar) (notToken : ascii "token" ≠ key)
    (notUser : ascii "user_id" ≠ key) :
    IsNewSession request (jsonObjectSet value key scalar) where
  isDocument := isNew.isDocument.set key isScalar
  isObject := isNew.isObject.set key scalar
  token := by rw [jsonObjectGet_set_of_ne _ notToken, isNew.token]
  user := by rw [jsonObjectGet_set_of_ne _ notUser, isNew.user]

theorem IsNewSession.setOptional (isNew : IsNewSession request value) {key : Bytes}
    (text : Option Bytes) (notToken : ascii "token" ≠ key) (notUser : ascii "user_id" ≠ key) :
    IsNewSession request (setOptionalString value key text) := by
  cases text with
  | none => exact isNew
  | some text => exact isNew.set trivial notToken notUser

theorem sessionDocument_isNew (calendar : Calendar) (now : Int64) (request : SessionRequest)
    (username : Option Bytes) :
    IsNewSession request (sessionDocument calendar now request username : JsonValue δ) := by
  have first : IsNewSession request (.object
      [(ascii "type", .string (ascii "session")), (ascii "library", .string (ascii "system")),
        (ascii "collection", .string (ascii "sessions")),
        (ascii "owner", .string (ascii "system")), (ascii "user_id", .string request.userId),
        (ascii "token", .string request.token)] : JsonValue δ) := by
    have distinct : [ascii "type", ascii "library", ascii "collection", ascii "owner",
        ascii "user_id", ascii "token"].Nodup := by
      decide
    exact ⟨isDocument_object distinct (by simp [IsScalar]), ⟨_, rfl⟩, rfl, rfl⟩
  have isText : ∀ text : Bytes, IsScalar (.string text : JsonValue δ) := fun _ => trivial
  have named := first.setOptional username
    (show ascii "token" ≠ ascii "username" by decide) (by decide)
  have created := named.set (isText (calendar now))
    (show ascii "token" ≠ ascii "created_at" by decide) (by decide)
  have seen := created.set (isText (calendar now))
    (show ascii "token" ≠ ascii "last_seen" by decide) (by decide)
  have expires := seen.set (isText (calendar request.expiresAt))
    (show ascii "token" ≠ ascii "expires_at" by decide) (by decide)
  have address := expires.setOptional request.ipAddress
    (show ascii "token" ≠ ascii "ip_address" by decide) (by decide)
  have agent := address.setOptional request.userAgent
    (show ascii "token" ≠ ascii "user_agent" by decide) (by decide)
  exact agent.set (show IsScalar (.boolean true : JsonValue δ) from trivial)
    (show ascii "token" ≠ ascii "active" by decide) (by decide)

theorem storageInsertDocument_stores [CDouble δ] (isNew : IsNewSession request value)
    (moment : Moment) (db : Database δ) :
    ∃ stored : JsonValue δ, IsNewSession request stored ∧
      jsonObjectGet stored (ascii "uuid") = some (.string (documentUuid moment)) ∧
        (storageInsertDocument moment db value).2.documents =
          skiplistInsert db.documents (documentUuid moment) (jsonStringify stored) := by
  have isText : ∀ text : Bytes, IsScalar (.string text : JsonValue δ) := fun _ => trivial
  have withUuid := isNew.set (isText (documentUuid moment))
    (show ascii "token" ≠ ascii "uuid" by decide) (by decide)
  have ownUuid : jsonObjectGet
      (jsonObjectSet value (ascii "uuid") (.string (documentUuid moment))) (ascii "uuid") =
        some (.string (documentUuid moment)) :=
    isNew.isObject.get_set_self _ _
  have isNumber : IsScalar (.integer moment.now : JsonValue δ) := trivial
  cases held : jsonObjectGet
      (jsonObjectSet value (ascii "uuid") (.string (documentUuid moment)))
        (ascii "created_at") with
  | some createdAt =>
      refine ⟨_, withUuid.set isNumber (show ascii "token" ≠ ascii "modified_at" by decide)
        (by decide), ?_, ?_⟩
      · rw [jsonObjectGet_set_of_ne _ (by decide), ownUuid]
      · simp only [storageInsertDocument, isNew.isDocument.deepCopy, held]
  | none =>
      have isCreated := withUuid.set isNumber
        (show ascii "token" ≠ ascii "created_at" by decide) (by decide)
      refine ⟨_, isCreated.set isNumber (show ascii "token" ≠ ascii "modified_at" by decide)
        (by decide), ?_, ?_⟩
      · rw [jsonObjectGet_set_of_ne _ (by decide), jsonObjectGet_set_of_ne _ (by decide), ownUuid]
      · simp only [storageInsertDocument, isNew.isDocument.deepCopy, held]

theorem virtualInsert_stores [CDouble δ] (isNew : IsNewSession request value) (moment : Moment)
    (db : Database δ) (type library collection owner : Bytes) :
    ∃ stored : JsonValue δ, IsNewSession request stored ∧
      jsonObjectGet stored (ascii "uuid") = some (.string (documentUuid moment)) ∧
        (virtualInsert moment db type library (some collection) value owner).2.documents =
          skiplistInsert db.documents (documentUuid moment) (jsonStringify stored) := by
  have isText : ∀ text : Bytes, IsScalar (.string text : JsonValue δ) := fun _ => trivial
  have typed := isNew.set (isText type) (show ascii "token" ≠ ascii "type" by decide) (by decide)
  have placed := typed.set (isText library)
    (show ascii "token" ≠ ascii "library" by decide) (by decide)
  have collected := placed.set (isText collection)
    (show ascii "token" ≠ ascii "collection" by decide) (by decide)
  have owned := collected.set (isText owner)
    (show ascii "token" ≠ ascii "owner" by decide) (by decide)
  rw [virtualInsert, isNew.isDocument.deepCopy]
  exact storageInsertDocument_stores owned moment db

theorem documentUuid_plain (moment : Moment) : Plain (documentUuid moment) := by
  have plainDigit : ∀ byte : UInt8, isdigit byte = true → isEscaped byte = false := by
    intro byte digit
    simp only [isdigit, Bool.and_eq_true, decide_eq_true_eq] at digit
    simp only [isEscaped]
    grind
  have fixed : Plain (ascii "doc-") ∧ Plain (ascii "-") := by decide
  intro byte member
  rw [documentUuid, List.mem_append, List.mem_append, List.mem_append] at member
  rcases member with ((first | time) | dash) | random
  · exact fixed.1 byte first
  · rcases mem_formatInt64 time with rfl | digit
    · rfl
    · exact plainDigit byte digit
  · exact fixed.2 byte dash
  · exact plainDigit byte (decimal_isdigit _ byte random)

theorem IsNewSession.law [CDouble δ] {stored : JsonValue δ} (isNew : IsNewSession request stored)
    {past : List SessionEvent} {dead : Prop} {moment : Moment}
    (plain : Plain request.userId ∧ Plain request.token)
    (ownUuid : jsonObjectGet stored (ascii "uuid") = some (.string (documentUuid moment)))
    (created : .created (documentUuid moment) request.token request.userId ∈ past)
    (alive : ¬ dead) :
    TextLaw δ past dead (documentUuid moment) (jsonStringify stored) := by
  refine SessionLaw.written ⟨isNew.isDocument.numberFree, fun _ => ?_⟩ isNew.isDocument
  exact ⟨request.token, request.userId, created, documentUuid_plain moment, plain.2, plain.1,
    ownUuid, isNew.token, isNew.user, fun isDead => absurd isDead alive⟩

end Creation

theorem foundSessions_spec [CDouble δ] {state : SessionState δ} {token : Bytes}
    {session : JsonValue δ} (found : session ∈ state.foundSessions token) :
    ∃ uuid text, skiplistSearch state.db.documents uuid = some text ∧
      jsonParse text = some session ∧
        jsonObjectGet session (ascii "type") = some (.string (ascii "session")) ∧
          jsonObjectGet session (ascii "token") = some (.string token) ∧
            jsonObjectGet session (ascii "active") = some (.boolean true) := by
  let query : JsonValue δ :=
    .object [(ascii "type", .string (ascii "session")), (ascii "library", .string (ascii "system")),
      (ascii "collection", .string (ascii "sessions")), (ascii "token", .string token),
      (ascii "active", .boolean true)]
  have asks : virtualQuery state.db (ascii "session") (ascii "system") (some (ascii "sessions"))
      (tokenQuery token) = storageQueryDocuments state.db query := rfl
  have inMatches : session ∈ storageMatches query state.db.documents.entries := by
    rw [SessionState.foundSessions, SessionState.foundDocuments, asks] at found
    exact found
  obtain ⟨⟨uuid, text⟩, member, matched⟩ := List.mem_filterMap.mp inMatches
  dsimp only at matched
  split at matched
  · rename_i fields read
    split_ifs at matched with matchesAll
    have copyable := jsonParse_copyable read
    rw [jsonClone_eq_self_of_copyable copyable, Option.some.injEq] at matched
    subst matched
    have each : ∀ key ∈ [ascii "type", ascii "library", ascii "collection", ascii "token",
        ascii "active"], storageFieldMatches query (.object fields) key = true :=
      List.all_eq_true.mp matchesAll
    have text_of : ∀ {key wanted : Bytes}, jsonObjectGet query key = some (.string wanted) →
        storageFieldMatches query (.object fields) key = true →
          jsonObjectGet (.object fields) key = some (.string wanted) := by
      intro key wanted asked matchesKey
      rw [storageFieldMatches, asked] at matchesKey
      split at matchesKey <;> simp_all
    refine ⟨uuid, text, getEntry_eq_some_of_mem state.db.documents.distinct member, read,
      text_of rfl (each _ (by decide)), text_of rfl (each _ (by decide)), ?_⟩
    have active := each (ascii "active") (by decide)
    have asked : jsonObjectGet query (ascii "active") = some (.boolean true) := rfl
    rw [storageFieldMatches, asked] at active
    split at active <;> simp_all
  · cases matched

end Jdbx
