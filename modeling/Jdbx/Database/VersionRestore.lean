import Jdbx.Database.UpdateFrames
import Jdbx.Database.VersioningPolicy

/-!
# Restoring a version

`versioning_restore_version` looks the version up like a document of the unified collection,
makes a version of the current document and updates the document by the snapshot.  Here the
versions stand in the database itself, between all the other calls.
-/

namespace Jdbx

open Library

variable {δ : Type}

/-! ## Versions in the database -/

section Database

variable [CDouble δ]

/-- `versioning_policy_get_document`. -/
def VersionCall.policyIn (call : VersionCall δ) (db : Database δ) : VersioningPolicy :=
  let libraryPolicy :=
    match call.library with
    | some library =>
      overrideFromSettings defaultPolicy
        (virtualQuery db (ascii "library") (ascii "default") (some (ascii "libraries"))
          (.object [(ascii "name", .string library)]))
    | none => defaultPolicy
  let policy :=
    overrideFromSettings libraryPolicy
      (virtualQuery db (ascii "collection") (call.library.getD (ascii "default"))
        (some (ascii "collections")) (.object [(ascii "name", .string call.collection)]))
  match jsonObjectGet call.document (ascii "_versioning") with
  | some versioning => loadPolicyFromJson policy versioning
  | none => policy

/-- The document that a call makes a version of, where the policy asks for one. -/
def VersionCall.versionedIn (call : VersionCall δ) (db : Database δ) : Option DocumentName :=
  let policy := call.policyIn db
  if policy.enabled && !decide (ascii "versions" <:+: call.collection) &&
      !(call.operation == ascii "update" && !policy.versionOnUpdate) &&
      !(call.operation == ascii "delete" && !policy.versionOnDelete) then
    match jsonObjectGet call.document (ascii "uuid") with
    | some (.string docId) => some ⟨call.library, call.collection, docId⟩
    | _ => none
  else none

def deleteVersion (db : Database δ) (version : JsonValue δ) : Database δ :=
  match jsonObjectGet version (ascii "uuid") with
  | some (.string uuid) => (virtualDelete db uuid).2
  | _ => db

/-- The version is past the retention of the policy, and not to be archived. -/
def isExpired (timeFormat : TimeFormat) (now : Int64) (policy : VersioningPolicy)
    (version : JsonValue δ) : Bool :=
  match jsonObjectGet version (ascii "versioned_at") with
  | some (.string timestamp) =>
    match timeFormat.parse timestamp with
    | some versionTime =>
      versionTime < now - daySeconds policy.retentionDays &&
        !(policy.archiveOldVersions && policy.archiveAfterDays > 0 &&
          now - versionTime > daySeconds policy.archiveAfterDays)
    | none => false
  | _ => false

/-- The versions that `versioning_cleanup_old_versions` deletes. -/
def removedVersions (timeFormat : TimeFormat) (now : Int64) (policy : VersioningPolicy)
    (documents : List (JsonValue δ)) : List (JsonValue δ) :=
  let excess :=
    if policy.maxVersions > 0 && documents.length > policy.maxVersions.toInt.toNat &&
        !policy.archiveOldVersions then
      documents.drop policy.maxVersions.toInt.toNat
    else []
  let old :=
    if policy.retentionDays > 0 then documents.filter (isExpired timeFormat now policy) else []
  excess ++ old

/-- `versioning_cleanup_old_versions`. -/
def cleanupVersions (timeFormat : TimeFormat) (now : Int64) (db : Database δ)
    (name : DocumentName) (policy : VersioningPolicy) : Database δ :=
  let documents := foundDocuments
    (virtualQuery db (ascii "version") name.versionLibrary (some (ascii "versions"))
      (versionFilters name))
  (removedVersions timeFormat now policy documents).foldl deleteVersion db

/-- `versioning_create_version`, for its effect on the database. -/
def createVersionIn (timeFormat : TimeFormat) (moment : Moment) (db : Database δ)
    (call : VersionCall δ) : Database δ :=
  match call.versionedIn db with
  | some name =>
    let inserted := virtualInsert moment db (ascii "version") name.versionLibrary
      (some (ascii "versions"))
      (.object (versionEntries timeFormat moment.now name call.operation call.document))
      (ascii "system-admin")
    cleanupVersions timeFormat moment.now inserted.2 name (call.policyIn db)
  | none => db

/-- What a restoration works with: the snapshot, and the id and the current state of its
document. -/
structure FoundVersion (δ : Type) where
  snapshot : JsonValue δ
  docId : Bytes
  current : Option (JsonValue δ)

omit [CDouble δ] in
def versionSnapshot (versionDoc : JsonValue δ) : Option (JsonValue δ × Bytes) :=
  match jsonObjectGet versionDoc (ascii "snapshot"),
      jsonObjectGet versionDoc (ascii "document_id") with
  | some snapshot, some (.string docId) => some (snapshot, docId)
  | _, _ => none

/-- The lookups of `versioning_restore_version`, unless the process ends in one. -/
def findVersion (db : Database δ) (versionId : Bytes) :
    Option (Option (FoundVersion δ) × Database δ) :=
  (dbGetDocument db (ascii "default") (ascii "documents") versionId).bind
    fun (versionDoc, db) =>
      match versionDoc.bind versionSnapshot with
      | some (snapshot, docId) =>
        (dbGetDocument db (ascii "default") (ascii "documents") docId).map
          fun (current, db) => (some { snapshot, docId, current }, db)
      | none => some (none, db)

def FoundVersion.call (found : FoundVersion δ) (moment : Moment) (library : Option Bytes)
    (collection : Bytes) : Option (VersionCall δ) :=
  found.current.map fun document =>
    { now := moment.now, library, collection, document, operation := ascii "restore" }

def FoundVersion.versioned (timeFormat : TimeFormat) (moment : Moment) (db : Database δ)
    (library : Option Bytes) (collection : Bytes) (found : FoundVersion δ) : Database δ :=
  match found.call moment library collection with
  | some call => createVersionIn timeFormat moment db call
  | none => db

/-- The part of `versioning_restore_version` behind its lookups. -/
def FoundVersion.restore (timeFormat : TimeFormat) (moment : Moment) (db : Database δ)
    (library : Option Bytes) (collection : Bytes) (found : FoundVersion δ) : Int × Database δ :=
  let versioned := found.versioned timeFormat moment db library collection
  let updated := virtualUpdate moment versioned found.docId (jsonClone found.snapshot)
  (if updated.1.isSome then 0 else -1, updated.2)

/-- `versioning_restore_version`: what it returns and the database after it, unless the process
ends. -/
def versioningRestoreVersion (timeFormat : TimeFormat) (moment : Moment) (db : Database δ)
    (library : Option Bytes) (collection versionId : Bytes) : Option (Int × Database δ) :=
  (findVersion db versionId).map fun (found, db) =>
    match found with
    | some found => found.restore timeFormat moment db library collection
    | none => (-1, db)

end Database

/-- The calls of a run. -/
inductive VersionEvent (δ : Type) where
  | store (event : Moment × StoreCall δ)
  | createVersion (moment : Moment) (library : Option Bytes) (collection : Bytes)
      (document : JsonObject δ) (operation : Bytes)
  | restore (moment : Moment) (library : Option Bytes) (collection versionId : Bytes)

/-- The database, with the versions made so far: each with its uuid, the id of its document and
the document as it was. -/
structure VersionedDatabase (δ : Type) where
  db : Database δ
  snapshots : List (Bytes × Bytes × JsonValue δ)

section Runs

variable [CDouble δ]

def VersionCall.recorded (call : VersionCall δ) (moment : Moment) (db : Database δ) :
    List (Bytes × Bytes × JsonValue δ) :=
  (call.versionedIn db).toList.map fun name =>
    (documentUuid moment, name.documentId, call.document)

def restoreRecorded (moment : Moment) (library : Option Bytes) (collection versionId : Bytes)
    (db : Database δ) : List (Bytes × Bytes × JsonValue δ) :=
  match findVersion db versionId with
  | some (some found, db) =>
    (found.call moment library collection).toList.flatMap fun call => call.recorded moment db
  | _ => []

/-- One call. -/
def restoreStep (timeFormat : TimeFormat) (state : VersionedDatabase δ) :
    VersionEvent δ → Option (VersionedDatabase δ)
  | .store event => (storeStep state.db event).map fun db => { state with db }
  | .createVersion moment library collection document operation =>
    let call : VersionCall δ :=
      { now := moment.now, library, collection, document := document.value, operation }
    some
      { db := createVersionIn timeFormat moment state.db call
        snapshots := call.recorded moment state.db ++ state.snapshots }
  | .restore moment library collection versionId =>
    (versioningRestoreVersion timeFormat moment state.db library collection versionId).map
      fun (_, db) =>
        { db
          snapshots :=
            restoreRecorded moment library collection versionId state.db ++ state.snapshots }

def timestampFields : List Bytes :=
  [ascii "modified_at", ascii "updated_at"]

/-- A restoration that reports success leaves the document as it was in the version. -/
def RestoresRight (timeFormat : TimeFormat) (state : VersionedDatabase δ) :
    VersionEvent δ → Prop
  | .restore moment library collection versionId =>
    ∀ docId (snapshot : JsonObject δ), (versionId, docId, snapshot.value) ∈ state.snapshots →
      ∀ next,
        versioningRestoreVersion timeFormat moment state.db library collection versionId =
            some (0, next) →
          ∃ after, storageGetDocument next docId = some after ∧
            ∀ key ∉ timestampFields,
              SameField (jsonObjectGet after key) (jsonObjectGet snapshot.value key)
  | _ => True

/-- The condition on a restoration whose lookup finds the version: the version document still
has its snapshot, the version made before the update has not the uuid of the document, which has
no field that the snapshot has not, and the snapshot is read back, its keys unescaped and its
values equal. -/
def RestoresSteadily (state : VersionedDatabase δ) : VersionEvent δ → Prop
  | .restore moment library collection versionId =>
    ∀ docId (snapshot : JsonObject δ), (versionId, docId, snapshot.value) ∈ state.snapshots →
      ∀ found db, findVersion state.db versionId = some (some found, db) →
        found.docId = docId ∧ found.snapshot = snapshot.value ∧
          (∀ version ∈ restoreRecorded moment library collection versionId state.db,
            version.1 ≠ docId) ∧
          ∀ existing ∈ storageGetDocument state.db docId,
            ReadsBack (updatedDocument moment (virtualPatch moment snapshot.value) existing) ∧
            ∀ key ∉ timestampFields,
              (jsonObjectGet existing key ≠ none → jsonObjectGet snapshot.value key ≠ none) ∧
              ∀ value ∈ jsonObjectGet snapshot.value key, Plain key ∧ RereadsEqual value
  | _ => True

end Runs

section Frames

variable [CDouble δ] {db : Database δ} {uuid text : Bytes}

omit [CDouble δ] in
theorem deleteVersion_documents (db : Database δ) (version : JsonValue δ) :
    (deleteVersion db version).documents = db.documents ∨
      ∃ key, (deleteVersion db version).documents = skiplistDelete db.documents key := by
  rw [deleteVersion]
  split
  · rename_i key _
    rw [virtualDelete, storageDeleteDocument]
    split
    · exact .inl rfl
    · exact .inr ⟨key, rfl⟩
  · exact .inl rfl

omit [CDouble δ] in
theorem search_of_cleanup (versions : List (JsonValue δ))
    (found : skiplistSearch (versions.foldl deleteVersion db).documents uuid = some text) :
    skiplistSearch db.documents uuid = some text := by
  induction versions generalizing db with
  | nil => exact found
  | cons version versions ih =>
    have kept := ih found
    rcases deleteVersion_documents db version with same | ⟨key, deleted⟩
    · rwa [same] at kept
    · rw [deleted] at kept
      exact getEntry_eq_some_of_mem db.documents.distinct
        (mem_skiplistDelete (mem_of_getEntry_eq_some kept))

theorem search_of_createVersion {timeFormat : TimeFormat} {moment : Moment}
    {call : VersionCall δ} (other : ∀ version ∈ call.recorded moment db, version.1 ≠ uuid)
    (found : skiplistSearch (createVersionIn timeFormat moment db call).documents uuid =
      some text) : skiplistSearch db.documents uuid = some text := by
  rw [createVersionIn] at found
  cases versioned : call.versionedIn db with
  | none =>
    simp only [versioned] at found
    exact found
  | some name =>
    simp only [versioned] at found
    have different : documentUuid moment ≠ uuid :=
      other (documentUuid moment, name.documentId, call.document)
        (by rw [VersionCall.recorded, versioned]; exact List.mem_singleton.mpr rfl)
    exact (skiplistSearch_insert_of_ne different.symm).symm.trans (search_of_cleanup _ found)

end Frames

/-! ## Objects in the store -/

section Objects

variable [CDouble δ] {db next : Database δ}

omit [CDouble δ] in
theorem isJsonObject_deepCopy (entries : List (Bytes × JsonValue δ)) :
    IsJsonObject (jsonDeepCopy (.object entries)) := by
  have ⟨copied, layout, _⟩ := jsonDeepCopy_object entries
  exact ⟨copied, layout, _, jsonDeepCopyInternalSafe_copyable _ _⟩

omit [CDouble δ] in
theorem virtualInserted_isObject_of_entries (entries : List (Bytes × JsonValue δ))
    (type library : Bytes) (collection : Option Bytes) (owner : Bytes) :
    IsJsonObject (virtualInserted type library collection (.object entries) owner) :=
  ((((isJsonObject_deepCopy entries).set _ (distinctKeys_string type)).set _
    (distinctKeys_string library)).set _ (distinctKeys_string _)).set _ (distinctKeys_string owner)

theorem StoresObjects.congr (stores : StoresObjects db) (same : next.documents = db.documents) :
    StoresObjects next := by
  intro entry member
  rw [same] at member
  exact stores entry member

theorem virtualInsert_documents (moment : Moment) (db : Database δ) (type library : Bytes)
    (collection : Option Bytes) (document : JsonValue δ) (owner : Bytes) :
    (virtualInsert moment db type library collection document owner).2.documents =
      skiplistInsert db.documents (documentUuid moment) (jsonStringify
        (storageInserted moment (virtualInserted type library collection document owner))) :=
  rfl

theorem StoresObjects.of_documents (stores : StoresObjects db)
    (documents : ∀ entry ∈ next.documents.entries, entry ∈ db.documents.entries ∨
      ∃ document : JsonValue δ, IsJsonObject document ∧ entry.2 = jsonStringify document) :
    StoresObjects next := by
  intro entry member
  rcases documents entry member with old | ⟨document, isObject, text⟩
  · exact stores entry old
  · exact ⟨document, isObject, text, trivial⟩

theorem StoresObjects.deleteVersions (stores : StoresObjects db) (versions : List (JsonValue δ)) :
    StoresObjects (versions.foldl deleteVersion db) := by
  induction versions generalizing db with
  | nil => exact stores
  | cons version versions ih =>
    refine ih (stores.of_documents fun entry member => .inl ?_)
    rcases deleteVersion_documents db version with same | ⟨key, deleted⟩
    · rwa [same] at member
    · rw [deleted] at member
      exact mem_skiplistDelete member

theorem StoresObjects.createVersion {timeFormat : TimeFormat} {moment : Moment}
    (stores : StoresObjects db) (call : VersionCall δ) :
    StoresObjects (createVersionIn timeFormat moment db call) := by
  rw [createVersionIn]
  cases call.versionedIn db with
  | none => exact stores
  | some name =>
    let entries := versionEntries timeFormat moment.now name call.operation call.document
    have isObject := storageInserted_isObject (virtualInserted_isObject_of_entries entries
      (ascii "version") name.versionLibrary (some (ascii "versions")) (ascii "system-admin"))
        moment
    refine StoresObjects.deleteVersions (stores.of_documents fun entry member => ?_) _
    rw [virtualInsert_documents] at member
    refine (mem_skiplistInsert member).imp_right fun same => ⟨_, isObject, ?_⟩
    rw [same]

omit [CDouble δ] in
theorem updatedDocument_isObject_of_any (patch : JsonValue δ) {existing : JsonValue δ}
    (isExisting : IsJsonObject existing) (moment : Moment) :
    IsJsonObject (updatedDocument moment (virtualPatch moment patch) existing) := by
  cases patch with
  | object entries =>
    exact updatedDocument_isObject
      ((isJsonObject_deepCopy entries).set _ (distinctKeys_integer _)) isExisting moment
  | null | boolean _ | number _ | integer _ | string _ | array _ =>
    exact isExisting.deepCopy.set _ (distinctKeys_integer _)

theorem StoresObjects.virtualUpdate (stores : StoresObjects db)
    (prints : ∀ number : δ, PrintsNumber number) (moment : Moment) (uuid : Bytes)
    (patch : JsonValue δ) : StoresObjects (virtualUpdate moment db uuid patch).2 := by
  rw [Jdbx.virtualUpdate, storageUpdateDocument]
  cases stored : storageGetDocument db uuid with
  | none => exact stores
  | some existing =>
    refine stores.of_documents fun entry member => (mem_replaceDocument member).imp_right ?_
    rintro rfl
    exact ⟨_, updatedDocument_isObject_of_any patch (stores.isObject prints stored).1 moment, rfl⟩

theorem findVersion_documents {versionId : Bytes} {found : Option (FoundVersion δ)}
    (lookedUp : findVersion db versionId = some (found, next)) :
    next.documents = db.documents := by
  obtain ⟨⟨versionDoc, middle⟩, first, rest⟩ := Option.bind_eq_some_iff.mp lookedUp
  have kept := dbGetDocument_documents first
  dsimp only at rest
  split at rest
  · obtain ⟨⟨current, last⟩, second, same⟩ := Option.map_eq_some_iff.mp rest
    cases same
    exact (dbGetDocument_documents second).trans kept
  · cases rest
    exact kept

end Objects

section Restorations

variable [CDouble δ] {db next : Database δ} {uuid : Bytes} {moment : Moment}
  {snapshot : JsonObject δ} {existing : JsonValue δ}

omit [CDouble δ] in
theorem wanted_eq_snapshot {key : Bytes}
    (covered : jsonObjectGet existing key ≠ none → jsonObjectGet snapshot.value key ≠ none) :
    (DocumentUpdate.virtualUpdate snapshot).wanted existing key =
      jsonObjectGet snapshot.value key := by
  change (jsonObjectGet snapshot.value key).or (jsonObjectGet existing key) = _
  cases held : jsonObjectGet snapshot.value key with
  | some value => rfl
  | none =>
    rw [Option.none_or]
    by_contra present
    exact covered present held

theorem virtualUpdate_snapshot (prints : ∀ number : δ, PrintsNumber number)
    (stores : StoresObjects db) (stored : storageGetDocument db uuid = some existing)
    (reads : ReadsBack (updatedDocument moment (virtualPatch moment snapshot.value) existing))
    (covered : ∀ key ∉ timestampFields,
      (jsonObjectGet existing key ≠ none → jsonObjectGet snapshot.value key ≠ none) ∧
      ∀ value ∈ jsonObjectGet snapshot.value key, Plain key ∧ RereadsEqual value) :
    ∃ after,
      storageGetDocument (virtualUpdate moment db uuid snapshot.value).2 uuid = some after ∧
        ∀ key ∉ timestampFields,
          SameField (jsonObjectGet after key) (jsonObjectGet snapshot.value key) := by
  have steady : UpdatesSteadily uuid db (moment, .virtualUpdate snapshot) := by
    intro other same
    obtain rfl := Option.some.inj (stored.symm.trans same)
    refine ⟨trivial, reads, fun key value unstamped wanted => ?_⟩
    rw [wanted_eq_snapshot (covered key unstamped).1] at wanted
    exact (covered key unstamped).2 value wanted
  obtain ⟨answer, next, performed, -, right⟩ := (updatesRight_iff prints stores).mpr steady
  have returned : virtualUpdate moment db uuid snapshot.value = (answer, next) :=
    Option.some.inj performed
  have answered := virtualUpdate_isSome moment db uuid snapshot.value
  rw [returned, stored] at answered
  rw [returned]
  cases answer with
  | none => cases answered
  | some document =>
    obtain ⟨before, after, found, read, updated⟩ := right
    obtain rfl := Option.some.inj (stored.symm.trans found)
    refine ⟨after, read, fun key unstamped => ?_⟩
    rw [← wanted_eq_snapshot (covered key unstamped).1]
    exact updated.fields key unstamped

theorem FoundVersion.versioned_stores {found : FoundVersion δ} {timeFormat : TimeFormat}
    {library : Option Bytes} {collection : Bytes} (stores : StoresObjects db) :
    StoresObjects (found.versioned timeFormat moment db library collection) := by
  rw [FoundVersion.versioned]
  cases found.call moment library collection with
  | none => exact stores
  | some call => exact stores.createVersion call

theorem FoundVersion.versioned_get {found : FoundVersion δ} {timeFormat : TimeFormat}
    {library : Option Bytes} {collection : Bytes}
    (other : ∀ call ∈ found.call moment library collection,
      ∀ version ∈ call.recorded moment db, version.1 ≠ uuid)
    (stored : storageGetDocument (found.versioned timeFormat moment db library collection) uuid =
      some existing) : storageGetDocument db uuid = some existing := by
  rw [FoundVersion.versioned] at stored
  cases called : found.call moment library collection with
  | none => rwa [called] at stored
  | some call =>
    rw [called] at stored
    obtain ⟨text, held, read⟩ := Option.bind_eq_some_iff.mp stored
    have before := search_of_createVersion (other call called) held
    exact Option.bind_eq_some_iff.mpr ⟨text, before, read⟩

end Restorations

section RestoreRuns

variable [CDouble δ] {timeFormat : TimeFormat}

theorem restoreStep_keeps (prints : ∀ number : δ, PrintsNumber number)
    (condition : VersionedDatabase δ → VersionEvent δ → Prop) :
    Keeps (restoreStep timeFormat) condition fun state => StoresObjects state.db := by
  intro state event next stores _ taken
  cases event with
  | store event =>
    obtain ⟨db, step, rfl⟩ := Option.map_eq_some_iff.mp taken
    exact StoresObjects.keeps prints state.db event db stores step
  | createVersion moment library collection document operation =>
    cases taken
    exact stores.createVersion _
  | restore moment library collection versionId =>
    obtain ⟨⟨answer, db⟩, returned, rfl⟩ := Option.map_eq_some_iff.mp taken
    obtain ⟨⟨found, middle⟩, lookedUp, same⟩ := Option.map_eq_some_iff.mp returned
    have storesMiddle : StoresObjects middle := stores.congr (findVersion_documents lookedUp)
    cases found with
    | none =>
      cases same
      exact storesMiddle
    | some found =>
      cases same
      exact StoresObjects.virtualUpdate (FoundVersion.versioned_stores storesMiddle) prints
        moment _ _

theorem restoresRight_of_steadily (prints : ∀ number : δ, PrintsNumber number)
    (state : VersionedDatabase δ) (event : VersionEvent δ) (stores : StoresObjects state.db)
    (steady : RestoresSteadily state event) : RestoresRight timeFormat state event := by
  cases event with
  | store event => trivial
  | createVersion moment library collection document operation => trivial
  | restore moment library collection versionId =>
    intro docId snapshot recorded next returned
    obtain ⟨⟨found, middle⟩, lookedUp, same⟩ := Option.map_eq_some_iff.mp returned
    cases found with
    | none => cases (Prod.mk.inj same).1
    | some found =>
      obtain ⟨sameId, sameSnapshot, others, covered⟩ :=
        steady docId snapshot recorded found middle lookedUp
      let versioned := found.versioned timeFormat moment middle library collection
      have cloned : jsonClone found.snapshot = snapshot.value := by
        obtain ⟨entries, -, levels, copyable⟩ := snapshot.isObject
        rw [sameSnapshot, jsonClone_eq_self_of_copyable copyable]
      have storesVersioned : StoresObjects versioned :=
        FoundVersion.versioned_stores (stores.congr (findVersion_documents lookedUp))
      have restored : found.restore timeFormat moment middle library collection = (0, next) :=
        same
      rw [FoundVersion.restore, sameId, cloned] at restored
      obtain ⟨status, rfl⟩ := Prod.mk.inj restored
      have updated : (virtualUpdate moment versioned docId snapshot.value).1.isSome = true := by
        by_contra failed
        rw [if_neg failed] at status
        exact absurd status (by decide)
      rw [virtualUpdate_isSome] at updated
      obtain ⟨existing, stored⟩ := Option.isSome_iff_exists.mp updated
      have before : storageGetDocument state.db docId = some existing := by
        rw [← storageGetDocument_congr (findVersion_documents lookedUp)]
        refine FoundVersion.versioned_get (fun call called version made => ?_) stored
        refine others version ?_
        simp only [restoreRecorded, lookedUp]
        exact List.mem_flatMap.mpr ⟨call, Option.mem_toList.mpr called, made⟩
      have ⟨reads, fields⟩ := covered existing before
      exact virtualUpdate_snapshot prints storesVersioned stored reads fields

theorem restoreStep_virtualUpdate (state : VersionedDatabase δ) (moment : Moment) (uuid : Bytes)
    (patch : JsonObject δ) :
    restoreStep timeFormat state (.store (moment, .virtualUpdate uuid patch)) =
      some { state with db := (virtualUpdate moment state.db uuid patch.value).2 } :=
  rfl

theorem restoreStep_createVersion (state : VersionedDatabase δ) (moment : Moment)
    (library : Option Bytes) (collection : Bytes) (document : JsonObject δ) (operation : Bytes) :
    let call : VersionCall δ :=
      { now := moment.now, library, collection, document := document.value, operation }
    restoreStep timeFormat state (.createVersion moment library collection document operation) =
      some
        { db := createVersionIn timeFormat moment state.db call
          snapshots := call.recorded moment state.db ++ state.snapshots } :=
  rfl

end RestoreRuns

/-! ## A field added behind the version -/

def noteFields : List (Bytes × JsonValue Rat) :=
  [ (ascii "body", .string (ascii "old")),
    (ascii "_versioning", .object [(ascii "enabled", .boolean true)]),
    (ascii "uuid", .string (ascii "doc-1-7")),
    (ascii "created_at", .integer 1),
    (ascii "modified_at", .integer 1) ]

def versionedNote : JsonObject Rat where
  value := .object noteFields
  isObject := ⟨_, rfl, 3, by decide, by simp [noteFields, Copyable, entryKeys]⟩

def noteVersion : VersionCall Rat :=
  { now := 2, library := none, collection := ascii "notes", document := versionedNote.value,
    operation := ascii "update" }

/-- The note is stored, a version is made of it, and the version becomes a document of the
collection that is looked up. -/
def noteWithVersion : List (VersionEvent Rat) :=
  [ .store (⟨1, 7⟩, .storageInsertDocument versionedNote),
    .createVersion ⟨2, 8⟩ none (ascii "notes") versionedNote (ascii "update"),
    .store (⟨3, 0⟩, .virtualUpdate (ascii "doc-2-8") (stringObject (ascii "type")
      (ascii "documents"))),
    .store (⟨4, 0⟩, .virtualUpdate (ascii "doc-2-8") (stringObject (ascii "library")
      (ascii "default"))) ]

def noteRestoration : VersionEvent Rat :=
  .restore ⟨6, 9⟩ none (ascii "notes") (ascii "doc-2-8")

def noteStart : VersionedDatabase Rat :=
  { db := freshDatabase .empty, snapshots := [] }

def storedNote : Database Rat :=
  (storageInsertDocument ⟨1, 7⟩ (freshDatabase .empty) versionedNote.value).2

def foundNote : Database Rat :=
  (virtualUpdate ⟨4, 0⟩
    (virtualUpdate ⟨3, 0⟩ (createVersionIn oneDay ⟨2, 8⟩ storedNote noteVersion)
      (ascii "doc-2-8") (stringObject (ascii "type") (ascii "documents")).value).2
    (ascii "doc-2-8") (stringObject (ascii "library") (ascii "default")).value).2

theorem noteVersion_recorded : noteVersion.recorded ⟨2, 8⟩ storedNote =
    [(ascii "doc-2-8", ascii "doc-1-7", versionedNote.value)] := by
  have versioned : noteVersion.versionedIn storedNote =
      some ⟨none, ascii "notes", ascii "doc-1-7"⟩ := by
    decide +kernel
  have uuid : documentUuid ⟨2, 8⟩ = ascii "doc-2-8" := by
    decide +kernel
  rw [VersionCall.recorded, versioned, uuid]
  rfl

theorem noteWithVersion_reached : runFrom (restoreStep oneDay) noteStart noteWithVersion =
    some
      { db := foundNote
        snapshots := [(ascii "doc-2-8", ascii "doc-1-7", versionedNote.value)] } := by
  have inserted : restoreStep oneDay noteStart (.store (⟨1, 7⟩, .storageInsertDocument
      versionedNote)) = some { db := storedNote, snapshots := [] } :=
    rfl
  simp only [noteWithVersion, runFrom, inserted, Option.bind_some, restoreStep_virtualUpdate,
    restoreStep_createVersion]
  rw [← noteVersion_recorded, noteVersion, List.append_nil, foundNote]
  simp only [noteVersion]

def noteUpdate (key text : Bytes) : VersionEvent Rat :=
  .store (⟨5, 0⟩, .virtualUpdate (ascii "doc-1-7") (stringObject key text))

def updatedNote (key text : Bytes) : VersionedDatabase Rat where
  db := (virtualUpdate ⟨5, 0⟩ foundNote (ascii "doc-1-7") (stringObject key text).value).2
  snapshots := [(ascii "doc-2-8", ascii "doc-1-7", versionedNote.value)]

theorem updatedNote_reached (key text : Bytes) :
    runFrom (restoreStep oneDay) noteStart (noteWithVersion ++ [noteUpdate key text]) =
      some (updatedNote key text) := by
  rw [runFrom_append, noteWithVersion_reached, Option.bind_some, runFrom, noteUpdate,
    restoreStep_virtualUpdate, Option.bind_some, runFrom, updatedNote]

def changedFields : List (Bytes × JsonValue Rat) :=
  [ (ascii "body", .string (ascii "new")),
    (ascii "_versioning", .object [(ascii "enabled", .boolean true)]),
    (ascii "uuid", .string (ascii "doc-1-7")),
    (ascii "created_at", .integer 1),
    (ascii "modified_at", .integer 5),
    (ascii "updated_at", .integer 5) ]

theorem updatedNote_steady :
    RestoresSteadily (updatedNote (ascii "body") (ascii "new")) noteRestoration := by
  intro docId snapshot recorded found db lookedUp
  obtain ⟨-, rfl, same⟩ : ascii "doc-2-8" = ascii "doc-2-8" ∧ docId = ascii "doc-1-7" ∧
      snapshot.value = versionedNote.value := by
    simpa [updatedNote] using recorded
  have holds : (findVersion (updatedNote (ascii "body") (ascii "new")).db (ascii "doc-2-8")).map
      (fun looked => looked.1.map fun found => (found.docId, found.snapshot)) =
        some (some (ascii "doc-1-7", versionedNote.value)) := by
    decide +kernel
  rw [lookedUp] at holds
  obtain ⟨sameId, sameSnapshot⟩ := Prod.mk.inj (Option.some.inj (Option.some.inj holds))
  have stored : storageGetDocument (updatedNote (ascii "body") (ascii "new")).db
      (ascii "doc-1-7") = some (.object changedFields) := by
    decide +kernel
  rw [same]
  refine ⟨sameId, sameSnapshot, ?_, fun existing held => ?_⟩
  · have others : (restoreRecorded ⟨6, 9⟩ none (ascii "notes") (ascii "doc-2-8")
        (updatedNote (ascii "body") (ascii "new")).db).all
          (fun version => version.1 != ascii "doc-1-7") = true := by
      decide +kernel
    intro version made
    simpa using List.all_eq_true.mp others version made
  · obtain rfl := Option.some.inj (stored.symm.trans held)
    have reads : (jsonParse (jsonStringify (updatedDocument ⟨6, 9⟩
        (virtualPatch ⟨6, 9⟩ versionedNote.value) (.object changedFields))) :
          Option (JsonValue Rat)).isSome = true := by
      decide +kernel
    refine ⟨reads, fun key unstamped => ⟨fun present => ?_, fun value named => ?_⟩⟩
    · have covered : ∀ key ∈ entryKeys changedFields, key ∉ timestampFields →
          jsonObjectGet versionedNote.value key ≠ none := by
        decide +kernel
      refine covered key ?_ unstamped
      by_contra absent
      exact present (getEntry_eq_none_iff.mpr absent)
    · have rereads : ∀ entry ∈ noteFields,
          Plain entry.1 ∧ jsonEquals (rereadValue entry.2) entry.2 = true := by
        decide +kernel
      exact rereads (key, value) (mem_of_getEntry_eq_some named)

end Jdbx
