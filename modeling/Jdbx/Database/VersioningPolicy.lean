import Jdbx.Database.VirtualQueries
import Mathlib.Data.List.Induction
import Mathlib.Data.List.Infix

/-!
# Versions of documents

`versioning_policy.c` keeps versions of a document as documents of their own.
The store under it is an ideal one here: a list of documents in the order of
their insertion, with a source of uuids that are not in use.
-/

namespace Jdbx

open Library

variable {δ : Type}

/-- Documents by uuid, in the order of their insertion. -/
structure DocumentStore (δ : Type) where
  documents : List (Bytes × JsonValue δ)
  distinct : (entryKeys documents).Nodup

/-- Gives uuids that are not in use. -/
structure UuidSource where
  next : List Bytes → Bytes
  fresh : ∀ used, next used ∉ used

def DocumentStore.nextUuid (uuids : UuidSource) (store : DocumentStore δ) : Bytes :=
  uuids.next (entryKeys store.documents)

def stampedDocument (now : Int64) (document : JsonValue δ) : JsonValue δ :=
  let created :=
    match jsonObjectGet document (ascii "created_at") with
    | some _ => document
    | none => jsonObjectSet document (ascii "created_at") (.integer now)
  jsonObjectSet created (ascii "modified_at") (.integer now)

/-- What `virtual_insert` and `storage_insert_document` make of a document. -/
def unifiedDocument (now : Int64) (uuid type library collection owner : Bytes)
    (document : JsonValue δ) : JsonValue δ :=
  let docCopy := jsonDeepCopy document
  let docCopy := jsonObjectSet docCopy (ascii "type") (.string type)
  let docCopy := jsonObjectSet docCopy (ascii "library") (.string library)
  let docCopy := jsonObjectSet docCopy (ascii "collection") (.string collection)
  let docCopy := jsonObjectSet docCopy (ascii "owner") (.string owner)
  stampedDocument now (jsonObjectSet (jsonDeepCopy docCopy) (ascii "uuid") (.string uuid))

/-- `virtual_insert` on the store. -/
def DocumentStore.insert (uuids : UuidSource) (now : Int64) (store : DocumentStore δ)
    (type library collection owner : Bytes) (document : JsonValue δ) : DocumentStore δ :=
  let uuid := store.nextUuid uuids
  { documents := store.documents ++
      [(uuid, unifiedDocument now uuid type library collection owner document)]
    distinct := by
      rw [entryKeys, List.map_append]
      exact store.distinct.append (List.nodup_singleton _)
        (by simpa [uuid, DocumentStore.nextUuid] using uuids.fresh (entryKeys store.documents)) }

/-- `virtual_delete` on the store. -/
def DocumentStore.delete (store : DocumentStore δ) (uuid : Bytes) : DocumentStore δ :=
  { documents := removeEntry uuid store.documents
    distinct := entryKeys_removeEntry_nodup store.distinct uuid }

/-- `virtual_query` on the store. -/
def DocumentStore.query [CDouble δ] (store : DocumentStore δ) (type library collection : Bytes)
    (filters : JsonValue δ) : JsonValue δ :=
  queryResult ((store.documents.map Prod.snd).filter
    (matchesQuery storageFieldMatches (unifiedQuery type library (some collection) filters)))

structure VersioningPolicy where
  enabled : Bool
  maxVersions : Int32
  retentionDays : Int32
  versionOnUpdate : Bool
  versionOnDelete : Bool
  compressionEnabled : Bool
  archiveOldVersions : Bool
  archiveAfterDays : Int32

def defaultPolicy : VersioningPolicy :=
  { enabled := false
    maxVersions := 10
    retentionDays := 30
    versionOnUpdate := true
    versionOnDelete := true
    compressionEnabled := false
    archiveOldVersions := false
    archiveAfterDays := 90 }

def loadFlag (json : JsonValue δ) (key : Bytes) (flag : Bool) : Bool :=
  match jsonObjectGet json key with
  | some (.boolean loaded) => loaded
  | _ => flag

section Policies

variable [CDouble δ]

def loadCount (json : JsonValue δ) (key : Bytes) (count : Int32) : Int32 :=
  match jsonObjectGet json key with
  | some (.number loaded) => CDouble.toInt32 loaded
  | some (.integer loaded) => loaded.toInt32
  | _ => count

def loadPolicyFromJson (policy : VersioningPolicy) (json : JsonValue δ) : VersioningPolicy :=
  match json with
  | .object _ =>
      { enabled := loadFlag json (ascii "enabled") policy.enabled
        maxVersions := loadCount json (ascii "maxVersions") policy.maxVersions
        retentionDays := loadCount json (ascii "retentionDays") policy.retentionDays
        versionOnUpdate := loadFlag json (ascii "versionOnUpdate") policy.versionOnUpdate
        versionOnDelete := loadFlag json (ascii "versionOnDelete") policy.versionOnDelete
        compressionEnabled := loadFlag json (ascii "compressionEnabled") policy.compressionEnabled
        archiveOldVersions := loadFlag json (ascii "archiveOldVersions") policy.archiveOldVersions
        archiveAfterDays := loadCount json (ascii "archiveAfterDays") policy.archiveAfterDays }
  | _ => policy

/-- Override a policy by the settings of the first document that is found. -/
def overrideFromSettings (policy : VersioningPolicy) (results : JsonValue δ) : VersioningPolicy :=
  match foundDocuments results with
  | first :: _ =>
      match (jsonObjectGet first (ascii "settings")).bind
          (jsonObjectGet · (ascii "versioning")) with
      | some versioning => loadPolicyFromJson policy versioning
      | none => policy
  | [] => policy

def versioningPolicyGetLibrary (store : DocumentStore δ) (library : Bytes) : VersioningPolicy :=
  overrideFromSettings defaultPolicy
    (store.query (ascii "library") (ascii "default") (ascii "libraries")
      (.object [(ascii "name", .string library)]))

def versioningPolicyGetCollection (store : DocumentStore δ) (library : Option Bytes)
    (collection : Bytes) : VersioningPolicy :=
  let policy :=
    match library with
    | some library => versioningPolicyGetLibrary store library
    | none => defaultPolicy
  overrideFromSettings policy
    (store.query (ascii "collection") (library.getD (ascii "default")) (ascii "collections")
      (.object [(ascii "name", .string collection)]))

def versioningPolicyGetDocument (store : DocumentStore δ) (library : Option Bytes)
    (collection : Bytes) (document : JsonValue δ) : VersioningPolicy :=
  let policy := versioningPolicyGetCollection store library collection
  match jsonObjectGet document (ascii "_versioning") with
  | some versioning => loadPolicyFromJson policy versioning
  | none => policy

end Policies

/-! ## Versions -/

/-- `strftime` of `gmtime`, and `mktime` of `strptime`. -/
structure TimeFormat where
  format : Int64 → Bytes
  parse : Bytes → Option Int64

/-- A document that has versions. -/
structure DocumentName where
  library : Option Bytes
  collection : Bytes
  documentId : Bytes
  deriving DecidableEq

def DocumentName.versionLibrary (name : DocumentName) : Bytes :=
  name.library.getD (ascii "system")

def versionFilters (name : DocumentName) : JsonValue δ :=
  .object [(ascii "document_id", .string name.documentId),
    (ascii "collection", .string name.collection)]

/-- The fields of the document that `versioning_create_version` builds. -/
def versionEntries (timeFormat : TimeFormat) (now : Int64) (name : DocumentName)
    (operation : Bytes) (document : JsonValue δ) : List (Bytes × JsonValue δ) :=
  [(ascii "type", .string (ascii "version")),
    (ascii "document_id", .string name.documentId),
    (ascii "collection", .string name.collection),
    (ascii "library", .string (name.library.getD (ascii "default"))),
    (ascii "operation", .string operation),
    (ascii "versioned_at", .string (timeFormat.format now)),
    (ascii "snapshot", jsonClone document),
    (ascii "compressed", .boolean false)]

/-- `days * 86400`, as an `int`. -/
def daySeconds (days : Int32) : Int64 :=
  (days * 86400).toInt64

def removeExcessVersion (policy : VersioningPolicy) (store : DocumentStore δ)
    (version : JsonValue δ) : DocumentStore δ :=
  match jsonObjectGet version (ascii "uuid") with
  | some (.string uuid) => if policy.archiveOldVersions then store else store.delete uuid
  | _ => store

def removeOldVersion (timeFormat : TimeFormat) (now : Int64) (policy : VersioningPolicy)
    (store : DocumentStore δ) (version : JsonValue δ) : DocumentStore δ :=
  match jsonObjectGet version (ascii "versioned_at") with
  | some (.string timestamp) =>
      match timeFormat.parse timestamp with
      | some versionTime =>
          if versionTime < now - daySeconds policy.retentionDays then
            match jsonObjectGet version (ascii "uuid") with
            | some (.string uuid) =>
                if policy.archiveOldVersions && policy.archiveAfterDays > 0 &&
                    now - versionTime > daySeconds policy.archiveAfterDays then store
                else store.delete uuid
            | _ => store
          else store
      | none => store
  | _ => store

section Versions

variable [CDouble δ]

def versioningGetHistory (store : DocumentStore δ) (name : DocumentName) : JsonValue δ :=
  store.query (ascii "version") name.versionLibrary (ascii "versions") (versionFilters name)

def versioningCleanupOldVersions (timeFormat : TimeFormat) (now : Int64) (store : DocumentStore δ)
    (name : DocumentName) (policy : VersioningPolicy) : DocumentStore δ :=
  let documents := foundDocuments
    (store.query (ascii "version") name.versionLibrary (ascii "versions") (versionFilters name))
  let limited :=
    if policy.maxVersions > 0 && documents.length > policy.maxVersions.toInt.toNat then
      (documents.drop policy.maxVersions.toInt.toNat).foldl (removeExcessVersion policy) store
    else store
  if policy.retentionDays > 0 then
    documents.foldl (removeOldVersion timeFormat now policy) limited
  else limited

/-- The arguments of `versioning_create_version`, and the time of the call. -/
structure VersionCall (δ : Type) where
  now : Int64
  library : Option Bytes
  collection : Bytes
  document : JsonValue δ
  operation : Bytes

def VersionCall.policy (call : VersionCall δ) (store : DocumentStore δ) : VersioningPolicy :=
  versioningPolicyGetDocument store call.library call.collection call.document

/-- The policy is enabled, and asks for a version in a collection of this name
on this operation. -/
def VersionCall.isVersioned (call : VersionCall δ) (store : DocumentStore δ) : Bool :=
  let policy := call.policy store
  policy.enabled && !decide (ascii "versions" <:+: call.collection) &&
    !(call.operation == ascii "update" && !policy.versionOnUpdate) &&
    !(call.operation == ascii "delete" && !policy.versionOnDelete)

/-- The document that a call makes a version of. -/
def VersionCall.versioned (call : VersionCall δ) (store : DocumentStore δ) :
    Option DocumentName :=
  if call.isVersioned store then
    match jsonObjectGet call.document (ascii "uuid") with
    | some (.string docId) => some ⟨call.library, call.collection, docId⟩
    | _ => none
  else none

def storeVersion (timeFormat : TimeFormat) (uuids : UuidSource) (store : DocumentStore δ)
    (call : VersionCall δ) (name : DocumentName) : DocumentStore δ :=
  store.insert uuids call.now (ascii "version") name.versionLibrary (ascii "versions")
    (ascii "system-admin")
    (.object (versionEntries timeFormat call.now name call.operation call.document))

def versioningCreateVersion (timeFormat : TimeFormat) (uuids : UuidSource)
    (store : DocumentStore δ) (call : VersionCall δ) : Int × DocumentStore δ :=
  match call.versioned store with
  | some name =>
      (0, versioningCleanupOldVersions timeFormat call.now
        (storeVersion timeFormat uuids store call name) name (call.policy store))
  | none => (if call.isVersioned store then -1 else 0, store)

end Versions

/-! ## Histories -/

/-- A store, with the versions made in it that no cleanup has removed. -/
structure VersionedStore (δ : Type) where
  store : DocumentStore δ
  versions : List (DocumentName × JsonValue δ)

def VersionedStore.versionsOf (state : VersionedStore δ) (name : DocumentName) :
    List (JsonValue δ) :=
  (state.versions.filter fun version => version.1 = name).map Prod.snd

section Histories

variable [CDouble δ]

def VersionCall.version (timeFormat : TimeFormat) (uuids : UuidSource) (store : DocumentStore δ)
    (call : VersionCall δ) (name : DocumentName) : JsonValue δ :=
  unifiedDocument call.now (store.nextUuid uuids) (ascii "version") name.versionLibrary
    (ascii "versions") (ascii "system-admin")
    (.object (versionEntries timeFormat call.now name call.operation call.document))

def VersionCall.made (timeFormat : TimeFormat) (uuids : UuidSource) (store : DocumentStore δ)
    (call : VersionCall δ) : List (DocumentName × JsonValue δ) :=
  match call.versioned store with
  | some name => [(name, call.version timeFormat uuids store name)]
  | none => []

def DocumentStore.holds (store : DocumentStore δ) (version : JsonValue δ) : Bool :=
  match jsonGetString (jsonObjectGet version (ascii "uuid")) with
  | some uuid => uuid ∈ entryKeys store.documents
  | none => false

def versionStep (timeFormat : TimeFormat) (uuids : UuidSource) (state : VersionedStore δ)
    (call : VersionCall δ) : VersionedStore δ :=
  let store := (versioningCreateVersion timeFormat uuids state.store call).2
  { store := store
    versions := (state.versions ++ call.made timeFormat uuids state.store).filter
      fun version => store.holds version.2 }

def versionRun (timeFormat : TimeFormat) (uuids : UuidSource) (store : DocumentStore δ)
    (calls : List (VersionCall δ)) : VersionedStore δ :=
  calls.foldl (versionStep timeFormat uuids) { store := store, versions := [] }

def KeepsNewest (timeFormat : TimeFormat) (uuids : UuidSource) (state : VersionedStore δ)
    (call : VersionCall δ) : Prop :=
  ∀ name ∈ call.versioned state.store, 0 < (call.policy state.store).maxVersions →
    (versionStep timeFormat uuids state call).versionsOf name =
      let versions := state.versionsOf name ++ [call.version timeFormat uuids state.store name]
      versions.drop (versions.length - (call.policy state.store).maxVersions.toInt.toNat)

/-- After the call every history has the versions that are there, and its
cleanup has left the newest ones. -/
structure FaithfulCall (timeFormat : TimeFormat) (uuids : UuidSource) (state : VersionedStore δ)
    (call : VersionCall δ) : Prop where
  history : ∀ name version,
    version ∈ foundDocuments
        (versioningGetHistory (versionStep timeFormat uuids state call).store name) ↔
      version ∈ (versionStep timeFormat uuids state call).versionsOf name
  newest : KeepsNewest timeFormat uuids state call

end Histories

theorem stampedDocument_get {key : Bytes} (notCreated : key ≠ ascii "created_at")
    (notModified : key ≠ ascii "modified_at") (now : Int64) (document : JsonValue δ) :
    jsonObjectGet (stampedDocument now document) key = jsonObjectGet document key := by
  rw [stampedDocument, jsonObjectGet_set_of_ne _ notModified]
  cases jsonObjectGet document (ascii "created_at") with
  | none => exact jsonObjectGet_set_of_ne _ notCreated _
  | some created => rfl

theorem unifiedDocument_get (now : Int64) (uuid type library collection owner : Bytes)
    (entries : List (Bytes × JsonValue δ)) :
    let document := unifiedDocument now uuid type library collection owner (.object entries)
    jsonObjectGet document (ascii "type") = some (.string type) ∧
      jsonObjectGet document (ascii "collection") = some (.string collection) ∧
      jsonObjectGet document (ascii "uuid") = some (.string uuid) := by
  intro document
  obtain ⟨copied, copy, distinct⟩ := jsonDeepCopy_object entries
  let fields := setEntry (ascii "owner") (.string owner)
    (setEntry (ascii "collection") (.string collection)
      (setEntry (ascii "library") (.string library)
        (setEntry (ascii "type") (.string type) copied)))
  have fieldsDistinct : (entryKeys fields).Nodup := by
    repeat apply entryKeys_setEntry_nodup
    exact distinct
  obtain ⟨stored, second, _⟩ := jsonDeepCopy_object fields
  have held := jsonObjectGet_jsonDeepCopy fieldsDistinct
  rw [second] at held
  have built : document =
      stampedDocument now (jsonObjectSet (.object stored) (ascii "uuid") (.string uuid)) := by
    simp only [document, unifiedDocument, copy, ← second]
    rfl
  rw [built, stampedDocument_get (by decide) (by decide),
    stampedDocument_get (by decide) (by decide), stampedDocument_get (by decide) (by decide)]
  refine ⟨?_, ?_, ?_⟩
  · rw [jsonObjectGet_set_of_ne _ (by decide), held, getEntry_setEntry_of_ne (by decide),
      getEntry_setEntry_of_ne (by decide), getEntry_setEntry_of_ne (by decide),
      getEntry_setEntry_self]
    rfl
  · rw [jsonObjectGet_set_of_ne _ (by decide), held, getEntry_setEntry_of_ne (by decide),
      getEntry_setEntry_self]
    rfl
  · rw [jsonObjectGet_set_self]

def textField (document : JsonValue δ) (key : Bytes) : Option Bytes :=
  jsonGetString (jsonObjectGet document key)

/-- The versions of the store are in the `versions` collection. -/
def VersionsCollected (store : DocumentStore δ) : Prop :=
  ∀ entry ∈ store.documents, textField entry.2 (ascii "type") = some (ascii "version") →
    textField entry.2 (ascii "collection") = some (ascii "versions")

section Found

variable [CDouble δ] {store : DocumentStore δ} {name : DocumentName}

theorem mem_history {version : JsonValue δ}
    (found : version ∈ foundDocuments (versioningGetHistory store name)) :
    version ∈ store.documents.map Prod.snd ∧
      textField version (ascii "type") = some (ascii "version") ∧
      (textField version (ascii "collection") = some (ascii "versions") →
        name.collection = ascii "versions") := by
  have found : version ∈ (store.documents.map Prod.snd).filter
      (matchesQuery storageFieldMatches (unifiedQuery (ascii "version") name.versionLibrary
        (some (ascii "versions")) (versionFilters name))) := found
  obtain ⟨stored, matched⟩ := List.mem_filter.mp found
  have unasked : jsonObjectGet (versionFilters name : JsonValue δ) (ascii "type") = none := rfl
  have leavesType : LeavesField (versionFilters name : JsonValue δ) (ascii "type")
      (ascii "version") := by
    intro value member
    rw [unasked] at member
    cases member
  have type : textField version (ascii "type") = some (ascii "version") :=
    (matched_field matched rfl).mpr leavesType
  refine ⟨stored, type, fun collection => ?_⟩
  have leavesCollection : LeavesField (versionFilters name : JsonValue δ) (ascii "collection")
      (ascii "versions") := (matched_field matched rfl).mp collection
  exact Option.some.inj (leavesCollection (.string name.collection) rfl)

theorem history_eq_nil (collected : VersionsCollected store)
    (elsewhere : name.collection ≠ ascii "versions") :
    foundDocuments (versioningGetHistory store name) = [] := by
  rw [List.eq_nil_iff_forall_not_mem]
  intro version found
  obtain ⟨stored, type, own⟩ := mem_history found
  obtain ⟨entry, member, rfl⟩ := List.mem_map.mp stored
  exact elsewhere (own (collected entry member type))

theorem cleanup_eq_self (timeFormat : TimeFormat) (now : Int64) (policy : VersioningPolicy)
    (collected : VersionsCollected store) (elsewhere : name.collection ≠ ascii "versions") :
    versioningCleanupOldVersions timeFormat now store name policy = store := by
  have nothing := history_eq_nil collected elsewhere
  rw [versioningGetHistory] at nothing
  simp [versioningCleanupOldVersions, nothing]

theorem elsewhere_of_versioned {call : VersionCall δ}
    (versioned : call.versioned store = some name) : name.collection ≠ ascii "versions" := by
  rw [VersionCall.versioned] at versioned
  split_ifs at versioned with isVersioned
  have outside : ¬ ascii "versions" <:+: call.collection := by
    simp only [VersionCall.isVersioned, Bool.and_eq_true, Bool.not_eq_true',
      decide_eq_false_iff_not] at isVersioned
    exact isVersioned.1.1.2
  have same : name.collection = call.collection := by
    split at versioned
    · cases versioned
      rfl
    · cases versioned
  rw [same]
  intro equal
  exact outside (equal ▸ List.infix_rfl)

end Found

section Calls

variable [CDouble δ] {timeFormat : TimeFormat} {uuids : UuidSource} {state : VersionedStore δ}
  {call : VersionCall δ} {name : DocumentName}

omit [CDouble δ] in
theorem storeVersion_documents (store : DocumentStore δ) :
    (storeVersion timeFormat uuids store call name).documents =
      store.documents ++ [(store.nextUuid uuids, call.version timeFormat uuids store name)] :=
  rfl

omit [CDouble δ] in
theorem version_fields (timeFormat : TimeFormat) (uuids : UuidSource) (store : DocumentStore δ)
    (call : VersionCall δ) (name : DocumentName) :
    textField (call.version timeFormat uuids store name) (ascii "collection") =
        some (ascii "versions") ∧
      textField (call.version timeFormat uuids store name) (ascii "uuid") =
        some (store.nextUuid uuids) := by
  have fields := unifiedDocument_get call.now (store.nextUuid uuids) (ascii "version")
    name.versionLibrary (ascii "versions") (ascii "system-admin")
    (versionEntries timeFormat call.now name call.operation call.document)
  exact ⟨congrArg jsonGetString fields.2.1, congrArg jsonGetString fields.2.2⟩

omit [CDouble δ] in
theorem storeVersion_collected {store : DocumentStore δ} (collected : VersionsCollected store) :
    VersionsCollected (storeVersion timeFormat uuids store call name) := by
  intro entry member type
  rw [storeVersion_documents] at member
  rcases List.mem_append.mp member with old | new
  · exact collected entry old type
  · have same := (Prod.ext_iff.mp (List.mem_singleton.mp new)).2
    simp only at same
    rw [same]
    exact (version_fields timeFormat uuids store call name).1

theorem create_of_versioned (timeFormat : TimeFormat) (uuids : UuidSource)
    (collected : VersionsCollected state.store)
    (versioned : call.versioned state.store = some name) :
    (versionStep timeFormat uuids state call).store =
      storeVersion timeFormat uuids state.store call name := by
  simp only [versionStep, versioningCreateVersion, versioned]
  exact cleanup_eq_self timeFormat call.now _ (storeVersion_collected collected)
    (elsewhere_of_versioned versioned)

theorem versionStep_collected (collected : VersionsCollected state.store) :
    VersionsCollected (versionStep timeFormat uuids state call).store := by
  cases versioned : call.versioned state.store with
  | none =>
      simpa only [versionStep, versioningCreateVersion, versioned] using collected
  | some name =>
      rw [create_of_versioned timeFormat uuids collected versioned]
      exact storeVersion_collected collected

theorem versionRun_collected (timeFormat : TimeFormat) (uuids : UuidSource)
    {store : DocumentStore δ} (collected : VersionsCollected store) (calls : List (VersionCall δ)) :
    VersionsCollected (versionRun timeFormat uuids store calls).store := by
  rw [versionRun]
  generalize start : ({ store := store, versions := [] } : VersionedStore δ) = state
  have collected : VersionsCollected state.store := start ▸ collected
  clear start
  induction calls generalizing state with
  | nil => exact collected
  | cons call calls ih => exact ih _ (versionStep_collected collected)

theorem versionStep_versions (state : VersionedStore δ) :
    (versionStep timeFormat uuids state call).versions =
      (state.versions ++ call.made timeFormat uuids state.store).filter fun version =>
        (versionStep timeFormat uuids state call).store.holds version.2 :=
  rfl

theorem version_held (timeFormat : TimeFormat) (uuids : UuidSource)
    (collected : VersionsCollected state.store)
    (versioned : call.versioned state.store = some name) :
    (versionStep timeFormat uuids state call).store.holds
      (call.version timeFormat uuids state.store name) = true := by
  have uuid := (version_fields timeFormat uuids state.store call name).2
  rw [textField] at uuid
  rw [create_of_versioned timeFormat uuids collected versioned, DocumentStore.holds, uuid]
  simp [storeVersion_documents, entryKeys]

theorem version_mem (timeFormat : TimeFormat) (uuids : UuidSource)
    (collected : VersionsCollected state.store)
    (versioned : call.versioned state.store = some name) :
    call.version timeFormat uuids state.store name ∈
      (versionStep timeFormat uuids state call).versionsOf name := by
  have held := version_held timeFormat uuids collected versioned
  have made : call.made timeFormat uuids state.store =
      [(name, call.version timeFormat uuids state.store name)] := by
    rw [VersionCall.made, versioned]
  rw [VersionedStore.versionsOf, versionStep_versions, made, List.mem_map]
  refine ⟨(name, call.version timeFormat uuids state.store name), ?_, by simp only⟩
  simp only [List.mem_filter, List.mem_append, List.mem_singleton, or_true, held, decide_true,
    and_self]

end Calls

/-! ## Faithful histories -/

section Faithful

variable [CDouble δ] {timeFormat : TimeFormat} {uuids : UuidSource} {store : DocumentStore δ}
  {calls : List (VersionCall δ)}

def Unversioned (store : DocumentStore δ) : Prop :=
  ∀ entry ∈ store.documents, textField entry.2 (ascii "type") ≠ some (ascii "version")

omit [CDouble δ] in
theorem Unversioned.collected (unversioned : Unversioned store) : VersionsCollected store :=
  fun entry member type => absurd type (unversioned entry member)

def EachCall (timeFormat : TimeFormat) (uuids : UuidSource) (store : DocumentStore δ)
    (calls : List (VersionCall δ))
    (property : VersionedStore δ → VersionCall δ → Prop) : Prop :=
  ∀ before call after, calls = before ++ call :: after →
    property (versionRun timeFormat uuids store before) call

theorem EachCall.of_append {property : VersionedStore δ → VersionCall δ → Prop}
    {before after : List (VersionCall δ)}
    (each : EachCall timeFormat uuids store (before ++ after) property) :
    EachCall timeFormat uuids store before property := by
  intro first call rest split
  exact each first call (rest ++ after) (by rw [split, List.append_assoc, List.cons_append])

theorem versionRun_append (before : List (VersionCall δ)) (call : VersionCall δ) :
    versionRun timeFormat uuids store (before ++ [call]) =
      versionStep timeFormat uuids (versionRun timeFormat uuids store before) call := by
  rw [versionRun, versionRun, List.foldl_append, List.foldl_cons, List.foldl_nil]

theorem versionRun_of_none (unmade : EachCall timeFormat uuids store calls
    fun state call => call.versioned state.store = none) :
    versionRun timeFormat uuids store calls = { store := store, versions := [] } := by
  induction calls using List.reverseRecOn with
  | nil => rfl
  | append_singleton before call ih =>
      have last := unmade before call [] rfl
      rw [ih unmade.of_append] at last
      rw [versionRun_append, ih unmade.of_append]
      simp only [versionStep, versioningCreateVersion, VersionCall.made, last, List.append_nil,
        List.filter_nil]

/-- The histories of a run are faithful just where it makes no version. -/
theorem faithful_iff (timeFormat : TimeFormat) (uuids : UuidSource) {store : DocumentStore δ}
    (unversioned : Unversioned store) (calls : List (VersionCall δ)) :
    EachCall timeFormat uuids store calls (FaithfulCall timeFormat uuids) ↔
      EachCall timeFormat uuids store calls
        fun state call => call.versioned state.store = none := by
  constructor
  · intro faithful before call after split
    have collected := versionRun_collected timeFormat uuids
      unversioned.collected before
    cases versioned : call.versioned (versionRun timeFormat uuids store before).store with
    | none => rfl
    | some name =>
        have found := ((faithful before call after split).history name _).mpr
          (version_mem _ _ collected versioned)
        rw [history_eq_nil (versionStep_collected collected)
          (elsewhere_of_versioned versioned)] at found
        cases found
  · intro unmade before call after split
    have earlier : EachCall timeFormat uuids store (before ++ [call])
        fun state call => call.versioned state.store = none := by
      rw [split, ← List.singleton_append, ← List.append_assoc] at unmade
      exact unmade.of_append
    have last := unmade before call after split
    refine ⟨fun name version => ?_, fun name named => ?_⟩
    · rw [← versionRun_append, versionRun_of_none earlier]
      refine iff_of_false (fun found => ?_) List.not_mem_nil
      obtain ⟨stored, type, _⟩ := mem_history found
      obtain ⟨entry, member, rfl⟩ := List.mem_map.mp stored
      exact unversioned entry member type
    · rw [last] at named
      cases named

/-- A text longer than all that are in use. -/
def longerUuid : UuidSource :=
  { next := fun used => List.replicate (used.flatten.length + 1) 120
    fresh := by
      intro used member
      have short := (List.sublist_flatten_of_mem member).length_le
      rw [List.length_replicate] at short
      omega }

def oneDay : TimeFormat :=
  { format := fun _ => ascii "2024-01-01T00:00:00Z"
    parse := fun _ => some 1704067200 }

/-- An update of a document that asks for versions itself. -/
def firstVersion : VersionCall Rat :=
  { now := 1704067200
    library := some (ascii "app")
    collection := ascii "users"
    document := .object [(ascii "uuid", .string (ascii "doc-1-1")),
      (ascii "_versioning", .object [(ascii "enabled", .boolean true)])]
    operation := ascii "update" }

theorem faithful_iff_empty :
    EachCall oneDay longerUuid ⟨[], List.nodup_nil⟩ [firstVersion]
        (FaithfulCall oneDay longerUuid) ↔
      EachCall oneDay longerUuid ⟨[], List.nodup_nil⟩ [firstVersion]
        fun state call => call.versioned state.store = none :=
  faithful_iff oneDay longerUuid (fun _ member => absurd member List.not_mem_nil) [firstVersion]

/-- The first version of a document is not in its history. -/
theorem not_faithful_firstVersion :
    ¬ EachCall oneDay longerUuid ⟨[], List.nodup_nil⟩ [firstVersion]
      (FaithfulCall oneDay longerUuid) := by
  intro faithful
  have versioned : firstVersion.versioned ⟨[], List.nodup_nil⟩ =
      some ⟨some (ascii "app"), ascii "users", ascii "doc-1-1"⟩ := by
    decide +kernel
  have collected : VersionsCollected (⟨[], List.nodup_nil⟩ : DocumentStore Rat) :=
    fun _ member => absurd member List.not_mem_nil
  have found := ((faithful [] firstVersion [] rfl).history _ _).mpr
    (version_mem _ _ collected versioned)
  rw [history_eq_nil (versionStep_collected collected) (elsewhere_of_versioned versioned)] at found
  cases found

/-! No version is ever removed, so that a cleanup leaves the newest ones only
while there are no more of them than the policy allows. -/

end Faithful

end Jdbx
