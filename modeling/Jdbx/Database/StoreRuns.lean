import Jdbx.Database.CacheCoherence
import Jdbx.Rbac.SessionDocuments

/-!
# Runs over the unified collection

All calls that write documents or read them, with whole JSON objects as documents and
patches.  What a call can do to the collection is said once: it takes documents away and
adds at most one.
-/

namespace Jdbx

open Library

variable {δ : Type}

/-! ## JSON objects -/

def DistinctKeys (value : JsonValue δ) : Prop :=
  ∃ levels, Copyable levels value

def IsJsonObject (value : JsonValue δ) : Prop :=
  ∃ entries, value = .object entries ∧ DistinctKeys value

/-- What `json_object_set` builds. -/
structure JsonObject (δ : Type) where
  value : JsonValue δ
  isObject : IsJsonObject value

theorem jsonDeepCopyInternalSafe_copyable : ∀ (levels : Nat) (value : JsonValue δ),
    Copyable (levels + 1) (jsonDeepCopyInternalSafe levels value) := by
  intro levels
  induction levels with
  | zero =>
    intro value
    trivial
  | succ levels ih =>
    intro value
    cases value with
    | array items =>
      intro item member
      obtain ⟨source, _, rfl⟩ := List.mem_map.mp member
      exact ih source
    | object entries =>
      let members := entries.map fun entry =>
        (entry.1, jsonDeepCopyInternalSafe levels entry.2)
      have within : ∀ member ∈ members, Copyable (levels + 1) member.2 := by
        intro member inside
        obtain ⟨source, _, rfl⟩ := List.mem_map.mp inside
        exact ih source.2
      have copied := objectOfMembers_copyable within
      rw [objectOfMembers, List.foldl_map] at copied
      exact copied
    | null | boolean _ | number _ | integer _ | string _ => trivial

section Objects

variable {object patch value : JsonValue δ}

theorem IsJsonObject.set (isObject : IsJsonObject object) (key : Bytes)
    (distinct : DistinctKeys value) : IsJsonObject (jsonObjectSet object key value) := by
  obtain ⟨entries, rfl, levels, copyable⟩ := isObject
  obtain ⟨more, valueCopyable⟩ := distinct
  refine ⟨setEntry key value entries, rfl, max levels more + 1, ?_⟩
  exact Copyable.set (copyable.mono (by omega)) (valueCopyable.mono (by omega)) key

theorem IsJsonObject.deepCopy (isObject : IsJsonObject object) :
    IsJsonObject (jsonDeepCopy object) := by
  obtain ⟨entries, rfl, _⟩ := isObject
  obtain ⟨copied, layout, _⟩ := jsonDeepCopy_object entries
  exact ⟨copied, layout, _, jsonDeepCopyInternalSafe_copyable _ _⟩

theorem IsJsonObject.merge (isObject : IsJsonObject object) (isPatch : IsJsonObject patch)
    {copy : JsonValue δ → JsonValue δ} (isProtected : Bytes → Bool)
    (copies : ∀ field, DistinctKeys field → DistinctKeys (copy field)) :
    IsJsonObject (mergeFields copy isProtected patch object) := by
  obtain ⟨fields, rfl, levels, copyable⟩ := isPatch
  refine mergeFields_induction IsJsonObject (fun merged key field isMerged member => ?_) isObject
  cases levels with
  | zero => exact copyable.elim
  | succ levels => exact isMerged.set key (copies field ⟨levels, copyable.2 (key, field) member⟩)

theorem IsJsonObject.get_set (isObject : IsJsonObject object) (key tested : Bytes)
    (value : JsonValue δ) :
    jsonObjectGet (jsonObjectSet object key value) tested =
      if tested = key then some value else jsonObjectGet object tested := by
  obtain ⟨entries, rfl, _⟩ := isObject
  exact getEntry_setEntry key tested value entries

theorem IsJsonObject.get_deepCopy (isObject : IsJsonObject object) (key : Bytes) :
    jsonObjectGet (jsonDeepCopy object) key =
      (jsonObjectGet object key).map (jsonDeepCopyInternalSafe maxRecursionDepth) := by
  obtain ⟨entries, rfl, levels, copyable⟩ := isObject
  cases levels with
  | zero => exact copyable.elim
  | succ levels => exact jsonObjectGet_jsonDeepCopy copyable.1 key

theorem IsJsonObject.get_clone (isObject : IsJsonObject object) (key : Bytes) :
    (jsonObjectGet object key).map jsonClone = jsonObjectGet object key := by
  obtain ⟨entries, rfl, levels, copyable⟩ := isObject
  cases found : jsonObjectGet (.object entries) key with
  | none => rfl
  | some value =>
    cases levels with
    | zero => exact copyable.elim
    | succ levels =>
      have inner := copyable.2 (key, value) (mem_of_getEntry_eq_some found)
      rw [Option.map_some, jsonClone_eq_self_of_copyable inner]

theorem IsJsonObject.get_merge (isObject : IsJsonObject object) (isPatch : IsJsonObject patch)
    (copy : JsonValue δ → JsonValue δ) (isProtected : Bytes → Bool) (key : Bytes) :
    jsonObjectGet (mergeFields copy isProtected patch object) key =
      if isProtected key then jsonObjectGet object key
      else ((jsonObjectGet patch key).map copy).or (jsonObjectGet object key) := by
  obtain ⟨entries, rfl, _⟩ := isObject
  obtain ⟨fields, rfl, _⟩ := isPatch
  obtain ⟨merged, layout, held⟩ := mergeFields_object copy isProtected fields entries
  rw [layout]
  exact held key

variable [CDouble δ]

theorem getEntry_rereadEntries {key : Bytes} (plain : Plain key)
    (entries : List (Bytes × JsonValue δ)) :
    getEntry key (rereadEntries entries) = (getEntry key entries).map rereadValue := by
  have unchanged := (escapeText_eq_self_iff key).mpr plain
  induction entries with
  | nil => rfl
  | cons entry entries ih =>
    obtain ⟨other, value⟩ := entry
    have same : escapeText other = key ↔ other = key := by
      rw [← escapeText_injective.eq_iff (a := other), unchanged]
    simp only [rereadEntries, getEntry, same]
    split_ifs
    · rfl
    · exact ih

theorem IsJsonObject.get_reread (isObject : IsJsonObject object) {key : Bytes}
    (plain : Plain key) :
    jsonObjectGet (rereadValue object) key = (jsonObjectGet object key).map rereadValue := by
  obtain ⟨entries, rfl, _⟩ := isObject
  exact getEntry_rereadEntries plain entries

theorem parsed_distinctKeys {text : Bytes} (read : jsonParse text = some value) :
    DistinctKeys value :=
  ⟨_, jsonParse_copyable read⟩

theorem IsJsonObject.parsed (isObject : IsJsonObject object)
    (prints : ∀ number : δ, PrintsNumber number)
    (read : jsonParse (jsonStringify object) = some value) :
    value = rereadValue object ∧ IsJsonObject value := by
  obtain ⟨entries, rfl, levels, copyable⟩ := isObject
  have same := jsonParse_jsonStringify_object copyable.succ (Or.inr prints) read
  exact ⟨same, rereadEntries entries, same, parsed_distinctKeys read⟩

end Objects

/-- The calls of a run. -/
inductive StoreCall (δ : Type) where
  | storageInsertDocument (document : JsonObject δ)
  | virtualInsert (type library : Bytes) (collection : Option Bytes) (document : JsonObject δ)
      (owner : Bytes)
  | dbInsertDocument (library collection : Bytes) (document : JsonObject δ)
  | storageUpdateDocument (uuid : Bytes) (document : JsonObject δ)
  | virtualUpdate (uuid : Bytes) (document : JsonObject δ)
  | dbUpdateDocument (library collection id : Bytes) (update : JsonObject δ)
  | storageDeleteDocument (uuid : Bytes)
  | virtualDelete (uuid : Bytes)
  | dbDeleteDocument (library collection id : Bytes)
  | virtualGet (uuid : Bytes)
  | storageQueryDocuments (query : JsonValue δ)
  | dbGetDocument (library collection id : Bytes)
  | dbQueryDocuments (library collection : Bytes) (query : Option (JsonValue δ))

section Calls

variable [CDouble δ] {db next : Database δ} {documents : DocumentList} {entry : Bytes × Bytes}
  {document : Option (JsonValue δ)} {event : Moment × StoreCall δ}

/-- One call: its answer and the database after it, unless the process ends. -/
def performCall (db : Database δ) : Moment × StoreCall δ → Option (Answer δ × Database δ)
  | (moment, .storageInsertDocument document) =>
    some (answering (fun inserted => .document (some inserted))
      (storageInsertDocument moment db document.value))
  | (moment, .virtualInsert type library collection document owner) =>
    some (answering (fun inserted => .document (some inserted))
      (virtualInsert moment db type library collection document.value owner))
  | (moment, .dbInsertDocument library collection document) =>
    some (answering (fun inserted => .document (some inserted))
      (dbInsertDocument moment db library collection document.value))
  | (moment, .storageUpdateDocument uuid document) =>
    some (answering .document (storageUpdateDocument moment db uuid document.value))
  | (moment, .virtualUpdate uuid document) =>
    some (answering .document (virtualUpdate moment db uuid document.value))
  | (moment, .dbUpdateDocument library collection id update) =>
    (dbUpdateDocument moment db library collection id update.value).map (answering .document)
  | (_, .storageDeleteDocument uuid) => some (answering .success (storageDeleteDocument db uuid))
  | (_, .virtualDelete uuid) => some (answering .success (virtualDelete db uuid))
  | (_, .dbDeleteDocument library collection id) =>
    (dbDeleteDocument db library collection id).map (answering .success)
  | (_, .virtualGet uuid) => some (answering .document (virtualGet db uuid))
  | (_, .storageQueryDocuments query) => some (.result (storageQueryDocuments db query), db)
  | (_, .dbGetDocument library collection id) =>
    (dbGetDocument db library collection id).map (answering .document)
  | (_, .dbQueryDocuments library collection query) =>
    (dbQueryDocuments db library collection query).map (answering .result)

def storeStep (db : Database δ) (event : Moment × StoreCall δ) : Option (Database δ) :=
  (performCall db event).map Prod.snd

/-! ## What a call writes -/

omit [CDouble δ] in
/-- The document that `storage_insert_document` stores. -/
def storageInserted (moment : Moment) (document : JsonValue δ) : JsonValue δ :=
  let withUuid :=
    jsonObjectSet (jsonDeepCopy document) (ascii "uuid") (.string (documentUuid moment))
  let created :=
    match jsonObjectGet withUuid (ascii "created_at") with
    | some _ => withUuid
    | none => jsonObjectSet withUuid (ascii "created_at") (.integer moment.now)
  jsonObjectSet created (ascii "modified_at") (.integer moment.now)

omit [CDouble δ] in
/-- The document that `virtual_insert` hands on. -/
def virtualInserted (type library : Bytes) (collection : Option Bytes) (document : JsonValue δ)
    (owner : Bytes) : JsonValue δ :=
  let typed := jsonObjectSet (jsonDeepCopy document) (ascii "type") (.string type)
  let placed := jsonObjectSet typed (ascii "library") (.string library)
  let collected :=
    jsonObjectSet placed (ascii "collection") (.string (collection.getD (autoCollection type)))
  jsonObjectSet collected (ascii "owner") (.string owner)

omit [CDouble δ] in
/-- The document that `db_insert_document` stores. -/
def dbInserted (moment : Moment) (library collection : Bytes) (document : JsonValue δ) :
    JsonValue δ :=
  let withUuid :=
    jsonObjectSet (jsonDeepCopy document) (ascii "uuid") (.string (documentUuid moment))
  let typed := keepStringOr withUuid (ascii "type") collection
  let placed := keepStringOr typed (ascii "library") library
  let collected := keepStringOr placed (ascii "collection") collection
  let created := jsonObjectSet collected (ascii "created_at") (.integer moment.now)
  jsonObjectSet created (ascii "modified_at") (.integer moment.now)

omit [CDouble δ] in
/-- The document that `db_update_document` stores. -/
def dbUpdated (moment : Moment) (update existing : JsonValue δ) : JsonValue δ :=
  jsonObjectSet (mergeFields jsonDeepCopy isMandatoryField update (jsonDeepCopy existing))
    (ascii "modified_at") (.integer moment.now)

omit [CDouble δ] in
/-- The patch that `virtual_update` hands on. -/
def virtualPatch (moment : Moment) (document : JsonValue δ) : JsonValue δ :=
  jsonObjectSet (jsonDeepCopy document) (ascii "updated_at") (.integer moment.now)

omit [CDouble δ] in
def insertion (db : Database δ) (moment : Moment) (document : JsonValue δ) :
    Option (Bytes × JsonValue δ) :=
  if (skiplistSearch db.documents (documentUuid moment)).isSome then none
  else some (documentUuid moment, document)

/-- The uuid and the document that a call writes, if it writes one. -/
def written (db : Database δ) : Moment × StoreCall δ → Option (Bytes × JsonValue δ)
  | (moment, .storageInsertDocument document) =>
    insertion db moment (storageInserted moment document.value)
  | (moment, .virtualInsert type library collection document owner) =>
    insertion db moment
      (storageInserted moment (virtualInserted type library collection document.value owner))
  | (moment, .dbInsertDocument library collection document) =>
    insertion db moment (dbInserted moment library collection document.value)
  | (moment, .storageUpdateDocument uuid document) =>
    (storageGetDocument db uuid).map fun existing =>
      (uuid, updatedDocument moment document.value existing)
  | (moment, .virtualUpdate uuid document) =>
    (storageGetDocument db uuid).map fun existing =>
      (uuid, updatedDocument moment (virtualPatch moment document.value) existing)
  | (moment, .dbUpdateDocument library collection id update) =>
    (storageGetDocument db id).bind fun existing =>
      if matchesLibraryAndType existing library collection = some true then
        some (id, dbUpdated moment update.value existing)
      else none
  | _ => none

omit [CDouble δ] in
theorem mem_skiplistInsert {key value : Bytes}
    (member : entry ∈ (skiplistInsert documents key value).entries) :
    entry ∈ documents.entries ∨ entry = (key, value) := by
  rw [skiplistInsert] at member
  split_ifs at member
  · exact Or.inl member
  · simpa using member

omit [CDouble δ] in
theorem mem_skiplistDelete {key : Bytes} (member : entry ∈ (skiplistDelete documents key).entries) :
    entry ∈ documents.entries :=
  (removeEntry_sublist key documents.entries).subset member

omit [CDouble δ] in
theorem mem_replaceDocument {key value : Bytes}
    (member : entry ∈ (replaceDocument documents key value).entries) :
    entry ∈ documents.entries ∨ entry = (key, value) :=
  (mem_skiplistInsert member).imp_left mem_skiplistDelete

theorem dbQueryDocuments_documents {library collection : Bytes} {query : Option (JsonValue δ)}
    {result : JsonValue δ}
    (returned : dbQueryDocuments db library collection query = some (result, next)) :
    next.documents = db.documents := by
  rw [dbQueryDocuments] at returned
  cases found : (cacheGet db.queryCache
      (generateQueryCacheKeyFast library collection query)).1 with
  | some cachedResult =>
    simp only [found] at returned
    obtain ⟨_, rfl⟩ := Prod.mk.inj (Option.some.inj returned)
    rfl
  | none =>
    simp only [found] at returned
    obtain ⟨documents, _, equal⟩ := Option.map_eq_some_iff.mp returned
    obtain ⟨_, rfl⟩ := Prod.mk.inj equal
    rfl

theorem dbGetStoredDocument_documents {library collection id : Bytes}
    (returned : dbGetStoredDocument db library collection id = some (document, next)) :
    next.documents = db.documents := by
  rw [dbGetStoredDocument] at returned
  obtain ⟨⟨result, queried⟩, asked, equal⟩ := Option.map_eq_some_iff.mp returned
  have kept := dbQueryDocuments_documents asked
  split at equal
  · obtain ⟨_, rfl⟩ := Prod.mk.inj equal
    exact kept
  · obtain ⟨_, rfl⟩ := Prod.mk.inj equal
    exact kept

theorem dbGetDocument_documents {library collection id : Bytes}
    (returned : dbGetDocument db library collection id = some (document, next)) :
    next.documents = db.documents := by
  rw [dbGetDocument] at returned
  cases found : (cacheGet db.docCache (generateDocCacheKeyFast id)).1 with
  | none =>
    simp only [found] at returned
    have kept := dbGetStoredDocument_documents returned
    exact kept
  | some doc =>
    simp only [found] at returned
    obtain ⟨same, _, continued⟩ := Option.bind_eq_some_iff.mp returned
    cases same with
    | true =>
      obtain ⟨_, rfl⟩ := Prod.mk.inj (Option.some.inj continued)
      rfl
    | false =>
      simp only [Bool.false_eq_true, if_false] at continued
      have kept := dbGetStoredDocument_documents continued
      exact kept

/-- The documents after a call are documents from before, and what the call writes. -/
structure Writes (db next : Database δ) (document : Option (Bytes × JsonValue δ)) : Prop where
  atMost : ∀ entry ∈ next.documents.entries, entry ∈ db.documents.entries ∨
    ∃ value, document = some (entry.1, value) ∧ entry.2 = jsonStringify value
  atLeast : ∀ key value, document = some (key, value) →
    skiplistSearch next.documents key = some (jsonStringify value)

theorem Writes.nothing (subset : next.documents.entries ⊆ db.documents.entries) :
    Writes db next none :=
  { atMost := fun _ member => Or.inl (subset member)
    atLeast := fun _ _ absurdity => by cases absurdity }

theorem Writes.refl (kept : next.documents = db.documents) :
    Writes db next none :=
  Writes.nothing (by rw [kept]; exact List.Subset.refl _)

theorem Writes.one {uuid : Bytes} {value : JsonValue δ}
    (writes : ∀ entry ∈ next.documents.entries,
      entry ∈ db.documents.entries ∨ entry = (uuid, jsonStringify value))
    (stored : skiplistSearch next.documents uuid = some (jsonStringify value)) :
    Writes db next (some (uuid, value)) := by
  constructor
  · intro entry member
    rcases writes entry member with old | rfl
    · exact Or.inl old
    · exact Or.inr ⟨value, rfl, rfl⟩
  · intro key other same
    obtain ⟨rfl, rfl⟩ := Prod.mk.inj (Option.some.inj same)
    exact stored

theorem insertion_writes (db : Database δ) (moment : Moment) (document : JsonValue δ) :
    Writes db
      { db with
        documents := skiplistInsert db.documents (documentUuid moment) (jsonStringify document) }
      (insertion db moment document) := by
  rw [insertion]
  cases stored : skiplistSearch db.documents (documentUuid moment) with
  | none =>
    exact Writes.one (fun entry member => mem_skiplistInsert member)
      (skiplistSearch_insert_self stored _)
  | some held => exact Writes.refl (skiplistInsert_of_stored stored _)

theorem storageUpdateDocument_writes (moment : Moment) (db : Database δ) (uuid : Bytes)
    (document : JsonValue δ) :
    Writes db (storageUpdateDocument moment db uuid document).2
      ((storageGetDocument db uuid).map fun existing =>
        (uuid, updatedDocument moment document existing)) := by
  rw [storageUpdateDocument]
  cases storageGetDocument db uuid with
  | none => exact Writes.refl rfl
  | some existing =>
    exact Writes.one (fun entry member => mem_replaceDocument member)
      (skiplistSearch_replace_self _ _ _)

theorem storageGetDocument_congr (same : next.documents = db.documents) (uuid : Bytes) :
    storageGetDocument next uuid = storageGetDocument db uuid := by
  rw [storageGetDocument, same, storageGetDocument]

theorem virtualUpdate_isSome (moment : Moment) (db : Database δ) (uuid : Bytes)
    (patch : JsonValue δ) :
    (virtualUpdate moment db uuid patch).1.isSome = (storageGetDocument db uuid).isSome := by
  rw [virtualUpdate, storageUpdateDocument]
  cases storageGetDocument db uuid with
  | none => rfl
  | some existing => rfl

omit [CDouble δ] in
theorem storageDeleteDocument_subset (db : Database δ) (uuid : Bytes) :
    (storageDeleteDocument db uuid).2.documents.entries ⊆ db.documents.entries := by
  rw [storageDeleteDocument]
  cases skiplistSearch db.documents uuid with
  | none => exact List.Subset.refl _
  | some text => exact fun entry member => mem_skiplistDelete member

theorem performCall_writes {answer : Answer δ}
    (taken : performCall db event = some (answer, next)) :
    Writes db next (written db event) := by
  obtain ⟨moment, call⟩ := event
  cases call with
  | storageInsertDocument document =>
    obtain ⟨_, rfl⟩ := Prod.mk.inj (Option.some.inj taken)
    exact insertion_writes db moment _
  | virtualInsert type library collection document owner =>
    obtain ⟨_, rfl⟩ := Prod.mk.inj (Option.some.inj taken)
    exact insertion_writes db moment _
  | dbInsertDocument library collection document =>
    obtain ⟨_, rfl⟩ := Prod.mk.inj (Option.some.inj taken)
    exact insertion_writes db moment _
  | storageUpdateDocument uuid document =>
    obtain ⟨_, rfl⟩ := Prod.mk.inj (Option.some.inj taken)
    exact storageUpdateDocument_writes moment db uuid document.value
  | virtualUpdate uuid document =>
    obtain ⟨_, rfl⟩ := Prod.mk.inj (Option.some.inj taken)
    exact storageUpdateDocument_writes moment db uuid (virtualPatch moment document.value)
  | dbUpdateDocument library collection id update =>
    obtain ⟨⟨document, next⟩, returned, equal⟩ := Option.map_eq_some_iff.mp taken
    obtain ⟨_, rfl⟩ := Prod.mk.inj equal
    rw [dbUpdateDocument] at returned
    rw [written]
    cases stored : storageGetDocument db id with
    | none =>
      simp only [stored] at returned
      obtain ⟨_, rfl⟩ := Prod.mk.inj (Option.some.inj returned)
      exact Writes.refl rfl
    | some existing =>
      simp only [stored] at returned
      obtain ⟨same, compared, equal⟩ := Option.map_eq_some_iff.mp returned
      rw [Option.bind_some, compared]
      cases same with
      | true =>
        obtain ⟨_, rfl⟩ := Prod.mk.inj equal
        exact Writes.one (fun entry member => mem_replaceDocument member)
          (skiplistSearch_replace_self _ _ _)
      | false =>
        obtain ⟨_, rfl⟩ := Prod.mk.inj equal
        exact Writes.refl rfl
  | storageDeleteDocument uuid | virtualDelete uuid =>
    obtain ⟨_, rfl⟩ := Prod.mk.inj (Option.some.inj taken)
    exact Writes.nothing (storageDeleteDocument_subset db uuid)
  | dbDeleteDocument library collection id =>
    obtain ⟨⟨success, next⟩, returned, equal⟩ := Option.map_eq_some_iff.mp taken
    obtain ⟨_, rfl⟩ := Prod.mk.inj equal
    rw [dbDeleteDocument] at returned
    cases stored : storageGetDocument db id with
    | none =>
      simp only [stored] at returned
      obtain ⟨_, rfl⟩ := Prod.mk.inj (Option.some.inj returned)
      exact Writes.refl rfl
    | some existing =>
      simp only [stored] at returned
      obtain ⟨same, _, equal⟩ := Option.map_eq_some_iff.mp returned
      cases same with
      | true =>
        obtain ⟨_, rfl⟩ := Prod.mk.inj equal
        exact Writes.nothing fun entry member => mem_skiplistDelete member
      | false =>
        obtain ⟨_, rfl⟩ := Prod.mk.inj equal
        exact Writes.refl rfl
  | virtualGet uuid =>
    obtain ⟨_, rfl⟩ := Prod.mk.inj (Option.some.inj taken)
    have kept : (virtualGet db uuid).2.documents = db.documents := by
      rw [virtualGet]
      cases (cacheGet db.docCache (generateDocCacheKeyFast uuid)).1 with
      | some cachedDoc => rfl
      | none => cases storageGetDocument db uuid <;> rfl
    exact Writes.refl kept
  | storageQueryDocuments query =>
    obtain ⟨_, rfl⟩ := Prod.mk.inj (Option.some.inj taken)
    exact Writes.refl rfl
  | dbGetDocument library collection id =>
    obtain ⟨⟨document, next⟩, returned, equal⟩ := Option.map_eq_some_iff.mp taken
    obtain ⟨_, rfl⟩ := Prod.mk.inj equal
    exact Writes.refl (dbGetDocument_documents returned)
  | dbQueryDocuments library collection query =>
    obtain ⟨⟨result, next⟩, returned, equal⟩ := Option.map_eq_some_iff.mp taken
    obtain ⟨_, rfl⟩ := Prod.mk.inj equal
    exact Writes.refl (dbQueryDocuments_documents returned)

omit [CDouble δ] in
def StoreCall.isCached : StoreCall δ → Bool
  | .virtualGet _ | .dbGetDocument _ _ _ | .dbQueryDocuments _ _ _ => true
  | _ => false

theorem storageUpdateDocument_caches (moment : Moment) (db : Database δ) (uuid : Bytes)
    (document : JsonValue δ) :
    (storageUpdateDocument moment db uuid document).2.docCache = db.docCache ∧
      (storageUpdateDocument moment db uuid document).2.queryCache = db.queryCache := by
  rw [storageUpdateDocument]
  cases storageGetDocument db uuid <;> exact ⟨rfl, rfl⟩

omit [CDouble δ] in
theorem storageDeleteDocument_caches (db : Database δ) (uuid : Bytes) :
    (storageDeleteDocument db uuid).2.docCache = db.docCache ∧
      (storageDeleteDocument db uuid).2.queryCache = db.queryCache := by
  rw [storageDeleteDocument]
  cases skiplistSearch db.documents uuid <;> exact ⟨rfl, rfl⟩

theorem performCall_caches {answer : Answer δ}
    (taken : performCall db event = some (answer, next)) (notCached : event.2.isCached = false) :
    next.docCache = db.docCache ∧ next.queryCache = db.queryCache := by
  obtain ⟨moment, call⟩ := event
  cases call with
  | storageInsertDocument _ | virtualInsert _ _ _ _ _ | dbInsertDocument _ _ _
  | storageQueryDocuments _ =>
    obtain ⟨_, rfl⟩ := Prod.mk.inj (Option.some.inj taken)
    exact ⟨rfl, rfl⟩
  | storageUpdateDocument uuid document | virtualUpdate uuid document =>
    obtain ⟨_, rfl⟩ := Prod.mk.inj (Option.some.inj taken)
    exact storageUpdateDocument_caches moment db uuid _
  | storageDeleteDocument uuid | virtualDelete uuid =>
    obtain ⟨_, rfl⟩ := Prod.mk.inj (Option.some.inj taken)
    exact storageDeleteDocument_caches db uuid
  | dbUpdateDocument library collection id update =>
    obtain ⟨⟨document, next⟩, returned, equal⟩ := Option.map_eq_some_iff.mp taken
    obtain ⟨_, rfl⟩ := Prod.mk.inj equal
    rw [dbUpdateDocument] at returned
    cases stored : storageGetDocument db id with
    | none =>
      simp only [stored] at returned
      obtain ⟨_, rfl⟩ := Prod.mk.inj (Option.some.inj returned)
      exact ⟨rfl, rfl⟩
    | some existing =>
      simp only [stored] at returned
      obtain ⟨same, _, equal⟩ := Option.map_eq_some_iff.mp returned
      cases same <;> obtain ⟨_, rfl⟩ := Prod.mk.inj equal <;> exact ⟨rfl, rfl⟩
  | dbDeleteDocument library collection id =>
    obtain ⟨⟨success, next⟩, returned, equal⟩ := Option.map_eq_some_iff.mp taken
    obtain ⟨_, rfl⟩ := Prod.mk.inj equal
    rw [dbDeleteDocument] at returned
    cases stored : storageGetDocument db id with
    | none =>
      simp only [stored] at returned
      obtain ⟨_, rfl⟩ := Prod.mk.inj (Option.some.inj returned)
      exact ⟨rfl, rfl⟩
    | some existing =>
      simp only [stored] at returned
      obtain ⟨same, _, equal⟩ := Option.map_eq_some_iff.mp returned
      cases same <;> obtain ⟨_, rfl⟩ := Prod.mk.inj equal <;> exact ⟨rfl, rfl⟩
  | virtualGet _ | dbGetDocument _ _ _ | dbQueryDocuments _ _ _ => cases notCached

def StoresOnly (law : Bytes → JsonValue δ → Prop) (db : Database δ) : Prop :=
  ∀ entry ∈ db.documents.entries, ∃ document, IsJsonObject document ∧
    entry.2 = jsonStringify document ∧ law entry.1 document

section Laws

variable {law : Bytes → JsonValue δ → Prop} {db next : Database δ}
  {event : Moment × StoreCall δ} {answer : Answer δ} {uuid : Bytes} {existing : JsonValue δ}

theorem StoresOnly.step (stores : StoresOnly law db)
    (taken : performCall db event = some (answer, next))
    (lawful : ∀ key document, written db event = some (key, document) →
      IsJsonObject document ∧ law key document) : StoresOnly law next := by
  intro entry member
  rcases (performCall_writes taken).atMost entry member with old | ⟨document, writes, text⟩
  · exact stores entry old
  · obtain ⟨isObject, holds⟩ := lawful entry.1 document writes
    exact ⟨document, isObject, text, holds⟩

theorem StoresOnly.get (stores : StoresOnly law db) (prints : ∀ number : δ, PrintsNumber number)
    (stored : storageGetDocument db uuid = some existing) :
    ∃ document, IsJsonObject document ∧ law uuid document ∧ existing = rereadValue document ∧
      IsJsonObject existing := by
  obtain ⟨text, found, read⟩ := Option.bind_eq_some_iff.mp stored
  obtain ⟨document, isObject, same, holds⟩ := stores (uuid, text) (mem_of_getEntry_eq_some found)
  obtain rfl : text = jsonStringify document := same
  obtain ⟨reread, isExisting⟩ := isObject.parsed prints read
  exact ⟨document, isObject, holds, reread, isExisting⟩

end Laws

/-! ## Written documents -/

section Written

variable {moment : Moment} {document patch existing : JsonValue δ} {key : Bytes}

omit [CDouble δ] in
theorem distinctKeys_string (text : Bytes) : DistinctKeys (.string text : JsonValue δ) :=
  ⟨1, trivial⟩

omit [CDouble δ] in
theorem distinctKeys_integer (integer : Int64) : DistinctKeys (.integer integer : JsonValue δ) :=
  ⟨1, trivial⟩

omit [CDouble δ] in
theorem IsJsonObject.keepStringOr (isObject : IsJsonObject document) (key value : Bytes) :
    IsJsonObject (keepStringOr document key value) := by
  rw [Jdbx.keepStringOr]
  split
  · exact isObject
  · exact isObject.set key (distinctKeys_string value)

omit [CDouble δ] in
theorem storageInserted_isObject (isObject : IsJsonObject document) (moment : Moment) :
    IsJsonObject (storageInserted moment document) := by
  have withUuid :=
    isObject.deepCopy.set (ascii "uuid") (distinctKeys_string (documentUuid moment))
  rw [storageInserted]
  cases jsonObjectGet (jsonObjectSet (jsonDeepCopy document) (ascii "uuid")
      (.string (documentUuid moment))) (ascii "created_at") with
  | none => exact (withUuid.set _ (distinctKeys_integer _)).set _ (distinctKeys_integer _)
  | some created => exact withUuid.set _ (distinctKeys_integer _)

omit [CDouble δ] in
theorem virtualInserted_isObject (isObject : IsJsonObject document) (type library : Bytes)
    (collection : Option Bytes) (owner : Bytes) :
    IsJsonObject (virtualInserted type library collection document owner) :=
  (((isObject.deepCopy.set _ (distinctKeys_string type)).set _ (distinctKeys_string library)).set
    _ (distinctKeys_string _)).set _ (distinctKeys_string owner)

omit [CDouble δ] in
theorem dbInserted_isObject (isObject : IsJsonObject document) (moment : Moment)
    (library collection : Bytes) :
    IsJsonObject (dbInserted moment library collection document) := by
  have withUuid :=
    isObject.deepCopy.set (ascii "uuid") (distinctKeys_string (documentUuid moment))
  have collected := ((withUuid.keepStringOr (ascii "type") collection).keepStringOr
    (ascii "library") library).keepStringOr (ascii "collection") collection
  exact (collected.set _ (distinctKeys_integer _)).set _ (distinctKeys_integer _)

omit [CDouble δ] in
theorem virtualPatch_isObject (isPatch : IsJsonObject patch) (moment : Moment) :
    IsJsonObject (virtualPatch moment patch) :=
  isPatch.deepCopy.set _ (distinctKeys_integer _)

omit [CDouble δ] in
theorem updatedDocument_isObject (isPatch : IsJsonObject patch)
    (isObject : IsJsonObject existing) (moment : Moment) :
    IsJsonObject (updatedDocument moment patch existing) := by
  refine IsJsonObject.set ?_ _ (distinctKeys_integer _)
  refine isObject.deepCopy.merge isPatch _ fun field distinct => ?_
  obtain ⟨levels, copyable⟩ := distinct
  rw [jsonClone_eq_self_of_copyable copyable]
  exact ⟨levels, copyable⟩

omit [CDouble δ] in
theorem dbUpdated_isObject (isPatch : IsJsonObject patch) (isObject : IsJsonObject existing)
    (moment : Moment) : IsJsonObject (dbUpdated moment patch existing) := by
  refine IsJsonObject.set ?_ _ (distinctKeys_integer _)
  exact isObject.deepCopy.merge isPatch _ fun field _ =>
    ⟨_, jsonDeepCopyInternalSafe_copyable _ _⟩

omit [CDouble δ] in
theorem insertion_eq_some {db : Database δ} {value : JsonValue δ}
    (writes : insertion db moment document = some (key, value)) : value = document := by
  rw [insertion] at writes
  split_ifs at writes
  exact (Prod.mk.inj (Option.some.inj writes)).2.symm

theorem written_isObject {db : Database δ} {event : Moment × StoreCall δ}
    (existing : ∀ uuid held, storageGetDocument db uuid = some held → IsJsonObject held)
    (writes : written db event = some (key, document)) : IsJsonObject document := by
  obtain ⟨moment, call⟩ := event
  cases call with
  | storageInsertDocument document =>
    obtain rfl := insertion_eq_some writes
    exact storageInserted_isObject document.isObject moment
  | virtualInsert type library collection document owner =>
    obtain rfl := insertion_eq_some writes
    exact storageInserted_isObject (virtualInserted_isObject document.isObject _ _ _ _) moment
  | dbInsertDocument library collection document =>
    obtain rfl := insertion_eq_some writes
    exact dbInserted_isObject document.isObject moment library collection
  | storageUpdateDocument uuid document =>
    obtain ⟨held, stored, equal⟩ := Option.map_eq_some_iff.mp writes
    obtain ⟨_, rfl⟩ := Prod.mk.inj equal
    exact updatedDocument_isObject document.isObject (existing uuid held stored) moment
  | virtualUpdate uuid document =>
    obtain ⟨held, stored, equal⟩ := Option.map_eq_some_iff.mp writes
    obtain ⟨_, rfl⟩ := Prod.mk.inj equal
    exact updatedDocument_isObject (virtualPatch_isObject document.isObject moment)
      (existing uuid held stored) moment
  | dbUpdateDocument library collection id update =>
    obtain ⟨held, stored, matched⟩ := Option.bind_eq_some_iff.mp writes
    split_ifs at matched
    obtain ⟨_, rfl⟩ := Prod.mk.inj (Option.some.inj matched)
    exact dbUpdated_isObject update.isObject (existing id held stored) moment
  | storageDeleteDocument _ | virtualDelete _ | dbDeleteDocument _ _ _ | virtualGet _
  | storageQueryDocuments _ | dbGetDocument _ _ _ | dbQueryDocuments _ _ _ => cases writes

omit [CDouble δ] in
theorem storageInserted_get (isObject : IsJsonObject document) (notUuid : key ≠ ascii "uuid")
    (notCreated : key ≠ ascii "created_at") (notModified : key ≠ ascii "modified_at") :
    jsonObjectGet (storageInserted moment document) key =
      (jsonObjectGet document key).map (jsonDeepCopyInternalSafe maxRecursionDepth) := by
  rw [storageInserted]
  cases jsonObjectGet (jsonObjectSet (jsonDeepCopy document) (ascii "uuid")
      (.string (documentUuid moment))) (ascii "created_at") with
  | none =>
    simp only [jsonObjectGet_set_of_ne _ notModified, jsonObjectGet_set_of_ne _ notCreated,
      jsonObjectGet_set_of_ne _ notUuid, isObject.get_deepCopy]
  | some created =>
    simp only [jsonObjectGet_set_of_ne _ notModified, jsonObjectGet_set_of_ne _ notUuid,
      isObject.get_deepCopy]

omit [CDouble δ] in
theorem updatedDocument_get (isPatch : IsJsonObject patch) (isObject : IsJsonObject existing)
    (notModified : key ≠ ascii "modified_at") :
    jsonObjectGet (updatedDocument moment patch existing) key =
      ((jsonObjectGet patch key).map jsonClone).or
        ((jsonObjectGet existing key).map (jsonDeepCopyInternalSafe maxRecursionDepth)) := by
  rw [updatedDocument, jsonObjectGet_set_of_ne _ notModified,
    isObject.deepCopy.get_merge isPatch, isObject.get_deepCopy]
  rfl

omit [CDouble δ] in
theorem virtualPatch_get (isPatch : IsJsonObject patch) (notUpdated : key ≠ ascii "updated_at") :
    jsonObjectGet (virtualPatch moment patch) key =
      (jsonObjectGet patch key).map (jsonDeepCopyInternalSafe maxRecursionDepth) := by
  rw [virtualPatch, jsonObjectGet_set_of_ne _ notUpdated, isPatch.get_deepCopy]

omit [CDouble δ] in
theorem dbUpdated_get (isPatch : IsJsonObject patch) (isObject : IsJsonObject existing)
    (isProtected : isMandatoryField key = true) (notModified : key ≠ ascii "modified_at") :
    jsonObjectGet (dbUpdated moment patch existing) key =
      (jsonObjectGet existing key).map (jsonDeepCopyInternalSafe maxRecursionDepth) := by
  rw [dbUpdated, jsonObjectGet_set_of_ne _ notModified, isObject.deepCopy.get_merge isPatch,
    if_pos isProtected, isObject.get_deepCopy]

end Written

end Calls

end Jdbx
