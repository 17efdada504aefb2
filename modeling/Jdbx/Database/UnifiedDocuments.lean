import Jdbx.Utils.JsonDeepCopy
import Jdbx.Utils.JsonStringify
import Jdbx.Utils.GenericCache

/-!
# The unified documents collection

All documents are JSON texts in one collection, keyed by uuid.  Two layers of
functions work on it: `storage_` and `virtual_` without a look at the library
of a document, and the older `db_` functions, which check it.  Three reads go
through the caches of `jdbx_database_t`.

`strcmp` of a `NULL` string ends the process.  Functions that can reach one
return an `Option` whose `none` is that end.
-/

namespace Jdbx

open Library

/-! ## The document list -/

/-- The `art_document_list_t` under the skiplist functions: keys and values in
the order of insertion. -/
structure DocumentList where
  entries : List (Bytes × Bytes)
  distinct : (entryKeys entries).Nodup

/-- `skiplist_create`. -/
def DocumentList.empty : DocumentList :=
  { entries := [], distinct := List.nodup_nil }

def skiplistSearch (documents : DocumentList) (key : Bytes) : Option Bytes :=
  getEntry key documents.entries

/-- `skiplist_insert`, which leaves a key that is already there alone. -/
def skiplistInsert (documents : DocumentList) (key value : Bytes) : DocumentList :=
  if absent : key ∈ entryKeys documents.entries then documents
  else
    { entries := documents.entries ++ [(key, value)]
      distinct := by
        rw [entryKeys, List.map_append]
        exact documents.distinct.append (List.nodup_singleton key) (by simpa using absent) }

/-- `skiplist_delete`, without its flag. -/
def skiplistDelete (documents : DocumentList) (key : Bytes) : DocumentList :=
  { entries := removeEntry key documents.entries
    distinct := entryKeys_removeEntry_nodup documents.distinct key }

def replaceDocument (documents : DocumentList) (key value : Bytes) : DocumentList :=
  skiplistInsert (skiplistDelete documents key) key value

variable {documents : DocumentList}

theorem skiplistSearch_insert_of_ne {uuid other value : Bytes} (different : other ≠ uuid) :
    skiplistSearch (skiplistInsert documents uuid value) other =
      skiplistSearch documents other := by
  rw [skiplistInsert]
  split_ifs
  · rfl
  · rw [skiplistSearch, getEntry_append, skiplistSearch]
    cases getEntry other documents.entries with
    | none => simp [getEntry, Ne.symm different]
    | some held => rfl

theorem skiplistSearch_delete_of_ne {uuid other : Bytes} (different : other ≠ uuid) :
    skiplistSearch (skiplistDelete documents uuid) other = skiplistSearch documents other :=
  getEntry_removeEntry_of_ne different documents.entries

theorem skiplistSearch_replace_of_ne {uuid other value : Bytes} (different : other ≠ uuid) :
    skiplistSearch (replaceDocument documents uuid value) other =
      skiplistSearch documents other := by
  rw [replaceDocument, skiplistSearch_insert_of_ne different,
    skiplistSearch_delete_of_ne different]

theorem skiplistSearch_insert_self {uuid : Bytes} (absent : skiplistSearch documents uuid = none)
    (value : Bytes) :
    skiplistSearch (skiplistInsert documents uuid value) uuid = some value := by
  rw [skiplistInsert, dif_neg (getEntry_eq_none_iff.mp absent), skiplistSearch, getEntry_append,
    show getEntry uuid documents.entries = none from absent]
  simp [getEntry]

theorem skiplistSearch_replace_self (documents : DocumentList) (uuid value : Bytes) :
    skiplistSearch (replaceDocument documents uuid value) uuid = some value := by
  have absent : skiplistSearch (skiplistDelete documents uuid) uuid = none :=
    getEntry_removeEntry_self documents.distinct
  exact skiplistSearch_insert_self absent value

theorem skiplistInsert_of_stored {uuid held : Bytes}
    (stored : skiplistSearch documents uuid = some held) (value : Bytes) :
    skiplistInsert documents uuid value = documents := by
  rw [skiplistInsert, dif_pos]
  exact List.mem_map.mpr ⟨(uuid, held), mem_of_getEntry_eq_some stored, rfl⟩

theorem skiplistSearch_insert_of_stored {uuid other value held : Bytes}
    (stored : skiplistSearch documents other = some held) :
    skiplistSearch (skiplistInsert documents uuid value) other = some held := by
  rw [skiplistInsert]
  split_ifs
  · exact stored
  · rw [skiplistSearch, getEntry_append]
    rw [skiplistSearch] at stored
    rw [stored, Option.some_or]

variable {δ : Type}

/-- The part of `jdbx_database_t` that holds documents.  A cache that was not
created is `none`. -/
structure Database (δ : Type) where
  documents : DocumentList
  queryCache : Option (GenericCache Bytes (JsonValue δ))
  docCache : Option (GenericCache Bytes (JsonValue δ))

/-- What an operation takes from the outside: `time(NULL)`, and the
`random_val` of a generated uuid. -/
structure Moment where
  now : Int64
  randomVal : UInt32

/-- The uuid `doc-<time>-<random>`. -/
def documentUuid (moment : Moment) : Bytes :=
  ascii "doc-" ++ formatInt64 moment.now ++ ascii "-" ++ decimal moment.randomVal.toNat

/-- `generate_doc_cache_key_fast`, into a buffer of 256 bytes. -/
def generateDocCacheKeyFast (uuid : Bytes) : Option Bytes :=
  if uuid.length + 5 > 256 then none else some (ascii "doc:" ++ uuid)

def queryHash (queryStr : Bytes) : UInt32 :=
  queryStr.foldl (fun hash byte => (hash <<< 5) + hash + byte.toUInt32) 0

/-- `%08x`. -/
def formatHex8 (value : UInt32) : Bytes :=
  (List.range 8).map fun place => hexDigitByte (value.toNat / 16 ^ (7 - place) % 16)

section Values

variable [CDouble δ]

/-- `generate_query_cache_key_fast`, into a buffer of 512 bytes. -/
def generateQueryCacheKeyFast (library collection : Bytes) (query : Option (JsonValue δ)) :
    Option Bytes :=
  let hash :=
    match query with
    | some query => queryHash (jsonStringify query)
    | none => 0
  let key := library ++ ascii ":" ++ collection ++ ascii ":" ++ formatHex8 hash
  if key.length < 512 then some key else none

end Values

/-- `generic_cache_get`, where there is a cache and a key. -/
def cacheGet (cache : Option (GenericCache Bytes (JsonValue δ))) (key : Option Bytes) :
    Option (JsonValue δ) × Option (GenericCache Bytes (JsonValue δ)) :=
  match cache, key with
  | some cache, some key =>
      let found := genericCacheGet cache key
      (found.1, some found.2)
  | cache, _ => (none, cache)

/-- `generic_cache_put`, where there is a cache and a key. -/
def cachePut (cache : Option (GenericCache Bytes (JsonValue δ))) (key : Option Bytes)
    (value : JsonValue δ) : Option (GenericCache Bytes (JsonValue δ)) :=
  match cache, key with
  | some cache, some key => some (genericCachePut cache key value)
  | cache, _ => cache

/-! ## Matching documents -/

/-- `strcmp(json_get_string(value), text) == 0`. -/
def strcmpEqual (value : JsonValue δ) (text : Bytes) : Option Bool :=
  (jsonGetString (some value)).map fun held => held == text

/-- The check of a document's `library` and `type` fields. -/
def matchesLibraryAndType (doc : JsonValue δ) (library collection : Bytes) : Option Bool :=
  match jsonObjectGet doc (ascii "library"), jsonObjectGet doc (ascii "type") with
  | some docLibrary, some docType =>
      (strcmpEqual docLibrary library).bind fun sameLibrary =>
        if sameLibrary then strcmpEqual docType collection else some false
  | _, _ => some false

/-- One turn of the field loop of `db_query_documents`. -/
def dbFieldMatches (query doc : JsonValue δ) (key : Bytes) : Bool :=
  match jsonObjectGet query key, jsonObjectGet doc key with
  | some (.string wanted), some (.string held) => held == wanted
  | some (.integer wanted), some (.integer held) => held == wanted
  | some (.boolean wanted), some (.boolean held) => held == wanted
  | _, _ => false

def matchesQuery (fieldMatches : JsonValue δ → JsonValue δ → Bytes → Bool)
    (query doc : JsonValue δ) : Bool :=
  match jsonObjectGetKeys query with
  | some keys => keys.all (fieldMatches query doc)
  | none => true

/-- `{documents, count}`. -/
def queryResult (documents : List (JsonValue δ)) : JsonValue δ :=
  .object [(ascii "documents", .array documents),
    (ascii "count", .integer (Int32.ofNat documents.length).toInt64)]

section Reads

variable [CDouble δ]

/-- The document loop of `db_query_documents`. -/
def scanDocuments (library : Bytes) (query : Option (JsonValue δ)) :
    List (Bytes × Bytes) → Option (List (JsonValue δ))
  | [] => some []
  | (_, docStr) :: documents =>
      match jsonParse docStr with
      | some (.object fields) =>
          match getEntry (ascii "library") fields with
          | some docLibrary =>
              (strcmpEqual docLibrary library).bind fun sameLibrary =>
                if sameLibrary &&
                    query.all fun query => matchesQuery dbFieldMatches query (.object fields) then
                  (scanDocuments library query documents).map
                    (jsonDeepCopy (.object fields) :: ·)
                else scanDocuments library query documents
          | none => scanDocuments library query documents
      | _ => scanDocuments library query documents

def dbQueryDocuments (db : Database δ) (library collection : Bytes)
    (query : Option (JsonValue δ)) : Option (JsonValue δ × Database δ) :=
  let cacheKey := generateQueryCacheKeyFast library collection query
  let found := cacheGet db.queryCache cacheKey
  match found.1 with
  | some cachedResult => some (cachedResult, { db with queryCache := found.2 })
  | none =>
      (scanDocuments library query db.documents.entries).map fun documents =>
        let result := queryResult documents
        (result, { db with queryCache := cachePut found.2 cacheKey (jsonDeepCopy result) })

def storageGetDocument (db : Database δ) (uuid : Bytes) : Option (JsonValue δ) :=
  (skiplistSearch db.documents uuid).bind jsonParse

def virtualGet (db : Database δ) (uuid : Bytes) : Option (JsonValue δ) × Database δ :=
  let cacheKey := generateDocCacheKeyFast uuid
  let found := cacheGet db.docCache cacheKey
  match found.1 with
  | some cachedDoc => (some cachedDoc, { db with docCache := found.2 })
  | none =>
      match storageGetDocument db uuid with
      | some doc => (some doc, { db with docCache := cachePut found.2 cacheKey (jsonDeepCopy doc) })
      | none => (none, { db with docCache := found.2 })

/-- The query that `db_get_document` builds. -/
def documentQuery (library collection id : Bytes) : JsonValue δ :=
  .object [(ascii "uuid", .string id), (ascii "library", .string library),
    (ascii "type", .string collection)]

/-- `db_get_document` past its cache. -/
def dbGetStoredDocument (db : Database δ) (library collection id : Bytes) :
    Option (Option (JsonValue δ) × Database δ) :=
  (dbQueryDocuments db library collection (some (documentQuery library collection id))).map
    fun queried =>
      match jsonObjectGet queried.1 (ascii "documents") with
      | some (.array (first :: _)) =>
          let doc := jsonDeepCopy first
          (some doc, { queried.2 with
            docCache :=
              cachePut queried.2.docCache (generateDocCacheKeyFast id) (jsonDeepCopy doc) })
      | _ => (none, queried.2)

def dbGetDocument (db : Database δ) (library collection id : Bytes) :
    Option (Option (JsonValue δ) × Database δ) :=
  let found := cacheGet db.docCache (generateDocCacheKeyFast id)
  let touched := { db with docCache := found.2 }
  match found.1 with
  | some doc =>
      (matchesLibraryAndType doc library collection).bind fun same =>
        if same then some (some doc, touched)
        else dbGetStoredDocument touched library collection id
  | none => dbGetStoredDocument touched library collection id

/-- One turn of the field loop of `storage_query_documents`. -/
def storageFieldMatches (query doc : JsonValue δ) (key : Bytes) : Bool :=
  match jsonObjectGet query key, jsonObjectGet doc key with
  | some (.string wanted), some (.string held) => wanted == held
  | some (.boolean wanted), some (.boolean held) => wanted == held
  | some (.number wanted), some (.number held) => CDouble.eq wanted held
  | _, _ => false

/-- The documents that `storage_query_documents` finds. -/
def storageMatches (query : JsonValue δ) (documents : List (Bytes × Bytes)) :
    List (JsonValue δ) :=
  documents.filterMap fun entry =>
    match jsonParse entry.2 with
    | some (.object fields) =>
        if matchesQuery storageFieldMatches query (.object fields) then
          some (jsonClone (.object fields))
        else none
    | _ => none

def storageQueryDocuments (db : Database δ) (query : JsonValue δ) : JsonValue δ :=
  queryResult (storageMatches query db.documents.entries)

end Reads

/-! ## Queries by type, and writes -/

section Writes

variable [CDouble δ]

/-- The merge loop of the update functions: set a copy of every field of the
update, except the protected ones. -/
def mergeFields (copy : JsonValue δ → JsonValue δ) (isProtected : Bytes → Bool)
    (update existing : JsonValue δ) : JsonValue δ :=
  match update with
  | .object fields =>
      (entryKeys fields).foldl
        (fun updated key =>
          if isProtected key then updated
          else
            match getEntry key fields with
            | some value => jsonObjectSet updated key (copy value)
            | none => updated)
        existing
  | _ => existing

omit [CDouble δ] in
theorem mergeFields_object (copy : JsonValue δ → JsonValue δ) (isProtected : Bytes → Bool)
    (fields entries : List (Bytes × JsonValue δ)) :
    ∃ merged, mergeFields copy isProtected (.object fields) (.object entries) = .object merged ∧
      ∀ key, getEntry key merged =
        if isProtected key then getEntry key entries
        else ((getEntry key fields).map copy).or (getEntry key entries) := by
  let source key := if isProtected key then none else (getEntry key fields).map copy
  have loop : ∀ (keys : List Bytes) (entries : List (Bytes × JsonValue δ)),
      keys.foldl (fun (updated : JsonValue δ) key =>
          if isProtected key then updated
          else
            match getEntry key fields with
            | some value => jsonObjectSet updated key (copy value)
            | none => updated) (.object entries) =
        .object (keys.foldl (fun entries other =>
            (source other).elim entries fun value => setEntry other value entries) entries) := by
    intro keys
    induction keys with
    | nil =>
        intro entries
        rfl
    | cons first keys ih =>
        intro entries
        rw [List.foldl_cons, List.foldl_cons, ← ih]
        congr 1
        by_cases kept : isProtected first = true
        · simp [source, kept]
        · cases found : getEntry first fields <;> simp [source, kept, found, jsonObjectSet]
  refine ⟨_, loop (entryKeys fields) entries, fun key => ?_⟩
  rw [getEntry_foldl_setEntry]
  by_cases kept : isProtected key = true
  · simp [source, kept]
  · by_cases present : key ∈ entryKeys fields
    · simp [source, kept, present]
    · simp [kept, present, getEntry_eq_none_iff.mpr present]

def storageInsertDocument (moment : Moment) (db : Database δ) (document : JsonValue δ) :
    JsonValue δ × Database δ :=
  let uuid := documentUuid moment
  let withUuid := jsonObjectSet (jsonDeepCopy document) (ascii "uuid") (.string uuid)
  let created :=
    match jsonObjectGet withUuid (ascii "created_at") with
    | some _ => withUuid
    | none => jsonObjectSet withUuid (ascii "created_at") (.integer moment.now)
  let docCopy := jsonObjectSet created (ascii "modified_at") (.integer moment.now)
  (jsonDeepCopy docCopy,
    { db with documents := skiplistInsert db.documents uuid (jsonStringify docCopy) })

/-- The collection a type maps to: `"%ss"` into 64 bytes. -/
def autoCollection (type : Bytes) : Bytes :=
  (type ++ ascii "s").take 63

def virtualQuery (db : Database δ) (type library : Bytes) (collection : Option Bytes)
    (filters : JsonValue δ) : JsonValue δ :=
  storageQueryDocuments db
    (mergeFields jsonClone (fun _ => false) filters
      (.object [(ascii "type", .string type), (ascii "library", .string library),
        (ascii "collection", .string (collection.getD (autoCollection type)))]))

def virtualInsert (moment : Moment) (db : Database δ) (type library : Bytes)
    (collection : Option Bytes) (document : JsonValue δ) (owner : Bytes) :
    JsonValue δ × Database δ :=
  let docCopy := jsonDeepCopy document
  let docCopy := jsonObjectSet docCopy (ascii "type") (.string type)
  let docCopy := jsonObjectSet docCopy (ascii "library") (.string library)
  let docCopy :=
    jsonObjectSet docCopy (ascii "collection") (.string (collection.getD (autoCollection type)))
  let docCopy := jsonObjectSet docCopy (ascii "owner") (.string owner)
  storageInsertDocument moment db docCopy

def keepStringOr (doc : JsonValue δ) (key value : Bytes) : JsonValue δ :=
  match jsonObjectGet doc key with
  | some (.string _) => doc
  | _ => jsonObjectSet doc key (.string value)

def dbInsertDocument (moment : Moment) (db : Database δ) (library collection : Bytes)
    (document : JsonValue δ) : JsonValue δ × Database δ :=
  let uuid := documentUuid moment
  let docCopy := jsonObjectSet (jsonDeepCopy document) (ascii "uuid") (.string uuid)
  let docCopy := keepStringOr docCopy (ascii "type") collection
  let docCopy := keepStringOr docCopy (ascii "library") library
  let docCopy := keepStringOr docCopy (ascii "collection") collection
  let docCopy := jsonObjectSet docCopy (ascii "created_at") (.integer moment.now)
  let docCopy := jsonObjectSet docCopy (ascii "modified_at") (.integer moment.now)
  (jsonDeepCopy docCopy,
    { db with documents := skiplistInsert db.documents uuid (jsonStringify docCopy) })

/-- The document that `storage_update_document` writes over an existing one. -/
def updatedDocument (moment : Moment) (document existingDoc : JsonValue δ) : JsonValue δ :=
  jsonObjectSet (mergeFields jsonClone (fun _ => false) document (jsonDeepCopy existingDoc))
    (ascii "modified_at") (.integer moment.now)

def storageUpdateDocument (moment : Moment) (db : Database δ) (uuid : Bytes)
    (document : JsonValue δ) : Option (JsonValue δ) × Database δ :=
  match storageGetDocument db uuid with
  | none => (none, db)
  | some existingDoc =>
      let updatedDoc := updatedDocument moment document existingDoc
      (some (jsonDeepCopy updatedDoc),
        { db with documents := replaceDocument db.documents uuid (jsonStringify updatedDoc) })

def virtualUpdate (moment : Moment) (db : Database δ) (uuid : Bytes) (document : JsonValue δ) :
    Option (JsonValue δ) × Database δ :=
  storageUpdateDocument moment db uuid
    (jsonObjectSet (jsonDeepCopy document) (ascii "updated_at") (.integer moment.now))

def storageDeleteDocument (db : Database δ) (uuid : Bytes) : Bool × Database δ :=
  match skiplistSearch db.documents uuid with
  | none => (false, db)
  | some _ => (true, { db with documents := skiplistDelete db.documents uuid })

def virtualDelete (db : Database δ) (uuid : Bytes) : Bool × Database δ :=
  storageDeleteDocument db uuid

/-- The fields that `db_update_document` protects. -/
def isMandatoryField (key : Bytes) : Bool :=
  key == ascii "uuid" || key == ascii "type" || key == ascii "library" ||
    key == ascii "collection" || key == ascii "created_at"

def dbUpdateDocument (moment : Moment) (db : Database δ) (library collection id : Bytes)
    (update : JsonValue δ) : Option (Option (JsonValue δ) × Database δ) :=
  match storageGetDocument db id with
  | none => some (none, db)
  | some existingDoc =>
      (matchesLibraryAndType existingDoc library collection).map fun same =>
        if same then
          let merged :=
            mergeFields jsonDeepCopy isMandatoryField update (jsonDeepCopy existingDoc)
          let updatedDoc := jsonObjectSet merged (ascii "modified_at") (.integer moment.now)
          (some (jsonDeepCopy updatedDoc),
            { db with documents := replaceDocument db.documents id (jsonStringify updatedDoc) })
        else (none, db)

def dbDeleteDocument (db : Database δ) (library collection id : Bytes) :
    Option (Bool × Database δ) :=
  match storageGetDocument db id with
  | none => some (false, db)
  | some existingDoc =>
      (matchesLibraryAndType existingDoc library collection).map fun same =>
        if same then (true, { db with documents := skiplistDelete db.documents id })
        else (false, db)

end Writes

end Jdbx
