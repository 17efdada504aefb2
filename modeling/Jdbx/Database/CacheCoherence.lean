import Jdbx.Database.UnifiedDocuments
import Jdbx.Library.GuardedRun

/-!
# The caches in front of the unified collection

A run interleaves the writes with the three cached reads.  A cached answer is
the current one as long as every write happens where the invalidation it leaves
out would have changed nothing.
-/

namespace Jdbx

open Library

variable {δ : Type}

/-- The calls of a run. -/
inductive Operation (δ : Type) where
  | virtualInsert (type library : Bytes) (collection : Option Bytes) (document : JsonValue δ)
      (owner : Bytes)
  | virtualUpdate (uuid : Bytes) (document : JsonValue δ)
  | virtualDelete (uuid : Bytes)
  | storageUpdateDocument (uuid : Bytes) (document : JsonValue δ)
  | storageDeleteDocument (uuid : Bytes)
  | dbInsertDocument (library collection : Bytes) (document : JsonValue δ)
  | dbUpdateDocument (library collection id : Bytes) (update : JsonValue δ)
  | dbDeleteDocument (library collection id : Bytes)
  | virtualGet (uuid : Bytes)
  | dbGetDocument (library collection id : Bytes)
  | dbQueryDocuments (library collection : Bytes) (query : Option (JsonValue δ))

/-- What a call returns: a document or `NULL`, a query result, or a flag. -/
inductive Answer (δ : Type) where
  | document (document : Option (JsonValue δ))
  | result (result : JsonValue δ)
  | success (success : Bool)

def Operation.isRead : Operation δ → Bool
  | .virtualGet _ | .dbGetDocument _ _ _ | .dbQueryDocuments _ _ _ => true
  | _ => false

/-- `db_init`: both caches are created empty. -/
def freshDatabase (documents : DocumentList) : Database δ :=
  { documents
    queryCache := some (genericCacheCreate 1000)
    docCache := some (genericCacheCreate 10000) }

def Database.cachesOff (db : Database δ) : Database δ :=
  { db with queryCache := none, docCache := none }

def answering {α : Type} (answer : α → Answer δ) (returned : α × Database δ) :
    Answer δ × Database δ :=
  (answer returned.1, returned.2)

section Run

variable [CDouble δ] {cache : Option (GenericCache Bytes (JsonValue δ))}
  {law : Bytes → JsonValue δ → Prop}

/-- One call: its answer and the database after it, unless the process ends. -/
def perform (db : Database δ) : Moment × Operation δ → Option (Answer δ × Database δ)
  | (moment, .virtualInsert type library collection document owner) =>
    some (answering (fun inserted => .document (some inserted))
      (virtualInsert moment db type library collection document owner))
  | (moment, .virtualUpdate uuid document) =>
    some (answering .document (virtualUpdate moment db uuid document))
  | (_, .virtualDelete uuid) => some (answering .success (virtualDelete db uuid))
  | (moment, .storageUpdateDocument uuid document) =>
    some (answering .document (storageUpdateDocument moment db uuid document))
  | (_, .storageDeleteDocument uuid) => some (answering .success (storageDeleteDocument db uuid))
  | (moment, .dbInsertDocument library collection document) =>
    some (answering (fun inserted => .document (some inserted))
      (dbInsertDocument moment db library collection document))
  | (moment, .dbUpdateDocument library collection id update) =>
    (dbUpdateDocument moment db library collection id update).map (answering .document)
  | (_, .dbDeleteDocument library collection id) =>
    (dbDeleteDocument db library collection id).map (answering .success)
  | (_, .virtualGet uuid) => some (answering .document (virtualGet db uuid))
  | (_, .dbGetDocument library collection id) =>
    (dbGetDocument db library collection id).map (answering .document)
  | (_, .dbQueryDocuments library collection query) =>
    (dbQueryDocuments db library collection query).map (answering .result)

def databaseStep (db : Database δ) (event : Moment × Operation δ) : Option (Database δ) :=
  (perform db event).map Prod.snd

def ReadsCurrent (db : Database δ) (event : Moment × Operation δ) : Prop :=
  event.2.isRead = true →
    (perform db event).map Prod.fst = (perform db.cachesOff event).map Prod.fst

/-! ## Where the missing invalidation matters -/

omit [CDouble δ] in
/-- `invalidate_query_cache_pattern`, which no write calls. -/
def invalidateQueryCachePattern (db : Database δ) : Database δ :=
  { db with queryCache := db.queryCache.map genericCacheClear }

omit [CDouble δ] in
/-- `invalidate_doc_cache`, which no write calls. -/
def invalidateDocCache (db : Database δ) (uuid : Bytes) : Database δ :=
  match generateDocCacheKeyFast uuid with
  | some key => { db with docCache := db.docCache.map fun cache => genericCacheRemove cache key }
  | none => db

def changedUuid (db : Database δ) : Moment × Operation δ → Option Bytes
  | (moment, .virtualInsert _ _ _ _ _) | (moment, .dbInsertDocument _ _ _) =>
    if (skiplistSearch db.documents (documentUuid moment)).isNone then
      some (documentUuid moment)
    else none
  | (_, .virtualUpdate uuid _) | (_, .storageUpdateDocument uuid _) =>
    if (storageGetDocument db uuid).isSome then some uuid else none
  | (_, .virtualDelete uuid) | (_, .storageDeleteDocument uuid) =>
    if (skiplistSearch db.documents uuid).isSome then some uuid else none
  | (_, .dbUpdateDocument library collection id _) | (_, .dbDeleteDocument library collection id) =>
    match storageGetDocument db id with
    | some doc =>
      if matchesLibraryAndType doc library collection = some true then some id else none
    | none => none
  | (_, .virtualGet _) | (_, .dbGetDocument _ _ _) | (_, .dbQueryDocuments _ _ _) => none

/-- The caches hold nothing that a write to `uuid` has to invalidate. -/
def NothingToInvalidate (db : Database δ) (uuid : Bytes) : Prop :=
  invalidateQueryCachePattern db = db ∧ invalidateDocCache db uuid = db

/-- A query with the library and collection it is asked in. -/
structure AskedQuery (δ : Type) where
  library : Bytes
  collection : Bytes
  query : Option (JsonValue δ)

def AskedQuery.cacheKey (asked : AskedQuery δ) : Option Bytes :=
  generateQueryCacheKeyFast asked.library asked.collection asked.query

omit [CDouble δ] in
def askedQueries : Moment × Operation δ → List (AskedQuery δ)
  | (_, .dbGetDocument library collection id) =>
    [{ library, collection, query := some (documentQuery library collection id) }]
  | (_, .dbQueryDocuments library collection query) => [{ library, collection, query }]
  | _ => []

def KeysSeparate (asked : List (AskedQuery δ)) : Prop :=
  ∀ one ∈ asked, ∀ other ∈ asked, one.cacheKey ≠ none → one.cacheKey = other.cacheKey →
    one.library = other.library ∧ one.query = other.query

/-- The `library` field of every stored object is a string. -/
def LibraryStrings (δ : Type) [CDouble δ] (documents : List (Bytes × Bytes)) : Prop :=
  ∀ uuid text, (uuid, text) ∈ documents →
    ∀ fields : List (Bytes × JsonValue δ), jsonParse text = some (.object fields) →
      ∀ value, getEntry (ascii "library") fields = some value → value.type = .string

/-- What `db_get_document` takes for granted of the stored documents when it
answers from the document cache. -/
structure Addressed (δ : Type) [CDouble δ] (documents : DocumentList) (id : Bytes) : Prop where
  library_string : LibraryStrings δ documents.entries
  uuid_key : ∀ uuid text, (uuid, text) ∈ documents.entries →
    ∀ fields : List (Bytes × JsonValue δ), jsonParse text = some (.object fields) →
      ((jsonGetString (getEntry (ascii "uuid") fields) = some id) ↔ uuid = id)
  type_string : ∀ text, (id, text) ∈ documents.entries →
    ∀ fields : List (Bytes × JsonValue δ), jsonParse text = some (.object fields) →
      ∀ value, getEntry (ascii "type") fields = some value → value.type = .string

/-- The condition on one call. -/
structure StepSafe (db : Database δ) (event : Moment × Operation δ) : Prop where
  write : ∀ uuid ∈ changedUuid db event, NothingToInvalidate db uuid
  read : ∀ library collection id, event.2 = .dbGetDocument library collection id →
    Addressed δ db.documents id

/-! ## Coherent caches -/

omit [CDouble δ] in
/-- Every entry of a cache, if there is one, obeys `law`. -/
def CacheObeys (cache : Option (GenericCache Bytes (JsonValue δ)))
    (law : Bytes → JsonValue δ → Prop) : Prop :=
  ∀ held ∈ cache, held.Obeys law

omit [CDouble δ] in
theorem cacheGet_lawful (obeys : CacheObeys cache law) {key : Option Bytes} {value : JsonValue δ}
    (found : (cacheGet cache key).1 = some value) :
    ∃ held, key = some held ∧ law held value := by
  cases cache with
  | none => simp [cacheGet] at found
  | some cache =>
    cases key with
    | none => simp [cacheGet] at found
    | some key => exact ⟨key, rfl, (obeys cache rfl).get found⟩

omit [CDouble δ] in
theorem cacheGet_obeys (obeys : CacheObeys cache law) (key : Option Bytes) :
    CacheObeys (cacheGet cache key).2 law := by
  cases cache with
  | none => exact obeys
  | some cache =>
    cases key with
    | none => exact obeys
    | some key =>
      intro held same
      cases same
      exact genericCacheGet_obeys (obeys cache rfl) key

omit [CDouble δ] in
theorem cachePut_obeys (obeys : CacheObeys cache law) {key : Option Bytes} {value : JsonValue δ}
    (lawful : ∀ held ∈ key, law held value) :
    CacheObeys (cachePut cache key value) law := by
  cases cache with
  | none => exact obeys
  | some cache =>
    cases key with
    | none => exact obeys
    | some key =>
      intro held same
      cases same
      exact genericCachePut_obeys (obeys cache rfl) (lawful key rfl)

def DocLaw (documents : DocumentList) (key : Bytes) (doc : JsonValue δ) : Prop :=
  ∃ uuid, generateDocCacheKeyFast uuid = some key ∧
    (skiplistSearch documents uuid).bind jsonParse = some doc

def QueryLaw (asked : List (AskedQuery δ)) (documents : DocumentList) (key : Bytes)
    (result : JsonValue δ) : Prop :=
  ∀ one ∈ asked, one.cacheKey = some key →
    (scanDocuments one.library one.query documents.entries).map queryResult = some result

/-- Both caches agree with the documents. -/
structure Coherent (asked : List (AskedQuery δ)) (db : Database δ) : Prop where
  doc : CacheObeys db.docCache (DocLaw db.documents)
  query : CacheObeys db.queryCache (QueryLaw asked db.documents)

variable {asked : List (AskedQuery δ)} {db : Database δ} {library collection id : Bytes}
  {doc : JsonValue δ} {next : Database δ} {documents : List (Bytes × Bytes)}

theorem coherent_freshDatabase (asked : List (AskedQuery δ)) (documents : DocumentList) :
    Coherent asked (freshDatabase documents) := by
  constructor
  · intro held same
    cases same
    exact genericCacheCreate_obeys 10000
  · intro held same
    cases same
    exact genericCacheCreate_obeys 1000

theorem coherent_cachesOff (asked : List (AskedQuery δ)) (db : Database δ) :
    Coherent asked db.cachesOff :=
  { doc := fun _ same => by cases same
    query := fun _ same => by cases same }

omit [CDouble δ] in
theorem generateDocCacheKeyFast_injective {uuid other key : Bytes}
    (generated : generateDocCacheKeyFast uuid = some key)
    (otherGenerated : generateDocCacheKeyFast other = some key) : uuid = other := by
  rw [generateDocCacheKeyFast] at generated otherGenerated
  split_ifs at generated otherGenerated
  have same := (Option.some.inj generated).trans (Option.some.inj otherGenerated).symm
  exact List.append_cancel_left same

theorem DocLaw.stored {documents : DocumentList} {uuid key : Bytes}
    (lawful : DocLaw documents key doc) (generated : generateDocCacheKeyFast uuid = some key) :
    (skiplistSearch documents uuid).bind jsonParse = some doc := by
  obtain ⟨other, otherGenerated, stored⟩ := lawful
  rw [generateDocCacheKeyFast_injective generated otherGenerated]
  exact stored

/-! ## The answers of the three reads -/

theorem virtualGet_answer (coherent : Coherent asked db) (uuid : Bytes) :
    (virtualGet db uuid).1 = storageGetDocument db uuid := by
  simp only [virtualGet]
  cases found : (cacheGet db.docCache (generateDocCacheKeyFast uuid)).1 with
  | none => cases storageGetDocument db uuid <;> rfl
  | some cachedDoc =>
    obtain ⟨key, generated, lawful⟩ := cacheGet_lawful coherent.doc found
    exact (lawful.stored generated).symm

theorem virtualGet_coherent (coherent : Coherent asked db) (uuid : Bytes) :
    Coherent asked (virtualGet db uuid).2 := by
  have touched := cacheGet_obeys coherent.doc (generateDocCacheKeyFast uuid)
  simp only [virtualGet]
  cases found : (cacheGet db.docCache (generateDocCacheKeyFast uuid)).1 with
  | some cachedDoc => exact { doc := touched, query := coherent.query }
  | none =>
    cases stored : storageGetDocument db uuid with
    | none => exact { doc := touched, query := coherent.query }
    | some doc =>
      obtain ⟨text, _, parsed⟩ := Option.bind_eq_some_iff.mp stored
      have copied : jsonDeepCopy doc = doc :=
        jsonDeepCopy_eq_self (by decide) (jsonParse_copyable parsed)
      refine { doc := cachePut_obeys touched ?_, query := coherent.query }
      rw [copied]
      exact fun key generated => ⟨uuid, generated, stored⟩

/-- What `db_query_documents` computes without its cache. -/
def currentResult (db : Database δ) (library : Bytes) (query : Option (JsonValue δ)) :
    Option (JsonValue δ) :=
  (scanDocuments library query db.documents.entries).map queryResult

theorem scanDocuments_copyable {library : Bytes} {query : Option (JsonValue δ)}
    {found : List (JsonValue δ)} (scanned : scanDocuments library query documents = some found) :
    ∀ doc ∈ found, Copyable (maxJsonRecursionDepth + 1) doc := by
  induction documents generalizing found with
  | nil =>
    cases scanned
    exact fun doc member => absurd member List.not_mem_nil
  | cons entry documents ih =>
    rw [scanDocuments] at scanned
    split at scanned
    · rename_i fields parsed
      have parsedCopyable := jsonParse_copyable parsed
      split at scanned
      · obtain ⟨sameLibrary, _, continued⟩ := Option.bind_eq_some_iff.mp scanned
        split_ifs at continued
        · obtain ⟨others, rest, rfl⟩ := Option.map_eq_some_iff.mp continued
          intro doc member
          rcases List.mem_cons.mp member with rfl | member
          · rw [jsonDeepCopy_eq_self (by decide) parsedCopyable]
            exact parsedCopyable
          · exact ih rest doc member
        · exact ih continued
      · exact ih scanned
    · exact ih scanned

omit [CDouble δ] in
theorem queryResult_copyable {levels : Nat} {found : List (JsonValue δ)}
    (copyable : ∀ doc ∈ found, Copyable levels doc) :
    Copyable (levels + 2) (queryResult found) := by
  refine ⟨by simp only [entryKeys, List.map_cons, List.map_nil]; decide, ?_⟩
  intro entry member
  simp only [List.mem_cons, List.not_mem_nil, or_false] at member
  rcases member with rfl | rfl
  · exact copyable
  · trivial

theorem dbQueryDocuments_answer (coherent : Coherent asked db) {one : AskedQuery δ}
    (member : one ∈ asked) :
    (dbQueryDocuments db one.library one.collection one.query).map Prod.fst =
      currentResult db one.library one.query := by
  simp only [dbQueryDocuments]
  cases found : (cacheGet db.queryCache
      (generateQueryCacheKeyFast one.library one.collection one.query)).1 with
  | none =>
    simp only [Option.map_map]
    rfl
  | some cachedResult =>
    obtain ⟨key, generated, lawful⟩ := cacheGet_lawful coherent.query found
    rw [Option.map_some]
    exact (lawful one member generated).symm

theorem dbQueryDocuments_coherent (coherent : Coherent asked db) (separate : KeysSeparate asked)
    {one : AskedQuery δ} (member : one ∈ asked) {result : JsonValue δ}
    (queried : dbQueryDocuments db one.library one.collection one.query = some (result, next)) :
    Coherent asked next ∧ next.documents = db.documents := by
  have touched := cacheGet_obeys coherent.query one.cacheKey
  simp only [dbQueryDocuments] at queried
  split at queried
  · cases queried
    exact ⟨{ doc := coherent.doc, query := touched }, rfl⟩
  · obtain ⟨found, scanned, equal⟩ := Option.map_eq_some_iff.mp queried
    cases equal
    refine ⟨{ doc := coherent.doc, query := cachePut_obeys touched ?_ }, rfl⟩
    have copied : jsonDeepCopy (queryResult found) = queryResult found :=
      jsonDeepCopy_eq_self (by decide) (queryResult_copyable (scanDocuments_copyable scanned))
    rw [copied]
    intro key generated other otherMember otherKey
    have ownKey : one.cacheKey = some key := generated
    obtain ⟨sameLibrary, sameQuery⟩ := separate one member other otherMember
      (by simp [ownKey]) (ownKey.trans otherKey.symm)
    rw [← sameLibrary, ← sameQuery, scanned]
    rfl

/-- What `db_get_document` finds without the caches. -/
def currentDocument (db : Database δ) (library collection id : Bytes) :
    Option (Option (JsonValue δ)) :=
  (scanDocuments library (some (documentQuery library collection id)) db.documents.entries).map
    List.head?

omit [CDouble δ] in
theorem documents_queryResult (found : List (JsonValue δ)) :
    jsonObjectGet (queryResult found) (ascii "documents") = some (.array found) := by
  simp [queryResult, jsonObjectGet, getEntry]

theorem dbQueryDocuments_scanned (coherent : Coherent asked db) {one : AskedQuery δ}
    (member : one ∈ asked) {result : JsonValue δ}
    (queried : dbQueryDocuments db one.library one.collection one.query = some (result, next)) :
    ∃ found, scanDocuments one.library one.query db.documents.entries = some found ∧
      result = queryResult found := by
  have answered := dbQueryDocuments_answer coherent member
  rw [queried, Option.map_some, currentResult] at answered
  obtain ⟨found, scanned, same⟩ := Option.map_eq_some_iff.mp answered.symm
  exact ⟨found, scanned, same.symm⟩

theorem dbGetStoredDocument_answer (coherent : Coherent asked db)
    (member : AskedQuery.mk library collection (some (documentQuery library collection id)) ∈
      asked) :
    (dbGetStoredDocument db library collection id).map Prod.fst =
      currentDocument db library collection id := by
  have answered := dbQueryDocuments_answer coherent member
  simp only [currentResult] at answered
  rw [currentDocument, dbGetStoredDocument, Option.map_map]
  cases queried : dbQueryDocuments db library collection
      (some (documentQuery library collection id)) with
  | none =>
    rw [queried, Option.map_none, eq_comm, Option.map_eq_none_iff] at answered
    rw [answered, Option.map_none, Option.map_none]
  | some returned =>
    obtain ⟨found, scanned, same⟩ := dbQueryDocuments_scanned coherent member queried
    simp only at scanned
    rw [scanned, Option.map_some, Option.map_some, Function.comp_apply, same,
      documents_queryResult]
    cases found with
    | nil => rfl
    | cons doc others =>
      have copyable := scanDocuments_copyable scanned doc List.mem_cons_self
      simp only [List.head?_cons, jsonDeepCopy_eq_self (by decide) copyable]

/-! ## Documents under their own uuid -/

omit [CDouble δ] in
theorem strcmpEqual_eq_some_true {value : JsonValue δ} {text : Bytes} :
    strcmpEqual value text = some true ↔ jsonGetString (some value) = some text := by
  rw [strcmpEqual]
  cases jsonGetString (some value) with
  | none => simp
  | some held => simp

omit [CDouble δ] in
theorem matchesLibraryAndType_eq_some_true {library collection : Bytes} :
    matchesLibraryAndType doc library collection = some true ↔
      jsonGetString (jsonObjectGet doc (ascii "library")) = some library ∧
        jsonGetString (jsonObjectGet doc (ascii "type")) = some collection := by
  rw [matchesLibraryAndType]
  cases jsonObjectGet doc (ascii "library") with
  | none => simp [jsonGetString]
  | some docLibrary =>
    cases jsonObjectGet doc (ascii "type") with
    | none => simp [jsonGetString]
    | some docType =>
      rw [← strcmpEqual_eq_some_true, ← strcmpEqual_eq_some_true, Option.bind_eq_some_iff]
      constructor
      · rintro ⟨sameLibrary, compared, continued⟩
        cases sameLibrary with
        | true => exact ⟨compared, by simpa using continued⟩
        | false => simp at continued
      · rintro ⟨ofLibrary, ofType⟩
        exact ⟨true, ofLibrary, by simpa using ofType⟩

/-- The stored object of an entry, if the scan of `db_query_documents` takes it. -/
def selectDocument (library : Bytes) (query : JsonValue δ) (entry : Bytes × Bytes) :
    Option (JsonValue δ) :=
  match jsonParse entry.2 with
  | some (.object fields) =>
    if jsonGetString (getEntry (ascii "library") fields) = some library ∧
        matchesQuery dbFieldMatches query (.object fields) = true then
      some (.object fields)
    else none
  | _ => none

theorem scanDocuments_eq_filterMap {library : Bytes} {query : JsonValue δ}
    (strings : LibraryStrings δ documents) :
    scanDocuments library (some query) documents =
      some (documents.filterMap (selectDocument library query)) := by
  induction documents with
  | nil => rfl
  | cons entry documents ih =>
    obtain ⟨uuid, text⟩ := entry
    have rest := ih fun uuid text member =>
      strings uuid text (List.mem_cons_of_mem _ member)
    rw [scanDocuments, List.filterMap_cons, selectDocument, rest]
    cases parsed : (jsonParse text : Option (JsonValue δ)) with
    | none => rfl
    | some doc =>
      cases doc with
      | object fields =>
        have string := strings uuid text List.mem_cons_self fields parsed
        cases held : getEntry (ascii "library") fields with
        | none => simp [held, jsonGetString]
        | some value =>
          have copied : jsonDeepCopy (.object fields) = JsonValue.object fields :=
            jsonDeepCopy_eq_self (by decide) (jsonParse_copyable parsed)
          cases value with
          | string text =>
            by_cases same : text = library
            · by_cases selected :
                  matchesQuery dbFieldMatches query (.object fields) = true
              · simp [held, strcmpEqual, jsonGetString, same, selected, copied]
              · simp [held, strcmpEqual, jsonGetString, same, selected]
            · simp [held, strcmpEqual, jsonGetString, same]
          | null | boolean _ | number _ | integer _ | array _ | object _ =>
            exact absurd (string _ held) (by simp [JsonValue.type])
      | null | boolean _ | number _ | integer _ | string _ | array _ => rfl

omit [CDouble δ] in
theorem dbFieldMatches_string {query doc : JsonValue δ} {key wanted : Bytes}
    (queried : jsonObjectGet query key = some (.string wanted)) :
    dbFieldMatches query doc key = true ↔
      jsonGetString (jsonObjectGet doc key) = some wanted := by
  rw [dbFieldMatches, queried]
  cases jsonObjectGet doc key with
  | none => simp [jsonGetString]
  | some held => cases held <;> simp [jsonGetString]

omit [CDouble δ] in
theorem matchesQuery_documentQuery {fields : List (Bytes × JsonValue δ)} :
    matchesQuery dbFieldMatches (documentQuery library collection id) (.object fields) = true ↔
      jsonGetString (getEntry (ascii "uuid") fields) = some id ∧
        jsonGetString (getEntry (ascii "library") fields) = some library ∧
        jsonGetString (getEntry (ascii "type") fields) = some collection := by
  have uuid : jsonObjectGet (documentQuery library collection id : JsonValue δ) (ascii "uuid") =
      some (.string id) := rfl
  have ofLibrary : jsonObjectGet (documentQuery library collection id : JsonValue δ)
      (ascii "library") = some (.string library) := rfl
  have type : jsonObjectGet (documentQuery library collection id : JsonValue δ) (ascii "type") =
      some (.string collection) := rfl
  have keys : jsonObjectGetKeys (documentQuery library collection id : JsonValue δ) =
      some [ascii "uuid", ascii "library", ascii "type"] := rfl
  simp only [matchesQuery, keys, List.all_cons, List.all_nil, Bool.and_true, Bool.and_eq_true,
    dbFieldMatches_string uuid, dbFieldMatches_string ofLibrary, dbFieldMatches_string type,
    jsonObjectGet]

theorem selectDocument_eq_some {entry : Bytes × Bytes} :
    selectDocument library (documentQuery library collection id) entry = some doc ↔
      ∃ fields, jsonParse entry.2 = some doc ∧ doc = .object fields ∧
        jsonGetString (getEntry (ascii "uuid") fields) = some id ∧
        jsonGetString (getEntry (ascii "library") fields) = some library ∧
        jsonGetString (getEntry (ascii "type") fields) = some collection := by
  rw [selectDocument]
  split
  · rename_i fields parsed
    simp only [matchesQuery_documentQuery]
    constructor
    · intro selected
      split_ifs at selected with wanted
      cases selected
      exact ⟨fields, parsed, rfl, wanted.2.1, wanted.2.2.1, wanted.2.2.2⟩
    · rintro ⟨others, parsedOther, rfl, uuid, ofLibrary, type⟩
      obtain rfl : fields = others := by
        rw [parsed] at parsedOther
        exact JsonValue.object.inj (Option.some.inj parsedOther)
      rw [if_pos ⟨ofLibrary, uuid, ofLibrary, type⟩]
  · rename_i notObject
    constructor
    · intro selected
      cases selected
    · rintro ⟨fields, parsed, rfl, _⟩
      exact absurd parsed (notObject fields)

theorem storageGetDocument_of_selected (addressed : Addressed δ db.documents id)
    (selected : doc ∈ db.documents.entries.filterMap
      (selectDocument library (documentQuery library collection id))) :
    storageGetDocument db id = some doc := by
  obtain ⟨⟨uuid, text⟩, member, taken⟩ := List.mem_filterMap.mp selected
  obtain ⟨fields, parsed, rfl, named, _⟩ := selectDocument_eq_some.mp taken
  have own : uuid = id := (addressed.uuid_key uuid text member fields parsed).mp named
  subst own
  have stored : skiplistSearch db.documents uuid = some text :=
    getEntry_eq_some_of_mem db.documents.distinct member
  rw [storageGetDocument, stored, Option.bind_some, parsed]

theorem head?_selected (addressed : Addressed δ db.documents id)
    (stored : storageGetDocument db id = some doc)
    (same : matchesLibraryAndType doc library collection = some true) :
    (db.documents.entries.filterMap
      (selectDocument library (documentQuery library collection id))).head? = some doc := by
  obtain ⟨text, found, parsed⟩ := Option.bind_eq_some_iff.mp stored
  have member := mem_of_getEntry_eq_some found
  have selected : doc ∈ db.documents.entries.filterMap
      (selectDocument library (documentQuery library collection id)) := by
    cases doc with
    | object fields =>
      refine List.mem_filterMap.mpr ⟨(id, text), member, selectDocument_eq_some.mpr ?_⟩
      have named := (addressed.uuid_key id text member fields parsed).mpr rfl
      obtain ⟨ofLibrary, ofType⟩ := matchesLibraryAndType_eq_some_true.mp same
      exact ⟨fields, parsed, rfl, named, ofLibrary, ofType⟩
    | null | boolean _ | number _ | integer _ | string _ | array _ =>
      simp [matchesLibraryAndType, jsonObjectGet] at same
  cases listed : (db.documents.entries.filterMap
      (selectDocument library (documentQuery library collection id)) : List (JsonValue δ)) with
  | nil =>
    rw [listed] at selected
    cases selected
  | cons first others =>
    have firstSelected : first ∈ db.documents.entries.filterMap
        (selectDocument library (documentQuery library collection id)) := by
      rw [listed]
      exact List.mem_cons_self
    have firstStored := storageGetDocument_of_selected addressed firstSelected
    rw [stored] at firstStored
    rw [List.head?_cons, firstStored]

theorem currentDocument_eq_head? (addressed : Addressed δ db.documents id) :
    currentDocument db library collection id =
      some (db.documents.entries.filterMap
        (selectDocument library (documentQuery library collection id))).head? := by
  rw [currentDocument, scanDocuments_eq_filterMap addressed.library_string, Option.map_some]

theorem dbGetStoredDocument_coherent (coherent : Coherent asked db)
    (separate : KeysSeparate asked)
    (member : AskedQuery.mk library collection (some (documentQuery library collection id)) ∈
      asked) (addressed : Addressed δ db.documents id) {answer : Option (JsonValue δ)}
    (taken : dbGetStoredDocument db library collection id = some (answer, next)) :
    Coherent asked next := by
  rw [dbGetStoredDocument] at taken
  obtain ⟨⟨result, queried⟩, queriedEqual, returned⟩ := Option.map_eq_some_iff.mp taken
  obtain ⟨found, scanned, rfl⟩ := dbQueryDocuments_scanned coherent member queriedEqual
  obtain ⟨kept, sameDocuments⟩ :=
    dbQueryDocuments_coherent coherent separate member queriedEqual
  simp only [documents_queryResult] at returned
  cases found with
  | nil =>
    cases returned
    exact kept
  | cons doc others =>
    cases returned
    rw [scanDocuments_eq_filterMap addressed.library_string] at scanned
    have selected : doc ∈ db.documents.entries.filterMap
        (selectDocument library (documentQuery library collection id)) := by
      rw [Option.some.inj scanned]
      exact List.mem_cons_self
    have stored := storageGetDocument_of_selected addressed selected
    obtain ⟨text, _, parsed⟩ := Option.bind_eq_some_iff.mp stored
    have copied : jsonDeepCopy doc = doc :=
      jsonDeepCopy_eq_self (by decide) (jsonParse_copyable parsed)
    refine { doc := cachePut_obeys kept.doc ?_, query := kept.query }
    rw [copied, copied, sameDocuments]
    exact fun key generated => ⟨id, generated, stored⟩

theorem matchesLibraryAndType_isSome (addressed : Addressed δ db.documents id)
    (stored : storageGetDocument db id = some doc) :
    ∃ same, matchesLibraryAndType doc library collection = some same := by
  obtain ⟨text, found, parsed⟩ := Option.bind_eq_some_iff.mp stored
  have member := mem_of_getEntry_eq_some found
  rw [matchesLibraryAndType]
  split
  · rename_i docLibrary docType ofLibrary ofType
    cases doc with
    | object fields =>
      have libraryString := addressed.library_string id text member fields parsed _ ofLibrary
      have typeString := addressed.type_string text member fields parsed _ ofType
      cases docLibrary <;> simp [JsonValue.type] at libraryString
      cases docType <;> simp [JsonValue.type] at typeString
      simp only [strcmpEqual, jsonGetString, Option.map_some, Option.bind_some]
      split_ifs <;> exact ⟨_, rfl⟩
    | null | boolean _ | number _ | integer _ | string _ | array _ => cases ofLibrary
  · exact ⟨false, rfl⟩

theorem dbGetDocument_answer (coherent : Coherent asked db)
    (member : AskedQuery.mk library collection (some (documentQuery library collection id)) ∈
      asked) (addressed : Addressed δ db.documents id) :
    (dbGetDocument db library collection id).map Prod.fst =
      currentDocument db library collection id := by
  have touched : Coherent asked
      { db with docCache := (cacheGet db.docCache (generateDocCacheKeyFast id)).2 } :=
    { doc := cacheGet_obeys coherent.doc _, query := coherent.query }
  have past : (dbGetStoredDocument
      { db with docCache := (cacheGet db.docCache (generateDocCacheKeyFast id)).2 }
      library collection id).map Prod.fst = currentDocument db library collection id :=
    dbGetStoredDocument_answer touched member
  simp only [dbGetDocument]
  cases found : (cacheGet db.docCache (generateDocCacheKeyFast id)).1 with
  | none => exact past
  | some doc =>
    obtain ⟨key, generated, lawful⟩ := cacheGet_lawful coherent.doc found
    have stored : storageGetDocument db id = some doc :=
      lawful.stored generated
    obtain ⟨same, compared⟩ := matchesLibraryAndType_isSome addressed stored
    cases same with
    | true =>
      rw [currentDocument_eq_head? addressed, head?_selected addressed stored compared]
      simp [compared]
    | false => simpa [compared] using past

theorem dbGetDocument_coherent (coherent : Coherent asked db) (separate : KeysSeparate asked)
    (member : AskedQuery.mk library collection (some (documentQuery library collection id)) ∈
      asked) (addressed : Addressed δ db.documents id) {answer : Option (JsonValue δ)}
    (taken : dbGetDocument db library collection id = some (answer, next)) :
    Coherent asked next := by
  have touched : Coherent asked
      { db with docCache := (cacheGet db.docCache (generateDocCacheKeyFast id)).2 } :=
    { doc := cacheGet_obeys coherent.doc _, query := coherent.query }
  simp only [dbGetDocument] at taken
  split at taken
  · obtain ⟨same, _, continued⟩ := Option.bind_eq_some_iff.mp taken
    split_ifs at continued
    · cases continued
      exact touched
    · exact dbGetStoredDocument_coherent touched separate member addressed continued
  · exact dbGetStoredDocument_coherent touched separate member addressed taken

/-! ## Writes -/

omit [CDouble δ] in
/-- What a write may change: the documents, and of them only one. -/
structure WritesOnly (changed : Option Bytes) (db next : Database δ) : Prop where
  queryCache : next.queryCache = db.queryCache
  docCache : next.docCache = db.docCache
  unchanged : changed = none → next.documents = db.documents
  others : ∀ uuid, changed ≠ some uuid →
    skiplistSearch next.documents uuid = skiplistSearch db.documents uuid

omit [CDouble δ] in
theorem WritesOnly.refl (changed : Option Bytes) (db : Database δ) : WritesOnly changed db db :=
  { queryCache := rfl, docCache := rfl, unchanged := fun _ => rfl, others := fun _ _ => rfl }

omit [CDouble δ] in
theorem WritesOnly.one {uuid : Bytes} {documents : DocumentList}
    (frame : ∀ other, other ≠ uuid →
      skiplistSearch documents other = skiplistSearch db.documents other) :
    WritesOnly (some uuid) db { db with documents } := by
  constructor
  · rfl
  · rfl
  · intro absurdity
    cases absurdity
  · intro other different
    exact frame other fun same => different (by rw [same])

omit [CDouble δ] in
theorem writesOnly_insert (db : Database δ) (uuid value : Bytes) :
    WritesOnly (if (skiplistSearch db.documents uuid).isNone then some uuid else none) db
      { db with documents := skiplistInsert db.documents uuid value } := by
  by_cases fresh : (skiplistSearch db.documents uuid).isNone = true
  · rw [if_pos fresh]
    exact WritesOnly.one fun other different => skiplistSearch_insert_of_ne different
  · have present : uuid ∈ entryKeys db.documents.entries := by
      by_contra absent
      rw [skiplistSearch, getEntry_eq_none_iff.mpr absent] at fresh
      exact fresh rfl
    rw [if_neg fresh, skiplistInsert, dif_pos present]
    exact WritesOnly.refl none db

omit [CDouble δ] in
theorem writesOnly_replace (db : Database δ) (uuid value : Bytes) :
    WritesOnly (some uuid) db
      { db with documents := replaceDocument db.documents uuid value } :=
  WritesOnly.one fun _ different => skiplistSearch_replace_of_ne different

omit [CDouble δ] in
theorem writesOnly_delete (db : Database δ) (uuid : Bytes) :
    WritesOnly (some uuid) db { db with documents := skiplistDelete db.documents uuid } :=
  WritesOnly.one fun _ different => skiplistSearch_delete_of_ne different

theorem storageUpdateDocument_writesOnly (moment : Moment) (db : Database δ) (uuid : Bytes)
    (document : JsonValue δ) :
    WritesOnly (if (storageGetDocument db uuid).isSome then some uuid else none) db
      (storageUpdateDocument moment db uuid document).2 := by
  rw [storageUpdateDocument]
  cases storageGetDocument db uuid with
  | none => exact WritesOnly.refl none db
  | some existingDoc => exact writesOnly_replace db uuid _

omit [CDouble δ] in
theorem storageDeleteDocument_writesOnly (db : Database δ) (uuid : Bytes) :
    WritesOnly (if (skiplistSearch db.documents uuid).isSome then some uuid else none) db
      (storageDeleteDocument db uuid).2 := by
  rw [storageDeleteDocument]
  cases skiplistSearch db.documents uuid with
  | none => exact WritesOnly.refl none db
  | some text => exact writesOnly_delete db uuid

/-- A write changes the document of `changedUuid` and leaves the caches alone. -/
theorem perform_writesOnly {event : Moment × Operation δ} {answer : Answer δ}
    (isWrite : event.2.isRead = false) (taken : perform db event = some (answer, next)) :
    WritesOnly (changedUuid db event) db next := by
  obtain ⟨moment, operation⟩ := event
  cases operation with
  | virtualInsert type library collection document owner =>
    cases taken
    exact writesOnly_insert db (documentUuid moment) _
  | dbInsertDocument library collection document =>
    cases taken
    exact writesOnly_insert db (documentUuid moment) _
  | virtualUpdate uuid document | storageUpdateDocument uuid document =>
    cases taken
    exact storageUpdateDocument_writesOnly moment db uuid _
  | virtualDelete uuid | storageDeleteDocument uuid =>
    cases taken
    exact storageDeleteDocument_writesOnly db uuid
  | dbUpdateDocument library collection id update =>
    rw [perform, dbUpdateDocument] at taken
    rw [changedUuid]
    cases stored : storageGetDocument db id with
    | none =>
      simp only [stored, Option.map_some, answering] at taken
      cases taken
      exact WritesOnly.refl none db
    | some doc =>
      simp only [stored, Option.map_map] at taken
      obtain ⟨same, compared, returned⟩ := Option.map_eq_some_iff.mp taken
      simp only [compared, Option.some.injEq]
      cases same with
      | true =>
        cases returned
        exact writesOnly_replace db id _
      | false =>
        cases returned
        exact WritesOnly.refl none db
  | dbDeleteDocument library collection id =>
    rw [perform, dbDeleteDocument] at taken
    rw [changedUuid]
    cases stored : storageGetDocument db id with
    | none =>
      simp only [stored, Option.map_some, answering] at taken
      cases taken
      exact WritesOnly.refl none db
    | some doc =>
      simp only [stored, Option.map_map] at taken
      obtain ⟨same, compared, returned⟩ := Option.map_eq_some_iff.mp taken
      simp only [compared, Option.some.injEq]
      cases same with
      | true =>
        cases returned
        exact writesOnly_delete db id
      | false =>
        cases returned
        exact WritesOnly.refl none db
  | virtualGet uuid | dbGetDocument library collection id
  | dbQueryDocuments library collection query => cases isWrite

theorem WritesOnly.coherent {changed : Option Bytes} (writes : WritesOnly changed db next)
    (coherent : Coherent asked db) (nothing : ∀ uuid ∈ changed, NothingToInvalidate db uuid) :
    Coherent asked next := by
  cases changed with
  | none =>
    have sameDocuments := writes.unchanged rfl
    constructor
    · rw [writes.docCache, sameDocuments]
      exact coherent.doc
    · rw [writes.queryCache, sameDocuments]
      exact coherent.query
  | some uuid =>
    obtain ⟨noQuery, noDoc⟩ := nothing uuid rfl
    constructor
    · rw [writes.docCache]
      intro held same key doc member
      obtain ⟨other, generated, stored⟩ := coherent.doc held same key doc member
      have different : some uuid ≠ some other := by
        intro equal
        cases equal
        rw [invalidateDocCache, generated] at noDoc
        have kept := congrArg Database.docCache noDoc
        rw [Option.mem_def] at same
        simp only [same, Option.map_some, Option.some.injEq] at kept
        have removed := congrArg GenericCache.entries kept
        exact not_mem_entryKeys_of_removeEntry removed (List.mem_map_of_mem member)
      exact ⟨other, generated, by rw [writes.others other different]; exact stored⟩
    · rw [writes.queryCache]
      intro held same key result member
      have kept := congrArg Database.queryCache noQuery
      rw [Option.mem_def] at same
      rw [invalidateQueryCachePattern, same, Option.map_some, Option.some.injEq] at kept
      have cleared := congrArg GenericCache.entries kept
      rw [← cleared] at member
      cases member

theorem coherent_keeps (separate : KeysSeparate asked) :
    Keeps databaseStep
      (fun db event => (∀ one ∈ askedQueries event, one ∈ asked) ∧ StepSafe db event)
      (Coherent asked) := by
  intro db event next coherent ⟨member, safe⟩ taken
  obtain ⟨⟨answer, next⟩, performed, rfl⟩ := Option.map_eq_some_iff.mp taken
  by_cases isRead : event.2.isRead = true
  · obtain ⟨moment, operation⟩ := event
    cases operation with
    | virtualGet uuid =>
      cases performed
      exact virtualGet_coherent coherent uuid
    | dbGetDocument library collection id =>
      obtain ⟨⟨found, next⟩, returns, returned⟩ := Option.map_eq_some_iff.mp performed
      cases returned
      exact dbGetDocument_coherent coherent separate (member _ List.mem_cons_self)
        (safe.read library collection id rfl) returns
    | dbQueryDocuments library collection query =>
      obtain ⟨⟨found, next⟩, returns, returned⟩ := Option.map_eq_some_iff.mp performed
      cases returned
      exact (dbQueryDocuments_coherent coherent separate (member _ List.mem_cons_self) returns).1
    | virtualInsert _ _ _ _ _ | virtualUpdate _ _ | virtualDelete _ | storageUpdateDocument _ _
    | storageDeleteDocument _ | dbInsertDocument _ _ _ | dbUpdateDocument _ _ _ _
    | dbDeleteDocument _ _ _ => cases isRead
  · have isWrite : event.2.isRead = false := by simpa using isRead
    exact (perform_writesOnly isWrite performed).coherent coherent safe.write

theorem readsCurrent_of_coherent (coherent : Coherent asked db) {event : Moment × Operation δ}
    (member : ∀ one ∈ askedQueries event, one ∈ asked) (safe : StepSafe db event) :
    ReadsCurrent db event := by
  intro isRead
  have off := coherent_cachesOff asked db
  obtain ⟨moment, operation⟩ := event
  cases operation with
  | virtualGet uuid =>
    have on := virtualGet_answer coherent uuid
    have switchedOff := virtualGet_answer off uuid
    simp only [perform, answering, Option.map_some, on, switchedOff]
    rfl
  | dbGetDocument library collection id =>
    have addressed := safe.read library collection id rfl
    have on := dbGetDocument_answer coherent (member _ List.mem_cons_self) addressed
    have switchedOff : (dbGetDocument db.cachesOff library collection id).map Prod.fst =
        currentDocument db library collection id :=
      dbGetDocument_answer off (member _ List.mem_cons_self) addressed
    have answers := congrArg (Option.map Answer.document) (on.trans switchedOff.symm)
    rw [Option.map_map, Option.map_map] at answers
    rw [perform, perform, Option.map_map, Option.map_map]
    exact answers
  | dbQueryDocuments library collection query =>
    have on := dbQueryDocuments_answer coherent (member _ List.mem_cons_self)
    have switchedOff := dbQueryDocuments_answer off (member _ List.mem_cons_self)
    have answers := congrArg (Option.map Answer.result) (on.trans switchedOff.symm)
    rw [Option.map_map, Option.map_map] at answers
    rw [perform, perform, Option.map_map, Option.map_map]
    exact answers
  | virtualInsert _ _ _ _ _ | virtualUpdate _ _ | virtualDelete _ | storageUpdateDocument _ _
  | storageDeleteDocument _ | dbInsertDocument _ _ _ | dbUpdateDocument _ _ _ _
  | dbDeleteDocument _ _ _ => cases isRead

/-- In every run whose calls are safe and whose queries have keys of their
own, every read answers what it answers with the caches switched off. -/
theorem readsCurrent_of_safe (documents : DocumentList) (events : List (Moment × Operation δ))
    (separate : KeysSeparate (events.flatMap askedQueries))
    (safe : EveryStep databaseStep StepSafe (freshDatabase documents) events) :
    EveryStep databaseStep ReadsCurrent (freshDatabase documents) events := by
  have meets : EveryStep databaseStep
      (fun db event => (∀ one ∈ askedQueries event, one ∈ events.flatMap askedQueries) ∧
        StepSafe db event) (freshDatabase documents) events := by
    apply safe.and_mem.mono
    intro db event met
    exact ⟨fun one member => List.mem_flatMap.mpr ⟨event, met.1, member⟩, met.2⟩
  apply EveryStep.of_keeps (coherent_keeps separate) ?_ (coherent_freshDatabase _ _) meets
  exact fun db event coherent met => readsCurrent_of_coherent coherent met.1 met.2

end Run

theorem readsCurrent_of_safe_insertion :
    EveryStep databaseStep ReadsCurrent (freshDatabase DocumentList.empty : Database Rat)
      [ (⟨1, 7⟩, .virtualInsert (ascii "note") (ascii "default") none
          (.object [(ascii "name", .string (ascii "old"))]) (ascii "ann")),
        (⟨2, 0⟩, .virtualGet (ascii "doc-1-7")),
        (⟨3, 0⟩, .virtualGet (ascii "doc-1-7")) ] := by
  apply readsCurrent_of_safe
  · intro one member
    cases member
  · refine ⟨{ write := ?_, read := ?_ }, fun next _ => ⟨{ write := ?_, read := ?_ }, fun next _ =>
      ⟨{ write := ?_, read := ?_ }, fun next _ => trivial⟩⟩⟩
    · intro uuid _
      exact ⟨rfl, by rw [invalidateDocCache]; split <;> rfl⟩
    · intro library collection id isGet
      cases isGet
    · intro uuid changed
      cases changed
    · intro library collection id isGet
      cases isGet
    · intro uuid changed
      cases changed
    · intro library collection id isGet
      cases isGet

def staleEvents : List (Moment × Operation Rat) :=
  [ (⟨1, 7⟩, .virtualInsert (ascii "note") (ascii "default") none
      (.object [(ascii "name", .string (ascii "old"))]) (ascii "ann")),
    (⟨2, 0⟩, .virtualGet (ascii "doc-1-7")),
    (⟨3, 0⟩, .virtualUpdate (ascii "doc-1-7")
      (.object [(ascii "name", .string (ascii "new"))])) ]

/-- The database after `staleEvents`. -/
def staleDatabase : Database Rat :=
  (runFrom databaseStep (freshDatabase DocumentList.empty) staleEvents).getD
    (freshDatabase DocumentList.empty)

/-- The `name` of the document in an answer. -/
def answeredName : Option (Answer Rat) → Option Bytes
  | some (.document (some doc)) => jsonGetString (jsonObjectGet doc (ascii "name"))
  | _ => none

/-- The next `virtual_get` still returns the old name. -/
theorem not_readsCurrent_afterUpdate :
    ¬ ∀ events : List (Moment × Operation Rat),
      EveryStep databaseStep ReadsCurrent (freshDatabase DocumentList.empty) events := by
  intro everyRun
  have reads := everyRun (staleEvents ++ [(⟨4, 0⟩, .virtualGet (ascii "doc-1-7"))])
  have runs : (runFrom databaseStep (freshDatabase DocumentList.empty) staleEvents).isSome =
      true := by
    decide +kernel
  have reached : runFrom databaseStep (freshDatabase DocumentList.empty) staleEvents =
      some staleDatabase := by
    obtain ⟨last, same⟩ := Option.isSome_iff_exists.mp runs
    rw [staleDatabase, same, Option.getD_some]
  have stale := reads.last reached rfl
  have differ : answeredName ((perform staleDatabase
        (⟨4, 0⟩, .virtualGet (ascii "doc-1-7"))).map Prod.fst) ≠
      answeredName ((perform staleDatabase.cachesOff
        (⟨4, 0⟩, .virtualGet (ascii "doc-1-7"))).map Prod.fst) := by
    decide +kernel
  exact differ (congrArg answeredName stale)

end Jdbx
