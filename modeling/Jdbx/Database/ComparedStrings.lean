import Jdbx.Database.QueryAgreement
import Jdbx.Database.StoreRuns

/-!
# What reaches strcmp

The readers hand the string of a document's library, and then of its type, to `strcmp`
without a look at the types of the two values.  They return as long as the writers store
strings there.
-/

namespace Jdbx

open Library

variable {δ : Type}

/-! ## Fields that are strings -/

def isText (value : JsonValue δ) : Bool :=
  (jsonGetString (some value)).isSome

def fieldIsText (object : JsonValue δ) (key : Bytes) : Option Bool :=
  (jsonObjectGet object key).map isText

def comparable : Option Bool → Option Bool → Bool
  | none, _ => true
  | some libraryText, type => libraryText && type.getD true

def Comparable (object : JsonValue δ) : Prop :=
  comparable (fieldIsText object (ascii "library")) (fieldIsText object (ascii "type")) = true

instance (object : JsonValue δ) : Decidable (Comparable object) :=
  inferInstanceAs (Decidable (_ = _))

/-- The document that the call writes keeps the library and the type strings.  An update
takes each from the patch, or else from the document before. -/
def WritesComparable [CDouble δ] (db : Database δ) : Moment × StoreCall δ → Prop
  | (_, .storageInsertDocument document) => Comparable document.value
  | (_, .storageUpdateDocument uuid patch) | (_, .virtualUpdate uuid patch) =>
      ∀ existing ∈ storageGetDocument db uuid,
        comparable
          ((fieldIsText patch.value (ascii "library")).or (fieldIsText existing (ascii "library")))
          ((fieldIsText patch.value (ascii "type")).or (fieldIsText existing (ascii "type"))) = true
  | _ => True

/-- Every call returns: no call hands a `NULL` string to `strcmp`. -/
def ComparesOnlyStrings [CDouble δ] (db : Database δ) : Prop :=
  ∀ event : Moment × StoreCall δ, (performCall db event).isSome

theorem isText_jsonClone (value : JsonValue δ) : isText (jsonClone value) = isText value := by
  cases value <;> rfl

theorem isText_copy (value : JsonValue δ) :
    isText (jsonDeepCopyInternalSafe maxRecursionDepth value) = isText value := by
  cases value <;> rfl

theorem fieldIsText_set {object : JsonValue δ} (isObject : IsJsonObject object)
    (key tested : Bytes) (value : JsonValue δ) :
    fieldIsText (jsonObjectSet object key value) tested =
      if tested = key then some (isText value) else fieldIsText object tested := by
  rw [fieldIsText, isObject.get_set, apply_ite (Option.map isText)]
  rfl

theorem fieldIsText_copied {object : Option (JsonValue δ)} {copy : JsonValue δ → JsonValue δ}
    (keeps : ∀ value, isText (copy value) = isText value) :
    (object.map copy).map isText = object.map isText := by
  rw [Option.map_map]
  exact congrArg (object.map ·) (funext keeps)

section Written

variable {moment : Moment} {document patch existing : JsonValue δ} {key : Bytes}

theorem fieldIsText_deepCopy (isObject : IsJsonObject document) (key : Bytes) :
    fieldIsText (jsonDeepCopy document) key = fieldIsText document key := by
  rw [fieldIsText, isObject.get_deepCopy]
  exact fieldIsText_copied isText_copy

theorem fieldIsText_keepStringOr (isObject : IsJsonObject document) (key value tested : Bytes) :
    fieldIsText (keepStringOr document key value) tested =
      if tested = key then some true else fieldIsText document tested := by
  rw [keepStringOr]
  split
  · rename_i held found
    split_ifs with same
    · rw [same, fieldIsText, found]
      rfl
    · rfl
  · exact fieldIsText_set isObject key tested _

theorem fieldIsText_storageInserted (isObject : IsJsonObject document)
    (notUuid : key ≠ ascii "uuid") (notCreated : key ≠ ascii "created_at")
    (notModified : key ≠ ascii "modified_at") :
    fieldIsText (storageInserted moment document) key = fieldIsText document key := by
  rw [fieldIsText, storageInserted_get isObject notUuid notCreated notModified]
  exact fieldIsText_copied isText_copy

theorem fieldIsText_updatedDocument (isPatch : IsJsonObject patch)
    (isObject : IsJsonObject existing) (notModified : key ≠ ascii "modified_at") :
    fieldIsText (updatedDocument moment patch existing) key =
      (fieldIsText patch key).or (fieldIsText existing key) := by
  rw [fieldIsText, updatedDocument_get isPatch isObject notModified, Option.map_or,
    fieldIsText_copied isText_jsonClone, fieldIsText_copied isText_copy]
  rfl

theorem fieldIsText_virtualPatch (isPatch : IsJsonObject patch)
    (notUpdated : key ≠ ascii "updated_at") :
    fieldIsText (virtualPatch moment patch) key = fieldIsText patch key := by
  rw [fieldIsText, virtualPatch_get isPatch notUpdated]
  exact fieldIsText_copied isText_copy

theorem fieldIsText_dbUpdated (isPatch : IsJsonObject patch) (isObject : IsJsonObject existing)
    (isProtected : isMandatoryField key = true) (notModified : key ≠ ascii "modified_at") :
    fieldIsText (dbUpdated moment patch existing) key = fieldIsText existing key := by
  rw [fieldIsText, dbUpdated_get isPatch isObject isProtected notModified]
  exact fieldIsText_copied isText_copy

theorem comparable_storageInserted (isObject : IsJsonObject document)
    (holds : Comparable document) (moment : Moment) :
    Comparable (storageInserted moment document) := by
  rw [Comparable, fieldIsText_storageInserted isObject (by decide) (by decide) (by decide),
    fieldIsText_storageInserted isObject (by decide) (by decide) (by decide)]
  exact holds

theorem comparable_virtualInserted (isObject : IsJsonObject document) (type library : Bytes)
    (collection : Option Bytes) (owner : Bytes) :
    Comparable (virtualInserted type library collection document owner) := by
  have typed := isObject.deepCopy.set (ascii "type") (distinctKeys_string type)
  have placed := typed.set (ascii "library") (distinctKeys_string library)
  have collected := placed.set (ascii "collection")
    (distinctKeys_string (collection.getD (autoCollection type)))
  have libraryField : fieldIsText (virtualInserted type library collection document owner)
      (ascii "library") = some true := by
    rw [virtualInserted, fieldIsText_set collected, if_neg (by decide), fieldIsText_set placed,
      if_neg (by decide), fieldIsText_set typed, if_pos rfl]
    rfl
  have typeField : fieldIsText (virtualInserted type library collection document owner)
      (ascii "type") = some true := by
    rw [virtualInserted, fieldIsText_set collected, if_neg (by decide), fieldIsText_set placed,
      if_neg (by decide), fieldIsText_set typed, if_neg (by decide),
      fieldIsText_set isObject.deepCopy, if_pos rfl]
    rfl
  rw [Comparable, libraryField, typeField]
  rfl

theorem comparable_dbInserted (isObject : IsJsonObject document) (moment : Moment)
    (library collection : Bytes) : Comparable (dbInserted moment library collection document) := by
  have withUuid :=
    isObject.deepCopy.set (ascii "uuid") (distinctKeys_string (documentUuid moment))
  have typed := withUuid.keepStringOr (ascii "type") collection
  have placed := typed.keepStringOr (ascii "library") library
  have collected := placed.keepStringOr (ascii "collection") collection
  have created := collected.set (ascii "created_at") (distinctKeys_integer moment.now)
  have libraryField :
      fieldIsText (dbInserted moment library collection document) (ascii "library") =
        some true := by
    rw [dbInserted, fieldIsText_set created, if_neg (by decide), fieldIsText_set collected,
      if_neg (by decide), fieldIsText_keepStringOr placed, if_neg (by decide),
      fieldIsText_keepStringOr typed, if_pos rfl]
  have typeField :
      fieldIsText (dbInserted moment library collection document) (ascii "type") = some true := by
    rw [dbInserted, fieldIsText_set created, if_neg (by decide), fieldIsText_set collected,
      if_neg (by decide), fieldIsText_keepStringOr placed, if_neg (by decide),
      fieldIsText_keepStringOr typed, if_neg (by decide), fieldIsText_keepStringOr withUuid,
      if_pos rfl]
  rw [Comparable, libraryField, typeField]
  rfl

theorem written_comparable [CDouble δ] {db : Database δ} {event : Moment × StoreCall δ}
    (stored : ∀ uuid held, storageGetDocument db uuid = some held →
      IsJsonObject held ∧ Comparable held) (writes : WritesComparable db event)
    (found : written db event = some (key, document)) : Comparable document := by
  obtain ⟨moment, call⟩ := event
  cases call with
  | storageInsertDocument document =>
      obtain rfl := insertion_eq_some found
      exact comparable_storageInserted document.isObject writes moment
  | virtualInsert type library collection document owner =>
      obtain rfl := insertion_eq_some found
      exact comparable_storageInserted (virtualInserted_isObject document.isObject _ _ _ _)
        (comparable_virtualInserted document.isObject _ _ _ _) moment
  | dbInsertDocument library collection document =>
      obtain rfl := insertion_eq_some found
      exact comparable_dbInserted document.isObject moment library collection
  | storageUpdateDocument uuid patch =>
      obtain ⟨held, before, equal⟩ := Option.map_eq_some_iff.mp found
      obtain ⟨_, rfl⟩ := Prod.mk.inj equal
      have isObject := (stored uuid held before).1
      rw [Comparable, fieldIsText_updatedDocument patch.isObject isObject (by decide),
        fieldIsText_updatedDocument patch.isObject isObject (by decide)]
      exact writes held before
  | virtualUpdate uuid patch =>
      obtain ⟨held, before, equal⟩ := Option.map_eq_some_iff.mp found
      obtain ⟨_, rfl⟩ := Prod.mk.inj equal
      have isObject := (stored uuid held before).1
      have isPatch := virtualPatch_isObject patch.isObject moment
      rw [Comparable, fieldIsText_updatedDocument isPatch isObject (by decide),
        fieldIsText_updatedDocument isPatch isObject (by decide),
        fieldIsText_virtualPatch patch.isObject (by decide),
        fieldIsText_virtualPatch patch.isObject (by decide)]
      exact writes held before
  | dbUpdateDocument library collection id update =>
      obtain ⟨held, before, matched⟩ := Option.bind_eq_some_iff.mp found
      split_ifs at matched
      obtain ⟨_, rfl⟩ := Prod.mk.inj (Option.some.inj matched)
      obtain ⟨isObject, holds⟩ := stored id held before
      rw [Comparable, fieldIsText_dbUpdated update.isObject isObject (by decide) (by decide),
        fieldIsText_dbUpdated update.isObject isObject (by decide) (by decide)]
      exact holds
  | storageDeleteDocument _ | virtualDelete _ | dbDeleteDocument _ _ _ | virtualGet _
  | storageQueryDocuments _ | dbGetDocument _ _ _ | dbQueryDocuments _ _ _ => cases found

end Written

section Stored

variable [CDouble δ]

theorem isText_rereadValue (value : JsonValue δ) : isText (rereadValue value) = isText value := by
  cases value with
  | number number =>
      rw [rereadValue, rereadNumber, parseNumber]
      dsimp only
      split_ifs <;> rfl
  | null | boolean _ | integer _ | string _ | array _ | object _ => rfl

theorem fieldIsText_rereadValue {document : JsonValue δ} (isObject : IsJsonObject document)
    {key : Bytes} (plain : Plain key) :
    fieldIsText (rereadValue document) key = fieldIsText document key := by
  rw [fieldIsText, isObject.get_reread plain]
  exact fieldIsText_copied isText_rereadValue

/-- The documents of the collection, and of the results and documents in the caches, can
be compared. -/
structure StoresStrings (db : Database δ) : Prop where
  documents : StoresOnly (fun _ document => Comparable document) db
  docCache : CacheObeys db.docCache fun _ doc => IsJsonObject doc ∧ Comparable doc
  queryCache : CacheObeys db.queryCache fun _ result =>
    ∀ doc ∈ foundDocuments result, IsJsonObject doc ∧ Comparable doc

variable {db : Database δ} {doc : JsonValue δ}

theorem StoresStrings.stored (strings : StoresStrings db)
    (prints : ∀ number : δ, PrintsNumber number) {uuid : Bytes} {existing : JsonValue δ}
    (found : storageGetDocument db uuid = some existing) :
    IsJsonObject existing ∧ Comparable existing := by
  obtain ⟨document, isObject, holds, rfl, isExisting⟩ := strings.documents.get prints found
  refine ⟨isExisting, ?_⟩
  rw [Comparable, fieldIsText_rereadValue isObject (by decide),
    fieldIsText_rereadValue isObject (by decide)]
  exact holds

theorem StoresStrings.listed (strings : StoresStrings db)
    (prints : ∀ number : δ, PrintsNumber number)
    (member : doc ∈ db.documents.entries.filterMap storedDocument) :
    IsJsonObject doc ∧ Comparable doc := by
  obtain ⟨⟨uuid, text⟩, inside, stored⟩ := List.mem_filterMap.mp member
  have found : storageGetDocument db uuid = some doc := by
    have searched : skiplistSearch db.documents uuid = some text :=
      getEntry_eq_some_of_mem db.documents.distinct inside
    rw [storageGetDocument, searched, Option.bind_some]
    rw [storedDocument] at stored
    split at stored
    · rename_i fields parsed
      rw [parsed, ← stored]
    · cases stored
  exact strings.stored prints found

omit [CDouble δ] in
theorem hasTextLibrary_of_comparable (holds : Comparable doc) :
    HasTextLibrary doc := by
  intro value member
  rw [Comparable, fieldIsText, Option.mem_def.mp member, Option.map_some, comparable,
    Bool.and_eq_true] at holds
  exact holds.1

omit [CDouble δ] in
theorem matchesLibraryAndType_returns (holds : Comparable doc) (library collection : Bytes) :
    ∃ same, matchesLibraryAndType doc library collection = some same := by
  rw [matchesLibraryAndType]
  rw [Comparable, fieldIsText, fieldIsText] at holds
  cases named : jsonObjectGet doc (ascii "library") with
  | none => exact ⟨false, rfl⟩
  | some docLibrary =>
      cases typed : jsonObjectGet doc (ascii "type") with
      | none => exact ⟨false, rfl⟩
      | some docType =>
          rw [named, typed, Option.map_some, Option.map_some, comparable, Bool.and_eq_true] at holds
          obtain ⟨held, libraryText⟩ := Option.isSome_iff_exists.mp holds.1
          obtain ⟨kind, typeText⟩ := Option.isSome_iff_exists.mp holds.2
          simp only [strcmpEqual, libraryText, typeText, Option.map_some, Option.bind_some]
          split_ifs
          · exact ⟨_, rfl⟩
          · exact ⟨_, rfl⟩

theorem dbQueryDocuments_returns (strings : StoresStrings db)
    (prints : ∀ number : δ, PrintsNumber number) (library collection : Bytes)
    (query : Option (JsonValue δ)) :
    ∃ result next, dbQueryDocuments db library collection query = some (result, next) ∧
      StoresStrings next ∧ ∀ doc ∈ foundDocuments result, IsJsonObject doc ∧ Comparable doc := by
  rw [dbQueryDocuments]
  have touched := cacheGet_obeys strings.queryCache
    (generateQueryCacheKeyFast library collection query)
  cases cached : (cacheGet db.queryCache
      (generateQueryCacheKeyFast library collection query)).1 with
  | some cachedResult =>
      obtain ⟨key, _, lawful⟩ := cacheGet_lawful strings.queryCache cached
      exact ⟨cachedResult, _, rfl, { strings with queryCache := touched }, lawful⟩
  | none =>
      have scanned := scanDocuments_eq library query db.documents.entries
      rw [if_pos fun doc member =>
        hasTextLibrary_of_comparable (strings.listed prints member).2] at scanned
      have copied := jsonDeepCopy_eq_self (by decide)
        (queryResult_copyable (scanDocuments_copyable scanned))
      have lawful : ∀ doc ∈ (db.documents.entries.filterMap storedDocument).filter
          (dbMatches library query), IsJsonObject doc ∧ Comparable doc :=
        fun doc member => strings.listed prints (List.mem_filter.mp member).1
      simp only [scanned, Option.map_some, copied]
      refine ⟨_, _, rfl, ⟨strings.documents, strings.docCache, ?_⟩, lawful⟩
      exact cachePut_obeys touched fun _ _ => lawful

omit [CDouble δ] in
theorem comparable_deepCopy (holds : IsJsonObject doc ∧ Comparable doc) :
    IsJsonObject (jsonDeepCopy doc) ∧ Comparable (jsonDeepCopy doc) := by
  refine ⟨holds.1.deepCopy, ?_⟩
  rw [Comparable, fieldIsText_deepCopy holds.1, fieldIsText_deepCopy holds.1]
  exact holds.2

theorem dbGetStoredDocument_returns (strings : StoresStrings db)
    (prints : ∀ number : δ, PrintsNumber number) (library collection id : Bytes) :
    ∃ document next, dbGetStoredDocument db library collection id = some (document, next) ∧
      StoresStrings next := by
  obtain ⟨result, next, returned, kept, lawful⟩ := dbQueryDocuments_returns strings prints library
    collection (some (documentQuery library collection id))
  rw [dbGetStoredDocument, returned, Option.map_some]
  split
  · rename_i first others found
    have member : first ∈ foundDocuments result := by
      rw [foundDocuments, found]
      exact List.mem_cons_self
    have copied := comparable_deepCopy (comparable_deepCopy (lawful first member))
    refine ⟨_, _, rfl, { kept with docCache := ?_ }⟩
    exact cachePut_obeys kept.docCache fun _ _ => copied
  · exact ⟨none, next, rfl, kept⟩

theorem dbGetDocument_returns (strings : StoresStrings db)
    (prints : ∀ number : δ, PrintsNumber number) (library collection id : Bytes) :
    ∃ document next, dbGetDocument db library collection id = some (document, next) ∧
      StoresStrings next := by
  have touched : StoresStrings { db with
      docCache := (cacheGet db.docCache (generateDocCacheKeyFast id)).2 } :=
    { strings with docCache := cacheGet_obeys strings.docCache (generateDocCacheKeyFast id) }
  rw [dbGetDocument]
  cases cached : (cacheGet db.docCache (generateDocCacheKeyFast id)).1 with
  | none => exact dbGetStoredDocument_returns touched prints library collection id
  | some doc =>
      obtain ⟨key, _, lawful⟩ := cacheGet_lawful strings.docCache cached
      obtain ⟨same, compared⟩ := matchesLibraryAndType_returns lawful.2 library collection
      simp only [compared, Option.bind_some]
      split_ifs
      · exact ⟨some doc, _, rfl, touched⟩
      · exact dbGetStoredDocument_returns touched prints library collection id

theorem virtualGet_strings (strings : StoresStrings db)
    (prints : ∀ number : δ, PrintsNumber number) (uuid : Bytes) :
    StoresStrings (virtualGet db uuid).2 := by
  have touched := cacheGet_obeys strings.docCache (generateDocCacheKeyFast uuid)
  rw [virtualGet]
  cases (cacheGet db.docCache (generateDocCacheKeyFast uuid)).1 with
  | some cachedDoc => exact { strings with docCache := touched }
  | none =>
      cases found : storageGetDocument db uuid with
      | none => exact { strings with docCache := touched }
      | some doc =>
          have copied := comparable_deepCopy (strings.stored prints found)
          exact { strings with docCache := cachePut_obeys touched fun _ _ => copied }

theorem performCall_returns (strings : StoresStrings db)
    (prints : ∀ number : δ, PrintsNumber number) (event : Moment × StoreCall δ) :
    ∃ answer next, performCall db event = some (answer, next) := by
  obtain ⟨moment, call⟩ := event
  cases call with
  | dbUpdateDocument library collection id update =>
      rw [performCall, dbUpdateDocument]
      cases found : storageGetDocument db id with
      | none => exact ⟨_, _, rfl⟩
      | some existing =>
          obtain ⟨same, compared⟩ := matchesLibraryAndType_returns
            (strings.stored prints found).2 library collection
          simp only [compared, Option.map_some]
          exact ⟨_, _, rfl⟩
  | dbDeleteDocument library collection id =>
      rw [performCall, dbDeleteDocument]
      cases found : storageGetDocument db id with
      | none => exact ⟨_, _, rfl⟩
      | some existing =>
          obtain ⟨same, compared⟩ := matchesLibraryAndType_returns
            (strings.stored prints found).2 library collection
          simp only [compared, Option.map_some]
          exact ⟨_, _, rfl⟩
  | dbGetDocument library collection id =>
      obtain ⟨document, next, returned, _⟩ :=
        dbGetDocument_returns strings prints library collection id
      rw [performCall, returned]
      exact ⟨_, _, rfl⟩
  | dbQueryDocuments library collection query =>
      obtain ⟨result, next, returned, _⟩ :=
        dbQueryDocuments_returns strings prints library collection query
      rw [performCall, returned]
      exact ⟨_, _, rfl⟩
  | storageInsertDocument _ | virtualInsert _ _ _ _ _ | dbInsertDocument _ _ _
  | storageUpdateDocument _ _ | virtualUpdate _ _ | storageDeleteDocument _ | virtualDelete _
  | virtualGet _ | storageQueryDocuments _ => exact ⟨_, _, rfl⟩

theorem storesStrings_keeps (prints : ∀ number : δ, PrintsNumber number) :
    Keeps (storeStep (δ := δ)) WritesComparable StoresStrings := by
  intro db event next strings writes step
  obtain ⟨⟨answer, next⟩, taken, rfl⟩ := Option.map_eq_some_iff.mp step
  have documents : StoresOnly (fun _ document => Comparable document) next :=
    strings.documents.step taken fun key document found =>
      ⟨written_isObject (fun uuid held before => (strings.stored prints before).1) found,
        written_comparable (fun uuid held before => strings.stored prints before) writes found⟩
  by_cases cached : event.2.isCached = true
  · obtain ⟨moment, call⟩ := event
    cases call with
    | virtualGet uuid =>
        obtain ⟨_, rfl⟩ := Prod.mk.inj (Option.some.inj taken)
        exact virtualGet_strings strings prints uuid
    | dbGetDocument library collection id =>
        obtain ⟨document, other, returned, kept⟩ :=
          dbGetDocument_returns strings prints library collection id
        rw [performCall, returned] at taken
        obtain ⟨_, rfl⟩ := Prod.mk.inj (Option.some.inj taken)
        exact kept
    | dbQueryDocuments library collection query =>
        obtain ⟨result, other, returned, kept, _⟩ :=
          dbQueryDocuments_returns strings prints library collection query
        rw [performCall, returned] at taken
        obtain ⟨_, rfl⟩ := Prod.mk.inj (Option.some.inj taken)
        exact kept
    | storageInsertDocument _ | virtualInsert _ _ _ _ _ | dbInsertDocument _ _ _
    | storageUpdateDocument _ _ | virtualUpdate _ _ | dbUpdateDocument _ _ _ _
    | storageDeleteDocument _ | virtualDelete _ | dbDeleteDocument _ _ _
    | storageQueryDocuments _ => cases cached
  · obtain ⟨docCache, queryCache⟩ := performCall_caches taken (eq_false_of_ne_true cached)
    refine ⟨documents, ?_, ?_⟩
    · rw [docCache]
      exact strings.docCache
    · rw [queryCache]
      exact strings.queryCache

theorem storesStrings_fresh : StoresStrings (freshDatabase DocumentList.empty : Database δ) := by
  refine ⟨fun entry member => absurd member List.not_mem_nil, ?_, ?_⟩
  · intro held same
    cases same
    exact genericCacheCreate_obeys 10000
  · intro held same
    cases same
    exact genericCacheCreate_obeys 1000

/-- A run that writes strings there goes on to its end, and after it every call returns. -/
theorem comparesOnlyStrings_of_writes (prints : ∀ number : δ, PrintsNumber number)
    (events : List (Moment × StoreCall δ))
    (writes : EveryStep storeStep WritesComparable (freshDatabase DocumentList.empty) events) :
    ∃ last, runFrom storeStep (freshDatabase DocumentList.empty) events = some last ∧
      ComparesOnlyStrings last := by
  have goesOn : ∀ (db : Database δ) event, StoresStrings db → WritesComparable db event →
      ∃ next, storeStep db event = some next ∧ StoresStrings next := by
    intro db event strings met
    obtain ⟨answer, next, taken⟩ := performCall_returns strings prints event
    have step : storeStep db event = some next := by
      rw [storeStep, taken, Option.map_some]
    exact ⟨next, step, storesStrings_keeps prints db event next strings met step⟩
  obtain ⟨last, reached, strings⟩ := EveryStep.total goesOn storesStrings_fresh writes
  refine ⟨last, reached, fun event => ?_⟩
  obtain ⟨answer, next, taken⟩ := performCall_returns strings prints event
  rw [taken]
  rfl

end Stored

def oneField (key : Bytes) (value : JsonValue Rat) (copyable : Copyable 1 value) :
    JsonObject Rat where
  value := .object [(key, value)]
  isObject := by
    refine ⟨_, rfl, 2, List.nodup_singleton key, ?_⟩
    simpa using copyable

theorem comparesOnlyStrings_of_writes_one :
    ∃ last, runFrom storeStep (freshDatabase DocumentList.empty)
        [(⟨1, 7⟩, .storageInsertDocument
          (oneField (ascii "library") (.string (ascii "default")) trivial))] = some last ∧
      ComparesOnlyStrings last := by
  apply comparesOnlyStrings_of_writes printsNumber_rat
  have writes : Comparable
      (oneField (ascii "library") (.string (ascii "default")) trivial).value := by
    decide
  exact ⟨writes, fun next _ => trivial⟩

/-- The database after `storage_insert_document` of a document whose library is a number. -/
def numberedDatabase : Database Rat :=
  (storageInsertDocument ⟨1, 7⟩ (freshDatabase DocumentList.empty)
    (oneField (ascii "library") (.integer 5) trivial).value).2

/-- The next query of any library hands a `NULL` string to `strcmp`. -/
theorem not_comparesOnlyStrings_numberedLibrary :
    ¬ ∀ (events : List (Moment × StoreCall Rat)) last,
      runFrom storeStep (freshDatabase DocumentList.empty) events = some last →
        ComparesOnlyStrings last := by
  intro everyRun
  have reached : runFrom storeStep (freshDatabase DocumentList.empty)
      [(⟨1, 7⟩, .storageInsertDocument (oneField (ascii "library") (.integer 5) trivial))] =
        some numberedDatabase := rfl
  have returns := everyRun _ _ reached
    (⟨2, 0⟩, .dbQueryDocuments (ascii "default") (ascii "documents") none)
  have ends : (performCall numberedDatabase
      (⟨2, 0⟩, .dbQueryDocuments (ascii "default") (ascii "documents") none)).isSome = false := by
    decide +kernel
  rw [ends] at returns
  cases returns

end Jdbx
