import Jdbx.Database.CacheCoherence
import Jdbx.Database.VirtualQueries

/-!
# The two query implementations

`storage_query_documents` and `db_query_documents` walk the same documents, each with
a field loop of its own.
-/

namespace Jdbx

open Library

variable {δ : Type} [CDouble δ]

/-- The documents of a library and a collection that `storage_query_documents` finds. -/
def storageFinds (db : Database δ) (library collection : Bytes) (query : JsonValue δ) :
    List (JsonValue δ) :=
  (foundDocuments (storageQueryDocuments db query)).filter fun doc =>
    jsonGetString (jsonObjectGet doc (ascii "library")) = some library ∧
      jsonGetString (jsonObjectGet doc (ascii "collection")) = some collection

/-- `db_query_documents` returns, and both find the same set of documents. -/
def QueriesAgree (documents : DocumentList) (library collection : Bytes)
    (query : JsonValue δ) : Prop :=
  ∃ result next, dbQueryDocuments (freshDatabase documents) library collection (some query) =
      some (result, next) ∧
    ∀ doc, doc ∈ storageFinds (freshDatabase documents) library collection query ↔
      doc ∈ foundDocuments result

/-- Both values are strings, integers, booleans or numbers, and equal. -/
def holdsField (query doc : JsonValue δ) (key : Bytes) : Bool :=
  match jsonObjectGet query key, jsonObjectGet doc key with
  | some (.string wanted), some (.string held) => wanted == held
  | some (.integer wanted), some (.integer held) => wanted == held
  | some (.boolean wanted), some (.boolean held) => wanted == held
  | some (.number wanted), some (.number held) => CDouble.eq wanted held
  | _, _ => false

def asksInteger (query : JsonValue δ) : Bool :=
  ((jsonObjectGetKeys query).getD []).any fun key =>
    match jsonObjectGet query key with
    | some (.integer _) => true
    | _ => false

def asksNumber (query : JsonValue δ) : Bool :=
  ((jsonObjectGetKeys query).getD []).any fun key =>
    match jsonObjectGet query key with
    | some (.number _) => true
    | _ => false

def HasTextLibrary (doc : JsonValue δ) : Prop :=
  ∀ value ∈ jsonObjectGet doc (ascii "library"), (jsonGetString (some value)).isSome

instance (doc : JsonValue δ) : Decidable (HasTextLibrary doc) :=
  inferInstanceAs (Decidable (∀ _ ∈ _, _))

/-- What a stored document must be like for the two to treat it alike. -/
structure ComparedAlike (library collection : Bytes) (query doc : JsonValue δ) : Prop where
  text : HasTextLibrary doc
  fields : jsonGetString (jsonObjectGet doc (ascii "library")) = some library →
    matchesQuery holdsField query doc = true →
      (asksNumber query = false ↔ asksInteger query = false ∧
        jsonGetString (jsonObjectGet doc (ascii "collection")) = some collection)

omit [CDouble δ] in
theorem matchesQuery_eq_all (fieldMatches : JsonValue δ → JsonValue δ → Bytes → Bool)
    (query doc : JsonValue δ) :
    matchesQuery fieldMatches query doc =
      ((jsonObjectGetKeys query).getD []).all (fieldMatches query doc) := by
  rw [matchesQuery]
  cases jsonObjectGetKeys query <;> simp

omit [CDouble δ] in
theorem matchesQuery_refusing {fieldMatches holds : JsonValue δ → JsonValue δ → Bytes → Bool}
    {query doc : JsonValue δ} {refuses : Bytes → Bool}
    (field : ∀ key, fieldMatches query doc key = (holds query doc key && !refuses key)) :
    matchesQuery fieldMatches query doc = true ↔
      matchesQuery holds query doc = true ∧
        ((jsonObjectGetKeys query).getD []).any refuses = false := by
  rw [matchesQuery_eq_all, matchesQuery_eq_all, List.all_eq_true, List.all_eq_true,
    List.any_eq_false, ← forall₂_and]
  simp [field]

theorem matchesQuery_db (query doc : JsonValue δ) :
    matchesQuery dbFieldMatches query doc = true ↔
      matchesQuery holdsField query doc = true ∧ asksNumber query = false := by
  apply matchesQuery_refusing
  intro key
  rw [dbFieldMatches, holdsField]
  cases jsonObjectGet query key with
  | none => simp
  | some wanted =>
    cases jsonObjectGet doc key with
    | none => cases wanted <;> simp
    | some held => cases wanted <;> cases held <;> simp [Bool.beq_comm]

theorem matchesQuery_storage (query doc : JsonValue δ) :
    matchesQuery storageFieldMatches query doc = true ↔
      matchesQuery holdsField query doc = true ∧ asksInteger query = false := by
  apply matchesQuery_refusing
  intro key
  rw [storageFieldMatches, holdsField]
  cases jsonObjectGet query key with
  | none => simp
  | some wanted =>
    cases jsonObjectGet doc key with
    | none => cases wanted <;> simp
    | some held => cases wanted <;> cases held <;> simp

def dbMatches (library : Bytes) (query : Option (JsonValue δ)) (doc : JsonValue δ) : Bool :=
  jsonGetString (jsonObjectGet doc (ascii "library")) == some library &&
    query.all fun query => matchesQuery dbFieldMatches query doc

/-- The scan returns unless a library is no string, and then finds the documents of the
library that match. -/
theorem scanDocuments_eq (library : Bytes) (query : Option (JsonValue δ))
    (entries : List (Bytes × Bytes)) :
    scanDocuments library query entries =
      if ∀ doc ∈ entries.filterMap (storedDocument (δ := δ)), HasTextLibrary doc then
        some ((entries.filterMap storedDocument).filter (dbMatches library query))
      else none := by
  induction entries with
  | nil => simp [scanDocuments]
  | cons entry entries ih =>
    obtain ⟨key, docStr⟩ := entry
    rw [scanDocuments]
    cases parsed : (jsonParse docStr : Option (JsonValue δ)) with
    | none =>
      simp only [List.filterMap_cons, storedDocument, parsed]
      exact ih
    | some value =>
      cases value with
      | object fields =>
        have copied : jsonDeepCopy (.object fields : JsonValue δ) = .object fields :=
          jsonDeepCopy_eq_self (by decide) (jsonParse_copyable parsed)
        have stored : storedDocument (key, docStr) = some (.object fields : JsonValue δ) := by
          rw [storedDocument, parsed]
        have named : jsonObjectGet (.object fields : JsonValue δ) (ascii "library") =
            getEntry (ascii "library") fields := rfl
        rw [List.filterMap_cons_some stored, List.filter_cons]
        simp only [copied, ih, List.forall_mem_cons]
        cases found : getEntry (ascii "library") fields with
        | none =>
          rw [found] at named
          have own : HasTextLibrary (.object fields : JsonValue δ) := by
            simp [HasTextLibrary, named]
          have unmatched : dbMatches library query (.object fields) = false := by
            simp [dbMatches, named, jsonGetString]
          simp only [own, unmatched, true_and]
          rfl
        | some docLibrary =>
          rw [found] at named
          cases text : jsonGetString (some docLibrary) with
          | none =>
            have own : ¬ HasTextLibrary (.object fields : JsonValue δ) := by
              simp [HasTextLibrary, named, text]
            simp [own, strcmpEqual, text]
          | some held =>
            have own : HasTextLibrary (.object fields : JsonValue δ) := by
              simp [HasTextLibrary, named, text]
            have matched : dbMatches library query (.object fields) =
                (held == library && query.all fun query =>
                  matchesQuery dbFieldMatches query (.object fields)) := by
              simp [dbMatches, named, text]
            simp only [own, true_and, strcmpEqual, text, Option.map_some,
              Option.bind_some, matched]
            split_ifs <;> rfl
      | _ =>
        simp only [List.filterMap_cons, storedDocument, parsed]
        exact ih

theorem mem_storageFinds {db : Database δ} {library collection : Bytes} {query doc : JsonValue δ} :
    doc ∈ storageFinds db library collection query ↔
      doc ∈ db.documents.entries.filterMap storedDocument ∧
        (matchesQuery holdsField query doc = true ∧ asksInteger query = false) ∧
          jsonGetString (jsonObjectGet doc (ascii "library")) = some library ∧
            jsonGetString (jsonObjectGet doc (ascii "collection")) = some collection := by
  have found : foundDocuments (storageQueryDocuments db query) =
      storageMatches query db.documents.entries := rfl
  rw [storageFinds, List.mem_filter, found, storageMatches_eq, List.mem_filter,
    matchesQuery_storage, decide_eq_true_iff, and_assoc]

theorem dbQueryDocuments_fresh (documents : DocumentList) (library collection : Bytes)
    (query : JsonValue δ) :
    (dbQueryDocuments (freshDatabase documents) library collection (some query)).map Prod.fst =
      (scanDocuments library (some query) documents.entries).map queryResult :=
  dbQueryDocuments_answer (coherent_freshDatabase [⟨library, collection, some query⟩] documents)
    List.mem_cons_self

variable {documents : DocumentList} {library collection : Bytes} {query : JsonValue δ}

theorem queriesAgree_of_scan {found : List (JsonValue δ)}
    (scanned : scanDocuments library (some query) documents.entries = some found) :
    QueriesAgree documents library collection query ↔
      ∀ doc, doc ∈ storageFinds (freshDatabase documents) library collection query ↔
        doc ∈ found := by
  have answered := dbQueryDocuments_fresh documents library collection query
  rw [scanned] at answered
  obtain ⟨⟨result, next⟩, returned, same⟩ := Option.map_eq_some_iff.mp answered
  have finds : foundDocuments result = found := congrArg foundDocuments same
  rw [QueriesAgree, returned]
  constructor
  · intro ⟨_, _, equal, agree⟩
    cases equal
    rwa [finds] at agree
  · intro agree
    exact ⟨result, next, rfl, finds ▸ agree⟩

theorem not_queriesAgree_of_scan
    (scanned : scanDocuments library (some query) documents.entries = none) :
    ¬ QueriesAgree documents library collection query := by
  intro ⟨result, next, returned, _⟩
  have answered := dbQueryDocuments_fresh documents library collection query
  rw [scanned, returned] at answered
  cases answered

theorem comparedAlike_iff {doc : JsonValue δ} (text : HasTextLibrary doc) :
    ComparedAlike library collection query doc ↔
      ((matchesQuery holdsField query doc = true ∧ asksInteger query = false) ∧
          jsonGetString (jsonObjectGet doc (ascii "library")) = some library ∧
            jsonGetString (jsonObjectGet doc (ascii "collection")) = some collection ↔
        dbMatches library (some query) doc = true) := by
  rw [dbMatches, Option.all_some, Bool.and_eq_true, beq_iff_eq, matchesQuery_db]
  constructor
  · intro alike
    have fields := alike.fields
    tauto
  · intro both
    exact { text, fields := fun held matched => by tauto }

/-- The two find the same documents just where every stored one is compared alike. -/
theorem queriesAgree_iff (documents : DocumentList) (library collection : Bytes)
    (query : JsonValue δ) :
    QueriesAgree documents library collection query ↔
      ∀ doc ∈ documents.entries.filterMap storedDocument,
        ComparedAlike library collection query doc := by
  have scanned := scanDocuments_eq library (some query) documents.entries
  by_cases texts : ∀ doc ∈ documents.entries.filterMap (storedDocument (δ := δ)),
      HasTextLibrary doc
  · rw [if_pos texts] at scanned
    rw [queriesAgree_of_scan scanned]
    apply forall_congr'
    intro doc
    rw [mem_storageFinds, List.mem_filter, freshDatabase, and_congr_right_iff]
    exact forall_congr' fun stored => (comparedAlike_iff (texts doc stored)).symm
  · rw [if_neg texts] at scanned
    apply iff_of_false (not_queriesAgree_of_scan scanned)
    intro alike
    exact texts fun doc stored => (alike doc stored).text

/-- A document with an integer field, as `db_insert_document` stores it. -/
def agedDocument : DocumentList :=
  skiplistInsert .empty (ascii "doc-1-1")
    (ascii "\x7b\"library\":\"default\",\"collection\":\"documents\",\"age\":5\x7d")

/-- A query for the integer finds the document in one of the two only. -/
theorem not_queriesAgree_integer :
    ¬ QueriesAgree agedDocument (ascii "default") (ascii "documents")
      (.object [(ascii "age", .integer 5)] : JsonValue Rat) := by
  intro agree
  have scans : (scanDocuments (ascii "default")
      (some (.object [(ascii "age", .integer 5)] : JsonValue Rat))
        agedDocument.entries).map List.length = some 1 := by
    decide +kernel
  obtain ⟨found, scanned, one⟩ := Option.map_eq_some_iff.mp scans
  obtain ⟨doc, rfl⟩ := List.length_eq_one_iff.mp one
  have none : (storageFinds (freshDatabase agedDocument) (ascii "default") (ascii "documents")
      (.object [(ascii "age", .integer 5)] : JsonValue Rat)).isEmpty = true := by
    decide +kernel
  have member := ((queriesAgree_of_scan scanned).mp agree doc).mpr List.mem_cons_self
  rw [List.isEmpty_iff.mp none] at member
  cases member

end Jdbx
