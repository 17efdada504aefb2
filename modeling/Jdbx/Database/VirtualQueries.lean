import Jdbx.Database.UnifiedDocuments

/-!
# Queries by type and library

`virtual_query` puts the type and the library that are asked for into one object
with the filters of the caller, which are set last.
-/

namespace Jdbx

open Library

variable {δ : Type} [CDouble δ]

/-! ## What is asked, and what is found -/

omit [CDouble δ] in
/-- The entries that `virtual_query` sets first. -/
def askedEntries (type library : Bytes) (collection : Option Bytes) :
    List (Bytes × JsonValue δ) :=
  [(ascii "type", .string type), (ascii "library", .string library),
    (ascii "collection", .string (collection.getD (autoCollection type)))]

/-- The `unified_query` of `virtual_query`. -/
def unifiedQuery (type library : Bytes) (collection : Option Bytes) (filters : JsonValue δ) :
    JsonValue δ :=
  mergeFields jsonClone (fun _ => false) filters (.object (askedEntries type library collection))

def storedDocument (entry : Bytes × Bytes) : Option (JsonValue δ) :=
  match jsonParse entry.2 with
  | some (.object fields) => some (.object fields)
  | _ => none

omit [CDouble δ] in
def BelongsTo (type library : Bytes) (doc : JsonValue δ) : Prop :=
  jsonGetString (jsonObjectGet doc (ascii "type")) = some type ∧
    jsonGetString (jsonObjectGet doc (ascii "library")) = some library

omit [CDouble δ] in
instance (type library : Bytes) (doc : JsonValue δ) : Decidable (BelongsTo type library doc) :=
  inferInstanceAs (Decidable (_ ∧ _))

def documentsOf (db : Database δ) (type library : Bytes) : List (JsonValue δ) :=
  (db.documents.entries.filterMap storedDocument).filter fun doc => BelongsTo type library doc

omit [CDouble δ] in
def foundDocuments (result : JsonValue δ) : List (JsonValue δ) :=
  match jsonObjectGet result (ascii "documents") with
  | some (.array documents) => documents
  | _ => []

/-- The query finds documents of the type and the library only, and its result
depends on nothing else in the store. -/
structure IsolatesQuery (type library : Bytes) (collection : Option Bytes)
    (filters : JsonValue δ) : Prop where
  own : ∀ (db : Database δ),
    ∀ doc ∈ foundDocuments (virtualQuery db type library collection filters),
      BelongsTo type library doc
  alike : ∀ first second : Database δ,
    documentsOf first type library = documentsOf second type library →
      virtualQuery first type library collection filters =
        virtualQuery second type library collection filters

omit [CDouble δ] in
def LeavesField (filters : JsonValue δ) (key text : Bytes) : Prop :=
  ∀ value ∈ jsonObjectGet filters key, jsonGetString (some value) = some text

def MatchesNothing (query : JsonValue δ) : Prop :=
  ∀ text fields, jsonParse text = some (.object fields) →
    matchesQuery storageFieldMatches query (.object fields) = false

theorem matchesQuery_field {query doc value : JsonValue δ} {key : Bytes}
    (matched : matchesQuery storageFieldMatches query doc = true)
    (asked : jsonObjectGet query key = some value) :
    storageFieldMatches query doc key = true := by
  cases query with
  | object entries =>
      have member : key ∈ entryKeys entries :=
        List.mem_map.mpr ⟨(key, value), mem_of_getEntry_eq_some asked, rfl⟩
      exact List.all_eq_true.mp matched key member
  | _ => cases asked

theorem storageFieldMatches_string {query doc : JsonValue δ} {key : Bytes}
    (matched : storageFieldMatches query doc key = true) :
    jsonGetString (jsonObjectGet doc key) = jsonGetString (jsonObjectGet query key) := by
  unfold storageFieldMatches at matched
  split at matched
  · rename_i wanted held asked stored
    rw [asked, stored, eq_of_beq matched]
  · rename_i wanted held asked stored
    rw [asked, stored]
    rfl
  · rename_i wanted held asked stored
    rw [asked, stored]
    rfl
  · cases matched

omit [CDouble δ] in
theorem jsonGetString_jsonClone (value : JsonValue δ) :
    jsonGetString (some (jsonClone value)) = jsonGetString (some value) := by
  cases value <;> rfl

omit [CDouble δ] in
theorem unifiedQuery_field (filters : JsonValue δ) {type library : Bytes}
    {collection : Option Bytes} {key text : Bytes}
    (asked : getEntry key (askedEntries type library collection : List (Bytes × JsonValue δ)) =
      some (.string text)) :
    ∃ value, jsonObjectGet (unifiedQuery type library collection filters) key = some value ∧
      (jsonGetString (some value) = some text ↔ LeavesField filters key text) := by
  have left : jsonObjectGet filters key = none → LeavesField filters key text := by
    intro absent value member
    rw [absent] at member
    cases member
  rw [unifiedQuery]
  cases filters with
  | object fields =>
      obtain ⟨merged, equal, held⟩ := mergeFields_object jsonClone (fun _ => false) fields
        (askedEntries type library collection)
      rw [equal, jsonObjectGet, held key, if_neg Bool.false_ne_true]
      cases named : getEntry key fields with
      | none => exact ⟨.string text, asked, iff_of_true rfl (left named)⟩
      | some value =>
          refine ⟨jsonClone value, rfl, ?_⟩
          rw [jsonGetString_jsonClone, LeavesField, jsonObjectGet, named]
          simp
  | _ => exact ⟨.string text, asked, iff_of_true rfl (left rfl)⟩

variable {type library : Bytes} {collection : Option Bytes} {filters : JsonValue δ}

theorem matched_field {doc : JsonValue δ} {key text : Bytes}
    (matched : matchesQuery storageFieldMatches (unifiedQuery type library collection filters)
      doc = true)
    (asked : getEntry key (askedEntries type library collection : List (Bytes × JsonValue δ)) =
      some (.string text)) :
    jsonGetString (jsonObjectGet doc key) = some text ↔ LeavesField filters key text := by
  obtain ⟨value, held, leaves⟩ := unifiedQuery_field filters asked
  rw [storageFieldMatches_string (matchesQuery_field matched held), held, leaves]

theorem belongsTo_of_matches {doc : JsonValue δ}
    (matched : matchesQuery storageFieldMatches (unifiedQuery type library collection filters)
      doc = true) :
    BelongsTo type library doc ↔
      LeavesField filters (ascii "type") type ∧ LeavesField filters (ascii "library") library := by
  rw [BelongsTo, matched_field matched rfl, matched_field matched rfl]

theorem storageMatches_eq (query : JsonValue δ) (documents : List (Bytes × Bytes)) :
    storageMatches query documents =
      (documents.filterMap storedDocument).filter (matchesQuery storageFieldMatches query) := by
  rw [storageMatches, List.filter_filterMap]
  apply List.filterMap_congr
  intro entry _
  rw [storedDocument]
  cases parsed : (jsonParse entry.2 : Option (JsonValue δ)) with
  | none => rfl
  | some value =>
      cases value with
      | object fields =>
          have copied : jsonClone (.object fields : JsonValue δ) = .object fields :=
            jsonClone_eq_self_of_copyable (jsonParse_copyable parsed)
          simp only [copied, Option.filter_some]
      | _ => rfl

theorem foundDocuments_virtualQuery (db : Database δ) :
    foundDocuments (virtualQuery db type library collection filters) =
      (db.documents.entries.filterMap storedDocument).filter
        (matchesQuery storageFieldMatches (unifiedQuery type library collection filters)) :=
  storageMatches_eq (unifiedQuery type library collection filters) db.documents.entries

theorem isolates_of_leaves (leavesType : LeavesField filters (ascii "type") type)
    (leavesLibrary : LeavesField filters (ascii "library") library) :
    IsolatesQuery type library collection filters := by
  have belongs : ∀ doc : JsonValue δ,
      matchesQuery storageFieldMatches (unifiedQuery type library collection filters) doc = true →
        BelongsTo type library doc :=
    fun doc matched => (belongsTo_of_matches matched).mpr ⟨leavesType, leavesLibrary⟩
  refine ⟨fun db doc member => ?_, fun first second same => ?_⟩
  · rw [foundDocuments_virtualQuery] at member
    exact belongs doc (List.mem_filter.mp member).2
  · have narrowed : ∀ db : Database δ,
        storageMatches (unifiedQuery type library collection filters) db.documents.entries =
          (documentsOf db type library).filter
            (matchesQuery storageFieldMatches
              (unifiedQuery type library collection filters)) := by
      intro db
      rw [storageMatches_eq, documentsOf, List.filter_filter]
      apply List.filter_congr
      intro doc _
      by_cases matched : matchesQuery storageFieldMatches
          (unifiedQuery type library collection filters) doc = true
      · simp [matched, belongs doc matched]
      · simp [matched]
    exact congrArg queryResult ((narrowed first).trans (same ▸ (narrowed second).symm))

theorem isolates_of_matchesNothing
    (nothing : MatchesNothing (unifiedQuery type library collection filters)) :
    IsolatesQuery type library collection filters := by
  have empty : ∀ db : Database δ,
      storageMatches (unifiedQuery type library collection filters) db.documents.entries = [] := by
    intro db
    rw [storageMatches_eq, List.filter_eq_nil_iff]
    intro doc member
    obtain ⟨entry, _, stored⟩ := List.mem_filterMap.mp member
    rw [storedDocument] at stored
    split at stored
    · rename_i fields parsed
      cases stored
      rw [nothing _ _ parsed]
      exact Bool.false_ne_true
    · cases stored
  refine ⟨fun db doc member => ?_, fun first second _ => ?_⟩
  · rw [foundDocuments_virtualQuery, ← storageMatches_eq, empty db] at member
    cases member
  · exact congrArg queryResult ((empty first).trans (empty second).symm)

/-- A query isolates just where the filters leave the type and the library as
they are asked for, or no document matches at all. -/
theorem isolatesQuery_iff (type library : Bytes) (collection : Option Bytes)
    (filters : JsonValue δ) :
    IsolatesQuery type library collection filters ↔
      LeavesField filters (ascii "type") type ∧
          LeavesField filters (ascii "library") library ∨
        MatchesNothing (unifiedQuery type library collection filters) := by
  constructor
  · intro isolates
    by_cases leaves : LeavesField filters (ascii "type") type ∧
        LeavesField filters (ascii "library") library
    · exact Or.inl leaves
    · refine Or.inr fun text fields parsed => ?_
      by_contra matched
      have matched := eq_true_of_ne_false matched
      -- a store that holds just this document
      let db : Database δ :=
        { documents := skiplistInsert .empty (ascii "doc") text
          queryCache := none
          docCache := none }
      have held : db.documents.entries.filterMap storedDocument =
          [(.object fields : JsonValue δ)] := by
        simp [db, skiplistInsert, DocumentList.empty, entryKeys, storedDocument, parsed]
      have found : (.object fields : JsonValue δ) ∈
          foundDocuments (virtualQuery db type library collection filters) := by
        rw [foundDocuments_virtualQuery, held]
        simp [matched]
      exact leaves ((belongsTo_of_matches matched).mp (isolates.own db _ found))
  · rintro (⟨leavesType, leavesLibrary⟩ | nothing)
    · exact isolates_of_leaves leavesType leavesLibrary
    · exact isolates_of_matchesNothing nothing

def secretDatabase : Database Rat :=
  { documents := skiplistInsert .empty (ascii "doc-1-1")
      (ascii "\x7b\"type\":\"secret\",\"library\":\"system\",\"collection\":\"users\"\x7d")
    queryCache := none
    docCache := none }

/-- A filter that names another type replaces the one that is asked for. -/
theorem not_isolatesQuery_otherType :
    ¬ IsolatesQuery (ascii "user") (ascii "system") (some (ascii "users"))
      (.object [(ascii "type", .string (ascii "secret"))] : JsonValue Rat) := by
  intro isolates
  have found : ¬ ∀ doc ∈ foundDocuments (virtualQuery secretDatabase (ascii "user")
      (ascii "system") (some (ascii "users"))
        (.object [(ascii "type", .string (ascii "secret"))])),
          BelongsTo (ascii "user") (ascii "system") doc := by
    decide +kernel
  exact found (isolates.own secretDatabase)

end Jdbx
