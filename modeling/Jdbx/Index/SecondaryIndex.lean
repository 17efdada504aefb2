import Jdbx.Library.GuardedRun
import Jdbx.Storage.BTreeNode
import Jdbx.Utils.Json

/-!
# Secondary indexes

A secondary index maps the text of a field's value and the id of a document to
the id.  The B-tree is an ordered map of byte strings that takes no key of more
than `JDBX_MAX_KEY_SIZE` bytes.  The hash index, which the same functions write
first, always takes its key and is left out, and so are pairs without an index
or a field.
-/

namespace Jdbx

open Library Std

/-- `jdbx_btree_t`. -/
abbrev IndexTree := TreeMap Bytes Bytes defaultCompare

/-- `create_index_key` into a buffer of 1024 bytes.  Where the id alone does not
fit, the length wraps around and the copy leaves the buffer. -/
def createIndexKey (fieldValue docId : Bytes) : Option Bytes :=
  if 1024 < fieldValue.length + docId.length + 2 then
    if 1024 < docId.length + 2 then none
    else some (fieldValue.take (1024 - docId.length - 2) ++ 0 :: (docId ++ [0]))
  else some (fieldValue ++ 0 :: (docId ++ [0]))

/-- `jdbx_secondary_index_insert`.  The length of the key is that of the whole
value, also where the value is cut. -/
def secondaryIndexInsert (idx : IndexTree) (fieldValue docId : Bytes) :
    Option (Int × IndexTree) :=
  (createIndexKey fieldValue docId).map fun idxKey =>
    if maxKeySize < fieldValue.length + docId.length + 2 then (-1, idx)
    else (0, idx.insert idxKey (docId ++ [0]))

def secondaryIndexDelete (idx : IndexTree) (fieldValue docId : Bytes) :
    Option (Int × IndexTree) :=
  (createIndexKey fieldValue docId).map fun idxKey =>
    if maxKeySize < fieldValue.length + docId.length + 2 then (-1, idx)
    else if idxKey ∈ idx then (0, idx.erase idxKey)
    else (-1, idx)

/-- `memcmp` of a key with the whole of a value, `none` where the key ends
before it differs. -/
def memcmpKey : Bytes → Bytes → Option Ordering
  | _, [] => some .eq
  | [], _ :: _ => none
  | a :: key, b :: fieldValue => if a = b then memcmpKey key fieldValue else some (compare a b)

/-- The loop of `jdbx_secondary_index_find`. -/
def findLoop (fieldValue : Bytes) : List (Bytes × Bytes) → Option (List Bytes)
  | [] => some []
  | (key, value) :: rest =>
    match memcmpKey key fieldValue with
    | none => none
    | some order =>
      if order = .eq ∧ key[fieldValue.length]? = some 0 then
        (findLoop fieldValue rest).map fun results => cString value :: results
      else if order = .gt then some []
      else findLoop fieldValue rest

/-- `jdbx_secondary_index_find`, as the strings of the array it returns. -/
def secondaryIndexFind (idx : IndexTree) (fieldValue : Bytes) : Option (List Bytes) :=
  findLoop fieldValue idx.toList

/-! ## Lookups -/

/-- Entries as the insertion writes them: a text, a `NUL`, and the id with its
`NUL`, which is the value as well. -/
def Composite (entry : Bytes × Bytes) : Prop :=
  ∃ text id, NulFree text ∧ NulFree id ∧ entry.2 = id ++ [0] ∧ entry.1 = text ++ 0 :: entry.2

theorem cString_append_nul {id : Bytes} (free : NulFree id) : cString (id ++ [0]) = id := by
  rw [cString, List.takeWhile_append_of_pos]
  · simp
  · intro byte member
    have different : byte ≠ 0 := by
      rintro rfl
      exact free member
    simpa using different

theorem append_nul_inj :
    ∀ {left right restLeft restRight : Bytes}, NulFree left → NulFree right →
      left ++ 0 :: restLeft = right ++ 0 :: restRight → left = right ∧ restLeft = restRight
  | [], [], _, _, _, _, same => ⟨rfl, (List.cons.inj same).2⟩
  | [], byte :: _, _, _, _, rightFree, same => by
    obtain rfl : 0 = byte := (List.cons.inj same).1
    exact absurd List.mem_cons_self rightFree
  | byte :: _, [], _, _, leftFree, _, same => by
    obtain rfl : byte = 0 := (List.cons.inj same).1
    exact absurd List.mem_cons_self leftFree
  | byte :: left, _ :: right, _, _, leftFree, rightFree, same => by
    obtain ⟨rfl, tails⟩ := List.cons.inj same
    have both := append_nul_inj (fun member => leftFree (List.mem_cons_of_mem byte member))
      (fun member => rightFree (List.mem_cons_of_mem byte member)) tails
    exact ⟨congrArg (byte :: ·) both.1, both.2⟩

theorem memcmpKey_isSome (rest : Bytes) :
    ∀ (text : Bytes) {fieldValue : Bytes}, NulFree fieldValue →
      ∃ order, memcmpKey (text ++ 0 :: rest) fieldValue = some order
  | text, [], _ => ⟨.eq, by cases text <;> rfl⟩
  | [], byte :: fieldValue, free => by
    have different : ¬ 0 = byte := by
      rintro rfl
      exact free List.mem_cons_self
    exact ⟨compare 0 byte, by simp [memcmpKey, different]⟩
  | first :: text, byte :: fieldValue, free => by
    rw [List.cons_append, memcmpKey]
    split_ifs
    · exact memcmpKey_isSome rest text fun member => free (List.mem_cons_of_mem byte member)
    · exact ⟨_, rfl⟩

theorem memcmpKey_append (rest : Bytes) :
    ∀ fieldValue : Bytes, memcmpKey (fieldValue ++ rest) fieldValue = some .eq
  | [] => by cases rest <;> rfl
  | byte :: fieldValue => by
    rw [List.cons_append, memcmpKey, if_pos rfl, memcmpKey_append rest fieldValue]

theorem prefix_of_memcmpKey :
    ∀ {key fieldValue : Bytes}, memcmpKey key fieldValue = some .eq →
      ∃ rest, key = fieldValue ++ rest
  | key, [], _ => ⟨key, rfl⟩
  | [], _ :: _, same => by
    cases same
  | first :: key, byte :: fieldValue, same => by
    rw [memcmpKey] at same
    split_ifs at same with equal
    · obtain ⟨rest, rfl⟩ := prefix_of_memcmpKey same
      exact ⟨rest, by rw [equal, List.cons_append]⟩
    · have equal' : first = byte := compare_eq_iff_eq.mp (Option.some.inj same)
      exact absurd equal' equal

theorem compare_of_memcmpKey_gt (rest : Bytes) :
    ∀ {key fieldValue : Bytes}, memcmpKey key fieldValue = some .gt →
      defaultCompare key (fieldValue ++ rest) = .gt
  | key, [], greater => by
    cases key <;> cases greater
  | [], _ :: _, greater => by
    cases greater
  | first :: key, byte :: fieldValue, greater => by
    rw [memcmpKey] at greater
    rw [defaultCompare_eq, List.cons_append, List.compareLex_cons_cons]
    split_ifs at greater with equal
    · have tails := compare_of_memcmpKey_gt rest greater
      have same : compare byte byte = .eq := compare_eq_iff_eq.mpr rfl
      rw [defaultCompare_eq] at tails
      rw [equal, same, tails]
      rfl
    · rw [Option.some.inj greater]
      rfl

theorem matches_iff {key value fieldValue : Bytes} (composite : Composite (key, value))
    (free : NulFree fieldValue) :
    memcmpKey key fieldValue = some .eq ∧ key[fieldValue.length]? = some 0 ↔
      key = fieldValue ++ 0 :: value := by
  obtain ⟨text, id, textFree, _, _, made⟩ := composite
  have made : key = text ++ 0 :: value := made
  constructor
  · rintro ⟨starts, terminated⟩
    obtain ⟨rest, split⟩ := prefix_of_memcmpKey starts
    rw [split] at terminated
    cases rest with
    | nil => simp at terminated
    | cons byte rest =>
      have nul : byte = 0 := by simpa using terminated
      subst byte
      have same := append_nul_inj textFree free (made.symm.trans split)
      rw [made, same.1]
  · intro same
    rw [same]
    exact ⟨memcmpKey_append _ fieldValue, by simp⟩

theorem findLoop_eq {fieldValue : Bytes} (free : NulFree fieldValue) :
    ∀ {entries : List (Bytes × Bytes)}, (∀ entry ∈ entries, Composite entry) →
      entries.Pairwise (fun a b => defaultCompare a.1 b.1 = .lt) →
        findLoop fieldValue entries =
          some ((entries.filter fun entry => entry.1 = fieldValue ++ 0 :: entry.2).map
            fun entry => cString entry.2)
  | [], _, _ => rfl
  | (key, value) :: rest, composite, sorted => by
    have first : Composite (key, value) := composite _ List.mem_cons_self
    have others := findLoop_eq free
      (fun entry member => composite entry (List.mem_cons_of_mem _ member)) sorted.of_cons
    have compared : ∃ order, memcmpKey key fieldValue = some order := by
      obtain ⟨text, _, _, _, _, made⟩ := first
      have made : key = text ++ 0 :: value := made
      exact made ▸ memcmpKey_isSome value text free
    obtain ⟨order, compared⟩ := compared
    have matchesIff := matches_iff first free
    rw [compared, Option.some_inj] at matchesIff
    simp only [findLoop, compared]
    by_cases found : order = .eq ∧ key[fieldValue.length]? = some 0
    · have same := matchesIff.mp found
      rw [if_pos found, others, List.filter_cons_of_pos (by simpa using same)]
      rfl
    · have different : ¬ key = fieldValue ++ 0 :: value := fun same =>
        found (matchesIff.mpr same)
      rw [if_neg found, List.filter_cons_of_neg (by simpa using different)]
      by_cases greater : order = .gt
      · have noneLeft : rest.filter (fun entry => entry.1 = fieldValue ++ 0 :: entry.2) = [] := by
          apply List.filter_eq_nil_iff.mpr
          intro entry member
          have later : defaultCompare key entry.1 = .lt :=
            (List.pairwise_cons.mp sorted).1 entry member
          intro starts
          rw [of_decide_eq_true starts,
            compare_of_memcmpKey_gt _ (greater ▸ compared)] at later
          cases later
        rw [if_pos greater, noneLeft]
        rfl
      · rw [if_neg greater, others]

theorem secondaryIndexFind_spec {idx : IndexTree} {fieldValue : Bytes}
    (composite : ∀ key value, idx[key]? = some value → Composite (key, value))
    (free : NulFree fieldValue) :
    ∃ results, secondaryIndexFind idx fieldValue = some results ∧ results.Nodup ∧
      ∀ id, id ∈ results ↔
        NulFree id ∧ idx[fieldValue ++ 0 :: (id ++ [0])]? = some (id ++ [0]) := by
  have entries : ∀ entry ∈ idx.toList, Composite entry := fun entry member =>
    composite entry.1 entry.2 (TreeMap.mem_toList_iff_getElem?_eq_some.mp member)
  refine ⟨_, findLoop_eq free entries TreeMap.ordered_keys_toList, ?_, ?_⟩
  · have distinct : (idx.toList.filter fun entry =>
        entry.1 = fieldValue ++ 0 :: entry.2).Pairwise fun a b => ¬ defaultCompare a.1 b.1 = .eq :=
      TreeMap.distinct_keys_toList.filter _
    apply List.pairwise_map.mpr
    refine List.Pairwise.imp_of_mem ?_ distinct
    intro a b memberA memberB differ same
    obtain ⟨inA, keyA⟩ := List.mem_filter.mp memberA
    obtain ⟨inB, keyB⟩ := List.mem_filter.mp memberB
    obtain ⟨_, idA, _, freeA, valueA, _⟩ := entries a inA
    obtain ⟨_, idB, _, freeB, valueB, _⟩ := entries b inB
    have values : a.2 = b.2 := by
      rw [valueA, valueB, cString_append_nul freeA, cString_append_nul freeB] at same
      rw [valueA, valueB, same]
    apply differ
    rw [of_decide_eq_true keyA, of_decide_eq_true keyB, values]
    exact LawfulEqCmp.compare_eq_iff_eq.mpr rfl
  · intro id
    constructor
    · intro member
      obtain ⟨entry, filtered, rfl⟩ := List.mem_map.mp member
      obtain ⟨held, key⟩ := List.mem_filter.mp filtered
      obtain ⟨_, id, _, idFree, value, _⟩ := entries entry held
      have key := of_decide_eq_true key
      rw [value, cString_append_nul idFree, ← value, ← key]
      exact ⟨idFree, TreeMap.mem_toList_iff_getElem?_eq_some.mp held⟩
    · rintro ⟨idFree, found⟩
      have held := TreeMap.mem_toList_iff_getElem?_eq_some.mpr found
      refine List.mem_map.mpr ⟨_, List.mem_filter.mpr ⟨held, ?_⟩, cString_append_nul idFree⟩
      exact decide_eq_true rfl

section Maintenance

variable {δ : Type} (format6 : δ → Bytes)

/-- The text of a field value; `format6` is `"%.6f"`, which is cut to 32 bytes. -/
def fieldString : JsonValue δ → Option Bytes
  | .string text => some (cString text)
  | .number number => some (cString ((format6 number).take 31))
  | .boolean boolean => some (if boolean then ascii "true" else ascii "false")
  | _ => none

def fieldText (document : JsonValue δ) (field : Bytes) : Option Bytes :=
  (jsonObjectGet document field).bind (fieldString format6)

/-- The body of the loop of `jdbx_update_document_indexes`. -/
def updateIndex (docId : Bytes) (document : JsonValue δ) (field : Bytes) (idx : IndexTree) :
    Option IndexTree :=
  match fieldText format6 document field with
  | none => some idx
  | some fieldStr => (secondaryIndexInsert idx fieldStr docId).map Prod.snd

/-- The body of the loop of `jdbx_remove_document_indexes`. -/
def removeIndex (docId : Bytes) (document : JsonValue δ) (field : Bytes) (idx : IndexTree) :
    Option IndexTree :=
  match fieldText format6 document field with
  | none => some idx
  | some fieldStr => (secondaryIndexDelete idx fieldStr docId).map Prod.snd

abbrev Indexes := List (Bytes × IndexTree)

def eachIndex (change : Bytes → IndexTree → Option IndexTree) : Indexes → Option Indexes
  | [] => some []
  | (field, idx) :: rest =>
    (change field idx).bind fun idx =>
      (eachIndex change rest).map fun rest => (field, idx) :: rest

def updateDocumentIndexes (indexes : Indexes) (docId : Bytes) (document : JsonValue δ) :
    Option Indexes :=
  eachIndex (updateIndex format6 (cString docId) document) indexes

def removeDocumentIndexes (indexes : Indexes) (docId : Bytes) (document : JsonValue δ) :
    Option Indexes :=
  eachIndex (removeIndex format6 (cString docId) document) indexes

/-! ## Runs -/

/-- The indexes and the documents they are about, by id. -/
structure IndexedDocuments (δ : Type) where
  indexes : Indexes
  current : Bytes → Option (JsonValue δ)

def IndexedDocuments.start (fields : List Bytes) : IndexedDocuments δ where
  indexes := fields.map fun field => (field, ∅)
  current _ := none

inductive IndexCall (δ : Type) where
  | update (docId : Bytes) (document : JsonValue δ)
  | remove (docId : Bytes) (document : JsonValue δ)

def indexStep (documents : IndexedDocuments δ) : IndexCall δ → Option (IndexedDocuments δ)
  | .update docId document =>
    (updateDocumentIndexes format6 documents.indexes docId document).map fun indexes =>
      { indexes
        current := Function.update documents.current (cString docId) (some document) }
  | .remove docId document =>
    (removeDocumentIndexes format6 documents.indexes docId document).map fun indexes =>
      { indexes
        current := Function.update documents.current (cString docId) none }

def Indexed : JsonValue δ → Prop
  | .string text => NulFree text
  | .number _ => True
  | .boolean _ => True
  | _ => False

/-- A lookup of any value returns the ids of the documents that have it, each once. -/
def FindsDocuments [CDouble δ] (documents : IndexedDocuments δ) : Prop :=
  ∀ index ∈ documents.indexes, ∀ value fieldValue, Indexed value →
    fieldString format6 value = some fieldValue →
      ∃ results, secondaryIndexFind index.2 fieldValue = some results ∧ results.Nodup ∧
        ∀ id, id ∈ results ↔
          ∃ document ∈ documents.current id, ∃ held ∈ jsonObjectGet document index.1,
            Indexed held ∧ jsonEquals held value = true

def LeavesIndexed [CDouble δ] (documents : IndexedDocuments δ) (call : IndexCall δ) : Prop :=
  ∃ next, indexStep format6 documents call = some next ∧ FindsDocuments format6 next

/-- The text of a string that is the text of no boolean and of no number. -/
structure OnlyString (text : Bytes) : Prop where
  nulFree : NulFree text
  notBoolean : text ≠ ascii "true" ∧ text ≠ ascii "false"
  notNumber : ∀ number, fieldString format6 (.number number) ≠ some text

/-- What a call is given: the text of a value once indexed stays, an indexed
value is a string that nothing else is read as, and the key fits. -/
def KeepsTexts (documents : IndexedDocuments δ) : IndexCall δ → Prop
  | .update docId document =>
    ∀ index ∈ documents.indexes,
      (∀ before ∈ documents.current (cString docId), ∀ text ∈ fieldText format6 before index.1,
          fieldText format6 document index.1 = some text) ∧
        ∀ value ∈ jsonObjectGet document index.1, fieldString format6 value ≠ none →
          ∃ text, value = .string text ∧ OnlyString format6 text ∧
            text.length + (cString docId).length + 2 ≤ 1024
  | .remove docId document =>
    ∀ index ∈ documents.indexes,
      (∀ before ∈ documents.current (cString docId), ∀ text ∈ fieldText format6 before index.1,
          fieldText format6 document index.1 = some text) ∧
        (fieldText format6 document index.1 ≠ none → (cString docId).length + 2 ≤ 1024)

/-- The entries of an index are those of the current texts of its field. -/
structure Maintained (current : Bytes → Option (JsonValue δ)) (field : Bytes)
    (idx : IndexTree) : Prop where
  holds : ∀ key value, idx[key]? = some value ↔
    ∃ id text, (current id).bind (fieldText format6 · field) = some text ∧
      value = id ++ [0] ∧ key = text ++ 0 :: value
  nulFree : ∀ id, ∀ document ∈ current id, NulFree id
  strings : ∀ id, ∀ document ∈ current id, ∀ value ∈ jsonObjectGet document field,
    fieldString format6 value ≠ none → ∃ text, value = .string text ∧ OnlyString format6 text
  fits : ∀ id text, (current id).bind (fieldText format6 · field) = some text →
    text.length + id.length + 2 ≤ 1024

variable {format6} {current : Bytes → Option (JsonValue δ)} {field : Bytes} {idx : IndexTree}
  {document : JsonValue δ} {value : JsonValue δ} {fieldValue : Bytes}
  {documents : IndexedDocuments δ}

theorem string_of_fieldText {text : Bytes}
    (strings : ∀ value ∈ jsonObjectGet document field, fieldString format6 value ≠ none →
      ∃ text, value = .string text ∧ OnlyString format6 text)
    (indexed : fieldText format6 document field = some text) :
    jsonObjectGet document field = some (.string text) ∧ OnlyString format6 text := by
  obtain ⟨value, found, written⟩ := Option.bind_eq_some_iff.mp indexed
  have notNone : fieldString format6 value ≠ none := by simp [written]
  obtain ⟨held, rfl, only⟩ := strings value found notNone
  have same : held = text := by
    simpa only [fieldString, cString_eq_self only.nulFree, Option.some_inj] using written
  subst held
  exact ⟨found, only⟩

theorem Maintained.composite (maintained : Maintained format6 current field idx) {key value : Bytes}
    (found : idx[key]? = some value) : Composite (key, value) := by
  obtain ⟨id, text, indexed, rfl, rfl⟩ := (maintained.holds key value).mp found
  obtain ⟨document, isCurrent, indexed⟩ := Option.bind_eq_some_iff.mp indexed
  have only := (string_of_fieldText (maintained.strings id document isCurrent) indexed).2
  exact ⟨text, id, only.nulFree, maintained.nulFree id document isCurrent, rfl, rfl⟩

theorem Maintained.found_iff (maintained : Maintained format6 current field idx)
    {fieldValue id : Bytes} (free : NulFree fieldValue) :
    idx[fieldValue ++ 0 :: (id ++ [0])]? = some (id ++ [0]) ↔
      (current id).bind (fieldText format6 · field) = some fieldValue := by
  rw [maintained.holds]
  constructor
  · rintro ⟨other, text, indexed, sameId, sameKey⟩
    obtain rfl : id = other := List.append_cancel_right sameId
    obtain ⟨document, isCurrent, indexed'⟩ := Option.bind_eq_some_iff.mp indexed
    have only := (string_of_fieldText (maintained.strings id document isCurrent) indexed').2
    rw [(append_nul_inj free only.nulFree sameKey).1]
    exact indexed
  · intro indexed
    exact ⟨id, fieldValue, indexed, rfl, rfl⟩

theorem nulFree_of_fieldString (written : fieldString format6 value = some fieldValue) :
    NulFree fieldValue := by
  cases value with
  | boolean boolean =>
    cases written
    cases boolean <;> decide
  | number number =>
    cases written
    exact nulFree_cString _
  | string text =>
    cases written
    exact nulFree_cString _
  | _ => cases written

theorem nulFree_of_fieldText {text : Bytes}
    (indexed : fieldText format6 document field = some text) : NulFree text := by
  obtain ⟨value, _, written⟩ := Option.bind_eq_some_iff.mp indexed
  exact nulFree_of_fieldString written

theorem OnlyString.fieldString_iff [CDouble δ] {text : Bytes} (only : OnlyString format6 text)
    (indexed : Indexed value) (written : fieldString format6 value = some fieldValue) :
    text = fieldValue ↔ jsonEquals (.string text) value = true := by
  cases value with
  | boolean boolean =>
    cases written
    have different : text ≠ if boolean then ascii "true" else ascii "false" := by
      cases boolean with
      | false => exact only.notBoolean.2
      | true => exact only.notBoolean.1
    simp [different, jsonEquals]
  | number number =>
    have different : text ≠ fieldValue := by
      rintro rfl
      exact only.notNumber number written
    simp [different, jsonEquals]
  | string other =>
    have same : other = fieldValue := by
      simpa only [fieldString, cString_eq_self indexed, Option.some_inj] using written
    simp [← same, jsonEquals]
  | _ => exact indexed.elim

theorem Maintained.finds [CDouble δ] (maintained : Maintained format6 current field idx)
    (indexed : Indexed value) (written : fieldString format6 value = some fieldValue) :
    ∃ results, secondaryIndexFind idx fieldValue = some results ∧ results.Nodup ∧
      ∀ id, id ∈ results ↔
        ∃ document ∈ current id, ∃ held ∈ jsonObjectGet document field,
          Indexed held ∧ jsonEquals held value = true := by
  have free := nulFree_of_fieldString written
  obtain ⟨results, found, nodup, members⟩ :=
    secondaryIndexFind_spec (fun _ _ found => maintained.composite found) free
  refine ⟨results, found, nodup, fun id => ?_⟩
  rw [members, maintained.found_iff free]
  constructor
  · rintro ⟨_, hasText⟩
    obtain ⟨document, isCurrent, hasText⟩ := Option.bind_eq_some_iff.mp hasText
    obtain ⟨held, only⟩ := string_of_fieldText (maintained.strings id document isCurrent) hasText
    exact ⟨document, isCurrent, .string fieldValue, held, only.nulFree,
      (only.fieldString_iff indexed written).mp rfl⟩
  · rintro ⟨document, isCurrent, held, isHeld, heldIndexed, same⟩
    refine ⟨maintained.nulFree id document isCurrent, ?_⟩
    have notNone : fieldString format6 held ≠ none := by
      cases held <;> first | exact heldIndexed.elim | simp [fieldString]
    obtain ⟨text, rfl, only⟩ := maintained.strings id document isCurrent held isHeld notNone
    have sameText := (only.fieldString_iff indexed written).mpr same
    rw [Option.mem_def.mp isCurrent, Option.bind_some, fieldText, Option.mem_def.mp isHeld,
      Option.bind_some, fieldString, cString_eq_self only.nulFree, sameText]

/-! ## Steps -/

theorem getElem?_insert_iff {idxKey key value held : Bytes} :
    (idx.insert idxKey value)[key]? = some held ↔
      (idxKey = key ∧ value = held) ∨ (idxKey ≠ key ∧ idx[key]? = some held) := by
  rw [TreeMap.getElem?_insert]
  by_cases same : idxKey = key
  · rw [if_pos (LawfulEqCmp.compare_eq_iff_eq.mpr same)]
    simp [same]
  · rw [if_neg fun equal => same (LawfulEqCmp.compare_eq_iff_eq.mp equal)]
    simp [same]

theorem getElem?_erase_iff {idxKey key held : Bytes} :
    (idx.erase idxKey)[key]? = some held ↔ idxKey ≠ key ∧ idx[key]? = some held := by
  rw [TreeMap.getElem?_erase]
  by_cases same : idxKey = key
  · rw [if_pos (LawfulEqCmp.compare_eq_iff_eq.mpr same)]
    simp [same]
  · rw [if_neg fun equal => same (LawfulEqCmp.compare_eq_iff_eq.mp equal)]
    simp [same]

/-- A change of one document's text of a field, whose entry follows it. -/
theorem Maintained.change (maintained : Maintained format6 current field idx) {id : Bytes}
    {after : Option (JsonValue δ)} {next : IndexTree} (free : ∀ document ∈ after, NulFree id)
    (strings : ∀ document ∈ after, ∀ value ∈ jsonObjectGet document field,
      fieldString format6 value ≠ none → ∃ text, value = .string text ∧ OnlyString format6 text)
    (fits : ∀ text, after.bind (fieldText format6 · field) = some text →
      text.length + id.length + 2 ≤ 1024)
    (holds : ∀ key value, next[key]? = some value ↔
      (idx[key]? = some value ∧
        ∀ text, (current id).bind (fieldText format6 · field) = some text →
          ¬ (value = id ++ [0] ∧ key = text ++ 0 :: value)) ∨
      ∃ text, after.bind (fieldText format6 · field) = some text ∧
        value = id ++ [0] ∧ key = text ++ 0 :: value) :
    Maintained format6 (Function.update current id after) field next where
  holds key value := by
    rw [holds, maintained.holds]
    constructor
    · rintro (⟨⟨other, text, indexed, made⟩, notOld⟩ | ⟨text, indexed, made⟩)
      · have different : other ≠ id := by
          rintro rfl
          exact notOld text indexed made
        exact ⟨other, text, by rw [Function.update_of_ne different]; exact indexed, made⟩
      · exact ⟨id, text, by rw [Function.update_self]; exact indexed, made⟩
    · rintro ⟨other, text, indexed, made⟩
      by_cases same : other = id
      · subst other
        rw [Function.update_self] at indexed
        exact Or.inr ⟨text, indexed, made⟩
      · rw [Function.update_of_ne same] at indexed
        refine Or.inl ⟨⟨other, text, indexed, made⟩, ?_⟩
        rintro _ _ ⟨sameValue, _⟩
        exact same (List.append_cancel_right (made.1.symm.trans sameValue))
  nulFree other document isCurrent := by
    by_cases same : other = id
    · subst other
      rw [Function.update_self] at isCurrent
      exact free document isCurrent
    · rw [Function.update_of_ne same] at isCurrent
      exact maintained.nulFree other document isCurrent
  strings other document isCurrent := by
    by_cases same : other = id
    · subst other
      rw [Function.update_self] at isCurrent
      exact strings document isCurrent
    · rw [Function.update_of_ne same] at isCurrent
      exact maintained.strings other document isCurrent
  fits other text indexed := by
    by_cases same : other = id
    · subst other
      rw [Function.update_self] at indexed
      exact fits text indexed
    · rw [Function.update_of_ne same] at indexed
      exact maintained.fits other text indexed

theorem Maintained.update (maintained : Maintained format6 current field idx) {id : Bytes}
    (free : NulFree id)
    (keeps : ∀ before ∈ current id, ∀ text ∈ fieldText format6 before field,
      fieldText format6 document field = some text)
    (strings : ∀ value ∈ jsonObjectGet document field, fieldString format6 value ≠ none →
      ∃ text, value = .string text ∧ OnlyString format6 text ∧ text.length + id.length + 2 ≤ 1024) :
    ∃ next, updateIndex format6 id document field idx = some next ∧
      Maintained format6 (Function.update current id (some document)) field next := by
  have keeps' : ∀ text, (current id).bind (fieldText format6 · field) = some text →
      fieldText format6 document field = some text := by
    intro text indexed
    obtain ⟨before, isCurrent, indexed⟩ := Option.bind_eq_some_iff.mp indexed
    exact keeps before isCurrent text indexed
  have strings' : ∀ value ∈ jsonObjectGet document field, fieldString format6 value ≠ none →
      ∃ text, value = .string text ∧ OnlyString format6 text := by
    intro value held written
    obtain ⟨text, isString, only, _⟩ := strings value held written
    exact ⟨text, isString, only⟩
  have onlyThis : ∀ other ∈ some document, other = document := fun _ same =>
    (Option.some.inj same).symm
  cases indexed : fieldText format6 document field with
  | none =>
    refine ⟨idx, by rw [updateIndex, indexed], maintained.change (fun _ _ => free) ?_ ?_ ?_⟩
    · rintro other same
      rw [onlyThis other same]
      exact strings'
    · intro text written
      rw [Option.bind_some, indexed] at written
      cases written
    · intro key value
      rw [Option.bind_some, indexed]
      simp only [reduceCtorEq, false_and, exists_false, or_false]
      refine (and_iff_left ?_).symm
      intro text before
      rw [keeps' text before] at indexed
      cases indexed
  | some text =>
    obtain ⟨held, only⟩ := string_of_fieldText strings' indexed
    obtain ⟨_, isString, _, fits⟩ := strings _ held (by simp [fieldString])
    obtain rfl := JsonValue.string.inj isString
    refine ⟨idx.insert (text ++ 0 :: (id ++ [0])) (id ++ [0]), ?_,
      maintained.change (fun _ _ => free) ?_ ?_ ?_⟩
    · have fits' : ¬ 1024 < text.length + id.length + 2 := Nat.not_lt.mpr fits
      simp [updateIndex, indexed, secondaryIndexInsert, createIndexKey, maxKeySize, fits']
    · rintro other same
      rw [onlyThis other same]
      exact strings'
    · intro other written
      rw [Option.bind_some, indexed] at written
      rw [← Option.some.inj written]
      exact fits
    · intro key value
      rw [getElem?_insert_iff, Option.bind_some, indexed]
      constructor
      · rintro (⟨rfl, rfl⟩ | ⟨different, found⟩)
        · exact Or.inr ⟨text, rfl, rfl, rfl⟩
        · refine Or.inl ⟨found, ?_⟩
          rintro old before ⟨rfl, rfl⟩
          obtain rfl := Option.some.inj (indexed.symm.trans (keeps' old before))
          exact different rfl
      · rintro (⟨found, _⟩ | ⟨other, same, rfl, rfl⟩)
        · by_cases sameKey : text ++ 0 :: (id ++ [0]) = key
          · obtain ⟨old, _, oldFree, _, _, made⟩ := maintained.composite found
            have tails := append_nul_inj only.nulFree oldFree (sameKey.trans made)
            exact Or.inl ⟨sameKey, tails.2⟩
          · exact Or.inr ⟨sameKey, found⟩
        · cases same
          exact Or.inl ⟨rfl, rfl⟩

theorem removeIndex_spec {id text : Bytes} (small : id.length + 2 ≤ 1024)
    (indexed : fieldText format6 document field = some text)
    (fits : ∀ value, idx[text ++ 0 :: (id ++ [0])]? = some value →
      text.length + id.length + 2 ≤ 1024) :
    ∃ next, removeIndex format6 id document field idx = some next ∧
      ∀ key value, next[key]? = some value ↔
        text ++ 0 :: (id ++ [0]) ≠ key ∧ idx[key]? = some value := by
  have small' : ¬ 1024 < id.length + 2 := Nat.not_lt.mpr small
  by_cases held : text ++ 0 :: (id ++ [0]) ∈ idx
  · obtain ⟨value, found⟩ := Option.isSome_iff_exists.mp (TreeMap.mem_iff_isSome_getElem?.mp held)
    have fits' : ¬ 1024 < text.length + id.length + 2 := Nat.not_lt.mpr (fits value found)
    refine ⟨idx.erase (text ++ 0 :: (id ++ [0])), ?_, fun key value => getElem?_erase_iff⟩
    simp [removeIndex, indexed, secondaryIndexDelete, createIndexKey, maxKeySize, fits', held]
  · refine ⟨idx, ?_, fun key value => (and_iff_right_of_imp ?_).symm⟩
    · by_cases long : 1024 < text.length + id.length + 2
      · simp [removeIndex, indexed, secondaryIndexDelete, createIndexKey, maxKeySize, long, small']
      · simp [removeIndex, indexed, secondaryIndexDelete, createIndexKey, maxKeySize, long, held]
    · rintro found rfl
      exact held (TreeMap.mem_iff_isSome_getElem?.mpr (found ▸ rfl))

theorem Maintained.remove (maintained : Maintained format6 current field idx) {id : Bytes}
    (keeps : ∀ before ∈ current id, ∀ text ∈ fieldText format6 before field,
      fieldText format6 document field = some text)
    (fits : fieldText format6 document field ≠ none → id.length + 2 ≤ 1024) :
    ∃ next, removeIndex format6 id document field idx = some next ∧
      Maintained format6 (Function.update current id none) field next := by
  have keeps' : ∀ text, (current id).bind (fieldText format6 · field) = some text →
      fieldText format6 document field = some text := by
    intro text indexed
    obtain ⟨before, isCurrent, indexed⟩ := Option.bind_eq_some_iff.mp indexed
    exact keeps before isCurrent text indexed
  cases indexed : fieldText format6 document field with
  | none =>
    refine ⟨idx, by rw [removeIndex, indexed],
      maintained.change (by simp) (by simp) (by simp) ?_⟩
    intro key value
    simp only [Option.bind_none, reduceCtorEq, false_and, exists_false, or_false]
    refine (and_iff_left ?_).symm
    intro text before
    rw [keeps' text before] at indexed
    cases indexed
  | some text =>
    have atKey : ∀ value, idx[text ++ 0 :: (id ++ [0])]? = some value →
        value = id ++ [0] ∧ (current id).bind (fieldText format6 · field) = some text := by
      intro value found
      obtain ⟨old, _, oldFree, _, _, made⟩ := maintained.composite found
      have same := append_nul_inj (nulFree_of_fieldText indexed) oldFree made
      have same' : value = id ++ [0] := same.2.symm
      subst same'
      exact ⟨rfl, (maintained.found_iff (nulFree_of_fieldText indexed)).mp found⟩
    obtain ⟨next, erased, left⟩ :=
      removeIndex_spec (fits (by simp [indexed])) indexed fun value found =>
        maintained.fits id text (atKey value found).2
    refine ⟨next, erased, maintained.change (by simp) (by simp) (by simp) ?_⟩
    intro key value
    rw [left]
    simp only [Option.bind_none, reduceCtorEq, false_and, exists_false, or_false]
    constructor
    · rintro ⟨different, found⟩
      refine ⟨found, ?_⟩
      rintro old before ⟨rfl, rfl⟩
      obtain rfl := Option.some.inj (indexed.symm.trans (keeps' old before))
      exact different rfl
    · rintro ⟨found, notOld⟩
      refine ⟨?_, found⟩
      rintro rfl
      obtain ⟨rfl, isOld⟩ := atKey value found
      exact notOld text isOld ⟨rfl, rfl⟩

theorem eachIndex_spec {change : Bytes → IndexTree → Option IndexTree}
    {property : Bytes → IndexTree → Prop} :
    ∀ {indexes : Indexes},
      (∀ index ∈ indexes, ∃ next, change index.1 index.2 = some next ∧ property index.1 next) →
        ∃ changed, eachIndex change indexes = some changed ∧
          ∀ index ∈ changed, property index.1 index.2
  | [], _ => ⟨[], rfl, by simp⟩
  | (field, idx) :: rest, changes => by
    obtain ⟨next, made, first⟩ := changes (field, idx) List.mem_cons_self
    obtain ⟨changed, madeRest, others⟩ :=
      eachIndex_spec fun index member => changes index (List.mem_cons_of_mem _ member)
    refine ⟨(field, next) :: changed, ?_, List.forall_mem_cons.mpr ⟨first, others⟩⟩
    rw [eachIndex, made, Option.bind_some, madeRest, Option.map_some]

def AllMaintained (format6 : δ → Bytes) (documents : IndexedDocuments δ) : Prop :=
  ∀ index ∈ documents.indexes, Maintained format6 documents.current index.1 index.2

theorem allMaintained_start (fields : List Bytes) :
    AllMaintained format6 (IndexedDocuments.start fields) := by
  intro index member
  obtain ⟨field, _, rfl⟩ := List.mem_map.mp member
  constructor
  · intro key value
    simp [IndexedDocuments.start]
  · intro id document isCurrent
    cases isCurrent
  · intro id document isCurrent
    cases isCurrent
  · intro id text indexed
    cases indexed

theorem AllMaintained.finds [CDouble δ] (maintained : AllMaintained format6 documents) :
    FindsDocuments format6 documents := by
  intro index member value fieldValue indexed written
  exact (maintained index member).finds indexed written

theorem AllMaintained.step (maintained : AllMaintained format6 documents) {call : IndexCall δ}
    (keeps : KeepsTexts format6 documents call) :
    ∃ next, indexStep format6 documents call = some next ∧ AllMaintained format6 next := by
  cases call with
  | update docId document =>
    obtain ⟨changed, updated, all⟩ := eachIndex_spec fun index member =>
      (maintained index member).update (nulFree_cString docId) (keeps index member).1
        (keeps index member).2
    let current := Function.update documents.current (cString docId) (some document)
    refine ⟨⟨changed, current⟩, ?_, all⟩
    rw [indexStep, updateDocumentIndexes, updated, Option.map_some]
  | remove docId document =>
    obtain ⟨changed, removed, all⟩ := eachIndex_spec fun index member =>
      (maintained index member).remove (keeps index member).1 (keeps index member).2
    let current := Function.update documents.current (cString docId) none
    refine ⟨⟨changed, current⟩, ?_, all⟩
    rw [indexStep, removeDocumentIndexes, removed, Option.map_some]

/-- Where every call keeps the texts, lookups are right all through the run. -/
theorem indexes_findDocuments [CDouble δ] (format6 : δ → Bytes) (fields : List Bytes)
    (calls : List (IndexCall δ))
    (keeps : EveryStep (indexStep format6) (KeepsTexts format6) (.start fields) calls) :
    EveryStep (indexStep format6) (LeavesIndexed format6) (.start fields) calls := by
  have kept : Keeps (indexStep format6) (KeepsTexts format6) (AllMaintained format6) := by
    intro documents call next maintained meets taken
    obtain ⟨reached, made, kept⟩ := maintained.step meets
    obtain rfl := Option.some.inj (made.symm.trans taken)
    exact kept
  refine EveryStep.of_keeps kept ?_ (allMaintained_start fields) keeps
  intro documents call maintained meets
  obtain ⟨reached, made, allKept⟩ := maintained.step meets
  exact ⟨reached, made, allKept.finds⟩

end Maintenance

/-- `"%.6f"` of an exact number, a tie going to the even digit. -/
def formatFixed (number : Rat) : Bytes :=
  let scaled := |number| * 1000000
  let low := scaled.floor.toNat
  let rest := scaled - low
  let rounded := if 1 / 2 < rest ∨ rest = 1 / 2 ∧ low % 2 = 1 then low + 1 else low
  let digits := decimal (rounded % 1000000)
  (if number < 0 then [45] else []) ++ decimal (rounded / 1000000) ++
    46 :: (List.replicate (6 - digits.length) 48 ++ digits)

theorem mem_formatFixed {number : Rat} {byte : UInt8} (member : byte ∈ formatFixed number) :
    byte = 45 ∨ byte = 46 ∨ isdigit byte = true := by
  simp only [formatFixed, List.mem_append, List.mem_cons, List.mem_replicate] at member
  rcases member with (sign | whole) | point | ⟨_, zero⟩ | digit
  · split_ifs at sign with negative
    · exact Or.inl (List.mem_singleton.mp sign)
    · cases sign
  · exact Or.inr (Or.inr (decimal_isdigit _ byte whole))
  · exact Or.inr (Or.inl point)
  · exact Or.inr (Or.inr (zero ▸ by decide))
  · exact Or.inr (Or.inr (decimal_isdigit _ byte digit))

theorem onlyString_of_letter {text : Bytes} {letter : UInt8} (free : NulFree text)
    (notBoolean : text ≠ ascii "true" ∧ text ≠ ascii "false") (member : letter ∈ text)
    (isLetter : letter ≠ 45 ∧ letter ≠ 46 ∧ isdigit letter = false) :
    OnlyString formatFixed text where
  nulFree := free
  notBoolean := notBoolean
  notNumber number same := by
    rw [← Option.some.inj same] at member
    rcases mem_formatFixed (List.mem_of_mem_take ((List.takeWhile_prefix _).mem member)) with
      minus | point | digit
    · exact isLetter.1 minus
    · exact isLetter.2.1 point
    · rw [isLetter.2.2] at digit
      cases digit

def colouredDocument (colour : String) : JsonValue Rat :=
  .object [(ascii "colour", .string (ascii colour))]

def colourCalls : List (IndexCall Rat) :=
  [.update (ascii "d") (colouredDocument "red"), .update (ascii "e") (colouredDocument "red"),
    .remove (ascii "d") (colouredDocument "red")]

def recolourCalls : List (IndexCall Rat) :=
  [.update (ascii "d") (colouredDocument "red"), .update (ascii "d") (colouredDocument "blue")]

theorem keepsTexts_coloured {documents : IndexedDocuments Rat} {docId : Bytes} {colour : String}
    (only : OnlyString formatFixed (ascii colour))
    (onColour : ∀ index ∈ documents.indexes, index.1 = ascii "colour")
    (fits : (ascii colour).length + (cString docId).length + 2 ≤ 1024)
    (isNew : documents.current (cString docId) = none) :
    KeepsTexts formatFixed documents (.update docId (colouredDocument colour)) := by
  intro index member
  rw [onColour index member, isNew]
  refine ⟨by simp, ?_⟩
  intro value held _
  cases held
  exact ⟨ascii colour, rfl, only, fits⟩

theorem indexes_findDocuments_colours :
    EveryStep (indexStep formatFixed) (LeavesIndexed formatFixed) (.start [ascii "colour"])
      colourCalls := by
  have red : OnlyString formatFixed (ascii "red") :=
    onlyString_of_letter (by decide) (by decide) (by decide : (114 : UInt8) ∈ ascii "red")
      (by decide)
  apply indexes_findDocuments
  refine ⟨keepsTexts_coloured red (by simp [IndexedDocuments.start]) (by decide) rfl, ?_⟩
  rintro first taken
  cases taken
  refine ⟨keepsTexts_coloured red (by simp) (by decide) rfl, ?_⟩
  rintro second taken
  cases taken
  refine ⟨?_, fun _ _ => trivial⟩
  intro index member
  obtain rfl := List.mem_singleton.mp member
  refine ⟨?_, fun _ => by decide⟩
  intro before current text held
  cases current
  exact held

/-- An update leaves the entry of the old value. -/
theorem not_findDocuments_recoloured :
    ¬ EveryStep (indexStep formatFixed) (LeavesIndexed formatFixed) (.start [ascii "colour"])
      recolourCalls := by
  intro every
  obtain ⟨next, taken, finds⟩ := (every.2 _ rfl).1
  cases taken
  obtain ⟨results, found, _, members⟩ :=
    finds _ List.mem_cons_self (.string (ascii "red")) (ascii "red")
      (by decide : NulFree (ascii "red")) rfl
  have stale : results = [ascii "d"] := Option.some.inj (found.symm.trans (by decide))
  obtain ⟨document, current, held, isHeld, _, same⟩ :=
    (members (ascii "d")).mp (by simp [stale])
  cases current
  cases isHeld
  revert same
  decide

end Jdbx
