import Jdbx.Database.StoreRuns
import Jdbx.Library.HexText

/-!
# Inserting a batch of documents

`batch_operations.c`: the elements get an id and a uuid and are written as texts, and each text
is read back and inserted.  The insert stores the document under a uuid of its own.
-/

namespace Jdbx

open Library

/-- What an element takes from the outside: the 16 bytes of `rand`, whether its insert gets the
collection, and the moment of the insert. -/
structure BatchTurn where
  random : Bytes
  granted : Bool
  moment : Moment

/-- `batch_insert_result_t`, but for the time. -/
structure BatchInsertResult (δ : Type) where
  totalDocuments : Nat
  successfulInserts : Nat
  failedInserts : Nat
  errors : List (JsonValue δ)

section Model

def generateBatchDocId (random : Bytes) : Bytes :=
  let versioned := random.modify 6 fun byte => byte &&& 0x0F ||| 0x40
  let uuidBytes := versioned.modify 8 fun byte => byte &&& 0x3F ||| 0x80
  let group (start count : Nat) := toHex ((uuidBytes.drop start).take count)
  group 0 4 ++ ascii "-" ++ group 4 2 ++ ascii "-" ++ group 6 2 ++ ascii "-" ++ group 8 2 ++
    ascii "-" ++ group 10 6

variable {δ : Type}

/-- The id of an object, and the object as it is left. -/
def assignDocId (random : Bytes) (doc : JsonValue δ) : Bytes × JsonValue δ :=
  match jsonObjectGet doc (ascii "id") with
  | some (.string text) =>
      let docId := text.take 255
      match jsonObjectGet doc (ascii "uuid") with
      | some _ => (docId, doc)
      | none => (docId, jsonObjectSet doc (ascii "uuid") (.string docId))
  | _ =>
      let docId := generateBatchDocId random
      (docId, jsonObjectSet (jsonObjectSet doc (ascii "id") (.string docId)) (ascii "uuid")
        (.string docId))

def leftElement (element : BatchTurn × JsonValue δ) : JsonValue δ :=
  match element.2 with
  | .object _ => (assignDocId element.1.random element.2).2
  | other => other

variable [CDouble δ]

def prepareElement (element : BatchTurn × JsonValue δ) : Option (Bytes × Bytes) :=
  match element.2 with
  | .object _ =>
      some ((assignDocId element.1.random element.2).1, jsonStringify (leftElement element))
  | _ => none

omit [CDouble δ] in
def batchDocType (collectionName : Bytes) : Bytes :=
  if collectionName = ascii "users" then ascii "user"
  else if collectionName = ascii "roles" then ascii "role"
  else if collectionName = ascii "sessions" then ascii "session"
  else collectionName

omit [CDouble δ] in
def insertFailed (docId : Bytes) : JsonValue δ :=
  .object [(ascii "id", .string docId), (ascii "error", .string (ascii "insert_failed"))]

/-- The second phase for one element. -/
def insertPrepared (collectionName : Bytes) (state : BatchInsertResult δ × Database δ)
    (element : BatchTurn × JsonValue δ) : BatchInsertResult δ × Database δ :=
  match prepareElement element with
  | none => state
  | some (docId, jsonString) =>
      match jsonParse jsonString with
      | none => ({ state.1 with failedInserts := state.1.failedInserts + 1 }, state.2)
      | some parsedDoc =>
          if element.1.granted then
            ({ state.1 with successfulInserts := state.1.successfulInserts + 1 },
              (virtualInsert element.1.moment state.2 (batchDocType collectionName)
                (ascii "default") (some collectionName) parsedDoc (ascii "batch-system")).2)
          else
            ({ state.1 with
                failedInserts := state.1.failedInserts + 1
                errors := state.1.errors ++ [insertFailed docId] }, state.2)

/-- `db_batch_insert_documents` on an array: the result, the elements as they are left, and the
database. -/
def dbBatchInsertDocuments (db : Database δ) (collectionName : Bytes)
    (elements : List (BatchTurn × JsonValue δ)) :
    BatchInsertResult δ × List (JsonValue δ) × Database δ :=
  let result := {
    totalDocuments := elements.length
    successfulInserts := 0
    failedInserts := 0
    errors := [] }
  let inserted := elements.foldl (insertPrepared collectionName) (result, db)
  (inserted.1, elements.map leftElement, inserted.2)

def parsedElement (element : BatchTurn × JsonValue δ) : Option (JsonValue δ) :=
  (prepareElement element).bind fun prepared => jsonParse prepared.2

/-- The uuid and the text that the insert of an element stores, if it succeeds. -/
def insertedEntry (collectionName : Bytes) (element : BatchTurn × JsonValue δ) :
    Option (Bytes × Bytes) :=
  if element.1.granted then
    (parsedElement element).map fun parsedDoc =>
      (documentUuid element.1.moment,
        jsonStringify (storageInserted element.1.moment (virtualInserted
          (batchDocType collectionName) (ascii "default") (some collectionName) parsedDoc
          (ascii "batch-system"))))
  else none

/-- The report of a batch is right.  An element that is inserted is found under the uuid that it
is left with, and the errors name the elements that are not, in their order. -/
structure BatchRight (db : Database δ) (collectionName : Bytes)
    (elements : List (BatchTurn × JsonValue δ))
    (outcome : BatchInsertResult δ × List (JsonValue δ) × Database δ) : Prop where
  counts : outcome.1.successfulInserts + outcome.1.failedInserts = outcome.1.totalDocuments
  stored : outcome.2.2.documents.entries.length =
    db.documents.entries.length + outcome.1.successfulInserts
  retrievable : ∀ element ∈ elements, ∀ entry ∈ insertedEntry collectionName element,
    jsonObjectGet (leftElement element) (ascii "uuid") = some (.string entry.1) ∧
      skiplistSearch outcome.2.2.documents entry.1 = some entry.2
  named : outcome.1.errors.map (jsonObjectGet · (ascii "id")) =
    (elements.filter fun element => (insertedEntry collectionName element).isNone).map
      fun element => jsonObjectGet (leftElement element) (ascii "id")

/-- The id of the document is a string, and its uuid is this one, or it has none and takes this
one from the id. -/
def CarriesUuid (document : JsonValue δ) (uuid : Bytes) : Prop :=
  ∃ text, jsonObjectGet document (ascii "id") = some (.string text) ∧
    (jsonObjectGet document (ascii "uuid") = some (.string uuid) ∨
      (jsonObjectGet document (ascii "uuid") = none ∧ text.take 255 = uuid))

/-- Every element is an object whose text is read.  Where the insert is refused, the id is not
cut; where it is not, the element carries the uuid that the insert is going to make, and no
other document has it. -/
structure BatchMeets (db : Database δ) (elements : List (BatchTurn × JsonValue δ)) : Prop where
  readable : ∀ element ∈ elements, (parsedElement element).isSome
  uncut : ∀ element ∈ elements, element.1.granted = false →
    ∀ text, jsonObjectGet element.2 (ascii "id") = some (.string text) → text.length ≤ 255
  carried : ∀ element ∈ elements, element.1.granted = true →
    CarriesUuid element.2 (documentUuid element.1.moment)
  fresh : ∀ element ∈ elements, element.1.granted = true →
    skiplistSearch db.documents (documentUuid element.1.moment) = none
  distinct : ((elements.filter fun element => element.1.granted).map fun element =>
    documentUuid element.1.moment).Nodup

end Model

section Lists

variable {α β γ : Type}

/-- What is reported of some items agrees with what there is to say of all that fail just where
each of these is reported as such. -/
theorem map_filterMap_eq_map_filter_iff {report : α → Option β} {fails : α → Bool}
    {told : β → γ} {named : α → γ} (reports : ∀ item, (report item).isSome → fails item = true)
    (items : List α) :
    (items.filterMap report).map told = (items.filter fails).map named ↔
      ∀ item ∈ items, fails item = true → ∃ told', report item = some told' ∧
        told told' = named item := by
  have fewer (items : List α) : (items.filterMap report).length ≤ (items.filter fails).length := by
    rw [List.length_filterMap_eq_countP, ← List.countP_eq_length_filter]
    exact List.countP_mono_left fun item _ => reports item
  induction items with
  | nil => exact iff_of_true rfl nofun
  | cons item items ih =>
      rw [List.forall_mem_cons]
      refine Iff.trans ?_ (and_congr_right fun _ => ih)
      cases reported : report item with
      | some told' =>
          have failed : fails item = true := reports item (by rw [reported]; rfl)
          rw [List.filterMap_cons_some reported, List.filter_cons_of_pos failed, List.map_cons,
            List.map_cons, List.cons.injEq]
          simp [failed]
      | none =>
          rw [List.filterMap_cons_none reported]
          by_cases failed : fails item = true
          · rw [List.filter_cons_of_pos failed]
            refine iff_of_false (fun same => ?_) fun both => ?_
            · have lengths := congrArg List.length same
              rw [List.length_map, List.length_map, List.length_cons] at lengths
              exact Nat.not_succ_le_self _ (lengths ▸ fewer items)
            · obtain ⟨told', same, -⟩ := both.1 failed
              cases same
          · rw [List.filter_cons_of_neg failed]
            simp [failed]

def insertEntries (documents : DocumentList) (pairs : List (Bytes × Bytes)) : DocumentList :=
  pairs.foldl (fun held pair => skiplistInsert held pair.1 pair.2) documents

theorem insertEntries_spec (pairs : List (Bytes × Bytes)) (documents : DocumentList) :
    (insertEntries documents pairs).entries.length ≤ documents.entries.length + pairs.length ∧
      ((insertEntries documents pairs).entries.length =
          documents.entries.length + pairs.length ↔
        (pairs.map Prod.fst).Nodup ∧ ∀ pair ∈ pairs, skiplistSearch documents pair.1 = none) := by
  induction pairs generalizing documents with
  | nil => exact ⟨Nat.le_refl _, iff_of_true rfl ⟨List.nodup_nil, by simp⟩⟩
  | cons pair pairs ih =>
      obtain ⟨fewer, exactly⟩ := ih (skiplistInsert documents pair.1 pair.2)
      rw [insertEntries, List.foldl_cons, ← insertEntries, List.length_cons, List.map_cons,
        List.nodup_cons, List.forall_mem_cons]
      cases there : skiplistSearch documents pair.1 with
      | some held =>
          rw [skiplistInsert_of_stored there] at fewer ⊢
          exact ⟨by omega, iff_of_false (by omega) fun both => by cases both.2.1⟩
      | none =>
          have longer : (skiplistInsert documents pair.1 pair.2).entries.length =
              documents.entries.length + 1 := by
            rw [skiplistInsert, dif_neg (getEntry_eq_none_iff.mp there), List.length_append,
              List.length_singleton]
          have search (other : Bytes × Bytes) :
              skiplistSearch (skiplistInsert documents pair.1 pair.2) other.1 = none ↔
                other.1 ≠ pair.1 ∧ skiplistSearch documents other.1 = none := by
            by_cases same : other.1 = pair.1
            · rw [same, skiplistSearch_insert_self there]
              exact iff_of_false (Option.some_ne_none _) fun both => both.1 rfl
            · rw [skiplistSearch_insert_of_ne same]
              exact (and_iff_right same).symm
          rw [longer] at fewer exactly
          refine ⟨by omega, ?_⟩
          rw [← Nat.add_assoc, Nat.add_right_comm, exactly]
          simp only [search, List.mem_map, forall_and]
          constructor
          · rintro ⟨distinct, apart, absent⟩
            refine ⟨⟨?_, distinct⟩, trivial, absent⟩
            rintro ⟨other, member, same⟩
            exact apart other member same
          · rintro ⟨⟨apart, distinct⟩, -, absent⟩
            exact ⟨distinct, fun other member same => apart ⟨other, member, same⟩, absent⟩

theorem skiplistSearch_insertEntries {pairs : List (Bytes × Bytes)} {documents : DocumentList}
    {pair : Bytes × Bytes} (distinct : (pairs.map Prod.fst).Nodup) (member : pair ∈ pairs)
    (absent : skiplistSearch documents pair.1 = none) :
    skiplistSearch (insertEntries documents pairs) pair.1 = some pair.2 := by
  have keeps : ∀ (later : List (Bytes × Bytes)) (held : DocumentList),
      skiplistSearch held pair.1 = some pair.2 →
        skiplistSearch (insertEntries held later) pair.1 = some pair.2 := by
    intro later
    induction later with
    | nil => exact fun held there => there
    | cons other later ih =>
        exact fun held there => ih _ (skiplistSearch_insert_of_stored there)
  induction pairs generalizing documents with
  | nil => cases member
  | cons first pairs ih =>
      rw [List.map_cons, List.nodup_cons] at distinct
      rcases List.mem_cons.mp member with rfl | later
      · exact keeps pairs _ (skiplistSearch_insert_self absent pair.2)
      · have apart : pair.1 ≠ first.1 := fun same =>
          distinct.1 (same ▸ List.mem_map_of_mem later)
        exact ih distinct.2 later ((skiplistSearch_insert_of_ne apart).trans absent)

end Lists

/-! ## One element -/

section Elements

variable {δ : Type}

theorem generateBatchDocId_ne (random : Bytes) (moment : Moment) :
    generateBatchDocId random ≠ documentUuid moment := by
  -- The letter `o` of `doc-` is neither a digit nor a hyphen.
  intro same
  have inUuid : 111 ∈ documentUuid moment := by
    rw [documentUuid, List.append_assoc, List.append_assoc]
    exact List.mem_append_left _ (by decide)
  have notHex (bytes : Bytes) : 111 ∉ toHex bytes := fun member =>
    absurd (toHex_isxdigit bytes 111 member) (by decide)
  rw [← same] at inUuid
  simp only [generateBatchDocId, List.mem_append, notHex, false_or, or_false] at inUuid
  exact absurd inUuid (by decide)

theorem carriesUuid_iff (element : BatchTurn × JsonValue δ) (moment : Moment) :
    jsonObjectGet (leftElement element) (ascii "uuid") = some (.string (documentUuid moment)) ↔
      CarriesUuid element.2 (documentUuid moment) := by
  obtain ⟨turn, document⟩ := element
  cases document with
  | object entries =>
      change jsonObjectGet (assignDocId turn.random (.object entries)).2 (ascii "uuid") = _ ↔ _
      rw [assignDocId, CarriesUuid]
      split
      next text named =>
        simp only [named, Option.some.injEq, JsonValue.string.injEq, exists_eq_left']
        split
        next value held => simp [held]
        next absent =>
          rw [jsonObjectGet_set_self, absent]
          simp
      next unnamed =>
        simp only [jsonObjectSet, jsonObjectGet, getEntry_setEntry_self, Option.some.injEq,
          JsonValue.string.injEq]
        refine iff_of_false (generateBatchDocId_ne _ _) ?_
        rintro ⟨text, named, -⟩
        exact unnamed text named
  | _ =>
      refine iff_of_false (fun held => by cases held) ?_
      rintro ⟨text, named, -⟩
      cases named

theorem assignDocId_names (random : Bytes) (entries : List (Bytes × JsonValue δ)) :
    some (.string (assignDocId random (.object entries)).1) =
        jsonObjectGet (assignDocId random (.object entries)).2 (ascii "id") ↔
      ∀ text, jsonObjectGet (.object entries : JsonValue δ) (ascii "id") = some (.string text) →
        text.length ≤ 255 := by
  have apart : ascii "id" ≠ ascii "uuid" := by decide
  rw [assignDocId]
  split
  next text named =>
    have kept : some (.string (text.take 255)) =
        jsonObjectGet (.object entries : JsonValue δ) (ascii "id") ↔
          ∀ other, jsonObjectGet (.object entries : JsonValue δ) (ascii "id") =
            some (.string other) → other.length ≤ 255 := by
      simp [named, List.take_eq_self_iff]
    split
    next => exact kept
    next =>
      rw [jsonObjectGet_set_of_ne _ apart]
      exact kept
  next unnamed =>
    refine iff_of_true ?_ fun text named => (unnamed text named).elim
    rw [jsonObjectGet_set_of_ne _ apart, jsonObjectGet_set_self]

variable [CDouble δ] {element : BatchTurn × JsonValue δ}

def elementError (element : BatchTurn × JsonValue δ) : Option (JsonValue δ) :=
  if element.1.granted then none
  else
    (prepareElement element).bind fun prepared =>
      (jsonParse prepared.2 : Option (JsonValue δ)).map fun _ => insertFailed prepared.1

def failsPrepared (collectionName : Bytes) (element : BatchTurn × JsonValue δ) : Bool :=
  (prepareElement element).isSome && (insertedEntry collectionName element).isNone

theorem insertPrepared_eq (collectionName : Bytes) (state : BatchInsertResult δ × Database δ)
    (element : BatchTurn × JsonValue δ) :
    insertPrepared collectionName state element =
      ({ state.1 with
          successfulInserts := state.1.successfulInserts +
            (insertedEntry collectionName element).toList.length
          failedInserts := state.1.failedInserts +
            (failsPrepared collectionName element).toNat
          errors := state.1.errors ++ (elementError element).toList },
        { state.2 with
          documents := insertEntries state.2.documents
            (insertedEntry collectionName element).toList }) := by
  obtain ⟨turn, document⟩ := element
  rw [insertPrepared, failsPrepared, elementError, insertedEntry, parsedElement]
  cases prepareElement (turn, document) with
  | none => cases turn.granted <;> simp [insertEntries]
  | some prepared =>
      cases read : (jsonParse prepared.2 : Option (JsonValue δ)) with
      | none => cases turn.granted <;> simp [insertEntries, read]
      | some parsedDoc =>
          cases turn.granted with
          | false => simp [insertEntries, read]
          | true =>
              simp [read, insertEntries]
              rfl

theorem foldl_insertPrepared (collectionName : Bytes)
    (elements : List (BatchTurn × JsonValue δ)) (state : BatchInsertResult δ × Database δ) :
    elements.foldl (insertPrepared collectionName) state =
      ({ state.1 with
          successfulInserts := state.1.successfulInserts +
            (elements.filterMap (insertedEntry collectionName)).length
          failedInserts := state.1.failedInserts +
            elements.countP (failsPrepared collectionName)
          errors := state.1.errors ++ elements.filterMap elementError },
        { state.2 with
          documents := insertEntries state.2.documents
            (elements.filterMap (insertedEntry collectionName)) }) := by
  induction elements generalizing state with
  | nil => simp [insertEntries]
  | cons element elements ih =>
      rw [List.foldl_cons, ih, insertPrepared_eq]
      simp only [List.filterMap_eq_flatMap_toList, List.flatMap_cons, List.length_append,
        List.append_assoc, Nat.add_assoc, insertEntries, List.foldl_append, List.countP_cons]
      cases failsPrepared collectionName element <;> simp [Nat.add_comm]

theorem insertedEntry_isNone (collectionName : Bytes) (element : BatchTurn × JsonValue δ) :
    (insertedEntry collectionName element).isNone =
      !(element.1.granted && (parsedElement element).isSome) := by
  rw [insertedEntry]
  cases element.1.granted <;> cases parsedElement element <;> rfl

theorem reported_iff (collectionName : Bytes) (element : BatchTurn × JsonValue δ) :
    ((insertedEntry collectionName element).isNone = true → ∃ error,
        elementError element = some error ∧ jsonObjectGet error (ascii "id") =
          jsonObjectGet (leftElement element) (ascii "id")) ↔
      (parsedElement element).isSome = true ∧ (element.1.granted = false →
        ∀ text, jsonObjectGet element.2 (ascii "id") = some (.string text) →
          text.length ≤ 255) := by
  obtain ⟨turn, document⟩ := element
  rw [insertedEntry_isNone, elementError]
  cases turn.granted with
  | true => cases parsedElement (turn, document) <;> simp
  | false =>
      cases document with
      | object entries =>
          have prepared : prepareElement (turn, .object entries) =
              some ((assignDocId turn.random (.object entries)).1,
                jsonStringify (assignDocId turn.random (.object entries)).2) :=
            rfl
          have left : leftElement (turn, .object entries) =
              (assignDocId turn.random (.object entries)).2 :=
            rfl
          have told (docId : Bytes) : jsonObjectGet (insertFailed docId : JsonValue δ)
              (ascii "id") = some (.string docId) :=
            rfl
          rw [← assignDocId_names turn.random entries, parsedElement, prepared, left,
            Option.bind_some, Option.bind_some]
          cases (jsonParse (jsonStringify (assignDocId turn.random (.object entries)).2) :
              Option (JsonValue δ)) with
          | none => simp
          | some parsedDoc => simp [told]
      | _ => simp [parsedElement, prepareElement]

theorem prepareElement_of_parsed (readable : (parsedElement element).isSome = true) :
    (prepareElement element).isSome = true := by
  rw [parsedElement] at readable
  cases prepared : prepareElement element with
  | none => rw [prepared] at readable; exact readable
  | some _ => rfl

theorem map_insertedEntry (collectionName : Bytes) {elements : List (BatchTurn × JsonValue δ)}
    (readable : ∀ element ∈ elements, (parsedElement element).isSome = true) :
    (elements.filterMap (insertedEntry collectionName)).map Prod.fst =
      (elements.filter fun element => element.1.granted).map fun element =>
        documentUuid element.1.moment := by
  induction elements with
  | nil => rfl
  | cons element elements ih =>
      obtain ⟨first, rest⟩ := List.forall_mem_cons.mp readable
      obtain ⟨parsedDoc, read⟩ := Option.isSome_iff_exists.mp first
      rw [List.filterMap_cons, List.filter_cons, insertedEntry, read]
      cases element.1.granted with
      | false => exact ih rest
      | true => exact congrArg (List.cons _) (ih rest)

theorem mem_insertedEntry {collectionName : Bytes} {entry : Bytes × Bytes}
    (member : entry ∈ insertedEntry collectionName element) :
    element.1.granted = true ∧ entry.1 = documentUuid element.1.moment := by
  rw [insertedEntry] at member
  split_ifs at member with granted
  · obtain ⟨parsedDoc, -, rfl⟩ := Option.map_eq_some_iff.mp member
    exact ⟨granted, rfl⟩
  · cases member

end Elements

section Report

variable {δ : Type} [CDouble δ] (db : Database δ) (collectionName : Bytes)
  (elements : List (BatchTurn × JsonValue δ))

/-- What the batch stores is new exactly when each uuid that is made is. -/
theorem insertEntries_exactly
    (readable : ∀ element ∈ elements, (parsedElement element).isSome = true) :
    (insertEntries db.documents
        (elements.filterMap (insertedEntry collectionName))).entries.length =
          db.documents.entries.length +
            (elements.filterMap (insertedEntry collectionName)).length ↔
      ((elements.filter fun element => element.1.granted).map fun element =>
        documentUuid element.1.moment).Nodup ∧
        ∀ element ∈ elements, element.1.granted = true →
          skiplistSearch db.documents (documentUuid element.1.moment) = none := by
  rw [(insertEntries_spec _ _).2, map_insertedEntry collectionName readable]
  refine and_congr_right fun _ => ?_
  have keys : (∀ uuid ∈ (elements.filterMap (insertedEntry collectionName)).map Prod.fst,
      skiplistSearch db.documents uuid = none) ↔
        ∀ uuid ∈ (elements.filter fun element => element.1.granted).map fun element =>
          documentUuid element.1.moment, skiplistSearch db.documents uuid = none := by
    rw [map_insertedEntry collectionName readable]
  rw [List.forall_mem_map, List.forall_mem_map] at keys
  rw [keys]
  simp only [List.mem_filter, and_imp]

theorem named_iff :
    (elements.filterMap elementError).map (jsonObjectGet · (ascii "id")) =
        (elements.filter fun element => (insertedEntry collectionName element).isNone).map
          (fun element => jsonObjectGet (leftElement element) (ascii "id")) ↔
      ∀ element ∈ elements, (parsedElement element).isSome = true ∧
        (element.1.granted = false → ∀ text,
          jsonObjectGet element.2 (ascii "id") = some (.string text) → text.length ≤ 255) := by
  refine (map_filterMap_eq_map_filter_iff (fun element reported => ?_) elements).trans
    (forall₂_congr fun element _ => reported_iff collectionName element)
  rw [elementError] at reported
  rw [insertedEntry]
  split_ifs at reported ⊢
  · cases reported
  · rfl

theorem length_inserted_add_failed
    (readable : ∀ element ∈ elements, (parsedElement element).isSome = true) :
    (elements.filterMap (insertedEntry collectionName)).length +
      elements.countP (failsPrepared collectionName) = elements.length := by
  have fails : elements.countP (failsPrepared collectionName) =
      elements.countP fun element => !(insertedEntry collectionName element).isSome := by
    refine List.countP_congr fun element member => ?_
    rw [failsPrepared, prepareElement_of_parsed (readable element member), Bool.true_and,
      Option.not_isSome]
  rw [List.length_filterMap_eq_countP, fails,
    List.length_eq_countP_add_countP fun element => (insertedEntry collectionName element).isSome]
  refine congrArg _ (List.countP_congr fun element _ => ?_)
  simp

/-- The report of a batch is right exactly when its elements are read back, carry the uuid that
their insert makes, and can be named. -/
theorem batchRight_iff :
    BatchRight db collectionName elements (dbBatchInsertDocuments db collectionName elements) ↔
      BatchMeets db elements := by
  have outcome : dbBatchInsertDocuments db collectionName elements =
      ({ totalDocuments := elements.length
         successfulInserts := (elements.filterMap (insertedEntry collectionName)).length
         failedInserts := elements.countP (failsPrepared collectionName)
         errors := elements.filterMap elementError },
        elements.map leftElement,
        { db with
          documents := insertEntries db.documents
            (elements.filterMap (insertedEntry collectionName)) }) := by
    rw [dbBatchInsertDocuments, foldl_insertPrepared]
    simp only [Nat.zero_add, List.nil_append]
  rw [outcome]
  constructor
  · intro right
    have named := (named_iff collectionName elements).mp right.named
    have readable := fun element member => (named element member).1
    obtain ⟨distinct, fresh⟩ :=
      (insertEntries_exactly db collectionName elements readable).mp right.stored
    refine ⟨readable, fun element member => (named element member).2, ?_, fresh, distinct⟩
    intro element member granted
    obtain ⟨parsedDoc, read⟩ := Option.isSome_iff_exists.mp (readable element member)
    obtain ⟨entry, inserted⟩ : ∃ entry, insertedEntry collectionName element = some entry := by
      rw [insertedEntry, if_pos granted, read]
      exact ⟨_, rfl⟩
    have left := (right.retrievable element member entry inserted).1
    rw [(mem_insertedEntry inserted).2] at left
    exact (carriesUuid_iff element _).mp left
  · intro meets
    have exactly := insertEntries_exactly db collectionName elements meets.readable
    refine ⟨length_inserted_add_failed collectionName elements meets.readable,
      exactly.mpr ⟨meets.distinct, meets.fresh⟩, ?_,
      (named_iff collectionName elements).mpr fun element member =>
        ⟨meets.readable element member, meets.uncut element member⟩⟩
    intro element member entry inserted
    obtain ⟨granted, uuid⟩ := mem_insertedEntry inserted
    rw [uuid]
    refine ⟨(carriesUuid_iff element _).mpr (meets.carried element member granted), ?_⟩
    rw [← uuid]
    apply skiplistSearch_insertEntries
    · rw [map_insertedEntry collectionName meets.readable]
      exact meets.distinct
    · exact List.mem_filterMap.mpr ⟨element, member, inserted⟩
    · rw [uuid]
      exact meets.fresh element member granted

end Report

def ownIdBatch : List (BatchTurn × JsonValue Rat) :=
  [(⟨[], true, ⟨1700000000, 7⟩⟩, .object [(ascii "id", .string (ascii "a"))])]

/-- The document is inserted, but not under the uuid that the element is left with. -/
theorem not_batchRight_ownId :
    ¬BatchRight ⟨.empty, none, none⟩ (ascii "notes") ownIdBatch
      (dbBatchInsertDocuments ⟨.empty, none, none⟩ (ascii "notes") ownIdBatch) := by
  intro right
  have inserts : (insertedEntry (ascii "notes") (ownIdBatch.head nofun)).isSome = true := by
    decide +kernel
  obtain ⟨entry, inserted⟩ := Option.isSome_iff_exists.mp inserts
  have left := (right.retrievable _ List.mem_cons_self entry inserted).1
  rw [(mem_insertedEntry inserted).2] at left
  exact absurd (JsonValue.string.inj (Option.some.inj left)) (by decide +kernel)

end Jdbx
