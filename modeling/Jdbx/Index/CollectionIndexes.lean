import Jdbx.Database.UnifiedDocuments
import Jdbx.Library.Memory

/-!
# The indexes of the documents collection

`db_create_index` builds a skiplist from the texts of a field to the ids of the documents,
and puts it into the collection's own skiplist of indexes under its name.  An insertion
copies as many bytes as it is told from where its argument points to, so the object itself is
modelled with its bytes and addresses.  Strings stand without their terminators.
-/

namespace Jdbx

open Library

inductive IndexType where
  | unique
  | nonUnique
  | text
  | geo
deriving DecidableEq

/-- `art_t`: its root, and the bytes of the fields behind it. -/
structure Art where
  root : UInt64
  behindRoot : Bytes
  behindRoot_length : behindRoot.length = 56

def Art.bytes (art : Art) : Bytes :=
  littleEndian 8 art.root.toNat ++ art.behindRoot

/-- What the allocator gives to one index: where its `art_t` and its list of documents will
be, and what stands behind the root of a new `art_t`. -/
structure IndexMemory where
  address : UInt64
  listAddress : UInt64
  behindRoot : Bytes
  behindRoot_length : behindRoot.length = 56
  address_ne : address ≠ 0
  listAddress_ne : listAddress ≠ 0

/-- An `art_t` together with the list that its root points to. -/
structure IndexSkiplist where
  art : Art
  documents : DocumentList

/-- `skiplist_create`. -/
def createIndexSkiplist (memory : IndexMemory) : IndexSkiplist :=
  { art :=
      { root := 0
        behindRoot := memory.behindRoot
        behindRoot_length := memory.behindRoot_length }
    documents := .empty }

/-- `skiplist_insert`: the first leaf comes with the list. -/
def IndexSkiplist.insert (memory : IndexMemory) (index : IndexSkiplist) (key value : Bytes) :
    IndexSkiplist :=
  { art :=
      { index.art with root := if index.art.root = 0 then memory.listAddress else index.art.root }
    documents := skiplistInsert index.documents key value }

/-! ## Creating an index -/

/-- The parts of a `collection_t` that an index is about. -/
structure IndexedCollection where
  documents : DocumentList
  indexes : DocumentList

/-- The arguments of `db_create_index` past the path of the collection. -/
structure CreateIndexCall where
  name : Option Bytes
  fieldPath : Bytes
  type : IndexType

/-- `index_t`, as `db_create_index` fills it. -/
structure IndexMetadata where
  name : Bytes
  fieldPath : Bytes
  type : IndexType
deriving DecidableEq

/-- What is left by a call that returns an `index_t`. -/
structure CreatedIndex where
  metadata : IndexMetadata
  index : IndexSkiplist
  collection : IndexedCollection

/-- `"idx_%s_%s"` into 128 bytes. -/
def collectionIndexName (call : CreateIndexCall) : Bytes :=
  (ascii "idx_" ++ call.name.getD (ascii "auto") ++ ascii "_" ++ call.fieldPath).take 127

section Creating

variable (δ : Type) [CDouble δ]

def storedFieldText (docStr fieldPath : Bytes) : Option Bytes :=
  (jsonParse docStr).bind fun doc : JsonValue δ => (jsonObjectGet doc fieldPath).map jsonStringify

def indexDocument (memory : IndexMemory) (fieldPath : Bytes) (index : IndexSkiplist)
    (entry : Bytes × Bytes) : IndexSkiplist :=
  match storedFieldText δ entry.2 fieldPath with
  | some fieldStr => index.insert memory fieldStr entry.1
  | none => index

/-- `db_create_index`.  The index is stored before the documents are put into it, with
`sizeof(void*)` as the size of its value. -/
def dbCreateIndex (memory : IndexMemory) (collection : Option IndexedCollection)
    (call : CreateIndexCall) : Option CreatedIndex :=
  collection.map fun coll =>
    let indexSkiplist := createIndexSkiplist memory
    let indexes :=
      skiplistInsert coll.indexes (collectionIndexName call) (indexSkiplist.art.bytes.take 8)
    let index := coll.documents.entries.foldl (indexDocument δ memory call.fieldPath) indexSkiplist
    { metadata :=
        { name := call.name.getD call.fieldPath, fieldPath := call.fieldPath, type := call.type }
      index
      collection := { coll with indexes } }

/-- A collection after any changes of its documents and any calls of `db_create_index`. -/
inductive ReachedCollection : IndexedCollection → Prop where
  | create (documents : DocumentList) :
      ReachedCollection { documents, indexes := .empty }
  | store {coll : IndexedCollection} (documents : DocumentList) :
      ReachedCollection coll → ReachedCollection { coll with documents }
  | index {coll : IndexedCollection} {memory : IndexMemory} {call : CreateIndexCall}
      {created : CreatedIndex} :
      ReachedCollection coll → dbCreateIndex δ memory (some coll) call = some created →
        ReachedCollection created.collection

def HasFieldText (documents : DocumentList) (fieldPath fieldStr docId : Bytes) : Prop :=
  ∃ docStr, (docId, docStr) ∈ documents.entries ∧ storedFieldText δ docStr fieldPath = some fieldStr

def SharesField (documents : DocumentList) (fieldPath : Bytes) : Prop :=
  ∃ fieldStr first second, first ≠ second ∧ HasFieldText δ documents fieldPath fieldStr first ∧
    HasFieldText δ documents fieldPath fieldStr second

def IndexComplete (documents : DocumentList) (fieldPath : Bytes) (index : IndexSkiplist) : Prop :=
  ∀ fieldStr docId, HasFieldText δ documents fieldPath fieldStr docId →
    (fieldStr, docId) ∈ index.documents.entries

def IsIndex (memory : IndexMemory) (index : IndexSkiplist) (value : Bytes) : Prop :=
  value = littleEndian 8 memory.address.toNat ∨ value = index.art.bytes

def FoundAgain (memory : IndexMemory) (created : CreatedIndex) (name : Bytes) : Prop :=
  ∃ value, skiplistSearch created.collection.indexes name = some value ∧
    IsIndex memory created.index value

/-- An index that is created is complete and found again, and a unique one is refused just
where two documents share a value. -/
def CreatesIndex (memory : IndexMemory) (coll : IndexedCollection) (call : CreateIndexCall) :
    Prop :=
  (∀ created, dbCreateIndex δ memory (some coll) call = some created →
    IndexComplete δ coll.documents call.fieldPath created.index ∧
      ∃ name, FoundAgain memory created name) ∧
  (call.type = .unique →
    (dbCreateIndex δ memory (some coll) call = none ↔ SharesField δ coll.documents call.fieldPath))

end Creating

section Entries

variable {δ : Type} [CDouble δ] {memory : IndexMemory} {fieldPath : Bytes} {index : IndexSkiplist}

theorem indexDocument_of_search {fieldStr docId : Bytes} (entry : Bytes × Bytes)
    (found : skiplistSearch index.documents fieldStr = some docId) :
    skiplistSearch (indexDocument δ memory fieldPath index entry).documents fieldStr =
      some docId := by
  rw [indexDocument]
  split
  · exact skiplistSearch_insert_of_stored found
  · exact found

theorem indexDocuments_of_search (entries : List (Bytes × Bytes)) {fieldStr docId : Bytes}
    (found : skiplistSearch index.documents fieldStr = some docId) :
    skiplistSearch
        (entries.foldl (indexDocument δ memory fieldPath) index).documents fieldStr =
      some docId := by
  induction entries generalizing index with
  | nil => exact found
  | cons entry entries ih => exact ih (indexDocument_of_search entry found)

theorem search_indexDocuments {entries : List (Bytes × Bytes)} {fieldStr docId docStr : Bytes}
    (member : (docId, docStr) ∈ entries)
    (text : storedFieldText δ docStr fieldPath = some fieldStr)
    (only : ∀ entry ∈ entries,
      storedFieldText δ entry.2 fieldPath = some fieldStr → entry.1 = docId)
    (absent : skiplistSearch index.documents fieldStr = none) :
    skiplistSearch (entries.foldl (indexDocument δ memory fieldPath) index).documents fieldStr =
      some docId := by
  induction entries generalizing index with
  | nil => cases member
  | cons entry entries ih =>
      rw [List.foldl_cons]
      by_cases same : storedFieldText δ entry.2 fieldPath = some fieldStr
      · obtain rfl := only entry List.mem_cons_self same
        refine indexDocuments_of_search entries ?_
        rw [indexDocument, same]
        exact skiplistSearch_insert_self absent entry.1
      · have later : (docId, docStr) ∈ entries := by
          rcases List.mem_cons.mp member with rfl | later
          · exact absurd text same
          · exact later
        refine ih later
          (fun other held => only other (List.mem_cons_of_mem _ held)) ?_
        rw [indexDocument]
        cases held : storedFieldText δ entry.2 fieldPath with
        | none => exact absent
        | some other =>
            have different : fieldStr ≠ other := by
              rintro rfl
              exact same held
            exact (skiplistSearch_insert_of_ne different).trans absent

def createdIndex (δ : Type) [CDouble δ] (memory : IndexMemory) (coll : IndexedCollection)
    (fieldPath : Bytes) : IndexSkiplist :=
  coll.documents.entries.foldl (indexDocument δ memory fieldPath) (createIndexSkiplist memory)

theorem indexComplete_iff (coll : IndexedCollection) :
    IndexComplete δ coll.documents fieldPath (createdIndex δ memory coll fieldPath) ↔
      ¬ SharesField δ coll.documents fieldPath := by
  constructor
  · rintro complete ⟨fieldStr, first, second, different, hasFirst, hasSecond⟩
    have distinct := (createdIndex δ memory coll fieldPath).documents.distinct
    have atFirst := getEntry_eq_some_of_mem distinct (complete fieldStr first hasFirst)
    have atSecond := getEntry_eq_some_of_mem distinct (complete fieldStr second hasSecond)
    exact different (Option.some.inj (atFirst.symm.trans atSecond))
  · rintro alone fieldStr docId ⟨docStr, member, text⟩
    refine mem_of_getEntry_eq_some
      (search_indexDocuments member text (fun entry held same => ?_) ?_)
    · by_contra different
      exact alone ⟨fieldStr, entry.1, docId, different, ⟨entry.2, held, same⟩,
        ⟨docStr, member, text⟩⟩
    · rfl

end Entries

section Stored

variable {δ : Type} [CDouble δ] {memory : IndexMemory} {coll : IndexedCollection}
  {call : CreateIndexCall}

def NullRoots (indexes : DocumentList) : Prop :=
  ∀ entry ∈ indexes.entries, entry.2 = littleEndian 8 0

theorem NullRoots.insert {indexes : DocumentList} (null : NullRoots indexes) (name : Bytes) :
    NullRoots (skiplistInsert indexes name (littleEndian 8 0)) := by
  rw [skiplistInsert]
  split_ifs
  · exact null
  · intro entry member
    rcases List.mem_append.mp member with held | held
    · exact null entry held
    · rw [List.mem_singleton.mp held]

theorem createIndexSkiplist_bytes (memory : IndexMemory) :
    (createIndexSkiplist memory).art.bytes.take 8 = littleEndian 8 0 := by
  rw [Art.bytes, List.take_left' (length_littleEndian 8 _)]
  rfl

theorem dbCreateIndex_eq (memory : IndexMemory) (coll : IndexedCollection)
    (call : CreateIndexCall) :
    dbCreateIndex δ memory (some coll) call = some
      { metadata :=
          { name := call.name.getD call.fieldPath, fieldPath := call.fieldPath, type := call.type }
        index := createdIndex δ memory coll call.fieldPath
        collection :=
          { coll with
            indexes :=
              skiplistInsert coll.indexes (collectionIndexName call) (littleEndian 8 0) } } := by
  have stored := createIndexSkiplist_bytes memory
  simp only [dbCreateIndex, Option.map_some, stored]
  rfl

theorem ReachedCollection.nullRoots (reached : ReachedCollection δ coll) :
    NullRoots coll.indexes := by
  induction reached with
  | create documents =>
      intro entry member
      cases member
  | store documents reached ih => exact ih
  | @index coll memory call created reached result ih =>
      rw [dbCreateIndex_eq] at result
      cases result
      exact ih.insert (collectionIndexName call)

theorem not_isIndex_null (memory : IndexMemory) (index : IndexSkiplist) :
    ¬ IsIndex memory index (littleEndian 8 0) := by
  rintro (address | object)
  · have small : memory.address.toNat < 256 ^ 8 := memory.address.toNat_lt
    have same := congrArg ofLittleEndian address
    rw [ofLittleEndian_littleEndian_of_lt small] at same
    exact memory.address_ne (UInt64.toNat_inj.mp same.symm)
  · have length := congrArg List.length object
    rw [Art.bytes, List.length_append, length_littleEndian, length_littleEndian,
      index.art.behindRoot_length] at length
    omega

/-- A created index is complete just where no value is shared, it is never found again, and
the unique type refuses nothing, so no call does what it should. -/
theorem dbCreateIndex_never_createsIndex (memory : IndexMemory) (call : CreateIndexCall)
    (reached : ReachedCollection δ coll) :
    (∃ created, dbCreateIndex δ memory (some coll) call = some created ∧
      (IndexComplete δ coll.documents call.fieldPath created.index ↔
        ¬ SharesField δ coll.documents call.fieldPath) ∧
      ∀ name, ¬ FoundAgain memory created name) ∧
    ¬ CreatesIndex δ memory coll call := by
  have lost : ∀ created, dbCreateIndex δ memory (some coll) call = some created →
      ∀ name, ¬ FoundAgain memory created name := by
    rintro created result name ⟨value, found, isIndex⟩
    have null : value = littleEndian 8 0 :=
      (ReachedCollection.index reached result).nullRoots (name, value)
        (mem_of_getEntry_eq_some found)
    rw [null] at isIndex
    exact not_isIndex_null memory created.index isIndex
  have result : dbCreateIndex δ memory (some coll) call = _ := dbCreateIndex_eq memory coll call
  refine ⟨⟨_, result, indexComplete_iff coll, lost _ result⟩, fun creates => ?_⟩
  obtain ⟨-, name, found⟩ := creates.1 _ result
  exact lost _ result name found

end Stored

/-- The memory of one index. -/
def exampleMemory : IndexMemory :=
  { address := 64
    listAddress := 128
    behindRoot := List.replicate 56 0
    behindRoot_length := List.length_replicate
    address_ne := by decide
    listAddress_ne := by decide }

/-- Two users. -/
def twoUsers : IndexedCollection :=
  { documents :=
      { entries :=
          [(ascii "doc-1-1", ascii "\x7b\"type\":\"user\"\x7d"),
            (ascii "doc-1-2", ascii "\x7b\"type\":\"user\"\x7d")]
        distinct := by decide }
    indexes := .empty }

def typeIndexCall : CreateIndexCall :=
  { name := some (ascii "idx_type"), fieldPath := ascii "type", type := .unique }

theorem twoUsers_sharesField : SharesField Rat twoUsers.documents typeIndexCall.fieldPath := by
  refine ⟨ascii "\"user\"", ascii "doc-1-1", ascii "doc-1-2", by decide, ⟨_, .head _, ?_⟩,
    ⟨_, .tail _ (.head _), ?_⟩⟩ <;> decide +kernel

theorem dbCreateIndex_never_createsIndex_twoUsers :
    (∃ created, dbCreateIndex Rat exampleMemory (some twoUsers) typeIndexCall = some created ∧
      (IndexComplete Rat twoUsers.documents typeIndexCall.fieldPath created.index ↔
        ¬ SharesField Rat twoUsers.documents typeIndexCall.fieldPath) ∧
      ∀ name, ¬ FoundAgain exampleMemory created name) ∧
    ¬ CreatesIndex Rat exampleMemory twoUsers typeIndexCall :=
  dbCreateIndex_never_createsIndex exampleMemory typeIndexCall (.create twoUsers.documents)

/-- The unique index on the types of two users is created. -/
theorem not_createsIndex_twoUsers :
    ¬ ∀ (memory : IndexMemory) (coll : IndexedCollection) (call : CreateIndexCall),
      ReachedCollection Rat coll → CreatesIndex Rat memory coll call := by
  intro claim
  have creates := claim exampleMemory twoUsers typeIndexCall (.create twoUsers.documents)
  have refused := (creates.2 rfl).mpr twoUsers_sharesField
  cases refused.symm.trans (dbCreateIndex_eq exampleMemory twoUsers typeIndexCall)

end Jdbx
