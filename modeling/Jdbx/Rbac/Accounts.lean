import Jdbx.Database.StoredIdentity
import Jdbx.Rbac.RbacDb

/-!
# Stores of accounts

Every stored and every cached document is an account under its uuid: it has the fields of
its type, the list of the accounts of the other type, and none of the fields that only
the other type has.
-/

namespace Jdbx

open Library

variable {δ : Type}

/-! ## Accounts -/

def AccountType.foreign : AccountType → List Bytes
  | .user => [ascii "permissions", ascii "users"]
  | .role => [ascii "roles"]

def idArray (ids : List Bytes) : JsonValue δ :=
  .array (ids.map .string)

structure IsAccount (type : AccountType) (uuid : Bytes) (ids : List Bytes)
    (doc : JsonValue δ) : Prop where
  isObject : IsJsonObject doc
  named : jsonObjectGet doc (ascii "uuid") = some (.string uuid)
  typed : jsonObjectGet doc (ascii "type") = some (.string type.name)
  placed : jsonObjectGet doc (ascii "library") = some (.string (ascii "system"))
  collected : jsonObjectGet doc (ascii "collection") = some (.string type.collection)
  lists : jsonObjectGet doc type.list = some (idArray ids)
  lacks : ∀ key ∈ type.foreign, jsonObjectGet doc key = none

def AccountLaw (uuid : Bytes) (doc : JsonValue δ) : Prop :=
  Plain uuid ∧ ∃ type ids, (∀ id ∈ ids, Plain id) ∧ IsAccount type uuid ids doc

section Accounts

variable {type other : AccountType} {uuid : Bytes} {ids : List Bytes}
  {doc patch existing : JsonValue δ}

theorem AccountType.name_injective (same : type.name = other.name) : type = other := by
  cases type <;> cases other
  all_goals first | rfl | exact absurd same (by decide)

theorem idArray_copyable (ids : List Bytes) : Copyable 2 (idArray ids : JsonValue δ) := by
  intro item member
  obtain ⟨id, _, rfl⟩ := List.mem_map.mp member
  trivial

theorem idArray_reread [CDouble δ] (plain : ∀ id ∈ ids, Plain id) :
    rereadValue (idArray ids : JsonValue δ) = idArray ids := by
  have same : ids.map (fun id => (rereadValue (.string id) : JsonValue δ)) =
      ids.map JsonValue.string := by
    apply List.map_congr_left
    intro id member
    rw [rereadValue, (escapeText_eq_self_iff id).mpr (plain id member)]
  rw [idArray, rereadValue, rereadItems_eq_map, List.map_map]
  exact congrArg JsonValue.array same

theorem idArray_jsonClone (ids : List Bytes) :
    jsonClone (idArray ids : JsonValue δ) = idArray ids :=
  jsonClone_eq_self_of_copyable (idArray_copyable ids)

theorem idArray_copy (ids : List Bytes) :
    jsonDeepCopyInternalSafe maxRecursionDepth (idArray ids : JsonValue δ) = idArray ids :=
  jsonDeepCopyInternalSafe_eq_self ((idArray_copyable ids).mono (by decide))

def AccountType.lawKeys (type : AccountType) : List Bytes :=
  ascii "uuid" :: ascii "type" :: ascii "library" :: ascii "collection" :: type.list ::
    type.foreign

theorem AccountType.lawKeys_apart (type : AccountType) :
    ∀ key ∈ type.lawKeys, Plain key ∧ key ≠ ascii "created_at" ∧ key ≠ ascii "modified_at" ∧
      key ≠ ascii "updated_at" := by
  cases type <;> decide

theorem AccountType.foreign_apart (type : AccountType) :
    ∀ key ∈ type.foreign, key ≠ ascii "uuid" ∧ key ≠ ascii "type" ∧ key ≠ ascii "library" ∧
      key ≠ ascii "collection" ∧ key ≠ ascii "owner" ∧ key ≠ type.list := by
  cases type <;> decide

theorem AccountType.list_apart (type : AccountType) :
    type.list ≠ ascii "uuid" ∧ type.list ≠ ascii "type" ∧ type.list ≠ ascii "library" ∧
      type.list ≠ ascii "collection" ∧ type.list ≠ ascii "owner" := by
  cases type <;> decide

theorem IsAccount.carried (account : IsAccount type uuid ids doc) {next : JsonValue δ}
    (isObject : IsJsonObject next)
    (same : ∀ key ∈ type.lawKeys, jsonObjectGet next key = jsonObjectGet doc key) :
    IsAccount type uuid ids next where
  isObject := isObject
  named := (same _ (by simp [AccountType.lawKeys])).trans account.named
  typed := (same _ (by simp [AccountType.lawKeys])).trans account.typed
  placed := (same _ (by simp [AccountType.lawKeys])).trans account.placed
  collected := (same _ (by simp [AccountType.lawKeys])).trans account.collected
  lists := (same _ (by simp [AccountType.lawKeys])).trans account.lists
  lacks key member :=
    (same key (by simp [AccountType.lawKeys, member])).trans (account.lacks key member)

theorem IsAccount.set_list (account : IsAccount type uuid ids doc) (others : List Bytes) :
    IsAccount type uuid others (jsonObjectSet doc type.list (idArray others)) := by
  obtain ⟨notUuid, notType, notLibrary, notCollection, _⟩ := type.list_apart
  exact {
    isObject := account.isObject.set _ ⟨2, idArray_copyable others⟩
    named := (jsonObjectGet_set_of_ne _ notUuid.symm _).trans account.named
    typed := (jsonObjectGet_set_of_ne _ notType.symm _).trans account.typed
    placed := (jsonObjectGet_set_of_ne _ notLibrary.symm _).trans account.placed
    collected := (jsonObjectGet_set_of_ne _ notCollection.symm _).trans account.collected
    lists := by
      rw [account.isObject.get_set, if_pos rfl]
    lacks := fun key member => by
      obtain ⟨_, _, _, _, _, different⟩ := type.foreign_apart key member
      rw [jsonObjectGet_set_of_ne _ different, account.lacks key member] }

theorem IsAccount.set_other {key : Bytes} {value : JsonValue δ}
    (account : IsAccount type uuid ids doc) (distinct : DistinctKeys value)
    (apart : key ∉ type.lawKeys) : IsAccount type uuid ids (jsonObjectSet doc key value) := by
  apply account.carried (account.isObject.set key distinct)
  intro tested member
  have different : tested ≠ key := fun same => apart (same ▸ member)
  exact jsonObjectGet_set_of_ne doc different value

theorem AccountLaw.of_list (type : AccountType) {value : JsonValue δ}
    (law : AccountLaw uuid doc)
    (listed : jsonObjectGet doc type.list = some value) :
    ∃ ids, (∀ id ∈ ids, Plain id) ∧ IsAccount type uuid ids doc ∧ value = idArray ids := by
  obtain ⟨_, held, ids, plainIds, account⟩ := law
  by_cases same : held = type
  · subst same
    rw [account.lists] at listed
    exact ⟨ids, plainIds, account, (Option.some.inj listed).symm⟩
  · have foreign : type.list ∈ held.foreign := by
      cases type <;> cases held
      all_goals first | decide | exact absurd rfl same
    rw [account.lacks _ foreign] at listed
    cases listed

theorem IsAccount.reread [CDouble δ] (account : IsAccount type uuid ids doc)
    (plainUuid : Plain uuid) (plainIds : ∀ id ∈ ids, Plain id)
    (isObject : IsJsonObject (rereadValue doc)) :
    IsAccount type uuid ids (rereadValue doc) := by
  apply account.carried isObject
  intro key member
  have plainKey : Plain key := (type.lawKeys_apart key member).1
  have unchanged : ∀ text, Plain text → (rereadValue (.string text) : JsonValue δ) = .string text :=
    fun text plain => (rereadValue_eq_string plain).mpr rfl
  rw [account.isObject.get_reread plainKey]
  simp only [AccountType.lawKeys, List.mem_cons] at member
  rcases member with rfl | rfl | rfl | rfl | rfl | lacked
  · rw [account.named, Option.map_some, unchanged uuid plainUuid]
  · rw [account.typed, Option.map_some, unchanged _ (by cases type <;> decide)]
  · rw [account.placed, Option.map_some, unchanged _ (by decide)]
  · rw [account.collected, Option.map_some, unchanged _ (by cases type <;> decide)]
  · rw [account.lists, Option.map_some, idArray_reread plainIds]
  · rw [account.lacks key lacked, Option.map_none]

theorem IsAccount.updated {others : List Bytes} (account : IsAccount type uuid ids patch)
    (stored : IsAccount type uuid others existing) (moment : Moment) :
    IsAccount type uuid ids
      (updatedDocument moment (virtualPatch moment patch) existing) := by
  have isPatch := virtualPatch_isObject account.isObject moment
  apply account.carried (updatedDocument_isObject isPatch stored.isObject moment)
  intro key member
  obtain ⟨_, _, notModified, notUpdated⟩ := type.lawKeys_apart key member
  rw [updatedDocument_get isPatch stored.isObject notModified,
    virtualPatch_get account.isObject notUpdated]
  simp only [AccountType.lawKeys, List.mem_cons] at member
  rcases member with rfl | rfl | rfl | rfl | rfl | lacked
  · rw [account.named]
    rfl
  · rw [account.typed]
    rfl
  · rw [account.placed]
    rfl
  · rw [account.collected]
    rfl
  · rw [account.lists, Option.map_some, Option.map_some, idArray_copy, idArray_jsonClone]
    rfl
  · rw [account.lacks key lacked, stored.lacks key lacked]
    rfl

theorem virtualInserted_get (isObject : IsJsonObject doc) (typeName library owner : Bytes)
    (collection : Option Bytes) (key : Bytes) :
    jsonObjectGet (virtualInserted typeName library collection doc owner) key =
      if key = ascii "owner" then some (.string owner)
      else if key = ascii "collection" then
        some (.string (collection.getD (autoCollection typeName)))
      else if key = ascii "library" then some (.string library)
      else if key = ascii "type" then some (.string typeName)
      else (jsonObjectGet doc key).map (jsonDeepCopyInternalSafe maxRecursionDepth) := by
  have typed := isObject.deepCopy.set (ascii "type") (distinctKeys_string typeName)
  have placed := typed.set (ascii "library") (distinctKeys_string library)
  have collected := placed.set (ascii "collection")
    (distinctKeys_string (collection.getD (autoCollection typeName)))
  rw [virtualInserted, collected.get_set, placed.get_set, typed.get_set,
    isObject.deepCopy.get_set, isObject.get_deepCopy]

theorem isAccount_inserted (isObject : IsJsonObject doc)
    (lists : jsonObjectGet doc type.list = some (idArray []))
    (lacks : ∀ key ∈ type.foreign, jsonObjectGet doc key = none) (moment : Moment) :
    IsAccount type (documentUuid moment) []
      (storageInserted moment (virtualInserted type.name (ascii "system")
        (some type.collection) doc (ascii "system-admin"))) := by
  let virtual := virtualInserted type.name (ascii "system") (some type.collection) doc
    (ascii "system-admin")
  have isInserted : IsJsonObject virtual := virtualInserted_isObject isObject _ _ _ _
  have inserted : ∀ key ∈ type.lawKeys, key ≠ ascii "uuid" →
      jsonObjectGet (storageInserted moment virtual) key =
        (jsonObjectGet virtual key).map (jsonDeepCopyInternalSafe maxRecursionDepth) := by
    intro key member notUuid
    obtain ⟨_, notCreated, notModified, _⟩ := type.lawKeys_apart key member
    exact storageInserted_get isInserted notUuid notCreated notModified
  obtain ⟨listUuid, listType, listLibrary, listCollection, listOwner⟩ := type.list_apart
  exact {
    isObject := storageInserted_isObject isInserted moment
    named := storageInserted_uuid isInserted moment
    typed := by
      rw [inserted _ (by simp [AccountType.lawKeys]) (by decide), virtualInserted_get isObject]
      rfl
    placed := by
      rw [inserted _ (by simp [AccountType.lawKeys]) (by decide), virtualInserted_get isObject]
      rfl
    collected := by
      rw [inserted _ (by simp [AccountType.lawKeys]) (by decide), virtualInserted_get isObject]
      rfl
    lists := by
      rw [inserted _ (by simp [AccountType.lawKeys]) listUuid, virtualInserted_get isObject,
        if_neg listOwner, if_neg listCollection, if_neg listLibrary, if_neg listType, lists]
      rfl
    lacks := fun key member => by
      obtain ⟨notUuid, notType, notLibrary, notCollection, notOwner, _⟩ :=
        type.foreign_apart key member
      rw [inserted _ (by simp [AccountType.lawKeys, member]) notUuid,
        virtualInserted_get isObject, if_neg notOwner, if_neg notCollection, if_neg notLibrary,
        if_neg notType, lacks key member]
      rfl }

end Accounts

def CachedAccount (key : Bytes) (doc : JsonValue δ) : Prop :=
  ∃ uuid, generateDocCacheKeyFast uuid = some key ∧ AccountLaw uuid doc

structure AccountStore [CDouble δ] (db : Database δ) : Prop where
  stored : StoresOnly AccountLaw db
  cached : CacheObeys db.docCache CachedAccount

section Stores

variable {type : AccountType} {uuid : Bytes} {ids : List Bytes} {doc patch : JsonValue δ}
  {db next : Database δ} [CDouble δ]

omit [CDouble δ] in
theorem CachedAccount.law {key : Bytes} (cached : CachedAccount key doc)
    (generated : generateDocCacheKeyFast uuid = some key) : AccountLaw uuid doc := by
  obtain ⟨other, otherGenerated, law⟩ := cached
  rw [generateDocCacheKeyFast_injective generated otherGenerated]
  exact law

theorem AccountStore.setCached (accounts : AccountStore db) (law : AccountLaw uuid doc) :
    AccountStore (Jdbx.setCached db uuid doc) := by
  rw [Jdbx.setCached]
  cases held : db.docCache with
  | none => exact accounts
  | some cache =>
      cases generated : generateDocCacheKeyFast uuid with
      | none => exact accounts
      | some key =>
          refine { stored := accounts.stored, cached := fun other same => ?_ }
          cases same
          intro tested value member
          obtain ⟨entry, old, changed⟩ := List.mem_map.mp member
          split_ifs at changed
          · cases changed
            exact ⟨uuid, generated, law⟩
          · subst changed
            exact accounts.cached cache held _ _ old

theorem AccountStore.setShared (accounts : AccountStore db) (law : AccountLaw uuid doc)
    (shared : Bool) : AccountStore (Jdbx.setShared shared db uuid doc) := by
  cases shared with
  | false => exact accounts
  | true => exact accounts.setCached law

theorem AccountStore.step (accounts : AccountStore db) {event : Moment × StoreCall δ}
    (taken : storeStep db event = some next) (notCached : event.2.isCached = false)
    (lawful : ∀ key document, written db event = some (key, document) →
      IsJsonObject document ∧ AccountLaw key document) : AccountStore next := by
  obtain ⟨⟨answer, _⟩, performed, rfl⟩ := Option.map_eq_some_iff.mp taken
  constructor
  · exact accounts.stored.step performed lawful
  · rw [(performCall_caches performed notCached).1]
    exact accounts.cached

theorem AccountStore.virtualDelete (accounts : AccountStore db) (uuid : Bytes) :
    AccountStore (Jdbx.virtualDelete db uuid).2 := by
  let event : Moment × StoreCall δ := (⟨0, 0⟩, .virtualDelete uuid)
  have taken : storeStep db event = some (Jdbx.virtualDelete db uuid).2 := rfl
  exact accounts.step taken rfl fun key document writes => by cases writes

theorem AccountStore.virtualInsert (accounts : AccountStore db) (isObject : IsJsonObject doc)
    (lists : jsonObjectGet doc type.list = some (idArray []))
    (lacks : ∀ key ∈ type.foreign, jsonObjectGet doc key = none) (moment : Moment) :
    AccountStore (Jdbx.virtualInsert moment db type.name (ascii "system")
      (some type.collection) doc (ascii "system-admin")).2 := by
  let event : Moment × StoreCall δ := (moment, .virtualInsert type.name (ascii "system")
    (some type.collection) ⟨doc, isObject⟩ (ascii "system-admin"))
  have taken : storeStep db event = some (Jdbx.virtualInsert moment db type.name
    (ascii "system") (some type.collection) doc (ascii "system-admin")).2 := rfl
  refine accounts.step taken rfl fun key document writes => ?_
  have stored := isAccount_inserted isObject lists lacks moment
  rw [written, insertion] at writes
  split_ifs at writes
  cases writes
  have plainIds : ∀ id ∈ ([] : List Bytes), Plain id := fun id member => by cases member
  exact ⟨stored.isObject, documentUuid_plain moment, type, [], plainIds, stored⟩

omit [CDouble δ] in
def uuidQuery (type : AccountType) (uuid : Bytes) : JsonValue δ :=
  .object (askedEntries type.name (ascii "system") (some type.collection) ++
    [(ascii "uuid", .string uuid)])

def storedAccount (db : Database δ) (type : AccountType) (uuid : Bytes) :
    Option (JsonValue δ) :=
  (storageGetDocument db uuid).filter fun doc =>
    jsonGetString (jsonObjectGet doc (ascii "type")) == some type.name

theorem storedAccount_eq_some :
    storedAccount db type uuid = some doc ↔
      storageGetDocument db uuid = some doc ∧
        jsonGetString (jsonObjectGet doc (ascii "type")) = some type.name := by
  rw [storedAccount, Option.filter_eq_some_iff, beq_iff_eq]

theorem storageGetDocument_of_mem {entry : Bytes × Bytes} (member : entry ∈ db.documents.entries)
    (held : storedDocument entry = some doc) : storageGetDocument db entry.1 = some doc := by
  have found : skiplistSearch db.documents entry.1 = some entry.2 :=
    getEntry_eq_some_of_mem db.documents.distinct member
  rw [storageGetDocument, found, Option.bind_some]
  rw [storedDocument] at held
  split at held
  · rename_i fields parsed
    rw [parsed, held]
  · cases held

omit [CDouble δ] in
theorem jsonGetString_eq_string {held : Option (JsonValue δ)} {text : Bytes}
    (same : jsonGetString held = some text) : held = some (.string text) := by
  cases held with
  | none => cases same
  | some value =>
      cases value with
      | string held => rw [Option.some.inj same]
      | _ => cases same

theorem storedDocument_isObject {entry : Bytes × Bytes}
    (stored : storedDocument entry = some doc) : IsJsonObject doc := by
  rw [storedDocument] at stored
  split at stored
  · rename_i fields read
    cases stored
    exact ⟨fields, rfl, parsed_distinctKeys read⟩
  · cases stored

theorem matchesQuery_uuidQuery (account : IsAccount type uuid ids doc) :
    matchesQuery storageFieldMatches (uuidQuery type uuid) doc = true := by
  have keys : jsonObjectGetKeys (uuidQuery type uuid : JsonValue δ) =
      some [ascii "type", ascii "library", ascii "collection", ascii "uuid"] := rfl
  have asked : ∀ key value, jsonObjectGet (uuidQuery type uuid : JsonValue δ) key =
      some (.string value) → jsonObjectGet doc key = some (.string value) →
        storageFieldMatches (uuidQuery type uuid) doc key = true := by
    intro key value wanted held
    rw [storageFieldMatches, wanted, held]
    exact beq_self_eq_true value
  rw [matchesQuery, keys]
  simp only [List.all_cons, List.all_nil, Bool.and_true, Bool.and_eq_true]
  exact ⟨asked _ _ rfl account.typed, asked _ _ rfl account.placed,
    asked _ _ rfl account.collected, asked _ _ rfl account.named⟩

theorem head?_eq_of_unique {α : Type} {items : List α} {found : Option α}
    (only : ∀ item ∈ items, found = some item)
    (present : ∀ item, found = some item → item ∈ items) :
    items.head? = found := by
  cases items with
  | nil =>
      cases found with
      | none => rfl
      | some item => cases present item rfl
  | cons first items => exact (only first List.mem_cons_self).symm

/-! ## Creating and deleting -/

omit [CDouble δ] in
theorem filter_isOtherId (id : Bytes) (ids : List Bytes) :
    JsonValue.array ((ids.map JsonValue.string).filter (isOtherId id)) =
      (idArray (ids.filter (· != id)) : JsonValue δ) := by
  rw [List.filter_map]
  rfl

omit [CDouble δ] in
theorem listsId_map (id : Bytes) (ids : List Bytes) :
    listsId id (ids.map JsonValue.string : List (JsonValue δ)) = true ↔ id ∈ ids := by
  simp [listsId, jsonGetString]

theorem AccountStore.createAccount (accounts : AccountStore db) (calls : Calls)
    (filters : JsonValue δ) (isObject : IsJsonObject doc)
    (lists : jsonObjectGet doc type.list = some (idArray []))
    (lacks : ∀ key ∈ type.foreign, jsonObjectGet doc key = none) :
    AccountStore (Jdbx.createAccount calls db type filters doc).2 := by
  rw [Jdbx.createAccount]
  cases Jdbx.findAccount (calls 0) db type filters with
  | some held => exact accounts
  | none =>
      cases calls 1 with
      | none => exact accounts
      | some moment => exact accounts.virtualInsert isObject lists lacks moment

omit [CDouble δ] in
theorem userDocument_isObject (username passwordHash : Bytes) :
    IsJsonObject (userDocument username passwordHash : JsonValue δ) := by
  refine ⟨_, rfl, 2, by simp [entryKeys]; decide, fun entry member => ?_⟩
  simp only [List.mem_cons, List.not_mem_nil, or_false] at member
  rcases member with rfl | rfl | rfl
  · trivial
  · trivial
  · exact fun item absurdity => by cases absurdity

omit [CDouble δ] in
theorem roleDocument_isObject (name : Bytes) :
    IsJsonObject (roleDocument name : JsonValue δ) := by
  refine ⟨_, rfl, 2, by simp [entryKeys]; decide, fun entry member => ?_⟩
  simp only [List.mem_cons, List.not_mem_nil, or_false] at member
  rcases member with rfl | rfl | rfl
  · trivial
  · exact ⟨List.nodup_nil, fun item absurdity => by cases absurdity⟩
  · exact fun item absurdity => by cases absurdity

omit [CDouble δ] in
theorem userDocument_lacks (username passwordHash : Bytes) :
    ∀ key ∈ AccountType.user.foreign,
      jsonObjectGet (userDocument username passwordHash : JsonValue δ) key = none := by
  intro key member
  simp only [AccountType.foreign, List.mem_cons, List.not_mem_nil, or_false] at member
  rcases member with rfl | rfl <;> rfl

omit [CDouble δ] in
theorem roleDocument_lacks (name : Bytes) :
    ∀ key ∈ AccountType.role.foreign,
      jsonObjectGet (roleDocument name : JsonValue δ) key = none := by
  intro key member
  simp only [AccountType.foreign, List.mem_cons, List.not_mem_nil, or_false] at member
  subst member
  rfl

theorem AccountStore.createUser (accounts : AccountStore db) (calls : Calls)
    (username passwordHash : Bytes) :
    AccountStore (rbacDbCreateUser calls db username passwordHash).2 :=
  accounts.createAccount calls _ (userDocument_isObject username passwordHash) rfl
    (userDocument_lacks username passwordHash)

theorem AccountStore.createRole (accounts : AccountStore db) (calls : Calls) (name : Bytes) :
    AccountStore (rbacDbCreateRole calls db name).2 :=
  accounts.createAccount calls _ (roleDocument_isObject name) rfl (roleDocument_lacks name)

theorem AccountStore.deleteRole (accounts : AccountStore db) (calls : Calls) (roleId : Bytes) :
    AccountStore (rbacDbDeleteRole calls db roleId).2 := by
  rw [rbacDbDeleteRole]
  cases calls 0 with
  | none => exact accounts
  | some moment => exact accounts.virtualDelete roleId

omit [CDouble δ] in
theorem setShared_documents (shared : Bool) (db : Database δ) (uuid : Bytes)
    (doc : JsonValue δ) : (setShared shared db uuid doc).documents = db.documents := by
  cases shared with
  | false => rfl
  | true =>
      rw [Jdbx.setShared, if_pos rfl, Jdbx.setCached]
      cases db.docCache with
      | none => rfl
      | some cache => cases generateDocCacheKeyFast uuid <;> rfl

theorem getAccount_documents (call : Option Moment) (db : Database δ) (uuid : Bytes) :
    (getAccount call db uuid).2.documents = db.documents := by
  cases call with
  | none => rfl
  | some moment =>
      rw [getAccount, virtualGet]
      cases (cacheGet db.docCache (generateDocCacheKeyFast uuid)).1 with
      | some cachedDoc => rfl
      | none => cases storageGetDocument db uuid <;> rfl

theorem virtualUpdate_get_of_ne {other : Bytes} (different : other ≠ uuid) (moment : Moment) :
    storageGetDocument (virtualUpdate moment db uuid patch).2 other =
      storageGetDocument db other := by
  rw [virtualUpdate, storageUpdateDocument]
  cases storageGetDocument db uuid with
  | none => rfl
  | some existing =>
      rw [storageGetDocument, skiplistSearch_replace_of_ne different, storageGetDocument]

variable (prints : ∀ number : δ, PrintsNumber number) {filters : JsonValue δ}
include prints

theorem storedDocument_reread {object : JsonValue δ} {key : Bytes} (isObject : IsJsonObject object)
    (stored : storedDocument (key, jsonStringify object) = some doc) :
    doc = rereadValue object := by
  rw [storedDocument] at stored
  split at stored
  · rename_i fields read
    cases stored
    exact (isObject.parsed prints read).1
  · cases stored

theorem storedDocument_string {object : JsonValue δ} {key text : Bytes}
    (isObject : IsJsonObject object)
    (stored : storedDocument (key, jsonStringify object) = some doc) {field : Bytes}
    (plain : Plain field) (held : jsonObjectGet object field = some (.string text)) :
    jsonGetString (jsonObjectGet doc field) = some (escapeText text) := by
  rw [storedDocument_reread prints isObject stored, isObject.get_reread plain, held]
  rfl

theorem AccountStore.get (accounts : AccountStore db)
    (stored : storageGetDocument db uuid = some doc) : AccountLaw uuid doc := by
  obtain ⟨document, _, ⟨plain, type, ids, plainIds, account⟩, rfl, isObject⟩ :=
    accounts.stored.get prints stored
  exact ⟨plain, type, ids, plainIds, account.reread plain plainIds isObject⟩

theorem AccountStore.virtualUpdate (accounts : AccountStore db)
    (plainIds : ∀ id ∈ ids, Plain id) (account : IsAccount type uuid ids patch)
    (same : ∀ existing, storageGetDocument db uuid = some existing →
      ∃ others, IsAccount type uuid others existing) (moment : Moment) :
    AccountStore (Jdbx.virtualUpdate moment db uuid patch).2 := by
  let event : Moment × StoreCall δ := (moment, .virtualUpdate uuid ⟨patch, account.isObject⟩)
  have taken : storeStep db event = some (Jdbx.virtualUpdate moment db uuid patch).2 := rfl
  refine accounts.step taken rfl fun key document writes => ?_
  obtain ⟨existing, stored, equal⟩ := Option.map_eq_some_iff.mp writes
  cases equal
  obtain ⟨others, held⟩ := same existing stored
  have updated := account.updated held moment
  exact ⟨updated.isObject, (accounts.get prints stored).1, type, ids, plainIds, updated⟩

theorem AccountStore.virtualGet (accounts : AccountStore db) (uuid : Bytes) :
    AccountStore (Jdbx.virtualGet db uuid).2 ∧
      ∀ doc, (Jdbx.virtualGet db uuid).1 = some doc → AccountLaw uuid doc := by
  have touched := cacheGet_obeys accounts.cached (generateDocCacheKeyFast uuid)
  simp only [Jdbx.virtualGet]
  cases found : (cacheGet db.docCache (generateDocCacheKeyFast uuid)).1 with
  | some cachedDoc =>
      obtain ⟨key, generated, cached⟩ := cacheGet_lawful accounts.cached found
      refine ⟨{ stored := accounts.stored, cached := touched }, fun doc same => ?_⟩
      cases same
      exact cached.law generated
  | none =>
      cases stored : storageGetDocument db uuid with
      | none =>
          exact ⟨{ stored := accounts.stored, cached := touched },
            fun doc absurdity => by cases absurdity⟩
      | some held =>
          have law := accounts.get prints stored
          obtain ⟨text, _, parsed⟩ := Option.bind_eq_some_iff.mp stored
          have copied : jsonDeepCopy held = held :=
            jsonDeepCopy_eq_self (by decide) (jsonParse_copyable parsed)
          refine ⟨{ stored := accounts.stored, cached := cachePut_obeys touched ?_ },
            fun doc same => ?_⟩
          · rw [copied]
            exact fun key generated => ⟨uuid, generated, law⟩
          · cases same
            exact law

theorem AccountStore.dbUpdateDocument (accounts : AccountStore db) (moment : Moment)
    (collection uuid : Bytes) (update : JsonValue δ) :
    Jdbx.dbUpdateDocument moment db (ascii "default") collection uuid update =
      some (none, db) := by
  rw [Jdbx.dbUpdateDocument]
  cases stored : storageGetDocument db uuid with
  | none => rfl
  | some existing =>
      obtain ⟨_, type, ids, _, account⟩ := accounts.get prints stored
      have elsewhere :
          matchesLibraryAndType existing (ascii "default") collection = some false := by
        rw [matchesLibraryAndType, account.placed, account.typed]
        rfl
      simp only [elsewhere, Option.map_some, Bool.false_eq_true, if_false]

theorem AccountStore.account (accounts : AccountStore db)
    (stored : storedAccount db type uuid = some doc) :
    Plain uuid ∧ ∃ ids, (∀ id ∈ ids, Plain id) ∧ IsAccount type uuid ids doc := by
  obtain ⟨held, typed⟩ := storedAccount_eq_some.mp stored
  obtain ⟨plain, other, ids, plainIds, account⟩ := accounts.get prints held
  rw [account.typed] at typed
  obtain rfl := AccountType.name_injective (Option.some.inj typed)
  exact ⟨plain, ids, plainIds, account⟩

theorem AccountStore.found (accounts : AccountStore db)
    (asks : unifiedQuery type.name (ascii "system") (some type.collection) filters =
      uuidQuery type uuid) :
    (foundDocuments (virtualQuery db type.name (ascii "system") (some type.collection)
      filters)).head? = storedAccount db type uuid := by
  rw [foundDocuments_virtualQuery, asks]
  apply head?_eq_of_unique
  · intro doc member
    obtain ⟨listed, matched⟩ := List.mem_filter.mp member
    obtain ⟨entry, inside, held⟩ := List.mem_filterMap.mp listed
    have stored := storageGetDocument_of_mem inside held
    obtain ⟨_, other, ids, _, account⟩ := accounts.get prints stored
    have asksUuid : jsonObjectGet (uuidQuery type uuid : JsonValue δ) (ascii "uuid") =
        some (.string uuid) := rfl
    have asksType : jsonObjectGet (uuidQuery type uuid : JsonValue δ) (ascii "type") =
        some (.string type.name) := rfl
    have named := storageFieldMatches_string (matchesQuery_field matched asksUuid)
    have typed := storageFieldMatches_string (matchesQuery_field matched asksType)
    rw [account.named] at named
    obtain rfl : entry.1 = uuid := Option.some.inj named
    exact storedAccount_eq_some.mpr ⟨stored, typed⟩
  · intro doc stored
    obtain ⟨_, ids, _, account⟩ := accounts.account prints stored
    obtain ⟨text, searched, parsed⟩ :=
      Option.bind_eq_some_iff.mp (storedAccount_eq_some.mp stored).1
    refine List.mem_filter.mpr ⟨List.mem_filterMap.mpr ⟨(uuid, text),
      mem_of_getEntry_eq_some searched, ?_⟩, matchesQuery_uuidQuery account⟩
    obtain ⟨fields, rfl, _⟩ := account.isObject
    simp only [storedDocument, parsed]

theorem AccountStore.findAccount (accounts : AccountStore db)
    (asks : unifiedQuery type.name (ascii "system") (some type.collection) filters =
      uuidQuery type uuid) (call : Option Moment) :
    Jdbx.findAccount call db type filters = call.bind fun _ => storedAccount db type uuid := by
  rw [Jdbx.findAccount, accounts.found prints asks]
  cases stored : storedAccount db type uuid with
  | none => rfl
  | some doc =>
      obtain ⟨_, ids, _, account⟩ := accounts.account prints stored
      obtain ⟨entries, rfl, levels, copyable⟩ := account.isObject
      rw [Option.map_some, jsonClone_eq_self_of_copyable copyable]

theorem AccountStore.findByUuid (accounts : AccountStore db)
    (asks : unifiedQuery type.name (ascii "system") (some type.collection) filters =
      uuidQuery type uuid) (first second : Option Moment) :
    Jdbx.findByUuid first second db type uuid filters =
      (first.or second).bind fun _ => storedAccount db type uuid := by
  rw [Jdbx.findByUuid, accounts.findAccount prints asks, accounts.findAccount prints rfl]
  cases first with
  | none => rfl
  | some moment =>
      cases storedAccount db type uuid with
      | none => cases second <;> rfl
      | some doc => rfl

end Stores

end Jdbx
