import Jdbx.Database.QueryAgreement
import Jdbx.Rbac.PermissionCheck

/-!
# Scripts in the native storage

`js_native_store_script` writes a script through the virtual layer, into the library `system` and
under a uuid of the store.  `js_native_get_script` looks for it with `db_get_document`, in the
library `default` and under the id of the metadata.
-/

namespace Jdbx

open Library

variable {δ : Type}

/-! ## Metadata -/

/-- `js_script_type_t`, or a value that it does not name. -/
inductive ScriptType where
  | validator
  | transformer
  | function
  | other
  deriving DecidableEq

def scriptTypeToString : ScriptType → Bytes
  | .validator => ascii "validator"
  | .transformer => ascii "transformer"
  | .function => ascii "function"
  | .other => ascii "unknown"

def scriptTypeToCollection : ScriptType → Option Bytes
  | .validator => some (ascii "system/validators")
  | .transformer => some (ascii "system/transformers")
  | .function => some (ascii "system/functions")
  | .other => none

def scriptTypeFromString (typeStr : Bytes) : ScriptType :=
  if typeStr = ascii "validator" then .validator
  else if typeStr = ascii "transformer" then .transformer
  else if typeStr = ascii "function" then .function
  else .validator

/-- `js_script_metadata_t`.  A pointer that can be `NULL` is an option. -/
structure ScriptMetadata (δ : Type) where
  id : Bytes
  name : Bytes
  description : Bytes
  type : ScriptType
  collectionPattern : Bytes
  triggerType : Int32
  triggerTags : Option (JsonValue δ)
  scriptCode : Option Bytes
  createdBy : Bytes
  createdAt : Int64
  updatedAt : Int64
  version : Int32
  enabled : Bool
  rbacPermissions : Option (JsonValue δ)
  executionStats : Option (JsonValue δ)

/-- `strncpy` into a buffer of `size` bytes, the last of which is taken to be `NUL`. -/
def strncpyInto (size : Nat) (text : Bytes) : Bytes :=
  text.take (size - 1)

/-- `json_object_set` of a clone, which sets nothing where there is no value. -/
def setClone (object : JsonValue δ) (key : Bytes) (value : Option (JsonValue δ)) : JsonValue δ :=
  value.elim object fun value => jsonObjectSet object key (jsonClone value)

def scriptMetadataToJson (metadata : ScriptMetadata δ) : JsonValue δ :=
  let json : JsonValue δ := .object []
  let json := jsonObjectSet json (ascii "uuid") (.string metadata.id)
  let json := jsonObjectSet json (ascii "name") (.string metadata.name)
  let json := jsonObjectSet json (ascii "description") (.string metadata.description)
  let json := jsonObjectSet json (ascii "type") (.string (scriptTypeToString metadata.type))
  let json := jsonObjectSet json (ascii "collection_pattern") (.string metadata.collectionPattern)
  let json := jsonObjectSet json (ascii "trigger_type") (.integer metadata.triggerType.toInt64)
  let json := setClone json (ascii "trigger_tags") metadata.triggerTags
  let json := jsonObjectSet json (ascii "script_code") (.string (metadata.scriptCode.getD []))
  let json := jsonObjectSet json (ascii "created_by") (.string metadata.createdBy)
  let json := jsonObjectSet json (ascii "created_at") (.integer metadata.createdAt)
  let json := jsonObjectSet json (ascii "updated_at") (.integer metadata.updatedAt)
  let json := jsonObjectSet json (ascii "version") (.integer metadata.version.toInt64)
  let json := jsonObjectSet json (ascii "enabled") (.boolean metadata.enabled)
  let json := setClone json (ascii "rbac_permissions") metadata.rbacPermissions
  setClone json (ascii "execution_stats") metadata.executionStats

/-- A string field in a buffer of `size` bytes, which keeps its contents where there is none. -/
def copiedString (json : JsonValue δ) (key : Bytes) (size : Nat) (buffer : Bytes) : Bytes :=
  match jsonObjectGet json key with
  | some (.string text) => strncpyInto size text
  | _ => buffer

def integerOr (json : JsonValue δ) (key : Bytes) (value : Int64) : Int64 :=
  match jsonObjectGet json key with
  | some (.integer integer) => integer
  | _ => value

/-- `js_native_create_script_metadata`, in a block of memory that is not cleared. -/
def createScriptMetadata (memory : ScriptMetadata δ) (now : Int64) : ScriptMetadata δ :=
  { memory with
    type := .function
    triggerType := 4
    triggerTags := some (.array [])
    rbacPermissions := some (.array [])
    executionStats := some (.object [])
    createdAt := now
    updatedAt := now
    version := 1
    enabled := true }

/-- `js_native_script_metadata_from_json`, into metadata that were just created. -/
def scriptMetadataFromJson (metadata : ScriptMetadata δ) (json : JsonValue δ) :
    Option (ScriptMetadata δ) :=
  match json with
  | .object _ =>
      some
        { id := copiedString json (ascii "uuid") 64 metadata.id
          name := copiedString json (ascii "name") 128 metadata.name
          description := copiedString json (ascii "description") 512 metadata.description
          type :=
            match jsonObjectGet json (ascii "type") with
            | some (.string typeStr) => scriptTypeFromString typeStr
            | _ => metadata.type
          collectionPattern :=
            copiedString json (ascii "collection_pattern") 128 metadata.collectionPattern
          triggerType :=
            (integerOr json (ascii "trigger_type") metadata.triggerType.toInt64).toInt32
          triggerTags :=
            ((jsonObjectGet json (ascii "trigger_tags")).map jsonClone).or metadata.triggerTags
          scriptCode :=
            match jsonObjectGet json (ascii "script_code") with
            | some (.string code) => some code
            | _ => metadata.scriptCode
          createdBy := copiedString json (ascii "created_by") 64 metadata.createdBy
          createdAt := integerOr json (ascii "created_at") metadata.createdAt
          updatedAt := integerOr json (ascii "updated_at") metadata.updatedAt
          version := (integerOr json (ascii "version") metadata.version.toInt64).toInt32
          enabled :=
            match jsonObjectGet json (ascii "enabled") with
            | some (.boolean enabled) => enabled
            | _ => metadata.enabled
          rbacPermissions :=
            ((jsonObjectGet json (ascii "rbac_permissions")).map jsonClone).or
              metadata.rbacPermissions
          executionStats :=
            ((jsonObjectGet json (ascii "execution_stats")).map jsonClone).or
              metadata.executionStats }
  | _ => none

/-- What a call takes from the outside: the block of memory that new metadata are put in, the time
of its clock, an id of `js_native_generate_script_id`, and what becomes of its write. -/
structure ScriptCall (δ : Type) where
  memory : ScriptMetadata δ
  now : Int64
  generatedId : Bytes
  write : Option Moment

/-- `strrchr(path, '/') + 1`, or the whole path. -/
def afterLastSlash (path : Bytes) : Bytes :=
  (path.reverse.takeWhile (· ≠ 47)).reverse

/-- The collections of `js_native_get_script`, in its order. -/
def scriptCollections : List Bytes :=
  [ascii "system/validators", ascii "system/transformers", ascii "system/functions"]

def scriptAdmin (userId : Bytes) : PermissionRequest :=
  { userId := userId
    resourceType := 1
    resourceId := ascii "system/js_scripts"
    permission := 8 }

section Operations

variable [CDouble δ]

/-- The loop of `js_native_get_script`. -/
def findScript (metadata : ScriptMetadata δ) (scriptId : Bytes) :
    List Bytes → Database δ → Option (Option (ScriptMetadata δ) × Database δ)
  | [], db => some (none, db)
  | collection :: collections, db =>
      (dbGetDocument db (ascii "default") collection scriptId).bind fun got =>
        match got.1 with
        | some scriptDoc => some (scriptMetadataFromJson metadata scriptDoc, got.2)
        | none => findScript metadata scriptId collections got.2

def getScript (call : ScriptCall δ) (db : Database δ) (scriptId : Bytes) :
    Option (Option (ScriptMetadata δ) × Database δ) :=
  findScript (createScriptMetadata call.memory call.now) scriptId scriptCollections db

/-- `js_native_store_script`: its result, the metadata as it leaves them, and the database. -/
def storeScript (call : ScriptCall δ) (db : Database δ) (userId : Bytes)
    (metadata : ScriptMetadata δ) : Bool × ScriptMetadata δ × Database δ :=
  let stored :=
    { metadata with
      id := if metadata.id = [] then call.generatedId else metadata.id
      createdBy := strncpyInto 64 userId
      updatedAt := call.now }
  match scriptTypeToCollection stored.type, call.write with
  | some collectionName, some moment =>
      (true, stored,
        (virtualInsert moment db (scriptTypeToString stored.type) (ascii "system")
          (some (afterLastSlash collectionName)) (scriptMetadataToJson stored) userId).2)
  | _, _ => (false, stored, db)

def mayChange (db : Database δ) (existing : ScriptMetadata δ) (userId : Bytes) :
    Bool × Database δ :=
  if existing.createdBy = userId then (true, db)
  else rbacDbCheckPermission db (scriptAdmin userId)

/-- `js_native_update_script`, unless the process ends. -/
def updateScript (call : ScriptCall δ) (db : Database δ) (userId scriptId : Bytes)
    (metadata : ScriptMetadata δ) : Option (Bool × ScriptMetadata δ × Database δ) :=
  (getScript call db scriptId).map fun got =>
    match got.1 with
    | none => (false, metadata, got.2)
    | some existing =>
        let allowed := mayChange got.2 existing userId
        if allowed.1 then
          let updated :=
            { metadata with
              id := strncpyInto 64 scriptId
              createdBy := strncpyInto 64 existing.createdBy
              createdAt := existing.createdAt
              updatedAt := call.now
              version := existing.version + 1 }
          match scriptTypeToCollection existing.type, call.write with
          | some _, some moment =>
              let result := virtualUpdate moment allowed.2 scriptId (scriptMetadataToJson updated)
              (result.1.isSome, updated, result.2)
          | _, _ => (false, updated, allowed.2)
        else (false, metadata, allowed.2)

/-- `js_native_delete_script`, unless the process ends. -/
def deleteScript (call : ScriptCall δ) (db : Database δ) (userId scriptId : Bytes) :
    Option (Bool × Database δ) :=
  (getScript call db scriptId).map fun got =>
    match got.1 with
    | none => (false, got.2)
    | some existing =>
        let allowed := mayChange got.2 existing userId
        if allowed.1 then
          match scriptTypeToCollection existing.type, call.write with
          | some _, some _ => virtualDelete allowed.2 scriptId
          | _, _ => (false, allowed.2)
        else (false, allowed.2)

end Operations

/-- The database, and what was last stored or updated under each id and not deleted since. -/
structure ScriptState (δ : Type) where
  db : Database δ
  expected : List (Bytes × ScriptMetadata δ)

inductive ScriptEvent (δ : Type) where
  | store (userId : Bytes) (metadata : ScriptMetadata δ)
  | update (userId scriptId : Bytes) (metadata : ScriptMetadata δ)
  | delete (userId scriptId : Bytes)

section Runs

variable [CDouble δ]

/-- One call: its result and the state after it, unless the process ends. -/
def performScript (state : ScriptState δ) :
    ScriptCall δ × ScriptEvent δ → Option (Bool × ScriptState δ)
  | (call, .store userId metadata) =>
      let stored := storeScript call state.db userId metadata
      some (stored.1,
        { db := stored.2.2
          expected :=
            if stored.1 then setEntry stored.2.1.id stored.2.1 state.expected
            else state.expected })
  | (call, .update userId scriptId metadata) =>
      (updateScript call state.db userId scriptId metadata).map fun updated =>
        (updated.1,
          { db := updated.2.2
            expected :=
              if updated.1 then setEntry scriptId updated.2.1 state.expected
              else state.expected })
  | (call, .delete userId scriptId) =>
      (deleteScript call state.db userId scriptId).map fun deleted =>
        (deleted.1,
          { db := deleted.2
            expected :=
              if deleted.1 then removeEntry scriptId state.expected else state.expected })

def scriptStep (state : ScriptState δ) (event : ScriptCall δ × ScriptEvent δ) :
    Option (ScriptState δ) :=
  (performScript state event).map Prod.snd

/-- `js_native_get_script` returns these metadata. -/
def Gets (db : Database δ) (scriptId : Bytes) (metadata : ScriptMetadata δ) : Prop :=
  ∃ (call : ScriptCall δ) (next : Database δ),
    getScript call db scriptId = some (some metadata, next)

def Authorized (db : Database δ) (userId scriptId : Bytes) : Prop :=
  ∃ existing, Gets db scriptId existing ∧
    (existing.createdBy = userId ∨ (rbacDbCheckPermission db (scriptAdmin userId)).1 = true)

def Respects (db next : Database δ) : ScriptEvent δ → Prop
  | .store _ _ => True
  | .update userId scriptId _ =>
      Authorized db userId scriptId ∧
        ∀ before after, Gets db scriptId before → Gets next scriptId after →
          after.createdBy = before.createdBy ∧ after.createdAt = before.createdAt ∧
            after.type = before.type ∧ after.version = before.version + 1
  | .delete userId scriptId => Authorized db userId scriptId

/-- After the call, `js_native_get_script` returns for each id what was last stored or updated
under it, and the call was allowed to do what it did. -/
def KeepsScripts (state : ScriptState δ) (event : ScriptCall δ × ScriptEvent δ) : Prop :=
  ∀ success next, performScript state event = some (success, next) →
    (∀ scriptId metadata, getEntry scriptId next.expected = some metadata →
      Gets next.db scriptId metadata) ∧
        (success = true → Respects state.db next.db event.2)

def InsertsNothing : ScriptCall δ × ScriptEvent δ → Prop
  | (call, .store _ metadata) => scriptTypeToCollection metadata.type = none ∨ call.write = none
  | _ => True

end Runs

/-! ## Databases without a script to find -/

section Hidden

variable [CDouble δ]

omit [CDouble δ] in
/-- A document in the library and under a type that `js_native_get_script` asks for. -/
def FoundAsScript (doc : JsonValue δ) : Prop :=
  jsonGetString (jsonObjectGet doc (ascii "library")) = some (ascii "default") ∧
    ∃ collection ∈ scriptCollections,
      jsonGetString (jsonObjectGet doc (ascii "type")) = some collection

def EmptyForScripts (key : Bytes) (result : JsonValue δ) : Prop :=
  ∀ collection ∈ scriptCollections, ∀ id,
    generateQueryCacheKeyFast (ascii "default") collection
        (some (documentQuery (ascii "default") collection id : JsonValue δ)) = some key →
      foundDocuments result = []

/-- Neither the store nor a cache holds a document that `js_native_get_script` looks for. -/
structure HidesScripts (db : Database δ) : Prop where
  stored : ∀ doc ∈ (db.documents.entries.filterMap storedDocument : List (JsonValue δ)),
    ¬ FoundAsScript doc
  docCache : CacheObeys db.docCache fun _ doc => ¬ FoundAsScript doc
  queryCache : CacheObeys db.queryCache EmptyForScripts

variable {db next : Database δ} {collection id : Bytes} {call : ScriptCall δ}
  {found : Option (ScriptMetadata δ)} {document : Option (JsonValue δ)}

omit [CDouble δ] in
theorem dbMatches_script {doc : JsonValue δ} (member : collection ∈ scriptCollections)
    (matched : dbMatches (ascii "default")
      (some (documentQuery (ascii "default") collection id)) doc = true) : FoundAsScript doc := by
  rw [dbMatches, Bool.and_eq_true, beq_iff_eq] at matched
  refine ⟨matched.1, collection, member, ?_⟩
  have fields := List.all_eq_true.mp (show ([ascii "uuid", ascii "library", ascii "type"].all
    (dbFieldMatches (documentQuery (ascii "default") collection id) doc)) = true from matched.2)
  have typed := fields (ascii "type") (by simp)
  have asked : jsonObjectGet (documentQuery (ascii "default") collection id : JsonValue δ)
      (ascii "type") = some (.string collection) := rfl
  rw [dbFieldMatches, asked] at typed
  split at typed
  · rename_i wanted held same found
    rw [found]
    cases same
    exact congrArg some (beq_iff_eq.mp typed)
  · rename_i same _
    cases same
  · rename_i same _
    cases same
  · cases typed

theorem HidesScripts.query (hides : HidesScripts db) (member : collection ∈ scriptCollections)
    {result : JsonValue δ}
    (queried : dbQueryDocuments db (ascii "default") collection
      (some (documentQuery (ascii "default") collection id)) = some (result, next)) :
    foundDocuments result = [] ∧ HidesScripts next := by
  let key := generateQueryCacheKeyFast (ascii "default") collection
    (some (documentQuery (ascii "default") collection id : JsonValue δ))
  have touched : CacheObeys (cacheGet db.queryCache key).2 EmptyForScripts :=
    cacheGet_obeys hides.queryCache key
  simp only [dbQueryDocuments] at queried
  split at queried
  · rename_i cachedResult cached
    cases queried
    obtain ⟨held, same, lawful⟩ := cacheGet_lawful hides.queryCache cached
    exact ⟨lawful collection member id same, { hides with queryCache := touched }⟩
  · obtain ⟨documents, scanned, same⟩ := Option.map_eq_some_iff.mp queried
    cases same
    rw [scanDocuments_eq] at scanned
    split_ifs at scanned
    have nothing : documents = [] := by
      rw [← Option.some.inj scanned, List.filter_eq_nil_iff]
      exact fun doc listed matched => hides.stored doc listed (dbMatches_script member matched)
    rw [nothing]
    exact ⟨rfl, { hides with queryCache := cachePut_obeys touched fun _ _ _ _ _ _ => rfl }⟩

theorem HidesScripts.getStoredDocument (hides : HidesScripts db)
    (member : collection ∈ scriptCollections)
    (got : dbGetStoredDocument db (ascii "default") collection id = some (document, next)) :
    document = none ∧ HidesScripts next := by
  obtain ⟨⟨result, queried⟩, answered, same⟩ := Option.map_eq_some_iff.mp got
  obtain ⟨nothing, kept⟩ := hides.query member answered
  rw [foundDocuments] at nothing
  split at same
  · rename_i first others found
    rw [found] at nothing
    cases nothing
  · cases same
    exact ⟨rfl, kept⟩

omit [CDouble δ] in
theorem not_matchesLibraryAndType {doc : JsonValue δ} (member : collection ∈ scriptCollections)
    (notScript : ¬ FoundAsScript doc) :
    matchesLibraryAndType doc (ascii "default") collection ≠ some true := by
  intro same
  rw [matchesLibraryAndType] at same
  split at same
  · rename_i docLibrary docType library type
    obtain ⟨sameLibrary, compared, rest⟩ := Option.bind_eq_some_iff.mp same
    obtain ⟨heldLibrary, namedLibrary, rfl⟩ := Option.map_eq_some_iff.mp compared
    split_ifs at rest with equal
    · obtain ⟨heldType, namedType, typed⟩ := Option.map_eq_some_iff.mp rest
      refine notScript ⟨?_, collection, member, ?_⟩
      · rw [library, namedLibrary, beq_iff_eq.mp equal]
      · rw [type, namedType, beq_iff_eq.mp typed]
    · cases rest
  · cases same

theorem HidesScripts.getDocument (hides : HidesScripts db)
    (member : collection ∈ scriptCollections)
    (got : dbGetDocument db (ascii "default") collection id = some (document, next)) :
    document = none ∧ HidesScripts next := by
  have touched : HidesScripts
      { db with docCache := (cacheGet db.docCache (generateDocCacheKeyFast id)).2 } :=
    { hides with docCache := cacheGet_obeys hides.docCache (generateDocCacheKeyFast id) }
  simp only [dbGetDocument] at got
  split at got
  · rename_i doc cached
    obtain ⟨held, _, notScript⟩ := cacheGet_lawful hides.docCache cached
    obtain ⟨same, compared, rest⟩ := Option.bind_eq_some_iff.mp got
    cases same with
    | true => exact absurd compared (not_matchesLibraryAndType member notScript)
    | false => exact touched.getStoredDocument member rest
  · exact touched.getStoredDocument member got

theorem HidesScripts.findScript {metadata : ScriptMetadata δ} :
    ∀ {collections : List Bytes} {db : Database δ}, HidesScripts db →
      (∀ collection ∈ collections, collection ∈ scriptCollections) →
        Jdbx.findScript metadata id collections db = some (found, next) →
          found = none ∧ HidesScripts next := by
  intro collections
  induction collections with
  | nil =>
      intro db hides _ got
      cases got
      exact ⟨rfl, hides⟩
  | cons collection collections ih =>
      intro db hides within got
      obtain ⟨⟨document, queried⟩, answered, rest⟩ := Option.bind_eq_some_iff.mp got
      obtain ⟨rfl, kept⟩ := hides.getDocument (within collection List.mem_cons_self) answered
      exact ih kept
        (fun other member => within other (List.mem_cons_of_mem _ member)) rest

theorem HidesScripts.getScript (hides : HidesScripts db)
    (got : Jdbx.getScript call db id = some (found, next)) :
    found = none ∧ HidesScripts next :=
  hides.findScript (fun _ member => member) got

theorem HidesScripts.not_gets (hides : HidesScripts db) (metadata : ScriptMetadata δ) :
    ¬ Gets db id metadata := by
  rintro ⟨call, next, got⟩
  cases (hides.getScript got).1

omit [CDouble δ] in
theorem setClone_object (entries : List (Bytes × JsonValue δ)) (key : Bytes)
    (value : Option (JsonValue δ)) :
    ∃ others, setClone (.object entries) key value = .object others := by
  cases value with
  | none => exact ⟨entries, rfl⟩
  | some value => exact ⟨_, rfl⟩

omit [CDouble δ] in
theorem scriptMetadataToJson_object (metadata : ScriptMetadata δ) :
    ∃ entries, scriptMetadataToJson metadata = .object entries := by
  simp only [scriptMetadataToJson, jsonObjectSet]
  generalize setEntry (ascii "trigger_type") _ _ = entries
  obtain ⟨tagged, equal⟩ := setClone_object entries (ascii "trigger_tags") metadata.triggerTags
  simp only [equal]
  generalize setEntry (ascii "enabled") _ _ = entries
  obtain ⟨permitted, equal⟩ :=
    setClone_object entries (ascii "rbac_permissions") metadata.rbacPermissions
  rw [equal]
  exact setClone_object permitted (ascii "execution_stats") metadata.executionStats

theorem HidesScripts.perform (hides : HidesScripts db)
    {expected : List (Bytes × ScriptMetadata δ)} {event : ScriptEvent δ} {success : Bool}
    {after : ScriptState δ} (nothing : InsertsNothing (call, event))
    (performed : performScript { db := db, expected := expected } (call, event) =
      some (success, after)) :
    success = false ∧ HidesScripts after.db ∧ after.expected = expected := by
  cases event with
  | store userId metadata =>
      have failed : storeScript call db userId metadata =
          (false, (storeScript call db userId metadata).2.1, db) := by
        simp only [storeScript]
        split
        · rename_i collectionName moment named written
          rcases nothing with unnamed | unwritten
          · rw [unnamed] at named
            cases named
          · rw [unwritten] at written
            cases written
        · rfl
      rw [performScript, failed] at performed
      cases performed
      exact ⟨rfl, hides, rfl⟩
  | update userId scriptId metadata =>
      obtain ⟨updated, returned, same⟩ := Option.map_eq_some_iff.mp performed
      obtain ⟨⟨found, next⟩, got, rfl⟩ := Option.map_eq_some_iff.mp returned
      obtain ⟨rfl, kept⟩ := hides.getScript got
      cases same
      exact ⟨rfl, kept, rfl⟩
  | delete userId scriptId =>
      obtain ⟨deleted, returned, same⟩ := Option.map_eq_some_iff.mp performed
      obtain ⟨⟨found, next⟩, got, rfl⟩ := Option.map_eq_some_iff.mp returned
      obtain ⟨rfl, kept⟩ := hides.getScript got
      cases same
      exact ⟨rfl, kept, rfl⟩

theorem storeScript_eq (db : Database δ) (userId : Bytes) {metadata : ScriptMetadata δ}
    {collectionName : Bytes} {moment : Moment}
    (named : scriptTypeToCollection metadata.type = some collectionName)
    (written : call.write = some moment) :
    storeScript call db userId metadata =
      (true, (storeScript call db userId metadata).2.1,
        (Jdbx.virtualInsert moment db (scriptTypeToString metadata.type) (ascii "system")
          (some (afterLastSlash collectionName))
          (scriptMetadataToJson (storeScript call db userId metadata).2.1) userId).2) := by
  simp only [storeScript, named, written]

variable (prints : ∀ number : δ, PrintsNumber number)
include prints

theorem HidesScripts.virtualInsert (hides : HidesScripts db) (moment : Moment)
    (typeName collection owner : Bytes) (entries : List (Bytes × JsonValue δ)) :
    HidesScripts (Jdbx.virtualInsert moment db typeName (ascii "system") (some collection)
      (.object entries) owner).2 := by
  refine { hides with stored := ?_ }
  intro doc listed
  obtain ⟨entry, member, stored⟩ := List.mem_filterMap.mp listed
  rcases mem_skiplistInsert member with before | rfl
  · exact hides.stored doc (List.mem_filterMap.mpr ⟨entry, before, stored⟩)
  · rintro ⟨library, _⟩
    obtain ⟨copied, layout, _⟩ := jsonDeepCopy_object entries
    have isCopy : IsJsonObject (jsonDeepCopy (.object entries : JsonValue δ)) :=
      ⟨copied, layout, _, jsonDeepCopyInternalSafe_copyable _ _⟩
    have isTyped := isCopy.set (ascii "type") (distinctKeys_string typeName)
    have isPlaced := isTyped.set (ascii "library") (distinctKeys_string (ascii "system"))
    have isCollected := isPlaced.set (ascii "collection") (distinctKeys_string collection)
    have isInserted : IsJsonObject (virtualInserted typeName (ascii "system") (some collection)
        (.object entries : JsonValue δ) owner) :=
      isCollected.set (ascii "owner") (distinctKeys_string owner)
    have held : jsonObjectGet (storageInserted moment (virtualInserted typeName (ascii "system")
        (some collection) (.object entries : JsonValue δ) owner)) (ascii "library") =
          some (.string (ascii "system")) := by
      rw [storageInserted_get isInserted (by decide) (by decide) (by decide), virtualInserted,
        Option.getD_some, isCollected.get_set, if_neg (by decide), isPlaced.get_set,
        if_neg (by decide), isTyped.get_set, if_pos rfl]
      rfl
    have named := storedDocument_string prints (storageInserted_isObject isInserted moment) stored
      (by decide) held
    exact absurd (named.symm.trans library) (by decide)

theorem keepsScripts_iff {state : ScriptState δ} (hides : HidesScripts state.db)
    (none : state.expected = []) (event : ScriptCall δ × ScriptEvent δ) :
    KeepsScripts state event ↔ InsertsNothing event := by
  obtain ⟨db, expected⟩ := state
  obtain rfl : expected = [] := none
  obtain ⟨call, event⟩ := event
  constructor
  · intro keeps
    cases event with
    | store userId metadata =>
        by_contra inserts
        rw [InsertsNothing, not_or] at inserts
        obtain ⟨collectionName, named⟩ := Option.ne_none_iff_exists'.mp inserts.1
        obtain ⟨moment, written⟩ := Option.ne_none_iff_exists'.mp inserts.2
        have result := storeScript_eq db userId named written
        obtain ⟨entries, object⟩ :=
          scriptMetadataToJson_object (storeScript call db userId metadata).2.1
        have hidden := hides.virtualInsert prints moment (scriptTypeToString metadata.type)
          (afterLastSlash collectionName) userId entries
        rw [← object] at hidden
        have performed : performScript { db := db, expected := [] }
            (call, .store userId metadata) = some (true,
              { db := (Jdbx.virtualInsert moment db (scriptTypeToString metadata.type)
                  (ascii "system") (some (afterLastSlash collectionName))
                  (scriptMetadataToJson (storeScript call db userId metadata).2.1) userId).2
                expected := [((storeScript call db userId metadata).2.1.id,
                  (storeScript call db userId metadata).2.1)] }) := by
          rw [performScript, result]
          rfl
        have returned := (keeps true _ performed).1 _ _ (getEntry_setEntry_self _ _ [])
        exact hidden.not_gets _ returned
    | _ => trivial
  · intro nothing success next performed
    obtain ⟨rfl, _, same⟩ := hides.perform nothing performed
    refine ⟨fun scriptId metadata held => ?_, fun absurdity => by cases absurdity⟩
    rw [same] at held
    cases held

/-- The runs that keep the scripts are those that store none. -/
theorem scripts_kept_iff {state : ScriptState δ} (hides : HidesScripts state.db)
    (none : state.expected = []) (events : List (ScriptCall δ × ScriptEvent δ)) :
    EveryStep scriptStep KeepsScripts state events ↔
      EveryStep scriptStep (fun _ event => InsertsNothing event) state events := by
  have keeps : Keeps scriptStep (fun _ event => InsertsNothing event)
      fun state : ScriptState δ => HidesScripts state.db ∧ state.expected = [] := by
    intro state event next holds nothing taken
    obtain ⟨⟨success, after⟩, performed, rfl⟩ := Option.map_eq_some_iff.mp taken
    obtain ⟨_, kept, same⟩ := holds.1.perform nothing performed
    exact ⟨kept, same.trans holds.2⟩
  apply EveryStep.iff_of_keeps keeps ?_ ⟨hides, none⟩
  exact fun state event holds => keepsScripts_iff prints holds.1 holds.2 event

end Hidden

def emptyScripts : ScriptState Rat :=
  { db := { documents := .empty, queryCache := none, docCache := none }
    expected := [] }

theorem emptyScripts_hides : HidesScripts emptyScripts.db where
  stored doc listed := by cases listed
  docCache held same := by cases same
  queryCache held same := by cases same

def totalScript : ScriptMetadata Rat :=
  { id := ascii "s1"
    name := ascii "total"
    description := []
    type := .function
    collectionPattern := ascii "*"
    triggerType := 4
    triggerTags := some (.array [])
    scriptCode := some (ascii "return 1;")
    createdBy := []
    createdAt := 100
    updatedAt := 100
    version := 1
    enabled := true
    rbacPermissions := some (.array [])
    executionStats := some (.object []) }

def scriptCall : ScriptCall Rat :=
  { memory := totalScript
    now := 100
    generatedId := ascii "doc-100-0-0"
    write := some ⟨100, 7⟩ }

/-- Without the insertion nothing is broken, and with it the script is gone. -/
theorem scripts_kept_iff_total :
    EveryStep scriptStep KeepsScripts emptyScripts
        [(scriptCall, .delete (ascii "alice") (ascii "s1"))] ∧
      ¬ EveryStep scriptStep KeepsScripts emptyScripts
        [(scriptCall, .store (ascii "alice") totalScript)] := by
  constructor
  · rw [scripts_kept_iff printsNumber_rat emptyScripts_hides rfl]
    exact ⟨trivial, fun _ _ => trivial⟩
  · rw [scripts_kept_iff printsNumber_rat emptyScripts_hides rfl]
    intro nothing
    rcases nothing.1 with unnamed | unwritten
    · cases unnamed
    · cases unwritten

/-- `alice` stores a function and asks for it. -/
theorem not_scripts_kept :
    ¬ ∀ events : List (ScriptCall Rat × ScriptEvent Rat),
      EveryStep scriptStep KeepsScripts emptyScripts events := by
  intro claim
  have kept := (claim [(scriptCall, .store (ascii "alice") totalScript)]).1
  rcases (keepsScripts_iff printsNumber_rat emptyScripts_hides rfl _).mp kept with
    unnamed | unwritten
  · cases unnamed
  · cases unwritten

end Jdbx
