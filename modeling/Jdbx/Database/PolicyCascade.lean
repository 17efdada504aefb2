import Jdbx.Database.VersioningPolicy

/-!
# The cascade of versioning settings

A policy starts from `DEFAULT_POLICY`, and the settings of the library, of the
collection and of the document are laid over it in this order.  No settings stand
above those of the library.
-/

namespace Jdbx

open Library

variable {δ : Type}

/-! ## Settings by level -/

def levelFlag (key : Bytes) (level : JsonValue δ) : Option Bool :=
  match jsonObjectGet level key with
  | some (.boolean flag) => some flag
  | _ => none

def DescribesNamed (type library collection name : Bytes) (document : JsonValue δ) : Prop :=
  jsonGetString (jsonObjectGet document (ascii "type")) = some type ∧
    jsonGetString (jsonObjectGet document (ascii "library")) = some library ∧
    jsonGetString (jsonObjectGet document (ascii "collection")) = some collection ∧
    jsonGetString (jsonObjectGet document (ascii "name")) = some name

instance (type library collection name : Bytes) (document : JsonValue δ) :
    Decidable (DescribesNamed type library collection name document) :=
  inferInstanceAs (Decidable (_ ∧ _ ∧ _ ∧ _))

def versioningSettings (document : JsonValue δ) : Option (JsonValue δ) :=
  (jsonObjectGet document (ascii "settings")).bind (jsonObjectGet · (ascii "versioning"))

def settingsOf (store : DocumentStore δ) (type library collection name : Bytes) :
    Option (JsonValue δ) :=
  ((store.documents.map Prod.snd).find? fun document =>
    DescribesNamed type library collection name document).bind versioningSettings

def librarySettings (store : DocumentStore δ) (library : Bytes) : Option (JsonValue δ) :=
  settingsOf store (ascii "library") (ascii "default") (ascii "libraries") library

def collectionSettings (store : DocumentStore δ) (library : Option Bytes) (collection : Bytes) :
    Option (JsonValue δ) :=
  settingsOf store (ascii "collection") (library.getD (ascii "default")) (ascii "collections")
    collection

def documentSettings (document : JsonValue δ) : Option (JsonValue δ) :=
  jsonObjectGet document (ascii "_versioning")

section Cascade

variable [CDouble δ]

def levelCount (key : Bytes) (level : JsonValue δ) : Option Int32 :=
  match jsonObjectGet level key with
  | some (.number count) => some (CDouble.toInt32 count)
  | some (.integer count) => some count.toInt32
  | _ => none

/-- Every field as the first of the levels has it that sets it. -/
def cascadedPolicy (levels : List (JsonValue δ)) : VersioningPolicy where
  enabled := (levels.findSome? (levelFlag (ascii "enabled"))).getD defaultPolicy.enabled
  maxVersions :=
    (levels.findSome? (levelCount (ascii "maxVersions"))).getD defaultPolicy.maxVersions
  retentionDays :=
    (levels.findSome? (levelCount (ascii "retentionDays"))).getD defaultPolicy.retentionDays
  versionOnUpdate :=
    (levels.findSome? (levelFlag (ascii "versionOnUpdate"))).getD defaultPolicy.versionOnUpdate
  versionOnDelete :=
    (levels.findSome? (levelFlag (ascii "versionOnDelete"))).getD defaultPolicy.versionOnDelete
  compressionEnabled :=
    (levels.findSome? (levelFlag (ascii "compressionEnabled"))).getD
      defaultPolicy.compressionEnabled
  archiveOldVersions :=
    (levels.findSome? (levelFlag (ascii "archiveOldVersions"))).getD
      defaultPolicy.archiveOldVersions
  archiveAfterDays :=
    (levels.findSome? (levelCount (ascii "archiveAfterDays"))).getD
      defaultPolicy.archiveAfterDays

omit [CDouble δ] in
theorem loadFlag_findSome (json : JsonValue δ) (levels : List (JsonValue δ)) (key : Bytes)
    (flag : Bool) :
    loadFlag json key ((levels.findSome? (levelFlag key)).getD flag) =
      ((json :: levels).findSome? (levelFlag key)).getD flag := by
  rw [List.findSome?_cons, loadFlag, levelFlag]
  cases jsonObjectGet json key with
  | none => rfl
  | some value => cases value <;> rfl

theorem loadCount_findSome (json : JsonValue δ) (levels : List (JsonValue δ)) (key : Bytes)
    (count : Int32) :
    loadCount json key ((levels.findSome? (levelCount key)).getD count) =
      ((json :: levels).findSome? (levelCount key)).getD count := by
  rw [List.findSome?_cons, loadCount, levelCount]
  cases jsonObjectGet json key with
  | none => rfl
  | some value => cases value <;> rfl

theorem loadPolicyFromJson_cascaded (json : JsonValue δ) (levels : List (JsonValue δ)) :
    loadPolicyFromJson (cascadedPolicy levels) json = cascadedPolicy (json :: levels) := by
  cases json with
  | object fields =>
      simp only [loadPolicyFromJson, cascadedPolicy, loadFlag_findSome, loadCount_findSome]
  | _ => rfl

theorem storageFieldMatches_asked {query document : JsonValue δ} {key text : Bytes}
    (asked : jsonObjectGet query key = some (.string text)) :
    storageFieldMatches query document key =
      decide (jsonGetString (jsonObjectGet document key) = some text) := by
  rw [storageFieldMatches, asked]
  cases held : jsonObjectGet document key with
  | none => rfl
  | some value =>
      cases value with
      | string stored => simp [jsonGetString, beq_eq_decide, eq_comm]
      | _ => rfl

theorem matchesQuery_named (type library collection name : Bytes) (document : JsonValue δ) :
    matchesQuery storageFieldMatches
        (unifiedQuery type library (some collection) (.object [(ascii "name", .string name)]))
        document =
      decide (DescribesNamed type library collection name document) := by
  have query : unifiedQuery type library (some collection)
      (.object [(ascii "name", (.string name : JsonValue δ))]) =
        .object [(ascii "type", .string type), (ascii "library", .string library),
          (ascii "collection", .string collection), (ascii "name", .string name)] := rfl
  rw [query, matchesQuery]
  simp only [jsonObjectGetKeys, entryKeys, List.map_cons, List.map_nil, List.all_cons,
    List.all_nil, Bool.and_true]
  rw [storageFieldMatches_asked rfl, storageFieldMatches_asked rfl, storageFieldMatches_asked rfl,
    storageFieldMatches_asked rfl]
  apply Bool.eq_iff_iff.mpr
  simp only [DescribesNamed, Bool.and_eq_true, decide_eq_true_eq]
  exact decide_eq_true_iff.symm

theorem foundDocuments_named (store : DocumentStore δ) (type library collection name : Bytes) :
    (foundDocuments (store.query type library collection
      (.object [(ascii "name", .string name)]))).head? =
      (store.documents.map Prod.snd).find? fun document =>
        DescribesNamed type library collection name document := by
  have matched : matchesQuery storageFieldMatches
      (unifiedQuery type library (some collection) (.object [(ascii "name", .string name)])) =
        fun document : JsonValue δ =>
          decide (DescribesNamed type library collection name document) :=
    funext (matchesQuery_named type library collection name)
  rw [DocumentStore.query, matched]
  exact List.head?_filter

theorem overrideFromSettings_cascaded (store : DocumentStore δ)
    (type library collection name : Bytes) (levels : List (JsonValue δ)) :
    overrideFromSettings (cascadedPolicy levels)
        (store.query type library collection (.object [(ascii "name", .string name)])) =
      cascadedPolicy ((settingsOf store type library collection name).toList ++ levels) := by
  rw [settingsOf, ← foundDocuments_named, overrideFromSettings]
  cases foundDocuments
      (store.query type library collection (.object [(ascii "name", .string name)])) with
  | nil => rfl
  | cons first rest =>
      simp only [List.head?_cons, Option.bind_some, versioningSettings]
      cases (jsonObjectGet first (ascii "settings")).bind
          (jsonObjectGet · (ascii "versioning")) with
      | none => rfl
      | some versioning => exact loadPolicyFromJson_cascaded versioning levels

def libraryLevel (store : DocumentStore δ) (library : Option Bytes) : List (JsonValue δ) :=
  (library.bind (librarySettings store)).toList

def collectionLevels (store : DocumentStore δ) (library : Option Bytes) (collection : Bytes) :
    List (JsonValue δ) :=
  (collectionSettings store library collection).toList ++ libraryLevel store library

def documentLevels (store : DocumentStore δ) (library : Option Bytes) (collection : Bytes)
    (document : JsonValue δ) : List (JsonValue δ) :=
  (documentSettings document).toList ++ collectionLevels store library collection

theorem versioningPolicyGetLibrary_eq (store : DocumentStore δ) (library : Bytes) :
    versioningPolicyGetLibrary store library =
      cascadedPolicy (libraryLevel store (some library)) := by
  have cascaded := overrideFromSettings_cascaded store (ascii "library") (ascii "default")
    (ascii "libraries") library []
  rw [List.append_nil] at cascaded
  exact cascaded

theorem versioningPolicyGetCollection_eq (store : DocumentStore δ) (library : Option Bytes)
    (collection : Bytes) :
    versioningPolicyGetCollection store library collection =
      cascadedPolicy (collectionLevels store library collection) := by
  have override := overrideFromSettings_cascaded store (ascii "collection")
    (library.getD (ascii "default")) (ascii "collections") collection (libraryLevel store library)
  cases library with
  | none => exact override
  | some library =>
      rw [← versioningPolicyGetLibrary_eq] at override
      exact override

end Cascade

/-- A policy takes what no library, collection or document sets from the settings of the
library `system`. -/
def CascadesFromSystem [CDouble δ] (store : DocumentStore δ) (library : Option Bytes)
    (collection : Bytes) (document : JsonValue δ) : Prop :=
  versioningPolicyGetDocument store library collection document =
    cascadedPolicy (documentLevels store library collection document ++
      (settingsOf store (ascii "library") (ascii "system") (ascii "libraries")
        (ascii "system")).toList)

/-- A store that turns versions on for the library `system`. -/
def systemVersioned : DocumentStore Rat where
  documents := [(ascii "1", .object
    [(ascii "type", .string (ascii "library")),
      (ascii "library", .string (ascii "system")),
      (ascii "collection", .string (ascii "libraries")),
      (ascii "name", .string (ascii "system")),
      (ascii "settings", .object
        [(ascii "versioning", .object [(ascii "enabled", .boolean true)])])])]
  distinct := List.nodup_singleton _

end Jdbx
