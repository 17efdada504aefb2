import Mathlib.Algebra.Order.BigOperators.Group.List
import Jdbx.Database.StoredIdentity
import Jdbx.Utils.JsonEquality

/-!
# What an update leaves alone

The three update functions on one document: the fields that the patch names have its values
afterwards, all others are what they were, and the buffer of the search is released once.
The document that is there after an update is the one that is read back.
-/

namespace Jdbx

open Library

variable {δ : Type}

/-! ## Calls on one document -/

/-- An update of one document. -/
inductive DocumentUpdate (δ : Type) where
  | storageUpdateDocument (document : JsonObject δ)
  | virtualUpdate (document : JsonObject δ)
  | dbUpdateDocument (library collection : Bytes) (update : JsonObject δ)

namespace DocumentUpdate

def patch : DocumentUpdate δ → JsonValue δ
  | .storageUpdateDocument document | .virtualUpdate document
  | .dbUpdateDocument _ _ document => document.value

def isProtected : DocumentUpdate δ → Bytes → Bool
  | .dbUpdateDocument _ _ _ => isMandatoryField
  | .storageUpdateDocument _ | .virtualUpdate _ => fun _ => false

def stamps : DocumentUpdate δ → List Bytes
  | .virtualUpdate _ => [ascii "modified_at", ascii "updated_at"]
  | .storageUpdateDocument _ | .dbUpdateDocument _ _ _ => [ascii "modified_at"]

/-- The call on the document under `uuid`. -/
def storeCall (uuid : Bytes) : DocumentUpdate δ → StoreCall δ
  | .storageUpdateDocument document => .storageUpdateDocument uuid document
  | .virtualUpdate document => .virtualUpdate uuid document
  | .dbUpdateDocument library collection update => .dbUpdateDocument library collection uuid update

def copy : DocumentUpdate δ → JsonValue δ → JsonValue δ
  | .storageUpdateDocument _, value => jsonClone value
  | .virtualUpdate _, value => jsonClone (jsonDeepCopyInternalSafe maxRecursionDepth value)
  | .dbUpdateDocument _ _ _, value => jsonDeepCopy value

/-- The document that the call writes over `existing`. -/
def merged (moment : Moment) (existing : JsonValue δ) : DocumentUpdate δ → JsonValue δ
  | .storageUpdateDocument document => updatedDocument moment document.value existing
  | .virtualUpdate document => updatedDocument moment (virtualPatch moment document.value) existing
  | .dbUpdateDocument _ _ update => dbUpdated moment update.value existing

def named (call : DocumentUpdate δ) (key : Bytes) : Option (JsonValue δ) :=
  if call.isProtected key then none else jsonObjectGet call.patch key

def wanted (call : DocumentUpdate δ) (before : JsonValue δ) (key : Bytes) : Option (JsonValue δ) :=
  (call.named key).or (jsonObjectGet before key)

end DocumentUpdate

section Calls

variable [CDouble δ]

/-- The update: what it returns and the database after it, unless the process ends. -/
def performUpdate (uuid : Bytes) (db : Database δ) :
    Moment × DocumentUpdate δ → Option (Option (JsonValue δ) × Database δ)
  | (moment, .storageUpdateDocument document) =>
    some (storageUpdateDocument moment db uuid document.value)
  | (moment, .virtualUpdate document) => some (virtualUpdate moment db uuid document.value)
  | (moment, .dbUpdateDocument library collection update) =>
    dbUpdateDocument moment db library collection uuid update.value

def documentUpdateStep (uuid : Bytes) (db : Database δ) (event : Moment × DocumentUpdate δ) :
    Option (Database δ) :=
  (performUpdate uuid db event).map Prod.snd

/-- How often `storage_update_document` releases the buffer of its search. -/
def storageUpdateReleases (db : Database δ) (uuid : Bytes) : Nat :=
  match skiplistSearch db.documents uuid with
  | some _ => 1
  | none => 0

/-- How often `db_update_document` releases the buffer of its search: behind `json_parse`,
and again for a document of another library or type. -/
def dbUpdateReleases (db : Database δ) (library collection id : Bytes) : Nat :=
  match skiplistSearch db.documents id with
  | none => 0
  | some rawData =>
    match (jsonParse rawData : Option (JsonValue δ)) with
    | none => 1
    | some existingDoc =>
      if matchesLibraryAndType existingDoc library collection = some false then 2 else 1

def bufferReleases (uuid : Bytes) (db : Database δ) : DocumentUpdate δ → Nat
  | .storageUpdateDocument _ | .virtualUpdate _ => storageUpdateReleases db uuid
  | .dbUpdateDocument library collection _ => dbUpdateReleases db library collection uuid

/-- `json_equals` of two fields, if they are there. -/
def SameField : Option (JsonValue δ) → Option (JsonValue δ) → Prop
  | some value, some other => jsonEquals value other = true
  | none, none => True
  | _, _ => False

/-- The document has the fields of the patch, and its others as before, none twice. -/
structure FieldsUpdated (call : DocumentUpdate δ) (before after : JsonValue δ) : Prop where
  isObject : IsJsonObject after
  fields : ∀ key, key ∉ call.stamps → SameField (jsonObjectGet after key) (call.wanted before key)

/-- The call returns, it releases the buffer of its search once, without an answer it changes
nothing, and with one it leaves the document as it should be. -/
def UpdatesRight (uuid : Bytes) (db : Database δ) (event : Moment × DocumentUpdate δ) : Prop :=
  ∃ answer next, performUpdate uuid db event = some (answer, next) ∧
    bufferReleases uuid db event.2 = (skiplistSearch db.documents uuid).toList.length ∧
      match answer with
      | none => next = db
      | some _ => ∃ before after, storageGetDocument db uuid = some before ∧
          storageGetDocument next uuid = some after ∧ FieldsUpdated event.2 before after

def RereadsEqual (value : JsonValue δ) : Prop :=
  jsonEquals (rereadValue value) value = true

def DocumentUpdate.Matches (existing : JsonValue δ) : DocumentUpdate δ → Prop
  | .dbUpdateDocument library collection _ =>
    matchesLibraryAndType existing library collection = some true
  | .storageUpdateDocument _ | .virtualUpdate _ => True

/-- The condition on one call: a document that is there is of the library and type that are
named, and together with the patch it is read back, its keys unescaped and its values equal. -/
def UpdatesSteadily (uuid : Bytes) (db : Database δ) (event : Moment × DocumentUpdate δ) : Prop :=
  ∀ existing ∈ storageGetDocument db uuid, event.2.Matches existing ∧
    ReadsBack (event.2.merged event.1 existing) ∧
      ∀ key value, key ∉ event.2.stamps → event.2.wanted existing key = some value →
        Plain key ∧ RereadsEqual value

end Calls

section Copies

theorem copyable_of_copy : ∀ {levels more : Nat} {value : JsonValue δ}, levels ≤ more →
    DistinctKeys value → Copyable levels (jsonDeepCopyInternalSafe more value) →
      Copyable more value := by
  intro levels more
  induction more generalizing levels with
  | zero =>
    intro value within _ copyable
    obtain rfl := Nat.le_zero.mp within
    exact copyable.elim
  | succ more ih =>
    intro value within distinct copyable
    obtain ⟨depth, deep⟩ := distinct
    cases levels with
    | zero => exact copyable.elim
    | succ levels =>
      cases depth with
      | zero => exact deep.elim
      | succ depth =>
        cases value with
        | array items =>
          intro item member
          have inner := copyable _ (List.mem_map_of_mem member)
          exact ih (by omega) ⟨depth, deep item member⟩ inner
        | object entries =>
          have copied := foldl_setEntry_of_nodup
            (entries.map fun entry => (entry.1, jsonDeepCopyInternalSafe more entry.2)) []
            (by simpa [entryKeys, Function.comp_def] using deep.1)
          rw [List.foldl_map, List.nil_append] at copied
          rw [jsonDeepCopyInternalSafe, copied] at copyable
          refine ⟨deep.1, fun entry member => ?_⟩
          have inner := copyable.2 _ (List.mem_map_of_mem member)
          exact ih (by omega) ⟨depth, deep.2 entry member⟩ inner
        | null | boolean _ | number _ | integer _ | string _ => trivial

variable [CDouble δ]

theorem copyable_of_reread : ∀ {levels : Nat} {value : JsonValue δ}, DistinctKeys value →
    Copyable levels (rereadValue value) → Copyable levels value := by
  intro levels
  induction levels with
  | zero =>
    intro value _ copyable
    exact copyable.elim
  | succ levels ih =>
    intro value distinct copyable
    obtain ⟨depth, deep⟩ := distinct
    cases depth with
    | zero => exact deep.elim
    | succ depth =>
      cases value with
      | array items =>
        rw [rereadValue, rereadItems_eq_map] at copyable
        intro item member
        exact ih ⟨depth, deep item member⟩
          (copyable _ (List.mem_map_of_mem member))
      | object entries =>
        rw [rereadValue, rereadEntries_eq_map] at copyable
        refine ⟨deep.1, fun entry member => ?_⟩
        exact ih ⟨depth, deep.2 entry member⟩
          (copyable.2 _ (List.mem_map_of_mem member))
      | null | boolean _ | number _ | integer _ | string _ => trivial

end Copies

/-! ## Fields -/

section Fields

variable {call : DocumentUpdate δ} {moment : Moment} {existing object : JsonValue δ} {key : Bytes}

theorem DocumentUpdate.patch_isObject (call : DocumentUpdate δ) : IsJsonObject call.patch := by
  cases call with
  | storageUpdateDocument document | virtualUpdate document
  | dbUpdateDocument _ _ document => exact document.isObject

theorem DocumentUpdate.named_distinct {value : JsonValue δ} (named : call.named key = some value) :
    DistinctKeys value := by
  rw [DocumentUpdate.named] at named
  split_ifs at named
  obtain ⟨entries, layout, levels, copyable⟩ := call.patch_isObject
  rw [layout] at named copyable
  cases levels with
  | zero => exact copyable.elim
  | succ levels => exact ⟨levels, copyable.2 (key, value) (mem_of_getEntry_eq_some named)⟩

theorem DocumentUpdate.copy_eq_self {levels : Nat} {value : JsonValue δ}
    (within : levels ≤ maxRecursionDepth) (distinct : DistinctKeys value)
    (copyable : Copyable levels (call.copy value)) : call.copy value = value := by
  cases call with
  | storageUpdateDocument document =>
    obtain ⟨depth, deep⟩ := distinct
    exact jsonClone_eq_self_of_copyable deep
  | virtualUpdate document =>
    have cloned := jsonClone_eq_self_of_copyable
      (jsonDeepCopyInternalSafe_copyable maxRecursionDepth value)
    rw [DocumentUpdate.copy, cloned] at copyable ⊢
    exact jsonDeepCopyInternalSafe_eq_self (copyable_of_copy within distinct copyable)
  | dbUpdateDocument library collection update =>
    have whole : Copyable (maxRecursionDepth + 1) value :=
      copyable_of_copy (by omega) distinct copyable
    exact jsonDeepCopy_eq_self (Nat.le_refl _) whole

theorem DocumentUpdate.merged_isObject (moment : Moment) (isExisting : IsJsonObject existing) :
    IsJsonObject (call.merged moment existing) := by
  cases call with
  | storageUpdateDocument document =>
    exact updatedDocument_isObject document.isObject isExisting moment
  | virtualUpdate document =>
    exact updatedDocument_isObject (virtualPatch_isObject document.isObject moment) isExisting
      moment
  | dbUpdateDocument library collection update =>
    exact dbUpdated_isObject update.isObject isExisting moment

theorem DocumentUpdate.merged_get (moment : Moment) (isExisting : IsJsonObject existing)
    (copied : jsonDeepCopy existing = existing) (unstamped : key ∉ call.stamps) :
    jsonObjectGet (call.merged moment existing) key =
      ((call.named key).map call.copy).or (jsonObjectGet existing key) := by
  cases call with
  | storageUpdateDocument document =>
    have notModified : key ≠ ascii "modified_at" := by
      simpa [DocumentUpdate.stamps] using unstamped
    rw [DocumentUpdate.merged, updatedDocument_get document.isObject isExisting notModified,
      ← isExisting.get_deepCopy, copied]
    rfl
  | virtualUpdate document =>
    have others : key ≠ ascii "modified_at" ∧ key ≠ ascii "updated_at" := by
      simpa [DocumentUpdate.stamps] using unstamped
    rw [DocumentUpdate.merged,
      updatedDocument_get (virtualPatch_isObject document.isObject moment) isExisting others.1,
      ← isExisting.get_deepCopy, copied, virtualPatch_get document.isObject others.2,
      Option.map_map]
    rfl
  | dbUpdateDocument library collection update =>
    have notModified : key ≠ ascii "modified_at" := by
      simpa [DocumentUpdate.stamps] using unstamped
    rw [DocumentUpdate.merged, dbUpdated, jsonObjectGet_set_of_ne _ notModified,
      isExisting.deepCopy.get_merge update.isObject, copied]
    by_cases held : isMandatoryField key = true
    · simp [DocumentUpdate.named, DocumentUpdate.isProtected, held]
    · simp only [DocumentUpdate.named, DocumentUpdate.isProtected, DocumentUpdate.patch, held]
      rfl

variable [CDouble δ]

theorem IsJsonObject.get_escaped (isObject : IsJsonObject object) (key : Bytes) :
    jsonObjectGet (rereadValue object) (escapeText key) =
      (jsonObjectGet object key).map rereadValue := by
  obtain ⟨entries, rfl, -⟩ := isObject
  change getEntry (escapeText key) (rereadEntries entries) = (getEntry key entries).map rereadValue
  induction entries with
  | nil => rfl
  | cons entry entries ih =>
    obtain ⟨other, value⟩ := entry
    simp only [rereadEntries, getEntry, escapeText_injective.eq_iff]
    split_ifs
    · rfl
    · exact ih

theorem IsJsonObject.get_of_reread (isObject : IsJsonObject object)
    (present : jsonObjectGet (rereadValue object) key ≠ none) :
    ∃ source, key = escapeText source ∧ jsonObjectGet object source ≠ none := by
  obtain ⟨entries, rfl, -⟩ := isObject
  have member : key ∈ entryKeys (rereadEntries entries) := by
    by_contra absent
    exact present (getEntry_eq_none_iff.mpr absent)
  rw [entryKeys_rereadEntries] at member
  obtain ⟨source, held, rfl⟩ := List.mem_map.mp member
  exact ⟨source, rfl, fun absent => getEntry_eq_none_iff.mp absent held⟩

theorem DocumentUpdate.merged_get_wanted (isExisting : IsJsonObject existing)
    (copied : jsonDeepCopy existing = existing)
    (shallow : Copyable (maxJsonRecursionDepth + 1) (rereadValue (call.merged moment existing)))
    (unstamped : key ∉ call.stamps) :
    jsonObjectGet (call.merged moment existing) key = call.wanted existing key := by
  have field := call.merged_get moment isExisting copied unstamped
  rw [field, DocumentUpdate.wanted]
  cases named : call.named key with
  | none => rfl
  | some value =>
    rw [named, Option.map_some, Option.some_or] at field
    obtain ⟨entries, layout, levels, deep⟩ := call.merged_isObject moment isExisting
    have whole := copyable_of_reread ⟨levels, deep⟩ shallow
    rw [layout] at field whole
    have inner := whole.2 _ (mem_of_getEntry_eq_some field)
    rw [Option.map_some, call.copy_eq_self (by decide) (call.named_distinct named) inner]

omit [CDouble δ] in
theorem DocumentUpdate.stamps_escaped (stamped : key ∈ call.stamps) :
    escapeText key = key := by
  have plain : Plain key := by
    cases call with
    | storageUpdateDocument _ | dbUpdateDocument _ _ _ =>
      rw [List.mem_singleton.mp stamped]
      decide
    | virtualUpdate _ => rcases List.mem_pair.mp stamped with rfl | rfl <;> decide
  exact (escapeText_eq_self_iff key).mpr plain

omit [CDouble δ] in
theorem length_lt_escapeText {text : Bytes} (escaped : ¬ Plain text) :
    text.length < (escapeText text).length := by
  induction text with
  | nil => exact absurd (fun byte member => absurd member List.not_mem_nil) escaped
  | cons byte text ih =>
    rw [escapeText_cons, List.length_append, List.length_cons]
    rcases escapeByte_cases byte with ⟨plain, same⟩ | ⟨-, letter, -, written⟩
    · have rest : ¬ Plain text := fun all => escaped (List.forall_mem_cons.mpr ⟨plain, all⟩)
      have shorter := ih rest
      rw [same, List.length_singleton]
      omega
    · have longer := escapeText_length text
      rw [written, List.length_cons, List.length_singleton]
      omega

omit [CDouble δ] in
theorem plain_of_escaped {keys : List Bytes} {holds : Bytes → Prop}
    (finite : ∀ key, holds key → key ∈ keys) (closed : ∀ key, holds key → holds (escapeText key))
    (held : holds key) :
    Plain key := by
  by_contra escaped
  have longer : ∀ bound : Nat, ∃ other, holds other ∧ ¬ Plain other ∧ bound ≤ other.length := by
    intro bound
    induction bound with
    | zero => exact ⟨key, held, escaped, Nat.zero_le _⟩
    | succ bound ih =>
      obtain ⟨other, holdsOther, notPlain, long⟩ := ih
      have stillEscaped : ¬ Plain (escapeText other) := by
        intro plain
        have same := escapeText_injective ((escapeText_eq_self_iff _).mpr plain)
        exact notPlain ((escapeText_eq_self_iff other).mp same)
      have shorter := length_lt_escapeText notPlain
      exact ⟨escapeText other, closed other holdsOther, stillEscaped, by omega⟩
  obtain ⟨other, holdsOther, -, long⟩ := longer ((keys.map List.length).sum + 1)
  have short : other.length ≤ (keys.map List.length).sum :=
    List.single_le_sum (fun _ _ => Nat.zero_le _) _ (List.mem_map_of_mem (finite other holdsOther))
  omega

/-- The update is right just where every field that should be there is steady. -/
theorem fieldsUpdated_iff (isExisting : IsJsonObject existing)
    (copied : jsonDeepCopy existing = existing)
    (isRead : IsJsonObject (rereadValue (call.merged moment existing)))
    (shallow : Copyable (maxJsonRecursionDepth + 1)
      (rereadValue (call.merged moment existing))) :
    FieldsUpdated call existing (rereadValue (call.merged moment existing)) ↔
      ∀ key value, key ∉ call.stamps → call.wanted existing key = some value →
        Plain key ∧ RereadsEqual value := by
  have isMerged := call.merged_isObject moment isExisting
  have field : ∀ {key}, key ∉ call.stamps →
      jsonObjectGet (rereadValue (call.merged moment existing)) (escapeText key) =
        (call.wanted existing key).map rereadValue := by
    intro key unstamped
    rw [isMerged.get_escaped, call.merged_get_wanted isExisting copied shallow unstamped]
  have escaped : ∀ {key}, key ∉ call.stamps → escapeText key ∉ call.stamps := by
    intro key unstamped stamped
    have same := escapeText_injective (call.stamps_escaped stamped)
    rw [same] at stamped
    exact unstamped stamped
  constructor
  · intro updated
    have closed : ∀ key, key ∉ call.stamps ∧ call.wanted existing key ≠ none →
        escapeText key ∉ call.stamps ∧ call.wanted existing (escapeText key) ≠ none := by
      rintro key ⟨unstamped, present⟩
      refine ⟨escaped unstamped, fun absent => ?_⟩
      obtain ⟨value, wanted⟩ := Option.ne_none_iff_exists'.mp present
      have same := updated.fields (escapeText key) (escaped unstamped)
      rw [field unstamped, wanted, absent] at same
      exact same.elim
    obtain ⟨entries, layout, -⟩ := isMerged
    have finite : ∀ key, key ∉ call.stamps ∧ call.wanted existing key ≠ none →
        key ∈ entryKeys entries := by
      rintro key ⟨unstamped, present⟩
      rw [← call.merged_get_wanted isExisting copied shallow unstamped, layout] at present
      by_contra absent
      exact present (getEntry_eq_none_iff.mpr absent)
    intro key value unstamped wanted
    have plain := plain_of_escaped finite closed
      (show key ∉ call.stamps ∧ call.wanted existing key ≠ none from
        ⟨unstamped, by simp [wanted]⟩)
    have same := updated.fields key unstamped
    have unescaped := field unstamped
    rw [(escapeText_eq_self_iff key).mpr plain, wanted] at unescaped
    rw [unescaped, wanted] at same
    exact ⟨plain, same⟩
  · intro steady
    refine ⟨isRead, fun key unstamped => ?_⟩
    cases wanted : call.wanted existing key with
    | some value =>
      obtain ⟨plain, same⟩ := steady key value unstamped wanted
      have unescaped := field unstamped
      rw [(escapeText_eq_self_iff key).mpr plain, wanted] at unescaped
      rw [unescaped]
      exact same
    | none =>
      have absent : jsonObjectGet (rereadValue (call.merged moment existing)) key = none := by
        by_contra present
        obtain ⟨source, rfl, held⟩ := isMerged.get_of_reread present
        have sourceUnstamped : source ∉ call.stamps := by
          intro stamped
          rw [call.stamps_escaped stamped] at unstamped
          exact unstamped stamped
        rw [call.merged_get_wanted isExisting copied shallow sourceUnstamped] at held
        obtain ⟨value, wantedSource⟩ := Option.ne_none_iff_exists'.mp held
        have plain := (steady source value sourceUnstamped wantedSource).1
        rw [(escapeText_eq_self_iff source).mpr plain, wantedSource] at wanted
        cases wanted
      rw [absent]
      trivial

end Fields

section Update

variable [CDouble δ] {uuid : Bytes} {db next : Database δ} {moment : Moment}
  {call : DocumentUpdate δ} {existing : JsonValue δ}

abbrev StoresObjects (db : Database δ) : Prop :=
  StoresOnly (fun _ _ => True) db

theorem documentUpdateStep_eq (uuid : Bytes) (db : Database δ) (moment : Moment)
    (call : DocumentUpdate δ) :
    documentUpdateStep uuid db (moment, call) = storeStep db (moment, call.storeCall uuid) := by
  cases call with
  | storageUpdateDocument document | virtualUpdate document => rfl
  | dbUpdateDocument library collection update =>
    change (dbUpdateDocument moment db library collection uuid update.value).map Prod.snd =
      ((dbUpdateDocument moment db library collection uuid update.value).map _).map Prod.snd
    rw [Option.map_map]
    rfl

theorem performUpdate_none (absent : storageGetDocument db uuid = none) :
    performUpdate uuid db (moment, call) = some (none, db) := by
  cases call with
  | storageUpdateDocument document | virtualUpdate document =>
    simp [performUpdate, virtualUpdate, storageUpdateDocument, absent]
  | dbUpdateDocument library collection update => simp [performUpdate, dbUpdateDocument, absent]

theorem performUpdate_some (moment : Moment) (stored : storageGetDocument db uuid = some existing)
    (accepts : call.Matches existing) :
    performUpdate uuid db (moment, call) = some
      (some (jsonDeepCopy (call.merged moment existing)),
        { db with
          documents :=
            replaceDocument db.documents uuid (jsonStringify (call.merged moment existing)) }) := by
  cases call with
  | storageUpdateDocument document | virtualUpdate document =>
    simp only [performUpdate, virtualUpdate, storageUpdateDocument, stored]
    rfl
  | dbUpdateDocument library collection update =>
    have same : matchesLibraryAndType existing library collection = some true := accepts
    simp only [performUpdate, dbUpdateDocument, stored, same]
    rfl

theorem bufferReleases_iff :
    bufferReleases uuid db call = (skiplistSearch db.documents uuid).toList.length ↔
      ∀ existing ∈ storageGetDocument db uuid, ∀ library collection update,
        call = .dbUpdateDocument library collection update →
          matchesLibraryAndType existing library collection ≠ some false := by
  cases call with
  | storageUpdateDocument document | virtualUpdate document =>
    rw [bufferReleases, storageUpdateReleases]
    cases skiplistSearch db.documents uuid <;> simp
  | dbUpdateDocument library collection update =>
    rw [bufferReleases, dbUpdateReleases, storageGetDocument]
    cases skiplistSearch db.documents uuid with
    | none => simp
    | some text =>
      simp only [Option.toList_some, List.length_singleton, Option.bind_some]
      cases (jsonParse text : Option (JsonValue δ)) with
      | none => simp
      | some existing => simp

theorem StoresObjects.isObject (stores : StoresObjects db)
    (prints : ∀ number : δ, PrintsNumber number)
    (stored : storageGetDocument db uuid = some existing) :
    IsJsonObject existing ∧ jsonDeepCopy existing = existing := by
  obtain ⟨document, -, -, -, isExisting⟩ := stores.get prints stored
  obtain ⟨text, -, parsed⟩ := Option.bind_eq_some_iff.mp stored
  exact ⟨isExisting, jsonDeepCopy_eq_self (by decide) (jsonParse_copyable parsed)⟩

theorem updatesRight_of_matches (prints : ∀ number : δ, PrintsNumber number)
    (stores : StoresObjects db) (stored : storageGetDocument db uuid = some existing)
    (accepts : call.Matches existing) :
    UpdatesRight uuid db (moment, call) ↔ ReadsBack (call.merged moment existing) ∧
      ∀ key value, key ∉ call.stamps → call.wanted existing key = some value →
        Plain key ∧ RereadsEqual value := by
  obtain ⟨isExisting, copied⟩ := stores.isObject prints stored
  have isMerged := call.merged_isObject moment isExisting
  have performed := performUpdate_some moment stored accepts
  have released : bufferReleases uuid db call =
      (skiplistSearch db.documents uuid).toList.length := by
    refine bufferReleases_iff.mpr fun other same library collection update isCall => ?_
    obtain rfl := Option.some.inj (stored.symm.trans same)
    subst isCall
    exact fun differs => by cases differs.symm.trans accepts
  have written : ∀ documents : DocumentList, documents = replaceDocument db.documents uuid
      (jsonStringify (call.merged moment existing)) →
        storageGetDocument { db with documents } uuid =
          jsonParse (jsonStringify (call.merged moment existing)) := by
    rintro documents rfl
    rw [storageGetDocument, skiplistSearch_replace_self, Option.bind_some]
  constructor
  · rintro ⟨answer, next, returned, -, right⟩
    obtain ⟨rfl, rfl⟩ := Prod.mk.inj (Option.some.inj (performed.symm.trans returned))
    obtain ⟨before, after, found, read, updated⟩ := right
    obtain rfl := Option.some.inj (stored.symm.trans found)
    rw [written _ rfl] at read
    obtain ⟨rfl, isRead⟩ := isMerged.parsed prints read
    have reads : ReadsBack (call.merged moment existing) := by
      rw [ReadsBack, read]
      rfl
    exact ⟨reads, (fieldsUpdated_iff isExisting copied isRead (jsonParse_copyable read)).mp updated⟩
  · rintro ⟨reads, steady⟩
    have read := (readsBack_iff prints isMerged).mp reads
    obtain ⟨_, isRead⟩ := isMerged.parsed prints read
    refine ⟨_, _, performed, released, existing, _, stored, (written _ rfl).trans read, ?_⟩
    exact (fieldsUpdated_iff isExisting copied isRead (jsonParse_copyable read)).mpr steady

theorem updatesRight_iff (prints : ∀ number : δ, PrintsNumber number) (stores : StoresObjects db) :
    UpdatesRight uuid db (moment, call) ↔ UpdatesSteadily uuid db (moment, call) := by
  cases stored : storageGetDocument db uuid with
  | none =>
    refine iff_of_true ?_ fun existing same => by cases stored.symm.trans same
    refine ⟨none, db, performUpdate_none stored, bufferReleases_iff.mpr ?_, rfl⟩
    intro existing same
    cases stored.symm.trans same
  | some existing =>
    have onlyExisting : UpdatesSteadily uuid db (moment, call) ↔ call.Matches existing ∧
        ReadsBack (call.merged moment existing) ∧
          ∀ key value, key ∉ call.stamps → call.wanted existing key = some value →
            Plain key ∧ RereadsEqual value := by
      simp only [UpdatesSteadily, stored, Option.mem_some_iff, forall_eq']
    by_cases accepts : call.Matches existing
    · rw [onlyExisting, updatesRight_of_matches prints stores stored accepts]
      exact (and_iff_right accepts).symm
    · refine iff_of_false ?_ fun steady => accepts (onlyExisting.mp steady).1
      rintro ⟨answer, next, returned, released, -⟩
      cases call with
      | storageUpdateDocument document | virtualUpdate document => exact accepts trivial
      | dbUpdateDocument library collection update =>
        cases compared : matchesLibraryAndType existing library collection with
        | none =>
          simp only [performUpdate, dbUpdateDocument, stored, compared] at returned
          cases returned
        | some same =>
          cases same with
          | true => exact accepts compared
          | false =>
            exact bufferReleases_iff.mp released existing stored library collection update
              rfl compared

end Update

section Runs

variable [CDouble δ] {uuid : Bytes} {db : Database δ}

theorem StoresObjects.keeps (prints : ∀ number : δ, PrintsNumber number) (db : Database δ)
    (event : Moment × StoreCall δ) (next : Database δ) (stores : StoresObjects db)
    (step : next ∈ storeStep db event) : StoresObjects next := by
  obtain ⟨⟨answer, next⟩, taken, rfl⟩ := Option.map_eq_some_iff.mp step
  refine stores.step taken fun key document writes => ⟨?_, trivial⟩
  exact written_isObject (fun uuid held stored => (stores.isObject prints stored).1) writes

/-- Updates of a document in a store that any calls have led to: all are right just where the
inputs of all meet the condition. -/
theorem everyUpdate_right_iff (prints : ∀ number : δ, PrintsNumber number)
    {past : List (Moment × StoreCall δ)}
    (reached : runFrom storeStep (freshDatabase DocumentList.empty) past = some db)
    (uuid : Bytes) (updates : List (Moment × DocumentUpdate δ)) :
    EveryStep (documentUpdateStep uuid) (UpdatesRight uuid) db updates ↔
      EveryStep (documentUpdateStep uuid) (UpdatesSteadily uuid) db updates := by
  have fresh : StoresObjects (freshDatabase DocumentList.empty : Database δ) :=
    fun entry member => absurd member List.not_mem_nil
  have stores : StoresObjects db := invariant_reached (StoresObjects.keeps prints) fresh reached
  refine EveryStep.iff_of_keeps ?_ (fun db event stores => updatesRight_iff prints stores) stores
  intro db event next stores _ step
  rw [documentUpdateStep_eq] at step
  exact StoresObjects.keeps prints db _ next stores step

end Runs

def notePatches : List (Moment × DocumentUpdate Rat) :=
  [ (⟨2, 0⟩, .storageUpdateDocument (stringObject (ascii "body") (ascii "a text"))),
    (⟨3, 0⟩, .virtualUpdate (stringObject (ascii "body") (ascii "another"))) ]

theorem noteDatabase_reached :
    runFrom storeStep (freshDatabase DocumentList.empty)
      [(⟨1, 7⟩, .storageInsertDocument (stringObject (ascii "type") (ascii "note")))] =
        some noteDatabase :=
  rfl

theorem everyUpdate_right_iff_note :
    let uuid := ascii "doc-1-7"
    EveryStep (documentUpdateStep uuid) (UpdatesRight uuid) noteDatabase notePatches ↔
      EveryStep (documentUpdateStep uuid) (UpdatesSteadily uuid) noteDatabase notePatches :=
  everyUpdate_right_iff printsNumber_rat noteDatabase_reached (ascii "doc-1-7") notePatches

/-- The buffer of a note that is not of the library is released twice. -/
theorem not_everyUpdate_right :
    ¬ ∀ (past : List (Moment × StoreCall Rat)) (db : Database Rat),
      runFrom storeStep (freshDatabase DocumentList.empty) past = some db →
        ∀ (uuid : Bytes) (updates : List (Moment × DocumentUpdate Rat)),
          (∀ update ∈ updates, NumberFree update.2.patch) →
            EveryStep (documentUpdateStep uuid) (UpdatesRight uuid) db updates := by
  intro claim
  let call : DocumentUpdate Rat :=
    .dbUpdateDocument (ascii "default") (ascii "notes") (stringObject (ascii "a") (ascii "b"))
  have right := (claim _ noteDatabase noteDatabase_reached (ascii "doc-1-7") [(⟨2, 0⟩, call)]
    (by simp [call, DocumentUpdate.patch, stringObject, NumberFree, NumberFreeEntries])).1
  obtain ⟨answer, next, -, released, -⟩ := right
  have twice : bufferReleases (ascii "doc-1-7") noteDatabase call = 2 := by
    decide +kernel
  have once : (skiplistSearch noteDatabase.documents (ascii "doc-1-7")).toList.length = 1 := by
    decide +kernel
  rw [twice, once] at released
  cases released

end Jdbx
