import Jdbx.Database.StoreRuns

/-!
# Documents under their uuid

A stored document names the key it is stored under, and an update leaves its type, as long
as the patch names neither otherwise and the result is within the limits of `json_parse`.
-/

namespace Jdbx

open Library

variable {δ : Type} [CDouble δ]

def Identified (db : Database δ) : Prop :=
  ∀ entry ∈ db.documents.entries, ∃ value : JsonValue δ, jsonParse entry.2 = some value ∧
    jsonObjectGet value (ascii "uuid") = some (.string entry.1)

def KeepsTypes (db next : Database δ) : Prop :=
  ∀ uuid before after, storageGetDocument db uuid = some before →
    storageGetDocument next uuid = some after →
      jsonObjectGet after (ascii "type") = jsonObjectGet before (ascii "type")

def Intact (db : Database δ) (event : Moment × StoreCall δ) : Prop :=
  ∀ next ∈ storeStep db event, Identified next ∧ KeepsTypes db next

/-- `json_parse` reads what `json_stringify` writes of the document. -/
def ReadsBack (document : JsonValue δ) : Prop :=
  (jsonParse (jsonStringify document) : Option (JsonValue δ)).isSome

/-- A patch names no other uuid, and the type of the patch, or else of the document, is
read back as the type of the document. -/
structure LeavesIdentity (uuid : Bytes) (patch existing : JsonValue δ) : Prop where
  uuid : ∀ value ∈ jsonObjectGet patch (ascii "uuid"), value = .string uuid
  type : ((jsonObjectGet patch (ascii "type")).or (jsonObjectGet existing (ascii "type"))).map
    rereadValue = jsonObjectGet existing (ascii "type")

def InsertsReadable (db : Database δ) (moment : Moment) (document : JsonValue δ) : Prop :=
  skiplistSearch db.documents (documentUuid moment) = none → ReadsBack document

def PatchesReadable (db : Database δ) (moment : Moment) (uuid : Bytes) (patch : JsonValue δ) :
    Prop :=
  ∀ existing ∈ storageGetDocument db uuid, LeavesIdentity uuid patch existing ∧
    ReadsBack (updatedDocument moment patch existing)

/-- The condition on one call. -/
def WritesIntact (db : Database δ) : Moment × StoreCall δ → Prop
  | (moment, .storageInsertDocument document) =>
      InsertsReadable db moment (storageInserted moment document.value)
  | (moment, .virtualInsert type library collection document owner) =>
      InsertsReadable db moment
        (storageInserted moment (virtualInserted type library collection document.value owner))
  | (moment, .dbInsertDocument library collection document) =>
      InsertsReadable db moment (dbInserted moment library collection document.value)
  | (moment, .storageUpdateDocument uuid patch) => PatchesReadable db moment uuid patch.value
  | (moment, .virtualUpdate uuid patch) =>
      PatchesReadable db moment uuid (virtualPatch moment patch.value)
  | (moment, .dbUpdateDocument library collection id update) =>
      ∀ existing ∈ storageGetDocument db id,
        matchesLibraryAndType existing library collection = some true →
          (jsonObjectGet existing (ascii "type")).map rereadValue =
              jsonObjectGet existing (ascii "type") ∧
            ReadsBack (dbUpdated moment update.value existing)
  | _ => True

theorem rereadValue_eq_string {value : JsonValue δ} {text : Bytes} (plain : Plain text) :
    rereadValue value = .string text ↔ value = .string text := by
  have unchanged := (escapeText_eq_self_iff text).mpr plain
  cases value with
  | string held =>
      rw [rereadValue, JsonValue.string.injEq, JsonValue.string.injEq,
        ← escapeText_injective.eq_iff (a := held), unchanged]
  | number number =>
      rw [rereadValue, rereadNumber, parseNumber]
      dsimp only
      split_ifs <;> simp
  | null | boolean _ | integer _ | array _ | object _ => simp [rereadValue]

def IdentityLaw (key : Bytes) (document : JsonValue δ) : Prop :=
  Plain key ∧ ∃ value : JsonValue δ, jsonParse (jsonStringify document) = some value ∧
    jsonObjectGet value (ascii "uuid") = some (.string key)

/-- What is written under a key has the key as its uuid, and the type of the document
that was there. -/
def LawfulWrite (db : Database δ) (key : Bytes) (document : JsonValue δ) : Prop :=
  ∃ value : JsonValue δ, jsonParse (jsonStringify document) = some value ∧
    jsonObjectGet value (ascii "uuid") = some (.string key) ∧
      ∀ before ∈ storageGetDocument db key,
        jsonObjectGet value (ascii "type") = jsonObjectGet before (ascii "type")

variable {db next : Database δ} {event : Moment × StoreCall δ} {moment : Moment}
  {document patch existing : JsonValue δ} {uuid : Bytes}

theorem identified_of_stores (stores : StoresOnly IdentityLaw db) : Identified db := by
  intro entry member
  obtain ⟨document, _, text, _, value, read, named⟩ := stores entry member
  exact ⟨value, by rw [text, read], named⟩

theorem written_returns {key : Bytes} (found : written db event = some (key, document)) :
    ∃ answer next, performCall db event = some (answer, next) := by
  obtain ⟨moment, call⟩ := event
  cases call with
  | dbUpdateDocument library collection id update =>
      obtain ⟨existing, stored, matched⟩ := Option.bind_eq_some_iff.mp found
      split_ifs at matched with same
      rw [performCall, dbUpdateDocument, stored]
      simp only [same, Option.map_some]
      exact ⟨_, _, rfl⟩
  | storageInsertDocument _ | virtualInsert _ _ _ _ _ | dbInsertDocument _ _ _
  | storageUpdateDocument _ _ | virtualUpdate _ _ => exact ⟨_, _, rfl⟩
  | storageDeleteDocument _ | virtualDelete _ | dbDeleteDocument _ _ _ | virtualGet _
  | storageQueryDocuments _ | dbGetDocument _ _ _ | dbQueryDocuments _ _ _ => cases found

theorem intact_iff_lawful (stores : StoresOnly IdentityLaw db) :
    Intact db event ↔
      ∀ key document, written db event = some (key, document) → LawfulWrite db key document := by
  constructor
  · intro intact key document found
    obtain ⟨answer, next, taken⟩ := written_returns found
    obtain ⟨identified, keeps⟩ := intact next (by rw [storeStep, taken]; rfl)
    have searched := (performCall_writes taken).atLeast key document found
    obtain ⟨value, read, named⟩ := identified _ (mem_of_getEntry_eq_some searched)
    refine ⟨value, read, named, fun before stored => ?_⟩
    have after : storageGetDocument next key = some value := by
      rw [storageGetDocument, searched, Option.bind_some, read]
    exact keeps key before value stored after
  · intro lawful next step
    obtain ⟨⟨answer, next⟩, taken, rfl⟩ := Option.map_eq_some_iff.mp step
    have writes := performCall_writes taken
    constructor
    · intro entry member
      rcases writes.atMost entry member with old | ⟨document, found, text⟩
      · exact identified_of_stores stores entry old
      · obtain ⟨value, read, named, _⟩ := lawful entry.1 document found
        exact ⟨value, by rw [text, read], named⟩
    · intro uuid before after stored storedAfter
      obtain ⟨text, searched, read⟩ := Option.bind_eq_some_iff.mp storedAfter
      rcases writes.atMost (uuid, text) (mem_of_getEntry_eq_some searched) with
        old | ⟨document, found, same⟩
      · have kept : skiplistSearch db.documents uuid = some text :=
          getEntry_eq_some_of_mem db.documents.distinct old
        rw [storageGetDocument, kept, Option.bind_some, read] at stored
        rw [Option.some.inj stored]
      · obtain ⟨value, parsed, _, type⟩ := lawful uuid document found
        obtain rfl : text = jsonStringify document := same
        rw [parsed] at read
        rw [← Option.some.inj read]
        exact type before stored

/-! ## What each call writes -/

section Calls

variable (prints : ∀ number : δ, PrintsNumber number)
include prints

theorem readsBack_iff (isObject : IsJsonObject document) :
    ReadsBack document ↔ jsonParse (jsonStringify document) = some (rereadValue document) := by
  constructor
  · intro reads
    obtain ⟨value, read⟩ := Option.isSome_iff_exists.mp reads
    rw [read, (isObject.parsed prints read).1]
  · intro read
    rw [ReadsBack, read]
    rfl

theorem lawfulWrite_iff (isObject : IsJsonObject document) (key : Bytes) :
    LawfulWrite db key document ↔
      ReadsBack document ∧
        (jsonObjectGet document (ascii "uuid")).map rereadValue = some (.string key) ∧
          ∀ before ∈ storageGetDocument db key,
            (jsonObjectGet document (ascii "type")).map rereadValue =
              jsonObjectGet before (ascii "type") := by
  rw [readsBack_iff prints isObject, ← isObject.get_reread (by decide),
    ← isObject.get_reread (by decide)]
  constructor
  · intro ⟨value, read, named, type⟩
    obtain ⟨rfl, _⟩ := isObject.parsed prints read
    exact ⟨read, named, type⟩
  · intro ⟨read, named, type⟩
    exact ⟨rereadValue document, read, named, type⟩

theorem insertion_lawful_iff (isObject : IsJsonObject document)
    (named : jsonObjectGet document (ascii "uuid") = some (.string (documentUuid moment))) :
    (∀ key written, insertion db moment document = some (key, written) →
        LawfulWrite db key written) ↔ InsertsReadable db moment document := by
  have uuid : (jsonObjectGet document (ascii "uuid")).map rereadValue =
      some (.string (documentUuid moment)) := by
    rw [named, Option.map_some, (rereadValue_eq_string (documentUuid_plain moment)).mpr rfl]
  rw [insertion, InsertsReadable]
  cases stored : skiplistSearch db.documents (documentUuid moment) with
  | some held => simp
  | none =>
      have absent : storageGetDocument db (documentUuid moment) = none := by
        rw [storageGetDocument, stored, Option.bind_none]
      have lawful : LawfulWrite db (documentUuid moment) document ↔ _ :=
        lawfulWrite_iff prints isObject (documentUuid moment)
      rw [absent] at lawful
      simp only [Option.isSome_none, Bool.false_eq_true, if_false, Option.some.injEq,
        Prod.mk.injEq, and_imp, forall_const]
      constructor
      · intro every
        exact (lawful.mp (every _ _ rfl rfl)).1
      · rintro reads key written rfl rfl
        exact lawful.mpr ⟨reads, uuid, fun before absurdity => by cases absurdity⟩

theorem stored_identity (stores : StoresOnly IdentityLaw db)
    (stored : storageGetDocument db uuid = some existing) :
    IsJsonObject existing ∧ Plain uuid ∧ jsonDeepCopy existing = existing ∧
      jsonObjectGet existing (ascii "uuid") = some (.string uuid) := by
  obtain ⟨document, isObject, ⟨plain, value, read, named⟩, reread, isExisting⟩ :=
    stores.get prints stored
  obtain ⟨text, _, parsed⟩ := Option.bind_eq_some_iff.mp stored
  rw [(isObject.parsed prints read).1, ← reread] at named
  exact ⟨isExisting, plain, jsonDeepCopy_eq_self (by decide) (jsonParse_copyable parsed), named⟩

theorem patch_lawful_iff (stores : StoresOnly IdentityLaw db) (isPatch : IsJsonObject patch)
    (stored : storageGetDocument db uuid = some existing) :
    LawfulWrite db uuid (updatedDocument moment patch existing) ↔
      LeavesIdentity uuid patch existing ∧ ReadsBack (updatedDocument moment patch existing) := by
  obtain ⟨isExisting, plain, copied, named⟩ := stored_identity prints stores stored
  have field : ∀ {key : Bytes}, key ≠ ascii "modified_at" →
      jsonObjectGet (updatedDocument moment patch existing) key =
        (jsonObjectGet patch key).or (jsonObjectGet existing key) := by
    intro key notModified
    rw [updatedDocument_get isPatch isExisting notModified, isPatch.get_clone,
      ← isExisting.get_deepCopy, copied]
  have sameUuid : (jsonObjectGet (updatedDocument moment patch existing) (ascii "uuid")).map
      rereadValue = some (.string uuid) ↔
        ∀ value ∈ jsonObjectGet patch (ascii "uuid"), value = .string uuid := by
    rw [field (by decide), named]
    cases jsonObjectGet patch (ascii "uuid") with
    | none => simp [rereadValue_eq_string plain]
    | some value => simp [rereadValue_eq_string plain]
  rw [lawfulWrite_iff prints (updatedDocument_isObject isPatch isExisting moment), sameUuid,
    field (by decide), stored]
  constructor
  · intro ⟨reads, uuid, type⟩
    exact ⟨⟨uuid, type existing rfl⟩, reads⟩
  · intro ⟨⟨uuid, type⟩, reads⟩
    refine ⟨reads, uuid, fun before same => ?_⟩
    cases same
    exact type

theorem patches_lawful_iff (stores : StoresOnly IdentityLaw db) (isPatch : IsJsonObject patch) :
    (∀ key document, ((storageGetDocument db uuid).map fun existing =>
        (uuid, updatedDocument moment patch existing)) = some (key, document) →
          LawfulWrite db key document) ↔ PatchesReadable db moment uuid patch := by
  rw [PatchesReadable]
  cases stored : storageGetDocument db uuid with
  | none => simp
  | some existing =>
      rw [Option.map_some]
      constructor
      · intro lawful held same
        cases same
        exact (patch_lawful_iff prints stores isPatch stored).mp (lawful _ _ rfl)
      · rintro readable key document same
        cases same
        exact (patch_lawful_iff prints stores isPatch stored).mpr (readable existing rfl)

theorem dbUpdated_lawful_iff (stores : StoresOnly IdentityLaw db) (isPatch : IsJsonObject patch)
    (stored : storageGetDocument db uuid = some existing) :
    LawfulWrite db uuid (dbUpdated moment patch existing) ↔
      (jsonObjectGet existing (ascii "type")).map rereadValue =
          jsonObjectGet existing (ascii "type") ∧
        ReadsBack (dbUpdated moment patch existing) := by
  obtain ⟨isExisting, plain, copied, named⟩ := stored_identity prints stores stored
  have field : ∀ {key : Bytes}, isMandatoryField key = true → key ≠ ascii "modified_at" →
      jsonObjectGet (dbUpdated moment patch existing) key = jsonObjectGet existing key := by
    intro key isProtected notModified
    rw [dbUpdated_get isPatch isExisting isProtected notModified, ← isExisting.get_deepCopy,
      copied]
  have sameUuid : (jsonObjectGet (dbUpdated moment patch existing) (ascii "uuid")).map
      rereadValue = some (.string uuid) := by
    rw [field (by decide) (by decide), named, Option.map_some,
      (rereadValue_eq_string plain).mpr rfl]
  have type := field (show isMandatoryField (ascii "type") = true by decide) (by decide)
  rw [lawfulWrite_iff prints (dbUpdated_isObject isPatch isExisting moment), type, stored]
  constructor
  · intro ⟨reads, _, type⟩
    exact ⟨type existing rfl, reads⟩
  · intro ⟨type, reads⟩
    refine ⟨reads, sameUuid, fun before same => ?_⟩
    cases same
    exact type

omit prints [CDouble δ] in
theorem storageInserted_uuid (isObject : IsJsonObject document) (moment : Moment) :
    jsonObjectGet (storageInserted moment document) (ascii "uuid") =
      some (.string (documentUuid moment)) := by
  rw [storageInserted]
  cases jsonObjectGet (jsonObjectSet (jsonDeepCopy document) (ascii "uuid")
      (.string (documentUuid moment))) (ascii "created_at") with
  | none =>
      rw [jsonObjectGet_set_of_ne _ (by decide), jsonObjectGet_set_of_ne _ (by decide),
        isObject.deepCopy.get_set, if_pos rfl]
  | some created =>
      rw [jsonObjectGet_set_of_ne _ (by decide), isObject.deepCopy.get_set, if_pos rfl]

omit prints [CDouble δ] in
theorem keepStringOr_get_of_ne (document : JsonValue δ) (value : Bytes) {key tested : Bytes}
    (different : tested ≠ key) :
    jsonObjectGet (keepStringOr document key value) tested = jsonObjectGet document tested := by
  rw [keepStringOr]
  split
  · rfl
  · exact jsonObjectGet_set_of_ne _ different _

omit prints [CDouble δ] in
theorem dbInserted_uuid (isObject : IsJsonObject document) (moment : Moment)
    (library collection : Bytes) :
    jsonObjectGet (dbInserted moment library collection document) (ascii "uuid") =
      some (.string (documentUuid moment)) := by
  rw [dbInserted, jsonObjectGet_set_of_ne _ (by decide), jsonObjectGet_set_of_ne _ (by decide),
    keepStringOr_get_of_ne _ _ (by decide), keepStringOr_get_of_ne _ _ (by decide),
    keepStringOr_get_of_ne _ _ (by decide), isObject.deepCopy.get_set, if_pos rfl]

theorem intact_iff_writesIntact (stores : StoresOnly IdentityLaw db)
    (event : Moment × StoreCall δ) : Intact db event ↔ WritesIntact db event := by
  rw [intact_iff_lawful stores]
  obtain ⟨moment, call⟩ := event
  cases call with
  | storageInsertDocument document =>
      exact insertion_lawful_iff prints (storageInserted_isObject document.isObject moment)
        (storageInserted_uuid document.isObject moment)
  | virtualInsert type library collection document owner =>
      have inserted := virtualInserted_isObject document.isObject type library collection owner
      exact insertion_lawful_iff prints (storageInserted_isObject inserted moment)
        (storageInserted_uuid inserted moment)
  | dbInsertDocument library collection document =>
      exact insertion_lawful_iff prints
        (dbInserted_isObject document.isObject moment library collection)
        (dbInserted_uuid document.isObject moment library collection)
  | storageUpdateDocument uuid patch => exact patches_lawful_iff prints stores patch.isObject
  | virtualUpdate uuid patch =>
      exact patches_lawful_iff prints stores (virtualPatch_isObject patch.isObject moment)
  | dbUpdateDocument library collection id update =>
      rw [WritesIntact]
      constructor
      · intro lawful existing stored same
        have writes : written db (moment, .dbUpdateDocument library collection id update) =
            some (id, dbUpdated moment update.value existing) := by
          rw [written, Option.mem_def.mp stored, Option.bind_some, if_pos same]
        exact (dbUpdated_lawful_iff prints stores update.isObject stored).mp (lawful _ _ writes)
      · intro condition key document writes
        obtain ⟨existing, stored, matched⟩ := Option.bind_eq_some_iff.mp writes
        split_ifs at matched with same
        cases matched
        exact (dbUpdated_lawful_iff prints stores update.isObject stored).mpr
          (condition existing stored same)
  | storageDeleteDocument _ | virtualDelete _ | dbDeleteDocument _ _ _ | virtualGet _
  | storageQueryDocuments _ | dbGetDocument _ _ _ | dbQueryDocuments _ _ _ =>
      exact iff_of_true (fun _ _ absurdity => by cases absurdity) trivial

theorem written_plain (stores : StoresOnly IdentityLaw db) {key : Bytes}
    (writes : written db event = some (key, document)) : Plain key := by
  obtain ⟨moment, call⟩ := event
  have inserted : ∀ {document value : JsonValue δ},
      insertion db moment document = some (key, value) → Plain key := by
    intro document value found
    rw [insertion] at found
    split_ifs at found
    cases found
    exact documentUuid_plain moment
  cases call with
  | storageInsertDocument _ | virtualInsert _ _ _ _ _ | dbInsertDocument _ _ _ =>
      exact inserted writes
  | storageUpdateDocument uuid _ | virtualUpdate uuid _ =>
      obtain ⟨existing, stored, same⟩ := Option.map_eq_some_iff.mp writes
      cases same
      exact (stored_identity prints stores stored).2.1
  | dbUpdateDocument library collection id update =>
      obtain ⟨existing, stored, matched⟩ := Option.bind_eq_some_iff.mp writes
      split_ifs at matched
      cases matched
      exact (stored_identity prints stores stored).2.1
  | storageDeleteDocument _ | virtualDelete _ | dbDeleteDocument _ _ _ | virtualGet _
  | storageQueryDocuments _ | dbGetDocument _ _ _ | dbQueryDocuments _ _ _ => cases writes

theorem identityLaw_keeps :
    Keeps (storeStep (δ := δ)) WritesIntact (StoresOnly IdentityLaw) := by
  intro db event next stores condition step
  have lawful := (intact_iff_lawful stores).mp
    ((intact_iff_writesIntact prints stores event).mpr condition)
  obtain ⟨⟨answer, next⟩, taken, rfl⟩ := Option.map_eq_some_iff.mp step
  refine stores.step taken fun key document writes => ?_
  obtain ⟨value, read, named, _⟩ := lawful key document writes
  exact ⟨written_isObject (fun uuid held stored => (stored_identity prints stores stored).1) writes,
    written_plain prints stores writes, value, read, named⟩

/-- The calls of a run are all intact just where the inputs of all meet the condition. -/
theorem everyStep_intact_iff (events : List (Moment × StoreCall δ)) :
    EveryStep storeStep Intact (freshDatabase DocumentList.empty) events ↔
      EveryStep storeStep WritesIntact (freshDatabase DocumentList.empty) events := by
  have nothing : StoresOnly IdentityLaw (freshDatabase DocumentList.empty : Database δ) :=
    fun entry member => absurd member List.not_mem_nil
  exact EveryStep.iff_of_keeps (identityLaw_keeps prints)
    (fun db event stores => intact_iff_writesIntact prints stores event) nothing

/-- The text that a call writes under the key. -/
def textWritten (key : Bytes) (db : Database δ) (event : Moment × StoreCall δ) : Option Bytes :=
  (written db event).bind fun document =>
    if document.1 = key then some (jsonStringify document.2) else none

omit prints in
/-- What is stored under a key comes from the last call of the run that wrote it, and from before
the run only if none did. -/
theorem stored_lastWritten {events : List (Moment × StoreCall δ)}
    (reached : runFrom storeStep db events = some next) {key text : Bytes}
    (stored : skiplistSearch next.documents key = some text) :
    (lastWritten storeStep (textWritten key) db events).or (skiplistSearch db.documents key) =
      some text := by
  have only : ∀ (db : Database δ) event next text, next ∈ storeStep db event →
      skiplistSearch next.documents key = some text →
        (textWritten key db event).or (skiplistSearch db.documents key) = some text := by
    intro db event next text step found
    obtain ⟨⟨answer, next⟩, taken, rfl⟩ := Option.map_eq_some_iff.mp step
    have writes := performCall_writes taken
    rcases writes.atMost (key, text) (mem_of_getEntry_eq_some found) with
      old | ⟨document, wrote, same⟩
    · cases writesKey : textWritten key db event with
      | none => exact getEntry_eq_some_of_mem db.documents.distinct old
      | some other =>
          obtain ⟨document, wrote, isText⟩ := Option.bind_eq_some_iff.mp writesKey
          split_ifs at isText with sameKey
          cases isText
          rw [Option.some_or, ← found, ← sameKey, writes.atLeast _ _ wrote]
    · rw [textWritten, wrote, Option.bind_some, if_pos rfl]
      exact congrArg some same.symm
  exact lastWritten_of_reached only reached stored

end Calls

def stringObject (key text : Bytes) : JsonObject Rat where
  value := .object [(key, .string text)]
  isObject := ⟨_, rfl, 2, List.nodup_singleton key, by simp [Copyable]⟩

def retypedNote : List (Moment × StoreCall Rat) :=
  [ (⟨1, 7⟩, .storageInsertDocument (stringObject (ascii "type") (ascii "note"))),
    (⟨2, 0⟩, .virtualUpdate (ascii "doc-1-7") (stringObject (ascii "type") (ascii "memo"))) ]

theorem everyStep_intact_iff_retyped :
    EveryStep storeStep Intact (freshDatabase DocumentList.empty) retypedNote ↔
      EveryStep storeStep WritesIntact (freshDatabase DocumentList.empty) retypedNote :=
  everyStep_intact_iff printsNumber_rat retypedNote

theorem stored_lastWritten_retyped :
    ∃ last text, runFrom storeStep (freshDatabase DocumentList.empty) retypedNote = some last ∧
      (lastWritten storeStep (textWritten (ascii "doc-1-7"))
        (freshDatabase DocumentList.empty) retypedNote).or none = some text := by
  have runs : ((runFrom storeStep (freshDatabase DocumentList.empty) retypedNote).bind fun last =>
      skiplistSearch last.documents (ascii "doc-1-7")).isSome := by
    decide +kernel
  obtain ⟨text, found⟩ := Option.isSome_iff_exists.mp runs
  obtain ⟨last, reached, stored⟩ := Option.bind_eq_some_iff.mp found
  exact ⟨last, text, reached, stored_lastWritten reached stored⟩

def noteDatabase : Database Rat :=
  (storageInsertDocument ⟨1, 7⟩ (freshDatabase DocumentList.empty)
    (stringObject (ascii "type") (ascii "note")).value).2

def renamedDatabase : Database Rat :=
  (storageUpdateDocument ⟨2, 0⟩ noteDatabase (ascii "doc-1-7")
    (stringObject (ascii "uuid") (ascii "other")).value).2

theorem storeStep_storageUpdateDocument (db : Database δ) (moment : Moment) (uuid : Bytes)
    (patch : JsonObject δ) :
    storeStep db (moment, .storageUpdateDocument uuid patch) =
      some (storageUpdateDocument moment db uuid patch.value).2 :=
  rfl

/-- The document is stored under a uuid that it does not name. -/
theorem not_everyStep_intact_renamed :
    ¬ ∀ events : List (Moment × StoreCall Rat),
      EveryStep storeStep Intact (freshDatabase DocumentList.empty) events := by
  intro everyRun
  have reached : runFrom storeStep (freshDatabase DocumentList.empty)
      [(⟨1, 7⟩, .storageInsertDocument (stringObject (ascii "type") (ascii "note")))] =
        some noteDatabase := rfl
  have intact := (everyRun ([(⟨1, 7⟩, .storageInsertDocument
    (stringObject (ascii "type") (ascii "note")))] ++
      [(⟨2, 0⟩, .storageUpdateDocument (ascii "doc-1-7")
        (stringObject (ascii "uuid") (ascii "other")))])).last reached
  obtain ⟨identified, _⟩ := intact renamedDatabase (storeStep_storageUpdateDocument _ _ _ _)
  have misnamed : ∃ text, (ascii "doc-1-7", text) ∈ renamedDatabase.documents.entries ∧
      ((jsonParse text : Option (JsonValue Rat)).bind fun value =>
        jsonGetString (jsonObjectGet value (ascii "uuid"))) = some (ascii "other") := by
    refine ⟨(skiplistSearch renamedDatabase.documents (ascii "doc-1-7")).getD [], ?_⟩
    decide +kernel
  obtain ⟨text, member, other⟩ := misnamed
  obtain ⟨value, read, named⟩ := identified _ member
  rw [read, Option.bind_some, named] at other
  have different : ascii "doc-1-7" ≠ ascii "other" := by decide
  exact different (Option.some.inj other)

end Jdbx
