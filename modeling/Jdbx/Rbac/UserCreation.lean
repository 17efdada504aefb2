import Jdbx.Library.ThreadList
import Jdbx.Rbac.Accounts

/-!
# Creating users in several threads

`rbac_db_create_user` and `virtual_create_user` look whether there is a user of the name, and
insert the new user in a second step.  The database itself keeps no names apart.
-/

namespace Jdbx

open Library

variable {δ : Type}

/-! ## The calls -/

structure NewUser where
  username : Bytes
  passwordHash : Bytes

/-- `rbac_db_create_user` or `virtual_create_user`. -/
inductive CreationPath where
  | rbac
  | virtual
  deriving DecidableEq

/-- What the path hands to `virtual_insert`. -/
def CreationPath.document (user : NewUser) : CreationPath → JsonValue δ
  | rbac => userDocument user.username user.passwordHash
  | virtual =>
    jsonObjectSet (userDocument user.username user.passwordHash) (ascii "active")
      (.boolean true)

def CreationPath.owner (user : NewUser) : CreationPath → Bytes
  | rbac => ascii "system-admin"
  | virtual => user.username

/-- What a thread is going to do next: the insertion of a creation whose query has found nothing,
or a database call of `rbac_db_delete_user`. -/
inductive UserCall (δ : Type) where
  | insert (path : CreationPath) (user : NewUser)
  | findAgain (userId : Bytes)
  | clearRoles (userId : Bytes) (docId : Option Bytes) (roles : List Bytes)
  | updateRole (userId : Bytes) (docId : Option Bytes) (roleId : Bytes) (roleDoc : JsonValue δ)
      (roles : List Bytes)

/-- The database, and what each thread is going to do. -/
structure UserState (δ : Type) where
  db : Database δ
  threads : List (Option (UserCall δ))

/-- A call that starts with its first query, or the next database call of a thread.  Every
database call can fail. -/
inductive UserEvent where
  | create (thread : Nat) (query : Option Moment) (path : CreationPath) (user : NewUser)
  | delete (thread : Nat) (query : Option Moment) (userId : Bytes)
  | step (thread : Nat) (call : Option Moment)

def roleIds (userDoc : JsonValue δ) : List Bytes :=
  match jsonObjectGet userDoc (ascii "roles") with
  | some (.array roles) => roles.filterMap fun role => jsonGetString (some role)
  | _ => []

def UserState.goTo (state : UserState δ) (thread : Nat) (call : UserCall δ) : UserState δ :=
  { state with threads := state.threads.set thread (some call) }

section Steps

variable [CDouble δ]

/-- The users that the query of a creation finds.  One that fails is taken for one that finds
nothing. -/
def CreationPath.existing (query : Option Moment) (db : Database δ) (username : Bytes)
    (path : CreationPath) : List (JsonValue δ) :=
  match query, path with
  | none, _ => []
  | some _, rbac =>
    foundDocuments (virtualQuery db (ascii "user") (ascii "system") (some (ascii "users"))
      (.object [(ascii "username", .string username)]))
  | some _, virtual =>
    foundDocuments (storageQueryDocuments db (accountFilter .user (ascii "username") username))

def UserCall.next (db : Database δ) (call : Option Moment) :
    UserCall δ → Database δ × Option (UserCall δ)
  | .insert path user =>
    match call with
    | none => (db, none)
    | some moment =>
      ((virtualInsert moment db (ascii "user") (ascii "system") (some (ascii "users"))
        (path.document user) (path.owner user)).2, none)
  | .findAgain userId =>
    match findAccount call db .user (accountFilter .user (ascii "uuid") userId) with
    | none => (db, none)
    | some userDoc =>
      (db, some (.clearRoles userId (jsonGetString (jsonObjectGet userDoc (ascii "uuid")))
        (roleIds userDoc)))
  | .clearRoles userId docId (roleId :: roles) =>
    match findAccount call db .role (accountFilter .role (ascii "uuid") roleId) with
    | none => (db, some (.clearRoles userId docId roles))
    | some roleDoc =>
      match jsonObjectGet roleDoc (ascii "users") with
      | some (.array users) =>
        let updatedUsers := .array (users.filter (isOtherId userId))
        (db, some (.updateRole userId docId roleId
          (jsonObjectSet roleDoc (ascii "users") updatedUsers) roles))
      | _ => (db, some (.clearRoles userId docId roles))
  | .clearRoles _ docId [] =>
    match docId, call with
    | some id, some _ => ((virtualDelete db id).2, none)
    | _, _ => (db, none)
  | .updateRole userId docId roleId roleDoc roles =>
    match call with
    | none => (db, some (.clearRoles userId docId roles))
    | some moment =>
      ((virtualUpdate moment db roleId roleDoc).2, some (.clearRoles userId docId roles))

/-- A thread that does nothing starts a call, and any other makes its next database call. -/
def userStep (state : UserState δ) : UserEvent → Option (UserState δ)
  | .create thread query path user =>
    match state.threads[thread]? with
    | some none =>
      if (path.existing query state.db user.username).isEmpty then
        some (state.goTo thread (.insert path user))
      else some state
    | _ => none
  | .delete thread query userId =>
    match state.threads[thread]? with
    | some none =>
      match findAccount query state.db .user (uuidFilter userId) with
      | none => some (state.goTo thread (.findAgain userId))
      | some userDoc =>
        some (state.goTo thread (.clearRoles userId (some userId) (roleIds userDoc)))
    | _ => none
  | .step thread call =>
    match state.threads[thread]? with
    | some (some userCall) =>
      let after := userCall.next state.db call
      some { db := after.1, threads := state.threads.set thread after.2 }
    | _ => none

omit [CDouble δ] in
def userName (doc : JsonValue δ) : Option Bytes :=
  if BelongsTo (ascii "user") (ascii "system") doc then
    jsonGetString (jsonObjectGet doc (ascii "username"))
  else none

def userNames (db : Database δ) : List Bytes :=
  (db.documents.entries.filterMap storedDocument : List (JsonValue δ)).filterMap userName

def UniqueNames (db : Database δ) : Prop :=
  (userNames db).Nodup

instance (db : Database δ) : Decidable (UniqueNames db) :=
  inferInstanceAs (Decidable (List.Nodup _))

omit [CDouble δ] in
def UserCall.creates : UserCall δ → Option Bytes
  | .insert _ user => some (escapeText user.username)
  | _ => none

omit [CDouble δ] in
def pendingNames (threads : List (Option (UserCall δ))) : List Bytes :=
  threads.filterMap fun thread => thread.bind UserCall.creates

/-- No other thread is between the query and the insertion of a user of the name, and the query
of the creation sees every stored user of the name: it does not fail, no byte of the name is
escaped, and `rbac_db_create_user` asks for the collection `users` too. -/
def SeesName (state : UserState δ) : UserEvent → Prop
  | .create _ query path user =>
    escapeText user.username ∉ pendingNames state.threads ∧
      ∀ doc ∈ (state.db.documents.entries.filterMap storedDocument : List (JsonValue δ)),
        userName doc = some (escapeText user.username) →
          query ≠ none ∧ Plain user.username ∧
            (path = .rbac →
              jsonGetString (jsonObjectGet doc (ascii "collection")) = some (ascii "users"))
  | _ => True

instance (state : UserState δ) : ∀ event, Decidable (SeesName state event)
  | .create _ _ _ _ => inferInstanceAs (Decidable (_ ∧ _))
  | .delete _ _ _ => inferInstanceAs (Decidable True)
  | .step _ _ => inferInstanceAs (Decidable True)

end Steps

section Reread

variable [CDouble δ] {object patch existing value doc : JsonValue δ} {key text : Bytes}

theorem parseNumber_notObject (text : Bytes) (fields : List (Bytes × JsonValue δ)) :
    (parseNumber text : JsonValue δ × Bytes).1 ≠ .object fields := by
  unfold parseNumber
  simp only
  split_ifs
  all_goals exact fun same => by cases same

theorem parseScalar_notObject {rest : Bytes}
    (read : parseScalar text = some (value, rest)) (fields : List (Bytes × JsonValue δ)) :
    value ≠ .object fields := by
  cases text with
  | nil => cases read
  | cons byte text =>
    rw [parseScalar] at read
    split_ifs at read
    · obtain ⟨parsed, _, same⟩ := Option.map_eq_some_iff.mp read
      cases same
      exact fun same => by cases same
    · cases read
      exact fun same => by cases same
    · cases read
      exact fun same => by cases same
    · cases read
      exact fun same => by cases same
    · rw [← show _ = value from congrArg Prod.fst (Option.some.inj read)]
      exact parseNumber_notObject _ fields

theorem parse_notObject {byte : UInt8} (visible : isspace byte = false) (notBrace : byte ≠ 123)
    {levels : Nat} {rest : Bytes}
    (read : parseValueWithDepth (levels + 1) (byte :: text) = some (value, rest))
    (fields : List (Bytes × JsonValue δ)) : value ≠ .object fields := by
  rw [parseValueWithDepth, skipWhitespace_cons visible] at read
  split at read
  · rename_i tail equal
    exact absurd (List.cons.inj equal).1 notBrace
  · cases levels with
    | zero => cases read
    | succ levels =>
      rw [parseArrayWithDepth] at read
      split at read
      · cases read
        exact fun same => by cases same
      · obtain ⟨parsed, _, same⟩ := Option.map_eq_some_iff.mp read
        cases same
        exact fun same => by cases same
  · exact parseScalar_notObject read fields

variable (prints : ∀ number : δ, PrintsNumber number)
include prints

theorem jsonParse_notObject (notObject : ∀ fields, object ≠ .object fields)
    (read : jsonParse (jsonStringify object) = some value)
    (fields : List (Bytes × JsonValue δ)) : value ≠ .object fields := by
  rw [jsonParse] at read
  split_ifs at read
  obtain ⟨⟨parsed, rest⟩, valueParsed, rfl⟩ := Option.map_eq_some_iff.mp read
  change parseValueWithDepth (maxJsonRecursionDepth + 1) (stringifyValue object) =
    some (parsed, rest) at valueParsed
  cases object with
  | object entries => exact absurd rfl (notObject entries)
  | integer integer =>
    have ends : EndsNumber [] := by
      simp [EndsNumber]
    have read := parseValueWithDepth_integer (δ := δ) maxJsonRecursionDepth integer ends
    rw [List.append_nil] at read
    cases read.symm.trans valueParsed
    exact fun same => by cases same
  | number number =>
    obtain ⟨byte, text, layout, visible, -, notBrace⟩ := (prints number).head
    rw [stringifyValue, layout] at valueParsed
    exact parse_notObject visible notBrace valueParsed fields
  | boolean boolean =>
    cases boolean
    · exact parse_notObject (by decide) (by decide) valueParsed fields
    · exact parse_notObject (by decide) (by decide) valueParsed fields
  | null | string _ | array _ => exact parse_notObject (by decide) (by decide) valueParsed fields

omit [CDouble δ] prints in
theorem CreationPath.document_isObject (path : CreationPath) (user : NewUser) :
    IsJsonObject (path.document user : JsonValue δ) := by
  cases path with
  | rbac => exact userDocument_isObject _ _
  | virtual => exact (userDocument_isObject _ _).set _ ⟨1, trivial⟩

omit [CDouble δ] prints in
theorem CreationPath.document_username (path : CreationPath) (user : NewUser) :
    jsonObjectGet (path.document user : JsonValue δ) (ascii "username") =
      some (.string user.username) := by
  cases path <;> rfl

theorem userName_inserted (path : CreationPath) (user : NewUser) (moment : Moment)
    (stored : storedDocument (key, jsonStringify (storageInserted moment (virtualInserted
      (ascii "user") (ascii "system") (some (ascii "users")) (path.document user : JsonValue δ)
        (path.owner user)))) = some doc) :
    ∀ name ∈ userName doc, name = escapeText user.username := by
  have isDocument : IsJsonObject (path.document user : JsonValue δ) := path.document_isObject user
  have isInserted := virtualInserted_isObject isDocument (ascii "user") (ascii "system")
    (some (ascii "users")) (path.owner user)
  have held : jsonObjectGet (storageInserted moment (virtualInserted (ascii "user")
      (ascii "system") (some (ascii "users")) (path.document user : JsonValue δ)
        (path.owner user))) (ascii "username") = some (.string user.username) := by
    rw [storageInserted_get isInserted (by decide) (by decide) (by decide),
      virtualInserted_get isDocument, path.document_username]
    rfl
  have named := storedDocument_string prints (storageInserted_isObject isInserted moment) stored
    (by decide) held
  intro name member
  rw [userName] at member
  split_ifs at member
  · exact Option.some.inj (member.symm.trans named)
  · cases member

omit [CDouble δ] prints in
theorem updatedDocument_notObject (isPatch : IsJsonObject patch)
    (notObject : ∀ fields, existing ≠ .object fields) (moment : Moment)
    (fields : List (Bytes × JsonValue δ)) :
    updatedDocument moment patch existing ≠ .object fields := by
  have sets : ∀ (object : JsonValue δ) (key : Bytes) (value : JsonValue δ),
      (∀ fields, object ≠ .object fields) → ∀ fields, jsonObjectSet object key value ≠
        .object fields := by
    intro object key value notObject fields
    cases object with
    | object entries => exact absurd rfl (notObject entries)
    | _ => exact notObject fields
  obtain ⟨entries, rfl, _⟩ := isPatch
  apply sets
  apply mergeFields_induction (fun merged => ∀ fields, merged ≠ .object fields)
  · exact fun object key value holds _ => sets object key (jsonClone value) holds
  · intro fields
    cases existing with
    | object entries => exact absurd rfl (notObject entries)
    | _ => exact fun same => by cases same

theorem userName_updated (isPatch : IsJsonObject patch)
    (typed : jsonObjectGet patch (ascii "type") = some (.string (ascii "role")))
    (distinct : DistinctKeys existing) (moment : Moment)
    (stored : storedDocument (key, jsonStringify
      (updatedDocument moment (virtualPatch moment patch) existing)) = some doc) :
    userName doc = none := by
  have isVirtual := virtualPatch_isObject isPatch moment
  cases existing with
  | object entries =>
    have isExisting : IsJsonObject (.object entries : JsonValue δ) := ⟨entries, rfl, distinct⟩
    have held : jsonObjectGet (updatedDocument moment (virtualPatch moment patch)
        (.object entries)) (ascii "type") = some (.string (ascii "role")) := by
      rw [updatedDocument_get isVirtual isExisting (by decide),
        virtualPatch_get isPatch (by decide), typed]
      rfl
    have named := storedDocument_string prints
      (updatedDocument_isObject isVirtual isExisting moment) stored (by decide) held
    rw [userName, if_neg]
    intro belongs
    exact absurd (named.symm.trans belongs.1) (by decide)
  | _ =>
    rw [storedDocument] at stored
    split at stored
    · rename_i fields read
      refine absurd rfl (jsonParse_notObject prints ?_ read fields)
      exact updatedDocument_notObject isVirtual (fun fields same => by cases same) moment
    · cases stored

end Reread

section Names

variable [CDouble δ] {db next : Database δ} {documents : DocumentList} {key text : Bytes}

theorem userNames_sublist (fewer : next.documents.entries.Sublist db.documents.entries) :
    (userNames next).Sublist (userNames db) :=
  (fewer.filterMap _).filterMap _

theorem userNames_insert (db : Database δ) (documents : DocumentList) (key text : Bytes) :
    (userNames { db with documents := skiplistInsert documents key text }).Sublist
      (userNames { db with documents := documents } ++
        ((storedDocument (key, text) : Option (JsonValue δ)).bind userName).toList) := by
  by_cases present : key ∈ entryKeys documents.entries
  · rw [skiplistInsert, dif_pos present]
    exact List.sublist_append_left _ _
  · rw [skiplistInsert, dif_neg present, userNames, userNames, List.filterMap_append,
      List.filterMap_append]
    cases stored : (storedDocument (key, text) : Option (JsonValue δ)) with
    | none => simp [stored]
    | some doc => cases named : userName doc <;> simp [stored, named]

def UserCall.Lawful : UserCall δ → Prop
  | .updateRole _ _ _ roleDoc _ =>
    IsJsonObject roleDoc ∧ jsonObjectGet roleDoc (ascii "type") = some (.string (ascii "role"))
  | _ => True

theorem findAccount_role {call : Option Moment} {roleId : Bytes} {roleDoc : JsonValue δ}
    (found : findAccount call db .role (accountFilter .role (ascii "uuid") roleId) =
      some roleDoc) :
    IsJsonObject roleDoc ∧
      jsonObjectGet roleDoc (ascii "type") = some (.string (ascii "role")) := by
  obtain ⟨_, _, first⟩ := Option.bind_eq_some_iff.mp found
  obtain ⟨doc, head, rfl⟩ := Option.map_eq_some_iff.mp first
  have member := List.mem_of_mem_head? head
  rw [foundDocuments_virtualQuery] at member
  obtain ⟨listed, matched⟩ := List.mem_filter.mp member
  obtain ⟨entry, _, stored⟩ := List.mem_filterMap.mp listed
  have asked : jsonObjectGet (unifiedQuery (ascii "role") (ascii "system") (some (ascii "roles"))
      (accountFilter .role (ascii "uuid") roleId : JsonValue δ)) (ascii "type") =
        some (.string (ascii "role")) := rfl
  have typed := storageFieldMatches_string (matchesQuery_field matched asked)
  have isDocument : IsJsonObject doc := storedDocument_isObject stored
  have isRole := jsonGetString_eq_string (typed.trans (congrArg jsonGetString asked))
  obtain ⟨fields, rfl, levels, copyable⟩ := isDocument
  rw [jsonClone_eq_self_of_copyable copyable]
  exact ⟨⟨fields, rfl, levels, copyable⟩, isRole⟩

omit [CDouble δ] in
theorem otherIds_distinct (userId : Bytes) (users : List (JsonValue δ)) :
    DistinctKeys (.array (users.filter (isOtherId userId))) := by
  refine ⟨2, fun item member => ?_⟩
  have isString := (List.mem_filter.mp member).2
  cases item with
  | string id => trivial
  | _ => cases isString

theorem UserCall.next_lawful (db : Database δ) (call : Option Moment) (userCall : UserCall δ) :
    ∀ after ∈ (userCall.next db call).2, after.Lawful := by
  intro after member
  cases userCall with
  | insert path user =>
    cases call with
    | none => cases member
    | some moment => cases member
  | findAgain userId =>
    simp only [UserCall.next] at member
    split at member
    · cases member
    · cases member
      trivial
  | clearRoles userId docId roles =>
    cases roles with
    | nil =>
      simp only [UserCall.next] at member
      split at member
      · cases member
      · cases member
    | cons roleId roles =>
      simp only [UserCall.next] at member
      split at member
      · cases member
        trivial
      · rename_i roleDoc found
        split at member
        · rename_i users held
          cases member
          obtain ⟨isObject, typed⟩ := findAccount_role found
          refine ⟨isObject.set _ (otherIds_distinct userId users), ?_⟩
          rw [isObject.get_set, if_neg (by decide), typed]
        · cases member
          trivial
  | updateRole userId docId roleId roleDoc roles =>
    cases call with
    | none =>
      cases member
      trivial
    | some moment =>
      cases member
      trivial

variable (prints : ∀ number : δ, PrintsNumber number)
include prints

theorem userNames_virtualInsert (moment : Moment) (path : CreationPath) (user : NewUser) :
    (userNames (virtualInsert moment db (ascii "user") (ascii "system") (some (ascii "users"))
      (path.document user) (path.owner user)).2).Sublist
        (userNames db ++ [escapeText user.username]) := by
  let document : JsonValue δ := storageInserted moment (virtualInserted (ascii "user")
    (ascii "system") (some (ascii "users")) (path.document user) (path.owner user))
  have added : ((storedDocument (documentUuid moment, jsonStringify document)).bind
      (userName (δ := δ))).toList.Sublist [escapeText user.username] := by
    cases stored : (storedDocument (documentUuid moment, jsonStringify document) :
        Option (JsonValue δ)) with
    | none => exact List.nil_sublist _
    | some doc =>
      have only := userName_inserted prints path user moment stored
      rw [Option.bind_some]
      cases named : userName doc with
      | none => exact List.nil_sublist _
      | some name =>
        rw [only name named]
        exact List.Sublist.refl _
  exact (userNames_insert db db.documents (documentUuid moment) (jsonStringify document)).trans
    (added.append_left _)

theorem userNames_virtualUpdate (moment : Moment) {roleId : Bytes} {roleDoc : JsonValue δ}
    (isObject : IsJsonObject roleDoc)
    (typed : jsonObjectGet roleDoc (ascii "type") = some (.string (ascii "role"))) :
    (userNames (virtualUpdate moment db roleId roleDoc).2).Sublist (userNames db) := by
  rw [virtualUpdate, storageUpdateDocument]
  cases held : storageGetDocument db roleId with
  | none => exact List.Sublist.refl _
  | some existing =>
    obtain ⟨_, _, read⟩ := Option.bind_eq_some_iff.mp held
    let document := updatedDocument moment (virtualPatch moment roleDoc) existing
    have deleted : (userNames { db with documents := skiplistDelete db.documents roleId }).Sublist
        (userNames db) :=
      userNames_sublist (removeEntry_sublist roleId db.documents.entries)
    have nameless : (storedDocument (roleId, jsonStringify document)).bind
        (userName (δ := δ)) = none := by
      cases stored : (storedDocument (roleId, jsonStringify document) :
          Option (JsonValue δ)) with
      | none => rfl
      | some doc =>
        exact userName_updated prints isObject typed (parsed_distinctKeys read) moment stored
    have inserted := userNames_insert db (skiplistDelete db.documents roleId) roleId
      (jsonStringify document)
    rw [nameless, Option.toList_none, List.append_nil] at inserted
    exact inserted.trans deleted

theorem UserCall.next_names (call : Option Moment) {userCall : UserCall δ}
    (lawful : userCall.Lawful) :
    (userNames (userCall.next db call).1 ++
        ((userCall.next db call).2.bind UserCall.creates).toList).Sublist
      (userNames db ++ userCall.creates.toList) := by
  cases userCall with
  | insert path user =>
    cases call with
    | none => exact List.Sublist.append_left (List.nil_sublist _) _
    | some moment =>
      simp only [UserCall.next, Option.bind_none, Option.toList_none, List.append_nil]
      exact userNames_virtualInsert prints moment path user
  | findAgain userId =>
    simp only [UserCall.next]
    split
    · exact List.Sublist.refl _
    · exact List.Sublist.refl _
  | clearRoles userId docId roles =>
    cases roles with
    | nil =>
      simp only [UserCall.next]
      split
      · rename_i id moment
        simp only [Option.bind_none, Option.toList_none, List.append_nil, UserCall.creates]
        rw [virtualDelete, storageDeleteDocument]
        split
        · exact List.Sublist.refl _
        · exact userNames_sublist (removeEntry_sublist id db.documents.entries)
      · exact List.Sublist.refl _
    | cons roleId roles =>
      simp only [UserCall.next]
      split
      · exact List.Sublist.refl _
      · split
        · exact List.Sublist.refl _
        · exact List.Sublist.refl _
  | updateRole userId docId roleId roleDoc roles =>
    cases call with
    | none => exact List.Sublist.refl _
    | some moment =>
      exact (userNames_virtualUpdate prints moment lawful.1 lawful.2).append_right []

end Names

/-! ## Runs -/

section Runs

variable [CDouble δ] {state next : UserState δ}

theorem matchesQuery_strings {doc : JsonValue δ} (entries : List (Bytes × Bytes))
    (distinct : (entryKeys entries).Nodup)
    (held : ∀ entry ∈ entries, jsonGetString (jsonObjectGet doc entry.1) = some entry.2) :
    matchesQuery storageFieldMatches
      (.object (entries.map fun entry => (entry.1, .string entry.2))) doc = true := by
  refine List.all_eq_true.mpr fun key member => ?_
  rw [entryKeys, List.map_map] at member
  obtain ⟨⟨key, text⟩, inside, rfl⟩ := List.mem_map.mp member
  have asked := getEntry_map_value (JsonValue.string (δ := δ)) key entries
  rw [getEntry_eq_some_of_mem distinct inside, Option.map_some] at asked
  have stored := jsonGetString_eq_string (held (key, text) inside)
  change storageFieldMatches _ doc key = true
  rw [storageFieldMatches, stored, jsonObjectGet, asked]
  exact beq_self_eq_true text

theorem CreationPath.mem_existing {path : CreationPath} {db : Database δ} {username : Bytes}
    {doc : JsonValue δ} (moment : Moment)
    (listed : doc ∈ (db.documents.entries.filterMap storedDocument : List (JsonValue δ)))
    (named : userName doc = some username)
    (collected : path = .rbac →
      jsonGetString (jsonObjectGet doc (ascii "collection")) = some (ascii "users")) :
    doc ∈ path.existing (some moment) db username := by
  rw [userName] at named
  split_ifs at named with belongs
  obtain ⟨typed, placed⟩ := belongs
  cases path with
  | rbac =>
    rw [CreationPath.existing, foundDocuments_virtualQuery]
    refine List.mem_filter.mpr ⟨listed, matchesQuery_strings
      [(ascii "type", ascii "user"), (ascii "library", ascii "system"),
        (ascii "collection", ascii "users"), (ascii "username", username)]
      (by simp only [entryKeys, List.map]; decide) ?_⟩
    simp only [List.forall_mem_cons]
    exact ⟨typed, placed, collected rfl, named, by simp⟩
  | virtual =>
    have found : foundDocuments (storageQueryDocuments db
        (accountFilter .user (ascii "username") username)) =
          storageMatches (accountFilter .user (ascii "username") username)
            db.documents.entries := rfl
    rw [CreationPath.existing, found, storageMatches_eq]
    refine List.mem_filter.mpr ⟨listed, matchesQuery_strings
      [(ascii "type", ascii "user"), (ascii "library", ascii "system"),
        (ascii "username", username)] (by simp only [entryKeys, List.map]; decide) ?_⟩
    simp only [List.forall_mem_cons]
    exact ⟨typed, placed, named, by simp⟩

/-- No two names, of the stored users and of those that are going to be inserted, are equal. -/
structure NamesApart (state : UserState δ) : Prop where
  apart : (userNames state.db ++ pendingNames state.threads).Nodup
  lawful : ∀ thread ∈ state.threads, ∀ call ∈ thread, call.Lawful

omit [CDouble δ] in
theorem pendingNames_set {threads : List (Option (UserCall δ))} {thread : Nat}
    {old : Option (UserCall δ)} (found : threads[thread]? = some old)
    (new : Option (UserCall δ)) :
    ∃ others, (pendingNames threads).Perm ((old.bind UserCall.creates).toList ++ others) ∧
      (pendingNames (threads.set thread new)).Perm
        ((new.bind UserCall.creates).toList ++ others) :=
  filterMap_set_perm (fun thread => thread.bind UserCall.creates) found new

theorem NamesApart.set (names : NamesApart state) {thread : Nat} {old new : Option (UserCall δ)}
    {db : Database δ} (found : state.threads[thread]? = some old)
    (fewer : (userNames db ++ (new.bind UserCall.creates).toList).Sublist
      (userNames state.db ++ (old.bind UserCall.creates).toList))
    (lawful : ∀ call ∈ new, call.Lawful) :
    NamesApart { db := db, threads := state.threads.set thread new } := by
  obtain ⟨others, before, after⟩ := pendingNames_set found new
  refine { apart := ?_, lawful := forall_mem_set names.lawful lawful thread }
  have apart := (before.append_left (userNames state.db)).nodup_iff.mp names.apart
  rw [← List.append_assoc] at apart
  refine (after.append_left (userNames db)).nodup_iff.mpr ?_
  rw [← List.append_assoc]
  exact apart.sublist (fewer.append_right others)

theorem NamesApart.insert (names : NamesApart state) {thread : Nat} {path : CreationPath}
    {user : NewUser} (idle : state.threads[thread]? = some none)
    (notStored : escapeText user.username ∉ userNames state.db)
    (notPending : escapeText user.username ∉ pendingNames state.threads) :
    NamesApart (state.goTo thread (.insert path user)) := by
  obtain ⟨others, before, after⟩ := pendingNames_set idle (some (.insert path user))
  have lawful : ∀ call ∈ some (UserCall.insert path user : UserCall δ), call.Lawful := by
    intro call member
    cases member
    trivial
  refine { apart := ?_, lawful := forall_mem_set names.lawful lawful thread }
  have longer : (userNames state.db ++
      pendingNames (state.threads.set thread (some (.insert path user)))).Perm
        (escapeText user.username :: (userNames state.db ++ pendingNames state.threads)) :=
    (after.append_left _).trans
      (List.perm_middle.trans ((before.symm.append_left _).cons _))
  refine longer.nodup_iff.mpr (List.nodup_cons.mpr ⟨?_, names.apart⟩)
  rw [List.mem_append, not_or]
  exact ⟨notStored, notPending⟩

variable (prints : ∀ number : δ, PrintsNumber number)
include prints

theorem namesApart_keeps : Keeps userStep SeesName (NamesApart (δ := δ)) := by
  intro state event next names sees taken
  cases event with
  | create thread query path user =>
    simp only [userStep] at taken
    split at taken
    · rename_i idle
      split_ifs at taken with nothing
      · cases taken
        refine names.insert idle ?_ sees.1
        intro stored
        obtain ⟨doc, listed, named⟩ := List.mem_filterMap.mp stored
        obtain ⟨answered, plain, collected⟩ := sees.2 doc listed named
        obtain ⟨moment, rfl⟩ := Option.ne_none_iff_exists'.mp answered
        rw [(escapeText_eq_self_iff user.username).mpr plain] at named
        have found := CreationPath.mem_existing moment listed named collected
        rw [List.isEmpty_iff.mp nothing] at found
        cases found
      · cases taken
        exact names
    · cases taken
  | delete thread query userId =>
    simp only [userStep] at taken
    split at taken
    · rename_i idle
      split at taken
      · cases taken
        exact names.set idle (List.Sublist.refl _) fun call member => by
          cases member
          trivial
      · cases taken
        exact names.set idle (List.Sublist.refl _) fun call member => by
          cases member
          trivial
    · cases taken
  | step thread call =>
    simp only [userStep] at taken
    split at taken
    · rename_i userCall busy
      cases taken
      have lawful : userCall.Lawful :=
        names.lawful _ (List.mem_of_getElem? busy) userCall rfl
      exact names.set busy (userCall.next_names prints call lawful)
        (userCall.next_lawful state.db call)
    · cases taken

/-- While each creation sees the users of its name, no two stored users get the same name. -/
theorem users_stay_unique {initial last : UserState δ} (unique : UniqueNames initial.db)
    (idle : ∀ thread ∈ initial.threads, thread = none) {events : List UserEvent}
    (meets : EveryStep userStep SeesName initial events)
    (reached : runFrom userStep initial events = some last) : UniqueNames last.db := by
  have nothing : pendingNames initial.threads = [] := by
    refine List.filterMap_eq_nil_iff.mpr fun thread member => ?_
    rw [idle thread member]
    rfl
  have start : NamesApart initial := by
    refine { apart := ?_, lawful := fun thread member call held => ?_ }
    · rw [nothing, List.append_nil]
      exact unique
    · rw [idle thread member] at held
      cases held
  have names := invariant_runFrom (namesApart_keeps prints) start meets reached
  exact names.apart.sublist (List.sublist_append_left _ _)

end Runs

def twoThreads : UserState Rat :=
  { db := { documents := .empty, queryCache := none, docCache := none }
    threads := [none, none] }

def eve : NewUser :=
  { username := ascii "eve", passwordHash := ascii "hash" }

def createdThenFound : List UserEvent :=
  [.create 0 (some ⟨1, 1⟩) .virtual eve, .step 0 (some ⟨1, 2⟩),
    .create 1 (some ⟨1, 3⟩) .rbac eve]

theorem users_stay_unique_createdThenFound :
    ∃ last, runFrom userStep twoThreads createdThenFound = some last ∧ UniqueNames last.db := by
  have isSome : (runFrom userStep twoThreads createdThenFound).isSome = true := by
    decide +kernel
  obtain ⟨last, reached⟩ := Option.isSome_iff_exists.mp isSome
  refine ⟨last, reached, users_stay_unique printsNumber_rat ?_ ?_ ?_ reached⟩
  · decide
  · simp [twoThreads]
  · decide +kernel

/-- Both threads look for the user before one of them inserts it. -/
theorem not_users_stay_unique :
    ¬ ∀ (initial last : UserState Rat) (events : List UserEvent), UniqueNames initial.db →
      (∀ thread ∈ initial.threads, thread = none) →
        runFrom userStep initial events = some last → UniqueNames last.db := by
  intro claim
  let events : List UserEvent :=
    [.create 0 (some ⟨1, 1⟩) .virtual eve, .create 1 (some ⟨1, 2⟩) .virtual eve,
      .step 0 (some ⟨1, 3⟩), .step 1 (some ⟨1, 4⟩)]
  have stays : ∀ last ∈ runFrom userStep twoThreads events, UniqueNames last.db :=
    fun last reached => claim twoThreads last events (by decide) (by simp [twoThreads]) reached
  exact absurd stays (by decide +kernel)

end Jdbx
