import Jdbx.Rbac.Passwords
import Jdbx.Rbac.UserCreation

/-!
# Authentication

`rbac.c` and `rbac_db.c` each have a function that authenticates a user.  A run of creations and
deletions keeps which users there are beside the database that the two read.
-/

namespace Jdbx

open Library

variable {δ : Type}

structure RbacUser where
  id : Bytes
  username : Bytes
  passwordHash : Bytes
  roles : List Bytes

/-- `user_doc_to_rbac_user`. -/
def rbacUserOf (userDoc : JsonValue δ) : Option RbacUser :=
  match (jsonGetString (jsonObjectGet userDoc (ascii "uuid"))).or
      (jsonGetString (jsonObjectGet userDoc (ascii "id"))),
    jsonObjectGet userDoc (ascii "username"), jsonObjectGet userDoc (ascii "password_hash"),
    jsonObjectGet userDoc (ascii "roles") with
  | some id, some (.string username), some (.string passwordHash), some (.array _) =>
      some { id := id, username := username, passwordHash := passwordHash
             roles := roleIds userDoc }
  | _, _, _, _ => none

/-- The `db` of an `rbac_system_t`. -/
abbrev RbacSystem (δ : Type) := Option (Database δ)

section Functions

variable [CDouble δ]

def rbacDbGetUserByUsername (call : Option Moment) (db : Database δ) (username : Bytes) :
    Option RbacUser :=
  call.bind fun _ =>
    (foundDocuments (virtualQuery db (ascii "user") (ascii "system") (some (ascii "users"))
      (accountFilter .user (ascii "username") username))).head?.bind rbacUserOf

def rbacGetUserByUsername (call : Option Moment) (rbac : RbacSystem δ) (username : Bytes) :
    Option RbacUser :=
  rbac.bind fun db => rbacDbGetUserByUsername call db username

/-- `rbac_authenticate_user`, with the `NULL` of a system that is not there. -/
def rbacAuthenticateUser (pbkdf2 : Pbkdf2) (call : Option Moment)
    (rbac : Option (RbacSystem δ)) (username password : Bytes) : Option Bool :=
  match rbac.bind fun rbac => rbacGetUserByUsername call rbac username with
  | none => some false
  | some user => verifyPassword pbkdf2 password user.passwordHash

def rbacDbAuthenticateUser (pbkdf2 : Pbkdf2) (call : Option Moment) (db : Database δ)
    (username password : Bytes) : Option Bool :=
  match rbacDbGetUserByUsername call db username with
  | none => some false
  | some _ => rbacAuthenticateUser pbkdf2 call (none : Option (RbacSystem δ)) username password

def rbacCreateUser (calls : Calls) (rbac : RbacSystem δ) (username passwordHash : Bytes) :
    Option Bytes × RbacSystem δ :=
  match rbac with
  | none => (none, none)
  | some db =>
      let created := rbacDbCreateUser calls db username passwordHash
      (created.1, some created.2)

def rbacDeleteUser (calls : Calls) (rbac : RbacSystem δ) (userId : Bytes) :
    Bool × RbacSystem δ :=
  match rbac with
  | none => (false, none)
  | some db =>
      let deleted := rbacDbDeleteUser calls db userId
      (deleted.1, some deleted.2)

end Functions

/-! ## Runs -/

/-- A user that was created and has not been deleted. -/
structure ExistingUser where
  uuid : Bytes
  username : Bytes
  password : Bytes

structure AccountsState (δ : Type) where
  db : Database δ
  users : List ExistingUser

/-- The file whose function is called. -/
inductive RbacEntry where
  | rbac
  | rbacDb

inductive AccountEvent where
  | createUser (entry : RbacEntry) (calls : Calls) (salt : Salt) (username password : Bytes)
  | deleteUser (entry : RbacEntry) (calls : Calls) (userId : Bytes)

def AccountEvent.password : AccountEvent → Option Bytes
  | createUser _ _ _ _ password => some password
  | deleteUser _ _ _ => none

section Runs

variable [CDouble δ]

def RbacEntry.create (calls : Calls) (db : Database δ) (username passwordHash : Bytes) :
    RbacEntry → Option Bytes × Database δ
  | rbac =>
      let created := rbacCreateUser calls (some db) username passwordHash
      (created.1, created.2.getD db)
  | rbacDb => rbacDbCreateUser calls db username passwordHash

def RbacEntry.delete (calls : Calls) (db : Database δ) (userId : Bytes) :
    RbacEntry → Bool × Database δ
  | rbac =>
      let deleted := rbacDeleteUser calls (some db) userId
      (deleted.1, deleted.2.getD db)
  | rbacDb => rbacDbDeleteUser calls db userId

def accountStep (pbkdf2 : Pbkdf2) (state : AccountsState δ) :
    AccountEvent → Option (AccountsState δ)
  | .createUser entry calls salt username password =>
      let created := entry.create calls state.db username (hashPassword pbkdf2 salt password)
      some
        { db := created.2
          users := state.users ++ created.1.toList.map fun uuid =>
            { uuid := uuid, username := username, password := password } }
  | .deleteUser entry calls userId =>
      let deleted := entry.delete calls state.db userId
      some
        { db := deleted.2
          users :=
            if deleted.1 then state.users.filter (·.uuid != userId) else state.users }

omit [CDouble δ] in
def AccountsState.HasPassword (state : AccountsState δ) (username password : Bytes) : Prop :=
  ∃ user ∈ state.users, user.username = username ∧ user.password = password

omit [CDouble δ] in
instance (state : AccountsState δ) (username password : Bytes) :
    Decidable (state.HasPassword username password) :=
  inferInstanceAs (Decidable (∃ user ∈ state.users, _ ∧ _))

def AuthenticatesRight (pbkdf2 : Pbkdf2) (state : AccountsState δ) (call : Option Moment)
    (username password : Bytes) : Prop :=
  (rbacAuthenticateUser pbkdf2 call (some (some state.db)) username password = some true ↔
      state.HasPassword username password) ∧
    (rbacDbAuthenticateUser pbkdf2 call state.db username password = some true ↔
      state.HasPassword username password)

omit [CDouble δ] in
def newUserDocument (moment : Moment) (username passwordHash : Bytes) : JsonValue δ :=
  storageInserted moment (virtualInserted (ascii "user") (ascii "system") (some (ascii "users"))
    (userDocument username passwordHash) (ascii "system-admin"))

/-- The query of a creation finds the user of the name.  Where there is none, no byte of the name
is escaped, the uuid is new, and the document of the user is read back. -/
def CreatesReadable (pbkdf2 : Pbkdf2) (state : AccountsState δ) : AccountEvent → Prop
  | .createUser _ calls salt username password => ∀ moment ∈ calls 1,
      if ∃ user ∈ state.users, user.username = username then (calls 0).isSome = true
      else
        Plain username ∧ skiplistSearch state.db.documents (documentUuid moment) = none ∧
          ReadsBack (newUserDocument moment username (hashPassword pbkdf2 salt password) :
            JsonValue δ)
  | .deleteUser _ _ _ => True

instance (document : JsonValue δ) : Decidable (ReadsBack document) :=
  inferInstanceAs (Decidable (_ = true))

instance (pbkdf2 : Pbkdf2) (state : AccountsState δ) :
    ∀ event, Decidable (CreatesReadable pbkdf2 state event)
  | .createUser _ calls salt username password =>
      inferInstanceAs (Decidable (∀ moment ∈ calls 1,
        if ∃ user ∈ state.users, user.username = username then (calls 0).isSome = true
        else
          Plain username ∧ skiplistSearch state.db.documents (documentUuid moment) = none ∧
            ReadsBack (newUserDocument moment username (hashPassword pbkdf2 salt password) :
              JsonValue δ)))
  | .deleteUser _ _ _ => inferInstanceAs (Decidable True)

/-! ## The store of the users -/

def documentUnder (db : Database δ) (uuid : Bytes) : Option (JsonValue δ) :=
  (skiplistSearch db.documents uuid).bind fun text => storedDocument (uuid, text)

omit [CDouble δ] in
/-- The document of a user. -/
structure IsUser (pbkdf2 : Pbkdf2) (user : ExistingUser) (doc : JsonValue δ) : Prop where
  account : IsAccount .user user.uuid [] doc
  named : jsonObjectGet doc (ascii "username") = some (.string user.username)
  hashed : ∃ salt, jsonObjectGet doc (ascii "password_hash") =
    some (.string (hashPassword pbkdf2 salt user.password))

/-- The users are stored, no other document is a user, and no two have one name. -/
structure UsersStored (pbkdf2 : Pbkdf2) (state : AccountsState δ) : Prop where
  stored : ∀ user ∈ state.users, ∃ doc, documentUnder state.db user.uuid = some doc ∧
    IsUser pbkdf2 user doc
  known : ∀ uuid doc, documentUnder state.db uuid = some doc →
    BelongsTo (ascii "user") (ascii "system") doc →
      ∃ user ∈ state.users, user.uuid = uuid ∧ IsUser pbkdf2 user doc
  distinct : (state.users.map (·.username)).Nodup

def userQuery (key value : Bytes) : JsonValue δ :=
  .object ([(ascii "type", ascii "user"), (ascii "library", ascii "system"),
    (ascii "collection", ascii "users"), (key, value)].map fun entry =>
      (entry.1, .string entry.2))

section Stored

variable {pbkdf2 : Pbkdf2} {state : AccountsState δ} {user other : ExistingUser}
  {doc : JsonValue δ} {filters : JsonValue δ} {key value : Bytes}

omit [CDouble δ] in
theorem IsUser.rbacUserOf (isUser : IsUser pbkdf2 user doc) :
    ∃ salt, ∃ found, Jdbx.rbacUserOf doc = some found ∧
      found.passwordHash = hashPassword pbkdf2 salt user.password := by
  obtain ⟨salt, hashed⟩ := isUser.hashed
  have lists : jsonObjectGet doc (ascii "roles") = some (idArray []) := isUser.account.lists
  let found : RbacUser :=
    { id := user.uuid, username := user.username
      passwordHash := hashPassword pbkdf2 salt user.password, roles := roleIds doc }
  refine ⟨salt, found, ?_, rfl⟩
  rw [Jdbx.rbacUserOf, isUser.account.named, isUser.named, hashed, lists]
  rfl

theorem mem_listed_iff (db : Database δ) :
    doc ∈ (db.documents.entries.filterMap storedDocument : List (JsonValue δ)) ↔
      ∃ uuid, documentUnder db uuid = some doc := by
  constructor
  · intro listed
    obtain ⟨⟨uuid, text⟩, member, stored⟩ := List.mem_filterMap.mp listed
    refine ⟨uuid, ?_⟩
    rw [documentUnder, skiplistSearch, getEntry_eq_some_of_mem db.documents.distinct member]
    exact stored
  · rintro ⟨uuid, under⟩
    obtain ⟨text, searched, stored⟩ := Option.bind_eq_some_iff.mp under
    exact List.mem_filterMap.mpr ⟨(uuid, text), mem_of_getEntry_eq_some searched, stored⟩

theorem UsersStored.of_found (users : UsersStored pbkdf2 state)
    (asks : unifiedQuery (ascii "user") (ascii "system") (some (ascii "users")) filters =
      userQuery key value)
    (asked : jsonObjectGet (userQuery key value : JsonValue δ) key = some (.string value))
    (found : doc ∈ foundDocuments (virtualQuery state.db (ascii "user") (ascii "system")
      (some (ascii "users")) filters)) :
    ∃ user ∈ state.users, documentUnder state.db user.uuid = some doc ∧
      IsUser pbkdf2 user doc ∧ jsonObjectGet doc key = some (.string value) := by
  rw [foundDocuments_virtualQuery, asks] at found
  obtain ⟨listed, matched⟩ := List.mem_filter.mp found
  obtain ⟨uuid, under⟩ := (mem_listed_iff state.db).mp listed
  have field : ∀ {tested text : Bytes},
      jsonObjectGet (userQuery key value : JsonValue δ) tested = some (.string text) →
        jsonGetString (jsonObjectGet doc tested) = some text := by
    intro tested text asked
    exact (storageFieldMatches_string (matchesQuery_field matched asked)).trans
      (congrArg jsonGetString asked)
  obtain ⟨user, member, rfl, isUser⟩ := users.known uuid doc under ⟨field rfl, field rfl⟩
  exact ⟨user, member, under, isUser, jsonGetString_eq_string (field asked)⟩

theorem UsersStored.found (users : UsersStored pbkdf2 state)
    (asks : unifiedQuery (ascii "user") (ascii "system") (some (ascii "users")) filters =
      userQuery key value)
    (distinct : (entryKeys [(ascii "type", ascii "user"), (ascii "library", ascii "system"),
      (ascii "collection", ascii "users"), (key, value)]).Nodup)
    (member : user ∈ state.users)
    (held : ∀ doc : JsonValue δ, IsUser pbkdf2 user doc →
      jsonObjectGet doc key = some (.string value)) :
    ∃ doc ∈ foundDocuments (virtualQuery state.db (ascii "user") (ascii "system")
      (some (ascii "users")) filters), IsUser pbkdf2 user doc := by
  obtain ⟨doc, under, isUser⟩ := users.stored user member
  refine ⟨doc, ?_, isUser⟩
  rw [foundDocuments_virtualQuery, asks]
  refine List.mem_filter.mpr ⟨(mem_listed_iff state.db).mpr ⟨_, under⟩,
    matchesQuery_strings _ distinct ?_⟩
  simp only [List.forall_mem_cons]
  refine ⟨?_, ?_, ?_, ?_, by simp⟩
  · exact congrArg jsonGetString isUser.account.typed
  · exact congrArg jsonGetString isUser.account.placed
  · exact congrArg jsonGetString isUser.account.collected
  · exact congrArg jsonGetString (held doc isUser)

omit [CDouble δ] in
theorem username_distinct (value : Bytes) :
    (entryKeys [(ascii "type", ascii "user"), (ascii "library", ascii "system"),
      (ascii "collection", ascii "users"), (ascii "username", value)]).Nodup := by
  simp only [entryKeys, List.map]
  decide

theorem UsersStored.getUser (users : UsersStored pbkdf2 state) (moment : Moment)
    (member : user ∈ state.users) :
    ∃ salt, ∃ found,
      rbacDbGetUserByUsername (some moment) state.db user.username = some found ∧
        found.passwordHash = hashPassword pbkdf2 salt user.password := by
  obtain ⟨doc, inFound, -⟩ := users.found
    (show unifiedQuery _ _ _ (accountFilter .user (ascii "username") user.username) = _ from rfl)
    (username_distinct _) member fun doc isUser => isUser.named
  obtain ⟨first, head⟩ := Option.ne_none_iff_exists'.mp
    (fun none => List.ne_nil_of_mem inFound (List.head?_eq_none_iff.mp none))
  obtain ⟨holder, isMember, -, isUser, named⟩ :=
    users.of_found rfl rfl (List.mem_of_mem_head? head)
  have sameName : holder.username = user.username := by
    rw [isUser.named] at named
    exact JsonValue.string.inj (Option.some.inj named)
  obtain rfl : holder = user :=
    List.inj_on_of_nodup_map users.distinct isMember member sameName
  obtain ⟨salt, found, converted, hash⟩ := isUser.rbacUserOf
  refine ⟨salt, found, ?_, hash⟩
  rw [rbacDbGetUserByUsername, Option.bind_some, head, Option.bind_some, converted]

theorem UsersStored.noUser (users : UsersStored pbkdf2 state) {username : Bytes}
    (noName : ∀ user ∈ state.users, user.username ≠ username)
    (asks : unifiedQuery (ascii "user") (ascii "system") (some (ascii "users")) filters =
      userQuery (ascii "username") username) :
    foundDocuments (virtualQuery state.db (ascii "user") (ascii "system") (some (ascii "users"))
      filters) = [] := by
  refine List.eq_nil_iff_forall_not_mem.mpr fun doc found => ?_
  obtain ⟨user, member, -, isUser, named⟩ := users.of_found asks rfl found
  rw [isUser.named] at named
  exact noName user member (JsonValue.string.inj (Option.some.inj named))

theorem UsersStored.authenticate (users : UsersStored pbkdf2 state) {passwords : Set Bytes}
    (injective : ∀ salt,
      Set.InjOn (fun password => pbkdf2 password salt pbkdf2Iterations) passwords)
    (inside : ∀ user ∈ state.users, user.password ∈ passwords) (moment : Moment)
    (username : Bytes) {password : Bytes} (isPassword : password ∈ passwords) :
    rbacAuthenticateUser pbkdf2 (some moment) (some (some state.db)) username password =
        some true ↔
      state.HasPassword username password := by
  rw [rbacAuthenticateUser, Option.bind_some, rbacGetUserByUsername, Option.bind_some]
  by_cases named : ∃ user ∈ state.users, user.username = username
  · obtain ⟨user, member, rfl⟩ := named
    obtain ⟨salt, found, got, hash⟩ := users.getUser moment member
    rw [got]
    simp only [hash]
    rw [verifyPassword_hashPassword]
    constructor
    · intro same
      exact ⟨user, member, rfl, (injective salt isPassword (inside user member) same).symm⟩
    · intro ⟨other, isMember, sameName, samePassword⟩
      obtain rfl : other = user :=
        List.inj_on_of_nodup_map users.distinct isMember member sameName
      rw [samePassword]
  · have noName : ∀ user ∈ state.users, user.username ≠ username :=
      fun user member same => named ⟨user, member, same⟩
    have nothing := users.noUser noName
      (show unifiedQuery _ _ _ (accountFilter .user (ascii "username") username) = _ from rfl)
    have notFound : rbacDbGetUserByUsername (some moment) state.db username = none := by
      rw [rbacDbGetUserByUsername, Option.bind_some, nothing]
      rfl
    rw [notFound]
    refine iff_of_false (fun absurdity => by cases absurdity) ?_
    intro ⟨user, member, same, _⟩
    exact noName user member same

theorem not_rbacDbAuthenticateUser (call : Option Moment) (db : Database δ)
    (username password : Bytes) :
    rbacDbAuthenticateUser pbkdf2 call db username password = some false := by
  rw [rbacDbAuthenticateUser]
  cases rbacDbGetUserByUsername call db username with
  | none => rfl
  | some user => rfl

/-! ## Creations and deletions -/

omit [CDouble δ] in
theorem RbacEntry.create_eq [CDouble δ] (entry : RbacEntry) (calls : Calls) (db : Database δ)
    (username passwordHash : Bytes) :
    entry.create calls db username passwordHash =
      rbacDbCreateUser calls db username passwordHash := by
  cases entry with
  | rbac => rfl
  | rbacDb => rfl

theorem RbacEntry.delete_eq (entry : RbacEntry) (calls : Calls) (db : Database δ)
    (userId : Bytes) :
    entry.delete calls db userId = rbacDbDeleteUser calls db userId := by
  cases entry with
  | rbac => rfl
  | rbacDb => rfl

theorem formatInt64_plain : Plain (formatInt64 pbkdf2Iterations.toInt64) := by
  decide +kernel

theorem toHex_plain (bytes : Bytes) : Plain (toHex bytes) := by
  intro digit member
  have isDigit := toHex_isxdigit bytes digit member
  simp only [isxdigit, isdigit, Bool.or_eq_true, Bool.and_eq_true, decide_eq_true_eq] at isDigit
  simp only [isEscaped, Bool.or_eq_false_iff, decide_eq_false_iff_not]
  grind

theorem hashPassword_plain (salt : Salt) (password : Bytes) :
    Plain (hashPassword pbkdf2 salt password) := by
  have fixed : Plain (ascii "$pbkdf2$") ∧ Plain (ascii "$") := by decide
  intro byte member
  simp only [hashPassword, List.mem_append] at member
  rcases member with start | iterations | dollar | saltHex | dollar | hashHex
  · exact fixed.1 byte start
  · exact formatInt64_plain byte iterations
  · exact fixed.2 byte dollar
  · exact toHex_plain _ byte saltHex
  · exact fixed.2 byte dollar
  · exact toHex_plain _ byte hashHex

variable (prints : ∀ number : δ, PrintsNumber number) {username password : Bytes} {moment : Moment}
include prints

theorem isUser_new {salt : Salt} (plain : Plain username)
    (reads : ReadsBack (newUserDocument moment username (hashPassword pbkdf2 salt password) :
      JsonValue δ)) :
    ∃ doc : JsonValue δ,
      storedDocument (documentUuid moment,
          jsonStringify (newUserDocument moment username (hashPassword pbkdf2 salt password) :
            JsonValue δ)) = some doc ∧
      IsUser pbkdf2
        { uuid := documentUuid moment, username := username, password := password } doc := by
  let hash := hashPassword pbkdf2 salt password
  have isDocument : IsJsonObject (userDocument username hash : JsonValue δ) :=
    userDocument_isObject username hash
  have account : IsAccount .user (documentUuid moment) []
      (newUserDocument moment username hash : JsonValue δ) :=
    isAccount_inserted isDocument rfl (userDocument_lacks username hash) moment
  have isInserted := virtualInserted_isObject isDocument (ascii "user") (ascii "system")
    (some (ascii "users")) (ascii "system-admin")
  obtain ⟨value, read⟩ := Option.isSome_iff_exists.mp reads
  obtain ⟨same, isObject⟩ := account.isObject.parsed prints read
  have text : ∀ {key value : Bytes}, Plain key → Plain value → key ≠ ascii "uuid" →
      key ≠ ascii "created_at" → key ≠ ascii "modified_at" →
        jsonObjectGet (virtualInserted (ascii "user") (ascii "system") (some (ascii "users"))
          (userDocument username hash : JsonValue δ) (ascii "system-admin")) key =
            some (.string value) →
          jsonObjectGet (rereadValue (newUserDocument moment username hash : JsonValue δ)) key =
            some (.string value) := by
    intro key value plainKey plainValue notUuid notCreated notModified held
    rw [account.isObject.get_reread plainKey, newUserDocument,
      storageInserted_get isInserted notUuid notCreated notModified, held]
    exact congrArg some ((rereadValue_eq_string plainValue).mpr rfl)
  have isReread : IsUser pbkdf2
      { uuid := documentUuid moment, username := username, password := password }
      (rereadValue (newUserDocument moment username hash : JsonValue δ)) :=
    { account := account.reread (documentUuid_plain moment) nofun (same ▸ isObject)
      named := text (by decide) plain (by decide) (by decide) (by decide) rfl
      hashed := ⟨salt, text (by decide) (hashPassword_plain salt password) (by decide) (by decide)
        (by decide) rfl⟩ }
  refine ⟨rereadValue (newUserDocument moment username hash), ?_, isReread⟩
  rw [same] at read
  obtain ⟨fields, layout, -⟩ := isReread.account.isObject
  rw [storedDocument, read, layout]

omit prints in
theorem documentUnder_insert {uuid tested text : Bytes} {db : Database δ}
    (absent : skiplistSearch db.documents uuid = none) :
    (documentUnder { db with documents := skiplistInsert db.documents uuid text } tested :
        Option (JsonValue δ)) =
      if tested = uuid then storedDocument (uuid, text) else documentUnder db tested := by
  rw [documentUnder]
  split_ifs with same
  · rw [same, skiplistSearch_insert_self absent, Option.bind_some]
  · rw [skiplistSearch_insert_of_ne same, documentUnder]

theorem UsersStored.insert (users : UsersStored pbkdf2 state) {salt : Salt}
    (noName : ∀ user ∈ state.users, user.username ≠ username) (plain : Plain username)
    (absent : skiplistSearch state.db.documents (documentUuid moment) = none)
    (reads : ReadsBack (newUserDocument moment username (hashPassword pbkdf2 salt password) :
      JsonValue δ)) :
    UsersStored pbkdf2
      { db := { state.db with
          documents := skiplistInsert state.db.documents (documentUuid moment)
            (jsonStringify (newUserDocument moment username
              (hashPassword pbkdf2 salt password) : JsonValue δ)) }
        users := state.users ++
          [{ uuid := documentUuid moment, username := username, password := password }] } := by
  obtain ⟨doc, stored, isUser⟩ := isUser_new prints plain reads
  have others : ∀ user ∈ state.users, user.uuid ≠ documentUuid moment := by
    intro user member same
    obtain ⟨held, under, -⟩ := users.stored user member
    rw [documentUnder, same, absent] at under
    cases under
  refine { stored := ?_, known := ?_, distinct := ?_ }
  · intro user member
    rw [documentUnder_insert absent]
    rcases List.mem_append.mp member with old | new
    · rw [if_neg (others user old)]
      exact users.stored user old
    · rw [List.mem_singleton.mp new, if_pos rfl]
      exact ⟨doc, stored, isUser⟩
  · intro uuid found under belongs
    rw [documentUnder_insert absent] at under
    split_ifs at under with same
    · obtain rfl := Option.some.inj (stored.symm.trans under)
      exact ⟨_, List.mem_append_right _ List.mem_cons_self, same.symm, isUser⟩
    · obtain ⟨user, member, named⟩ := users.known uuid found under belongs
      exact ⟨user, List.mem_append_left _ member, named⟩
  · rw [List.map_append, List.map_singleton]
    refine users.distinct.append (List.nodup_singleton _) fun name old new => ?_
    obtain ⟨user, member, rfl⟩ := List.mem_map.mp old
    exact noName user member (List.mem_singleton.mp new)

omit prints in
theorem rbacDbCreateUser_inserts {calls : Calls} {username hash : Bytes} {db : Database δ}
    (notFound : findAccount (calls 0) db .user (.object [(ascii "username", .string username)]) =
      none) (happens : calls 1 = some moment) :
    rbacDbCreateUser calls db username hash =
      (some (documentUuid moment), { db with
        documents := skiplistInsert db.documents (documentUuid moment)
          (jsonStringify (newUserDocument moment username hash : JsonValue δ)) }) := by
  have isDocument : IsJsonObject (userDocument username hash : JsonValue δ) :=
    userDocument_isObject username hash
  have account : IsAccount .user (documentUuid moment) []
      (newUserDocument moment username hash : JsonValue δ) :=
    isAccount_inserted isDocument rfl (userDocument_lacks username hash) moment
  have named : jsonGetString (jsonObjectGet (jsonDeepCopy
      (newUserDocument moment username hash : JsonValue δ)) (ascii "uuid")) =
        some (documentUuid moment) := by
    rw [account.isObject.get_deepCopy, account.named]
    rfl
  have inserted : virtualInsert moment db AccountType.user.name (ascii "system")
      (some AccountType.user.collection) (userDocument username hash) (ascii "system-admin") =
        (jsonDeepCopy (newUserDocument moment username hash), { db with
          documents := skiplistInsert db.documents (documentUuid moment)
            (jsonStringify (newUserDocument moment username hash : JsonValue δ)) }) := rfl
  rw [rbacDbCreateUser, createAccount, notFound]
  simp only [happens, inserted, named]

theorem UsersStored.create (users : UsersStored pbkdf2 state) {entry : RbacEntry} {calls : Calls}
    {salt : Salt} {next : AccountsState δ}
    (readable : CreatesReadable pbkdf2 state (.createUser entry calls salt username password))
    (taken : accountStep pbkdf2 state (.createUser entry calls salt username password) =
      some next) :
    UsersStored pbkdf2 next := by
  cases taken
  simp only [RbacEntry.create_eq]
  let filters : JsonValue δ := .object [(ascii "username", .string username)]
  have asks : unifiedQuery (ascii "user") (ascii "system") (some (ascii "users")) filters =
      userQuery (ascii "username") username := rfl
  -- A creation that inserts nothing leaves the store and the users.
  have unchanged : rbacDbCreateUser calls state.db username (hashPassword pbkdf2 salt password) =
      (none, state.db) → UsersStored pbkdf2
        { db := (rbacDbCreateUser calls state.db username
            (hashPassword pbkdf2 salt password)).2
          users := state.users ++ (rbacDbCreateUser calls state.db username
            (hashPassword pbkdf2 salt password)).1.toList.map fun uuid =>
              { uuid := uuid, username := username, password := password } } := by
    intro nothing
    rw [nothing, Option.toList_none, List.map_nil, List.append_nil]
    exact users
  cases happens : calls 1 with
  | none =>
      apply unchanged
      rw [rbacDbCreateUser, createAccount]
      split
      · rfl
      · rw [happens]
  | some moment =>
      have condition := readable moment happens
      by_cases named : ∃ user ∈ state.users, user.username = username
      · rw [if_pos named] at condition
        obtain ⟨user, member, same⟩ := named
        obtain ⟨query, asked⟩ := Option.isSome_iff_exists.mp condition
        obtain ⟨doc, found, -⟩ := users.found asks (username_distinct _) member
          fun doc isUser => same ▸ isUser.named
        apply unchanged
        obtain ⟨first, head⟩ := Option.ne_none_iff_exists'.mp
          (fun none => List.ne_nil_of_mem found (List.head?_eq_none_iff.mp none))
        have account : findAccount (calls 0) state.db .user filters = some (jsonClone first) := by
          rw [findAccount, asked, Option.bind_some]
          exact congrArg (Option.map jsonClone) head
        rw [rbacDbCreateUser, createAccount, account]
      · rw [if_neg named] at condition
        have noName : ∀ user ∈ state.users, user.username ≠ username :=
          fun user member same => named ⟨user, member, same⟩
        have notFound : findAccount (calls 0) state.db .user filters = none := by
          cases asked : calls 0 with
          | none => rfl
          | some query =>
              have nothing := users.noUser noName asks
              rw [findAccount, Option.bind_some]
              exact congrArg (fun found => (List.head? found).map jsonClone) nothing
        rw [rbacDbCreateUser_inserts notFound happens]
        exact users.insert prints noName condition.1 condition.2.1 condition.2.2

omit prints in
theorem UsersStored.of_findAccount (users : UsersStored pbkdf2 state) {call : Option Moment}
    {userId : Bytes} {userDoc : JsonValue δ}
    (asks : unifiedQuery (ascii "user") (ascii "system") (some (ascii "users")) filters =
      userQuery (ascii "uuid") userId)
    (found : findAccount call state.db .user filters = some userDoc) :
    jsonObjectGet userDoc (ascii "uuid") = some (.string userId) ∧
      jsonObjectGet userDoc (ascii "roles") = some (.array []) := by
  obtain ⟨_, _, first⟩ := Option.bind_eq_some_iff.mp found
  obtain ⟨doc, head, rfl⟩ := Option.map_eq_some_iff.mp first
  obtain ⟨user, _, _, isUser, named⟩ := users.of_found asks rfl (List.mem_of_mem_head? head)
  have lists : jsonObjectGet doc (ascii "roles") = some (.array []) := isUser.account.lists
  obtain ⟨fields, rfl, levels, copyable⟩ := isUser.account.isObject
  rw [jsonClone_eq_self_of_copyable copyable]
  exact ⟨named, lists⟩

omit prints in
theorem UsersStored.rbacDbDeleteUser (users : UsersStored pbkdf2 state) (calls : Calls)
    (userId : Bytes) :
    Jdbx.rbacDbDeleteUser calls state.db userId = (false, state.db) ∨
      Jdbx.rbacDbDeleteUser calls state.db userId = virtualDelete state.db userId := by
  rw [Jdbx.rbacDbDeleteUser]
  cases found : findByUuid (calls 0) (calls 1) state.db .user userId (uuidFilter userId) with
  | none => exact Or.inl rfl
  | some userDoc =>
      have facts : jsonObjectGet userDoc (ascii "uuid") = some (.string userId) ∧
          jsonObjectGet userDoc (ascii "roles") = some (.array []) := by
        rcases Option.or_eq_some_iff.mp found with first | ⟨_, second⟩
        · exact users.of_findAccount rfl first
        · exact users.of_findAccount rfl second
      have docId : (if (findAccount (calls 0) state.db .user (uuidFilter userId)).isSome then
            some userId
          else jsonGetString (jsonObjectGet userDoc (ascii "uuid"))) = some userId := by
        rw [facts.1]
        split_ifs
        · rfl
        · rfl
      simp only [facts.2, docId, removeFromRoles]
      cases calls 2 with
      | none => exact Or.inl rfl
      | some moment => exact Or.inr rfl

omit prints in
theorem documentUnder_delete (db : Database δ) (uuid tested : Bytes) :
    (documentUnder { db with documents := skiplistDelete db.documents uuid } tested :
        Option (JsonValue δ)) =
      if tested = uuid then none else documentUnder db tested := by
  rw [documentUnder]
  split_ifs with same
  · rw [same, skiplistSearch, skiplistDelete, getEntry_removeEntry_self db.documents.distinct,
      Option.bind_none]
  · rw [skiplistSearch_delete_of_ne same, documentUnder]

omit prints in
theorem UsersStored.delete (users : UsersStored pbkdf2 state) {entry : RbacEntry} {calls : Calls}
    {userId : Bytes} {next : AccountsState δ}
    (taken : accountStep pbkdf2 state (.deleteUser entry calls userId) = some next) :
    UsersStored pbkdf2 next := by
  cases taken
  simp only [RbacEntry.delete_eq]
  rcases users.rbacDbDeleteUser calls userId with nothing | deleted
  · rw [nothing]
    exact users
  · rw [deleted, virtualDelete, storageDeleteDocument]
    cases searched : skiplistSearch state.db.documents userId with
    | none => exact users
    | some text =>
        refine { stored := ?_, known := ?_, distinct := ?_ }
        · intro user member
          obtain ⟨isOld, other⟩ := List.mem_filter.mp member
          rw [documentUnder_delete, if_neg (bne_iff_ne.mp other)]
          exact users.stored user isOld
        · intro uuid doc under belongs
          rw [documentUnder_delete] at under
          split_ifs at under with same
          obtain ⟨user, member, named, isUser⟩ := users.known uuid doc under belongs
          refine ⟨user, List.mem_filter.mpr ⟨member, bne_iff_ne.mpr ?_⟩, named, isUser⟩
          rw [named]
          exact same
        · exact users.distinct.sublist (List.filter_sublist.map _)

end Stored

omit [CDouble δ] in
def AccountsState.start (db : Database δ) : AccountsState δ :=
  { db := db, users := [] }

omit [CDouble δ] in
theorem passwords_accountStep [CDouble δ] {pbkdf2 : Pbkdf2} {passwords : Set Bytes}
    {state next : AccountsState δ} {event : AccountEvent}
    (taken : accountStep pbkdf2 state event = some next)
    (inside : ∀ user ∈ state.users, user.password ∈ passwords)
    (isKnown : ∀ password ∈ event.password, password ∈ passwords) :
    ∀ user ∈ next.users, user.password ∈ passwords := by
  cases event with
  | createUser entry calls salt username password =>
      cases taken
      intro user member
      rcases List.mem_append.mp member with old | new
      · exact inside user old
      · obtain ⟨uuid, -, rfl⟩ := List.mem_map.mp new
        exact isKnown password rfl
  | deleteUser entry calls userId =>
      cases taken
      intro user member
      simp only at member
      split_ifs at member
      · exact inside user (List.mem_of_mem_filter member)
      · exact inside user member

/-- After creations that are read back, `rbac_authenticate_user` authenticates just the users that
there are, and the two functions are both right about a name and a password just where no user
has them. -/
theorem authenticatesRight_iff (prints : ∀ number : δ, PrintsNumber number) {pbkdf2 : Pbkdf2}
    {passwords : Set Bytes}
    (injective : ∀ salt,
      Set.InjOn (fun password => pbkdf2 password salt pbkdf2Iterations) passwords)
    {db : Database δ}
    (nobody : ∀ uuid doc, documentUnder db uuid = some doc →
      ¬ BelongsTo (ascii "user") (ascii "system") doc)
    {events : List AccountEvent} {last : AccountsState δ}
    (isKnown : ∀ event ∈ events, ∀ password ∈ event.password, password ∈ passwords)
    (readable : EveryStep (accountStep pbkdf2) (CreatesReadable pbkdf2)
      (AccountsState.start db) events)
    (reached : runFrom (accountStep pbkdf2) (AccountsState.start db) events = some last)
    (username : Bytes) {password : Bytes} (isPassword : password ∈ passwords) :
    (∀ moment, rbacAuthenticateUser pbkdf2 (some moment) (some (some last.db)) username password =
        some true ↔ last.HasPassword username password) ∧
      ∀ call, AuthenticatesRight pbkdf2 last call username password ↔
        ¬ last.HasPassword username password := by
  let invariant : AccountsState δ → Prop := fun state =>
    UsersStored pbkdf2 state ∧ ∀ user ∈ state.users, user.password ∈ passwords
  have keeps : Keeps (accountStep pbkdf2)
      (fun state event => event ∈ events ∧ CreatesReadable pbkdf2 state event) invariant := by
    intro state event next ⟨users, inside⟩ ⟨member, condition⟩ taken
    refine ⟨?_, passwords_accountStep taken inside (isKnown event member)⟩
    cases event with
    | createUser entry calls salt username password => exact users.create prints condition taken
    | deleteUser entry calls userId => exact users.delete taken
  have start : invariant (AccountsState.start db) :=
    ⟨{ stored := nofun
       known := fun uuid doc under belongs => absurd belongs (nobody uuid doc under)
       distinct := List.nodup_nil }, nofun⟩
  obtain ⟨users, inside⟩ := invariant_runFrom keeps start readable.and_mem reached
  have exactly := fun moment => users.authenticate injective inside moment username isPassword
  refine ⟨exactly, fun call => ?_⟩
  have notSome : ¬ (some false = some true) := nofun
  rw [AuthenticatesRight, not_rbacDbAuthenticateUser, iff_false_left notSome]
  constructor
  · intro both
    exact both.2
  · intro hasNot
    refine ⟨iff_of_false ?_ hasNot, hasNot⟩
    cases call with
    | none => exact notSome
    | some moment => exact fun authenticated => hasNot ((exactly moment).mp authenticated)

end Runs

/-- The digests of two passwords, for the salt of the bytes from 0 to 15. -/
def twoDigests : Pbkdf2 := fun password _ _ =>
  if password = ascii "secret" then
    #v[56, 137, 142, 200, 98, 144, 188, 15, 22, 48, 131, 124, 91, 11, 156, 149, 70, 69, 15, 41,
      41, 9, 143, 209, 197, 99, 139, 5, 51, 158, 241, 248]
  else
    #v[225, 52, 47, 211, 192, 198, 127, 43, 42, 30, 156, 50, 200, 205, 85, 67, 74, 207, 5, 59,
      209, 115, 51, 253, 182, 91, 109, 255, 72, 112, 194, 104]

def countedSalt : Salt := Vector.range 16 |>.map Nat.toUInt8

def noDocuments : Database Rat :=
  { documents := .empty, queryCache := none, docCache := none }

def aliceEvents : List AccountEvent :=
  [.createUser .rbacDb (fun place => some ⟨1, place.toUInt32⟩) countedSalt (ascii "alice")
      (ascii "secret"),
    .createUser .rbac (fun place => some ⟨2, place.toUInt32⟩) countedSalt (ascii "alice")
      (ascii "guess"),
    .deleteUser .rbac (fun place => some ⟨3, place.toUInt32⟩) (ascii "doc-0")]

theorem twoDigests_injOn (salt : Salt) :
    Set.InjOn (fun password => twoDigests password salt pbkdf2Iterations)
      {ascii "secret", ascii "guess"} := by
  have different : twoDigests (ascii "secret") salt pbkdf2Iterations ≠
      twoDigests (ascii "guess") salt pbkdf2Iterations := by
    rw [twoDigests, twoDigests, if_pos rfl, if_neg (by decide)]
    decide
  intro first isFirst second isSecond same
  rcases isFirst with rfl | rfl
  · rcases isSecond with rfl | rfl
    · rfl
    · exact absurd same different
  · rcases isSecond with rfl | rfl
    · exact absurd same.symm different
    · rfl

theorem authenticatesRight_iff_alice :
    ∃ last, runFrom (accountStep twoDigests) (AccountsState.start noDocuments) aliceEvents =
        some last ∧
      (∀ moment, rbacAuthenticateUser twoDigests (some moment) (some (some last.db))
          (ascii "alice") (ascii "guess") = some true ↔
        last.HasPassword (ascii "alice") (ascii "guess")) ∧
      ∀ call, AuthenticatesRight twoDigests last call (ascii "alice") (ascii "guess") ↔
        ¬ last.HasPassword (ascii "alice") (ascii "guess") := by
  obtain ⟨last, reached⟩ : ∃ last, runFrom (accountStep twoDigests)
      (AccountsState.start noDocuments) aliceEvents = some last := ⟨_, rfl⟩
  refine ⟨last, reached, authenticatesRight_iff printsNumber_rat twoDigests_injOn ?_ ?_ ?_ reached
    _ (Or.inr rfl)⟩
  · exact fun uuid doc absurdity => by cases absurdity
  · intro event member password held
    simp only [aliceEvents, List.mem_cons, List.not_mem_nil, or_false] at member
    rcases member with rfl | rfl | rfl
    · exact Or.inl (Option.some.inj held).symm
    · exact Or.inr (Option.some.inj held).symm
    · cases held
  · decide +kernel

/-- The database authenticates nobody, not even the user that was created. -/
theorem not_authenticatesRight_alice :
    ∃ last, runFrom (accountStep twoDigests) (AccountsState.start noDocuments) aliceEvents =
        some last ∧
      last.HasPassword (ascii "alice") (ascii "secret") ∧
      ¬ AuthenticatesRight twoDigests last (some ⟨4, 0⟩) (ascii "alice") (ascii "secret") := by
  obtain ⟨last, reached⟩ : ∃ last, runFrom (accountStep twoDigests)
      (AccountsState.start noDocuments) aliceEvents = some last := ⟨_, rfl⟩
  have created : ∀ last ∈ runFrom (accountStep twoDigests) (AccountsState.start noDocuments)
      aliceEvents, last.HasPassword (ascii "alice") (ascii "secret") := by
    decide +kernel
  have has := created last reached
  refine ⟨last, reached, has, fun right => ?_⟩
  have authenticated := right.2.mpr has
  rw [not_rbacDbAuthenticateUser] at authenticated
  cases authenticated

end Jdbx
