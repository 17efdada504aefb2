import Jdbx.Library.MutualLists
import Jdbx.Rbac.RbacRuns

/-!
# The roles of a user and the users of a role

One relation is stored in two documents.  An addition writes both, a deletion of a user
writes all its roles, and the deletion of a role writes no user.
-/

namespace Jdbx

open Library

variable {δ : Type} [CDouble δ]

def listedIds (db : Database δ) (type : AccountType) (uuid : Bytes) : List Bytes :=
  match (storedAccount db type uuid).bind fun doc => jsonObjectGet doc type.list with
  | some (.array items) => items.filterMap fun item => jsonGetString (some item)
  | _ => []

structure MembershipHolds (db : Database δ) : Prop where
  agree : ∀ user role,
    role ∈ listedIds db .user user ↔ user ∈ listedIds db .role role
  distinct : ∀ type uuid, (listedIds db type uuid).Nodup
  stored : ∀ type uuid, ∀ id ∈ listedIds db type uuid, (storedAccount db type.other id).isSome

def PatchReadsBack (moment : Moment) (patch existing : JsonValue δ) : Prop :=
  ReadsBack (updatedDocument moment (virtualPatch moment patch) existing)

def withList (type : AccountType) (ids : List Bytes) (doc : JsonValue δ) : JsonValue δ :=
  jsonObjectSet doc type.list (idArray ids)

/-- An addition reads no stale copy, and writes both documents or none. -/
def AddsBoth (calls : Calls) (db : Database δ) (userId roleId : Bytes) : Prop :=
  (rbacDbGetUser (calls 0) (calls 1) db userId).isSome →
    (rbacDbGetRole (calls 2) (calls 3) db roleId).isSome →
      (calls 4).isSome → (calls 5).isSome →
        (virtualGet db userId).1 = storageGetDocument db userId ∧
          (virtualGet (virtualGet db userId).2 roleId).1 = storageGetDocument db roleId ∧
            ∀ first ∈ calls 6, ∃ second ∈ calls 7,
              ∀ userDoc ∈ storedAccount db .user userId,
                ∀ roleDoc ∈ storedAccount db .role roleId,
                  PatchReadsBack first
                      (withList .user (listedIds db .user userId ++ [roleId]) userDoc) userDoc ∧
                    PatchReadsBack second
                      (withList .role (listedIds db .role roleId ++ [userId]) roleDoc) roleDoc

def RoleWritten (query update : Option Moment) (db : Database δ) (userId roleId : Bytes) : Prop :=
  query.isSome ∧ ∃ moment ∈ update, ∀ roleDoc ∈ storedAccount db .role roleId,
    PatchReadsBack moment
      (withList .role ((listedIds db .role roleId).filter (· != userId)) roleDoc) roleDoc

def AllWritten (calls : Calls) (db : Database δ) (userId : Bytes) : Nat → List Bytes → Prop
  | _, [] => True
  | place, roleId :: roles =>
    RoleWritten (calls place) (calls (place + 1)) db userId roleId ∧
      AllWritten calls db userId (place + 2) roles

def NoneWritten (calls : Calls) : Nat → List Bytes → Prop
  | _, [] => True
  | place, _ :: roles =>
    (calls place = none ∨ calls (place + 1) = none) ∧ NoneWritten calls (place + 2) roles

def DeletesAll (calls : Calls) (db : Database δ) (userId : Bytes) : Prop :=
  ((calls 0).or (calls 1)).isSome →
    AllWritten calls db userId 3 (listedIds db .user userId) ∧ (calls 2).isSome ∨
      NoneWritten calls 3 (listedIds db .user userId) ∧ calls 2 = none

/-- The condition on a step. -/
def KeepsMembership (db : Database δ) : Calls × RbacCall δ → Prop
  | (calls, .addUserToRole userId roleId) => AddsBoth calls db userId roleId
  | (calls, .deleteUser userId) => DeletesAll calls db userId
  | (calls, .deleteRole roleId) => (calls 0).isSome → ∀ type, listedIds db type roleId = []
  | (calls, .updateRole roleId name permissions) =>
    ∀ moment ∈ calls 2, ∀ roleDoc ∈ storedAccount db .role roleId,
      PatchReadsBack moment (updatedRole name (permissions.map Subtype.val) roleDoc) roleDoc
  | _ => True

def memberLists (db : Database δ) : MutualLists Bytes Bytes where
  left := listedIds db .user
  right := listedIds db .role

section Lists

variable {db next : Database δ} {type : AccountType} {uuid : Bytes} {ids : List Bytes}
  {doc patch : JsonValue δ} {id : Bytes}

theorem IsAccount.listedIds (account : IsAccount type uuid ids doc)
    (stored : storedAccount db type uuid = some doc) : Jdbx.listedIds db type uuid = ids := by
  rw [Jdbx.listedIds, stored, Option.bind_some, account.lists]
  simp only [idArray, List.filterMap_map]
  exact List.filterMap_some

theorem listedIds_of_none (absent : storedAccount db type uuid = none) :
    listedIds db type uuid = [] := by
  rw [listedIds, absent]
  rfl

theorem stored_of_listed (listed : id ∈ listedIds db type uuid) :
    (storedAccount db type uuid).isSome := by
  cases stored : storedAccount db type uuid with
  | some doc => rfl
  | none =>
    rw [listedIds_of_none stored] at listed
    cases listed

theorem membershipHolds_of_linked (linked : (memberLists db).Linked) : MembershipHolds db where
  agree := linked.agree
  distinct type uuid := by
    cases type with
    | user => exact linked.left uuid
    | role => exact linked.right uuid
  stored type uuid id listed := by
    cases type with
    | user => exact stored_of_listed ((linked.agree uuid id).mp listed)
    | role => exact stored_of_listed ((linked.agree id uuid).mpr listed)

theorem listedIds_congr (same : storageGetDocument next uuid = storageGetDocument db uuid)
    (type : AccountType) : listedIds next type uuid = listedIds db type uuid := by
  rw [listedIds, storedAccount, same, listedIds, storedAccount]

theorem memberLists_congr (same : next.documents = db.documents) :
    memberLists next = memberLists db := by
  have lists : ∀ type, listedIds next type = listedIds db type := fun type =>
    funext fun uuid => listedIds_congr (storageGetDocument_congr same uuid) type
  rw [memberLists, lists, lists, memberLists]

theorem storedAccount_other {other : AccountType}
    (stored : storedAccount db type uuid = some doc) (different : other ≠ type) :
    storedAccount db other uuid = none := by
  obtain ⟨held, typed⟩ := storedAccount_eq_some.mp stored
  rw [storedAccount, held, Option.filter_some, if_neg]
  intro same
  rw [typed] at same
  exact different (AccountType.name_injective (Option.some.inj (beq_iff_eq.mp same))).symm

theorem virtualDelete_get (db : Database δ) (uuid other : Bytes) :
    storageGetDocument (virtualDelete db uuid).2 other =
      if other = uuid then none else storageGetDocument db other := by
  rw [virtualDelete, storageDeleteDocument]
  cases searched : skiplistSearch db.documents uuid with
  | none =>
    by_cases same : other = uuid
    · rw [if_pos same, same, storageGetDocument, searched]
      rfl
    · rw [if_neg same]
  | some text =>
    by_cases same : other = uuid
    · subst same
      have gone : skiplistSearch (skiplistDelete db.documents other) other = none :=
        getEntry_removeEntry_self db.documents.distinct
      rw [if_pos rfl, storageGetDocument, gone]
      rfl
    · rw [if_neg same, storageGetDocument, skiplistSearch_delete_of_ne same,
        storageGetDocument]

theorem listedIds_virtualDelete (db : Database δ) (uuid : Bytes) (type : AccountType)
    (other : Bytes) :
    listedIds (virtualDelete db uuid).2 type other =
      if other = uuid then [] else listedIds db type other := by
  have after := virtualDelete_get db uuid other
  by_cases same : other = uuid
  · rw [if_pos same] at after
    rw [if_pos same]
    exact listedIds_of_none (by rw [storedAccount, after]; rfl)
  · rw [if_neg same] at after
    rw [if_neg same]
    exact listedIds_congr after type

variable (prints : ∀ number : δ, PrintsNumber number) {calls : Calls} {userId : Bytes}
include prints

theorem listedIds_virtualInsert (isObject : IsJsonObject doc)
    (lists : jsonObjectGet doc type.list = some (idArray []))
    (lacks : ∀ key ∈ type.foreign, jsonObjectGet doc key = none) (moment : Moment)
    (other : AccountType) (uuid : Bytes) :
    listedIds (virtualInsert moment db type.name (ascii "system") (some type.collection) doc
      (ascii "system-admin")).2 other uuid = listedIds db other uuid := by
  let inserted := storageInserted moment (virtualInserted type.name (ascii "system")
    (some type.collection) doc (ascii "system-admin"))
  have account : IsAccount type (documentUuid moment) [] inserted :=
    isAccount_inserted isObject lists lacks moment
  have documents : (virtualInsert moment db type.name (ascii "system") (some type.collection)
      doc (ascii "system-admin")).2.documents =
        skiplistInsert db.documents (documentUuid moment) (jsonStringify inserted) := rfl
  by_cases same : uuid = documentUuid moment
  · subst same
    cases searched : skiplistSearch db.documents (documentUuid moment) with
    | some held =>
      rw [skiplistInsert_of_stored searched] at documents
      exact listedIds_congr (storageGetDocument_congr documents _) other
    | none =>
      have absent : listedIds db other (documentUuid moment) = [] := by
        apply listedIds_of_none
        rw [storedAccount, storageGetDocument, searched]
        rfl
      rw [absent]
      have stored : storageGetDocument (virtualInsert moment db type.name (ascii "system")
          (some type.collection) doc (ascii "system-admin")).2 (documentUuid moment) =
            jsonParse (jsonStringify inserted) := by
        rw [storageGetDocument, documents, skiplistSearch_insert_self searched,
          Option.bind_some]
      cases parsed : (jsonParse (jsonStringify inserted) : Option (JsonValue δ)) with
      | none =>
        rw [parsed] at stored
        exact listedIds_of_none (by rw [storedAccount, stored]; rfl)
      | some value =>
        obtain ⟨rfl, isReread⟩ := account.isObject.parsed prints parsed
        rw [parsed] at stored
        have plainIds : ∀ id ∈ ([] : List Bytes), Plain id := fun id member => by cases member
        have reread := account.reread (documentUuid_plain moment) plainIds isReread
        have found := storedAccount_eq_some.mpr ⟨stored, by rw [reread.typed]; rfl⟩
        by_cases sameType : other = type
        · subst sameType
          exact reread.listedIds found
        · exact listedIds_of_none (storedAccount_other found sameType)
  · apply listedIds_congr
    rw [storageGetDocument, documents, skiplistSearch_insert_of_ne same, storageGetDocument]

theorem AccountStore.listedIds_virtualUpdate (accounts : AccountStore db)
    (plainIds : ∀ id ∈ ids, Plain id) (account : IsAccount type uuid ids patch)
    (stored : storedAccount db type uuid = some doc) {moment : Moment}
    (reads : PatchReadsBack moment patch doc) (other : AccountType) (tested : Bytes) :
    listedIds (Jdbx.virtualUpdate moment db uuid patch).2 other tested =
      if other = type ∧ tested = uuid then ids else listedIds db other tested := by
  by_cases same : tested = uuid
  · subst same
    obtain ⟨plain, held, _, existing⟩ := accounts.account prints stored
    have updated := account.updated existing moment
    have parsed := (readsBack_iff prints updated.isObject).mp reads
    have isReread := (updated.isObject.parsed prints parsed).2
    have reread := updated.reread plain plainIds isReread
    have get : storageGetDocument (Jdbx.virtualUpdate moment db tested patch).2 tested =
        some (rereadValue (updatedDocument moment (virtualPatch moment patch) doc)) := by
      rw [Jdbx.virtualUpdate, storageUpdateDocument, (storedAccount_eq_some.mp stored).1]
      rw [storageGetDocument, skiplistSearch_replace_self, Option.bind_some]
      exact parsed
    have found := storedAccount_eq_some.mpr ⟨get, by rw [reread.typed]; rfl⟩
    by_cases sameType : other = type
    · subst sameType
      rw [if_pos ⟨rfl, rfl⟩, reread.listedIds found]
    · rw [if_neg fun both => sameType both.1,
        listedIds_of_none (storedAccount_other found sameType),
        listedIds_of_none (storedAccount_other stored sameType)]
  · rw [if_neg fun both => same both.2]
    exact listedIds_congr (virtualUpdate_get_of_ne same moment) other

/-- The loop over the roles of a user takes the user out of each. -/
theorem removeFromRoles_listedIds {base : Database δ} (roles : List Bytes) :
    ∀ {db : Database δ} {place : Nat}, AccountStore db → roles.Nodup →
      AllWritten calls base userId place roles →
        (∀ role ∈ roles, storageGetDocument db role = storageGetDocument base role) →
          (∀ role ∈ roles, (storedAccount base .role role).isSome) →
            ∀ type uuid, listedIds (removeFromRoles calls userId db place
                (roles.map JsonValue.string)) type uuid =
              if type = .role ∧ uuid ∈ roles then
                (listedIds db type uuid).filter (· != userId)
              else listedIds db type uuid := by
  induction roles with
  | nil =>
    intro db place accounts _ _ _ _ type uuid
    simp [removeFromRoles]
  | cons role roles ih =>
    intro db place accounts distinct written same present type uuid
    obtain ⟨fresh, distinct⟩ := List.nodup_cons.mp distinct
    obtain ⟨⟨asked, moment, happens, reads⟩, written⟩ := written
    obtain ⟨roleDoc, stored⟩ := Option.isSome_iff_exists.mp (present role List.mem_cons_self)
    have sameRole := same role List.mem_cons_self
    have storedNow : storedAccount db .role role = some roleDoc := by
      rw [storedAccount, sameRole]
      exact stored
    obtain ⟨_, ids, plainIds, account⟩ := accounts.account prints storedNow
    have listed : listedIds base .role role = ids := account.listedIds stored
    have plainFewer : ∀ id ∈ ids.filter (· != userId), Plain id :=
      fun id member => plainIds id (List.mem_filter.mp member).1
    let next := (virtualUpdate moment db role
      (jsonObjectSet roleDoc (ascii "users") (idArray (ids.filter (· != userId))))).2
    have turned : removeFromRole (calls place) (calls (place + 1)) db userId (.string role) =
        next := by
      rw [Option.mem_def.mp happens]
      exact accounts.removeFromRole_eq prints _ moment userId asked storedNow account
    have readsBack := reads roleDoc stored
    rw [listed] at readsBack
    have lists : ∀ type uuid, listedIds next type uuid =
        if type = .role ∧ uuid = role then ids.filter (· != userId)
        else listedIds db type uuid :=
      accounts.listedIds_virtualUpdate prints plainFewer (account.set_list _) storedNow readsBack
    have nextAccounts : AccountStore next :=
      turned ▸ accounts.removeFromRole prints _ _ userId (.string role)
    have nextSame : ∀ other ∈ roles,
        storageGetDocument next other = storageGetDocument base other := by
      intro other member
      have different : other ≠ role := fun equal => fresh (equal ▸ member)
      rw [virtualUpdate_get_of_ne different]
      exact same other (List.mem_cons_of_mem _ member)
    rw [List.map_cons, removeFromRoles, turned,
      ih nextAccounts distinct written nextSame
        (fun other member => present other (List.mem_cons_of_mem _ member)), lists]
    by_cases isRole : type = .role
    · subst isRole
      by_cases first : uuid = role
      · subst first
        simp [fresh, account.listedIds storedNow]
      · simp [first]
    · simp [isRole]

theorem removeFromRoles_eq_self (accounts : AccountStore db) (roles : List Bytes) :
    ∀ {place : Nat}, NoneWritten calls place roles →
      removeFromRoles calls userId db place (roles.map JsonValue.string) = db := by
  induction roles with
  | nil =>
    intro place _
    rfl
  | cons role roles ih =>
    intro place written
    have kept : removeFromRole (calls place) (calls (place + 1)) db userId (.string role) = db :=
      accounts.removeFromRole_eq_self prints _ _ userId (written.1.imp_right Or.inl)
    rw [List.map_cons, removeFromRoles, kept]
    exact ih written.2

/-- The deletion of a user forgets the user in every list, or changes nothing. -/
theorem AccountStore.deleteUser_lists (accounts : AccountStore db)
    (linked : (memberLists db).Linked) (meets : DeletesAll calls db userId) :
    memberLists (rbacDbDeleteUser calls db userId).2 = memberLists db ∨
      memberLists (rbacDbDeleteUser calls db userId).2 = (memberLists db).forget userId := by
  have asks : unifiedQuery AccountType.user.name (ascii "system")
      (some AccountType.user.collection) (uuidFilter userId) =
        (uuidQuery .user userId : JsonValue δ) := rfl
  rw [rbacDbDeleteUser, accounts.findByUuid prints asks, accounts.findAccount prints asks]
  cases found : ((calls 0).or (calls 1)).bind fun _ => storedAccount db .user userId with
  | none => exact Or.inl rfl
  | some userDoc =>
    obtain ⟨_, asked, stored⟩ := Option.bind_eq_some_iff.mp found
    obtain ⟨_, roles, _, account⟩ := accounts.account prints stored
    have listed : listedIds db .user userId = roles := account.listedIds stored
    have held : jsonObjectGet userDoc (ascii "roles") =
        some (.array (roles.map JsonValue.string)) := account.lists
    have own : (if (((calls 0).bind fun _ => storedAccount db .user userId)).isSome then
        some userId else jsonGetString (jsonObjectGet userDoc (ascii "uuid"))) =
          some userId := by
      rw [account.named]
      split_ifs <;> rfl
    have condition := meets (by rw [asked]; rfl)
    simp only [held, own]
    rcases condition with ⟨written, deleted⟩ | ⟨unwritten, kept⟩
    · right
      obtain ⟨moment, happens⟩ := Option.isSome_iff_exists.mp deleted
      rw [listed] at written
      simp only [happens]
      have present : ∀ role ∈ roles, (storedAccount db .role role).isSome := by
        intro role member
        have inList : role ∈ listedIds db .user userId := listed.symm ▸ member
        exact stored_of_listed ((linked.agree userId role).mp inList)
      have lists := removeFromRoles_listedIds prints roles accounts (listed ▸ linked.left userId)
        written (fun _ _ => rfl) present
      have left : listedIds (Jdbx.virtualDelete (Jdbx.removeFromRoles calls userId db 3
          (roles.map JsonValue.string)) userId).2 .user =
            Function.update (listedIds db .user) userId [] := by
        funext uuid
        rw [listedIds_virtualDelete, Function.update_apply, lists]
        simp
      have right : listedIds (Jdbx.virtualDelete (Jdbx.removeFromRoles calls userId db 3
          (roles.map JsonValue.string)) userId).2 .role =
            fun uuid => (listedIds db .role uuid).filter (· ≠ userId) := by
        funext uuid
        rw [listedIds_virtualDelete, lists]
        by_cases same : uuid = userId
        · subst same
          have other := listedIds_of_none (storedAccount_other stored
            (show AccountType.role ≠ .user by decide))
          simp [other]
        · by_cases member : uuid ∈ roles
          · simp [same, member, bne, beq_eq_decide]
          · have absent : userId ∉ listedIds db .role uuid := fun inside =>
              member (listed ▸ (linked.agree userId uuid).mpr inside)
            have unchanged : (listedIds db .role uuid).filter (· ≠ userId) =
                listedIds db .role uuid := by
              apply List.filter_eq_self.mpr
              intro id inside
              exact decide_eq_true fun equal => absent (equal ▸ inside)
            simp only [same, member, and_false, if_false]
            exact unchanged.symm
      rw [memberLists, left, right]
      rfl
    · left
      rw [listed] at unwritten
      simp only [kept, removeFromRoles_eq_self prints accounts roles unwritten]

omit prints in
theorem addToList_of_mem (listed : id ∈ ids) (call : Option Moment) (shared : Bool) (key : Bytes) :
    addToList call shared db uuid doc key (ids.map JsonValue.string) id = (true, db) := by
  rw [addToList, (listsId_map id ids).mpr listed, if_pos rfl]

omit prints in
theorem addToList_of_none (unlisted : id ∉ ids) (shared : Bool) (key : Bytes) :
    (addToList none shared db uuid doc key (ids.map JsonValue.string) id).1 = false ∧
      (addToList none shared db uuid doc key (ids.map JsonValue.string) id).2.documents =
        db.documents := by
  rw [addToList, if_neg fun listed => unlisted ((listsId_map id ids).mp listed)]
  exact ⟨rfl, setShared_documents shared db uuid _⟩

omit prints in
theorem addToList_of_some (unlisted : id ∉ ids) (moment : Moment) (shared : Bool) :
    let updated := virtualUpdate moment (setShared shared db uuid
      (withList type (ids ++ [id]) doc)) uuid (withList type (ids ++ [id]) doc)
    addToList (some moment) shared db uuid doc type.list (ids.map JsonValue.string) id =
      (updated.1.isSome, updated.2) := by
  have appended : (JsonValue.array (ids.map JsonValue.string ++ [.string id]) : JsonValue δ) =
      idArray (ids ++ [id]) := by
    rw [idArray, List.map_append]
    rfl
  rw [addToList, if_neg fun listed => unlisted ((listsId_map id ids).mp listed), appended]
  rfl

omit prints in
theorem storedAccount_congr (same : next.documents = db.documents) (type : AccountType)
    (uuid : Bytes) : storedAccount next type uuid = storedAccount db type uuid := by
  rw [storedAccount, storageGetDocument_congr same, storedAccount]

theorem AccountStore.addToList_lists (accounts : AccountStore db) (plain : Plain uuid)
    (plainIds : ∀ id ∈ ids, Plain id) (account : IsAccount type uuid ids doc)
    (stored : storedAccount db type uuid = some doc) (plainId : Plain id) (unlisted : id ∉ ids)
    {moment : Moment} (shared : Bool)
    (reads : PatchReadsBack moment (withList type (ids ++ [id]) doc) doc) :
    (Jdbx.addToList (some moment) shared db uuid doc type.list
        (ids.map JsonValue.string) id).1 = true ∧
      ∀ other tested, Jdbx.listedIds (Jdbx.addToList (some moment) shared db uuid doc type.list
          (ids.map JsonValue.string) id).2 other tested =
        if other = type ∧ tested = uuid then ids ++ [id] else Jdbx.listedIds db other tested := by
  have plainMore : ∀ tested ∈ ids ++ [id], Plain tested := by
    intro tested member
    rcases List.mem_append.mp member with old | new
    · exact plainIds tested old
    · exact List.mem_singleton.mp new ▸ plainId
  have longer : IsAccount type uuid (ids ++ [id]) (withList type (ids ++ [id]) doc) :=
    account.set_list (ids ++ [id])
  have same := setShared_documents shared db uuid (withList type (ids ++ [id]) doc)
  have set := accounts.setShared ⟨plain, type, _, plainMore, longer⟩ shared
  have storedNow := (storedAccount_congr same type uuid).trans stored
  rw [addToList_of_some unlisted moment shared]
  refine ⟨by rw [virtualUpdate_isSome, (storedAccount_eq_some.mp storedNow).1]; rfl, ?_⟩
  intro other tested
  rw [set.listedIds_virtualUpdate prints plainMore longer storedNow reads,
    listedIds_congr (storageGetDocument_congr same tested)]

/-- An addition that meets its condition adds the pair to both lists, or changes neither. -/
theorem AccountStore.addToLists_lists (accounts : AccountStore db) (userShared roleShared : Bool)
    {userId roleId : Bytes} {userDoc roleDoc : JsonValue δ} {roles users : List Bytes}
    (found : BothFound db userId roleId userDoc roleDoc roles users)
    (userStored : storedAccount db .user userId = some userDoc)
    (roleStored : storedAccount db .role roleId = some roleDoc) (linked : (memberLists db).Linked)
    (meets : ∀ first ∈ calls 6, ∃ second ∈ calls 7,
      PatchReadsBack first (withList .user (roles ++ [roleId]) userDoc) userDoc ∧
        PatchReadsBack second (withList .role (users ++ [userId]) roleDoc) roleDoc) :
    let next := (Jdbx.addToLists calls userShared roleShared db userId roleId userDoc roleDoc
      (roles.map JsonValue.string) (users.map JsonValue.string)).2
    memberLists next = memberLists db ∨
      roleId ∉ (memberLists db).left userId ∧
        memberLists next = (memberLists db).link userId roleId := by
  have rolesListed : listedIds db .user userId = roles := found.user.listedIds userStored
  have usersListed : listedIds db .role roleId = users := found.role.listedIds roleStored
  have agree : roleId ∈ roles ↔ userId ∈ users := by
    rw [← rolesListed, ← usersListed]
    exact linked.agree userId roleId
  have plainUser := (accounts.account prints userStored).1
  have plainRole := (accounts.account prints roleStored).1
  intro next
  by_cases listed : roleId ∈ roles
  · left
    have unchanged : next = db := by
      simp only [next, Jdbx.addToLists, addToList_of_mem listed, if_true,
        addToList_of_mem (agree.mp listed)]
    rw [unchanged]
  · have unlisted : userId ∉ users := fun inside => listed (agree.mpr inside)
    cases happens : calls 6 with
    | none =>
      left
      have stopped : (Jdbx.addToList none userShared db userId userDoc (ascii "roles")
          (roles.map JsonValue.string) roleId).1 = false ∧
            (Jdbx.addToList none userShared db userId userDoc (ascii "roles")
              (roles.map JsonValue.string) roleId).2.documents = db.documents := addToList_of_none listed userShared _
      have ended : next.documents = db.documents := by
        simp only [next, Jdbx.addToLists, happens, stopped.1, Bool.false_eq_true, if_false]
        exact stopped.2
      exact memberLists_congr ended
    | some first =>
      right
      refine ⟨fun inside => listed (rolesListed ▸ inside), ?_⟩
      obtain ⟨second, alsoHappens, firstReads, secondReads⟩ := meets first happens
      obtain ⟨firstDone, firstLists⟩ := accounts.addToList_lists prints plainUser
        found.plainRoles found.user userStored plainRole listed userShared firstReads
      let middle := (Jdbx.addToList (some first) userShared db userId userDoc (ascii "roles")
        (roles.map JsonValue.string) roleId).2
      have roleSame : storageGetDocument middle roleId = storageGetDocument db roleId :=
        addToList_get_of_ne _ _ found.different _ _ _
      have middleStored : storedAccount middle .role roleId = some roleDoc := by
        rw [storedAccount, roleSame]
        exact roleStored
      have middleAccounts : AccountStore middle := by
        refine accounts.addToList prints _ _ plainUser found.plainRoles found.user plainRole
          fun existing held => ?_
        rw [(storedAccount_eq_some.mp userStored).1] at held
        cases held
        exact ⟨roles, found.user⟩
      obtain ⟨_, secondLists⟩ := middleAccounts.addToList_lists prints plainRole
        found.plainUsers found.role middleStored plainUser unlisted roleShared secondReads
      have lists : ∀ type uuid, listedIds next type uuid =
          if type = .role ∧ uuid = roleId then users ++ [userId]
          else if type = .user ∧ uuid = userId then roles ++ [roleId]
          else listedIds db type uuid := by
        intro type uuid
        have both : next = (Jdbx.addToList (some second) roleShared middle roleId roleDoc
            (ascii "users") (users.map JsonValue.string) userId).2 := by
          have done : (Jdbx.addToList (some first) userShared db userId userDoc
              (ascii "roles") (roles.map JsonValue.string) roleId).1 = true := firstDone
          simp only [next, Jdbx.addToLists, happens, Option.mem_def.mp alsoHappens, done,
            if_true]
          rfl
        rw [both]
        refine (secondLists type uuid).trans ?_
        by_cases isRole : type = .role ∧ uuid = roleId
        · rw [if_pos isRole, if_pos isRole]
        · rw [if_neg isRole, if_neg isRole]
          exact firstLists type uuid
      have left : listedIds next .user = Function.update (listedIds db .user) userId
          (listedIds db .user userId ++ [roleId]) := by
        funext uuid
        rw [lists, Function.update_apply, rolesListed]
        simp
      have right : listedIds next .role = Function.update (listedIds db .role) roleId
          (listedIds db .role roleId ++ [userId]) := by
        funext uuid
        rw [lists, Function.update_apply, usersListed]
        simp
      rw [memberLists, left, right]
      rfl

theorem AccountStore.addUserToRole_lists (accounts : AccountStore db) {userId roleId : Bytes}
    (linked : (memberLists db).Linked) (meets : AddsBoth calls db userId roleId) :
    memberLists (rbacDbAddUserToRole calls db userId roleId).2 = memberLists db ∨
      roleId ∉ (memberLists db).left userId ∧
        memberLists (rbacDbAddUserToRole calls db userId roleId).2 =
          (memberLists db).link userId roleId := by
  rw [rbacDbAddUserToRole]
  split
  · rename_i actualUserId actualRoleId userFound roleFound
    have gotUser := (accounts.getAccount prints (calls 4) actualUserId).1
    have gotRole := (gotUser.getAccount prints (calls 5) actualRoleId).1
    have userSame := getAccount_documents (calls 4) db actualUserId
    have same := (getAccount_documents (calls 5) (Jdbx.getAccount (calls 4) db
      actualUserId).2 actualRoleId).trans userSame
    dsimp only
    split
    · exact Or.inl (memberLists_congr userSame)
    · rename_i userDoc userGot
      split
      · exact Or.inl (memberLists_congr same)
      · rename_i roleDoc roleGot
        split
        · rename_i userRoles roleUsers rolesHeld usersHeld
          obtain ⟨rfl, rfl, roles, users, rfl, rfl, found⟩ :=
            accounts.bothFound prints userFound roleFound userGot roleGot rolesHeld usersHeld
          cases firstGet : calls 4 with
          | none =>
            rw [firstGet] at userGot
            cases userGot
          | some moment =>
            cases secondGet : calls 5 with
            | none =>
              rw [secondGet] at roleGot
              cases roleGot
            | some other =>
              rw [firstGet] at userGot
              rw [firstGet, secondGet] at roleGot
              obtain ⟨userCurrent, roleCurrent, writes⟩ := meets (by rw [userFound]; rfl)
                (by rw [roleFound]; rfl) (by rw [firstGet]; rfl) (by rw [secondGet]; rfl)
              have userStored : storedAccount db .user actualUserId = some userDoc :=
                storedAccount_eq_some.mpr
                  ⟨userCurrent.symm.trans userGot, by rw [found.user.typed]; rfl⟩
              have roleStored : storedAccount db .role actualRoleId = some roleDoc :=
                storedAccount_eq_some.mpr
                  ⟨roleCurrent.symm.trans roleGot, by rw [found.role.typed]; rfl⟩
              rw [firstGet, secondGet] at gotRole same
              have sameLists := memberLists_congr same
              have foundNow : BothFound _ actualUserId actualRoleId userDoc roleDoc roles
                  users :=
                { found with
                  userStored := ⟨userDoc, (storedAccount_congr same _ _).trans userStored⟩
                  roleStored := ⟨roleDoc, (storedAccount_congr same _ _).trans roleStored⟩ }
              have condition : ∀ first ∈ calls 6, ∃ second ∈ calls 7,
                  PatchReadsBack first (withList .user (roles ++ [actualRoleId]) userDoc)
                      userDoc ∧
                    PatchReadsBack second (withList .role (users ++ [actualUserId]) roleDoc)
                      roleDoc := by
                intro first happens
                obtain ⟨second, alsoHappens, reads⟩ := writes first happens
                have both := reads userDoc userStored roleDoc roleStored
                rw [found.user.listedIds userStored, found.role.listedIds roleStored] at both
                exact ⟨second, alsoHappens, both⟩
              have added := gotRole.addToLists_lists prints (isCached db actualUserId)
                (isCached (Jdbx.getAccount (some moment) db actualUserId).2 actualRoleId)
                foundNow ((storedAccount_congr same _ _).trans userStored)
                ((storedAccount_congr same _ _).trans roleStored) (sameLists ▸ linked)
                condition
              rw [sameLists] at added
              exact added
        · exact Or.inl (memberLists_congr same)
  · exact Or.inl rfl

theorem AccountStore.updateRole_lists (accounts : AccountStore db) {roleId : Bytes}
    (name : Option Bytes) (permissions : Option {value : JsonValue δ // DistinctKeys value})
    (reads : ∀ moment ∈ calls 2, ∀ roleDoc ∈ storedAccount db .role roleId,
      PatchReadsBack moment (updatedRole name (permissions.map Subtype.val) roleDoc) roleDoc) :
    memberLists (rbacDbUpdateRole calls db roleId name (permissions.map Subtype.val)).2 =
      memberLists db := by
  have asks : unifiedQuery AccountType.role.name (ascii "system")
      (some AccountType.role.collection) (accountFilter .role (ascii "uuid") roleId) =
        (uuidQuery .role roleId : JsonValue δ) := rfl
  simp only [rbacDbUpdateRole, accounts.findByUuid prints asks, accounts.findAccount prints asks]
  cases found : ((calls 0).or (calls 1)).bind fun _ => storedAccount db .role roleId with
  | none => rfl
  | some roleDoc =>
    obtain ⟨_, _, stored⟩ := Option.bind_eq_some_iff.mp found
    obtain ⟨_, ids, plainIds, account⟩ := accounts.account prints stored
    have own : (if (((calls 0).bind fun _ => storedAccount db .role roleId)).isSome then
        some roleId else jsonGetString (jsonObjectGet roleDoc (ascii "uuid"))) =
          some roleId := by
      rw [account.named]
      split_ifs <;> rfl
    simp only [own]
    cases happens : calls 2 with
    | none => rfl
    | some moment =>
      have lists := accounts.listedIds_virtualUpdate prints plainIds
        (account.updatedRole name permissions) stored (reads moment happens roleDoc stored)
      have unchanged : ∀ type, listedIds (Jdbx.virtualUpdate moment db roleId
          (updatedRole name (permissions.map Subtype.val) roleDoc)).2 type =
            listedIds db type := by
        intro type
        funext uuid
        rw [lists]
        split_ifs with both
        · obtain ⟨rfl, rfl⟩ := both
          exact (account.listedIds stored).symm
        · rfl
      simp only [memberLists, unchanged]

theorem createAccount_lists (calls : Calls) (filters : JsonValue δ) (isObject : IsJsonObject doc)
    (lists : jsonObjectGet doc type.list = some (idArray []))
    (lacks : ∀ key ∈ type.foreign, jsonObjectGet doc key = none) :
    memberLists (createAccount calls db type filters doc).2 = memberLists db := by
  rw [createAccount]
  cases findAccount (calls 0) db type filters with
  | some held => rfl
  | none =>
    cases calls 1 with
    | none => rfl
    | some moment =>
      have unchanged : ∀ other, listedIds (virtualInsert moment db type.name
          (ascii "system") (some type.collection) doc (ascii "system-admin")).2 other =
            listedIds db other :=
        fun other => funext (listedIds_virtualInsert prints isObject lists lacks moment other)
      simp only [memberLists, unchanged]

theorem AccountStore.linked_step (accounts : AccountStore db) (linked : (memberLists db).Linked)
    {event : Calls × RbacCall δ} (meets : KeepsMembership db event)
    (taken : Jdbx.rbacStep db event = some next) : (memberLists next).Linked := by
  obtain ⟨calls, call⟩ := event
  cases call with
  | createUser username passwordHash =>
    cases taken
    have same : memberLists (rbacDbCreateUser calls db username passwordHash).2 =
        memberLists db :=
      createAccount_lists prints calls _ (userDocument_isObject username passwordHash) rfl
        (userDocument_lacks username passwordHash)
    exact same ▸ linked
  | createRole name =>
    cases taken
    have same : memberLists (rbacDbCreateRole calls db name).2 = memberLists db :=
      createAccount_lists prints calls _ (roleDocument_isObject name) rfl
        (roleDocument_lacks name)
    exact same ▸ linked
  | deleteUser userId =>
    cases taken
    rcases accounts.deleteUser_lists prints linked meets with same | forgotten
    · exact same ▸ linked
    · exact forgotten ▸ linked.forget userId
  | deleteRole roleId =>
    cases taken
    rw [rbacDbDeleteRole]
    cases happens : calls 0 with
    | none => exact linked
    | some moment =>
      have empty : ∀ type, listedIds db type roleId = [] := meets (by rw [happens]; rfl)
      have unchanged : ∀ type,
          listedIds (Jdbx.virtualDelete db roleId).2 type = listedIds db type := by
        intro type
        funext uuid
        rw [listedIds_virtualDelete]
        split_ifs with same
        · rw [same, empty]
        · rfl
      simp only [memberLists, unchanged]
      exact linked
  | updateRole roleId name permissions =>
    cases taken
    exact accounts.updateRole_lists prints name permissions meets ▸ linked
  | addUserToRole userId roleId =>
    cases taken
    rcases accounts.addUserToRole_lists prints linked meets with same | ⟨apart, linkedBoth⟩
    · exact same ▸ linked
    · exact linkedBoth ▸ linked.link apart
  | removeUserFromRole userId roleId =>
    have kept := ((accounts.removeUserFromRole prints calls userId roleId).after taken).2
    exact memberLists_congr kept ▸ linked
  | grantPermission roleId resourceType resourceId permission =>
    have kept := ((accounts.grantPermission prints calls _ _ _ _).after taken).2
    exact memberLists_congr kept ▸ linked
  | revokePermission roleId resourceType resourceId permission =>
    have kept := ((accounts.revokePermission prints calls _ _ _ _).after taken).2
    exact memberLists_congr kept ▸ linked
  | get uuid =>
    cases taken
    exact memberLists_congr (getAccount_documents (some ⟨0, 0⟩) db uuid) ▸ linked

/-- In a run whose steps meet the condition, the lists agree in every state reached. -/
theorem membershipHolds_of_everyStep {events : List (Calls × RbacCall δ)} {last : Database δ}
    (meets : EveryStep rbacStep KeepsMembership (freshDatabase .empty) events)
    (reached : runFrom rbacStep (freshDatabase .empty) events = some last) :
    MembershipHolds last := by
  have keeps : Keeps rbacStep KeepsMembership
      (fun db : Database δ => AccountStore db ∧ (memberLists db).Linked) := by
    intro db event next holds condition taken
    exact ⟨holds.1.rbacStep prints taken, holds.1.linked_step prints holds.2 condition taken⟩
  have empty : (memberLists (freshDatabase .empty : Database δ)).Linked :=
    { agree := fun first second => iff_of_false List.not_mem_nil List.not_mem_nil
      left := fun first => List.nodup_nil
      right := fun second => List.nodup_nil }
  exact membershipHolds_of_linked
    (invariant_runFrom keeps ⟨accountStore_fresh rfl, empty⟩ meets reached).2

end Lists

/-! ## A role with a user -/

theorem virtualGet_of_not_cached {db : Database δ} {uuid : Bytes}
    (fresh : isCached db uuid = false) :
    (virtualGet db uuid).1 = storageGetDocument db uuid := by
  have missed : (cacheGet db.docCache (generateDocCacheKeyFast uuid)).1 = none := by
    rw [isCached] at fresh
    exact Option.isNone_iff_eq_none.mp (by rw [← Option.not_isSome, fresh]; rfl)
  simp only [virtualGet, missed]
  cases storageGetDocument db uuid <;> rfl

instance (moment : Moment) (patch existing : JsonValue δ) :
    Decidable (PatchReadsBack moment patch existing) :=
  inferInstanceAs (Decidable (_ = true))

def eveId : Bytes :=
  ascii "doc-1700000000-1"

def editorId : Bytes :=
  ascii "doc-1700000000-2"

def addedEve : List (Calls × RbacCall Rat) :=
  [(allHappen 1, .createUser (ascii "eve") (ascii "hash")),
    (allHappen 2, .createRole (ascii "editor")),
    (allHappen 3, .addUserToRole eveId editorId)]

def eveAndEditor : Database Rat :=
  (rbacDbCreateRole (allHappen 2) (rbacDbCreateUser (allHappen 1) (freshDatabase .empty)
    (ascii "eve") (ascii "hash")).2 (ascii "editor")).2

theorem virtualGet_current {db : Database δ} {first second : Bytes}
    (firstFresh : isCached db first = false)
    (secondFresh : isCached (virtualGet db first).2 second = false) :
    (virtualGet db first).1 = storageGetDocument db first ∧
      (virtualGet (virtualGet db first).2 second).1 = storageGetDocument db second := by
  have same : (virtualGet db first).2.documents = db.documents :=
    getAccount_documents (some ⟨0, 0⟩) db first
  exact ⟨virtualGet_of_not_cached firstFresh,
    (virtualGet_of_not_cached secondFresh).trans (storageGetDocument_congr same second)⟩

theorem addsBoth_eveAndEditor : AddsBoth (allHappen 3) eveAndEditor eveId editorId := by
  have current := virtualGet_current
    (show isCached eveAndEditor eveId = false by decide +kernel)
    (show isCached (virtualGet eveAndEditor eveId).2 editorId = false by decide +kernel)
  intro _ _ _ _
  refine ⟨current.1, current.2, fun first happens => ?_⟩
  have moment : (⟨1700000000, 3⟩ : Moment) = first := Option.some.inj happens
  subst moment
  exact ⟨⟨1700000000, 3⟩, rfl, by decide +kernel⟩

theorem membershipHolds_of_everyStep_added :
    ∃ last, runFrom rbacStep (freshDatabase .empty) addedEve = some last ∧
      MembershipHolds last := by
  have goesOn : (runFrom rbacStep (freshDatabase .empty) addedEve).isSome := by decide +kernel
  obtain ⟨last, reached⟩ := Option.isSome_iff_exists.mp goesOn
  have meets : EveryStep rbacStep KeepsMembership (freshDatabase .empty) addedEve := by
    refine ⟨trivial, fun first firstTaken => ⟨trivial, fun second secondTaken => ?_⟩⟩
    cases firstTaken
    obtain rfl := Option.some.inj secondTaken
    exact ⟨addsBoth_eveAndEditor, fun _ _ => trivial⟩
  exact ⟨last, reached, membershipHolds_of_everyStep printsNumber_rat meets reached⟩

/-- The role is deleted, and the user still lists it. -/
theorem not_membershipHolds_deletedRole :
    ∃ last, runFrom rbacStep (freshDatabase .empty)
        (addedEve ++ [(allHappen 4, .deleteRole editorId)]) = some last ∧
      ¬ MembershipHolds last := by
  have lists : ((runFrom rbacStep (freshDatabase .empty)
      (addedEve ++ [(allHappen 4, .deleteRole editorId)])).map fun last =>
        (listedIds last .user eveId, listedIds last .role editorId)) =
          some ([editorId], []) := by
    decide +kernel
  obtain ⟨last, reached, both⟩ := Option.map_eq_some_iff.mp lists
  obtain ⟨roles, users⟩ := Prod.mk.inj both
  refine ⟨last, reached, fun holds => ?_⟩
  have member : editorId ∈ listedIds last .user eveId := by
    rw [roles]
    exact List.mem_singleton_self editorId
  have other := (holds.agree eveId editorId).mp member
  rw [users] at other
  cases other

end Jdbx
