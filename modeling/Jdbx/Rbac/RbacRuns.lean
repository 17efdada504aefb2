import Jdbx.Rbac.Accounts

/-!
# Runs of the rbac functions

Whatever fails, each function leaves a store of accounts.
-/

namespace Jdbx

open Library

variable {δ : Type} {type : AccountType} {uuid : Bytes} {ids : List Bytes}
  {doc patch : JsonValue δ} {db next : Database δ} [CDouble δ]
  (prints : ∀ number : δ, PrintsNumber number) {userDoc roleDoc : JsonValue δ}
include prints

/-! ## The functions -/

theorem AccountStore.removeFromRole_eq (accounts : AccountStore db) (query : Option Moment)
    (moment : Moment) (userId : Bytes) (found : query.isSome)
    (stored : storedAccount db .role uuid = some doc) (account : IsAccount .role uuid ids doc) :
    removeFromRole query (some moment) db userId (.string uuid) =
      (Jdbx.virtualUpdate moment db uuid
        (jsonObjectSet doc (ascii "users") (idArray (ids.filter (· != userId))))).2 := by
  obtain ⟨_, rfl⟩ := Option.isSome_iff_exists.mp found
  have held : jsonObjectGet doc (ascii "users") = some (idArray ids) := account.lists
  rw [removeFromRole, accounts.findAccount prints rfl, Option.bind_some, stored]
  simp only [held, idArray]
  rw [filter_isOtherId, idArray]

theorem AccountStore.removeFromRole_eq_self (accounts : AccountStore db)
    (query update : Option Moment) (userId : Bytes)
    (nothing : query = none ∨ update = none ∨ storedAccount db .role uuid = none) :
    removeFromRole query update db userId (.string uuid) = db := by
  rw [removeFromRole, accounts.findAccount prints rfl]
  cases query with
  | none => rfl
  | some moment =>
    cases stored : storedAccount db .role uuid with
    | none => rfl
    | some roleDoc =>
      cases update with
      | none =>
        simp only [Option.bind_some]
        split
        · rename_i absurdity
          cases absurdity
        · rfl
      | some moment => simp [stored] at nothing

theorem AccountStore.removeFromRole (accounts : AccountStore db) (query update : Option Moment)
    (userId : Bytes) (roleId : JsonValue δ) :
    AccountStore (Jdbx.removeFromRole query update db userId roleId) := by
  cases roleId with
  | string uuid =>
    cases stored : storedAccount db .role uuid with
    | none =>
      rw [accounts.removeFromRole_eq_self prints query update userId (by simp [stored])]
      exact accounts
    | some roleDoc =>
      obtain ⟨plain, ids, plainIds, account⟩ := accounts.account prints stored
      cases query with
      | none =>
        rw [accounts.removeFromRole_eq_self prints none update userId (by simp)]
        exact accounts
      | some asked =>
        cases update with
        | none =>
          rw [accounts.removeFromRole_eq_self prints _ none userId (by simp)]
          exact accounts
        | some moment =>
          rw [accounts.removeFromRole_eq prints _ moment userId rfl stored account]
          refine accounts.virtualUpdate prints
            (fun id member => plainIds id (List.mem_filter.mp member).1)
            (account.set_list _) (fun existing held => ?_) moment
          have same := (storedAccount_eq_some.mp stored).1
          rw [same] at held
          cases held
          exact ⟨ids, account⟩
  | null | boolean _ | number _ | integer _ | array _ | object _ => exact accounts

theorem AccountStore.removeFromRoles (calls : Calls) (userId : Bytes)
    (roles : List (JsonValue δ)) : ∀ {db : Database δ} {place : Nat}, AccountStore db →
      AccountStore (Jdbx.removeFromRoles calls userId db place roles) := by
  induction roles with
  | nil =>
    intro db place accounts
    exact accounts
  | cons roleId roles ih =>
    intro db place accounts
    exact ih (accounts.removeFromRole prints _ _ userId roleId)

theorem AccountStore.deleteUser (accounts : AccountStore db) (calls : Calls) (userId : Bytes) :
    AccountStore (rbacDbDeleteUser calls db userId).2 := by
  rw [rbacDbDeleteUser]
  cases Jdbx.findByUuid (calls 0) (calls 1) db .user userId (uuidFilter userId) with
  | none => exact accounts
  | some userDoc =>
    dsimp only
    cases jsonObjectGet userDoc (ascii "roles") with
    | none =>
      split
      · exact accounts.virtualDelete _
      · exact accounts
    | some value =>
      cases value with
      | array roles =>
        have cleared : AccountStore (Jdbx.removeFromRoles calls userId db 3 roles) :=
          AccountStore.removeFromRoles prints calls userId _ accounts
        split
        · exact cleared.virtualDelete _
        · exact cleared
      | null | boolean _ | number _ | integer _ | string _ | object _ =>
        split
        · exact accounts.virtualDelete _
        · exact accounts

omit prints in
omit [CDouble δ] in
theorem IsAccount.updatedRole (account : IsAccount .role uuid ids doc) (name : Option Bytes)
    (permissions : Option {value : JsonValue δ // DistinctKeys value}) :
    IsAccount .role uuid ids (Jdbx.updatedRole name (permissions.map Subtype.val) doc) := by
  have named : IsAccount .role uuid ids (Jdbx.updatedRole name none doc) := by
    cases name with
    | none => exact account
    | some name => exact account.set_other (distinctKeys_string name) (by decide)
  cases permissions with
  | none => exact named
  | some permissions =>
    obtain ⟨permissions, levels, copyable⟩ := permissions
    have distinct : DistinctKeys (jsonClone permissions) := by
      rw [jsonClone_eq_self_of_copyable copyable]
      exact ⟨levels, copyable⟩
    exact named.set_other distinct (by decide)

theorem AccountStore.updateRole (accounts : AccountStore db) (calls : Calls) (roleId : Bytes)
    (name : Option Bytes) (permissions : Option {value : JsonValue δ // DistinctKeys value}) :
    AccountStore
      (rbacDbUpdateRole calls db roleId name (permissions.map Subtype.val)).2 := by
  have asks : unifiedQuery AccountType.role.name (ascii "system")
      (some AccountType.role.collection) (accountFilter .role (ascii "uuid") roleId) =
        (uuidQuery .role roleId : JsonValue δ) := rfl
  simp only [rbacDbUpdateRole, accounts.findByUuid prints asks, accounts.findAccount prints asks]
  cases found : ((calls 0).or (calls 1)).bind fun _ => storedAccount db .role roleId with
  | none => exact accounts
  | some roleDoc =>
    obtain ⟨_, _, stored⟩ := Option.bind_eq_some_iff.mp found
    obtain ⟨_, ids, plainIds, account⟩ := accounts.account prints stored
    have changed := account.updatedRole name permissions
    have own : ∀ id, (if (((calls 0).bind fun _ => storedAccount db .role roleId)).isSome then
        some roleId else jsonGetString (jsonObjectGet roleDoc (ascii "uuid"))) = some id →
          id = roleId := by
      intro id same
      rw [account.named] at same
      split_ifs at same <;> exact (Option.some.inj same).symm
    dsimp only
    split
    · rename_i id moment same _
      obtain rfl := own id same
      refine accounts.virtualUpdate prints plainIds changed (fun existing held => ?_) moment
      rw [(storedAccount_eq_some.mp stored).1] at held
      cases held
      exact ⟨ids, account⟩
    · exact accounts

theorem AccountStore.getAccount (accounts : AccountStore db) (call : Option Moment)
    (uuid : Bytes) :
    AccountStore (Jdbx.getAccount call db uuid).2 ∧
      ∀ doc, (Jdbx.getAccount call db uuid).1 = some doc → AccountLaw uuid doc := by
  cases call with
  | none => exact ⟨accounts, fun doc absurdity => by cases absurdity⟩
  | some moment => exact accounts.virtualGet prints uuid

omit prints in
theorem rbacDbGetUser_eq (prints : ∀ number : δ, PrintsNumber number)
    (accounts : AccountStore db) {first second : Option Moment} {userId id : Bytes}
    (found : rbacDbGetUser first second db userId = some id) :
    id = userId ∧ ∃ doc, storedAccount db .user userId = some doc := by
  rw [rbacDbGetUser, accounts.findByUuid prints rfl] at found
  obtain ⟨doc, queried, converted⟩ := Option.bind_eq_some_iff.mp found
  obtain ⟨_, _, stored⟩ := Option.bind_eq_some_iff.mp queried
  obtain ⟨_, ids, _, account⟩ := accounts.account prints stored
  rw [userDocToRbacUser, account.named] at converted
  split at converted
  · rename_i held _ _ _ same _ _ _
    cases same
    exact ⟨(Option.some.inj converted).symm, doc, stored⟩
  · cases converted

omit prints in
theorem rbacDbGetRole_eq (prints : ∀ number : δ, PrintsNumber number)
    (accounts : AccountStore db) {first second : Option Moment} {roleId id : Bytes}
    (found : rbacDbGetRole first second db roleId = some id) :
    id = roleId ∧ ∃ doc, storedAccount db .role roleId = some doc := by
  rw [rbacDbGetRole, accounts.findByUuid prints rfl] at found
  obtain ⟨doc, queried, converted⟩ := Option.bind_eq_some_iff.mp found
  obtain ⟨_, _, stored⟩ := Option.bind_eq_some_iff.mp queried
  obtain ⟨_, ids, _, account⟩ := accounts.account prints stored
  rw [roleDocToRbacRole, account.named] at converted
  split at converted
  · exact ⟨(Option.some.inj converted).symm, doc, stored⟩
  · cases converted

/-- What the two writes of an addition, or of a removal, are given. -/
structure BothFound (db : Database δ) (userId roleId : Bytes) (userDoc roleDoc : JsonValue δ)
    (roles users : List Bytes) : Prop where
  userStored : ∃ doc, storedAccount db .user userId = some doc
  roleStored : ∃ doc, storedAccount db .role roleId = some doc
  plainRoles : ∀ id ∈ roles, Plain id
  plainUsers : ∀ id ∈ users, Plain id
  user : IsAccount .user userId roles userDoc
  role : IsAccount .role roleId users roleDoc

theorem AccountStore.bothFound (accounts : AccountStore db) {calls : Calls}
    {userId roleId actualUserId actualRoleId : Bytes} {userRoles roleUsers : List (JsonValue δ)}
    (userFound : rbacDbGetUser (calls 0) (calls 1) db userId = some actualUserId)
    (roleFound : rbacDbGetRole (calls 2) (calls 3) db roleId = some actualRoleId)
    (gotUser : (Jdbx.getAccount (calls 4) db actualUserId).1 = some userDoc)
    (gotRole : (Jdbx.getAccount (calls 5) (Jdbx.getAccount (calls 4) db actualUserId).2
      actualRoleId).1 = some roleDoc)
    (rolesHeld : jsonObjectGet userDoc (ascii "roles") = some (.array userRoles))
    (usersHeld : jsonObjectGet roleDoc (ascii "users") = some (.array roleUsers)) :
    actualUserId = userId ∧ actualRoleId = roleId ∧ ∃ roles users,
      userRoles = roles.map JsonValue.string ∧ roleUsers = users.map JsonValue.string ∧
        BothFound db userId roleId userDoc roleDoc roles users := by
  obtain ⟨rfl, userStored⟩ := rbacDbGetUser_eq prints accounts userFound
  obtain ⟨rfl, roleStored⟩ := rbacDbGetRole_eq prints accounts roleFound
  obtain ⟨touched, userLaw⟩ := accounts.getAccount prints (calls 4) actualUserId
  have roleLaw := (touched.getAccount prints (calls 5) actualRoleId).2
  obtain ⟨roles, plainRoles, user, sameRoles⟩ := (userLaw userDoc gotUser).of_list .user rolesHeld
  obtain ⟨users, plainUsers, role, sameUsers⟩ := (roleLaw roleDoc gotRole).of_list .role usersHeld
  obtain rfl := JsonValue.array.inj sameRoles
  obtain rfl := JsonValue.array.inj sameUsers
  exact ⟨rfl, rfl, roles, users, rfl, rfl,
    { userStored, roleStored, plainRoles, plainUsers, user, role }⟩

theorem AccountStore.addToList (accounts : AccountStore db) (call : Option Moment)
    (shared : Bool) (plain : Plain uuid) (plainIds : ∀ id ∈ ids, Plain id)
    (account : IsAccount type uuid ids doc) {id : Bytes} (plainId : Plain id)
    (same : ∀ existing, storageGetDocument db uuid = some existing →
      ∃ others, IsAccount type uuid others existing) :
    AccountStore
      (Jdbx.addToList call shared db uuid doc type.list (ids.map JsonValue.string) id).2 := by
  have plainMore : ∀ tested ∈ ids ++ [id], Plain tested := by
    intro tested member
    rcases List.mem_append.mp member with old | new
    · exact plainIds tested old
    · exact List.mem_singleton.mp new ▸ plainId
  have appended : (JsonValue.array (ids.map JsonValue.string ++ [.string id]) : JsonValue δ) =
      idArray (ids ++ [id]) := by
    rw [idArray, List.map_append]
    rfl
  have longer := account.set_list (ids ++ [id])
  have set := accounts.setShared ⟨plain, type, _, plainMore, longer⟩ shared
  rw [Jdbx.addToList, appended]
  cases listsId id (ids.map JsonValue.string : List (JsonValue δ)) with
  | true => exact accounts
  | false =>
    cases call with
    | none => exact set
    | some moment =>
      refine set.virtualUpdate prints plainMore longer (fun existing held => ?_) moment
      rw [storageGetDocument_congr (setShared_documents shared db uuid _)] at held
      exact same existing held

omit prints in
theorem addToList_get_of_ne (call : Option Moment) (shared : Bool) {other : Bytes}
    (different : other ≠ uuid) (key : Bytes) (items : List (JsonValue δ)) (id : Bytes) :
    storageGetDocument (Jdbx.addToList call shared db uuid doc key items id).2 other =
      storageGetDocument db other := by
  have kept := storageGetDocument_congr
    (setShared_documents shared db uuid
      (jsonObjectSet doc key (.array (items ++ [.string id])))) other
  rw [Jdbx.addToList]
  cases listsId id items with
  | true => rfl
  | false =>
    cases call with
    | none => exact kept
    | some moment => exact (virtualUpdate_get_of_ne different moment).trans kept

omit prints in
theorem BothFound.different {userId roleId : Bytes} {roles users : List Bytes}
    (found : BothFound db userId roleId userDoc roleDoc roles users) :
    roleId ≠ userId := by
  intro same
  obtain ⟨user, userStored⟩ := found.userStored
  obtain ⟨role, roleStored⟩ := found.roleStored
  obtain ⟨userHeld, userTyped⟩ := storedAccount_eq_some.mp userStored
  obtain ⟨roleHeld, roleTyped⟩ := storedAccount_eq_some.mp roleStored
  rw [same, userHeld] at roleHeld
  rw [← Option.some.inj roleHeld, userTyped] at roleTyped
  exact absurd (Option.some.inj roleTyped) (by decide)

theorem AccountStore.addToLists (accounts : AccountStore db) {before : Database δ}
    (stored : AccountStore before) (same : db.documents = before.documents) (calls : Calls)
    (userShared roleShared : Bool) {userId roleId : Bytes} {roles users : List Bytes}
    (found : BothFound before userId roleId userDoc roleDoc roles users) :
    AccountStore (Jdbx.addToLists calls userShared roleShared db userId roleId userDoc roleDoc
      (roles.map JsonValue.string) (users.map JsonValue.string)).2 := by
  obtain ⟨user, userStored⟩ := found.userStored
  obtain ⟨role, roleStored⟩ := found.roleStored
  obtain ⟨plainUser, userIds, _, userAccount⟩ := stored.account prints userStored
  obtain ⟨plainRole, roleIds, _, roleAccount⟩ := stored.account prints roleStored
  have userHeld : ∀ existing, storageGetDocument db userId = some existing →
      ∃ others, IsAccount .user userId others existing := by
    intro existing held
    rw [storageGetDocument_congr same, (storedAccount_eq_some.mp userStored).1] at held
    cases held
    exact ⟨userIds, userAccount⟩
  have added : AccountStore (Jdbx.addToList (calls 6) userShared db userId userDoc
      (ascii "roles") (roles.map JsonValue.string) roleId).2 :=
    accounts.addToList prints _ _ plainUser found.plainRoles found.user plainRole userHeld
  have roleHeld : ∀ existing, storageGetDocument (Jdbx.addToList (calls 6) userShared db userId
      userDoc (ascii "roles") (roles.map JsonValue.string) roleId).2 roleId = some existing →
        ∃ others, IsAccount .role roleId others existing := by
    intro existing held
    rw [addToList_get_of_ne _ _ found.different, storageGetDocument_congr same,
      (storedAccount_eq_some.mp roleStored).1] at held
    cases held
    exact ⟨roleIds, roleAccount⟩
  rw [Jdbx.addToLists]
  split_ifs
  · exact added.addToList prints _ _ plainRole found.plainUsers found.role plainUser roleHeld
  · exact added

theorem AccountStore.addUserToRole (accounts : AccountStore db) (calls : Calls)
    (userId roleId : Bytes) : AccountStore (rbacDbAddUserToRole calls db userId roleId).2 := by
  rw [rbacDbAddUserToRole]
  split
  · rename_i actualUserId actualRoleId userFound roleFound
    have gotUser := (accounts.getAccount prints (calls 4) actualUserId).1
    have gotRole := (gotUser.getAccount prints (calls 5) actualRoleId).1
    dsimp only
    split
    · exact gotUser
    · rename_i userDoc userGot
      split
      · exact gotRole
      · rename_i roleDoc roleGot
        split
        · rename_i userRoles roleUsers rolesHeld usersHeld
          obtain ⟨rfl, rfl, roles, users, rfl, rfl, found⟩ :=
            accounts.bothFound prints userFound roleFound userGot roleGot rolesHeld usersHeld
          have same := (getAccount_documents (calls 5) _ actualRoleId).trans
            (getAccount_documents (calls 4) db actualUserId)
          exact gotRole.addToLists prints accounts same calls _ _ found
        · exact gotRole
  · exact accounts

omit prints in
def LeavesDocuments (db : Database δ) (outcome : Option (Bool × Database δ)) : Prop :=
  ∃ returned, outcome = some returned ∧ AccountStore returned.2 ∧
    returned.2.documents = db.documents

theorem AccountStore.removeFromList (accounts : AccountStore db) (call : Option Moment)
    (shared : Bool) (plain : Plain uuid) (plainIds : ∀ id ∈ ids, Plain id)
    (account : IsAccount type uuid ids doc) (id : Bytes) :
    LeavesDocuments db
      (Jdbx.removeFromList call shared db uuid doc type.list (ids.map JsonValue.string) id) := by
  have plainFewer : ∀ tested ∈ ids.filter (· != id), Plain tested :=
    fun tested member => plainIds tested (List.mem_filter.mp member).1
  have set := accounts.setShared
    ⟨plain, type, _, plainFewer, account.set_list (ids.filter (· != id))⟩ shared
  have kept := setShared_documents shared db uuid
    (jsonObjectSet doc type.list (idArray (ids.filter (· != id))))
  rw [Jdbx.removeFromList, filter_isOtherId]
  split_ifs
  · exact ⟨_, rfl, accounts, rfl⟩
  · cases call with
    | none => exact ⟨_, rfl, set, kept⟩
    | some moment =>
      simp only [set.dbUpdateDocument prints, Option.map_some]
      exact ⟨_, rfl, set, kept⟩

theorem AccountStore.removeUserFromRole (accounts : AccountStore db) (calls : Calls)
    (userId roleId : Bytes) :
    LeavesDocuments db (rbacDbRemoveUserFromRole calls db userId roleId) := by
  rw [rbacDbRemoveUserFromRole]
  split
  · rename_i actualUserId actualRoleId userFound roleFound
    have gotUser := (accounts.getAccount prints (calls 4) actualUserId).1
    have gotRole := (gotUser.getAccount prints (calls 5) actualRoleId).1
    have userSame := getAccount_documents (calls 4) db actualUserId
    have roleSame := (getAccount_documents (calls 5) (Jdbx.getAccount (calls 4) db
      actualUserId).2 actualRoleId).trans userSame
    dsimp only
    split
    · exact ⟨_, rfl, gotUser, userSame⟩
    · rename_i userDoc userGot
      split
      · exact ⟨_, rfl, gotRole, roleSame⟩
      · rename_i roleDoc roleGot
        split
        · rename_i userRoles roleUsers rolesHeld usersHeld
          obtain ⟨rfl, rfl, roles, users, rfl, rfl, found⟩ :=
            accounts.bothFound prints userFound roleFound userGot roleGot rolesHeld usersHeld
          obtain ⟨user, userStored⟩ := found.userStored
          obtain ⟨role, roleStored⟩ := found.roleStored
          have plainUser := (accounts.account prints userStored).1
          have plainRole := (accounts.account prints roleStored).1
          obtain ⟨removed, first, firstStore, firstSame⟩ :=
            gotRole.removeFromList prints (calls 6) (isCached db actualUserId) plainUser
              found.plainRoles found.user actualRoleId
          obtain ⟨last, second, lastStore, lastSame⟩ :=
            firstStore.removeFromList prints (calls 7)
              (isCached (Jdbx.getAccount (calls 4) db actualUserId).2 actualRoleId) plainRole
                found.plainUsers found.role actualUserId
          rw [removeFromLists]
          have written : Jdbx.removeFromList (calls 6) (isCached db actualUserId)
              (Jdbx.getAccount (calls 5) (Jdbx.getAccount (calls 4) db actualUserId).2
                actualRoleId).2 actualUserId userDoc (ascii "roles")
                  (roles.map JsonValue.string) actualRoleId = some removed := first
          rw [written, Option.bind_some]
          split_ifs
          · refine ⟨_, congrArg _ second, lastStore, ?_⟩
            exact lastSame.trans (firstSame.trans roleSame)
          · exact ⟨_, rfl, firstStore, firstSame.trans roleSame⟩
        · exact ⟨_, rfl, gotRole, roleSame⟩
  · exact ⟨_, rfl, accounts, rfl⟩

theorem AccountStore.grantPermission (accounts : AccountStore db) (calls : Calls)
    (roleId : Bytes) (resourceType : Int32) (resourceId : Bytes) (permission : Int32) :
    LeavesDocuments db
      (rbacDbGrantPermission calls db roleId resourceType resourceId permission) := by
  rw [rbacDbGrantPermission]
  split
  · exact ⟨_, rfl, accounts, rfl⟩
  · split
    · simp only [accounts.dbUpdateDocument prints, Option.map_some]
      exact ⟨_, rfl, accounts, rfl⟩
    · exact ⟨_, rfl, accounts, rfl⟩

omit prints in
omit [CDouble δ] in
theorem IsJsonObject.distinct_get (isObject : IsJsonObject doc) {key : Bytes}
    {value : JsonValue δ} (held : jsonObjectGet doc key = some value) : DistinctKeys value := by
  obtain ⟨entries, rfl, levels, copyable⟩ := isObject
  cases levels with
  | zero => exact copyable.elim
  | succ levels => exact ⟨levels, copyable.2 (key, value) (mem_of_getEntry_eq_some held)⟩

omit prints in
theorem revokedPermissions_distinct {permissions : List (Bytes × JsonValue δ)}
    (distinct : DistinctKeys (.object permissions)) (key : Bytes) (current permission : Int32) :
    DistinctKeys (revokedPermissions permissions key current permission) := by
  obtain ⟨levels, copyable⟩ := distinct
  cases levels with
  | zero => exact copyable.elim
  | succ levels =>
    rw [revokedPermissions]
    split_ifs
    · refine ⟨levels + 1, entryKeys_removeEntry_nodup copyable.1 key, fun entry member => ?_⟩
      exact copyable.2 entry (mem_of_mem_removeEntry member)
    · have isObject : IsJsonObject (.object permissions) :=
        ⟨permissions, rfl, levels + 1, copyable⟩
      have number : DistinctKeys
          (.number (CDouble.ofInt64 (current &&& ~~~permission).toInt64) : JsonValue δ) :=
        ⟨1, trivial⟩
      obtain ⟨_, _, set⟩ := isObject.set key number
      exact set

theorem AccountStore.revokePermission (accounts : AccountStore db) (calls : Calls)
    (roleId : Bytes) (resourceType : Int32) (resourceId : Bytes) (permission : Int32) :
    LeavesDocuments db
      (rbacDbRevokePermission calls db roleId resourceType resourceId permission) := by
  obtain ⟨got, law⟩ := accounts.getAccount prints (calls 0) roleId
  have same := getAccount_documents (calls 0) db roleId
  rw [rbacDbRevokePermission]
  dsimp only
  split
  · exact ⟨_, rfl, got, same⟩
  · rename_i roleDoc roleGot
    split
    · rename_i permissions held
      split
      · exact ⟨_, rfl, got, same⟩
      · rename_i current _
        obtain ⟨plain, type, ids, plainIds, account⟩ := law roleDoc roleGot
        have isRole : ascii "permissions" ∉ type.lawKeys := by
          cases type with
          | user =>
            rw [account.lacks _ (by decide)] at held
            cases held
          | role => decide
        have distinct := revokedPermissions_distinct (account.isObject.distinct_get held)
          (resourcePermissionKey resourceType resourceId) current permission
        have set := got.setShared
          ⟨plain, type, ids, plainIds, account.set_other distinct isRole⟩ (isCached db roleId)
        have kept := (setShared_documents (isCached db roleId)
          (Jdbx.getAccount (calls 0) db roleId).2 roleId
          (jsonObjectSet roleDoc (ascii "permissions") (revokedPermissions permissions
            (resourcePermissionKey resourceType resourceId) current permission))).trans same
        split
        · simp only [set.dbUpdateDocument prints, Option.map_some]
          exact ⟨_, rfl, set, kept⟩
        · exact ⟨_, rfl, set, kept⟩
    · exact ⟨_, rfl, got, same⟩

omit prints in
theorem LeavesDocuments.after {outcome : Option (Bool × Database δ)}
    (leaves : LeavesDocuments db outcome) (taken : outcome.map Prod.snd = some next) :
    AccountStore next ∧ next.documents = db.documents := by
  obtain ⟨returned, rfl, accounts, same⟩ := leaves
  cases taken
  exact ⟨accounts, same⟩

theorem AccountStore.rbacStep (accounts : AccountStore db) {event : Calls × RbacCall δ}
    (taken : Jdbx.rbacStep db event = some next) : AccountStore next := by
  obtain ⟨calls, call⟩ := event
  cases call with
  | createUser username passwordHash =>
    cases taken
    exact accounts.createUser calls username passwordHash
  | createRole name =>
    cases taken
    exact accounts.createRole calls name
  | deleteUser userId =>
    cases taken
    exact accounts.deleteUser prints calls userId
  | deleteRole roleId =>
    cases taken
    exact accounts.deleteRole calls roleId
  | updateRole roleId name permissions =>
    cases taken
    exact accounts.updateRole prints calls roleId name permissions
  | addUserToRole userId roleId =>
    cases taken
    exact accounts.addUserToRole prints calls userId roleId
  | removeUserFromRole userId roleId =>
    exact ((accounts.removeUserFromRole prints calls userId roleId).after taken).1
  | grantPermission roleId resourceType resourceId permission =>
    exact ((accounts.grantPermission prints calls _ _ _ _).after taken).1
  | revokePermission roleId resourceType resourceId permission =>
    exact ((accounts.revokePermission prints calls _ _ _ _).after taken).1
  | get uuid =>
    cases taken
    exact (accounts.virtualGet prints uuid).1

omit prints in
theorem accountStore_fresh {documents : DocumentList} (empty : documents = .empty) :
    AccountStore (freshDatabase documents : Database δ) := by
  subst empty
  constructor
  · intro entry member
    cases member
  · intro held same
    cases same
    exact genericCacheCreate_obeys 10000

theorem accountStore_reached {events : List (Calls × RbacCall δ)} {last : Database δ}
    (reached : runFrom Jdbx.rbacStep (freshDatabase .empty) events = some last) :
    AccountStore last :=
  invariant_reached (fun _ _ _ accounts taken => accounts.rbacStep prints taken)
    (accountStore_fresh rfl) reached

def allHappen (number : UInt32) : Calls :=
  fun _ => some ⟨1700000000, number⟩

end Jdbx
