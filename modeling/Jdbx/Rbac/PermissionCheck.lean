import Jdbx.Rbac.RbacRuns

/-!
# Two permission checks

`rbac_check_permission` reads the permissions of a role that are a `JSON_NUMBER`,
`rbac_db_check_permission` those that are a `JSON_INTEGER` too.  A mask that was stored is
read back as an integer.
-/

namespace Jdbx

open Library

variable {δ : Type} [CDouble δ]

/-! ## The checks -/

omit [CDouble δ] in
structure PermissionRequest where
  userId : Bytes
  resourceType : Int32
  resourceId : Bytes
  permission : Int32

omit [CDouble δ] in
/-- The permission of a `JSON_INTEGER`. -/
def integerPermission : Option (JsonValue δ) → Option Int32
  | some (.integer integer) => some integer.toInt32
  | _ => none

def storedPermission (value : Option (JsonValue δ)) : Option Int32 :=
  (integerPermission value).or (numberPermission value)

omit [CDouble δ] in
def entryGrants (permissionOf : Option (JsonValue δ) → Option Int32)
    (permissions : JsonValue δ) (key : Bytes) (permission : Int32) : Bool :=
  (permissionOf (jsonObjectGet permissions key)).any fun held =>
    held &&& permission == permission

omit [CDouble δ] in
/-- The role grants the permission for the resource or for all resources of its type. -/
def roleGrants (permissionOf : Option (JsonValue δ) → Option Int32) (request : PermissionRequest)
    (roleDoc : JsonValue δ) : Bool :=
  match jsonObjectGet roleDoc (ascii "permissions") with
  | some (.object entries) =>
      entryGrants permissionOf (.object entries)
          (resourcePermissionKey request.resourceType request.resourceId) request.permission ||
        entryGrants permissionOf (.object entries)
          (resourcePermissionKey request.resourceType (ascii "*")) request.permission
  | _ => false

/-- The first document of the query of `rbac_check_permission`. -/
def checkedAccount (db : Database δ) (type : AccountType) (uuid : Bytes) :
    Option (JsonValue δ) :=
  (foundDocuments (virtualQuery db type.name (ascii "system") (some type.collection)
    (.object [(ascii "uuid", .string uuid), (ascii "type", .string type.name),
      (ascii "library", .string (ascii "system"))]))).head?

def rbacCheckPermission (db : Database δ) (request : PermissionRequest) : Bool :=
  match (checkedAccount db .user request.userId).bind fun user =>
      jsonObjectGet user (ascii "roles") with
  | some (.array roles) =>
      roles.any fun roleId =>
        ((jsonGetString (some roleId)).bind (checkedAccount db .role)).any
          (roleGrants numberPermission request)
  | _ => false

/-- The role loop of `rbac_db_check_permission`. -/
def checkRoles (request : PermissionRequest) : List (JsonValue δ) → Database δ →
    Bool × Database δ
  | [], db => (false, db)
  | roleId :: roles, db =>
      match jsonGetString (some roleId) with
      | none => checkRoles request roles db
      | some id =>
          let got := virtualGet db id
          if got.1.any (roleGrants storedPermission request) then (true, got.2)
          else checkRoles request roles got.2

def rbacDbCheckPermission (db : Database δ) (request : PermissionRequest) :
    Bool × Database δ :=
  let got := virtualGet db request.userId
  match got.1.bind fun user => jsonObjectGet user (ascii "roles") with
  | some (.array roles) => checkRoles request roles got.2
  | _ => (false, got.2)

def GrantedBy (permissionOf : Option (JsonValue δ) → Option Int32) (db : Database δ)
    (request : PermissionRequest) : Prop :=
  ∃ user roles id role, storedAccount db .user request.userId = some user ∧
    jsonObjectGet user (ascii "roles") = some (.array roles) ∧ .string id ∈ roles ∧
      storedAccount db .role id = some role ∧ roleGrants permissionOf request role = true

section Answers

variable {db : Database δ} {request : PermissionRequest}

omit [CDouble δ] in
theorem jsonGetString_eq_some {value : JsonValue δ} {text : Bytes} :
    jsonGetString (some value) = some text ↔ value = .string text := by
  cases value <;> simp [jsonGetString]

variable (prints : ∀ number : δ, PrintsNumber number)
include prints

theorem rbacCheckPermission_iff (accounts : AccountStore db) :
    rbacCheckPermission db request = true ↔ GrantedBy numberPermission db request := by
  have checked : ∀ type uuid, checkedAccount db type uuid = storedAccount db type uuid :=
    fun type uuid => accounts.found prints rfl
  rw [rbacCheckPermission, checked, GrantedBy]
  constructor
  · intro granted
    split at granted
    · rename_i roles held
      obtain ⟨user, stored, listed⟩ := Option.bind_eq_some_iff.mp held
      obtain ⟨roleId, member, allowed⟩ := List.any_eq_true.mp granted
      obtain ⟨role, found, grants⟩ := (Option.any_eq_true _ _).mp allowed
      obtain ⟨id, named, roleStored⟩ := Option.bind_eq_some_iff.mp found
      rw [jsonGetString_eq_some.mp named] at member
      rw [checked] at roleStored
      exact ⟨user, roles, id, role, stored, listed, member, roleStored, grants⟩
    · cases granted
  · intro ⟨user, roles, id, role, stored, listed, member, roleStored, grants⟩
    rw [stored, Option.bind_some, listed]
    rw [← checked] at roleStored
    exact List.any_eq_true.mpr
      ⟨.string id, member, (Option.any_eq_true _ _).mpr ⟨role, roleStored, grants⟩⟩

theorem grants_role (accounts : AccountStore db)
    {permissionOf : Option (JsonValue δ) → Option Int32} {uuid : Bytes} {doc : JsonValue δ}
    (stored : storageGetDocument db uuid = some doc)
    (grants : roleGrants permissionOf request doc = true) :
    storedAccount db .role uuid = some doc := by
  obtain ⟨_, type, ids, _, account⟩ := accounts.get prints stored
  cases type with
  | user =>
      rw [roleGrants, account.lacks _ (by decide)] at grants
      cases grants
  | role => exact storedAccount_eq_some.mpr ⟨stored, by rw [account.typed]; rfl⟩

theorem checkRoles_iff (roles : List (JsonValue δ)) : ∀ {db : Database δ}, AccountStore db →
    Coherent [] db → ((checkRoles request roles db).1 = true ↔
      ∃ id role, .string id ∈ roles ∧ storedAccount db .role id = some role ∧
        roleGrants storedPermission request role = true) := by
  induction roles with
  | nil =>
      intro db _ _
      simp [checkRoles]
  | cons roleId roles ih =>
      intro db accounts coherent
      cases named : jsonGetString (some roleId) with
      | none =>
          have notString : ∀ id, JsonValue.string id ≠ roleId := by
            intro id same
            rw [← same] at named
            cases named
          simp only [checkRoles, named, ih accounts coherent, List.mem_cons,
            notString, false_or]
      | some id =>
          obtain rfl := jsonGetString_eq_some.mp named
          have answered := virtualGet_answer coherent id
          have after := virtualGet_coherent coherent id
          have kept := (accounts.virtualGet prints id).1
          have same : (virtualGet db id).2.documents = db.documents :=
            getAccount_documents (some ⟨0, 0⟩) db id
          have stays : ∀ uuid,
              storedAccount (virtualGet db id).2 .role uuid = storedAccount db .role uuid := by
            intro uuid
            rw [storedAccount, storageGetDocument_congr same, storedAccount]
          rw [checkRoles]
          simp only [named, answered]
          split_ifs with granted
          · obtain ⟨role, stored, grants⟩ := (Option.any_eq_true _ _).mp granted
            have isRole := grants_role prints accounts stored grants
            exact iff_of_true rfl ⟨id, role, List.mem_cons_self, isRole, grants⟩
          · rw [ih kept after]
            simp only [stays]
            constructor
            · intro found
              obtain ⟨other, role, member, rest⟩ := found
              exact ⟨other, role, List.mem_cons_of_mem _ member, rest⟩
            · intro found
              obtain ⟨other, role, member, stored, grants⟩ := found
              rcases List.mem_cons.mp member with first | later
              · obtain rfl := JsonValue.string.inj first
                exact absurd ((Option.any_eq_true _ _).mpr
                  ⟨role, (storedAccount_eq_some.mp stored).1, grants⟩) granted
              · exact ⟨other, role, later, stored, grants⟩

theorem rbacDbCheckPermission_iff (accounts : AccountStore db) (coherent : Coherent [] db) :
    (rbacDbCheckPermission db request).1 = true ↔ GrantedBy storedPermission db request := by
  have answered := virtualGet_answer coherent request.userId
  have after := virtualGet_coherent coherent request.userId
  have kept := (accounts.virtualGet prints request.userId).1
  have same : (virtualGet db request.userId).2.documents = db.documents :=
    getAccount_documents (some ⟨0, 0⟩) db request.userId
  have stays : ∀ uuid, storedAccount (virtualGet db request.userId).2 .role uuid =
      storedAccount db .role uuid := by
    intro uuid
    rw [storedAccount, storageGetDocument_congr same, storedAccount]
  rw [rbacDbCheckPermission, answered, GrantedBy]
  constructor
  · intro granted
    split at granted
    · rename_i roles held
      obtain ⟨user, stored, listed⟩ := Option.bind_eq_some_iff.mp held
      obtain ⟨id, role, member, roleStored, grants⟩ :=
        (checkRoles_iff prints roles kept after).mp granted
      rw [stays] at roleStored
      obtain ⟨ids, _, account, _⟩ := (accounts.get prints stored).of_list .user listed
      have isUser : storedAccount db .user request.userId = some user :=
        storedAccount_eq_some.mpr ⟨stored, by rw [account.typed]; rfl⟩
      exact ⟨user, roles, id, role, isUser, listed, member, roleStored, grants⟩
    · cases granted
  · intro found
    obtain ⟨user, roles, id, role, stored, listed, member, roleStored, grants⟩ := found
    rw [(storedAccount_eq_some.mp stored).1, Option.bind_some, listed]
    refine (checkRoles_iff prints roles kept after).mpr ⟨id, role, member, ?_, grants⟩
    rw [stays, roleStored]

end Answers

theorem entryGrants_stored (permissions : JsonValue δ) (key : Bytes) (permission : Int32) :
    entryGrants storedPermission permissions key permission =
      (entryGrants numberPermission permissions key permission ||
        entryGrants integerPermission permissions key permission) := by
  rw [entryGrants, entryGrants, entryGrants, storedPermission]
  cases jsonObjectGet permissions key with
  | none => rfl
  | some value =>
      cases value with
      | integer integer => rfl
      | number number => exact (Bool.or_false _).symm
      | null | boolean _ | string _ | array _ | object _ => rfl

theorem roleGrants_stored (request : PermissionRequest) (roleDoc : JsonValue δ) :
    roleGrants storedPermission request roleDoc =
      (roleGrants numberPermission request roleDoc ||
        roleGrants integerPermission request roleDoc) := by
  rw [roleGrants, roleGrants, roleGrants]
  split
  · rw [entryGrants_stored, entryGrants_stored]
    ac_rfl
  · rfl

theorem grantedBy_stored_iff (db : Database δ) (request : PermissionRequest) :
    GrantedBy storedPermission db request ↔
      GrantedBy numberPermission db request ∨ GrantedBy integerPermission db request := by
  constructor
  · intro ⟨user, roles, id, role, stored, listed, member, roleStored, grants⟩
    rw [roleGrants_stored, Bool.or_eq_true] at grants
    exact grants.imp (fun grants => ⟨user, roles, id, role, stored, listed, member, roleStored,
      grants⟩) (fun grants => ⟨user, roles, id, role, stored, listed, member, roleStored, grants⟩)
  · intro either
    rcases either with granted | granted
    all_goals
      obtain ⟨user, roles, id, role, stored, listed, member, roleStored, grants⟩ := granted
      refine ⟨user, roles, id, role, stored, listed, member, roleStored, ?_⟩
      rw [roleGrants_stored, grants]
    · rfl
    · exact Bool.or_true _

/-- Over what the functions have written, and with caches that agree with it, the two checks
answer alike just where a number grants the permission or no integer does. -/
theorem permissionChecks_agree_iff (prints : ∀ number : δ, PrintsNumber number)
    {events : List (Calls × RbacCall δ)} {last db : Database δ}
    (reached : runFrom rbacStep (freshDatabase .empty) events = some last)
    (written : db.documents = last.documents) (coherent : Coherent [] db)
    (request : PermissionRequest) :
    (rbacCheckPermission db request = true ↔ (rbacDbCheckPermission db request).1 = true) ↔
      GrantedBy numberPermission db request ∨ ¬ GrantedBy integerPermission db request := by
  have stored : StoresOnly AccountLaw db := by
    intro entry member
    rw [written] at member
    exact (accountStore_reached prints reached).stored entry member
  have off : AccountStore db.cachesOff :=
    { stored := stored, cached := fun held absurdity => by cases absurdity }
  have cached : CacheObeys db.docCache CachedAccount := by
    intro held same key doc member
    obtain ⟨uuid, generated, found⟩ := coherent.doc held same key doc member
    exact ⟨uuid, generated, off.get prints found⟩
  have accounts : AccountStore db := { stored, cached }
  rw [rbacCheckPermission_iff prints accounts, rbacDbCheckPermission_iff prints accounts coherent,
    grantedBy_stored_iff]
  tauto

def notePermissions : {value : JsonValue Rat // DistinctKeys value} :=
  ⟨.object [(ascii "2:note", .number 3)], 2, List.nodup_singleton _, fun entry member => by
    rw [List.mem_singleton.mp member]
    trivial⟩

def grantedRun : Option (Database Rat) :=
  runFrom rbacStep (freshDatabase .empty)
    [(allHappen 1, .createUser (ascii "eve") (ascii "hash")),
      (allHappen 2, .createRole (ascii "editor")),
      (allHappen 3, .updateRole (ascii "doc-1700000000-2") none (some notePermissions)),
      (allHappen 4, .addUserToRole (ascii "doc-1700000000-1") (ascii "doc-1700000000-2"))]

def readNote : PermissionRequest where
  userId := ascii "doc-1700000000-1"
  resourceType := 2
  resourceId := ascii "note"
  permission := 1

def reopened (db : Database Rat) : Database Rat :=
  freshDatabase db.documents

theorem permissionChecks_agree_iff_note :
    ∃ last, grantedRun = some last ∧
      ((rbacCheckPermission (reopened last) readNote = true ↔
          (rbacDbCheckPermission (reopened last) readNote).1 = true) ↔
        GrantedBy numberPermission (reopened last) readNote ∨
          ¬ GrantedBy integerPermission (reopened last) readNote) := by
  have goesOn : grantedRun.isSome := by decide +kernel
  obtain ⟨last, reached⟩ := Option.isSome_iff_exists.mp goesOn
  have written : (reopened last).documents = last.documents := rfl
  exact ⟨last, reached, permissionChecks_agree_iff printsNumber_rat reached written
    (coherent_freshDatabase [] last.documents) readNote⟩

/-- The role holds the mask 3 as an integer, and only one check reads it. -/
theorem not_permissionChecks_agree_note :
    ∃ last, grantedRun = some last ∧
      ¬ (rbacCheckPermission (reopened last) readNote = true ↔
        (rbacDbCheckPermission (reopened last) readNote).1 = true) := by
  have answers : (grantedRun.map fun last =>
      (rbacCheckPermission (reopened last) readNote,
        (rbacDbCheckPermission (reopened last) readNote).1)) =
          some (false, true) := by
    decide +kernel
  obtain ⟨last, reached, both⟩ := Option.map_eq_some_iff.mp answers
  obtain ⟨first, second⟩ := Prod.mk.inj both
  refine ⟨last, reached, ?_⟩
  rw [first, second]
  decide

end Jdbx
