import Jdbx.Database.StoreRuns
import Jdbx.Database.VirtualQueries

/-!
# Users and roles in the store

The `rbac_db` functions over the unified collection.  A user lists its roles and a role
its users, each in a document of its own.  `virtual_get` hands out the object that its
cache holds, so that what a function sets in such a document is set in the cache.

Every database call of a function can fail, and then has no effect.
-/

namespace Jdbx

open Library

variable {δ : Type}

inductive AccountType where
  | user
  | role
  deriving DecidableEq

namespace AccountType

/-- `DOC_TYPE_NAME_USER` and `DOC_TYPE_NAME_ROLE`. -/
def name : AccountType → Bytes
  | user => ascii "user"
  | role => ascii "role"

/-- `VIRTUAL_COLLECTION_USERS` and `VIRTUAL_COLLECTION_ROLES`. -/
def collection : AccountType → Bytes
  | user => ascii "users"
  | role => ascii "roles"

def list : AccountType → Bytes
  | user => ascii "roles"
  | role => ascii "users"

def other : AccountType → AccountType
  | user => role
  | role => user

end AccountType

/-- What becomes of the database calls of one function, by their place in it: a call
fails, or happens at a moment. -/
abbrev Calls := Nat → Option Moment

def uuidFilter (uuid : Bytes) : JsonValue δ :=
  .object [(ascii "uuid", .string uuid)]

/-- `rbac_build_user_query` or `rbac_build_role_query`, with one more field. -/
def accountFilter (type : AccountType) (key value : Bytes) : JsonValue δ :=
  .object [(ascii "type", .string type.name), (ascii "library", .string (ascii "system")),
    (key, .string value)]

section Operations

variable [CDouble δ]

/-- The first document of a `virtual_query` for accounts, cloned. -/
def findAccount (call : Option Moment) (db : Database δ) (type : AccountType)
    (filters : JsonValue δ) : Option (JsonValue δ) :=
  call.bind fun _ =>
    (foundDocuments (virtualQuery db type.name (ascii "system") (some type.collection)
      filters)).head?.map jsonClone

def findByUuid (first second : Option Moment) (db : Database δ) (type : AccountType)
    (uuid : Bytes) (filters : JsonValue δ) : Option (JsonValue δ) :=
  (findAccount first db type filters).or
    (findAccount second db type (accountFilter type (ascii "uuid") uuid))

/-! ## Creating and deleting -/

def createAccount (calls : Calls) (db : Database δ) (type : AccountType)
    (filters account : JsonValue δ) : Option Bytes × Database δ :=
  match findAccount (calls 0) db type filters with
  | some _ => (none, db)
  | none =>
    match calls 1 with
    | none => (none, db)
    | some moment =>
      let inserted := virtualInsert moment db type.name (ascii "system")
        (some type.collection) account (ascii "system-admin")
      (jsonGetString (jsonObjectGet inserted.1 (ascii "uuid")), inserted.2)

omit [CDouble δ] in
/-- The `user_doc` of a new user. -/
def userDocument (username passwordHash : Bytes) : JsonValue δ :=
  .object [(ascii "username", .string username),
    (ascii "password_hash", .string passwordHash), (ascii "roles", .array [])]

omit [CDouble δ] in
/-- The `role_doc` of a new role. -/
def roleDocument (name : Bytes) : JsonValue δ :=
  .object [(ascii "name", .string name), (ascii "permissions", .object []),
    (ascii "users", .array [])]

/-- `rbac_db_create_user`, with the hash of the password. -/
def rbacDbCreateUser (calls : Calls) (db : Database δ) (username passwordHash : Bytes) :
    Option Bytes × Database δ :=
  createAccount calls db .user (.object [(ascii "username", .string username)])
    (userDocument username passwordHash)

def rbacDbCreateRole (calls : Calls) (db : Database δ) (name : Bytes) :
    Option Bytes × Database δ :=
  createAccount calls db .role (accountFilter .role (ascii "name") name) (roleDocument name)

omit [CDouble δ] in
/-- An item that stays in a list from which `id` is removed. -/
def isOtherId (id : Bytes) : JsonValue δ → Bool
  | .string held => held != id
  | _ => false

/-- One turn of the loop of `rbac_db_delete_user`. -/
def removeFromRole (query update : Option Moment) (db : Database δ) (userId : Bytes) :
    JsonValue δ → Database δ
  | .string roleId =>
    match findAccount query db .role (accountFilter .role (ascii "uuid") roleId) with
    | none => db
    | some roleDoc =>
      match jsonObjectGet roleDoc (ascii "users"), update with
      | some (.array users), some moment =>
        let updatedUsers := .array (users.filter (isOtherId userId))
        (virtualUpdate moment db roleId
          (jsonObjectSet roleDoc (ascii "users") updatedUsers)).2
      | _, _ => db
  | _ => db

/-- The loop of `rbac_db_delete_user`, whose calls are two for each role. -/
def removeFromRoles (calls : Calls) (userId : Bytes) (db : Database δ) (place : Nat) :
    List (JsonValue δ) → Database δ
  | [] => db
  | roleId :: roles =>
    removeFromRoles calls userId
      (removeFromRole (calls place) (calls (place + 1)) db userId roleId) (place + 2) roles

def rbacDbDeleteUser (calls : Calls) (db : Database δ) (userId : Bytes) : Bool × Database δ :=
  match findByUuid (calls 0) (calls 1) db .user userId (uuidFilter userId) with
  | none => (false, db)
  | some userDoc =>
    let cleared :=
      match jsonObjectGet userDoc (ascii "roles") with
      | some (.array roles) => removeFromRoles calls userId db 3 roles
      | _ => db
    let actualDocId :=
      if (findAccount (calls 0) db .user (uuidFilter userId)).isSome then some userId
      else jsonGetString (jsonObjectGet userDoc (ascii "uuid"))
    match actualDocId, calls 2 with
    | some id, some _ => virtualDelete cleared id
    | _, _ => (false, cleared)

def rbacDbDeleteRole (calls : Calls) (db : Database δ) (roleId : Bytes) : Bool × Database δ :=
  match calls 0 with
  | some _ => virtualDelete db roleId
  | none => (false, db)

omit [CDouble δ] in
def updatedRole (name : Option Bytes) (permissions : Option (JsonValue δ))
    (roleDoc : JsonValue δ) : JsonValue δ :=
  let named :=
    match name with
    | some name => jsonObjectSet roleDoc (ascii "name") (.string name)
    | none => roleDoc
  match permissions with
  | some permissions => jsonObjectSet named (ascii "permissions") (jsonClone permissions)
  | none => named

def rbacDbUpdateRole (calls : Calls) (db : Database δ) (roleId : Bytes) (name : Option Bytes)
    (permissions : Option (JsonValue δ)) : Bool × Database δ :=
  let filters := accountFilter .role (ascii "uuid") roleId
  match findByUuid (calls 0) (calls 1) db .role roleId filters with
  | none => (false, db)
  | some roleDoc =>
    let actualDocId :=
      if (findAccount (calls 0) db .role filters).isSome then some roleId
      else jsonGetString (jsonObjectGet roleDoc (ascii "uuid"))
    match actualDocId, calls 2 with
    | some id, some moment =>
      let updated := virtualUpdate moment db id (updatedRole name permissions roleDoc)
      (updated.1.isSome, updated.2)
    | _, _ => (false, db)

omit [CDouble δ] in
def isCached (db : Database δ) (uuid : Bytes) : Bool :=
  (cacheGet db.docCache (generateDocCacheKeyFast uuid)).1.isSome

omit [CDouble δ] in
/-- The object that the cache holds under the uuid becomes `doc`. -/
def setCached (db : Database δ) (uuid : Bytes) (doc : JsonValue δ) : Database δ :=
  match db.docCache, generateDocCacheKeyFast uuid with
  | some cache, some key =>
    { db with
      docCache := some { cache with
        entries := cache.entries.map fun entry =>
          if entry.1 = key then (key, doc) else entry } }
  | _, _ => db

/-- `virtual_get_user_by_uuid` and `virtual_get_role_by_uuid`. -/
def getAccount (call : Option Moment) (db : Database δ) (uuid : Bytes) :
    Option (JsonValue δ) × Database δ :=
  match call with
  | some _ => virtualGet db uuid
  | none => (none, db)

omit [CDouble δ] in
def setShared (shared : Bool) (db : Database δ) (uuid : Bytes) (doc : JsonValue δ) :
    Database δ :=
  if shared then setCached db uuid doc else db

omit [CDouble δ] in
/-- The id of the `rbac_user_t` of a document, with the checks of its other fields. -/
def userDocToRbacUser (userDoc : JsonValue δ) : Option Bytes :=
  match (jsonGetString (jsonObjectGet userDoc (ascii "uuid"))).or
      (jsonGetString (jsonObjectGet userDoc (ascii "id"))),
    jsonObjectGet userDoc (ascii "username"), jsonObjectGet userDoc (ascii "password_hash"),
    jsonObjectGet userDoc (ascii "roles") with
  | some id, some (.string _), some (.string _), some (.array _) => some id
  | _, _, _, _ => none

omit [CDouble δ] in
/-- The id of the `rbac_role_t` of a document, with the checks of its other fields. -/
def roleDocToRbacRole (roleDoc : JsonValue δ) : Option Bytes :=
  match jsonObjectGet roleDoc (ascii "name"), jsonObjectGet roleDoc (ascii "permissions") with
  | some (.string _), some (.object _) =>
    (jsonGetString (jsonObjectGet roleDoc (ascii "uuid"))).or
      (jsonGetString (jsonObjectGet roleDoc (ascii "id")))
  | _, _ => none

/-- The id of `rbac_db_get_user`. -/
def rbacDbGetUser (first second : Option Moment) (db : Database δ) (userId : Bytes) :
    Option Bytes :=
  (findByUuid first second db .user userId (uuidFilter userId)).bind userDocToRbacUser

/-- The id of `rbac_db_get_role`. -/
def rbacDbGetRole (first second : Option Moment) (db : Database δ) (roleId : Bytes) :
    Option Bytes :=
  (findByUuid first second db .role roleId
    (accountFilter .role (ascii "uuid") roleId)).bind roleDocToRbacRole

omit [CDouble δ] in
def listsId (id : Bytes) (items : List (JsonValue δ)) : Bool :=
  items.any fun item => jsonGetString (some item) == some id

def addToList (call : Option Moment) (shared : Bool) (db : Database δ) (uuid : Bytes)
    (doc : JsonValue δ) (key : Bytes) (items : List (JsonValue δ)) (id : Bytes) :
    Bool × Database δ :=
  if listsId id items then (true, db)
  else
    let doc := jsonObjectSet doc key (.array (items ++ [.string id]))
    let db := setShared shared db uuid doc
    match call with
    | some moment =>
      let updated := virtualUpdate moment db uuid doc
      (updated.1.isSome, updated.2)
    | none => (false, db)

/-- The two writes of `rbac_db_add_user_to_role`, of which a failed first is the last. -/
def addToLists (calls : Calls) (userShared roleShared : Bool) (db : Database δ)
    (userId roleId : Bytes) (userDoc roleDoc : JsonValue δ)
    (userRoles roleUsers : List (JsonValue δ)) : Bool × Database δ :=
  let added :=
    addToList (calls 6) userShared db userId userDoc (ascii "roles") userRoles roleId
  if added.1 then
    addToList (calls 7) roleShared added.2 roleId roleDoc (ascii "users") roleUsers userId
  else (false, added.2)

def rbacDbAddUserToRole (calls : Calls) (db : Database δ) (userId roleId : Bytes) :
    Bool × Database δ :=
  match rbacDbGetUser (calls 0) (calls 1) db userId,
    rbacDbGetRole (calls 2) (calls 3) db roleId with
  | some actualUserId, some actualRoleId =>
    let gotUser := getAccount (calls 4) db actualUserId
    match gotUser.1 with
    | none => (false, gotUser.2)
    | some userDoc =>
      let gotRole := getAccount (calls 5) gotUser.2 actualRoleId
      match gotRole.1 with
      | none => (false, gotRole.2)
      | some roleDoc =>
        match jsonObjectGet userDoc (ascii "roles"),
          jsonObjectGet roleDoc (ascii "users") with
        | some (.array userRoles), some (.array roleUsers) =>
          addToLists calls (isCached db actualUserId)
            (isCached gotUser.2 actualRoleId) gotRole.2 actualUserId actualRoleId userDoc
            roleDoc userRoles roleUsers
        | _, _ => (false, gotRole.2)
  | _, _ => (false, db)

/-- Remove an id from a list, and write the document where that removes anything.  The
document is looked for in the library `default`. -/
def removeFromList (call : Option Moment) (shared : Bool) (db : Database δ) (uuid : Bytes)
    (doc : JsonValue δ) (key : Bytes) (items : List (JsonValue δ)) (id : Bytes) :
    Option (Bool × Database δ) :=
  if items.all (isOtherId id) then some (true, db)
  else
    let doc := jsonObjectSet doc key (.array (items.filter (isOtherId id)))
    let db := setShared shared db uuid doc
    match call with
    | some moment =>
      (dbUpdateDocument moment db (ascii "default") (ascii "documents") uuid doc).map
        fun updated => (updated.1.isSome, updated.2)
    | none => some (false, db)

/-- The two writes of `rbac_db_remove_user_from_role`, with what it returns. -/
def removeFromLists (calls : Calls) (userShared roleShared : Bool) (db : Database δ)
    (userId roleId : Bytes) (userDoc roleDoc : JsonValue δ)
    (userRoles roleUsers : List (JsonValue δ)) : Option (Bool × Database δ) :=
  (removeFromList (calls 6) userShared db userId userDoc (ascii "roles") userRoles
    roleId).bind fun removed =>
      if removed.1 then
        (removeFromList (calls 7) roleShared removed.2 roleId roleDoc (ascii "users") roleUsers
          userId).map fun last =>
            (last.1 && !(userRoles.all (isOtherId roleId) && roleUsers.all (isOtherId userId)),
              last.2)
      else some (false, removed.2)

def rbacDbRemoveUserFromRole (calls : Calls) (db : Database δ) (userId roleId : Bytes) :
    Option (Bool × Database δ) :=
  match rbacDbGetUser (calls 0) (calls 1) db userId,
    rbacDbGetRole (calls 2) (calls 3) db roleId with
  | some actualUserId, some actualRoleId =>
    let gotUser := getAccount (calls 4) db actualUserId
    match gotUser.1 with
    | none => some (false, gotUser.2)
    | some userDoc =>
      let gotRole := getAccount (calls 5) gotUser.2 actualRoleId
      match gotRole.1 with
      | none => some (false, gotRole.2)
      | some roleDoc =>
        match jsonObjectGet userDoc (ascii "roles"),
          jsonObjectGet roleDoc (ascii "users") with
        | some (.array userRoles), some (.array roleUsers) =>
          removeFromLists calls (isCached db actualUserId)
            (isCached gotUser.2 actualRoleId) gotRole.2 actualUserId actualRoleId userDoc
            roleDoc userRoles roleUsers
        | _, _ => some (false, gotRole.2)
  | _, _ => some (false, db)

omit [CDouble δ] in
def resourcePermissionKey (resourceType : Int32) (resourceId : Bytes) : Bytes :=
  formatInt64 resourceType.toInt64 ++ ascii ":" ++ resourceId

/-- The permission of a `JSON_NUMBER`. -/
def numberPermission : Option (JsonValue δ) → Option Int32
  | some (.number number) => some (CDouble.toInt32 number)
  | _ => none

def rbacDbGrantPermission (calls : Calls) (db : Database δ) (roleId : Bytes)
    (resourceType : Int32) (resourceId : Bytes) (permission : Int32) :
    Option (Bool × Database δ) :=
  match findAccount (calls 0) db .role (accountFilter .role (ascii "uuid") roleId) with
  | none => some (false, db)
  | some roleDoc =>
    match jsonObjectGet roleDoc (ascii "permissions"), calls 1 with
    | some (.object permissions), some moment =>
      let key := resourcePermissionKey resourceType resourceId
      let current := (numberPermission (getEntry key permissions)).getD 0
      let permissions := jsonObjectSet (.object permissions) key
        (.number (CDouble.ofInt64 (current ||| permission).toInt64))
      (dbUpdateDocument moment db (ascii "default") (ascii "documents") roleId
        (jsonObjectSet roleDoc (ascii "permissions") permissions)).map
          fun updated => (updated.1.isSome, updated.2)
    | _, _ => some (false, db)

/-- The permissions after `rbac_db_revoke_permission`. -/
def revokedPermissions (permissions : List (Bytes × JsonValue δ)) (key : Bytes)
    (current permission : Int32) : JsonValue δ :=
  let left := current &&& ~~~permission
  if left = 0 then jsonObjectRemove (.object permissions) key
  else jsonObjectSet (.object permissions) key (.number (CDouble.ofInt64 left.toInt64))

def rbacDbRevokePermission (calls : Calls) (db : Database δ) (roleId : Bytes)
    (resourceType : Int32) (resourceId : Bytes) (permission : Int32) :
    Option (Bool × Database δ) :=
  let got := getAccount (calls 0) db roleId
  match got.1 with
  | none => some (false, got.2)
  | some roleDoc =>
    match jsonObjectGet roleDoc (ascii "permissions") with
    | some (.object permissions) =>
      let key := resourcePermissionKey resourceType resourceId
      match numberPermission (getEntry key permissions) with
      | none => some (true, got.2)
      | some current =>
        let roleDoc := jsonObjectSet roleDoc (ascii "permissions")
          (revokedPermissions permissions key current permission)
        let revoked := setShared (isCached db roleId) got.2 roleId roleDoc
        match calls 1 with
        | some moment =>
          (dbUpdateDocument moment revoked (ascii "default") (ascii "documents") roleId
            roleDoc).map fun updated => (updated.1.isSome, updated.2)
        | none => some (false, revoked)
    | _ => some (false, got.2)

omit [CDouble δ] in
/-- The calls of a run, with the reads that go through the document cache. -/
inductive RbacCall (δ : Type) where
  | createUser (username passwordHash : Bytes)
  | createRole (name : Bytes)
  | deleteUser (userId : Bytes)
  | deleteRole (roleId : Bytes)
  | updateRole (roleId : Bytes) (name : Option Bytes)
      (permissions : Option {value : JsonValue δ // DistinctKeys value})
  | addUserToRole (userId roleId : Bytes)
  | removeUserFromRole (userId roleId : Bytes)
  | grantPermission (roleId : Bytes) (resourceType : Int32) (resourceId : Bytes)
      (permission : Int32)
  | revokePermission (roleId : Bytes) (resourceType : Int32) (resourceId : Bytes)
      (permission : Int32)
  | get (uuid : Bytes)

/-- The database after a call, unless the process ends. -/
def rbacStep (db : Database δ) : Calls × RbacCall δ → Option (Database δ)
  | (calls, .createUser username passwordHash) =>
    some (rbacDbCreateUser calls db username passwordHash).2
  | (calls, .createRole name) => some (rbacDbCreateRole calls db name).2
  | (calls, .deleteUser userId) => some (rbacDbDeleteUser calls db userId).2
  | (calls, .deleteRole roleId) => some (rbacDbDeleteRole calls db roleId).2
  | (calls, .updateRole roleId name permissions) =>
    some (rbacDbUpdateRole calls db roleId name (permissions.map Subtype.val)).2
  | (calls, .addUserToRole userId roleId) => some (rbacDbAddUserToRole calls db userId roleId).2
  | (calls, .removeUserFromRole userId roleId) =>
    (rbacDbRemoveUserFromRole calls db userId roleId).map Prod.snd
  | (calls, .grantPermission roleId resourceType resourceId permission) =>
    (rbacDbGrantPermission calls db roleId resourceType resourceId permission).map Prod.snd
  | (calls, .revokePermission roleId resourceType resourceId permission) =>
    (rbacDbRevokePermission calls db roleId resourceType resourceId permission).map Prod.snd
  | (_, .get uuid) => some (virtualGet db uuid).2

end Operations

end Jdbx
