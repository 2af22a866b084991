import AgenticRag.Access.Documents
import AgenticRag.Core.Transition
import AgenticRag.Auth.Tokens

/-!
# Administration

The tables that the admin endpoints keep, with every operation that writes them.  A
request is answered by one transaction; what it has sent to Redis before the commit stays
sent when the transaction is rolled back.
-/

namespace AgenticRag.Administration

open Access (UserRole PrincipalType ResourceType AccessLevel Permission Grant Tables HttpError)
open Auth (Bcrypt)

/-! ## Tables -/

structure Department where
  id : Uuid
  name : String
  deriving DecidableEq

/-- A row of `users`. -/
structure User extends Access.User where
  email : String
  hashedPassword : String
  isActive : Bool := true
  deriving DecidableEq

/-- A row of `collections`. -/
structure Collection extends Access.Collection where
  name : String
  description : Option String := none
  deriving DecidableEq

/-- A row of `permissions` with its key. -/
structure PermissionRow extends Grant where
  id : Uuid
  deriving DecidableEq

structure Registry where
  departments : List Department := []
  users : List User := []
  collections : List Collection := []
  permissions : List PermissionRow := []

/-- A command of Redis. -/
inductive Effect where
  | bumpSessionEpoch (userId : Uuid)
  | invalidate (resourceType : ResourceType) (resourceId : Uuid)
  deriving DecidableEq

structure System where
  registry : Registry := {}
  effects : List Effect := []

/-! ## Requests -/

/-- The admin endpoints that write, with what they draw or generate. -/
inductive AdminRequest where
  | createDepartment (name : String)
  | createUser (email password salt : String) (role : UserRole) (departmentId : Option Uuid)
  | createCollection (name : String) (description : Option String) (departmentId : Option Uuid)
  | grantPermission (grant : Grant)
  | updateUser (userId : Uuid) (isActive : Option Bool) (role : Option UserRole)
      (departmentId : Option Uuid)
  | revokeSessions (userId : Uuid)
  | resetCredential (userId : Uuid) (temporary salt : String)
  | editPermission (permissionId : Uuid) (accessLevel : AccessLevel)
  | revokePermission (permissionId : Uuid)

/-- What becomes of the commands behind the checks: all go through, the commit among them;
one raises when the commit has taken effect, as `db.refresh` may; or one raises before it,
before or after what is sent to Redis. -/
inductive Ending where
  | commit
  | late
  | raise (sent : Bool)
  deriving DecidableEq

/-- The commit is reached and takes effect. -/
def Ending.commits : Ending → Bool
  | .raise _ => false
  | _ => true

/-- A request with the key that a new row gets. -/
structure Event where
  caller : Uuid
  newId : Uuid
  ending : Ending := .commit
  request : AdminRequest

namespace Registry

variable (registry : Registry)

/-- `db.get(User, user_id)` -/
def getUser (userId : Uuid) : Option User :=
  registry.users.find? (·.id = userId)

/-- `db.get(Permission, permission_id)` -/
def getPermission (permissionId : Uuid) : Option PermissionRow :=
  registry.permissions.find? (·.id = permissionId)

/-- The foreign key on `departments`. -/
def knowsDepartment (departmentId : Option Uuid) : Bool :=
  departmentId.all fun id => registry.departments.any (·.id = id)

/-! The four inserts; none is an `IntegrityError`. -/

def insertDepartment (row : Department) : Option Registry :=
  if registry.departments.any (fun old => old.id = row.id || old.name = row.name) then none
  else some { registry with departments := registry.departments ++ [row] }

def insertUser (row : User) : Option Registry :=
  if registry.users.any (fun old => old.id = row.id || old.email = row.email) ||
      !registry.knowsDepartment row.departmentId then none
  else some { registry with users := registry.users ++ [row] }

def insertCollection (row : Collection) : Option Registry :=
  if registry.collections.any (·.id = row.id) ||
      !registry.knowsDepartment row.departmentId then none
  else some { registry with collections := registry.collections ++ [row] }

def insertPermission (row : PermissionRow) : Option Registry :=
  if registry.permissions.any (fun old =>
      old.id = row.id || old.toPermission = row.toPermission) then none
  else some { registry with permissions := registry.permissions ++ [row] }

/-- `UPDATE users` -/
def setUser (row : User) : Registry :=
  { registry with
    users := registry.users.map fun old => if old.id = row.id then row else old }

/-- `UPDATE permissions` -/
def setLevel (permissionId : Uuid) (accessLevel : AccessLevel) : Registry :=
  { registry with
    permissions := registry.permissions.map fun old =>
      if old.id = permissionId then { old with accessLevel := accessLevel } else old }

/-- `DELETE FROM permissions` -/
def deletePermission (permissionId : Uuid) : Registry :=
  { registry with permissions := registry.permissions.filter (·.id ≠ permissionId) }

/-- The columns that `update_user` sets. -/
def updated (user : User) (isActive : Option Bool) (role : Option UserRole)
    (departmentId : Option Uuid) : User :=
  { user with
    role := role.getD user.role
    departmentId := departmentId.or user.departmentId
    isActive := isActive.getD user.isActive }

/-- `require_admin` -/
def authorize (caller : Uuid) : Except HttpError User :=
  match registry.getUser caller with
  | none => .error ⟨401, "Could not validate credentials"⟩
  | some user =>
      if ¬ user.isActive then .error ⟨401, "Could not validate credentials"⟩
      else if user.role ≠ .admin then .error ⟨403, "Admin role required"⟩
      else .ok user

end Registry

/-! ## Endpoints -/

/-- What a handler has written, what it has sent to Redis, and its response. -/
structure Reply where
  registry : Registry
  effects : List Effect := []
  response : Except HttpError Unit := .ok ()

/-- `HTTPException` -/
def refuse (registry : Registry) (status : ℕ) (detail : String) : Reply :=
  { registry := registry, response := .error ⟨status, detail⟩ }

/-- An exception that no handler catches. -/
def crash (registry : Registry) (effects : List Effect) : Reply :=
  { registry := registry, effects := effects,
    response := .error ⟨500, "Internal Server Error"⟩ }

/-- The handler of a request, with its commit. -/
def handle (bcrypt : Bcrypt) (registry : Registry) (newId : Uuid) : AdminRequest → Reply
  | .createDepartment name =>
      match registry.insertDepartment ⟨newId, name⟩ with
      | none => refuse registry 409 "Department already exists"
      | some next => { registry := next }
  | .createUser email password salt role departmentId =>
      if ¬ registry.knowsDepartment departmentId then
        refuse registry 400 "Unknown department_id"
      else
        match registry.insertUser
            { id := newId, role := role, departmentId := departmentId, email := email,
              hashedPassword := bcrypt.hashPassword password salt } with
        | none => refuse registry 409 "Email already registered"
        | some next => { registry := next }
  | .createCollection name description departmentId =>
      if ¬ registry.knowsDepartment departmentId then
        refuse registry 400 "Unknown department_id"
      else
        match registry.insertCollection
            { id := newId, departmentId := departmentId, name := name,
              description := description } with
        | none => crash registry []
        | some next => { registry := next }
  | .grantPermission grant =>
      match registry.insertPermission { grant with id := newId } with
      | none => refuse registry 409 "Permission already exists"
      | some next => { registry := next }
  | .updateUser userId isActive role departmentId =>
      match registry.getUser userId with
      | none => refuse registry 404 "User not found"
      | some user =>
          let suspended := user.isActive && isActive = some false
          let effects := if suspended then [.bumpSessionEpoch userId] else []
          let row := Registry.updated user isActive role departmentId
          -- The department is not looked up: the foreign key decides at the commit.
          if registry.knowsDepartment row.departmentId then
            { registry := registry.setUser row, effects := effects }
          else crash registry effects
  | .revokeSessions userId =>
      match registry.getUser userId with
      | none => refuse registry 404 "User not found"
      | some _ => { registry := registry, effects := [.bumpSessionEpoch userId] }
  | .resetCredential userId temporary salt =>
      match registry.getUser userId with
      | none => refuse registry 404 "User not found"
      | some user =>
          { registry := registry.setUser
              { user with hashedPassword := bcrypt.hashPassword temporary salt }
            effects := [.bumpSessionEpoch userId] }
  | .editPermission permissionId accessLevel =>
      match registry.getPermission permissionId with
      | none => refuse registry 404 "Permission not found"
      | some row =>
          { registry := registry.setLevel permissionId accessLevel
            effects := [.invalidate row.resourceType row.resourceId] }
  | .revokePermission permissionId =>
      match registry.getPermission permissionId with
      | none => refuse registry 404 "Permission not found"
      | some row =>
          { registry := registry.deletePermission permissionId
            effects := [.invalidate row.resourceType row.resourceId] }

/-- The endpoint: the handler behind `require_admin`, rolled back where one of its commands
raises before the commit. -/
def answer (bcrypt : Bcrypt) (registry : Registry) (event : Event) : Reply :=
  match registry.authorize event.caller with
  | .error error => { registry := registry, response := .error error }
  | .ok _ =>
      let reply := handle bcrypt registry event.newId event.request
      match event.ending, reply.response with
      | .commit, _ | .late, .error _ => reply
      | .late, .ok _ => crash reply.registry reply.effects
      | .raise sent, .error _ => { reply with effects := if sent then reply.effects else [] }
      | .raise sent, .ok _ => crash registry (if sent then reply.effects else [])

def step (bcrypt : Bcrypt) (system : System) (event : Event) : Option System :=
  let reply := answer bcrypt system.registry event
  some { registry := reply.registry, effects := system.effects ++ reply.effects }

/-! ## What a request writes -/

/-- The requests that are committed. -/
inductive Writes (bcrypt : Bcrypt) (registry : Registry) (newId : Uuid) :
    AdminRequest → Registry → List Effect → Prop where
  | department (name : String) (next : Registry)
      (hinsert : registry.insertDepartment ⟨newId, name⟩ = some next) :
      Writes bcrypt registry newId (.createDepartment name) next []
  | user (email password salt : String) (role : UserRole) (departmentId : Option Uuid)
      (next : Registry)
      (hinsert : registry.insertUser
        { id := newId, role := role, departmentId := departmentId, email := email,
          hashedPassword := bcrypt.hashPassword password salt } = some next) :
      Writes bcrypt registry newId (.createUser email password salt role departmentId) next []
  | collection (name : String) (description : Option String) (departmentId : Option Uuid)
      (next : Registry)
      (hinsert : registry.insertCollection
        { id := newId, departmentId := departmentId, name := name,
          description := description } = some next) :
      Writes bcrypt registry newId (.createCollection name description departmentId) next []
  | grant (grant : Grant) (next : Registry)
      (hinsert : registry.insertPermission { grant with id := newId } = some next) :
      Writes bcrypt registry newId (.grantPermission grant) next []
  | update (userId : Uuid) (isActive : Option Bool) (role : Option UserRole)
      (departmentId : Option Uuid) (user : User)
      (huser : registry.getUser userId = some user)
      (hforeign : registry.knowsDepartment
        (Registry.updated user isActive role departmentId).departmentId = true) :
      Writes bcrypt registry newId (.updateUser userId isActive role departmentId)
        (registry.setUser (Registry.updated user isActive role departmentId))
        (if user.isActive && isActive = some false then [.bumpSessionEpoch userId] else [])
  | endSessions (userId : Uuid) :
      Writes bcrypt registry newId (.revokeSessions userId) registry [.bumpSessionEpoch userId]
  | reset (userId : Uuid) (temporary salt : String) (user : User)
      (huser : registry.getUser userId = some user) :
      Writes bcrypt registry newId (.resetCredential userId temporary salt)
        (registry.setUser { user with hashedPassword := bcrypt.hashPassword temporary salt })
        [.bumpSessionEpoch userId]
  | edit (permissionId : Uuid) (accessLevel : AccessLevel) (row : PermissionRow)
      (hrow : registry.getPermission permissionId = some row) :
      Writes bcrypt registry newId (.editPermission permissionId accessLevel)
        (registry.setLevel permissionId accessLevel)
        [.invalidate row.resourceType row.resourceId]
  | revoke (permissionId : Uuid) (row : PermissionRow)
      (hrow : registry.getPermission permissionId = some row) :
      Writes bcrypt registry newId (.revokePermission permissionId)
        (registry.deletePermission permissionId)
        [.invalidate row.resourceType row.resourceId]

/-- A handler that answers with an error has written nothing. -/
theorem handle_cases (bcrypt : Bcrypt) (registry : Registry) (newId : Uuid)
    (request : AdminRequest) :
    (handle bcrypt registry newId request).registry = registry ∧
        (∃ error, (handle bcrypt registry newId request).response = .error error) ∨
      (handle bcrypt registry newId request).response = .ok () ∧
        Writes bcrypt registry newId request (handle bcrypt registry newId request).registry
          (handle bcrypt registry newId request).effects := by
  cases request with
  | createDepartment name =>
      rw [handle]
      split
      next => exact Or.inl ⟨rfl, _, rfl⟩
      next next hinsert => exact Or.inr ⟨rfl, .department name next hinsert⟩
  | createUser email password salt role departmentId =>
      rw [handle]
      split
      next => exact Or.inl ⟨rfl, _, rfl⟩
      next =>
          split
          next => exact Or.inl ⟨rfl, _, rfl⟩
          next next hinsert =>
              exact Or.inr ⟨rfl, .user email password salt role departmentId next hinsert⟩
  | createCollection name description departmentId =>
      rw [handle]
      split
      next => exact Or.inl ⟨rfl, _, rfl⟩
      next =>
          split
          next => exact Or.inl ⟨rfl, _, rfl⟩
          next next hinsert =>
              exact Or.inr ⟨rfl, .collection name description departmentId next hinsert⟩
  | grantPermission grant =>
      rw [handle]
      split
      next => exact Or.inl ⟨rfl, _, rfl⟩
      next next hinsert => exact Or.inr ⟨rfl, .grant grant next hinsert⟩
  | updateUser userId isActive role departmentId =>
      rw [handle]
      split
      next => exact Or.inl ⟨rfl, _, rfl⟩
      next user huser =>
          dsimp only
          split
          next hforeign =>
              exact Or.inr ⟨rfl, .update userId isActive role departmentId user huser hforeign⟩
          next => exact Or.inl ⟨rfl, _, rfl⟩
  | revokeSessions userId =>
      rw [handle]
      split
      next => exact Or.inl ⟨rfl, _, rfl⟩
      next => exact Or.inr ⟨rfl, .endSessions userId⟩
  | resetCredential userId temporary salt =>
      rw [handle]
      split
      next => exact Or.inl ⟨rfl, _, rfl⟩
      next user huser => exact Or.inr ⟨rfl, .reset userId temporary salt user huser⟩
  | editPermission permissionId accessLevel =>
      rw [handle]
      split
      next => exact Or.inl ⟨rfl, _, rfl⟩
      next row hrow => exact Or.inr ⟨rfl, .edit permissionId accessLevel row hrow⟩
  | revokePermission permissionId =>
      rw [handle]
      split
      next => exact Or.inl ⟨rfl, _, rfl⟩
      next row hrow => exact Or.inr ⟨rfl, .revoke permissionId row hrow⟩

/-- The commit of a request takes effect: it comes from an admin, the handler refuses
nothing, and no command raises before the commit. -/
def Commits (bcrypt : Bcrypt) (registry : Registry) (event : Event) : Prop :=
  (∃ admin, registry.authorize event.caller = .ok admin) ∧
    (handle bcrypt registry event.newId event.request).response = .ok () ∧
    event.ending.commits = true

/-- A request without a commit leaves the tables alone and is answered with an error, at
whatever command it has failed; one with a commit writes, whatever its answer is. -/
theorem answer_cases (bcrypt : Bcrypt) (registry : Registry) (event : Event) :
    (¬ Commits bcrypt registry event ∧ (answer bcrypt registry event).registry = registry ∧
        ∃ error, (answer bcrypt registry event).response = .error error) ∨
      Commits bcrypt registry event ∧
        Writes bcrypt registry event.newId event.request
          (answer bcrypt registry event).registry (answer bcrypt registry event).effects := by
  rw [answer, Commits]
  split
  next error herror => exact Or.inl ⟨by simp [herror], rfl, error, rfl⟩
  next admin hadmin =>
      rcases handle_cases bcrypt registry event.newId event.request with
        ⟨hsame, error, herror⟩ | ⟨hok, hwrites⟩
      · left
        refine ⟨by simp [herror], ?_⟩
        dsimp only
        rw [herror]
        cases event.ending with
        | commit => exact ⟨hsame, error, herror⟩
        | late => exact ⟨hsame, error, herror⟩
        | raise sent => exact ⟨hsame, error, rfl⟩
      · dsimp only
        rw [hok]
        cases event.ending with
        | commit => exact Or.inr ⟨⟨⟨admin, hadmin⟩, rfl, rfl⟩, hwrites⟩
        | late => exact Or.inr ⟨⟨⟨admin, hadmin⟩, rfl, rfl⟩, hwrites⟩
        | raise sent => exact Or.inl ⟨by simp [Ending.commits], rfl, _, rfl⟩

/-! ## Consistent tables -/

/-- The constraints of the tables. -/
structure Sound (registry : Registry) : Prop where
  departmentIds : (registry.departments.map (·.id)).Nodup
  departmentNames : (registry.departments.map (·.name)).Nodup
  userIds : (registry.users.map (·.id)).Nodup
  emails : (registry.users.map (·.email)).Nodup
  collectionIds : (registry.collections.map (·.id)).Nodup
  permissionIds : (registry.permissions.map (·.id)).Nodup
  permissions : (registry.permissions.map (·.toPermission)).Nodup
  members : ∀ user ∈ registry.users, registry.knowsDepartment user.departmentId = true
  owners : ∀ collection ∈ registry.collections,
    registry.knowsDepartment collection.departmentId = true

/-- A row with another value in a column keeps the values of the column apart. -/
theorem nodup_map_concat {α β : Type*} {rows : List α} {row : α} {column : α → β}
    (hnodup : (rows.map column).Nodup) (hnew : ∀ old ∈ rows, column old ≠ column row) :
    ((rows ++ [row]).map column).Nodup := by
  rw [List.map_append, List.map_singleton, List.nodup_append]
  refine ⟨hnodup, List.nodup_singleton _, fun value hvalue other hother => ?_⟩
  obtain ⟨old, hold, rfl⟩ := List.mem_map.mp hvalue
  rw [List.mem_singleton.mp hother]
  exact hnew old hold

namespace Registry

variable {registry : Registry}

theorem knowsDepartment_append (registry : Registry) (row : Department)
    {departmentId : Option Uuid} (hknown : registry.knowsDepartment departmentId = true) :
    Registry.knowsDepartment { registry with departments := registry.departments ++ [row] }
      departmentId = true := by
  cases departmentId with
  | none => rfl
  | some departmentId =>
      simp only [knowsDepartment, Option.all_some, List.any_append] at hknown ⊢
      rw [hknown, Bool.true_or]

theorem Sound.insertDepartment {row : Department} {next : Registry} (hsound : Sound registry)
    (hinsert : registry.insertDepartment row = some next) : Sound next := by
  rw [Registry.insertDepartment] at hinsert
  split at hinsert
  next => cases hinsert
  next hnew =>
      cases hinsert
      simp only [List.any_eq_true, Bool.or_eq_true, decide_eq_true_eq, not_exists, not_and,
        not_or] at hnew
      exact ⟨nodup_map_concat hsound.departmentIds fun old hold => (hnew old hold).1,
        nodup_map_concat hsound.departmentNames fun old hold => (hnew old hold).2,
        hsound.userIds, hsound.emails, hsound.collectionIds, hsound.permissionIds,
        hsound.permissions,
        fun user huser => registry.knowsDepartment_append row (hsound.members user huser),
        fun collection hcollection =>
          registry.knowsDepartment_append row (hsound.owners collection hcollection)⟩

theorem Sound.insertUser {row : User} {next : Registry} (hsound : Sound registry)
    (hinsert : registry.insertUser row = some next) : Sound next := by
  rw [Registry.insertUser] at hinsert
  split at hinsert
  next => cases hinsert
  next hnew =>
      cases hinsert
      simp only [Bool.or_eq_true, List.any_eq_true, decide_eq_true_eq, not_or, not_exists,
        not_and, Bool.not_eq_true', Bool.not_eq_false] at hnew
      obtain ⟨hnew, hforeign⟩ := hnew
      refine ⟨hsound.departmentIds, hsound.departmentNames,
        nodup_map_concat hsound.userIds fun old hold => (hnew old hold).1,
        nodup_map_concat hsound.emails fun old hold => (hnew old hold).2,
        hsound.collectionIds, hsound.permissionIds, hsound.permissions, ?_, hsound.owners⟩
      intro user huser
      rcases List.mem_append.mp huser with hold | hrow
      · exact hsound.members user hold
      · rw [List.mem_singleton.mp hrow]
        exact hforeign

theorem Sound.insertCollection {row : Collection} {next : Registry} (hsound : Sound registry)
    (hinsert : registry.insertCollection row = some next) : Sound next := by
  rw [Registry.insertCollection] at hinsert
  split at hinsert
  next => cases hinsert
  next hnew =>
      cases hinsert
      simp only [Bool.or_eq_true, List.any_eq_true, decide_eq_true_eq, not_or, not_exists,
        not_and, Bool.not_eq_true', Bool.not_eq_false] at hnew
      obtain ⟨hnew, hforeign⟩ := hnew
      refine ⟨hsound.departmentIds, hsound.departmentNames, hsound.userIds, hsound.emails,
        nodup_map_concat hsound.collectionIds hnew, hsound.permissionIds, hsound.permissions,
        hsound.members, ?_⟩
      intro collection hcollection
      rcases List.mem_append.mp hcollection with hold | hrow
      · exact hsound.owners collection hold
      · rw [List.mem_singleton.mp hrow]
        exact hforeign

theorem Sound.insertPermission {row : PermissionRow} {next : Registry} (hsound : Sound registry)
    (hinsert : registry.insertPermission row = some next) : Sound next := by
  rw [Registry.insertPermission] at hinsert
  split at hinsert
  next => cases hinsert
  next hnew =>
      cases hinsert
      simp only [List.any_eq_true, Bool.or_eq_true, decide_eq_true_eq, not_exists, not_and,
        not_or] at hnew
      exact ⟨hsound.departmentIds, hsound.departmentNames, hsound.userIds, hsound.emails,
        hsound.collectionIds,
        nodup_map_concat hsound.permissionIds fun old hold => (hnew old hold).1,
        nodup_map_concat hsound.permissions fun old hold => (hnew old hold).2,
        hsound.members, hsound.owners⟩

/-- Where keys differ, a row is the only one with its key. -/
theorem eq_of_key {α : Type*} {rows : List α} {key : α → Uuid} {first second : α}
    (hnodup : (rows.map key).Nodup) (hfirst : first ∈ rows) (hsecond : second ∈ rows)
    (hkey : key first = key second) : first = second :=
  List.inj_on_of_nodup_map hnodup hfirst hsecond hkey

theorem getUser_spec {userId : Uuid} {user : User} (huser : registry.getUser userId = some user) :
    user ∈ registry.users ∧ user.id = userId := by
  have hid := List.find?_some huser
  exact ⟨List.mem_of_find?_eq_some huser, of_decide_eq_true hid⟩

theorem getPermission_spec {permissionId : Uuid} {row : PermissionRow}
    (hrow : registry.getPermission permissionId = some row) :
    row ∈ registry.permissions ∧ row.id = permissionId := by
  have hid := List.find?_some hrow
  exact ⟨List.mem_of_find?_eq_some hrow, of_decide_eq_true hid⟩

/-- A row is replaced by one with the same key and the same address. -/
theorem Sound.setUser {user row : User} (hsound : Sound registry)
    (huser : user ∈ registry.users) (hid : row.id = user.id) (hemail : row.email = user.email)
    (hforeign : registry.knowsDepartment row.departmentId = true) :
    Sound (registry.setUser row) := by
  have hids : (registry.setUser row).users.map (·.id) = registry.users.map (·.id) := by
    rw [Registry.setUser, List.map_map]
    apply List.map_congr_left
    intro old hold
    simp only [Function.comp_apply]
    split
    next hsame => exact hsame.symm
    next => rfl
  have hemails : (registry.setUser row).users.map (·.email) = registry.users.map (·.email) := by
    rw [Registry.setUser, List.map_map]
    apply List.map_congr_left
    intro old hold
    simp only [Function.comp_apply]
    split
    next hsame =>
        rw [hemail, eq_of_key hsound.userIds hold huser (hsame.trans hid)]
    next => rfl
  refine ⟨hsound.departmentIds, hsound.departmentNames, ?_, ?_, hsound.collectionIds,
    hsound.permissionIds, hsound.permissions, ?_, hsound.owners⟩
  · rw [hids]
    exact hsound.userIds
  · rw [hemails]
    exact hsound.emails
  · intro found hfound
    obtain ⟨old, hold, rfl⟩ := List.mem_map.mp hfound
    split
    next => exact hforeign
    next => exact hsound.members old hold

theorem map_toPermission_setLevel (permissionId : Uuid) (accessLevel : AccessLevel) :
    (registry.setLevel permissionId accessLevel).permissions.map (·.toPermission) =
      registry.permissions.map (·.toPermission) := by
  rw [Registry.setLevel, List.map_map]
  apply List.map_congr_left
  intro old _
  simp only [Function.comp_apply]
  split <;> rfl

theorem Sound.setLevel {permissionId : Uuid} {accessLevel : AccessLevel}
    (hsound : Sound registry) : Sound (registry.setLevel permissionId accessLevel) := by
  have hids : (registry.setLevel permissionId accessLevel).permissions.map (·.id) =
      registry.permissions.map (·.id) := by
    rw [Registry.setLevel, List.map_map]
    apply List.map_congr_left
    intro old _
    simp only [Function.comp_apply]
    split <;> rfl
  refine ⟨hsound.departmentIds, hsound.departmentNames, hsound.userIds, hsound.emails,
    hsound.collectionIds, ?_, ?_, hsound.members, hsound.owners⟩
  · rw [hids]
    exact hsound.permissionIds
  · rw [map_toPermission_setLevel]
    exact hsound.permissions

theorem Sound.deletePermission {permissionId : Uuid} (hsound : Sound registry) :
    Sound (registry.deletePermission permissionId) :=
  ⟨hsound.departmentIds, hsound.departmentNames, hsound.userIds, hsound.emails,
    hsound.collectionIds, hsound.permissionIds.sublist (List.filter_sublist.map _),
    hsound.permissions.sublist (List.filter_sublist.map _), hsound.members, hsound.owners⟩

end Registry

theorem Writes.sound {bcrypt : Bcrypt} {registry next : Registry} {newId : Uuid}
    {request : AdminRequest} {effects : List Effect} (hsound : Sound registry)
    (hwrites : Writes bcrypt registry newId request next effects) : Sound next := by
  cases hwrites with
  | department name next hinsert => exact Registry.Sound.insertDepartment hsound hinsert
  | user email password salt role departmentId next hinsert =>
      exact Registry.Sound.insertUser hsound hinsert
  | collection name description departmentId next hinsert =>
      exact Registry.Sound.insertCollection hsound hinsert
  | grant grant next hinsert => exact Registry.Sound.insertPermission hsound hinsert
  | update userId isActive role departmentId user huser hforeign =>
      exact Registry.Sound.setUser hsound (Registry.getUser_spec huser).1 rfl rfl hforeign
  | endSessions userId => exact hsound
  | reset userId temporary salt user huser =>
      have hmem := (Registry.getUser_spec huser).1
      exact Registry.Sound.setUser hsound hmem rfl rfl (hsound.members user hmem)
  | edit permissionId accessLevel row hrow => exact Registry.Sound.setLevel hsound
  | revoke permissionId row hrow => exact Registry.Sound.deletePermission hsound

theorem step_sound {bcrypt : Bcrypt} {system next : System} {event : Event}
    (hsound : Sound system.registry) (hstep : step bcrypt system event = some next) :
    Sound next.registry := by
  cases hstep
  rcases answer_cases bcrypt system.registry event with ⟨_, hsame, _⟩ | ⟨_, hwrites⟩
  · dsimp only
    rw [hsame]
    exact hsound
  · exact hwrites.sound hsound

theorem run_sound {bcrypt : Bcrypt} {start finish : System} {events : List Event}
    (hsound : Sound start.registry)
    (hrun : Transition.exec (step bcrypt) start events = some finish) :
    Sound finish.registry := by
  apply Transition.exec_invariant (motive := fun system => Sound system.registry) ?_ hrun hsound
  intro system event next hinv hnext
  exact step_sound hinv hnext

/-! ## Who may read -/

namespace Registry

variable (registry : Registry)

/-- The tables as `accessible_collection_ids` reads them. -/
def tables : Tables where
  collections := registry.collections.map (·.toCollection)
  permissions := registry.permissions.map (·.toPermission)

/-- `can_access_collection` -/
def canAccessCollection (user : Access.User) (collectionId : Uuid) : Bool :=
  user.role = .admin || collectionId ∈ registry.tables.accessibleCollectionIds user

/-- `can_access_document` -/
def canAccessDocument (user : Access.User) (documentId collectionId : Uuid) : Bool :=
  user.role = .admin || registry.canAccessCollection user collectionId ||
    (Tables.principals user).any fun (principalType, principalId) =>
      registry.tables.permissions.any fun permission =>
        permission.resourceType = .document && permission.resourceId = documentId &&
          permission.principalType = principalType && permission.principalId = principalId

/-- The collection belongs to the department of the user. -/
def Owned (user : Access.User) (collectionId : Uuid) : Prop :=
  ∃ departmentId, user.departmentId = some departmentId ∧
    ∃ collection ∈ registry.collections, collection.id = collectionId ∧
      collection.departmentId = some departmentId

/-- A row of `permissions` says so, whatever its access level is. -/
def Holds (permission : Permission) : Prop :=
  permission ∈ registry.permissions.map (·.toPermission)

variable {registry} {user : Access.User} {collectionId documentId : Uuid}

theorem mem_departmentCollections :
    collectionId ∈ registry.tables.departmentCollections user ↔
      registry.Owned user collectionId := by
  unfold Tables.departmentCollections Owned
  split
  next hnone => simp [hnone]
  next departmentId hsome =>
      constructor
      · intro hmem
        obtain ⟨row, hrow, rfl⟩ := List.mem_map.mp hmem
        obtain ⟨hrow, hdepartment⟩ := List.mem_filter.mp hrow
        obtain ⟨collection, hcollection, rfl⟩ := List.mem_map.mp hrow
        exact ⟨departmentId, hsome, collection, hcollection, rfl,
          of_decide_eq_true hdepartment⟩
      · rintro ⟨found, hfound, collection, hcollection, rfl, hdepartment⟩
        rw [hsome] at hfound
        cases hfound
        apply List.mem_map_of_mem (f := fun row : Access.Collection => row.id)
        apply List.mem_filter.mpr
        exact ⟨List.mem_map_of_mem hcollection, decide_eq_true hdepartment⟩

theorem mem_grantedCollections {principalType : PrincipalType} {principalId : Uuid} :
    collectionId ∈ registry.tables.grantedCollections principalType principalId ↔
      registry.Holds ⟨principalType, principalId, .collection, collectionId⟩ := by
  unfold Tables.grantedCollections Holds
  constructor
  · intro hmem
    obtain ⟨permission, hpermission, rfl⟩ := List.mem_map.mp hmem
    obtain ⟨hrow, hmatch⟩ := List.mem_filter.mp hpermission
    obtain ⟨hcollection, htype, hid⟩ := of_decide_eq_true hmatch
    subst htype hid
    rw [← hcollection]
    exact hrow
  · intro hholds
    apply List.mem_map.mpr
    exact ⟨_, List.mem_filter.mpr ⟨hholds, decide_eq_true ⟨rfl, rfl, rfl⟩⟩, rfl⟩

theorem canAccessCollection_iff : registry.canAccessCollection user collectionId = true ↔
    user.role = .admin ∨ registry.Owned user collectionId ∨
      ∃ principal ∈ Tables.principals user,
        registry.Holds ⟨principal.1, principal.2, .collection, collectionId⟩ := by
  unfold canAccessCollection
  by_cases hadmin : user.role = .admin
  · simp [hadmin]
  · rw [Tables.accessibleCollectionIds, if_neg hadmin, Bool.or_eq_true, decide_eq_true_eq,
      decide_eq_true_eq, List.mem_toFinset, List.mem_append, mem_departmentCollections,
      List.mem_flatMap]
    exact or_congr Iff.rfl (or_congr Iff.rfl
      (exists_congr fun principal => and_congr Iff.rfl mem_grantedCollections))

theorem canAccessDocument_iff : registry.canAccessDocument user documentId collectionId = true ↔
    registry.canAccessCollection user collectionId = true ∨
      ∃ principal ∈ Tables.principals user,
        registry.Holds ⟨principal.1, principal.2, .document, documentId⟩ := by
  have hadmin : user.role = .admin → registry.canAccessCollection user collectionId = true :=
    fun hadmin => canAccessCollection_iff.mpr (Or.inl hadmin)
  rw [canAccessDocument, Bool.or_eq_true, Bool.or_eq_true, decide_eq_true_eq,
    or_iff_right_of_imp hadmin, List.any_eq_true]
  apply or_congr Iff.rfl
  constructor
  · rintro ⟨principal, hprincipal, hany⟩
    obtain ⟨permission, hpermission, hmatch⟩ := List.any_eq_true.mp hany
    simp only [Bool.and_eq_true, decide_eq_true_eq] at hmatch
    obtain ⟨⟨⟨hresource, hid⟩, htype⟩, hprincipalId⟩ := hmatch
    refine ⟨principal, hprincipal, ?_⟩
    rw [← hresource, ← hid, ← htype, ← hprincipalId]
    exact hpermission
  · rintro ⟨principal, hprincipal, hholds⟩
    exact ⟨principal, hprincipal, List.any_eq_true.mpr ⟨_, hholds, by simp⟩⟩

end Registry

/-! ### The history of a permission -/

/-- A grant of the permission that is committed. -/
def Grants (bcrypt : Bcrypt) (permission : Permission) (system : System) (event : Event) :
    Prop :=
  Commits bcrypt system.registry event ∧
    ∃ grant, event.request = .grantPermission grant ∧ grant.toPermission = permission

/-- A revocation that is committed, of the row with the permission. -/
def Revokes (bcrypt : Bcrypt) (permission : Permission) (system : System) (event : Event) :
    Prop :=
  Commits bcrypt system.registry event ∧
    ∃ permissionId row, event.request = .revokePermission permissionId ∧
      system.registry.getPermission permissionId = some row ∧ row.toPermission = permission

/-- What a request that is committed does to a permission. -/
theorem Writes.holds_iff {bcrypt : Bcrypt} {registry next : Registry} {newId : Uuid}
    {request : AdminRequest} {effects : List Effect} (permission : Permission)
    (hsound : Sound registry) (hwrites : Writes bcrypt registry newId request next effects) :
    next.Holds permission ↔
      (∃ grant, request = .grantPermission grant ∧ grant.toPermission = permission) ∨
        (registry.Holds permission ∧ ¬ ∃ permissionId row,
          request = .revokePermission permissionId ∧
          registry.getPermission permissionId = some row ∧ row.toPermission = permission) := by
  cases hwrites with
  | department name next hinsert =>
      rw [Registry.insertDepartment] at hinsert
      split at hinsert <;> cases hinsert
      simp [Registry.Holds]
  | user email password salt role departmentId next hinsert =>
      rw [Registry.insertUser] at hinsert
      split at hinsert <;> cases hinsert
      simp [Registry.Holds]
  | collection name description departmentId next hinsert =>
      rw [Registry.insertCollection] at hinsert
      split at hinsert <;> cases hinsert
      simp [Registry.Holds]
  | grant grant next hinsert =>
      rw [Registry.insertPermission] at hinsert
      split at hinsert <;> cases hinsert
      simp only [Registry.Holds, List.map_append, List.map_singleton, List.mem_append,
        List.mem_singleton, AdminRequest.grantPermission.injEq, reduceCtorEq, false_and,
        exists_false, not_false_eq_true, and_true, exists_eq_left']
      exact Or.comm.trans (or_congr eq_comm Iff.rfl)
  | update userId isActive role departmentId user huser hforeign =>
      simp [Registry.Holds, Registry.setUser]
  | endSessions userId => simp [Registry.Holds]
  | reset userId temporary salt user huser => simp [Registry.Holds, Registry.setUser]
  | edit permissionId accessLevel row hrow =>
      rw [Registry.Holds, Registry.map_toPermission_setLevel]
      simp [Registry.Holds]
  | revoke permissionId row hrow =>
      obtain ⟨hmem, hid⟩ := Registry.getPermission_spec hrow
      simp only [Registry.Holds, Registry.deletePermission, List.mem_map, List.mem_filter,
        reduceCtorEq, false_and, exists_false, false_or, AdminRequest.revokePermission.injEq]
      constructor
      · rintro ⟨found, ⟨hfound, hne⟩, rfl⟩
        refine ⟨⟨found, hfound, rfl⟩, ?_⟩
        rintro ⟨other, deleted, rfl, hdeleted, hsame⟩
        rw [hrow] at hdeleted
        cases hdeleted
        have heq := List.inj_on_of_nodup_map hsound.permissions hmem hfound hsame
        rw [← heq] at hne
        exact of_decide_eq_true hne hid
      · rintro ⟨⟨found, hfound, rfl⟩, hnot⟩
        refine ⟨found, ⟨hfound, decide_eq_true fun hsame => hnot ?_⟩, rfl⟩
        have heq := Registry.eq_of_key hsound.permissionIds hmem hfound (hid.trans hsame.symm)
        exact ⟨permissionId, row, rfl, hrow, congrArg (·.toPermission) heq⟩

/-- The permission stands at the end of a run: it stood at its start and was not revoked,
or it was granted and not revoked since. -/
theorem run_holds_iff {bcrypt : Bcrypt} {start finish : System} {events : List Event}
    (permission : Permission) (hsound : Sound start.registry)
    (hrun : Transition.exec (step bcrypt) start events = some finish) :
    finish.registry.Holds permission ↔
      (start.registry.Holds permission ∧
          ¬ Transition.Occurs (step bcrypt) start events (Revokes bcrypt permission)) ∨
        Transition.Unanswered (step bcrypt) start events (Grants bcrypt permission)
          (Revokes bcrypt permission) := by
  apply Transition.holds_iff_unanswered
    (motive := fun system => system.registry.Holds permission) ?_ ?_ ?_ hrun
  · rintro past system event next hpast hnext ⟨hcommits, hgrant⟩
    cases hnext
    rcases answer_cases bcrypt system.registry event with ⟨hnone, _⟩ | ⟨_, hwrites⟩
    · exact absurd hcommits hnone
    · exact (hwrites.holds_iff permission (run_sound hsound hpast)).mpr (Or.inl hgrant)
  · rintro past system event next hpast hnext ⟨hcommits, hrevoke⟩ hholds
    cases hnext
    rcases answer_cases bcrypt system.registry event with ⟨hnone, _⟩ | ⟨_, hwrites⟩
    · exact absurd hcommits hnone
    · rcases (hwrites.holds_iff permission (run_sound hsound hpast)).mp hholds with
        ⟨grant, hgrant, _⟩ | ⟨_, hnot⟩
      · obtain ⟨permissionId, row, hrequest, _⟩ := hrevoke
        rw [hgrant] at hrequest
        cases hrequest
      · exact hnot hrevoke
  · intro past system event next hpast hnext hgrant hrevoke
    cases hnext
    rcases answer_cases bcrypt system.registry event with ⟨_, hsame, _⟩ | ⟨hcommits, hwrites⟩
    · dsimp only
      rw [hsame]
    · rw [hwrites.holds_iff permission (run_sound hsound hpast)]
      constructor
      · rintro (hgranted | ⟨hold, _⟩)
        · exact absurd ⟨hcommits, hgranted⟩ hgrant
        · exact hold
      · exact fun hold => Or.inr ⟨hold, fun hrevoked => hrevoke ⟨hcommits, hrevoked⟩⟩

/-- Some principal of the user has been granted the resource, and not been deprived of it
since. -/
def Standing (bcrypt : Bcrypt) (start : System) (events : List Event) (user : Access.User)
    (resourceType : ResourceType) (resourceId : Uuid) : Prop :=
  ∃ principal ∈ Tables.principals user,
    (start.registry.Holds ⟨principal.1, principal.2, resourceType, resourceId⟩ ∧
        ¬ Transition.Occurs (step bcrypt) start events
          (Revokes bcrypt ⟨principal.1, principal.2, resourceType, resourceId⟩)) ∨
      Transition.Unanswered (step bcrypt) start events
        (Grants bcrypt ⟨principal.1, principal.2, resourceType, resourceId⟩)
        (Revokes bcrypt ⟨principal.1, principal.2, resourceType, resourceId⟩)

/-- Who may read a document is decided by the role and the department of the user, by the
department of the collection, and by the grants that were committed and not revoked; no
other request has a say in it, and none that failed before its commit. -/
theorem run_canAccessDocument_iff {bcrypt : Bcrypt} {start finish : System}
    {events : List Event} (user : Access.User) (documentId collectionId : Uuid)
    (hsound : Sound start.registry)
    (hrun : Transition.exec (step bcrypt) start events = some finish) :
    finish.registry.canAccessDocument user documentId collectionId = true ↔
      user.role = .admin ∨ finish.registry.Owned user collectionId ∨
        Standing bcrypt start events user .collection collectionId ∨
        Standing bcrypt start events user .document documentId := by
  have hstanding : ∀ resourceType resourceId,
      (∃ principal ∈ Tables.principals user,
        finish.registry.Holds ⟨principal.1, principal.2, resourceType, resourceId⟩) ↔
      Standing bcrypt start events user resourceType resourceId := by
    intro resourceType resourceId
    apply exists_congr
    intro principal
    exact and_congr Iff.rfl (run_holds_iff _ hsound hrun)
  rw [Registry.canAccessDocument_iff, Registry.canAccessCollection_iff, hstanding, hstanding,
    or_assoc, or_assoc]

/-- The first account, as the deployment seeds it. -/
def sampleSystem : System :=
  { registry := { users := [
      { id := 1, role := .admin, email := "admin@corp", hashedPassword := "secret" }] } }

theorem sampleSystem_sound : Sound sampleSystem.registry := by
  constructor <;> decide

/-- A department, an account and three collections; a grant that is changed, revoked and
given again; one that fails at its commit, and one that fails behind it. -/
def sampleEvents : List Event :=
  [{ caller := 1, newId := 2, request := .createDepartment "Sales" },
    { caller := 1, newId := 3, request := .createUser "bob@corp" "password" "" .user (some 2) },
    { caller := 1, newId := 4, request := .createCollection "Prices" none none },
    { caller := 1, newId := 5, request := .grantPermission ⟨⟨.user, 3, .collection, 4⟩, .read⟩ },
    { caller := 1, newId := 0, request := .editPermission 5 .write },
    { caller := 1, newId := 0, request := .revokePermission 5 },
    { caller := 1, newId := 6, ending := .raise false,
      request := .grantPermission ⟨⟨.user, 3, .collection, 4⟩, .read⟩ },
    { caller := 1, newId := 7, ending := .late,
      request := .grantPermission ⟨⟨.department, 2, .collection, 4⟩, .read⟩ },
    { caller := 1, newId := 8, request := .createCollection "Offers" none (some 2) },
    { caller := 1, newId := 9, request := .createCollection "Archive" none none }]

theorem sample_runs :
    ∃ finish, Transition.exec (step .plain) sampleSystem sampleEvents = some finish :=
  Option.isSome_iff_exists.mp rfl

theorem run_canAccessDocument_iff_sample :
    ∃ finish, Transition.exec (step .plain) sampleSystem sampleEvents = some finish ∧
      (finish.registry.canAccessDocument ⟨3, .user, some 2⟩ 10 4 = true ↔
        (UserRole.user = UserRole.admin) ∨ finish.registry.Owned ⟨3, .user, some 2⟩ 4 ∨
          Standing .plain sampleSystem sampleEvents ⟨3, .user, some 2⟩ .collection 4 ∨
          Standing .plain sampleSystem sampleEvents ⟨3, .user, some 2⟩ .document 10) := by
  obtain ⟨finish, hrun⟩ := sample_runs
  exact ⟨finish, hrun, run_canAccessDocument_iff _ 10 4 sampleSystem_sound hrun⟩

/-! ## Listings -/

namespace Registry

variable (registry : Registry)

/-- `list_collections` of `/collections`, ordered by the name. -/
def listCollections (collate : String → String → Bool) (user : Access.User) :
    List Collection :=
  let allowed := registry.tables.accessibleCollectionIds user
  if allowed = ∅ then []
  else (registry.collections.filter (·.id ∈ allowed)).mergeSort fun first second =>
    collate first.name second.name

/-- `get_collection` -/
def getCollection (user : Access.User) (collectionId : Uuid) : Except HttpError Collection :=
  match registry.collections.find? (·.id = collectionId) with
  | none => .error ⟨404, "Collection not found"⟩
  | some collection =>
      if registry.canAccessCollection user collectionId then .ok collection
      else .error ⟨404, "Collection not found"⟩

variable {registry} {user : Access.User}

theorem mem_listCollections {collate : String → String → Bool} {collection : Collection} :
    collection ∈ registry.listCollections collate user ↔
      collection ∈ registry.collections ∧
        collection.id ∈ registry.tables.accessibleCollectionIds user := by
  rw [listCollections]
  split
  next hempty => simp [hempty]
  next => simp [List.mem_mergeSort]

theorem find?_collection {collectionId : Uuid} {collection : Collection}
    (hfind : registry.collections.find? (·.id = collectionId) = some collection) :
    collection ∈ registry.collections ∧ collection.id = collectionId := by
  have hid := List.find?_some hfind
  exact ⟨List.mem_of_find?_eq_some hfind, of_decide_eq_true hid⟩

/-- For a collection that exists the two ways to read the permissions agree. -/
theorem canAccessCollection_iff_mem {collection : Collection}
    (hcollection : collection ∈ registry.collections) :
    registry.canAccessCollection user collection.id = true ↔
      collection.id ∈ registry.tables.accessibleCollectionIds user := by
  unfold canAccessCollection
  by_cases hadmin : user.role = .admin
  · have hmem : collection.id ∈ registry.tables.accessibleCollectionIds user := by
      rw [Tables.accessibleCollectionIds, if_pos hadmin, List.mem_toFinset, Registry.tables,
        List.map_map]
      exact List.mem_map_of_mem hcollection
    simp [hadmin, hmem]
  · simp [hadmin]

end Registry

/-- In every reachable state the list of a user's collections has, in the order of their
names, exactly the collections that the user can open, each of them once; all the others
are answered like collections that do not exist. -/
theorem run_listCollections {bcrypt : Bcrypt} {start finish : System} {events : List Event}
    {collate : String → String → Bool} (user : Access.User) (hsound : Sound start.registry)
    (htrans : ∀ first second third, collate first second = true → collate second third = true →
      collate first third = true)
    (htotal : ∀ first second, (collate first second || collate second first) = true)
    (hrun : Transition.exec (step bcrypt) start events = some finish) :
    (finish.registry.listCollections collate user).Nodup ∧
      (finish.registry.listCollections collate user).Pairwise (fun first second =>
        collate first.name second.name = true) ∧
      (∀ collection, collection ∈ finish.registry.listCollections collate user ↔
        finish.registry.getCollection user collection.id = .ok collection) ∧
      ∀ collectionId, (∀ collection ∈ finish.registry.listCollections collate user,
          collection.id ≠ collectionId) →
        finish.registry.getCollection user collectionId =
          .error ⟨404, "Collection not found"⟩ := by
  have hfinish := run_sound hsound hrun
  refine ⟨?_, ?_, ?_, ?_⟩
  · rw [Registry.listCollections]
    split
    next => exact List.nodup_nil
    next =>
        rw [List.Perm.nodup_iff (List.mergeSort_perm _ _)]
        exact (List.Nodup.of_map _ hfinish.collectionIds).filter _
  · rw [Registry.listCollections]
    split
    next => exact List.Pairwise.nil
    next =>
        exact List.pairwise_mergeSort
          (fun first second third => htrans first.name second.name third.name)
          (fun first second => htotal first.name second.name) _
  · intro collection
    rw [Registry.mem_listCollections]
    constructor
    · rintro ⟨hmem, haccess⟩
      have hfind : finish.registry.collections.find? (·.id = collection.id) = some collection := by
        have hsome :
            (finish.registry.collections.find? (·.id = collection.id)).isSome = true := by
          rw [List.find?_isSome]
          exact ⟨collection, hmem, decide_eq_true rfl⟩
        obtain ⟨found, hfound⟩ := Option.isSome_iff_exists.mp hsome
        obtain ⟨hmemFound, hid⟩ := Registry.find?_collection hfound
        rw [hfound, Registry.eq_of_key hfinish.collectionIds hmemFound hmem hid]
      rw [Registry.getCollection, hfind]
      exact if_pos ((Registry.canAccessCollection_iff_mem hmem).mpr haccess)
    · intro hget
      rw [Registry.getCollection] at hget
      split at hget
      next => cases hget
      next found hfound =>
          split at hget
          next haccess =>
              cases hget
              have hmem := List.mem_of_find?_eq_some hfound
              exact ⟨hmem, (Registry.canAccessCollection_iff_mem hmem).mp haccess⟩
          next => cases hget
  · intro collectionId hnot
    rw [Registry.getCollection]
    split
    next => rfl
    next found hfound =>
        obtain ⟨hmem, hid⟩ := Registry.find?_collection hfound
        apply if_neg
        intro haccess
        rw [← hid] at haccess
        exact hnot found (Registry.mem_listCollections.mpr
          ⟨hmem, (Registry.canAccessCollection_iff_mem hmem).mp haccess⟩) hid

/-- The account reads the collection of its department and the one it was granted, and
not the third. -/
theorem run_listCollections_sample :
    ∃ finish, Transition.exec (step .plain) sampleSystem sampleEvents = some finish ∧
      (finish.registry.listCollections (fun first second => decide (first ≤ second))
        ⟨3, .user, some 2⟩).Nodup ∧
      (finish.registry.listCollections (fun first second => decide (first ≤ second))
        ⟨3, .user, some 2⟩).Pairwise (fun first second =>
          decide (first.name ≤ second.name) = true) ∧
      (∀ collection, collection ∈ finish.registry.listCollections
          (fun first second => decide (first ≤ second)) ⟨3, .user, some 2⟩ ↔
        finish.registry.getCollection ⟨3, .user, some 2⟩ collection.id = .ok collection) ∧
      ∀ collectionId, (∀ collection ∈ finish.registry.listCollections
          (fun first second => decide (first ≤ second)) ⟨3, .user, some 2⟩,
          collection.id ≠ collectionId) →
        finish.registry.getCollection ⟨3, .user, some 2⟩ collectionId =
          .error ⟨404, "Collection not found"⟩ := by
  obtain ⟨finish, hrun⟩ := sample_runs
  refine ⟨finish, hrun, run_listCollections _ sampleSystem_sound ?_ ?_ hrun⟩
  · intro first second third hfirst hsecond
    exact decide_eq_true (le_trans (of_decide_eq_true hfirst) (of_decide_eq_true hsecond))
  · intro first second
    rw [Bool.or_eq_true, decide_eq_true_eq, decide_eq_true_eq]
    exact le_total first second

/-! ## What reaches Redis -/

/-- Later states of the same account: it has been suspended, or its password has changed. -/
def Tightened (user later : User) : Prop :=
  later.id = user.id ∧
    (user.isActive = true ∧ later.isActive = false ∨ later.hashedPassword ≠ user.hashedPassword)

/-- What one request that goes through takes away it also withdraws from Redis. -/
structure Traced (before after : Registry) (effects : List Effect) : Prop where
  permissions : ∀ row ∈ before.permissions, row ∉ after.permissions →
    .invalidate row.resourceType row.resourceId ∈ effects
  users : ∀ user ∈ before.users, ∃ later ∈ after.users, later.id = user.id
  tightened : ∀ user ∈ before.users, ∀ later ∈ after.users, Tightened user later →
    .bumpSessionEpoch user.id ∈ effects

theorem Traced.refl {registry : Registry} (hsound : Sound registry) (effects : List Effect) :
    Traced registry registry effects := by
  refine ⟨fun _ hrow hgone => absurd hrow hgone, fun user huser => ⟨user, huser, rfl⟩, ?_⟩
  rintro user huser later hlater ⟨hid, hchange⟩
  rw [Registry.eq_of_key hsound.userIds hlater huser hid] at hchange
  rcases hchange with ⟨hactive, hinactive⟩ | hpassword
  · rw [hactive] at hinactive
    cases hinactive
  · exact absurd rfl hpassword

/-- Tables that only grow take nothing away. -/
theorem Traced.of_grown (registry : Registry) {next : Registry} (hsound : Sound next)
    (husers : registry.users ⊆ next.users)
    (hpermissions : registry.permissions ⊆ next.permissions) (effects : List Effect) :
    Traced registry next effects :=
  ⟨fun _ hrow hgone => absurd (hpermissions hrow) hgone,
    fun user huser => ⟨user, husers huser, rfl⟩,
    fun user huser => (Traced.refl hsound effects).tightened user (husers huser)⟩

/-- One account changes. -/
theorem Traced.setUser {registry : Registry} {user row : User} {effects : List Effect}
    (hsound : Sound registry) (huser : user ∈ registry.users) (hid : row.id = user.id)
    (heffects : Tightened user row → .bumpSessionEpoch user.id ∈ effects) :
    Traced registry (registry.setUser row) effects := by
  refine ⟨fun found hfound hgone => absurd hfound hgone, ?_, ?_⟩
  · intro found hfound
    refine ⟨_, List.mem_map_of_mem hfound, ?_⟩
    split
    next hsame => exact hsame.symm
    next => rfl
  · rintro found hfound later hlater htightened
    obtain ⟨old, hold, rfl⟩ := List.mem_map.mp hlater
    split at htightened
    next hsame =>
        have hfoundUser : found = user := by
          apply Registry.eq_of_key hsound.userIds hfound huser
          exact htightened.1.symm.trans hid
        subst hfoundUser
        exact heffects htightened
    next =>
        exact (Traced.refl hsound effects).tightened found hfound old hold htightened

theorem Writes.traced {bcrypt : Bcrypt} {registry next : Registry} {newId : Uuid}
    {request : AdminRequest} {effects : List Effect} (hsound : Sound registry)
    (hwrites : Writes bcrypt registry newId request next effects) :
    Traced registry next effects := by
  have hnext := hwrites.sound hsound
  cases hwrites with
  | department name next hinsert =>
      rw [Registry.insertDepartment] at hinsert
      split at hinsert <;> cases hinsert
      exact Traced.of_grown registry hnext (List.Subset.refl _) (List.Subset.refl _) _
  | user email password salt role departmentId next hinsert =>
      rw [Registry.insertUser] at hinsert
      split at hinsert <;> cases hinsert
      exact Traced.of_grown registry hnext (List.subset_append_left ..) (List.Subset.refl _) _
  | collection name description departmentId next hinsert =>
      rw [Registry.insertCollection] at hinsert
      split at hinsert <;> cases hinsert
      exact Traced.of_grown registry hnext (List.Subset.refl _) (List.Subset.refl _) _
  | grant grant next hinsert =>
      rw [Registry.insertPermission] at hinsert
      split at hinsert <;> cases hinsert
      exact Traced.of_grown registry hnext (List.Subset.refl _) (List.subset_append_left ..) _
  | update userId isActive role departmentId user huser hforeign =>
      obtain ⟨hmem, hid⟩ := Registry.getUser_spec huser
      refine Traced.setUser hsound hmem rfl ?_
      rintro ⟨_, ⟨hactive, hinactive⟩ | hpassword⟩
      · have hsuspended : isActive = some false := by
          rw [Registry.updated] at hinactive
          cases isActive with
          | none =>
              rw [Option.getD_none, hactive] at hinactive
              cases hinactive
          | some value => exact congrArg some hinactive
        rw [hactive, hsuspended, hid]
        exact List.mem_singleton_self _
      · exact absurd rfl hpassword
  | endSessions userId => exact Traced.refl hsound _
  | reset userId temporary salt user huser =>
      obtain ⟨hmem, hid⟩ := Registry.getUser_spec huser
      refine Traced.setUser hsound hmem rfl fun _ => ?_
      rw [hid]
      exact List.mem_singleton_self _
  | edit permissionId accessLevel row hrow =>
      obtain ⟨hmem, hid⟩ := Registry.getPermission_spec hrow
      refine ⟨?_, fun user huser => ⟨user, huser, rfl⟩, (Traced.refl hsound _).tightened⟩
      intro found hfound hgone
      by_cases hsame : found.id = permissionId
      · rw [Registry.eq_of_key hsound.permissionIds hfound hmem (hsame.trans hid.symm)]
        exact List.mem_singleton_self _
      · have hkept : found ∈ (registry.setLevel permissionId accessLevel).permissions :=
          List.mem_map.mpr ⟨found, hfound, if_neg hsame⟩
        exact absurd hkept hgone
  | revoke permissionId row hrow =>
      obtain ⟨hmem, hid⟩ := Registry.getPermission_spec hrow
      refine ⟨?_, fun user huser => ⟨user, huser, rfl⟩, (Traced.refl hsound _).tightened⟩
      intro found hfound hgone
      by_cases hsame : found.id = permissionId
      · rw [Registry.eq_of_key hsound.permissionIds hfound hmem (hsame.trans hid.symm)]
        exact List.mem_singleton_self _
      · have hkept : found ∈ (registry.deletePermission permissionId).permissions :=
          List.mem_filter.mpr ⟨hfound, decide_eq_true hsame⟩
        exact absurd hkept hgone

/-- What is taken away in two parts of a run is taken away in one of them. -/
theorem Traced.trans {before middle after : Registry} {first second : List Effect}
    (hfirst : Traced before middle first) (hsecond : Traced middle after second) :
    Traced before after (first ++ second) := by
  refine ⟨?_, ?_, ?_⟩
  · intro row hrow hgone
    by_cases hmiddle : row ∈ middle.permissions
    · exact List.mem_append_right _ (hsecond.permissions row hmiddle hgone)
    · exact List.mem_append_left _ (hfirst.permissions row hrow hmiddle)
  · intro user huser
    obtain ⟨between, hbetween, hid⟩ := hfirst.users user huser
    obtain ⟨later, hlater, hid'⟩ := hsecond.users between hbetween
    exact ⟨later, hlater, hid'.trans hid⟩
  · rintro user huser later hlater ⟨hid, hchange⟩
    obtain ⟨between, hbetween, hidBetween⟩ := hfirst.users user huser
    by_cases hearly : Tightened user between
    · exact List.mem_append_left _ (hfirst.tightened user huser between hbetween hearly)
    · -- Then the account was as active as before, with the same password.
      have hkept : (user.isActive = true → between.isActive = true) ∧
          between.hashedPassword = user.hashedPassword := by
        constructor
        · intro hactive
          by_contra hinactive
          exact hearly ⟨hidBetween, Or.inl ⟨hactive, Bool.eq_false_iff.mpr hinactive⟩⟩
        · by_contra hpassword
          exact hearly ⟨hidBetween, Or.inr hpassword⟩
      rw [← hidBetween]
      apply List.mem_append_right
      apply hsecond.tightened between hbetween later hlater
      refine ⟨hid.trans hidBetween.symm, ?_⟩
      rcases hchange with ⟨hactive, hinactive⟩ | hpassword
      · exact Or.inl ⟨hkept.1 hactive, hinactive⟩
      · exact Or.inr (by rw [hkept.2]; exact hpassword)

theorem exec_traced {bcrypt : Bcrypt} {start finish : System} {events : List Event}
    (hsound : Sound start.registry)
    (hrun : Transition.exec (step bcrypt) start events = some finish) :
    ∃ sent, finish.effects = start.effects ++ sent ∧
      Traced start.registry finish.registry sent := by
  apply Transition.exec_induction
    (motive := fun _ system => ∃ sent, system.effects = start.effects ++ sent ∧
      Traced start.registry system.registry sent) ?_ ?_ hrun
  · exact ⟨[], (List.append_nil _).symm, Traced.refl hsound _⟩
  · rintro past system event next hpast ⟨sent, heffects, htraced⟩ hnext
    have hsystem := run_sound hsound hpast
    cases hnext
    refine ⟨sent ++ (answer bcrypt system.registry event).effects, ?_, htraced.trans ?_⟩
    · dsimp only
      rw [heffects, List.append_assoc]
    · rcases answer_cases bcrypt system.registry event with ⟨_, hsame, _⟩ | ⟨_, hwrites⟩
      · dsimp only
        rw [hsame]
        exact Traced.refl hsystem _
      · exact hwrites.traced hsystem

/-- Between any two states of a run, whichever requests fail and wherever: a permission that
is changed or revoked has had the cached answers of its resource invalidated, and an account
that is suspended or gets another password has had its sessions ended; what comes later in
the run takes none of it back. -/
theorem run_traced {bcrypt : Bcrypt} {start finish : System} {before between after : List Event}
    (hsound : Sound start.registry)
    (hrun : Transition.exec (step bcrypt) start (before ++ between ++ after) = some finish) :
    ∃ first second sent, Transition.exec (step bcrypt) start before = some first ∧
      Transition.exec (step bcrypt) first between = some second ∧
      second.effects = first.effects ++ sent ∧ second.effects <+: finish.effects ∧
      Traced first.registry second.registry sent := by
  obtain ⟨second, hsecond, hafter⟩ := Transition.exec_append_eq_some_iff.mp hrun
  obtain ⟨first, hbefore, hbetween⟩ := Transition.exec_append_eq_some_iff.mp hsecond
  obtain ⟨sent, heffects, htraced⟩ := exec_traced (run_sound hsound hbefore) hbetween
  obtain ⟨rest, hrest, _⟩ := exec_traced (run_sound hsound hsecond) hafter
  exact ⟨first, second, sent, hbefore, hbetween, heffects, ⟨rest, hrest.symm⟩, htraced⟩

def sampleUser : User :=
  { id := 3, role := .user, email := "bob@corp", hashedPassword := "password" }

/-- An account with a grant on a collection. -/
def grantedSystem : System :=
  { registry :=
      { users := sampleSystem.registry.users ++ [sampleUser]
        collections := [{ id := 4, name := "Prices" }]
        permissions := [⟨⟨⟨.user, 3, .collection, 4⟩, .read⟩, 5⟩] } }

theorem grantedSystem_sound : Sound grantedSystem.registry := by
  constructor <;> decide

/-- The grant is revoked, the account suspended and then active again. -/
def revokedEvents : List Event :=
  [{ caller := 1, newId := 0, request := .revokePermission 5 },
    { caller := 1, newId := 0, ending := .late, request := .updateUser 3 (some false) none none },
    { caller := 1, newId := 0, request := .updateUser 3 (some true) none none }]

theorem run_traced_sample :
    ∃ finish, Transition.exec (step .plain) grantedSystem revokedEvents = some finish ∧
      .invalidate .collection 4 ∈ finish.effects ∧ .bumpSessionEpoch 3 ∈ finish.effects := by
  obtain ⟨finish, hrun⟩ : ∃ finish,
      Transition.exec (step .plain) grantedSystem revokedEvents = some finish :=
    Option.isSome_iff_exists.mp rfl
  have hcut : Transition.exec (step .plain) grantedSystem
      ([] ++ revokedEvents.take 2 ++ revokedEvents.drop 2) = some finish := hrun
  obtain ⟨first, second, sent, hfirst, hsecond, heffects, hprefix, htraced⟩ :=
    run_traced grantedSystem_sound hcut
  cases hfirst
  have hsent : sent ⊆ finish.effects := by
    refine List.Subset.trans ?_ hprefix.subset
    rw [heffects]
    exact List.subset_append_right _ _
  cases hsecond
  refine ⟨finish, hrun, hsent (htraced.permissions _ (List.mem_singleton_self _) nofun), ?_⟩
  refine hsent (htraced.tightened sampleUser (by decide) { sampleUser with isActive := false }
    ?_ ⟨rfl, Or.inl ⟨rfl, rfl⟩⟩)
  decide

end AgenticRag.Administration
