import AgenticRag.Text.Uuid
import Mathlib.Data.Finset.Union

/-!
# Collection access

The tables behind `accessible_collection_ids` and the changes of the
permissions.
-/

namespace AgenticRag.Access

inductive UserRole where
  | admin
  | user
  deriving DecidableEq

structure User where
  id : Uuid
  role : UserRole
  departmentId : Option Uuid := none
  deriving DecidableEq

structure Collection where
  id : Uuid
  departmentId : Option Uuid := none
  deriving DecidableEq

inductive PrincipalType where
  | user
  | department
  deriving DecidableEq

inductive ResourceType where
  | collection
  | document
  deriving DecidableEq

/-- A row of `permissions`; the access level is not read. -/
structure Permission where
  principalType : PrincipalType
  principalId : Uuid
  resourceType : ResourceType
  resourceId : Uuid
  deriving DecidableEq

structure Tables where
  users : Uuid → Option User := fun _ => none
  collections : List Collection := []
  permissions : List Permission := []

namespace Tables

variable (tables : Tables)

/-- The collections of the department the user belongs to. -/
def departmentCollections (user : User) : List Uuid :=
  match user.departmentId with
  | none => []
  | some departmentId =>
      (tables.collections.filter (·.departmentId = some departmentId)).map (·.id)

/-- The collections granted to one principal. -/
def grantedCollections (principalType : PrincipalType) (principalId : Uuid) :
    List Uuid :=
  (tables.permissions.filter fun permission =>
    permission.resourceType = .collection ∧
      permission.principalType = principalType ∧
      permission.principalId = principalId).map (·.resourceId)

/-- The user, and the department the user belongs to. -/
def principals (user : User) : List (PrincipalType × Uuid) :=
  match user.departmentId with
  | none => [(.user, user.id)]
  | some departmentId => [(.user, user.id), (.department, departmentId)]

/-- `accessible_collection_ids` -/
def accessibleCollectionIds (user : User) : Finset Uuid :=
  if user.role = .admin then (tables.collections.map (·.id)).toFinset
  else
    (tables.departmentCollections user ++
      (principals user).flatMap fun (principalType, principalId) =>
        tables.grantedCollections principalType principalId).toFinset

/-- `grant_permission`; a permission that exists already is a conflict. -/
def grantPermission (permission : Permission) : Tables :=
  if permission ∈ tables.permissions then tables
  else { tables with permissions := tables.permissions ++ [permission] }

/-- The row that `revoke_permission` deletes. -/
def revokePermission (permission : Permission) : Tables :=
  { tables with permissions := tables.permissions.filter (· ≠ permission) }

end Tables

end AgenticRag.Access
