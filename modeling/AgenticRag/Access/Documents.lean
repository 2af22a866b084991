import AgenticRag.Access.Rbac
import AgenticRag.Ingestion.Stores

/-!
# The documents and their permissions

The rows behind the document routes, and the access check in front of them.  The check
is one for reading and for writing: a permission counts whatever its access level is.
-/

namespace AgenticRag.Access

open AgenticRag.Ingestion (Document Stores)

inductive AccessLevel where
  | read
  | write
  | admin
  deriving DecidableEq

/-- A row of `permissions` with its access level. -/
structure Grant extends Permission where
  accessLevel : AccessLevel := .read
  deriving DecidableEq

/-- The rows behind the document routes.  A document belongs to a collection that
exists, and its id is listed. -/
structure Library where
  collections : List Collection := []
  grants : List Grant := []
  stores : Stores := {}
  documentIds : List Uuid := []
  contentHash : Uuid → String := fun _ => ""
  listed : ∀ documentId, documentId ∈ documentIds ↔ stores.documents documentId ≠ none
  foreign : ∀ documentId document, stores.documents documentId = some document →
    ∃ collection ∈ collections, collection.id = document.collectionId

/-- An `HTTPException`, or what becomes of any other exception. -/
structure HttpError where
  status : ℕ
  detail : String
  deriving DecidableEq

namespace Library

variable (library : Library) (user : User)

/-- The tables as `accessible_collection_ids` reads them. -/
def tables : Tables where
  collections := library.collections
  permissions := library.grants.map (·.toPermission)

/-- `can_access_collection` -/
def canAccessCollection (collectionId : Uuid) : Bool :=
  user.role = .admin || collectionId ∈ library.tables.accessibleCollectionIds user

/-- `can_access_document` -/
def canAccessDocument (documentId : Uuid) (document : Document) : Bool :=
  user.role = .admin || library.canAccessCollection user document.collectionId ||
    (Tables.principals user).any fun (principalType, principalId) =>
      library.grants.any fun grant =>
        grant.resourceType = .document && grant.resourceId = documentId &&
          grant.principalType = principalType && grant.principalId = principalId

/-- `_get_accessible` -/
def getAccessible (documentId : Uuid) : Except HttpError Document :=
  match library.stores.documents documentId with
  | none => .error ⟨404, "Document not found"⟩
  | some document =>
      if library.canAccessCollection user document.collectionId then .ok document
      else .error ⟨404, "Document not found"⟩

/-! ## Entitlement -/

/-- The collection belongs to the department of the user. -/
def Owned (collectionId : Uuid) : Prop :=
  ∃ collection ∈ library.collections, collection.id = collectionId ∧
    ∃ departmentId, user.departmentId = some departmentId ∧
      collection.departmentId = some departmentId

/-- A permission on the collection that the user holds, personally or through the
department. -/
def Holds (collectionId : Uuid) (grant : Grant) : Prop :=
  grant ∈ library.grants ∧ grant.resourceType = .collection ∧
    grant.resourceId = collectionId ∧
    (grant.principalType, grant.principalId) ∈ Tables.principals user

/-- An admin, a member of the owning department, or a holder of a WRITE or ADMIN
permission. -/
def Entitled (collectionId : Uuid) : Prop :=
  user.role = .admin ∨ library.Owned user collectionId ∨
    ∃ grant, library.Holds user collectionId grant ∧
      (grant.accessLevel = .write ∨ grant.accessLevel = .admin)

/-- Only READ permissions let the user in. -/
def ReadOnly (collectionId : Uuid) : Prop :=
  ¬ library.Entitled user collectionId ∧
    ∃ grant, library.Holds user collectionId grant ∧ grant.accessLevel = .read

end Library

/-! ## What lets a user in -/

section Access

variable {library : Library} {user : User} {collectionId : Uuid}

theorem mem_departmentCollections {tables : Tables} :
    collectionId ∈ tables.departmentCollections user ↔
      ∃ collection ∈ tables.collections, collection.id = collectionId ∧
        ∃ departmentId, user.departmentId = some departmentId ∧
          collection.departmentId = some departmentId := by
  unfold Tables.departmentCollections
  cases user.departmentId with
  | none => simp
  | some departmentId =>
      simp only [List.mem_map, List.mem_filter, decide_eq_true_eq, Option.some.injEq,
        exists_eq_left']
      constructor
      · rintro ⟨collection, ⟨hmem, hdepartment⟩, hid⟩
        exact ⟨collection, hmem, hid, hdepartment⟩
      · rintro ⟨collection, hmem, hid, hdepartment⟩
        exact ⟨collection, ⟨hmem, hdepartment⟩, hid⟩

theorem mem_grantedCollections {principalType : PrincipalType} {principalId : Uuid} :
    collectionId ∈ library.tables.grantedCollections principalType principalId ↔
      ∃ grant ∈ library.grants, grant.resourceType = .collection ∧
        grant.resourceId = collectionId ∧ grant.principalType = principalType ∧
        grant.principalId = principalId := by
  simp only [Tables.grantedCollections, Library.tables, List.mem_map, List.mem_filter,
    decide_eq_true_eq]
  constructor
  · rintro ⟨_, ⟨⟨grant, hgrant, rfl⟩, hresource, htype, hid⟩, hcollection⟩
    exact ⟨grant, hgrant, hresource, hcollection, htype, hid⟩
  · rintro ⟨grant, hgrant, hresource, hcollection, htype, hid⟩
    exact ⟨_, ⟨⟨grant, hgrant, rfl⟩, hresource, htype, hid⟩, hcollection⟩

/-- Any permission on the collection lets its holder in. -/
theorem canAccessCollection_iff :
    library.canAccessCollection user collectionId = true ↔
      user.role = .admin ∨ library.Owned user collectionId ∨
        ∃ grant, library.Holds user collectionId grant := by
  unfold Library.canAccessCollection
  by_cases hadmin : user.role = .admin
  · simp [hadmin]
  · simp only [hadmin, decide_false, Bool.false_or, decide_eq_true_eq, false_or,
      Tables.accessibleCollectionIds, if_false, List.mem_toFinset, List.mem_append,
      mem_departmentCollections, List.mem_flatMap, mem_grantedCollections]
    apply or_congr Iff.rfl
    constructor
    · rintro ⟨⟨_, _⟩, hprincipal, grant, hgrant, hresource, hcollection, rfl, rfl⟩
      exact ⟨grant, hgrant, hresource, hcollection, hprincipal⟩
    · rintro ⟨grant, hgrant, hresource, hcollection, hprincipal⟩
      exact ⟨_, hprincipal, grant, hgrant, hresource, hcollection, rfl, rfl⟩

/-- The access check passes for the entitled and for holders of READ permissions. -/
theorem canAccessCollection_iff_entitled :
    library.canAccessCollection user collectionId = true ↔
      library.Entitled user collectionId ∨ library.ReadOnly user collectionId := by
  rw [canAccessCollection_iff]
  constructor
  · rintro (hadmin | howned | ⟨grant, hgrant⟩)
    · exact Or.inl (Or.inl hadmin)
    · exact Or.inl (Or.inr (Or.inl howned))
    · by_cases hentitled : library.Entitled user collectionId
      · exact Or.inl hentitled
      · refine Or.inr ⟨hentitled, grant, hgrant, ?_⟩
        cases hlevel : grant.accessLevel with
        | read => rfl
        | write => exact absurd (Or.inr (Or.inr ⟨grant, hgrant, Or.inl hlevel⟩)) hentitled
        | admin => exact absurd (Or.inr (Or.inr ⟨grant, hgrant, Or.inr hlevel⟩)) hentitled
  · rintro ((hadmin | howned | ⟨grant, hgrant, _⟩) | ⟨_, grant, hgrant, _⟩)
    · exact Or.inl hadmin
    · exact Or.inr (Or.inl howned)
    · exact Or.inr (Or.inr ⟨grant, hgrant⟩)
    · exact Or.inr (Or.inr ⟨grant, hgrant⟩)

end Access

/-! ## Calls that return -/

section Calls

variable {library : Library} {user : User} {documentId : Uuid} {document : Document}

theorem getAccessible_ok :
    library.getAccessible user documentId = .ok document ↔
      library.stores.documents documentId = some document ∧
        library.canAccessCollection user document.collectionId = true := by
  unfold Library.getAccessible
  cases library.stores.documents documentId with
  | none => simp
  | some found =>
      simp only [Option.some.injEq]
      split_ifs with haccess
      · constructor
        · intro hok
          cases hok
          exact ⟨rfl, haccess⟩
        · rintro ⟨rfl, _⟩
          rfl
      · constructor
        · intro hok
          cases hok
        · rintro ⟨rfl, hdocument⟩
          exact absurd hdocument haccess

/-- A call has returned. -/
def Succeeds {α : Type} (result : Except HttpError α) : Prop :=
  ∃ value, result = .ok value

theorem succeeds_map {α β : Type} {result : Except HttpError α} (f : α → β) :
    Succeeds (result.map f) ↔ Succeeds result := by
  cases result with
  | error failure => simp [Succeeds, Except.map]
  | ok value => simp [Succeeds, Except.map]

end Calls

/-- A user without a department. -/
def reader : User where
  id := 5
  role := .user

end AgenticRag.Access
