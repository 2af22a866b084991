import AgenticRag.Graph.State
import Mathlib.Data.Finset.Basic

/-!
# The two stores of the semantic cache

The entries are points of a Qdrant collection, and their ids are members of the
Redis sets `cache:coll:<id>` and `cache:doc:<id>`.  Each function here is one
command.  A Redis set without members does not exist, so the sets are a total
function.
-/

namespace AgenticRag.Cache

/-- The keys `cache:coll:<id>` and `cache:doc:<id>`. -/
inductive Tag where
  | coll (collectionId : Uuid)
  | doc (documentId : Uuid)
  deriving DecidableEq

structure Payload where
  answer : String
  queryText : String
  collectionIds : List Uuid
  documentIds : List Uuid
  citations : List Citation
  scopeHash : String
  createdAt : ℚ
  deriving DecidableEq

/-- The tags of an entry, in the order of the pipeline. -/
def Payload.tags (payload : Payload) : List Tag :=
  payload.collectionIds.map Tag.coll ++ payload.documentIds.map Tag.doc

theorem Payload.coll_mem_tags {payload : Payload} {collectionId : Uuid} :
    Tag.coll collectionId ∈ payload.tags ↔ collectionId ∈ payload.collectionIds := by
  simp [Payload.tags]

theorem Payload.doc_mem_tags {payload : Payload} {documentId : Uuid} :
    Tag.doc documentId ∈ payload.tags ↔ documentId ∈ payload.documentIds := by
  simp [Payload.tags]

/-- A point of the cache collection with a vector of type `V`. -/
structure Point (V : Type) where
  id : Uuid
  vector : V
  payload : Payload
  deriving DecidableEq

structure CacheStore (V : Type) where
  created : Bool := false
  points : List (Point V) := []
  members : Tag → Finset Uuid := fun _ => ∅

namespace CacheStore

variable {V : Type} (store : CacheStore V)

/-- `ensure_collection` -/
def ensureCollection : CacheStore V :=
  { store with created := true }

/-- `upsert`: a point replaces the one with its id. -/
def upsert (point : Point V) : CacheStore V :=
  { store with points := store.points.filter (·.id ≠ point.id) ++ [point] }

/-- `delete` with a `PointIdsList` -/
def deletePoints (ids : Finset Uuid) : CacheStore V :=
  { store with points := store.points.filter (·.id ∉ ids) }

/-- `count` with the range filter of `purge_expired` -/
def countExpired (cutoff : ℚ) : ℕ :=
  (store.points.filter (·.payload.createdAt < cutoff)).length

/-- `delete` with the range filter of `purge_expired` -/
def deleteExpired (cutoff : ℚ) : CacheStore V :=
  { store with points := store.points.filter (¬ ·.payload.createdAt < cutoff) }

/-- `SADD` -/
def sadd (tag : Tag) (id : Uuid) : CacheStore V :=
  { store with
    members := Function.update store.members tag (insert id (store.members tag)) }

/-- `SMEMBERS` -/
def smembers (tag : Tag) : Finset Uuid :=
  store.members tag

/-- `DEL` -/
def del (tag : Tag) : CacheStore V :=
  { store with members := Function.update store.members tag ∅ }

variable {store} {point other : Point V} {ids : Finset Uuid} {cutoff : ℚ}
variable {tag : Tag} {id : Uuid}

@[simp]
theorem ensureCollection_points : store.ensureCollection.points = store.points := rfl

@[simp]
theorem ensureCollection_members : store.ensureCollection.members = store.members := rfl

@[simp]
theorem mem_upsert : other ∈ (store.upsert point).points ↔
    (other ∈ store.points ∧ other.id ≠ point.id) ∨ other = point := by
  simp [upsert]

@[simp]
theorem upsert_members : (store.upsert point).members = store.members := rfl

@[simp]
theorem mem_deletePoints : other ∈ (store.deletePoints ids).points ↔
    other ∈ store.points ∧ other.id ∉ ids := by
  simp [deletePoints]

@[simp]
theorem deletePoints_members : (store.deletePoints ids).members = store.members := rfl

@[simp]
theorem mem_deleteExpired : other ∈ (store.deleteExpired cutoff).points ↔
    other ∈ store.points ∧ cutoff ≤ other.payload.createdAt := by
  simp [deleteExpired]

@[simp]
theorem sadd_points : (store.sadd tag id).points = store.points := rfl

theorem mem_sadd {tag' : Tag} {id' : Uuid} :
    id' ∈ (store.sadd tag id).members tag' ↔
      (tag' = tag ∧ id' = id) ∨ id' ∈ store.members tag' := by
  by_cases htag : tag' = tag
  · subst htag
    simp [sadd]
  · simp [sadd, htag]

@[simp]
theorem del_points : (store.del tag).points = store.points := rfl

theorem mem_del {tag' : Tag} {id' : Uuid} :
    id' ∈ (store.del tag).members tag' ↔ tag' ≠ tag ∧ id' ∈ store.members tag' := by
  by_cases htag : tag' = tag
  · subst htag
    simp [del]
  · simp [del, htag]

end CacheStore

/-- Every entry is a member of the sets of all its tags. -/
def Tagged {V : Type} (store : CacheStore V) : Prop :=
  ∀ point ∈ store.points, ∀ tag ∈ point.payload.tags, point.id ∈ store.members tag

end AgenticRag.Cache
