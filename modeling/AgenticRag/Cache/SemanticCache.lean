import AgenticRag.Cache.Store
import AgenticRag.Core.SortedSet
import AgenticRag.Graph.Nodes

/-!
# The semantic cache

`SemanticCache` as a sequence of completed calls.  The hash, the embedder and
the vector database are parameters; of the database only the exactness of its
filter is used.  A deletion without waiting is queued and takes effect at a
later point of the sequence.
-/

namespace AgenticRag.Cache

/-! ## Scope hash -/

/-- The string `_scope_hash` hashes: the sorted ids, joined by `|`. -/
def scopeKey (collectionIds : Finset Uuid) : String :=
  PyString.join '|' (SortedSet.ascending (collectionIds.image Uuid.str))

/-- The order of the ids is lost, their set is not. -/
theorem scopeKey_injective : Function.Injective scopeKey := by
  have hparts : ∀ ids : Finset Uuid, ∀ part ∈
      SortedSet.ascending (ids.image Uuid.str), part ≠ "" ∧ '|' ∉ part.toList := by
    intro ids part hpart
    obtain ⟨id, _, rfl⟩ := Finset.mem_image.mp (SortedSet.mem_ascending.mp hpart)
    refine ⟨fun hempty => ?_, Uuid.bar_notMem_str id⟩
    exact Uuid.str_ne_empty id (String.toList_eq_nil_iff.mpr hempty)
  intro left right heq
  have hlists := PyString.join_injOn '|' (hparts left) (hparts right) heq
  exact Finset.image_injective Uuid.str_injective
    (SortedSet.ascending_injective hlists)

/-- `_scope_hash` -/
def scopeHash (sha256 : String → String) (collectionIds : Finset Uuid) : String :=
  sha256 (scopeKey collectionIds)

/-! ## Vector database -/

structure ScoredPoint (V : Type) where
  point : Point V
  score : ℚ

/-- The similarity search of the vector database: which of the matching points
it returns is its own business, but the filter is exact. -/
structure Qdrant (V : Type) where
  queryPoints : List (Point V) → V → (Point V → Bool) → ℕ → ℚ → List (ScoredPoint V)
  queryPoints_exact : ∀ points query filter limit threshold,
    ∀ scored ∈ queryPoints points query filter limit threshold,
      scored.point ∈ points ∧ filter scored.point = true

/-- The collaborators of the cache. -/
structure Backend (V : Type) where
  sha256 : String → String
  embedDense : String → V
  qdrant : Qdrant V

/-! ## Operations -/

/-- The cache and the deletions nobody waits for. -/
structure CacheState (V : Type) where
  store : CacheStore V := {}
  pending : List (Finset Uuid) := []

/-- What the loop over the response has found so far. -/
structure Scan where
  staleIds : List Uuid := []
  hit : Option CacheHit := none

def toHit {V : Type} (scored : ScoredPoint V) : CacheHit where
  answer := scored.point.payload.answer
  queryText := scored.point.payload.queryText
  score := scored.score
  collectionIds := scored.point.payload.collectionIds.toFinset
  documentIds := scored.point.payload.documentIds.toFinset
  citations := scored.point.payload.citations

section Operations

variable {V : Type} (settings : Settings) (backend : Backend V)

def isStale (now : ℚ) (payload : Payload) : Prop :=
  settings.semanticCacheTtlS < now - payload.createdAt

instance (now : ℚ) (payload : Payload) : Decidable (isStale settings now payload) :=
  inferInstanceAs (Decidable (_ < _))

/-- One iteration of the loop of `lookup`. -/
def scanStep (now : ℚ) (allowed : Finset Uuid) (scan : Scan)
    (scored : ScoredPoint V) : Scan :=
  if isStale settings now scored.point.payload then
    { scan with staleIds := scan.staleIds ++ [scored.point.id] }
  else if ¬ scored.point.payload.collectionIds.toFinset ⊆ allowed then scan
  else if scan.hit.isNone then { scan with hit := some (toHit scored) }
  else scan

/-- The response of the database to a lookup. -/
def candidates (store : CacheStore V) (allowed : Finset Uuid) (query : String) :
    List (ScoredPoint V) :=
  backend.qdrant.queryPoints store.points (backend.embedDense query)
    (fun point => point.payload.scopeHash = scopeHash backend.sha256 allowed) 5
    settings.semanticCacheSimilarity

/-- A candidate a lookup may report: fresh, and inside the scope. -/
def Servable (now : ℚ) (allowed : Finset Uuid) (scored : ScoredPoint V) : Prop :=
  ¬ isStale settings now scored.point.payload ∧
    scored.point.payload.collectionIds.toFinset ⊆ allowed

instance (now : ℚ) (allowed : Finset Uuid) (scored : ScoredPoint V) :
    Decidable (Servable settings now allowed scored) :=
  inferInstanceAs (Decidable (_ ∧ _))

/-- The candidate a lookup reports: the first one it may report. -/
def served (now : ℚ) (allowed : Finset Uuid) (query : String) (store : CacheStore V) :
    Option (ScoredPoint V) :=
  (candidates settings backend store allowed query).find?
    fun scored => Servable settings now allowed scored

/-- `lookup` -/
def lookup (now : ℚ) (allowed : Finset Uuid) (query : String)
    (state : CacheState V) : Option CacheHit × CacheState V :=
  if PyString.isBlank query ∨ state.store.created = false then (none, state)
  else
    let scan := (candidates settings backend state.store allowed query).foldl
      (scanStep settings now allowed) {}
    let pending :=
      if scan.staleIds = [] then state.pending
      else state.pending ++ [scan.staleIds.toFinset]
    (scan.hit, { state with pending := pending })

/-- The scope an entry is stored under. -/
def entryScope (call : StoreCall) : Finset Uuid :=
  call.requesterScope.getD call.sourceCollectionIds

/-- The point `store` upserts. -/
def entry (now : ℚ) (entryId : Uuid) (call : StoreCall) : Point V where
  id := entryId
  vector := backend.embedDense call.query
  payload :=
    { answer := call.answer
      queryText := call.query
      collectionIds := SortedSet.ascending call.sourceCollectionIds
      documentIds := SortedSet.ascending call.sourceDocumentIds
      citations := call.citations
      scopeHash := scopeHash backend.sha256 (entryScope call)
      createdAt := now }

/-- Upsert an entry and tag it. -/
def storeEntry (point : Point V) (store : CacheStore V) : CacheStore V :=
  point.payload.tags.foldl (fun store tag => store.sadd tag point.id)
    (store.ensureCollection.upsert point)

/-- `store` -/
def store (now : ℚ) (entryId : Uuid) (call : StoreCall) (state : CacheState V) :
    CacheState V :=
  { state with store := storeEntry (entry backend now entryId call) state.store }

/-- `_evict` -/
def evict (tag : Tag) (store : CacheStore V) : CacheStore V :=
  let ids := store.smembers tag
  if ids = ∅ then store else (store.deletePoints ids).del tag

/-- `purge_expired` with the cutoff `time.time() - ttl`. -/
def purgeExpired (cutoff : ℚ) (store : CacheStore V) : CacheStore V :=
  if store.created = false then store
  else if store.countExpired cutoff = 0 then store
  else store.deleteExpired cutoff

/-- A completed call, with the time it read. -/
inductive Call where
  | store (now : ℚ) (entryId : Uuid) (call : StoreCall)
  | lookup (now : ℚ) (allowed : Finset Uuid) (query : String)
  | invalidateDocument (documentId : Uuid)
  | invalidateCollection (collectionId : Uuid)
  | purgeExpired (now : ℚ)
  /-- The oldest deletion nobody waits for takes effect. -/
  | settle

def perform (state : CacheState V) (call : Call) : CacheState V :=
  match call with
  | .store now entryId call => store backend now entryId call state
  | .lookup now allowed query => (lookup settings backend now allowed query state).2
  | .invalidateDocument documentId =>
      { state with store := evict (.doc documentId) state.store }
  | .invalidateCollection collectionId =>
      { state with store := evict (.coll collectionId) state.store }
  | .purgeExpired now =>
      { state with
        store := purgeExpired (now - settings.semanticCacheTtlS) state.store }
  | .settle =>
      { state with
        store := state.store.deletePoints (state.pending.headD ∅)
        pending := state.pending.tail }

/-- The cache after a sequence of calls. -/
def performAll (calls : List Call) : CacheState V :=
  calls.foldl (perform settings backend) {}

theorem performAll_snoc (calls : List Call) (call : Call) :
    performAll settings backend (calls ++ [call]) =
      perform settings backend (performAll settings backend calls) call := by
  simp [performAll]

end Operations

/-! ## What each operation does to the store -/

section Specs

variable {V : Type} {settings : Settings} {backend : Backend V}
variable {point other : Point V} {store : CacheStore V}

theorem foldl_sadd_points (tags : List Tag) (id : Uuid)
    (store : CacheStore V) :
    (tags.foldl (fun store tag => store.sadd tag id) store).points =
      store.points := by
  induction tags generalizing store with
  | nil => rfl
  | cons tag rest ih => rw [List.foldl_cons, ih, CacheStore.sadd_points]

theorem mem_foldl_sadd (tags : List Tag) (id member : Uuid) (tag : Tag)
    (store : CacheStore V) :
    member ∈ (tags.foldl (fun store tag => store.sadd tag id) store).members tag ↔
      (tag ∈ tags ∧ member = id) ∨ member ∈ store.members tag := by
  induction tags generalizing store with
  | nil => simp
  | cons head rest ih =>
      rw [List.foldl_cons, ih, CacheStore.mem_sadd, List.mem_cons]
      tauto

theorem mem_storeEntry :
    other ∈ (storeEntry point store).points ↔
      (other ∈ store.points ∧ other.id ≠ point.id) ∨ other = point := by
  rw [storeEntry, foldl_sadd_points, CacheStore.mem_upsert,
    CacheStore.ensureCollection_points]

theorem storeEntry_members {member : Uuid} {tag : Tag} :
    member ∈ (storeEntry point store).members tag ↔
      (tag ∈ point.payload.tags ∧ member = point.id) ∨
        member ∈ store.members tag := by
  rw [storeEntry, mem_foldl_sadd, CacheStore.upsert_members,
    CacheStore.ensureCollection_members]

/-- Eviction removes the members of the set and empties it. -/
theorem mem_evict {tag : Tag} :
    other ∈ (evict tag store).points ↔
      other ∈ store.points ∧ other.id ∉ store.members tag := by
  by_cases hempty : store.smembers tag = ∅
  · have hnone : store.members tag = ∅ := hempty
    simp [evict, hempty, hnone]
  · rw [evict, if_neg hempty, CacheStore.del_points, CacheStore.mem_deletePoints]
    rfl

theorem evict_members {tag other : Tag} {member : Uuid} :
    member ∈ (evict tag store).members other ↔
      other ≠ tag ∧ member ∈ store.members other := by
  by_cases hempty : store.smembers tag = ∅
  · have hnone : store.members tag = ∅ := hempty
    rw [evict, if_pos hempty]
    by_cases heq : other = tag
    · subst heq
      simp [hnone]
    · simp [heq]
  · rw [evict, if_neg hempty, CacheStore.mem_del, CacheStore.deletePoints_members]

theorem mem_purgeExpired {cutoff : ℚ}
    (hmem : other ∈ (purgeExpired cutoff store).points) : other ∈ store.points := by
  simp only [purgeExpired] at hmem
  split_ifs at hmem
  · exact hmem
  · exact hmem
  · exact (CacheStore.mem_deleteExpired.mp hmem).1

@[simp]
theorem purgeExpired_members {cutoff : ℚ} :
    (purgeExpired cutoff store).members = store.members := by
  simp only [purgeExpired]
  split_ifs <;> rfl

@[simp]
theorem lookup_store {now : ℚ} {allowed : Finset Uuid} {query : String}
    {state : CacheState V} :
    (lookup settings backend now allowed query state).2.store = state.store := by
  simp only [lookup]
  split_ifs <;> rfl

/-- The loop of `lookup` keeps the first candidate it may report. -/
theorem foldl_scanStep_hit {now : ℚ} {allowed : Finset Uuid}
    (response : List (ScoredPoint V)) (scan : Scan) :
    (response.foldl (scanStep settings now allowed) scan).hit =
      scan.hit.or ((response.find? fun scored =>
        Servable settings now allowed scored).map toHit) := by
  induction response generalizing scan with
  | nil => simp
  | cons scored rest ih =>
      rw [List.foldl_cons, ih]
      by_cases hstale : isStale settings now scored.point.payload
      · have hnot : ¬ Servable settings now allowed scored := fun h => h.1 hstale
        simp [scanStep, hstale, hnot]
      · by_cases hscope : scored.point.payload.collectionIds.toFinset ⊆ allowed
        · have hservable : Servable settings now allowed scored := ⟨hstale, hscope⟩
          cases hhit : scan.hit with
          | none => simp [scanStep, hstale, hscope, hservable, hhit]
          | some hit => simp [scanStep, hstale, hscope, hhit]
        · have hnot : ¬ Servable settings now allowed scored := fun h => hscope h.2
          simp [scanStep, hstale, hscope, hnot]

/-- What a lookup reports. -/
theorem lookup_eq_served {now : ℚ} {allowed : Finset Uuid} {query : String}
    {state : CacheState V} {hit : CacheHit}
    (hhit : (lookup settings backend now allowed query state).1 = some hit) :
    ∃ scored, served settings backend now allowed query state.store = some scored ∧
      hit = toHit scored := by
  simp only [lookup] at hhit
  split_ifs at hhit
  all_goals
    rw [foldl_scanStep_hit, Option.none_or] at hhit
    obtain ⟨scored, hscored, rfl⟩ := Option.map_eq_some_iff.mp hhit
    exact ⟨scored, hscored, rfl⟩

/-- The reported candidate is an entry with the hash of the asker's scope. -/
theorem served_mem {now : ℚ} {allowed : Finset Uuid} {query : String}
    {store : CacheStore V} {scored : ScoredPoint V}
    (hserved : served settings backend now allowed query store = some scored) :
    scored ∈ candidates settings backend store allowed query ∧
      scored.point ∈ store.points ∧
      scored.point.payload.scopeHash = scopeHash backend.sha256 allowed ∧
      Servable settings now allowed scored := by
  have hscored := List.mem_of_find?_eq_some hserved
  obtain ⟨hpoint, hfilter⟩ := backend.qdrant.queryPoints_exact _ _ _ _ _ scored hscored
  exact ⟨hscored, hpoint, by simpa using hfilter,
    by simpa using List.find?_some hserved⟩

/-- A hit is an entry of the cache with the hash of the asker's scope. -/
theorem lookup_hit {now : ℚ} {allowed : Finset Uuid} {query : String}
    {state : CacheState V} {hit : CacheHit}
    (hhit : (lookup settings backend now allowed query state).1 = some hit) :
    ∃ scored : ScoredPoint V,
      scored ∈ candidates settings backend state.store allowed query ∧
      scored.point ∈ state.store.points ∧ hit = toHit scored ∧
      scored.point.payload.scopeHash = scopeHash backend.sha256 allowed ∧
      ¬ isStale settings now scored.point.payload ∧
      scored.point.payload.collectionIds.toFinset ⊆ allowed := by
  obtain ⟨scored, hserved, heq⟩ := lookup_eq_served hhit
  obtain ⟨hscored, hpoint, hhash, hfresh, hscope⟩ := served_mem hserved
  exact ⟨scored, hscored, hpoint, heq, hhash, hfresh, hscope⟩

end Specs

end AgenticRag.Cache
