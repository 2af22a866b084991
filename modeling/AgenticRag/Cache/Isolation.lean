import AgenticRag.Cache.SemanticCache

/-!
# Where a cache hit comes from

Over any sequence of calls, every entry of the cache was put there by a store
call after which none of its documents and collections was invalidated.  With an
injective scope hash, a hit therefore never crosses a permission boundary.
-/

namespace AgenticRag.Cache

section

variable {V : Type} {settings : Settings} {backend : Backend V}

/-- The entry was stored by one of the calls, and nothing invalidated it since. -/
def StoredBy (backend : Backend V) (calls : List Call) (point : Point V) : Prop :=
  ∃ before now entryId call after,
    calls = before ++ .store now entryId call :: after ∧
      point = entry backend now entryId call ∧
      (∀ documentId ∈ call.sourceDocumentIds,
        Call.invalidateDocument documentId ∉ after) ∧
      ∀ collectionId ∈ call.sourceCollectionIds,
        Call.invalidateCollection collectionId ∉ after

/-- Every entry is tagged and was stored without a later invalidation. -/
structure Sound (backend : Backend V) (calls : List Call)
    (store : CacheStore V) : Prop where
  tagged : Tagged store
  storedBy : ∀ point ∈ store.points, StoredBy backend calls point

/-- A call that does not invalidate the entry keeps its origin. -/
theorem StoredBy.snoc {calls : List Call} {point : Point V} {call : Call}
    (hstored : StoredBy backend calls point)
    (hdocument : ∀ documentId ∈ point.payload.documentIds,
      call ≠ .invalidateDocument documentId)
    (hcollection : ∀ collectionId ∈ point.payload.collectionIds,
      call ≠ .invalidateCollection collectionId) :
    StoredBy backend (calls ++ [call]) point := by
  obtain ⟨before, now, entryId, stored, after, rfl, rfl, hdocs, hcolls⟩ := hstored
  refine ⟨before, now, entryId, stored, after ++ [call], by simp, rfl, ?_, ?_⟩
  · intro documentId hmem happ
    rcases List.mem_append.mp happ with hold | hnew
    · exact hdocs documentId hmem hold
    · apply hdocument documentId (SortedSet.mem_ascending.mpr hmem)
      exact (List.mem_singleton.mp hnew).symm
  · intro collectionId hmem happ
    rcases List.mem_append.mp happ with hold | hnew
    · exact hcolls collectionId hmem hold
    · apply hcollection collectionId (SortedSet.mem_ascending.mpr hmem)
      exact (List.mem_singleton.mp hnew).symm

/-- A call that only removes points and leaves the sets alone. -/
theorem Sound.shrink {calls : List Call} {before after : CacheStore V} {call : Call}
    (hsound : Sound backend calls before)
    (hpoints : ∀ point ∈ after.points, point ∈ before.points)
    (hmembers : after.members = before.members)
    (hdocument : ∀ documentId, call ≠ .invalidateDocument documentId)
    (hcollection : ∀ collectionId, call ≠ .invalidateCollection collectionId) :
    Sound backend (calls ++ [call]) after where
  tagged := by
    intro point hpoint tag htag
    rw [hmembers]
    exact hsound.tagged point (hpoints point hpoint) tag htag
  storedBy := by
    intro point hpoint
    apply (hsound.storedBy point (hpoints point hpoint)).snoc
    · intro documentId _
      exact hdocument documentId
    · intro collectionId _
      exact hcollection collectionId

theorem Sound.store {calls : List Call} {store : CacheStore V}
    (hsound : Sound backend calls store) (now : ℚ) (entryId : Uuid)
    (call : StoreCall) :
    Sound backend (calls ++ [.store now entryId call])
      (storeEntry (entry backend now entryId call) store) where
  tagged := by
    intro point hpoint tag htag
    rw [storeEntry_members]
    rcases mem_storeEntry.mp hpoint with ⟨hold, _⟩ | rfl
    · exact Or.inr (hsound.tagged point hold tag htag)
    · exact Or.inl ⟨htag, rfl⟩
  storedBy := by
    intro point hpoint
    rcases mem_storeEntry.mp hpoint with ⟨hold, _⟩ | rfl
    · apply (hsound.storedBy point hold).snoc
      · intro _ _ heq
        cases heq
      · intro _ _ heq
        cases heq
    · exact ⟨calls, now, entryId, call, [], rfl, rfl, by simp, by simp⟩

/-- Eviction of a tag removes every entry that carries it, so the entries it
leaves behind are not affected by the invalidation. -/
theorem Sound.evict {calls : List Call} {store : CacheStore V} {call : Call}
    (hsound : Sound backend calls store) {tag : Tag}
    (hdocument : ∀ documentId, call = .invalidateDocument documentId →
      tag = .doc documentId)
    (hcollection : ∀ collectionId, call = .invalidateCollection collectionId →
      tag = .coll collectionId) :
    Sound backend (calls ++ [call]) (evict tag store) := by
  have hcarries : ∀ point ∈ (Cache.evict tag store).points,
      tag ∉ point.payload.tags := by
    intro point hpoint htag
    obtain ⟨hold, hgone⟩ := mem_evict.mp hpoint
    exact hgone (hsound.tagged point hold tag htag)
  constructor
  · intro point hpoint other hother
    rw [evict_members]
    refine ⟨?_, hsound.tagged point (mem_evict.mp hpoint).1 other hother⟩
    rintro rfl
    exact hcarries point hpoint hother
  · intro point hpoint
    apply (hsound.storedBy point (mem_evict.mp hpoint).1).snoc
    · intro documentId hmem heq
      apply hcarries point hpoint
      rw [hdocument documentId heq]
      exact Payload.doc_mem_tags.mpr hmem
    · intro collectionId hmem heq
      apply hcarries point hpoint
      rw [hcollection collectionId heq]
      exact Payload.coll_mem_tags.mpr hmem

theorem perform_sound {calls : List Call} {state : CacheState V}
    (hsound : Sound backend calls state.store) (call : Call) :
    Sound backend (calls ++ [call]) (perform settings backend state call).store := by
  cases call with
  | store now entryId call => exact hsound.store now entryId call
  | lookup now allowed query =>
      apply hsound.shrink
      · intro point hpoint
        rwa [perform, lookup_store] at hpoint
      · rw [perform, lookup_store]
      · intro _ heq
        cases heq
      · intro _ heq
        cases heq
  | invalidateDocument documentId =>
      apply hsound.evict
      · intro _ heq
        cases heq
        rfl
      · intro _ heq
        cases heq
  | invalidateCollection collectionId =>
      apply hsound.evict
      · intro _ heq
        cases heq
      · intro _ heq
        cases heq
        rfl
  | purgeExpired now =>
      apply hsound.shrink
      · intro point hpoint
        exact mem_purgeExpired hpoint
      · exact purgeExpired_members
      · intro _ heq
        cases heq
      · intro _ heq
        cases heq
  | settle =>
      apply hsound.shrink
      · intro point hpoint
        exact (CacheStore.mem_deletePoints.mp hpoint).1
      · rfl
      · intro _ heq
        cases heq
      · intro _ heq
        cases heq

theorem performAll_sound (calls : List Call) :
    Sound backend calls (performAll settings backend calls).store := by
  induction calls using List.reverseRecOn with
  | nil =>
      constructor
      · intro point hpoint
        cases hpoint
      · intro point hpoint
        cases hpoint
  | append_singleton calls call ih =>
      rw [performAll_snoc]
      exact perform_sound ih call

/-- A hit is the answer of a store call with the asker's own scope, made from
collections of that scope, not expired, and without an invalidation of one of
its documents or collections in between. -/
def HitJustified (settings : Settings) (calls : List Call) (now : ℚ)
    (allowed : Finset Uuid) (hit : CacheHit) : Prop :=
  ∃ before stored entryId call after,
    calls = before ++ .store stored entryId call :: after ∧
      hit.answer = call.answer ∧
      hit.queryText = call.query ∧
      hit.collectionIds = call.sourceCollectionIds ∧
      hit.documentIds = call.sourceDocumentIds ∧
      hit.citations = call.citations ∧
      entryScope call = allowed ∧
      call.sourceCollectionIds ⊆ allowed ∧
      now - stored ≤ settings.semanticCacheTtlS ∧
      (∀ documentId ∈ call.sourceDocumentIds,
        Call.invalidateDocument documentId ∉ after) ∧
      ∀ collectionId ∈ call.sourceCollectionIds,
        Call.invalidateCollection collectionId ∉ after

theorem toFinset_ascending (ids : Finset Uuid) :
    (SortedSet.ascending ids).toFinset = ids := by
  ext id
  simp

/-- Every answer a lookup serves was stored by a call before it, for exactly the scope of the
requester and from sources within it, is no older than the time to live, and no invalidation of
its documents or collections has come since. -/
theorem lookup_hit_justified
    (hsha256 : Set.InjOn backend.sha256 (Set.range scopeKey))
    (calls : List Call) {now : ℚ} {allowed : Finset Uuid} {query : String}
    {hit : CacheHit}
    (hhit : (lookup settings backend now allowed query
      (performAll settings backend calls)).1 = some hit) :
    HitJustified settings calls now allowed hit := by
  obtain ⟨scored, _, hpoint, rfl, hhash, hfresh, hscope⟩ := lookup_hit hhit
  obtain ⟨before, stored, entryId, call, after, hcalls, hentry, hdocs, hcolls⟩ :=
    (performAll_sound calls).storedBy scored.point hpoint
  rw [hentry] at hhash hfresh hscope
  have hkeys : entryScope call = allowed := by
    apply scopeKey_injective
    exact hsha256 (Set.mem_range_self _) (Set.mem_range_self _) hhash
  have hsources : call.sourceCollectionIds ⊆ allowed := by
    rwa [entry, toFinset_ascending] at hscope
  have hage : now - stored ≤ settings.semanticCacheTtlS := not_lt.mp hfresh
  refine ⟨before, stored, entryId, call, after, hcalls, ?_, ?_, ?_, ?_, ?_, hkeys,
    hsources, hage, hdocs, hcolls⟩
  all_goals simp [toHit, hentry, entry, toFinset_ascending]

end

/-! ## A cache with exact matching -/

/-- A database that returns the points with the queried vector. -/
def exactQdrant (V : Type) [DecidableEq V] : Qdrant V where
  queryPoints points query filter limit _ :=
    ((points.filter fun point => point.vector = query && filter point).take limit).map
      fun point => ⟨point, 1⟩
  queryPoints_exact := by
    intro points query filter limit threshold scored hscored
    obtain ⟨point, hpoint, rfl⟩ := List.mem_map.mp hscored
    have hmem := List.mem_filter.mp (List.mem_of_mem_take hpoint)
    exact ⟨hmem.1, ((Bool.and_eq_true _ _).mp hmem.2).2⟩

/-- Texts are their own hash and their own vector. -/
def exactBackend : Backend String where
  sha256 := id
  embedDense := id
  qdrant := exactQdrant String

theorem lookup_hit_justified_repeated :
    ∃ hit, (lookup {} exactBackend 60 {7} "Wer leitet das Bauamt?"
        (performAll {} exactBackend
          [.store 0 20 ⟨"Wer leitet das Bauamt?", "Frau Weber [1].", {7}, {1}, some {7},
            []⟩])).1 = some hit ∧
      HitJustified {} [.store 0 20 ⟨"Wer leitet das Bauamt?", "Frau Weber [1].", {7}, {1},
        some {7}, []⟩] 60 {7} hit := by
  have hsome : (lookup {} exactBackend 60 {7} "Wer leitet das Bauamt?"
      (performAll {} exactBackend
        [.store 0 20 ⟨"Wer leitet das Bauamt?", "Frau Weber [1].", {7}, {1}, some {7},
          []⟩])).1.isSome := by
    decide +kernel
  obtain ⟨hit, hhit⟩ := Option.isSome_iff_exists.mp hsome
  exact ⟨hit, hhit, lookup_hit_justified (Function.injective_id.injOn) _ hhit⟩

end AgenticRag.Cache
