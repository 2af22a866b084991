import AgenticRag.Cache.Isolation

/-!
# A store that raises

`store` writes the point of an entry and then its tags, in two databases without a
common transaction, and `cache_writer` swallows whatever it raises.  The command that
raises may have taken effect: a write whose answer is lost, or a pipeline of which
some commands were refused.
-/

namespace AgenticRag.Cache

/-- The step of `store` that raises, and what it did before. -/
inductive RaisedAt where
  /-- One of the calls of `ensure_collection`; the collection may be there now. -/
  | ensureCollection (created : Bool)
  | embedDense
  | upsert (written : Bool)
  /-- The pipeline, with the `SADD`s that were executed. -/
  | pipeline (added : Tag → Bool)

/-- The point of the entry is in the collection when the exception leaves `store`. -/
def RaisedAt.written : RaisedAt → Bool
  | .ensureCollection _ | .embedDense => false
  | .upsert written => written
  | .pipeline _ => true

/-- The `SADD`s of the entry that have been executed by then. -/
def RaisedAt.added : RaisedAt → Tag → Bool
  | .ensureCollection _, _ | .embedDense, _ | .upsert _, _ => false
  | .pipeline added, tag => added tag

section Raised

variable {V : Type} (settings : Settings) (backend : Backend V)

/-- The stores after a `store` that raises. -/
def raisedStore (point : Point V) (store : CacheStore V) : RaisedAt → CacheStore V
  | .ensureCollection created => if created then store.ensureCollection else store
  | .embedDense => store.ensureCollection
  | .upsert written =>
      if written then store.ensureCollection.upsert point else store.ensureCollection
  | .pipeline added =>
      (point.payload.tags.filter added).foldl (fun store tag => store.sadd tag point.id)
        (store.ensureCollection.upsert point)

/-- From the given time on some lookup may report the entry. -/
def CouldServe (now : ℚ) (point : Point V) : Prop :=
  ∃ later allowed score, now ≤ later ∧
    point.payload.scopeHash = scopeHash backend.sha256 allowed ∧
    Servable settings later allowed ⟨point, score⟩

/-- The entry could be served and is missing from the set of one of its tags. -/
def OutOfReach (now : ℚ) (store : CacheStore V) (point : Point V) : Prop :=
  point ∈ store.points ∧ CouldServe settings backend now point ∧
    ∃ tag ∈ point.payload.tags, point.id ∉ store.members tag

/-- The exception is raised between the point and the last of its tags, and the point
is one that could be served. -/
def LeavesUntagged (now : ℚ) (point : Point V) (store : CacheStore V) (raised : RaisedAt) :
    Prop :=
  raised.written = true ∧ CouldServe settings backend now point ∧
    ∃ tag ∈ point.payload.tags, raised.added tag = false ∧ point.id ∉ store.members tag

variable {settings backend} {point other : Point V} {store : CacheStore V}
variable {raised : RaisedAt}

theorem mem_raisedStore :
    other ∈ (raisedStore point store raised).points ↔
      if raised.written then (other ∈ store.points ∧ other.id ≠ point.id) ∨ other = point
      else other ∈ store.points := by
  cases raised with
  | ensureCollection created => cases created <;> simp [raisedStore, RaisedAt.written]
  | embedDense => simp [raisedStore, RaisedAt.written]
  | upsert written => cases written <;> simp [raisedStore, RaisedAt.written]
  | pipeline added => simp [raisedStore, RaisedAt.written, foldl_sadd_points]

theorem raisedStore_members {member : Uuid} {tag : Tag} :
    member ∈ (raisedStore point store raised).members tag ↔
      (tag ∈ point.payload.tags ∧ raised.added tag = true ∧ member = point.id) ∨
        member ∈ store.members tag := by
  cases raised with
  | ensureCollection created => cases created <;> simp [raisedStore, RaisedAt.added]
  | embedDense => simp [raisedStore, RaisedAt.added]
  | upsert written => cases written <;> simp [raisedStore, RaisedAt.added]
  | pipeline added =>
      rw [raisedStore, mem_foldl_sadd, List.mem_filter]
      simp [RaisedAt.added, and_assoc]

/-- An entry whose sources lie in the scope it is stored under can be served. -/
theorem couldServe_entry {now : ℚ} {entryId : Uuid} {call : StoreCall}
    (hsources : call.sourceCollectionIds ⊆ entryScope call) :
    CouldServe settings backend now (entry backend now entryId call) := by
  refine ⟨now, entryScope call, 0, le_refl now, rfl, ?_, ?_⟩
  · simp [isStale, entry]
  · simpa [entry, toFinset_ascending] using hsources

/-- A `store` that raises leaves an entry that could be served and that some
invalidation cannot reach exactly when it raises between the point and the last of its
tags. -/
theorem raisedStore_reachable_iff {now : ℚ} {entryId : Uuid} {call : StoreCall}
    (hfresh : ∀ other ∈ store.points, other.id ≠ entryId) :
    (∀ other, OutOfReach settings backend now
        (raisedStore (entry backend now entryId call) store raised) other →
      OutOfReach settings backend now store other) ↔
    ¬ LeavesUntagged settings backend now (entry backend now entryId call) store raised := by
  constructor
  · rintro hclean ⟨hwritten, hserve, tag, htag, hrefused, hmissing⟩
    have hout : OutOfReach settings backend now
        (raisedStore (entry backend now entryId call) store raised)
        (entry backend now entryId call) := by
      refine ⟨?_, hserve, tag, htag, ?_⟩
      · rw [mem_raisedStore, if_pos hwritten]
        exact Or.inr rfl
      · rw [raisedStore_members, hrefused]
        simpa using hmissing
    exact hfresh _ (hclean _ hout).1 rfl
  · rintro hlast other ⟨hmem, hserve, tag, htag, hmissing⟩
    rw [raisedStore_members, not_or] at hmissing
    rw [mem_raisedStore] at hmem
    split_ifs at hmem with hwritten
    · rcases hmem with ⟨hold, _⟩ | rfl
      · exact ⟨hold, hserve, tag, htag, hmissing.2⟩
      · refine absurd ⟨hwritten, hserve, tag, htag, ?_, hmissing.2⟩ hlast
        by_contra hadded
        exact hmissing.1 ⟨htag, by simpa using hadded, rfl⟩
    · exact ⟨hmem, hserve, tag, htag, hmissing.2⟩

end Raised

/-! ## Redis fails behind the upsert -/

/-- An answer from document 1 of collection 7, for a user of that collection. -/
def bauamtCall : StoreCall where
  query := "Wer leitet das Bauamt?"
  answer := "Frau Weber [1]."
  sourceCollectionIds := {7}
  sourceDocumentIds := {1}
  requesterScope := some {7}
  citations := []

/-- The answer has been stored once already. -/
def filledStore : CacheStore String :=
  storeEntry (entry exactBackend 0 19 bauamtCall) {}

/-- Of the second store only the tag of the document is written. -/
theorem raisedStore_reachable_iff_filled :
    (∀ other, OutOfReach {} exactBackend 0
        (raisedStore (entry exactBackend 0 20 bauamtCall) filledStore
          (.pipeline fun tag => tag = .doc 1)) other →
      OutOfReach {} exactBackend 0 filledStore other) ↔
    ¬ LeavesUntagged {} exactBackend 0 (entry exactBackend 0 20 bauamtCall) filledStore
      (.pipeline fun tag => tag = .doc 1) :=
  raisedStore_reachable_iff (by decide)

/-- No tag is written, and the entry is served. -/
theorem raisedStore_not_reachable :
    ¬ ∀ (settings : Settings) (backend : Backend String) (now : ℚ) (entryId : Uuid)
        (call : StoreCall) (store : CacheStore String) (raised : RaisedAt),
      (∀ other ∈ store.points, other.id ≠ entryId) →
      ∀ other, OutOfReach settings backend now
          (raisedStore (entry backend now entryId call) store raised) other →
        OutOfReach settings backend now store other := by
  intro hclaim
  have hserve : CouldServe {} exactBackend 0 (entry exactBackend 0 20 bauamtCall) :=
    couldServe_entry (by decide)
  have hout := hclaim {} exactBackend 0 20 bauamtCall {} (.pipeline fun _ => false)
    (by simp) (entry exactBackend 0 20 bauamtCall)
    ⟨mem_raisedStore.mpr (Or.inr rfl), hserve, .doc 1, by decide, by decide⟩
  exact List.not_mem_nil hout.1

end AgenticRag.Cache
