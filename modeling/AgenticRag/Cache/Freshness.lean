import AgenticRag.Cache.Isolation
import AgenticRag.Core.Ranking

/-!
# Expired entries in front of a fresh one

The similarity search applies the scope and the threshold and answers with the five most
similar entries; whether an entry is fresh is only asked of these.  Of the database the
ranking is used, and its order among equally similar entries is open.
-/

namespace AgenticRag.Cache

open Ranking

variable {V : Type}

/-- What a search can answer with: the matching points and their scores. -/
def reaching (similarity : V → V → ℚ) (points : List (Point V)) (query : V)
    (filter : Point V → Bool) (threshold : ℚ) : List (ScoredPoint V) :=
  (points.filter fun point =>
    filter point && threshold ≤ similarity query point.vector).map fun point =>
      { point := point, score := similarity query point.vector }

/-- The database answers with the most similar matching points, best first. -/
def Qdrant.Ranks (qdrant : Qdrant V) (similarity : V → V → ℚ) : Prop :=
  ∀ points query filter limit threshold,
    Top ScoredPoint.score limit (reaching similarity points query filter threshold)
      (qdrant.queryPoints points query filter limit threshold)

theorem mem_reaching_iff {similarity : V → V → ℚ} {points : List (Point V)} {query : V}
    {filter : Point V → Bool} {threshold : ℚ} {scored : ScoredPoint V} :
    scored ∈ reaching similarity points query filter threshold ↔
      scored.point ∈ points ∧ filter scored.point = true ∧
        threshold ≤ similarity query scored.point.vector ∧
        scored.score = similarity query scored.point.vector := by
  rw [reaching, List.mem_map]
  constructor
  · rintro ⟨point, hpoint, rfl⟩
    rw [List.mem_filter, Bool.and_eq_true, decide_eq_true_eq] at hpoint
    exact ⟨hpoint.1, hpoint.2.1, hpoint.2.2, rfl⟩
  · rintro ⟨hpoint, hfilter, hreaches, hscore⟩
    refine ⟨scored.point, ?_, ?_⟩
    · rw [List.mem_filter, Bool.and_eq_true, decide_eq_true_eq]
      exact ⟨hpoint, hfilter, hreaches⟩
    · rw [← hscore]

section Lookup

variable (settings : Settings) (backend : Backend V) (similarity : V → V → ℚ)
variable (now : ℚ) (allowed : Finset Uuid) (query : String) (state : CacheState V)

/-- The similarity of an entry to the query. -/
def likeness (point : Point V) : ℚ :=
  similarity (backend.embedDense query) point.vector

/-- The entry has the hash of the scope, is within its lifetime and similar enough. -/
structure Fresh (point : Point V) : Prop where
  created : state.store.created = true
  stored : point ∈ state.store.points
  inScope : point.payload.scopeHash = scopeHash backend.sha256 allowed
  recent : ¬ isStale settings now point.payload
  similar : settings.semanticCacheSimilarity ≤ likeness backend similarity query point

/-- No fresh entry is more similar to the query. -/
structure MostSimilar (point : Point V) : Prop
    extends Fresh settings backend similarity now allowed query state point where
  most : ∀ other, Fresh settings backend similarity now allowed query state other →
    likeness backend similarity query other ≤ likeness backend similarity query point

/-- With a fresh entry in the cache the lookup hits, and the hit is a most similar one. -/
def FindsMostSimilar : Prop :=
  (∃ point, Fresh settings backend similarity now allowed query state point) →
    ∃ point, MostSimilar settings backend similarity now allowed query state point ∧
      (lookup settings backend now allowed query state).1 =
        some (toHit ⟨point, likeness backend similarity query point⟩)

/-- An entry of the scope that the lookup passes over, expired or with a source outside
of the scope, and that is at least as similar to the query as `point`. -/
def Hides (point other : Point V) : Prop :=
  other.payload.scopeHash = scopeHash backend.sha256 allowed ∧
    likeness backend similarity query point ≤ likeness backend similarity query other ∧
    ¬ (¬ isStale settings now other.payload ∧ other.payload.collectionIds.toFinset ⊆ allowed)

instance (point other : Point V) :
    Decidable (Hides settings backend similarity now allowed query point other) :=
  inferInstanceAs (Decidable (_ ∧ _ ∧ ¬ _))

/-- The query is embedded, and a most similar entry may be reported and has fewer than
five hiding entries. -/
def Uncovered : Prop :=
  PyString.isBlank query = false ∧
    ∃ point, MostSimilar settings backend similarity now allowed query state point ∧
      point.payload.collectionIds.toFinset ⊆ allowed ∧
      state.store.points.countP
        (Hides settings backend similarity now allowed query point) < 5

end Lookup

section Specs

variable {settings : Settings} {backend : Backend V} {similarity : V → V → ℚ}
variable {now : ℚ} {allowed : Finset Uuid} {query : String} {state : CacheState V}
variable {point : Point V}

/-- What the search of a lookup can answer with. -/
def reachingLookup (settings : Settings) (backend : Backend V) (similarity : V → V → ℚ)
    (allowed : Finset Uuid) (query : String) (state : CacheState V) :
    List (ScoredPoint V) :=
  reaching similarity state.store.points (backend.embedDense query)
    (fun point => point.payload.scopeHash = scopeHash backend.sha256 allowed)
    settings.semanticCacheSimilarity

theorem mem_reachingLookup_iff {scored : ScoredPoint V} :
    scored ∈ reachingLookup settings backend similarity allowed query state ↔
      scored.point ∈ state.store.points ∧
        scored.point.payload.scopeHash = scopeHash backend.sha256 allowed ∧
        settings.semanticCacheSimilarity ≤
          likeness backend similarity query scored.point ∧
        scored.score = likeness backend similarity query scored.point := by
  rw [reachingLookup, mem_reaching_iff, decide_eq_true_eq]
  rfl

/-- A fresh entry can be an answer of the search. -/
theorem Fresh.mem_reachingLookup
    (hfresh : Fresh settings backend similarity now allowed query state point) :
    ⟨point, likeness backend similarity query point⟩ ∈
      reachingLookup settings backend similarity allowed query state :=
  mem_reachingLookup_iff.mpr ⟨hfresh.stored, hfresh.inScope, hfresh.similar, rfl⟩

/-- What the search can answer with and the lookup may report is a fresh entry. -/
theorem fresh_of_mem_reachingLookup {scored : ScoredPoint V}
    (hcreated : state.store.created = true)
    (hscored : scored ∈ reachingLookup settings backend similarity allowed query state)
    (hservable : Servable settings now allowed scored) :
    Fresh settings backend similarity now allowed query state scored.point := by
  obtain ⟨hstored, hscope, hsimilar, -⟩ := mem_reachingLookup_iff.mp hscored
  exact {
    created := hcreated
    stored := hstored
    inScope := hscope
    recent := hservable.1
    similar := hsimilar }

theorem eq_scored_of_mem_reachingLookup {scored : ScoredPoint V}
    (hscored : scored ∈ reachingLookup settings backend similarity allowed query state) :
    scored = ⟨scored.point, likeness backend similarity query scored.point⟩ := by
  obtain ⟨-, -, -, hscore⟩ := mem_reachingLookup_iff.mp hscored
  rw [← hscore]

/-- Among what the search can answer with, the hiding entries are those ahead that the
lookup does not report. -/
theorem countP_ahead (hsimilar : settings.semanticCacheSimilarity ≤
      likeness backend similarity query point) :
    (reachingLookup settings backend similarity allowed query state).countP
        (ahead ScoredPoint.score (fun scored => Servable settings now allowed scored)
          (likeness backend similarity query point)) =
      state.store.points.countP
        (Hides settings backend similarity now allowed query point) := by
  rw [reachingLookup, reaching, List.countP_map, List.countP_filter]
  apply List.countP_congr
  intro other hother
  have hreaches : likeness backend similarity query point ≤
      likeness backend similarity query other →
      settings.semanticCacheSimilarity ≤ likeness backend similarity query other :=
    hsimilar.trans
  simp only [Function.comp_apply, ahead, Bool.and_eq_true, decide_eq_true_eq,
    Bool.not_eq_true', decide_eq_false_iff_not]
  unfold Servable Hides likeness at *
  tauto

/-- The result of a lookup that searches. -/
theorem lookup_eq (hquery : PyString.isBlank query = false)
    (hcreated : state.store.created = true) :
    (lookup settings backend now allowed query state).1 =
      ((candidates settings backend state.store allowed query).find? fun scored =>
        Servable settings now allowed scored).map toHit := by
  rw [lookup, if_neg (by simp [hquery, hcreated])]
  simp only [foldl_scanStep_hit, Option.none_or]

/-- Fewer than five hiding entries leave a place for the fresh one. -/
theorem Uncovered.finds (hranks : backend.qdrant.Ranks similarity)
    (huncovered : Uncovered settings backend similarity now allowed query state) :
    FindsMostSimilar settings backend similarity now allowed query state := by
  intro _
  obtain ⟨hquery, point, hpoint, hinside, hfew⟩ := huncovered
  have htop : Top ScoredPoint.score 5
      (reachingLookup settings backend similarity allowed query state)
      (candidates settings backend state.store allowed query) :=
    hranks _ _ _ _ _
  rw [← countP_ahead hpoint.similar] at hfew
  obtain ⟨found, hfound, hscore⟩ := htop.exists_find? hpoint.toFresh.mem_reachingLookup
    (decide_eq_true ⟨hpoint.recent, hinside⟩) hfew
  have hmem := htop.subset (List.mem_of_find?_eq_some hfound)
  have hservable : Servable settings now allowed found := by
    simpa using List.find?_some hfound
  have hfresh := fresh_of_mem_reachingLookup hpoint.created hmem hservable
  have heq := eq_scored_of_mem_reachingLookup hmem
  refine ⟨found.point, { toFresh := hfresh, most := ?_ }, ?_⟩
  · intro other hother
    calc likeness backend similarity query other
        ≤ likeness backend similarity query point := hpoint.most other hother
      _ ≤ found.score := hscore
      _ = likeness backend similarity query found.point := by rw [heq]
  · rw [lookup_eq hquery hpoint.created, hfound, Option.map_some, ← heq]

/-- A hit is an entry the lookup may report, with the score of the hit. -/
theorem servable_of_hit (hranks : backend.qdrant.Ranks similarity)
    (hhit : (lookup settings backend now allowed query state).1 =
      some (toHit ⟨point, likeness backend similarity query point⟩)) :
    PyString.isBlank query = false ∧ ∃ found : Point V,
      Fresh settings backend similarity now allowed query state found ∧
        found.payload.collectionIds.toFinset ⊆ allowed ∧
        likeness backend similarity query found =
          likeness backend similarity query point := by
  have hsearches : PyString.isBlank query = false ∧ state.store.created = true := by
    by_contra hnot
    have hskips : PyString.isBlank query = true ∨ state.store.created = false := by
      rw [not_and_or, Bool.not_eq_false, Bool.not_eq_true] at hnot
      exact hnot
    rw [lookup, if_pos hskips] at hhit
    cases hhit
  obtain ⟨hquery, hcreated⟩ := hsearches
  rw [lookup_eq hquery hcreated] at hhit
  obtain ⟨found, hfound, heq⟩ := Option.map_eq_some_iff.mp hhit
  have hmem : found ∈ reachingLookup settings backend similarity allowed query state :=
    (hranks _ _ _ _ _).subset (List.mem_of_find?_eq_some hfound)
  have hservable : Servable settings now allowed found := by
    simpa using List.find?_some hfound
  have hscore : found.score = likeness backend similarity query point :=
    congrArg CacheHit.score heq
  obtain ⟨-, -, -, hlikeness⟩ := mem_reachingLookup_iff.mp hmem
  exact ⟨hquery, found.point, fresh_of_mem_reachingLookup hcreated hmem hservable,
    hservable.2, hlikeness.symm.trans hscore⟩

/-- The database that prefers, of equally similar entries, the ones the lookup passes
over. -/
def adverseQdrant (settings : Settings) (similarity : V → V → ℚ) (now : ℚ)
    (allowed : Finset Uuid) : Qdrant V where
  queryPoints points query filter limit threshold :=
    adverse ScoredPoint.score (fun scored => Servable settings now allowed scored) limit
      (reaching similarity points query filter threshold)
  queryPoints_exact := by
    intro points query filter limit threshold scored hscored
    have hreaches := (adverse_top limit _).subset hscored
    obtain ⟨hpoint, hfilter, -⟩ := mem_reaching_iff.mp hreaches
    exact ⟨hpoint, hfilter⟩

theorem adverseQdrant_ranks (settings : Settings) (similarity : V → V → ℚ) (now : ℚ)
    (allowed : Finset Uuid) :
    (adverseQdrant settings similarity now allowed).Ranks similarity :=
  fun _ _ _ limit _ => adverse_top limit _

/-! ### The database is not part of what is fresh -/

section Databases

variable (qdrant : Qdrant V)

theorem fresh_qdrant_iff :
    Fresh settings { backend with qdrant := qdrant } similarity now allowed query state
        point ↔
      Fresh settings backend similarity now allowed query state point :=
  ⟨fun hfresh => { hfresh with }, fun hfresh => { hfresh with }⟩

theorem mostSimilar_qdrant_iff :
    MostSimilar settings { backend with qdrant := qdrant } similarity now allowed query
        state point ↔
      MostSimilar settings backend similarity now allowed query state point := by
  constructor
  · intro hmost
    exact {
      toFresh := (fresh_qdrant_iff qdrant).mp hmost.toFresh
      most := fun other hother => hmost.most other ((fresh_qdrant_iff qdrant).mpr hother) }
  · intro hmost
    exact {
      toFresh := (fresh_qdrant_iff qdrant).mpr hmost.toFresh
      most := fun other hother => hmost.most other ((fresh_qdrant_iff qdrant).mp hother) }

theorem uncovered_qdrant_iff :
    Uncovered settings { backend with qdrant := qdrant } similarity now allowed query
        state ↔
      Uncovered settings backend similarity now allowed query state := by
  simp only [Uncovered, mostSimilar_qdrant_iff]
  rfl

end Databases

/-- Five hiding entries fill the answer of the adverse database. -/
theorem lookup_adverse_eq_none
    (hadverse : backend.qdrant = adverseQdrant settings similarity now allowed)
    (hquery : PyString.isBlank query = false)
    (hpoint : MostSimilar settings backend similarity now allowed query state point)
    (hmany : 5 ≤ state.store.points.countP
      (Hides settings backend similarity now allowed query point)) :
    (lookup settings backend now allowed query state).1 = none := by
  have hanswer : candidates settings backend state.store allowed query =
      adverse ScoredPoint.score (fun scored => Servable settings now allowed scored) 5
        (reachingLookup settings backend similarity allowed query state) := by
    rw [candidates, hadverse]
    rfl
  have hmost : ∀ scored ∈ reachingLookup settings backend similarity allowed query state,
      decide (Servable settings now allowed scored) = true →
        scored.score ≤ likeness backend similarity query point := by
    intro scored hscored hservable
    have hfresh := fresh_of_mem_reachingLookup hpoint.created hscored
      (of_decide_eq_true hservable)
    rw [eq_scored_of_mem_reachingLookup hscored]
    exact hpoint.most scored.point hfresh
  rw [lookup_eq hquery hpoint.created, hanswer]
  rw [← countP_ahead hpoint.similar] at hmany
  rw [find?_adverse_eq_none hmost hmany, Option.map_none]

/-- What the adverse database finds has fewer than five hiding entries. -/
theorem uncovered_of_finds
    (hadverse : backend.qdrant = adverseQdrant settings similarity now allowed)
    (hfresh : ∃ point, Fresh settings backend similarity now allowed query state point)
    (hfinds : FindsMostSimilar settings backend similarity now allowed query state) :
    Uncovered settings backend similarity now allowed query state := by
  have hranks : backend.qdrant.Ranks similarity := by
    rw [hadverse]
    exact adverseQdrant_ranks settings similarity now allowed
  obtain ⟨point, hmost, hhit⟩ := hfinds hfresh
  obtain ⟨hquery, found, hfound, hinside, hlikeness⟩ := servable_of_hit hranks hhit
  have hfoundMost : MostSimilar settings backend similarity now allowed query state found :=
    { toFresh := hfound
      most := fun other hother => hlikeness ▸ hmost.most other hother }
  refine ⟨hquery, found, hfoundMost, hinside, ?_⟩
  by_contra hmany
  rw [lookup_adverse_eq_none hadverse hquery hfoundMost (not_lt.mp hmany)] at hhit
  cases hhit

/-- A lookup finds a most similar fresh entry, whatever the database does with equally
similar ones, exactly when such an entry has fewer than five hiding entries. -/
theorem lookup_finds_iff (settings : Settings) (backend : Backend V)
    (similarity : V → V → ℚ) (now : ℚ) (allowed : Finset Uuid) (query : String)
    (state : CacheState V) :
    (∀ qdrant : Qdrant V, qdrant.Ranks similarity →
        FindsMostSimilar settings { backend with qdrant := qdrant } similarity now allowed
          query state) ↔
      ((∃ point, Fresh settings backend similarity now allowed query state point) →
        Uncovered settings backend similarity now allowed query state) := by
  constructor
  · rintro hfinds ⟨point, hpoint⟩
    have hadverse := hfinds (adverseQdrant settings similarity now allowed)
      (adverseQdrant_ranks settings similarity now allowed)
    rw [← uncovered_qdrant_iff (adverseQdrant settings similarity now allowed)]
    exact uncovered_of_finds rfl ⟨point, (fresh_qdrant_iff _).mpr hpoint⟩ hadverse
  · rintro huncovered qdrant hranks ⟨point, hpoint⟩
    have hpoint' := (fresh_qdrant_iff qdrant).mp hpoint
    have hfinds := Uncovered.finds hranks
      ((uncovered_qdrant_iff qdrant).mpr (huncovered ⟨point, hpoint'⟩))
    exact hfinds ⟨point, hpoint⟩

/-! ### Five expired entries -/

/-- Texts are compared by their length. -/
def lengthBackend : Backend ℕ where
  sha256 := id
  embedDense := String.length
  qdrant := exactQdrant ℕ

def lengthSimilarity (left right : ℕ) : ℚ :=
  1 - ((max left right - min left right : ℕ) : ℚ) / 200

/-- Five answers to one question, asked at the same time, and a later one to a question
that is not similar enough to find them. -/
def expiredCalls : List Call :=
  [.store 0 1 ⟨"Wann öffnet das Rathaus?", "Um 8 Uhr [1].", {7}, {1}, some {7}, []⟩,
    .store 0 2 ⟨"Wann öffnet das Rathaus?", "Um 8 Uhr [1].", {7}, {1}, some {7}, []⟩,
    .store 0 3 ⟨"Wann öffnet das Rathaus?", "Um 8 Uhr [1].", {7}, {1}, some {7}, []⟩,
    .store 0 4 ⟨"Wann öffnet das Rathaus?", "Um 8 Uhr [1].", {7}, {1}, some {7}, []⟩,
    .store 0 5 ⟨"Wann öffnet das Rathaus?", "Um 8 Uhr [1].", {7}, {1}, some {7}, []⟩,
    .store 80000 6 ⟨"Wann öffnet heute mittag das Rathaus?", "Um 8 Uhr [1].", {7}, {1},
      some {7}, []⟩]

/-- A day after the five answers they are expired, and a question between the two finds
them in front of the later one. -/
theorem lookup_expired_hide :
    ¬ ∀ qdrant : Qdrant ℕ, qdrant.Ranks lengthSimilarity →
      FindsMostSimilar {} { lengthBackend with qdrant := qdrant } lengthSimilarity 86401
        {7} "Wann öffnet heute das Rathaus?" (performAll {} lengthBackend expiredCalls) := by
  intro hfinds
  set state := performAll {} lengthBackend expiredCalls
  set qdrant := adverseQdrant {} lengthSimilarity 86401 {7}
  have hstored : ∃ point ∈ state.store.points,
      point.payload.scopeHash = scopeHash id {7} ∧ ¬ isStale {} 86401 point.payload ∧
        (95 / 100 : ℚ) ≤ lengthSimilarity 30 point.vector := by
    decide +kernel
  have hmany : ∀ point ∈ state.store.points, ¬ isStale {} 86401 point.payload →
      5 ≤ state.store.points.countP (Hides {} { lengthBackend with qdrant := qdrant }
        lengthSimilarity 86401 {7} "Wann öffnet heute das Rathaus?" point) := by
    decide +kernel
  obtain ⟨point, hpoint, hscope, hrecent, hsimilar⟩ := hstored
  have hfresh : Fresh {} { lengthBackend with qdrant := qdrant } lengthSimilarity 86401 {7}
      "Wann öffnet heute das Rathaus?" state point :=
    { created := by decide +kernel
      stored := hpoint
      inScope := hscope
      recent := hrecent
      similar := hsimilar }
  have huncovered := uncovered_of_finds rfl ⟨point, hfresh⟩
    (hfinds qdrant (adverseQdrant_ranks _ _ _ _))
  obtain ⟨-, found, hfound, -, hfew⟩ := huncovered
  exact absurd (hmany found hfound.stored hfound.recent) (not_le.mpr hfew)

end Specs

end AgenticRag.Cache
