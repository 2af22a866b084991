import AgenticRag.Context.Assembler
import AgenticRag.Core.Alternation

/-!
# The order of the fused candidates

Both lists are scored by rank alone, so `rrf_merge` takes their candidates in turn, text
first.  The damping constant shows in the scores and not in the order.
-/

namespace AgenticRag.Fusion

open AgenticRag.Alternation

theorem rrfScore_lt {k left right : ℕ} (hlt : left < right) :
    rrfScore k right < rrfScore k left := by
  unfold rrfScore
  apply one_div_lt_one_div_of_lt
  · positivity
  · exact_mod_cast (by omega : k + (left + 1) < k + (right + 1))

theorem rrfScore_succ (k index : ℕ) : rrfScore k (index + 1) = rrfScore (k + 1) index := by
  rw [rrfScore, rrfScore, Nat.add_right_comm k 1, Nat.add_assoc k]

/-- Behind its head a ranked list is one with a larger constant. -/
theorem ranked_cons {α : Type} (k : ℕ) (wrap : α → Chunk ⊕ PageHit) (item : α)
    (items : List α) :
    ranked k wrap (item :: items) = ⟨wrap item, rrfScore k 0⟩ :: ranked (k + 1) wrap items := by
  simp only [ranked, List.mapIdx_cons, rrfScore_succ]

theorem rrfScore_of_mem_ranked {α : Type} {k : ℕ} {wrap : α → Chunk ⊕ PageHit} {items : List α}
    {candidate : FusedCandidate} (hmem : candidate ∈ ranked (k + 1) wrap items) :
    candidate.rrfScore < rrfScore k 0 := by
  obtain ⟨index, hindex, hcandidate⟩ := List.mem_mapIdx.mp hmem
  rw [← hcandidate]
  calc rrfScore (k + 1) index = rrfScore k (index + 1) := (rrfScore_succ k index).symm
    _ < rrfScore k 0 := rrfScore_lt (Nat.succ_pos index)

/-- One turn: the best chunk, then the best page. -/
theorem rrfMerge_cons_cons (k : ℕ) (chunk : Chunk) (chunks : List Chunk) (page : PageHit)
    (pages : List PageHit) :
    rrfMerge k (chunk :: chunks) (page :: pages) =
      ⟨.inl chunk, rrfScore k 0⟩ :: ⟨.inr page, rrfScore k 0⟩ ::
        rrfMerge (k + 1) chunks pages := by
  rw [rrfMerge, ranked_cons, ranked_cons]
  exact @insertionSort_turn _ _ _ FusedCandidate.rrfScore _ _ _ _ rfl
    (fun _ hmem => rrfScore_of_mem_ranked hmem) fun _ hmem => rrfScore_of_mem_ranked hmem

theorem map_item_ranked {α : Type} (k : ℕ) (wrap : α → Chunk ⊕ PageHit) (items : List α) :
    (ranked k wrap items).map FusedCandidate.item = items.map wrap := by
  induction items generalizing k with
  | nil => rfl
  | cons item items ih => rw [ranked_cons, List.map_cons, List.map_cons, ih]

theorem map_item_rrfMerge (k : ℕ) (chunks : List Chunk) (pages : List PageHit) :
    (rrfMerge k chunks pages).map FusedCandidate.item = alternate chunks pages := by
  induction chunks generalizing k pages with
  | nil =>
    have hsorted : rrfMerge k [] pages = ranked k Sum.inr pages :=
      (ranked_pairwise k Sum.inr pages).insertionSort_eq
    rw [hsorted, map_item_ranked]
    rfl
  | cons chunk chunks ih =>
    cases pages with
    | nil =>
      have hsorted : rrfMerge k (chunk :: chunks) [] = ranked k Sum.inl (chunk :: chunks) := by
        rw [rrfMerge]
        exact (List.append_nil _).symm ▸ (ranked_pairwise k Sum.inl _).insertionSort_eq
      rw [hsorted, map_item_ranked]
      rfl
    | cons page pages =>
      rw [rrfMerge_cons_cons, List.map_cons, List.map_cons, ih]
      rfl

/-- The merged list of two ranked ones: in turn up to the shorter length, then the rest. -/
structure Interleaves (chunks : List Chunk) (pages : List PageHit) (k : ℕ)
    (merged : List FusedCandidate) : Prop where
  alternates : merged.map FusedCandidate.item =
    (chunks.zip pages).flatMap (fun pair => [.inl pair.1, .inr pair.2]) ++
      ((chunks.drop pages.length).map .inl ++ (pages.drop chunks.length).map .inr)
  complete : merged.Perm (ranked k Sum.inl chunks ++ ranked k Sum.inr pages)
  chunks_inOrder : merged.filterMap FusedCandidate.chunk? = chunks
  pages_inOrder : merged.filterMap FusedCandidate.page? = pages
  same_order : ∀ other, (rrfMerge other chunks pages).map FusedCandidate.item =
    merged.map FusedCandidate.item

/-- The merge takes turns, whatever the constant is. -/
theorem rrfMerge_interleaves (k : ℕ) (chunks : List Chunk) (pages : List PageHit) :
    Interleaves chunks pages k (rrfMerge k chunks pages) where
  alternates := (map_item_rrfMerge k chunks pages).trans (alternate_eq_zip chunks pages)
  complete := List.perm_insertionSort _ _
  chunks_inOrder := rrfMerge_filterMap_chunk k chunks pages
  pages_inOrder := rrfMerge_filterMap_page k chunks pages
  same_order other := by rw [map_item_rrfMerge, map_item_rrfMerge]

end AgenticRag.Fusion

namespace AgenticRag.Assembler

open AgenticRag.Alternation AgenticRag.Fusion

/-- The assembler takes chunks and page hits in turn and reads no scores. -/
theorem foldl_assembleStep (objectStore : String → Option String) (allowed : Finset Uuid)
    (budget limit k : ℕ) (chunks : List Chunk) (pageHits : List PageHit)
    (out : AssembledContext) :
    (rrfMerge k chunks pageHits).foldl (assembleStep objectStore allowed budget limit) out =
      (alternate chunks pageHits).foldl
        (fun out item => assembleStep objectStore allowed budget limit out ⟨item, 0⟩) out := by
  rw [← map_item_rrfMerge k, List.foldl_map]
  rfl

/-- The damping constant does not matter to the context. -/
theorem assemble_fusionRrfK (settings : Settings) (k : ℕ)
    (objectStore : String → Option String) (chunks : List Chunk) (pageHits : List PageHit)
    (allowed : Finset Uuid) (tokenBudget maxImages : Option ℕ) :
    assemble { settings with fusionRrfK := k } objectStore chunks pageHits allowed tokenBudget
        maxImages =
      assemble settings objectStore chunks pageHits allowed tokenBudget maxImages := by
  simp only [assemble, foldl_assembleStep]

end AgenticRag.Assembler
