import AgenticRag.Graph.State
import Mathlib.Data.List.Sort

/-!
# Reciprocal-rank fusion

`rrf_merge` interleaves the ranked chunks and the ranked page hits.  The scores
are the exact rationals `1 / (k + rank)`.  The sort is stable and both inputs
are ranked, so each list keeps its own order inside the merged one.
-/

namespace AgenticRag.Fusion

/-- `FusedCandidate`; the kind is the side of the sum. -/
structure FusedCandidate where
  item : Chunk ⊕ PageHit
  rrfScore : ℚ
  deriving DecidableEq

def rrfScore (k index : ℕ) : ℚ :=
  1 / ((k + (index + 1) : ℕ) : ℚ)

/-- The candidates of one ranked list, best first. -/
def ranked {α : Type} (k : ℕ) (wrap : α → Chunk ⊕ PageHit) (items : List α) :
    List FusedCandidate :=
  items.mapIdx fun index item => ⟨wrap item, rrfScore k index⟩

/-- `rrf_merge`: sort by score, best first, text before pages on a tie. -/
def rrfMerge (k : ℕ) (chunks : List Chunk) (pages : List PageHit) :
    List FusedCandidate :=
  (ranked k Sum.inl chunks ++ ranked k Sum.inr pages).insertionSort
    fun left right => right.rrfScore ≤ left.rrfScore

def FusedCandidate.chunk? (candidate : FusedCandidate) : Option Chunk :=
  candidate.item.getLeft?

def FusedCandidate.page? (candidate : FusedCandidate) : Option PageHit :=
  candidate.item.getRight?

theorem rrfScore_antitone {k left right : ℕ} (hle : left ≤ right) :
    rrfScore k right ≤ rrfScore k left := by
  unfold rrfScore
  apply one_div_le_one_div_of_le
  · positivity
  · exact_mod_cast (by omega : k + (left + 1) ≤ k + (right + 1))

/-- A ranked list is already in merge order. -/
theorem ranked_pairwise {α : Type} (k : ℕ) (wrap : α → Chunk ⊕ PageHit)
    (items : List α) :
    (ranked k wrap items).Pairwise
      fun left right => right.rrfScore ≤ left.rrfScore := by
  rw [ranked, List.pairwise_iff_getElem]
  intro left right hleft hright hlt
  simp only [List.getElem_mapIdx]
  exact rrfScore_antitone hlt.le

private theorem filterMap_ranked {α β : Type} (k : ℕ)
    (wrap : α → Chunk ⊕ PageHit) (view : FusedCandidate → Option β)
    (read : α → Option β)
    (hview : ∀ item score, view ⟨wrap item, score⟩ = read item)
    (items : List α) :
    (ranked k wrap items).filterMap view = items.filterMap read := by
  rw [ranked, List.mapIdx_eq_zipIdx_map, List.filterMap_map]
  have hcomp : (view ∘ fun pair : α × ℕ =>
      (⟨wrap pair.1, rrfScore k pair.2⟩ : FusedCandidate)) =
      read ∘ Prod.fst := by
    funext pair
    exact hview _ _
  change (items.zipIdx 0).filterMap (view ∘ fun pair : α × ℕ =>
      (⟨wrap pair.1, rrfScore k pair.2⟩ : FusedCandidate)) = _
  rw [hcomp, ← List.filterMap_map, List.zipIdx_map_fst]

/-- Selecting one side of the merged list gives that input back, in order:
its ranked list survives the stable sort as a sublist, and the merge is a
permutation. -/
private theorem filterMap_rrfMerge {β : Type} (k : ℕ) (chunks : List Chunk)
    (pages : List PageHit) (view : FusedCandidate → Option β)
    (side : List FusedCandidate) (values : List β)
    (hside : side.Pairwise fun left right => right.rrfScore ≤ left.rrfScore)
    (hsub : side.Sublist (ranked k Sum.inl chunks ++ ranked k Sum.inr pages))
    (hvalues : side.filterMap view = values)
    (hall : (ranked k Sum.inl chunks ++
      ranked k Sum.inr pages).filterMap view = values) :
    (rrfMerge k chunks pages).filterMap view = values := by
  have hsorted : side.Sublist (rrfMerge k chunks pages) :=
    List.sublist_insertionSort hside hsub
  have hperm : ((rrfMerge k chunks pages).filterMap view).Perm values := by
    rw [← hall]
    exact (List.perm_insertionSort _ _).filterMap view
  have hsubValues := hsorted.filterMap view
  rw [hvalues] at hsubValues
  exact (hsubValues.eq_of_length hperm.length_eq.symm).symm

theorem rrfMerge_filterMap_page (k : ℕ) (chunks : List Chunk)
    (pages : List PageHit) :
    (rrfMerge k chunks pages).filterMap FusedCandidate.page? = pages := by
  have hpages : (ranked k Sum.inr pages).filterMap FusedCandidate.page? = pages := by
    rw [filterMap_ranked k Sum.inr FusedCandidate.page? some (fun _ _ => rfl)]
    simp
  have hchunks : (ranked k Sum.inl chunks).filterMap FusedCandidate.page? = [] := by
    rw [filterMap_ranked k Sum.inl FusedCandidate.page? (fun _ => none)
      (fun _ _ => rfl)]
    simp
  refine filterMap_rrfMerge k chunks pages _ _ pages (ranked_pairwise k Sum.inr pages)
    (List.sublist_append_right _ _) hpages ?_
  rw [List.filterMap_append, hchunks, hpages, List.nil_append]

theorem rrfMerge_filterMap_chunk (k : ℕ) (chunks : List Chunk)
    (pages : List PageHit) :
    (rrfMerge k chunks pages).filterMap FusedCandidate.chunk? = chunks := by
  have hchunks : (ranked k Sum.inl chunks).filterMap FusedCandidate.chunk? =
      chunks := by
    rw [filterMap_ranked k Sum.inl FusedCandidate.chunk? some (fun _ _ => rfl)]
    simp
  have hpages : (ranked k Sum.inr pages).filterMap FusedCandidate.chunk? = [] := by
    rw [filterMap_ranked k Sum.inr FusedCandidate.chunk? (fun _ => none)
      (fun _ _ => rfl)]
    simp
  refine filterMap_rrfMerge k chunks pages _ _ chunks
    (ranked_pairwise k Sum.inl chunks) (List.sublist_append_left _ _) hchunks ?_
  rw [List.filterMap_append, hchunks, hpages, List.append_nil]

end AgenticRag.Fusion
