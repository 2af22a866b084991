import AgenticRag.Context.Fusion
import AgenticRag.Settings

/-!
# The context assembler

The last gate before the generator: re-check of the collection, token budget,
image budget.  `assemble` walks the fused candidates once.  The lemmas describe
its result on the two inputs: which chunks can be packed, and exactly which page
hits are handed over as images.
-/

namespace AgenticRag.Assembler

open AgenticRag.Fusion

/-- `estimate_tokens`: `max(1, round(len(text) / 3.8))` in exact rationals.  A
tie cannot occur, so `round` is rounding half up. -/
def estimateTokens (text : String) : ℕ :=
  max 1 ((10 * text.length + 19) / 38)

/-- `_truncate_to_budget`: `text[: int(budget_tokens * 3.8)]` -/
def truncateToBudget (text : String) (budgetTokens : ℕ) : String :=
  String.ofList (text.toList.take (budgetTokens * 19 / 5))

structure AssembledImage where
  documentId : Uuid
  pageNumber : ℕ
  imageUri : String
  b64 : String
  fileName : Option String
  deriving DecidableEq

structure AssembledContext where
  blocks : List String := []
  packedChunks : List Chunk := []
  images : List AssembledImage := []
  tokenCount : ℕ := 0
  droppedAcl : ℕ := 0
  droppedBudget : ℕ := 0
  deriving DecidableEq

/-- `_acl_ok` on the collection of a candidate. -/
def aclOk (collectionId : Uuid) (allowed : Finset Uuid) : Bool :=
  collectionId ∈ allowed

/-- `_load_image_b64`: `objectStore` is the base64 text of an object, `none`
when it cannot be read. -/
def loadImageB64 (objectStore : String → Option String) (hit : PageHit) :
    Option String :=
  if hit.imageUri = "" then none else objectStore hit.imageUri

def toImage (hit : PageHit) (b64 : String) : AssembledImage where
  documentId := hit.documentId
  pageNumber := hit.pageNumber
  imageUri := hit.imageUri
  b64 := b64
  fileName := hit.fileName

/-- The branch of the loop that handles a page hit inside the scope. -/
def takePage (objectStore : String → Option String) (maxImages : ℕ)
    (out : AssembledContext) (hit : PageHit) : AssembledContext :=
  if maxImages ≤ out.images.length then
    { out with droppedBudget := out.droppedBudget + 1 }
  else
    match loadImageB64 objectStore hit with
    | none => out
    | some b64 => { out with images := out.images ++ [toImage hit b64] }

/-- The branch of the loop that handles a chunk inside the scope. -/
def takeChunk (tokenBudget : ℕ) (out : AssembledContext) (chunk : Chunk) :
    AssembledContext :=
  let cost := estimateTokens chunk.content
  if tokenBudget < out.tokenCount + cost then
    if out.packedChunks = [] ∧ chunk.content ≠ "" then
      -- First block bigger than the whole budget: truncate, don't starve.
      let content := truncateToBudget chunk.content tokenBudget
      { out with
        blocks := out.blocks ++ [content]
        packedChunks := out.packedChunks ++ [{ chunk with content := content }]
        tokenCount := estimateTokens content }
    else { out with droppedBudget := out.droppedBudget + 1 }
  else
    { out with
      blocks := out.blocks ++ [chunk.content]
      packedChunks := out.packedChunks ++ [chunk]
      tokenCount := out.tokenCount + cost }

/-- One iteration of the loop over the fused candidates. -/
def assembleStep (objectStore : String → Option String) (allowed : Finset Uuid)
    (tokenBudget maxImages : ℕ) (out : AssembledContext)
    (candidate : FusedCandidate) : AssembledContext :=
  match candidate.item with
  | .inl chunk =>
      if aclOk chunk.collectionId allowed then takeChunk tokenBudget out chunk
      else { out with droppedAcl := out.droppedAcl + 1 }
  | .inr hit =>
      if aclOk hit.collectionId allowed then takePage objectStore maxImages out hit
      else { out with droppedAcl := out.droppedAcl + 1 }

/-- `assemble`.  A budget of `0` or no budget means the configured one; the
image limit is configured only when none is given. -/
def assemble (settings : Settings) (objectStore : String → Option String)
    (chunks : List Chunk) (pageHits : List PageHit) (allowed : Finset Uuid)
    (tokenBudget maxImages : Option ℕ) : AssembledContext :=
  let budget := match tokenBudget with
    | none | some 0 => settings.contextTokenBudget
    | some budget => budget
  let limit := maxImages.getD settings.contextMaxImages
  (rrfMerge settings.fusionRrfK chunks pageHits).foldl
    (assembleStep objectStore allowed budget limit) {}

section Loop

variable {objectStore : String → Option String} {allowed : Finset Uuid}
variable {tokenBudget maxImages : ℕ}

/-! ## Packed chunks -/

/-- A packed chunk is an input chunk up to truncation of its text. -/
def PackedFrom (chunks : List Chunk) (packed : Chunk) : Prop :=
  ∃ chunk ∈ chunks, ∃ content, packed = { chunk with content := content }

theorem takeChunk_packedChunks {out : AssembledContext} {chunk packed : Chunk}
    (hpacked : packed ∈ (takeChunk tokenBudget out chunk).packedChunks) :
    packed ∈ out.packedChunks ∨
      ∃ content, packed = { chunk with content := content } := by
  simp only [takeChunk] at hpacked
  split_ifs at hpacked
  · rcases List.mem_append.mp hpacked with hold | hnew
    · exact Or.inl hold
    · exact Or.inr ⟨_, List.mem_singleton.mp hnew⟩
  · exact Or.inl hpacked
  · rcases List.mem_append.mp hpacked with hold | hnew
    · exact Or.inl hold
    · exact Or.inr ⟨chunk.content, List.mem_singleton.mp hnew⟩

@[simp]
theorem takePage_packedChunks (out : AssembledContext) (hit : PageHit) :
    (takePage objectStore maxImages out hit).packedChunks = out.packedChunks := by
  unfold takePage
  split_ifs
  · rfl
  · split <;> rfl

@[simp]
theorem takeChunk_images (out : AssembledContext) (chunk : Chunk) :
    (takeChunk tokenBudget out chunk).images = out.images := by
  simp only [takeChunk]
  split_ifs <;> rfl

/-- What one iteration can pack. -/
theorem assembleStep_packedChunks {out : AssembledContext}
    {candidate : FusedCandidate} {packed : Chunk}
    (hpacked : packed ∈ (assembleStep objectStore allowed tokenBudget maxImages
      out candidate).packedChunks) :
    packed ∈ out.packedChunks ∨
      ∃ chunk, candidate.chunk? = some chunk ∧ chunk.collectionId ∈ allowed ∧
        ∃ content, packed = { chunk with content := content } := by
  obtain ⟨item, score⟩ := candidate
  cases item with
  | inl chunk =>
      simp only [assembleStep] at hpacked
      split_ifs at hpacked with hacl
      · rcases takeChunk_packedChunks hpacked with hold | hnew
        · exact Or.inl hold
        · exact Or.inr ⟨chunk, rfl, of_decide_eq_true hacl, hnew⟩
      · exact Or.inl hpacked
  | inr hit =>
      simp only [assembleStep] at hpacked
      split_ifs at hpacked
      · exact Or.inl (by simpa using hpacked)
      · exact Or.inl hpacked

private theorem foldl_packedChunks (candidates : List FusedCandidate)
    {out : AssembledContext} {packed : Chunk}
    (hpacked : packed ∈ (candidates.foldl
      (assembleStep objectStore allowed tokenBudget maxImages) out).packedChunks) :
    packed ∈ out.packedChunks ∨
      ∃ chunk ∈ candidates.filterMap FusedCandidate.chunk?,
        chunk.collectionId ∈ allowed ∧
          ∃ content, packed = { chunk with content := content } := by
  induction candidates generalizing out with
  | nil => exact Or.inl hpacked
  | cons candidate rest ih =>
      rcases ih hpacked with hstep | ⟨chunk, hmem, hchunk⟩
      · rcases assembleStep_packedChunks hstep with hold | ⟨chunk, hview, hchunk⟩
        · exact Or.inl hold
        · exact Or.inr ⟨chunk, List.mem_filterMap.mpr ⟨candidate, by simp, hview⟩,
            hchunk⟩
      · refine Or.inr ⟨chunk, ?_, hchunk⟩
        obtain ⟨other, hother, hview⟩ := List.mem_filterMap.mp hmem
        exact List.mem_filterMap.mpr
          ⟨other, List.mem_cons_of_mem _ hother, hview⟩

/-- The blocks of the prompt are the texts of the packed chunks, in order. -/
theorem assembleStep_blocks {out : AssembledContext} (candidate : FusedCandidate)
    (haligned : out.blocks = out.packedChunks.map (·.content)) :
    (assembleStep objectStore allowed tokenBudget maxImages out candidate).blocks =
      (assembleStep objectStore allowed tokenBudget maxImages out
        candidate).packedChunks.map (·.content) := by
  obtain ⟨item, score⟩ := candidate
  cases item with
  | inl chunk =>
      simp only [assembleStep, takeChunk]
      split_ifs <;> simp [haligned]
  | inr hit =>
      simp only [assembleStep, takePage]
      split_ifs
      · exact haligned
      · split <;> exact haligned
      · exact haligned

private theorem foldl_blocks (candidates : List FusedCandidate) {out : AssembledContext}
    (haligned : out.blocks = out.packedChunks.map (·.content)) :
    (candidates.foldl
      (assembleStep objectStore allowed tokenBudget maxImages) out).blocks =
      (candidates.foldl (assembleStep objectStore allowed tokenBudget maxImages)
        out).packedChunks.map (·.content) := by
  induction candidates generalizing out with
  | nil => exact haligned
  | cons candidate rest ih => exact ih (assembleStep_blocks candidate haligned)

/-! ## Images -/

/-- The page hits the loop can turn into an image. -/
def usable (objectStore : String → Option String) (allowed : Finset Uuid)
    (hit : PageHit) : Bool :=
  aclOk hit.collectionId allowed && (loadImageB64 objectStore hit).isSome

/-- The page hits whose images are handed to the generator. -/
def loadedPages (objectStore : String → Option String) (allowed : Finset Uuid)
    (maxImages : ℕ) (pageHits : List PageHit) : List PageHit :=
  (pageHits.filter (usable objectStore allowed)).take maxImages

/-- The image of a usable page hit. -/
def imageOf (objectStore : String → Option String) (hit : PageHit) :
    Option AssembledImage :=
  (loadImageB64 objectStore hit).map (toImage hit)

theorem assembleStep_images (out : AssembledContext) (candidate : FusedCandidate) :
    (assembleStep objectStore allowed tokenBudget maxImages out candidate).images =
      out.images ++ ((candidate.page?.toList.filter
        (usable objectStore allowed)).take (maxImages - out.images.length)).filterMap
          (imageOf objectStore) := by
  obtain ⟨item, score⟩ := candidate
  cases item with
  | inl chunk =>
      simp only [assembleStep, FusedCandidate.page?, Sum.getRight?_inl,
        Option.toList_none, List.filter_nil, List.take_nil, List.filterMap_nil,
        List.append_nil]
      split_ifs <;> simp
  | inr hit =>
      simp only [assembleStep, FusedCandidate.page?, Sum.getRight?_inr,
        Option.toList_some]
      by_cases hacl : aclOk hit.collectionId allowed = true
      · rw [if_pos hacl, takePage]
        by_cases hfull : maxImages ≤ out.images.length
        · simp [hfull]
        · obtain ⟨room, hroom⟩ : ∃ room, maxImages - out.images.length = room + 1 :=
            ⟨maxImages - out.images.length - 1, by omega⟩
          cases hload : loadImageB64 objectStore hit with
          | none => simp [hfull, usable, hload]
          | some b64 => simp [hfull, usable, hacl, hload, imageOf, hroom]
      · simp [hacl, usable]

private theorem foldl_images (candidates : List FusedCandidate)
    {out : AssembledContext} :
    (candidates.foldl
      (assembleStep objectStore allowed tokenBudget maxImages) out).images =
      out.images ++ (((candidates.filterMap FusedCandidate.page?).filter
        (usable objectStore allowed)).take (maxImages - out.images.length)).filterMap
          (imageOf objectStore) := by
  induction candidates generalizing out with
  | nil => simp
  | cons candidate rest ih =>
      rw [List.foldl_cons, ih, assembleStep_images]
      cases hpage : candidate.page? with
      | none => simp [hpage]
      | some hit =>
          by_cases huse : usable objectStore allowed hit = true
          · obtain ⟨b64, hload⟩ : ∃ b64, loadImageB64 objectStore hit = some b64 := by
              rw [usable, Bool.and_eq_true] at huse
              exact Option.isSome_iff_exists.mp huse.2
            by_cases hfull : maxImages ≤ out.images.length
            · simp [hpage, huse,
                Nat.sub_eq_zero_of_le hfull]
            · obtain ⟨room, hroom⟩ :
                  ∃ room, maxImages - out.images.length = room + 1 :=
                ⟨maxImages - out.images.length - 1, by omega⟩
              have hrest : maxImages - (out.images.length + 1) = room := by omega
              simp [hpage, huse, hroom, imageOf, hload, hrest]
          · simp [hpage, huse]

end Loop

section Result

variable {settings : Settings} {objectStore : String → Option String}
variable {chunks : List Chunk} {pageHits : List PageHit} {allowed : Finset Uuid}
variable {tokenBudget maxImages : Option ℕ}

/-- Every packed chunk is an input chunk of a permitted collection. -/
theorem assemble_packedChunks {packed : Chunk}
    (hpacked : packed ∈ (assemble settings objectStore chunks pageHits allowed
      tokenBudget maxImages).packedChunks) :
    PackedFrom chunks packed ∧ packed.collectionId ∈ allowed := by
  rcases foldl_packedChunks _ hpacked with hnil | ⟨chunk, hmem, hscope, content, rfl⟩
  · simp at hnil
  · rw [rrfMerge_filterMap_chunk] at hmem
    exact ⟨⟨chunk, hmem, content, rfl⟩, hscope⟩

/-- Block and packed chunk have the same index. -/
theorem assemble_blocks :
    (assemble settings objectStore chunks pageHits allowed tokenBudget
      maxImages).blocks =
      (assemble settings objectStore chunks pageHits allowed tokenBudget
        maxImages).packedChunks.map (·.content) :=
  foldl_blocks _ rfl

/-- The images are those of the first readable page hits in scope, in ranked
order and up to the limit; the chunks have no influence. -/
theorem assemble_images :
    (assemble settings objectStore chunks pageHits allowed tokenBudget
      maxImages).images =
      (loadedPages objectStore allowed (maxImages.getD settings.contextMaxImages)
        pageHits).filterMap (imageOf objectStore) := by
  unfold assemble
  rw [foldl_images, rrfMerge_filterMap_page]
  rfl

theorem mem_loadedPages_scope {limit : ℕ} {hit : PageHit}
    (hhit : hit ∈ loadedPages objectStore allowed limit pageHits) :
    hit ∈ pageHits ∧ hit.collectionId ∈ allowed := by
  obtain ⟨hmem, huse⟩ := List.mem_filter.mp (List.mem_of_mem_take hhit)
  rw [usable, Bool.and_eq_true] at huse
  exact ⟨hmem, of_decide_eq_true huse.1⟩

end Result

end AgenticRag.Assembler
