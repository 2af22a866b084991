import AgenticRag.Context.Assembler

/-!
# The two passes inside the assembler

The loop of `assemble` runs over one fused list, but no iteration on a chunk
reads what an iteration on a page hit has written, or the other way round.  So
the loop is a pass over the chunks in scope beside a pass over the page hits in
scope, whatever their interleaving.  The budgets are invariants of the passes.
-/

namespace AgenticRag.Assembler

open AgenticRag.Fusion

/-- The chunks `_acl_ok` lets through. -/
def chunksInScope (allowed : Finset Uuid) (chunks : List Chunk) : List Chunk :=
  chunks.filter fun chunk => aclOk chunk.collectionId allowed

/-- The page hits `_acl_ok` lets through. -/
def pagesInScope (allowed : Finset Uuid) (pageHits : List PageHit) : List PageHit :=
  pageHits.filter fun hit => aclOk hit.collectionId allowed

/-- The text pass: the chunks in scope, without the page hits between them. -/
def packText (tokenBudget : ℕ) (chunks : List Chunk) : AssembledContext :=
  chunks.foldl (takeChunk tokenBudget) {}

/-- The page pass. -/
def packPages (objectStore : String → Option String) (maxImages : ℕ)
    (pageHits : List PageHit) : AssembledContext :=
  pageHits.foldl (takePage objectStore maxImages) {}

/-- The token budget `assemble` works with. -/
def budgetOf (settings : Settings) : Option ℕ → ℕ
  | none | some 0 => settings.contextTokenBudget
  | some budget => budget

/-- The loop stands where the two passes stand; the drops of both add up. -/
structure Interleaves (out text pages : AssembledContext) : Prop where
  blocks : out.blocks = text.blocks
  packedChunks : out.packedChunks = text.packedChunks
  tokenCount : out.tokenCount = text.tokenCount
  images : out.images = pages.images
  droppedBudget : out.droppedBudget = text.droppedBudget + pages.droppedBudget

section Interleaving

variable {objectStore : String → Option String} {allowed : Finset Uuid}
variable {tokenBudget maxImages : ℕ} {out text pages : AssembledContext}

theorem Interleaves.takeChunk (hboth : Interleaves out text pages) (chunk : Chunk) :
    Interleaves (takeChunk tokenBudget out chunk) (takeChunk tokenBudget text chunk)
      pages := by
  obtain ⟨hblocks, hpacked, htokens, himages, hdropped⟩ := hboth
  simp only [Assembler.takeChunk, hpacked, htokens]
  split_ifs
  · exact ⟨by simp only [hblocks], rfl, rfl, himages, hdropped⟩
  · refine ⟨hblocks, rfl, rfl, himages, ?_⟩
    simp only [hdropped]
    omega
  · exact ⟨by simp only [hblocks], rfl, rfl, himages, hdropped⟩

theorem Interleaves.takePage (hboth : Interleaves out text pages) (hit : PageHit) :
    Interleaves (takePage objectStore maxImages out hit) text
      (takePage objectStore maxImages pages hit) := by
  obtain ⟨hblocks, hpacked, htokens, himages, hdropped⟩ := hboth
  simp only [Assembler.takePage, himages]
  split_ifs
  · refine ⟨hblocks, hpacked, htokens, rfl, ?_⟩
    simp only [hdropped]
    omega
  · cases loadImageB64 objectStore hit with
    | none => exact ⟨hblocks, hpacked, htokens, himages, hdropped⟩
    | some b64 => exact ⟨hblocks, hpacked, htokens, rfl, hdropped⟩

theorem Interleaves.droppedAcl (hboth : Interleaves out text pages) (dropped : ℕ) :
    Interleaves { out with droppedAcl := dropped } text pages :=
  ⟨hboth.blocks, hboth.packedChunks, hboth.tokenCount, hboth.images,
    hboth.droppedBudget⟩

/-- One iteration is an iteration of one of the passes, or of none. -/
theorem Interleaves.step (hboth : Interleaves out text pages)
    (candidate : FusedCandidate) :
    Interleaves (assembleStep objectStore allowed tokenBudget maxImages out candidate)
      ((chunksInScope allowed candidate.chunk?.toList).foldl
        (Assembler.takeChunk tokenBudget) text)
      ((pagesInScope allowed candidate.page?.toList).foldl
        (Assembler.takePage objectStore maxImages) pages) := by
  obtain ⟨item, score⟩ := candidate
  cases item with
  | inl chunk =>
      by_cases hacl : aclOk chunk.collectionId allowed = true
      · simpa [assembleStep, hacl, chunksInScope, pagesInScope, FusedCandidate.chunk?,
          FusedCandidate.page?] using hboth.takeChunk chunk
      · simpa [assembleStep, hacl, chunksInScope, pagesInScope, FusedCandidate.chunk?,
          FusedCandidate.page?] using hboth.droppedAcl (out.droppedAcl + 1)
  | inr hit =>
      by_cases hacl : aclOk hit.collectionId allowed = true
      · simpa [assembleStep, hacl, chunksInScope, pagesInScope, FusedCandidate.chunk?,
          FusedCandidate.page?] using hboth.takePage hit
      · simpa [assembleStep, hacl, chunksInScope, pagesInScope, FusedCandidate.chunk?,
          FusedCandidate.page?] using hboth.droppedAcl (out.droppedAcl + 1)

theorem filterMap_cons_chunk (candidate : FusedCandidate) (rest : List FusedCandidate) :
    (candidate :: rest).filterMap FusedCandidate.chunk? =
      candidate.chunk?.toList ++ rest.filterMap FusedCandidate.chunk? := by
  cases hview : candidate.chunk? <;> simp [hview]

theorem filterMap_cons_page (candidate : FusedCandidate) (rest : List FusedCandidate) :
    (candidate :: rest).filterMap FusedCandidate.page? =
      candidate.page?.toList ++ rest.filterMap FusedCandidate.page? := by
  cases hview : candidate.page? <;> simp [hview]

theorem Interleaves.foldl (candidates : List FusedCandidate)
    (hboth : Interleaves out text pages) :
    Interleaves
      (candidates.foldl (assembleStep objectStore allowed tokenBudget maxImages) out)
      ((chunksInScope allowed (candidates.filterMap FusedCandidate.chunk?)).foldl
        (Assembler.takeChunk tokenBudget) text)
      ((pagesInScope allowed (candidates.filterMap FusedCandidate.page?)).foldl
        (Assembler.takePage objectStore maxImages) pages) := by
  induction candidates generalizing out text pages with
  | nil => exact hboth
  | cons candidate rest ih =>
      rw [filterMap_cons_chunk, filterMap_cons_page, chunksInScope, pagesInScope, List.filter_append,
        List.filter_append, List.foldl_append, List.foldl_append]
      exact ih (hboth.step candidate)

end Interleaving

/-- `assemble` as its loop. -/
theorem assemble_eq_foldl (settings : Settings) (objectStore : String → Option String)
    (chunks : List Chunk) (pageHits : List PageHit) (allowed : Finset Uuid)
    (tokenBudget maxImages : Option ℕ) :
    assemble settings objectStore chunks pageHits allowed tokenBudget maxImages =
      (rrfMerge settings.fusionRrfK chunks pageHits).foldl
        (assembleStep objectStore allowed (budgetOf settings tokenBudget)
          (maxImages.getD settings.contextMaxImages)) {} := by
  cases tokenBudget with
  | none => rfl
  | some budget => cases budget <;> rfl

/-- The assembled context is the two passes over the inputs in scope, in their
ranked order. -/
theorem assemble_interleaves (settings : Settings) (objectStore : String → Option String)
    (chunks : List Chunk) (pageHits : List PageHit) (allowed : Finset Uuid)
    (tokenBudget maxImages : Option ℕ) :
    Interleaves
      (assemble settings objectStore chunks pageHits allowed tokenBudget maxImages)
      (packText (budgetOf settings tokenBudget) (chunksInScope allowed chunks))
      (packPages objectStore (maxImages.getD settings.contextMaxImages)
        (pagesInScope allowed pageHits)) := by
  have hstart : Interleaves ({} : AssembledContext) {} {} := ⟨rfl, rfl, rfl, rfl, rfl⟩
  rw [assemble_eq_foldl]
  simpa only [packText, packPages, rrfMerge_filterMap_chunk, rrfMerge_filterMap_page] using
    hstart.foldl (rrfMerge settings.fusionRrfK chunks pageHits)

/-! ## What the generator sees -/

/-- The result without the count of the candidates out of scope. -/
def AssembledContext.seen (out : AssembledContext) : AssembledContext :=
  { out with droppedAcl := 0 }

theorem Interleaves.seen {out text pages : AssembledContext}
    (hboth : Interleaves out text pages) :
    out.seen =
      { blocks := text.blocks
        packedChunks := text.packedChunks
        images := pages.images
        tokenCount := text.tokenCount
        droppedAcl := 0
        droppedBudget := text.droppedBudget + pages.droppedBudget } := by
  obtain ⟨hblocks, hpacked, htokens, himages, hdropped⟩ := hboth
  rw [AssembledContext.seen, hblocks, hpacked, htokens, himages, hdropped]

/-- Candidates out of scope have no influence: removing them first changes nothing,
and inputs that agree in scope are assembled alike. -/
theorem assemble_seen (settings : Settings) (objectStore : String → Option String)
    (chunks : List Chunk) (pageHits : List PageHit) (allowed : Finset Uuid)
    (tokenBudget maxImages : Option ℕ) :
    (assemble settings objectStore (chunksInScope allowed chunks)
        (pagesInScope allowed pageHits) allowed tokenBudget maxImages).seen =
      (assemble settings objectStore chunks pageHits allowed tokenBudget maxImages).seen ∧
    ∀ chunks' pageHits', chunksInScope allowed chunks' = chunksInScope allowed chunks →
      pagesInScope allowed pageHits' = pagesInScope allowed pageHits →
      (assemble settings objectStore chunks' pageHits' allowed tokenBudget maxImages).seen =
        (assemble settings objectStore chunks pageHits allowed tokenBudget maxImages).seen := by
  have hagree : ∀ chunks' pageHits',
      chunksInScope allowed chunks' = chunksInScope allowed chunks →
      pagesInScope allowed pageHits' = pagesInScope allowed pageHits →
      (assemble settings objectStore chunks' pageHits' allowed tokenBudget maxImages).seen =
        (assemble settings objectStore chunks pageHits allowed tokenBudget
          maxImages).seen := by
    intro chunks' pageHits' hchunks hpages
    rw [(assemble_interleaves settings objectStore chunks' pageHits' allowed tokenBudget
        maxImages).seen,
      (assemble_interleaves settings objectStore chunks pageHits allowed tokenBudget
        maxImages).seen, hchunks, hpages]
  refine ⟨hagree _ _ ?_ ?_, hagree⟩
  · simp [chunksInScope]
  · simp [pagesInScope]

/-- A chunk of collection 7 that two tokens do not hold. -/
def ownChunk : Chunk :=
  ⟨11, 1, 7, "text", some 1, none, "Die Satzung gilt ab sofort.", 1, none, none⟩

/-- A chunk of collection 8. -/
def foreignChunk : Chunk :=
  ⟨12, 2, 8, "text", some 1, none, "Nur intern.", 1, none, none⟩

theorem assemble_seen_foreign :
    (assemble {} (fun _ => none) [foreignChunk, ownChunk] [] {7} none none).seen =
      (assemble {} (fun _ => none) [ownChunk] [] {7} none none).seen :=
  (assemble_seen {} (fun _ => none) [ownChunk] [] {7} none none).2
    [foreignChunk, ownChunk] [] (by decide) rfl

/-! ## The text budget -/

section Text

variable {tokenBudget : ℕ}

/-- A text over the budget fills it when it is truncated. -/
theorem estimateTokens_truncate_eq {text : String} (hbudget : 1 ≤ tokenBudget)
    (hover : tokenBudget < estimateTokens text) :
    estimateTokens (truncateToBudget text tokenBudget) = tokenBudget := by
  have hlength : (truncateToBudget text tokenBudget).length =
      min (tokenBudget * 19 / 5) text.length := by
    rw [truncateToBudget, String.length_ofList, List.length_take, String.length_toList]
  rw [estimateTokens] at hover ⊢
  omega

/-- The first of the visited chunks is over the budget on its own and was cut. -/
def CutFirst (tokenBudget : ℕ) (visited : List Chunk) (out : AssembledContext) : Prop :=
  ∃ chunk rest, visited = chunk :: rest ∧ tokenBudget < estimateTokens chunk.content ∧
    out.packedChunks =
      [{ chunk with content := truncateToBudget chunk.content tokenBudget }] ∧
    out.tokenCount = tokenBudget

/-- What the text pass has done with the chunks it has visited. -/
structure Packed (tokenBudget : ℕ) (visited : List Chunk) (out : AssembledContext) :
    Prop where
  blocks : out.blocks = out.packedChunks.map (·.content)
  tokens : out.tokenCount = (out.blocks.map estimateTokens).sum
  within : out.tokenCount ≤ tokenBudget
  order : out.packedChunks.Sublist visited ∨ CutFirst tokenBudget visited out
  counted : out.packedChunks.length + out.droppedBudget = visited.length
  started : out.packedChunks = [] → visited = []

theorem Packed.take {visited : List Chunk} {out : AssembledContext}
    (hbudget : 1 ≤ tokenBudget) (hpacked : Packed tokenBudget visited out) (chunk : Chunk) :
    Packed tokenBudget (visited ++ [chunk]) (takeChunk tokenBudget out chunk) := by
  obtain ⟨hblocks, htokens, hwithin, horder, hcounted, hstarted⟩ := hpacked
  simp only [takeChunk]
  split_ifs with hover hfirst
  · -- Nothing is packed, so nothing was visited before.
    obtain rfl := hstarted hfirst.1
    have hempty : out.blocks = [] := by rw [hblocks, hfirst.1]; rfl
    have hzero : out.tokenCount = 0 := by rw [htokens, hempty]; rfl
    rw [hzero, Nat.zero_add] at hover
    have hfull := estimateTokens_truncate_eq hbudget hover
    refine ⟨?_, ?_, hfull.le, Or.inr ?_, ?_, ?_⟩
    · simp [hempty, hfirst.1]
    · simp [hempty]
    · exact ⟨chunk, [], rfl, hover, by simp [hfirst.1], hfull⟩
    · simpa [hfirst.1] using hcounted
    · simp
  · refine ⟨hblocks, htokens, hwithin, ?_, ?_, ?_⟩
    · rcases horder with hsub | ⟨first, rest, rfl, hcut⟩
      · exact Or.inl (hsub.trans (List.sublist_append_left _ _))
      · exact Or.inr ⟨first, rest ++ [chunk], rfl, hcut⟩
    · simp only [List.length_append, List.length_singleton]
      omega
    · intro hnone
      -- An empty chunk costs one token, which the budget has.
      have hempty : out.blocks = [] := by rw [hblocks, hnone]; rfl
      have hzero : out.tokenCount = 0 := by rw [htokens, hempty]; rfl
      have hcontent : chunk.content = "" := by
        by_contra hne
        exact hfirst ⟨hnone, hne⟩
      rw [hzero, hcontent, estimateTokens] at hover
      simp at hover
      omega
  · refine ⟨?_, ?_, ?_, ?_, ?_, ?_⟩
    · simp [hblocks]
    · simp [htokens]
    · exact not_lt.mp hover
    · rcases horder with hsub | ⟨first, rest, rfl, hcut, hsingle, hfull⟩
      · exact Or.inl (hsub.append (List.Sublist.refl _))
      · have hcost : 1 ≤ estimateTokens chunk.content := le_max_left _ _
        omega
    · simp only [List.length_append, List.length_singleton]
      omega
    · simp

theorem packText_packed (hbudget : 1 ≤ tokenBudget) (chunks : List Chunk) :
    Packed tokenBudget chunks (packText tokenBudget chunks) := by
  induction chunks using List.reverseRecOn with
  | nil =>
      exact ⟨rfl, rfl, Nat.zero_le _, Or.inl (List.Sublist.refl _), rfl, fun _ => rfl⟩
  | append_singleton visited chunk ih =>
      rw [packText, List.foldl_append]
      exact ih.take hbudget chunk

end Text

/-! ## The image budget -/

section Images

variable {objectStore : String → Option String}

/-- The hits whose object was asked for in vain, with room for so many images. -/
def unreadable (objectStore : String → Option String) : ℕ → List PageHit → List PageHit
  | 0, _ => []
  | _, [] => []
  | room + 1, hit :: rest =>
      match loadImageB64 objectStore hit with
      | none => hit :: unreadable objectStore (room + 1) rest
      | some _ => unreadable objectStore room rest

/-- Every page hit of the page pass is loaded, unreadable or over the image budget. -/
theorem foldl_takePage_counted (maxImages : ℕ) (pageHits : List PageHit)
    (out : AssembledContext) :
    (pageHits.foldl (takePage objectStore maxImages) out).images.length +
        (pageHits.foldl (takePage objectStore maxImages) out).droppedBudget +
        (unreadable objectStore (maxImages - out.images.length) pageHits).length =
      out.images.length + out.droppedBudget + pageHits.length := by
  induction pageHits generalizing out with
  | nil => cases maxImages - out.images.length <;> simp [unreadable]
  | cons hit rest ih =>
      rw [List.foldl_cons, List.length_cons]
      have hrest := ih (takePage objectStore maxImages out hit)
      by_cases hfull : maxImages ≤ out.images.length
      · rw [Nat.sub_eq_zero_of_le hfull]
        simp only [takePage, if_pos hfull, Nat.sub_eq_zero_of_le hfull, unreadable,
          List.length_nil] at hrest ⊢
        omega
      · obtain ⟨room, hroom⟩ : ∃ room, maxImages - out.images.length = room + 1 :=
          ⟨maxImages - out.images.length - 1, by omega⟩
        cases hload : loadImageB64 objectStore hit with
        | none =>
            simp only [takePage, if_neg hfull, hload, hroom, unreadable,
              List.length_cons] at hrest ⊢
            omega
        | some b64 =>
            have hless : maxImages - (out.images.length + 1) = room := by omega
            simp only [takePage, if_neg hfull, hload, List.length_append,
              List.length_singleton, hless] at hrest
            simp only [takePage, if_neg hfull, hload, hroom, unreadable]
            omega

end Images

/-! ## The budgets of the whole loop -/

section Whole

variable {objectStore : String → Option String} {allowed : Finset Uuid}
variable {tokenBudget maxImages : ℕ}

@[simp]
theorem takeChunk_droppedAcl (out : AssembledContext) (chunk : Chunk) :
    (takeChunk tokenBudget out chunk).droppedAcl = out.droppedAcl := by
  simp only [takeChunk]
  split_ifs <;> rfl

@[simp]
theorem takePage_droppedAcl (out : AssembledContext) (hit : PageHit) :
    (takePage objectStore maxImages out hit).droppedAcl = out.droppedAcl := by
  unfold takePage
  split_ifs
  · rfl
  · split <;> rfl

/-- A candidate is in scope or an ACL drop. -/
theorem assembleStep_droppedAcl (out : AssembledContext) (candidate : FusedCandidate) :
    (assembleStep objectStore allowed tokenBudget maxImages out candidate).droppedAcl +
        (chunksInScope allowed candidate.chunk?.toList).length +
        (pagesInScope allowed candidate.page?.toList).length =
      out.droppedAcl + 1 := by
  obtain ⟨item, score⟩ := candidate
  cases item with
  | inl chunk =>
      by_cases hacl : aclOk chunk.collectionId allowed = true
      · simp [assembleStep, hacl, FusedCandidate.chunk?, FusedCandidate.page?,
          chunksInScope, pagesInScope]
      · simp [assembleStep, hacl, FusedCandidate.chunk?, FusedCandidate.page?,
          chunksInScope, pagesInScope]
  | inr hit =>
      by_cases hacl : aclOk hit.collectionId allowed = true
      · simp [assembleStep, hacl, FusedCandidate.chunk?, FusedCandidate.page?,
          chunksInScope, pagesInScope]
      · simp [assembleStep, hacl, FusedCandidate.chunk?, FusedCandidate.page?,
          chunksInScope, pagesInScope]

theorem foldl_droppedAcl (candidates : List FusedCandidate) (out : AssembledContext) :
    (candidates.foldl (assembleStep objectStore allowed tokenBudget maxImages)
        out).droppedAcl +
        (chunksInScope allowed (candidates.filterMap FusedCandidate.chunk?)).length +
        (pagesInScope allowed (candidates.filterMap FusedCandidate.page?)).length =
      out.droppedAcl + candidates.length := by
  induction candidates generalizing out with
  | nil => rfl
  | cons candidate rest ih =>
      have hrest := ih (assembleStep objectStore allowed tokenBudget maxImages out candidate)
      have hfirst := @assembleStep_droppedAcl objectStore allowed tokenBudget maxImages out
        candidate
      rw [filterMap_cons_chunk, filterMap_cons_page, chunksInScope, pagesInScope,
        List.filter_append, List.filter_append, List.length_append, List.length_append,
        List.foldl_cons, List.length_cons]
      simp only [chunksInScope, pagesInScope] at hrest hfirst
      omega

end Whole

/-- The accounts of an assembled context: tokens, order, images, and every candidate
counted once. -/
structure Accounted (objectStore : String → Option String) (chunks : List Chunk)
    (pageHits : List PageHit) (allowed : Finset Uuid) (tokenBudget maxImages : ℕ)
    (out : AssembledContext) : Prop where
  tokens : out.tokenCount = (out.blocks.map estimateTokens).sum
  within : out.tokenCount ≤ tokenBudget
  blocks : out.blocks = out.packedChunks.map (·.content)
  order : out.packedChunks.Sublist chunks ∨
    ∃ chunk rest, chunksInScope allowed chunks = chunk :: rest ∧
      tokenBudget < estimateTokens chunk.content ∧
      out.packedChunks =
        [{ chunk with content := truncateToBudget chunk.content tokenBudget }]
  images : ∃ hits : List PageHit, hits.Sublist pageHits ∧ out.images.map some = hits.map (imageOf objectStore)
  imageLimit : out.images.length ≤ maxImages
  counted : out.packedChunks.length + out.images.length +
      (unreadable objectStore maxImages (pagesInScope allowed pageHits)).length +
      out.droppedAcl + out.droppedBudget = chunks.length + pageHits.length
  started : chunksInScope allowed chunks ≠ [] → out.blocks ≠ []

theorem length_rrfMerge (k : ℕ) (chunks : List Chunk) (pageHits : List PageHit) :
    (rrfMerge k chunks pageHits).length = chunks.length + pageHits.length := by
  rw [rrfMerge, (List.perm_insertionSort _ _).length_eq, List.length_append, ranked, ranked,
    List.length_mapIdx, List.length_mapIdx]

private theorem map_some_filterMap {α β : Type} {f : α → Option β} {items : List α}
    (hall : ∀ item ∈ items, (f item).isSome = true) :
    (items.filterMap f).map some = items.map f := by
  induction items with
  | nil => rfl
  | cons item rest ih =>
      obtain ⟨value, hvalue⟩ := Option.isSome_iff_exists.mp (hall item List.mem_cons_self)
      have hrest := ih fun other hother => hall other (List.mem_cons_of_mem _ hother)
      simp [hvalue, hrest]

/-- The images are those of a part of the page hits, in their order. -/
theorem assemble_images_sublist (settings : Settings) (objectStore : String → Option String)
    (chunks : List Chunk) (pageHits : List PageHit) (allowed : Finset Uuid)
    (tokenBudget : Option ℕ) (maxImages : ℕ) :
    ∃ hits : List PageHit, hits.Sublist pageHits ∧ hits.length ≤ maxImages ∧
      (assemble settings objectStore chunks pageHits allowed tokenBudget
        (some maxImages)).images.map some = hits.map (imageOf objectStore) := by
  refine ⟨loadedPages objectStore allowed maxImages pageHits, ?_, List.length_take_le _ _, ?_⟩
  · exact (List.take_sublist _ _).trans List.filter_sublist
  · rw [assemble_images, Option.getD_some]
    apply map_some_filterMap
    intro hit hhit
    have huse := (List.mem_filter.mp (List.mem_of_mem_take hhit)).2
    rw [usable, Bool.and_eq_true] at huse
    rw [imageOf, Option.isSome_map]
    exact huse.2

/-- The assembler keeps its budgets and its accounts, and is never left without text
when there is a chunk in scope. -/
theorem assemble_accounted (settings : Settings) (objectStore : String → Option String)
    (chunks : List Chunk) (pageHits : List PageHit) (allowed : Finset Uuid)
    {tokenBudget : ℕ} (maxImages : ℕ) (hbudget : 1 ≤ tokenBudget) :
    Accounted objectStore chunks pageHits allowed tokenBudget maxImages
      (assemble settings objectStore chunks pageHits allowed (some tokenBudget)
        (some maxImages)) := by
  have hboth := assemble_interleaves settings objectStore chunks pageHits allowed
    (some tokenBudget) (some maxImages)
  have hconfigured : budgetOf settings (some tokenBudget) = tokenBudget := by
    obtain ⟨less, rfl⟩ : ∃ less, tokenBudget = less + 1 := ⟨tokenBudget - 1, by omega⟩
    rfl
  obtain ⟨hits, hsub, hlimit, himages⟩ := assemble_images_sublist settings objectStore chunks
    pageHits allowed (some tokenBudget) maxImages
  rw [hconfigured] at hboth
  have htext := packText_packed hbudget (chunksInScope allowed chunks)
  refine ⟨?_, ?_, assemble_blocks, ?_, ⟨hits, hsub, himages⟩, ?_, ?_, ?_⟩
  · rw [hboth.tokenCount, hboth.blocks]
    exact htext.tokens
  · rw [hboth.tokenCount]
    exact htext.within
  · rw [hboth.packedChunks]
    rcases htext.order with hsublist | ⟨chunk, rest, hvisited, hover, hcut, _⟩
    · exact Or.inl (hsublist.trans List.filter_sublist)
    · exact Or.inr ⟨chunk, rest, hvisited, hover, hcut⟩
  · have hlength := congrArg List.length himages
    simp only [List.length_map] at hlength
    omega
  · have hacl := @foldl_droppedAcl objectStore allowed tokenBudget maxImages
      (rrfMerge settings.fusionRrfK chunks pageHits) {}
    rw [rrfMerge_filterMap_chunk, rrfMerge_filterMap_page, length_rrfMerge, ← hconfigured]
      at hacl
    have hpages := @foldl_takePage_counted objectStore maxImages
      (pagesInScope allowed pageHits) {}
    have hcounted := htext.counted
    rw [hboth.packedChunks, hboth.images, hboth.droppedBudget, assemble_eq_foldl]
    simp only [packPages, List.length_nil, Nat.sub_zero, Option.getD_some] at hacl hpages ⊢
    omega
  · intro hscope hnone
    rw [hboth.blocks, htext.blocks, List.map_eq_nil_iff] at hnone
    exact hscope (htext.started hnone)

theorem assemble_accounted_oversized :
    Accounted (fun _ => none) [foreignChunk, ownChunk] [] {7} 2 0
      (assemble {} (fun _ => none) [foreignChunk, ownChunk] [] {7} (some 2) (some 0)) :=
  assemble_accounted {} (fun _ => none) [foreignChunk, ownChunk] [] {7} 0 (by decide)

end AgenticRag.Assembler
