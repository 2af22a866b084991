import AgenticRag.Chunking.Builder
import AgenticRag.Chunking.RowChunks

/-!
# What the builder emits for each element

Every element of a document reaches its own chunks: a table or a figure under its page
and section, a text within the chunks of its run.
-/

namespace AgenticRag.Chunker

open AgenticRag.PyString AgenticRag.Normalize
open AgenticRag.Assembler (estimateTokens)

/-- The paragraphs of one element. -/
def elementParagraphs (isWord : Char → Bool) (element : ParsedElement) : List Text :=
  if normalizeText isWord element.content = [] then []
  else splitBlank (normalizeText isWord element.content)

theorem splitBlank_gap {first : Text} (hfirst : Tidy first) (second : Text) :
    splitBlank (first ++ '\n' :: '\n' :: second) = splitBlank first ++ splitBlank second := by
  induction hfirst with
  | @line line hline =>
      have hsingle := splitBlank_append hline.unbroken []
      rw [List.append_nil, splitBlank, List.modifyHead_cons, List.append_nil] at hsingle
      rw [splitBlank_append hline.unbroken, splitBlank, List.modifyHead_cons, List.append_nil,
        hsingle]
      rfl
  | @next line rest hline hrest ih =>
      obtain ⟨char, tail, hhead, hkept⟩ := hrest.first
      have hunbroken : ∀ text : Text, (rest ++ text).head? ≠ some '\n' := by
        intro text hsame
        rw [hhead, List.cons_append, List.head?_cons] at hsame
        rw [Option.some.inj hsame] at hkept
        cases hkept
      have hshort := hunbroken []
      rw [List.append_nil] at hshort
      obtain ⟨block, blocks, hsplit⟩ := List.exists_cons_of_ne_nil (splitBlank_ne_nil rest)
      rw [List.append_assoc, List.cons_append, splitBlank_append hline.unbroken,
        splitBlank_cons (.inr (hunbroken _)), ih, splitBlank_append hline.unbroken,
        splitBlank_cons (.inr hshort), hsplit]
      rfl
  | @gap line rest hline _ ih =>
      rw [List.append_assoc, List.cons_append, List.cons_append,
        splitBlank_append hline.unbroken, splitBlank, ih, splitBlank_append hline.unbroken,
        splitBlank]
      rfl

theorem splitBlank_joined_tidy {parts : List Text} (hne : parts ≠ [])
    (hparts : ∀ part ∈ parts, Tidy part) :
    splitBlank (joined '\n' parts) = parts.flatMap splitBlank := by
  induction parts with
  | nil => exact absurd rfl hne
  | cons first parts ih =>
      by_cases hlast : parts = []
      · rw [hlast, joined, List.intercalate_singleton, List.flatMap_singleton]
      · have hrest := ih hlast fun part hpart => hparts part (List.mem_cons_of_mem _ hpart)
        rw [joined_cons _ _ hlast, List.append_assoc, List.flatMap_cons, ← hrest]
        exact splitBlank_gap (hparts first List.mem_cons_self) _

theorem partsOf_paragraphs (isWord : Char → Bool) (run : List ParsedElement) :
    ((partsOf isWord run).map Prod.fst).flatMap splitBlank =
      run.flatMap (elementParagraphs isWord) := by
  induction run with
  | nil => rfl
  | cons element run ih =>
      rw [List.flatMap_cons, ← ih, elementParagraphs, partsOf, partsOf, List.filterMap_cons]
      by_cases hempty : normalizeText isWord element.content = []
      · dsimp only
        rw [if_pos hempty, if_pos hempty, List.nil_append]
      · dsimp only
        rw [if_neg hempty, if_neg hempty, List.map_cons, List.flatMap_cons]

/-- The paragraphs of a section are those of its elements. -/
theorem paragraphsOf_elements (isWord : Char → Bool) (run : List ParsedElement) :
    paragraphsOf (sectionText isWord run) = run.flatMap (elementParagraphs isWord) := by
  rw [← partsOf_paragraphs]
  by_cases hempty : (partsOf isWord run).map Prod.fst = []
  · rw [sectionText, hempty]
    rfl
  · have hparts : ∀ part ∈ (partsOf isWord run).map Prod.fst, Tidy part := by
      intro part hpart
      obtain ⟨entry, hentry, rfl⟩ := List.mem_map.mp hpart
      exact partsOf_tidy hentry
    rw [sectionText, paragraphsOf_tidy (joined_tidy hempty hparts),
      splitBlank_joined_tidy hempty hparts]

theorem joined_elementParagraphs (isWord : Char → Bool) (element : ParsedElement) :
    joined '\n' (elementParagraphs isWord element) = normalizeText isWord element.content := by
  rw [elementParagraphs]
  split_ifs with hempty
  · rw [hempty]
    rfl
  · exact (splitBlank_tidy ((normalizeText_tidy isWord element.content).resolve_left hempty)).1

/-- What the chunks of a segment are. -/
def SegmentSound (isWord : Char → Bool) : Segment → List ChunkData → Prop
  | .run elements, chunks =>
      (∀ chunk ∈ chunks, chunk.chunkType = .text ∧
        chunk.sectionTitle = Segment.title elements ∧
        Woven '\n' (elements.flatMap (elementParagraphs isWord)) chunk.rawContent) ∧
      ∀ element ∈ elements,
        joined '\n' (elementParagraphs isWord element) = normalizeText isWord element.content ∧
        ∀ paragraph ∈ elementParagraphs isWord element,
          ∀ place, ∀ hplace : place < paragraph.length, isSpace paragraph[place] = false →
            ∃ unit, Covers paragraph unit place ∧ ∃ chunk ∈ chunks, unit <:+: chunk.rawContent
  | .single element _, chunks =>
      (∀ chunk ∈ chunks, chunk.chunkType = element.kind ∧ chunk.pageNumber = element.page ∧
        chunk.sectionTitle = element.sectionTitle) ∧
      (element.kind = .table → chunks ≠ []) ∧
      (element.kind ≠ .table → chunks.length = 1)

section

variable {settings : ChunkSettings} {isWord : Char → Bool}

theorem mem_textChunks {pages : List (ℕ × Option ℕ)} {title : Option Text} {consumed : ℕ}
    {pieces : List Text} {chunk : ChunkData}
    (hchunk : chunk ∈ textChunks settings pages title consumed pieces) :
    chunk.chunkType = .text ∧ chunk.sectionTitle = title ∧ chunk.rawContent ∈ pieces ∧
      chunk.normalizedContent = chunk.rawContent := by
  induction pieces generalizing consumed with
  | nil => cases hchunk
  | cons piece pieces ih =>
      rw [textChunks] at hchunk
      cases List.mem_cons.mp hchunk with
      | inl hsame =>
          rw [hsame]
          exact ⟨rfl, rfl, List.mem_cons_self, rfl⟩
      | inr hrest =>
          obtain ⟨htype, htitle, hpiece, hcontent⟩ := ih hrest
          exact ⟨htype, htitle, List.mem_cons_of_mem _ hpiece, hcontent⟩

/-- The chunks of a run. -/
theorem run_sound (elements : List ParsedElement) :
    SegmentSound isWord (.run elements) (chunkTextRun settings isWord elements) := by
  obtain ⟨_, hcovered, hwoven⟩ := packParagraphs_keeps settings.limits isSpace '\n'
    (paragraphsOf (sectionText isWord elements))
  rw [chunkTextRun_eq]
  refine ⟨fun chunk hchunk => ?_, fun element helement => ⟨joined_elementParagraphs _ _, ?_⟩⟩
  · obtain ⟨htype, htitle, hpiece, _⟩ := mem_textChunks hchunk
    refine ⟨htype, htitle, ?_⟩
    rw [← paragraphsOf_elements]
    exact hwoven _ hpiece
  · intro paragraph hparagraph place hplace hkept
    have hmem : paragraph ∈ paragraphsOf (sectionText isWord elements) := by
      rw [paragraphsOf_elements]
      exact List.mem_flatMap.mpr ⟨element, helement, hparagraph⟩
    obtain ⟨unit, hcovers, piece, hpiece, hwithin⟩ :=
      hcovered paragraph hmem place hplace hkept
    have hcontents := textChunks_contents settings (pageFor 0 (partsOf isWord elements))
      (elements.head?.bind ParsedElement.sectionTitle) 0
      (packText settings.limits (paragraphsOf (sectionText isWord elements)))
    rw [packText] at hcontents
    rw [← hcontents] at hpiece
    obtain ⟨chunk, hchunk, rfl⟩ := List.mem_map.mp hpiece
    exact ⟨unit, hcovers, chunk, hchunk, hwithin⟩

/-- The chunks of a table are under its page and its section. -/
theorem mem_chunkTable {element : ParsedElement} {hint : Option Text} {chunk : ChunkData}
    (hchunk : chunk ∈ chunkTable settings element hint) : chunk.chunkType = .table ∧
      chunk.pageNumber = element.page ∧ chunk.sectionTitle = element.sectionTitle := by
  rw [chunkTable] at hchunk
  cases hstructured : structured element with
  | none =>
      rw [hstructured] at hchunk
      rw [List.mem_singleton.mp hchunk]
      exact ⟨rfl, rfl, rfl⟩
  | some table =>
      rw [hstructured] at hchunk
      dsimp only at hchunk
      cases List.mem_cons.mp hchunk with
      | inl hsame =>
          rw [hsame]
          exact ⟨rfl, rfl, rfl⟩
      | inr hrest =>
          split_ifs at hrest with hlarge
          · have hrows : table.rows ≠ [] := by
              intro hnil
              rw [Table.nRows, hnil] at hlarge
              exact absurd hlarge (Nat.not_lt_zero _)
            obtain ⟨ranges, _, hchunks, _⟩ := @rowChunks_partition settings element
              (tableSummary table element.sectionTitle hint) table hrows
            rw [hchunks] at hrest
            obtain ⟨range, _, rfl⟩ := List.mem_map.mp hrest
            exact ⟨rfl, rfl, rfl⟩
          · cases hrest

theorem chunkTable_ne_nil (element : ParsedElement) (hint : Option Text) :
    chunkTable settings element hint ≠ [] := by
  rw [chunkTable]
  cases structured element with
  | none => exact List.cons_ne_nil _ _
  | some table => exact List.cons_ne_nil _ _

/-- The chunks of another element. -/
theorem single_sound (element : ParsedElement) (before : Option ParsedElement) :
    SegmentSound isWord (.single element before)
      (elementChunks settings isWord (captionHint before) element) := by
  rw [elementChunks]
  split_ifs with htable
  · refine ⟨fun chunk hchunk => ?_, fun _ => chunkTable_ne_nil _ _, fun hother => ?_⟩
    · rw [htable]
      exact mem_chunkTable hchunk
    · exact absurd htable hother
  · refine ⟨fun chunk hchunk => ?_, fun hkind => absurd hkind htable, fun _ => rfl⟩
    rw [List.mem_singleton.mp hchunk]
    exact ⟨rfl, rfl, rfl⟩

theorem segment_sound (segment : Segment) :
    SegmentSound isWord segment (segment.chunks settings isWord) := by
  cases segment with
  | run elements => exact run_sound elements
  | single element before => exact single_sound element before

theorem reindex_indices (chunks : List ChunkData) :
    (reindex chunks).map ChunkData.chunkIndex = List.range (reindex chunks).length := by
  rw [reindex, List.map_map, List.length_map, List.length_zipIdx, List.range_eq_range',
    ← List.zipIdx_map_snd]
  rfl

/-- The same chunk but for its number. -/
def Renumbered (before after : ChunkData) : Prop :=
  after = { before with chunkIndex := after.chunkIndex }

theorem reindex_renumbered (chunks : List ChunkData) :
    List.Forall₂ Renumbered chunks (reindex chunks) := by
  have hfst : chunks.zipIdx.map Prod.fst = chunks := List.zipIdx_map_fst 0 chunks
  rw [reindex]
  nth_rewrite 1 [← hfst]
  rw [List.forall₂_map_left_iff, List.forall₂_map_right_iff, List.forall₂_same]
  intro entry _
  rfl

/-- `build_chunks_v2` cuts the elements into maximal runs of text and single elements,
emits the chunks of each in the order of the elements, and numbers them. -/
theorem buildChunksV2_sound (settings : ChunkSettings) (isWord : Char → Bool)
    (elements : List ParsedElement) :
    ∃ segments, Segmentation elements segments ∧
      List.Forall₂ Renumbered (segments.flatMap (Segment.chunks settings isWord))
        (buildChunksV2 settings isWord elements) ∧
      (buildChunksV2 settings isWord elements).map ChunkData.chunkIndex =
        List.range (buildChunksV2 settings isWord elements).length ∧
      ∀ segment ∈ segments, SegmentSound isWord segment (segment.chunks settings isWord) := by
  obtain ⟨segments, hsegments, hchunks⟩ := @buildChunksV2_segments settings isWord elements
  refine ⟨segments, hsegments, ?_, ?_, fun segment _ => segment_sound segment⟩
  · rw [hchunks]
    exact reindex_renumbered _
  · rw [buildChunksV2, reindex_indices]

/-- A text chunk is a piece of a run. -/
theorem mem_buildChunksV2_text {elements : List ParsedElement} {chunk : ChunkData}
    (hchunk : chunk ∈ buildChunksV2 settings isWord elements) (htext : chunk.chunkType = .text) :
    ∃ run, chunk.rawContent ∈ packText settings.limits (paragraphsOf (sectionText isWord run)) ∧
      chunk.normalizedContent = chunk.rawContent := by
  obtain ⟨segments, hsegments, hchunks⟩ := @buildChunksV2_segments settings isWord elements
  rw [hchunks, reindex] at hchunk
  obtain ⟨⟨original, index⟩, hentry, rfl⟩ := List.mem_map.mp hchunk
  obtain ⟨segment, hsegment, horiginal⟩ := List.mem_flatMap.mp (List.fst_mem_of_mem_zipIdx hentry)
  cases segment with
  | run run =>
      rw [Segment.chunks, chunkTextRun_eq] at horiginal
      obtain ⟨_, _, hpiece, hcontent⟩ := mem_textChunks horiginal
      exact ⟨run, hpiece, hcontent⟩
  | single element before =>
      have hkind := ((@single_sound settings isWord element before).1 original horiginal).1
      exact absurd (hkind.symm.trans htext) (hsegments.wellFormed _ hsegment)

/-- No chunk of `_pack_paragraphs` is longer than an overlap beside a full window or a merge
within 1.2 windows, so by default no text chunk exceeds 1.25 of the token limit. -/
theorem chunks_within_window (isWord : Char → Bool) :
    (∀ (limits : Limits) (paragraphs : List Text), ∀ chunk ∈ packText limits paragraphs,
      chunk.length ≤
        max (limits.maxC + limits.overlapC + 2) ((6 * limits.maxC + 4) / 5 + 1)) ∧
    ∀ elements, ∀ chunk ∈ buildChunksV2 ChunkSettings.default isWord elements,
      chunk.chunkType = .text →
        4 * estimateTokens (String.ofList chunk.normalizedContent) ≤
          5 * ChunkSettings.default.chunkMaxTokens := by
  refine ⟨fun limits paragraphs chunk hchunk => length_le_longest hchunk, ?_⟩
  intro elements chunk hchunk htext
  obtain ⟨run, hpiece, hcontent⟩ := mem_buildChunksV2_text hchunk htext
  have hlength := length_le_longest hpiece
  have hlongest : longest ChunkSettings.default.limits = 2737 := by decide
  have hmax : ChunkSettings.default.chunkMaxTokens = 600 := rfl
  rw [hlongest] at hlength
  rw [hcontent, estimateTokens, String.length_ofList, hmax]
  omega

end

end AgenticRag.Chunker
