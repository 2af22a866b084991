import AgenticRag.Chunking.Pages
import AgenticRag.Chunking.Tables
import Mathlib.Data.List.Chain

/-!
# The chunk builder

`build_chunks_v2` walks over the elements of a document.  Text is collected into a run,
which a change of the section title, a table or a figure ends.
-/

namespace AgenticRag.Chunker

open AgenticRag.PyString AgenticRag.Normalize
open AgenticRag.Ingestion (ChunkType)

/-- The characters at which `str.splitlines` cuts. -/
def isLineBreak (char : Char) : Bool :=
  let code := char.toNat
  (10 ≤ code && code ≤ 13) || (28 ≤ code && code ≤ 30) || code == 0x85 || code == 0x2028 ||
    code == 0x2029

/-- `_CAPTION_HINT_MAX` -/
def captionHintMax : ℕ := 160

/-- `_caption_hint` -/
def captionHint : Option ParsedElement → Option Text
  | none => none
  | some element =>
      let content := stripWhere isSpace element.content
      let line := stripWhere isSpace (content.takeWhile fun char => !isLineBreak char)
      if line = [] ∨ captionHintMax < line.length then none else some line

section

variable (settings : ChunkSettings) (isWord : Char → Bool)

/-- The chunk of an element that is passed through. -/
def passThrough (hint : Option Text) (element : ParsedElement) : ChunkData :=
  let normalized :=
    if normalizeText isWord element.content = [] then element.content
    else normalizeText isWord element.content
  { chunkType := element.kind
    rawContent := element.content
    normalizedContent :=
      match hint, truthy element.metadata.caption with
      | some line, none =>
          if line <:+: normalized then normalized else line ++ "\n\n".toList ++ normalized
      | _, _ => normalized
    chunkIndex := 0
    pageNumber := element.page
    sectionTitle := element.sectionTitle
    sourceMetadata := { copied := element.metadata, bbox := element.bbox } }

/-- The variables of the loop over the elements. -/
structure Building where
  out : List ChunkData := []
  run : List ParsedElement := []
  lastText : Option ParsedElement := none

/-- `flush` -/
def flush (building : Building) : Building :=
  if building.run = [] then building
  else { building with out := building.out ++ chunkTextRun settings isWord building.run, run := [] }

/-- The chunks of an element that is not text. -/
def elementChunks (hint : Option Text) (element : ParsedElement) : List ChunkData :=
  if element.kind = .table then chunkTable settings element hint
  else [passThrough isWord hint element]

/-- One round of the loop over the elements. -/
def buildStep (building : Building) (element : ParsedElement) : Building :=
  if element.kind = .text then
    let opened :=
      if building.run ≠ [] ∧
          element.sectionTitle ≠ building.run.head?.bind ParsedElement.sectionTitle then
        flush settings isWord building
      else building
    { opened with run := opened.run ++ [element], lastText := some element }
  else
    let flushed := flush settings isWord building
    { flushed with
      out := flushed.out ++ elementChunks settings isWord (captionHint building.lastText) element
      lastText := none }

/-- `chunk.chunk_index = i` -/
def reindex (chunks : List ChunkData) : List ChunkData :=
  chunks.zipIdx.map fun entry => { entry.1 with chunkIndex := entry.2 }

/-- `build_chunks_v2` -/
def buildChunksV2 (elements : List ParsedElement) : List ChunkData :=
  reindex (flush settings isWord (elements.foldl (buildStep settings isWord) {})).out

end

/-! ## The runs and the elements between them -/

/-- A run of text, or another element with the text directly before it. -/
inductive Segment where
  | run (elements : List ParsedElement)
  | single (element : ParsedElement) (before : Option ParsedElement)

namespace Segment

def elements : Segment → List ParsedElement
  | run elements => elements
  | single element _ => [element]

/-- `run[0].section_title` -/
def title (run : List ParsedElement) : Option Text :=
  run.head?.bind ParsedElement.sectionTitle

/-- A run is not empty and has one title; the other elements are not text. -/
def WellFormed : Segment → Prop
  | run elements => elements ≠ [] ∧
      ∀ element ∈ elements, element.kind = .text ∧ element.sectionTitle = title elements
  | single element _ => element.kind ≠ .text

/-- Two runs behind each other differ in their titles; an element knows the text before it. -/
def Follows : Segment → Segment → Prop
  | run first, run second => title first ≠ title second
  | run first, single _ before => before = first.getLast?
  | single _ _, run _ => True
  | single _ _, single _ before => before = none

def chunks (settings : ChunkSettings) (isWord : Char → Bool) : Segment → List ChunkData
  | run elements => chunkTextRun settings isWord elements
  | single element before => elementChunks settings isWord (captionHint before) element

end Segment

/-- The elements, cut into runs that cannot be longer and single elements. -/
structure Segmentation (elements : List ParsedElement) (segments : List Segment) : Prop where
  elements : segments.flatMap Segment.elements = elements
  wellFormed : ∀ segment ∈ segments, segment.WellFormed
  chain : segments.IsChain Segment.Follows
  first : ∀ element before, segments.head? = some (.single element before) → before = none

section

variable {settings : ChunkSettings} {isWord : Char → Bool}

theorem Segmentation.concat {elements : List ParsedElement} {segments : List Segment}
    (hsegments : Segmentation elements segments) {segment : Segment}
    (hformed : segment.WellFormed)
    (hfollows : ∀ last, segments.getLast? = some last → last.Follows segment)
    (hfirst : segments = [] → ∀ element before, segment = .single element before → before = none) :
    Segmentation (elements ++ segment.elements) (segments ++ [segment]) := by
  refine ⟨?_, forall_mem_concat.mpr ⟨hsegments.wellFormed, hformed⟩, ?_, ?_⟩
  · rw [List.flatMap_append, hsegments.elements, List.flatMap_singleton]
  · refine List.isChain_append.mpr ⟨hsegments.chain, List.isChain_singleton _, ?_⟩
    intro last hlast other hother
    rw [← Option.some.inj hother]
    exact hfollows last hlast
  · intro element before hhead
    cases segments with
    | nil => exact hfirst rfl element before (Option.some.inj hhead)
    | cons first rest => exact hsegments.first element before hhead

/-- The loop invariant: the chunks are those of the segments that are closed, and the run
is the next segment. -/
structure Built (settings : ChunkSettings) (isWord : Char → Bool) (seen : List ParsedElement)
    (building : Building) : Prop where
  closed : ∃ segments earlier, earlier ++ building.run = seen ∧ Segmentation earlier segments ∧
    building.out = segments.flatMap (Segment.chunks settings isWord) ∧
    (building.run = [] → ∀ elements, segments.getLast? ≠ some (.run elements)) ∧
    (building.run ≠ [] → ∀ last, segments.getLast? = some last →
      last.Follows (.run building.run))
  run : building.run ≠ [] → (Segment.run building.run).WellFormed
  lastText : building.lastText = building.run.getLast?

/-- What `flush` leaves: the run is a segment. -/
theorem Built.flushed {seen : List ParsedElement} {building : Building}
    (hbuilt : Built settings isWord seen building) : ∃ segments, Segmentation seen segments ∧
      (flush settings isWord building).out =
        segments.flatMap (Segment.chunks settings isWord) ∧
      (flush settings isWord building).run = [] ∧
      ((building.run = [] ∧ ∀ elements, segments.getLast? ≠ some (.run elements)) ∨
        segments.getLast? = some (.run building.run)) := by
  obtain ⟨⟨segments, earlier, hseen, hsegments, hout, hempty, hfollows⟩, hrun, _⟩ := hbuilt
  by_cases hnone : building.run = []
  · rw [hnone, List.append_nil] at hseen
    rw [flush, if_pos hnone, ← hseen]
    exact ⟨segments, hsegments, hout, hnone, .inl ⟨hnone, hempty hnone⟩⟩
  · rw [flush, if_neg hnone, ← hseen]
    refine ⟨segments ++ [.run building.run], ?_, ?_, rfl, .inr List.getLast?_concat⟩
    · refine hsegments.concat (hrun hnone) (hfollows hnone) ?_
      intro _ element before hsame
      cases hsame
    · rw [List.flatMap_append, List.flatMap_singleton, ← hout]
      rfl

theorem wellFormed_single {element : ParsedElement} (htext : element.kind = .text) :
    (Segment.run [element]).WellFormed := by
  exact ⟨List.cons_ne_nil _ _, List.forall_mem_singleton.mpr ⟨htext, rfl⟩⟩

theorem title_append {run : List ParsedElement} (hne : run ≠ []) (element : ParsedElement) :
    Segment.title (run ++ [element]) = Segment.title run := by
  obtain ⟨first, rest, rfl⟩ := List.exists_cons_of_ne_nil hne
  rfl

theorem follows_append {last : Segment} {run : List ParsedElement} (hne : run ≠ [])
    (hfollows : last.Follows (.run run)) (element : ParsedElement) :
    last.Follows (.run (run ++ [element])) := by
  cases last with
  | run elements =>
      rw [Segment.Follows, title_append hne]
      exact hfollows
  | single => trivial

/-- A new title: the run is closed, and the element begins the next one. -/
theorem Built.reopen {seen : List ParsedElement} {building : Building}
    (hbuilt : Built settings isWord seen building) {element : ParsedElement}
    (htext : element.kind = .text) (hfilled : building.run ≠ [])
    (htitle : element.sectionTitle ≠ Segment.title building.run) :
    Built settings isWord (seen ++ [element])
      { out := (flush settings isWord building).out, run := [element],
        lastText := some element } := by
  obtain ⟨segments, hsegments, hout, _, hlast⟩ := hbuilt.flushed
  refine ⟨⟨segments, seen, rfl, hsegments, hout, ?_, ?_⟩, fun _ => wellFormed_single htext, rfl⟩
  · intro hnone
    cases hnone
  · intro _ last hsome
    rw [hlast.resolve_left fun hnone => hfilled hnone.1] at hsome
    rw [← Option.some.inj hsome]
    exact Ne.symm htitle

/-- The same title: the run grows. -/
theorem Built.extend {seen : List ParsedElement} {building : Building}
    (hbuilt : Built settings isWord seen building) {element : ParsedElement}
    (htext : element.kind = .text)
    (htitle : building.run ≠ [] → element.sectionTitle = Segment.title building.run) :
    Built settings isWord (seen ++ [element])
      { out := building.out, run := building.run ++ [element], lastText := some element } := by
  obtain ⟨⟨segments, earlier, hseen, hsegments, hout, hempty, hfollows⟩, hrun, _⟩ := hbuilt
  refine ⟨⟨segments, earlier, ?_, hsegments, hout, ?_, ?_⟩, ?_, List.getLast?_concat.symm⟩
  · rw [← hseen, List.append_assoc]
  · intro hnone
    exact absurd hnone (concat_ne_nil _ _)
  · intro _ last hsome
    by_cases hnone : building.run = []
    · cases last with
      | run elements => exact absurd hsome (hempty hnone elements)
      | single => trivial
    · exact follows_append hnone (hfollows hnone last hsome) element
  · intro _
    dsimp only
    by_cases hnone : building.run = []
    · rw [hnone]
      exact wellFormed_single htext
    · rw [Segment.WellFormed, title_append hnone]
      exact ⟨concat_ne_nil _ _,
        forall_mem_concat.mpr ⟨(hrun hnone).2, htext, htitle hnone⟩⟩

/-- Another element: the run is closed, and the text before the element is its last. -/
theorem Built.single {seen : List ParsedElement} {building : Building}
    (hbuilt : Built settings isWord seen building) {element : ParsedElement}
    (hother : element.kind ≠ .text) :
    Built settings isWord (seen ++ [element])
      { out := (flush settings isWord building).out ++
          elementChunks settings isWord (captionHint building.lastText) element
        run := (flush settings isWord building).run
        lastText := none } := by
  obtain ⟨segments, hsegments, hout, hflushed, hlast⟩ := hbuilt.flushed
  have hbefore := hbuilt.lastText
  have hsegment : Segmentation (seen ++ [element])
      (segments ++ [.single element building.lastText]) := by
    have hformed : (Segment.single element building.lastText).WellFormed := hother
    refine hsegments.concat hformed ?_ ?_
    · intro last hsome
      cases hlast with
      | inl hnone =>
          cases last with
          | run elements => exact absurd hsome (hnone.2 elements)
          | single =>
              rw [hnone.1] at hbefore
              exact hbefore
      | inr hclosed =>
          rw [hclosed] at hsome
          rw [← Option.some.inj hsome]
          exact hbefore
    · intro hnil _ before hsame
      cases hlast with
      | inl hnone =>
          rw [hnone.1] at hbefore
          rw [← (Segment.single.inj hsame).2]
          exact hbefore
      | inr hclosed =>
          rw [hnil] at hclosed
          cases hclosed
  rw [hflushed]
  refine ⟨⟨_, seen ++ [element], List.append_nil _, hsegment, ?_, ?_, ?_⟩, ?_, rfl⟩
  · rw [List.flatMap_append, List.flatMap_singleton, ← hout]
    rfl
  · intro _ elements hsome
    rw [List.getLast?_concat] at hsome
    cases hsome
  · exact fun hne => absurd rfl hne
  · exact fun hne => absurd rfl hne

theorem Built.step {seen : List ParsedElement} {building : Building}
    (hbuilt : Built settings isWord seen building) (element : ParsedElement) :
    Built settings isWord (seen ++ [element]) (buildStep settings isWord building element) := by
  rw [buildStep]
  split_ifs with htext hchange
  · have hreopened := hbuilt.reopen htext hchange.1 hchange.2
    obtain ⟨_, _, _, hflushed, _⟩ := hbuilt.flushed
    dsimp only
    rw [hflushed]
    exact hreopened
  · refine hbuilt.extend htext fun hfilled => ?_
    by_contra hother
    exact hchange ⟨hfilled, hother⟩
  · exact hbuilt.single htext

theorem foldl_built (elements : List ParsedElement) :
    Built settings isWord elements (elements.foldl (buildStep settings isWord) {}) := by
  induction elements using List.reverseRecOn with
  | nil =>
      refine ⟨⟨[], [], rfl, ⟨rfl, ?_, List.isChain_nil, ?_⟩, rfl, ?_, ?_⟩, ?_, rfl⟩
      · exact fun segment hsegment => absurd hsegment List.not_mem_nil
      · exact fun element before hhead => by cases hhead
      · exact fun _ elements hlast => by cases hlast
      · exact fun hne => absurd rfl hne
      · exact fun hne => absurd rfl hne
  | append_singleton seen element ih =>
      rw [List.foldl_append]
      exact ih.step element

/-- The builder emits the chunks of the segments, in the order of the elements. -/
theorem buildChunksV2_segments (elements : List ParsedElement) :
    ∃ segments, Segmentation elements segments ∧ buildChunksV2 settings isWord elements =
      reindex (segments.flatMap (Segment.chunks settings isWord)) := by
  obtain ⟨segments, hsegments, hout, _⟩ := (@foldl_built settings isWord elements).flushed
  exact ⟨segments, hsegments, by rw [buildChunksV2, hout]⟩

end

end AgenticRag.Chunker
