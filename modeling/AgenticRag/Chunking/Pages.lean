import AgenticRag.Chunking.Sections

/-!
# The page of a chunk

A chunk gets the page at an estimated place: the lengths of the chunks before it, less
the overlap ratio of each.  Its first character stands at the place where the greedy
rule begins the window.  The page is right as long as both places are on one page.
-/

namespace AgenticRag.Chunker

open AgenticRag.PyString

/-- The page of the element that stands at this place of the section text, with the blank
line behind it. -/
def pageOfPlace : List (Text × Option ℕ) → ℕ → Option ℕ
  | [], _ => none
  | [part], _ => part.2
  | part :: next :: parts, place =>
      if place < part.1.length + 2 then part.2
      else pageOfPlace (next :: parts) (place - (part.1.length + 2))

/-- The values that `consumed` takes over pieces of these lengths. -/
def consumedAt (settings : ChunkSettings) : ℕ → List ℕ → List ℕ
  | _, [] => []
  | consumed, length :: lengths =>
      consumed :: consumedAt settings
        (consumed + (max 1 (length - settings.overlapOf length)).toNat) lengths

/-- The windows of the section, as the greedy rule lays them out. -/
def sectionWindows (settings : ChunkSettings) (isWord : Char → Bool)
    (run : List ParsedElement) : List Window :=
  windowsOf settings.limits (fillParagraphs settings.limits
    ((paragraphsOf (sectionText isWord run)).map List.length))

theorem pageAt_before {start place : ℕ} (hbefore : place < start)
    (parts : List (Text × Option ℕ)) (page : Option ℕ) :
    (pageFor start parts).foldl
      (fun page entry => if entry.1 ≤ place then entry.2 else page) page = page := by
  induction parts generalizing start with
  | nil => rfl
  | cons part parts ih =>
      rw [pageFor, List.foldl_cons, if_neg hbefore.not_ge]
      exact ih (by omega)

/-- The last offset that has been reached is that of the element at the place. -/
theorem pageAt_pageFor (parts : List (Text × Option ℕ)) (start place : ℕ) (page : Option ℕ)
    (hne : parts ≠ []) : (pageFor start parts).foldl
      (fun page entry => if entry.1 ≤ start + place then entry.2 else page) page =
        pageOfPlace parts place := by
  induction parts generalizing start place page with
  | nil => exact absurd rfl hne
  | cons part parts ih =>
      rw [pageFor, List.foldl_cons, if_pos (Nat.le_add_right _ _)]
      cases parts with
      | nil => rfl
      | cons next parts =>
          rw [pageOfPlace]
          split_ifs with hhere
          · exact pageAt_before (by omega) _ _
          · have hplace : start + place =
                start + part.1.length + 2 + (place - (part.1.length + 2)) := by omega
            rw [hplace]
            exact ih _ _ _ (List.cons_ne_nil _ _)

theorem pageAt_eq_pageOfPlace (parts : List (Text × Option ℕ)) (place : ℕ) :
    pageAt (pageFor 0 parts) place = pageOfPlace parts place := by
  by_cases hne : parts = []
  · rw [hne]
    rfl
  · have hpage := pageAt_pageFor parts 0 place none hne
    rwa [Nat.zero_add] at hpage

theorem textChunks_pages (settings : ChunkSettings) (pages : List (ℕ × Option ℕ))
    (title : Option Text) (consumed : ℕ) (pieces : List Text) :
    (textChunks settings pages title consumed pieces).map ChunkData.pageNumber =
      (consumedAt settings consumed (pieces.map List.length)).map (pageAt pages) := by
  induction pieces generalizing consumed with
  | nil => rfl
  | cons piece pieces ih =>
      rw [textChunks, List.map_cons, List.map_cons, consumedAt, List.map_cons, ih]

theorem textChunks_contents (settings : ChunkSettings) (pages : List (ℕ × Option ℕ))
    (title : Option Text) (consumed : ℕ) (pieces : List Text) :
    (textChunks settings pages title consumed pieces).map ChunkData.rawContent = pieces := by
  induction pieces generalizing consumed with
  | nil => rfl
  | cons piece pieces ih => rw [textChunks, List.map_cons, ih]

/-- The pages that the chunks of a section get. -/
theorem chunkTextRun_pages (settings : ChunkSettings) (isWord : Char → Bool)
    (run : List ParsedElement) :
    (chunkTextRun settings isWord run).map ChunkData.pageNumber =
      (consumedAt settings 0 ((sectionWindows settings isWord run).map Window.length)).map
        (pageOfPlace (partsOf isWord run)) := by
  have hlengths := @packParagraphs_lengths _ settings.limits isSpace '\n' _
    (@paragraphsOf_ends isWord run)
  rw [chunkTextRun_eq, textChunks_pages, packText, hlengths, sectionWindows]
  refine List.map_congr_left fun place _ => ?_
  exact pageAt_eq_pageOfPlace _ place

/-- The pages of the elements in which the chunks begin. -/
theorem packPlaced_pages (settings : ChunkSettings) (isWord : Char → Bool)
    (run : List ParsedElement) :
    (packPlaced settings.limits (paragraphsOf (sectionText isWord run))).map
        (fun window => pageOfPlace (partsOf isWord run) (windowStart window)) =
      (sectionWindows settings isWord run).map
        (fun window => pageOfPlace (partsOf isWord run) window.start) := by
  have hstarts := packPlaced_starts settings.limits (@paragraphsOf_ends isWord run)
  have hpages := congrArg (List.map (pageOfPlace (partsOf isWord run))) hstarts
  rwa [List.map_map, List.map_map] at hpages

/-- With the characters of the section text told apart by their places, the chunks are the
windows of `packPlaced`.  Each has the page of the element its first character stands in
exactly when each estimated place is on the page of the place where the greedy rule begins
the window. -/
theorem chunkTextRun_pages_iff (settings : ChunkSettings) (isWord : Char → Bool)
    (run : List ParsedElement) :
    (packPlaced settings.limits (paragraphsOf (sectionText isWord run))).map
        (List.map Prod.fst) = (chunkTextRun settings isWord run).map ChunkData.rawContent ∧
    ((chunkTextRun settings isWord run).map ChunkData.pageNumber =
        (packPlaced settings.limits (paragraphsOf (sectionText isWord run))).map
          (fun window => pageOfPlace (partsOf isWord run) (windowStart window)) ↔
      (consumedAt settings 0 ((sectionWindows settings isWord run).map Window.length)).map
          (pageOfPlace (partsOf isWord run)) =
        (sectionWindows settings isWord run).map
          (fun window => pageOfPlace (partsOf isWord run) window.start)) := by
  refine ⟨?_, ?_⟩
  · rw [map_fst_packPlaced, chunkTextRun_eq, textChunks_contents]
  · rw [chunkTextRun_pages, packPlaced_pages]

/-- Three paragraphs of 1680, 318 and 1000 characters on pages 1, 2 and 3. -/
def threePages : List ParsedElement :=
  [wordElement 'a' 1680 (some 1), wordElement 'b' 318 (some 2), wordElement 'c' 1000 (some 3)]

theorem threePages_windows :
    partsOf Char.isAlphanum threePages =
      threePages.map (fun element => (element.content, element.page)) ∧
    sectionWindows ChunkSettings.default Char.isAlphanum threePages =
      [⟨0, 2000, 2000⟩, ⟨1658, 1344, 3002⟩] := by
  have hwords : ∀ element ∈ threePages, element.content ≠ [] ∧
      ∀ char ∈ element.content, isSpace char = false := by
    simp only [threePages, List.forall_mem_cons, List.not_mem_nil, false_implies, implies_true,
      and_true]
    exact ⟨wordElement_unspaced rfl (by decide) _, wordElement_unspaced rfl (by decide) _,
      wordElement_unspaced rfl (by decide) _⟩
  have hne : threePages ≠ [] := List.cons_ne_nil _ _
  obtain ⟨hparts, hparagraphs⟩ := paragraphsOf_unspaced Char.isAlphanum hne hwords
  have hlengths : (threePages.map ParsedElement.content).map List.length = [1680, 318, 1000] := by
    simp [threePages]
  refine ⟨hparts, ?_⟩
  rw [sectionWindows, hparagraphs, hlengths, fillParagraphs, spans, spans, spans, spans,
    cut_short (by decide), cut_short (by decide), cut_short (by decide)]
  decide

/-- The second window begins in the first element and gets the page of the second. -/
theorem chunkTextRun_wrong_page :
    ¬ (chunkTextRun ChunkSettings.default Char.isAlphanum threePages).map ChunkData.pageNumber =
        (packPlaced ChunkSettings.default.limits
          (paragraphsOf (sectionText Char.isAlphanum threePages))).map
          (fun window => pageOfPlace (partsOf Char.isAlphanum threePages)
            (windowStart window)) := by
  obtain ⟨hparts, hwindows⟩ := threePages_windows
  have hoverlap : ChunkSettings.default.overlapOf 2000 = 300 := by decide +kernel
  rw [chunkTextRun_pages, packPlaced_pages, hwindows, hparts]
  simp [threePages, consumedAt, pageOfPlace, hoverlap]

end AgenticRag.Chunker
