import AgenticRag.Chunking.Elements
import AgenticRag.Chunking.Contiguity
import AgenticRag.Text.Normalize

/-!
# One section of text

`chunk_text_run`: the elements of a run are normalized and joined, the text is cut into
paragraphs at its blank lines, and the chunks of the paragraphs are given pages.
-/

namespace AgenticRag.Chunker

open AgenticRag.Normalize AgenticRag.PyString

section

variable (settings : ChunkSettings) (isWord : Char → Bool)

/-- `parts`, with the page of each. -/
def partsOf (run : List ParsedElement) : List (Text × Option ℕ) :=
  run.filterMap fun element =>
    let normalized := normalizeText isWord element.content
    if normalized = [] then none else some (normalized, element.page)

/-- `page_for` -/
def pageFor : ℕ → List (Text × Option ℕ) → List (ℕ × Option ℕ)
  | _, [] => []
  | offset, part :: parts => (offset, part.2) :: pageFor (offset + part.1.length + 2) parts

/-- `"\n\n".join(parts)` -/
def sectionText (run : List ParsedElement) : Text :=
  joined '\n' ((partsOf isWord run).map Prod.fst)

/-- `text.split("\n\n")` -/
def splitBlank : Text → List Text
  | '\n' :: '\n' :: rest => [] :: splitBlank rest
  | char :: rest => (splitBlank rest).modifyHead (char :: ·)
  | [] => [[]]

def paragraphsOf (text : Text) : List Text :=
  ((splitBlank text).map (stripWhere isSpace)).filter (· ≠ [])

/-- The loop over `page_for`: the last page whose offset has been reached. -/
def pageAt (pages : List (ℕ × Option ℕ)) (consumed : ℕ) : Option ℕ :=
  pages.foldl (fun page entry => if entry.1 ≤ consumed then entry.2 else page) none

/-- The loop over the pieces. -/
def textChunks (pages : List (ℕ × Option ℕ)) (title : Option Text) : ℕ → List Text → List ChunkData
  | _, [] => []
  | consumed, piece :: pieces =>
      { chunkType := .text
        rawContent := piece
        normalizedContent := piece
        chunkIndex := 0
        pageNumber := pageAt pages consumed
        sectionTitle := title } ::
      textChunks pages title
        (consumed + (max 1 (piece.length - settings.overlapOf piece.length)).toNat) pieces

/-- `chunk_text_run` -/
def chunkTextRun (run : List ParsedElement) : List ChunkData :=
  let title := run.head?.bind ParsedElement.sectionTitle
  let text := sectionText isWord run
  if stripWhere isSpace text = [] then []
  else
    textChunks settings (pageFor 0 (partsOf isWord run)) title 0
      (packText settings.limits (paragraphsOf text))

end

/-! ## The paragraphs of the section text -/

theorem splitBlank_cons {char : Char} {rest : Text}
    (hchar : char ≠ '\n' ∨ rest.head? ≠ some '\n') :
    splitBlank (char :: rest) = (splitBlank rest).modifyHead (char :: ·) := by
  rw [splitBlank]
  rintro tail rfl rfl
  simp at hchar

theorem splitBlank_ne_nil (text : Text) : splitBlank text ≠ [] := by
  induction text using splitBlank.induct with
  | case1 rest _ =>
      rw [splitBlank]
      exact List.cons_ne_nil _ _
  | case2 char rest hother ih =>
      rw [splitBlank]
      · simpa using ih
      · exact hother
  | case3 => exact List.cons_ne_nil _ _

/-- A part that is not broken belongs to the first paragraph. -/
theorem splitBlank_append {line : Text} (hunbroken : '\n' ∉ line) (rest : Text) :
    splitBlank (line ++ rest) = (splitBlank rest).modifyHead (line ++ ·) := by
  induction line with
  | nil =>
      obtain ⟨first, later, hsplit⟩ := List.exists_cons_of_ne_nil (splitBlank_ne_nil rest)
      simp [hsplit]
  | cons char line ih =>
      have hchar : char ≠ '\n' := fun hsame => hunbroken (hsame ▸ List.mem_cons_self)
      rw [List.cons_append, splitBlank_cons (.inl hchar),
        ih fun hmem => hunbroken (List.mem_cons_of_mem _ hmem)]
      obtain ⟨first, later, hsplit⟩ := List.exists_cons_of_ne_nil (splitBlank_ne_nil rest)
      simp [hsplit]

/-- A paragraph as it stands in a normalized text. -/
structure Block (block : Text) : Prop where
  first : ∃ char rest, block = char :: rest ∧ isSpace char = false
  last : ∃ front char, block = front ++ [char] ∧ isSpace char = false

theorem Block.endsKept {block : Text} (hblock : Block block) : EndsKept isSpace block := by
  obtain ⟨front, char, rfl, hkept⟩ := hblock.last
  exact ⟨char, List.getLast?_concat, hkept⟩

/-- The paragraphs of a normalized text are its parts between blank lines. -/
theorem splitBlank_tidy {text : Text} (htidy : Tidy text) :
    joined '\n' (splitBlank text) = text ∧ ∀ block ∈ splitBlank text, Block block := by
  induction htidy with
  | @line line hline =>
      have hsplit := splitBlank_append hline.unbroken []
      rw [List.append_nil, splitBlank, List.modifyHead_cons, List.append_nil] at hsplit
      rw [hsplit, joined, List.intercalate_singleton]
      refine ⟨rfl, fun block hblock => ?_⟩
      rw [List.mem_singleton.mp hblock]
      exact ⟨hline.first, hline.last⟩
  | @next line rest hline hrest ih =>
      obtain ⟨char, tail, hfirst, hkept⟩ := hrest.first
      have hhead : rest.head? ≠ some '\n' := by
        rw [hfirst, List.head?_cons]
        intro hsame
        rw [Option.some.inj hsame] at hkept
        cases hkept
      obtain ⟨first, later, hsplit⟩ := List.exists_cons_of_ne_nil (splitBlank_ne_nil rest)
      rw [splitBlank_append hline.unbroken, splitBlank_cons (.inr hhead)]
      rw [hsplit] at ih ⊢
      rw [List.modifyHead_cons, List.modifyHead_cons]
      obtain ⟨hjoined, hblocks⟩ := ih
      refine ⟨?_, ?_⟩
      · rw [← hjoined]
        cases later with
        | nil => rw [joined, joined, List.intercalate_singleton, List.intercalate_singleton]
        | cons second later =>
            rw [joined_cons _ _ (List.cons_ne_nil _ _), joined_cons _ _ (List.cons_ne_nil _ _)]
            simp only [List.append_assoc, List.cons_append]
      · intro block hblock
        cases List.mem_cons.mp hblock with
        | inl hsame =>
            obtain ⟨front, char, hend, hlast⟩ := (hblocks first List.mem_cons_self).last
            obtain ⟨symbol, others, hline, hsymbol⟩ := hline.first
            rw [hsame]
            refine ⟨⟨symbol, others ++ '\n' :: first, by rw [hline]; rfl, hsymbol⟩,
              line ++ '\n' :: front, char, ?_, hlast⟩
            rw [hend]
            simp only [List.append_assoc, List.cons_append]
        | inr hlater => exact hblocks block (List.mem_cons_of_mem _ hlater)
  | @gap line rest hline _ ih =>
      rw [splitBlank_append hline.unbroken, splitBlank, List.modifyHead_cons, List.append_nil]
      obtain ⟨hjoined, hblocks⟩ := ih
      refine ⟨?_, ?_⟩
      · rw [joined_cons _ _ (splitBlank_ne_nil rest), hjoined, List.append_assoc]
        rfl
      · intro block hblock
        cases List.mem_cons.mp hblock with
        | inl hsame =>
            rw [hsame]
            exact ⟨hline.first, hline.last⟩
        | inr hrest => exact hblocks block hrest

theorem partsOf_tidy {isWord : Char → Bool} {run : List ParsedElement} {part : Text × Option ℕ}
    (hpart : part ∈ partsOf isWord run) : Tidy part.1 := by
  obtain ⟨element, _, hsome⟩ := List.mem_filterMap.mp hpart
  dsimp only at hsome
  split_ifs at hsome with hempty
  rw [← Option.some.inj hsome]
  exact (normalizeText_tidy isWord element.content).resolve_left hempty

theorem joined_tidy {parts : List Text} (hne : parts ≠ []) (hparts : ∀ part ∈ parts, Tidy part) :
    Tidy (joined '\n' parts) := by
  induction parts with
  | nil => exact absurd rfl hne
  | cons first parts ih =>
      have hfirst := hparts first List.mem_cons_self
      cases parts with
      | nil =>
          rw [joined, List.intercalate_singleton]
          exact hfirst
      | cons second parts =>
          rw [joined_cons _ _ (List.cons_ne_nil _ _), List.append_assoc]
          refine hfirst.append (ih (List.cons_ne_nil _ _) fun part hpart => ?_)
          exact hparts part (List.mem_cons_of_mem _ hpart)

theorem sectionText_tidy (isWord : Char → Bool) (run : List ParsedElement) :
    sectionText isWord run = [] ∨ Tidy (sectionText isWord run) := by
  by_cases hempty : partsOf isWord run = []
  · rw [sectionText, hempty]
    exact .inl rfl
  · refine .inr (joined_tidy (by simpa using hempty) fun part hpart => ?_)
    obtain ⟨entry, hentry, rfl⟩ := List.mem_map.mp hpart
    exact partsOf_tidy hentry

/-- The paragraphs of a normalized text are stripped already. -/
theorem paragraphsOf_tidy {text : Text} (htidy : Tidy text) : paragraphsOf text = splitBlank text := by
  obtain ⟨_, hblocks⟩ := splitBlank_tidy htidy
  rw [paragraphsOf, List.map_congr_left (g := id), List.map_id, List.filter_eq_self]
  · intro block hblock
    obtain ⟨char, rest, rfl, _⟩ := (hblocks block hblock).first
    simp
  · intro block hblock
    exact stripWhere_eq_of_ends (hblocks block hblock).first (hblocks block hblock).last

/-- The section text is its paragraphs, joined by blank lines. -/
theorem paragraphsOf_sectionText (isWord : Char → Bool) (run : List ParsedElement) :
    joined '\n' (paragraphsOf (sectionText isWord run)) = sectionText isWord run ∧
      ∀ paragraph ∈ paragraphsOf (sectionText isWord run), Block paragraph := by
  cases sectionText_tidy isWord run with
  | inl hempty =>
      rw [hempty]
      refine ⟨rfl, fun paragraph hparagraph => ?_⟩
      cases hparagraph
  | inr htidy =>
      rw [paragraphsOf_tidy htidy]
      exact splitBlank_tidy htidy

theorem paragraphsOf_ends {isWord : Char → Bool} {run : List ParsedElement} :
    ∀ paragraph ∈ paragraphsOf (sectionText isWord run), EndsKept isSpace paragraph :=
  fun paragraph hparagraph =>
    ((paragraphsOf_sectionText isWord run).2 paragraph hparagraph).endsKept

/-- The check for a blank section changes nothing: such a section has no paragraphs. -/
theorem chunkTextRun_eq (settings : ChunkSettings) (isWord : Char → Bool)
    (run : List ParsedElement) : chunkTextRun settings isWord run =
      textChunks settings (pageFor 0 (partsOf isWord run))
        (run.head?.bind ParsedElement.sectionTitle) 0
        (packText settings.limits (paragraphsOf (sectionText isWord run))) := by
  rw [chunkTextRun]
  split_ifs with hblank
  · cases sectionText_tidy isWord run with
    | inl hempty =>
        rw [hempty]
        rfl
    | inr htidy =>
        obtain ⟨char, rest, htext, _⟩ := htidy.first
        rw [htidy.strip, htext] at hblank
        cases hblank
  · rfl

/-! ## Sections of unbroken words -/

theorem splitBlank_joined {lines : List Text} (hne : lines ≠ [])
    (hunbroken : ∀ line ∈ lines, '\n' ∉ line) : splitBlank (joined '\n' lines) = lines := by
  induction lines with
  | nil => exact absurd rfl hne
  | cons line lines ih =>
      have hline := hunbroken line List.mem_cons_self
      cases lines with
      | nil =>
          have hsplit := splitBlank_append hline []
          rw [List.append_nil, splitBlank, List.modifyHead_cons, List.append_nil] at hsplit
          rw [joined, List.intercalate_singleton, hsplit]
      | cons second lines =>
          have hrest := ih (List.cons_ne_nil _ _) fun other hother =>
            hunbroken other (List.mem_cons_of_mem _ hother)
          have hblank : splitBlank ('\n' :: '\n' :: joined '\n' (second :: lines)) =
              [] :: second :: lines := by
            rw [splitBlank, hrest]
          rw [joined_cons _ _ (List.cons_ne_nil _ _), List.append_assoc, splitBlank_append hline]
          exact (congrArg _ hblank).trans (by rw [List.modifyHead_cons, List.append_nil])

/-- Elements that are one word each are the paragraphs of their section. -/
theorem paragraphsOf_unspaced (isWord : Char → Bool) {run : List ParsedElement} (hne : run ≠ [])
    (hwords : ∀ element ∈ run, element.content ≠ [] ∧
      ∀ char ∈ element.content, isSpace char = false) :
    partsOf isWord run = run.map (fun element => (element.content, element.page)) ∧
      paragraphsOf (sectionText isWord run) = run.map ParsedElement.content := by
  have hparts : partsOf isWord run = run.map fun element => (element.content, element.page) := by
    rw [partsOf, ← List.filterMap_eq_map]
    refine List.filterMap_congr fun element helement => ?_
    obtain ⟨hfilled, hunspaced⟩ := hwords element helement
    dsimp only
    rw [normalizeText_unspaced isWord hunspaced, if_neg hfilled]
    rfl
  refine ⟨hparts, ?_⟩
  have hsplit : splitBlank (sectionText isWord run) = run.map ParsedElement.content := by
    rw [sectionText, hparts, List.map_map]
    refine splitBlank_joined (by simpa using hne) fun line hline => ?_
    obtain ⟨element, helement, rfl⟩ := List.mem_map.mp hline
    exact not_mem_of_unspaced (hwords element helement).2 rfl
  rw [paragraphsOf, hsplit, List.map_map, List.filter_eq_self.mpr]
  · refine List.map_congr_left fun element helement => ?_
    exact stripWhere_of_forall (hwords element helement).2
  · intro line hline
    obtain ⟨element, helement, rfl⟩ := List.mem_map.mp hline
    obtain ⟨hfilled, hunspaced⟩ := hwords element helement
    rw [Function.comp_apply, stripWhere_of_forall hunspaced]
    exact decide_eq_true hfilled

/-- A text element that is one long word. -/
def wordElement (letter : Char) (length : ℕ) (page : Option ℕ) : ParsedElement where
  kind := .text
  content := List.replicate length letter
  page := page

@[simp]
theorem wordElement_length (letter : Char) (length : ℕ) (page : Option ℕ) :
    (wordElement letter length page).content.length = length :=
  List.length_replicate

@[simp]
theorem wordElement_page (letter : Char) (length : ℕ) (page : Option ℕ) :
    (wordElement letter length page).page = page := rfl

theorem wordElement_unspaced {letter : Char} (hletter : isSpace letter = false) {length : ℕ}
    (hlength : length ≠ 0) (page : Option ℕ) :
    (wordElement letter length page).content ≠ [] ∧
      ∀ char ∈ (wordElement letter length page).content, isSpace char = false := by
  refine ⟨?_, fun char hchar => ?_⟩
  · simpa [wordElement] using hlength
  · rw [List.eq_of_mem_replicate hchar]
    exact hletter

end AgenticRag.Chunker
