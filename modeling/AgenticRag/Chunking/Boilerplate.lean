import AgenticRag.Chunking.Elements
import AgenticRag.Text.Normalize
import Mathlib.Data.Rat.Defs
import Mathlib.Algebra.Order.Field.Rat
import Mathlib.Tactic.Linarith

/-!
# Repeated headers and footers

`_denoise` counts in how many text elements a line stands and calls that its number of
pages.  A line it removes need not be on most pages, then, nor need there be three.
-/

namespace AgenticRag.Chunker

open AgenticRag.Normalize AgenticRag.PyString

/-- `seen`: the lines of a text, stripped, without the empty ones. -/
def seenLines (text : Text) : List Text :=
  ((text.splitOn '\n').map (stripWhere isSpace)).filter (· ≠ [])

/-- `counts[line]` -/
def occurrences (texts : List Text) (line : Text) : ℕ :=
  texts.countP fun text => line ∈ seenLines text

def boilerplate (texts : List Text) (threshold : ℚ) : List Text :=
  (texts.flatMap seenLines).filter fun line =>
    threshold ≤ occurrences texts line / texts.length ∧ line.length ≤ 80

def withoutLines (lines : List Text) (text : Text) : Text :=
  joinLines ((text.splitOn '\n').filter fun line => stripWhere isSpace line ∉ lines)

/-- `strip_repeated_boilerplate` -/
def stripRepeatedBoilerplate (texts : List Text) (threshold : ℚ := 3 / 5) : List Text :=
  if texts.length < 3 then texts
  else
    let lines := boilerplate texts threshold
    if lines = [] then texts else texts.map (withoutLines lines)

/-- `e.kind == ChunkType.TEXT and e.page` -/
def IsTextPage (element : ParsedElement) : Prop :=
  element.kind = .text ∧ element.page ≠ none ∧ element.page ≠ some 0
  deriving Decidable

/-- `el.content = new` for the text pages, in order. -/
def assignContents : List ParsedElement → List Text → List ParsedElement
  | element :: rest, content :: contents =>
      if IsTextPage element then { element with content := content } :: assignContents rest contents
      else element :: assignContents rest (content :: contents)
  | elements, [] => elements
  | [], _ => []

def textPages (elements : List ParsedElement) : List Text :=
  (elements.filter fun element => IsTextPage element).map ParsedElement.content

/-- `_denoise` -/
def denoise (elements : List ParsedElement) : List ParsedElement :=
  if 3 ≤ (textPages elements).length then
    assignContents elements (stripRepeatedBoilerplate (textPages elements))
  else elements

/-! ## Which lines are lost -/

/-- The element had the line before and has it no longer. -/
def Loses (before after : ParsedElement) (line : Text) : Prop :=
  line ∈ before.content.splitOn '\n' ∧ line ∉ after.content.splitOn '\n'

def LosesLine (elements : List ParsedElement) (line : Text) : Prop :=
  ∃ before after, (before, after) ∈ elements.zip (denoise elements) ∧ Loses before after line

/-- The pages of the document that carry text. -/
def pagesWithText (elements : List ParsedElement) : Finset ℕ :=
  (elements.filterMap fun element =>
    if element.kind = .text ∧ seenLines element.content ≠ [] then element.page
    else none).toFinset

/-- The pages a stripped line stands on. -/
def pagesWithLine (elements : List ParsedElement) (line : Text) : Finset ℕ :=
  (elements.filterMap fun element =>
    if element.kind = .text ∧ line ∈ seenLines element.content then element.page
    else none).toFinset

/-- The lines of at most 80 characters in at least 60 percent of the text elements with a
page, where there are three of them. -/
def OftenRepeated (elements : List ParsedElement) (line : Text) : Prop :=
  3 ≤ (textPages elements).length ∧ line.length ≤ 80 ∧
    3 * (textPages elements).length ≤ 5 * occurrences (textPages elements) line
  deriving Decidable

/-- The line is on at least 60 percent of the pages with text, which are three or more. -/
def OnMostPages (elements : List ParsedElement) (line : Text) : Prop :=
  3 ≤ (pagesWithText elements).card ∧
    3 * (pagesWithText elements).card ≤ 5 * (pagesWithLine elements line).card

theorem mem_seenLines {text line : Text} : line ∈ seenLines text ↔
    line ≠ [] ∧ ∃ raw ∈ text.splitOn '\n', stripWhere isSpace raw = line := by
  rw [seenLines, List.mem_filter, List.mem_map, decide_eq_true_eq, and_comm]

theorem withoutLines_nil (text : Text) : withoutLines [] text = text := by
  have hall : (text.splitOn '\n').filter (fun line => stripWhere isSpace line ∉ ([] : List Text)) =
      text.splitOn '\n' := by simp
  rw [withoutLines, hall, joinLines, List.intercalate_splitOn]

/-- Only the lines to be removed are missing afterwards. -/
theorem not_mem_withoutLines_iff {lines : List Text} (hlines : [] ∉ lines) {text line : Text}
    (hline : line ∈ text.splitOn '\n') :
    line ∉ (withoutLines lines text).splitOn '\n' ↔ stripWhere isSpace line ∈ lines := by
  rw [withoutLines]
  generalize hkept : (text.splitOn '\n').filter
    (fun line => stripWhere isSpace line ∉ lines) = kept
  have hmem : line ∈ kept ↔ stripWhere isSpace line ∉ lines := by
    rw [← hkept, List.mem_filter, decide_eq_true_eq]
    exact and_iff_right hline
  by_cases hnone : kept = []
  · rw [hnone] at hmem ⊢
    have hlost : stripWhere isSpace line ∈ lines := by
      by_contra hnot
      cases hmem.mpr hnot
    refine iff_of_true (fun hback => ?_) hlost
    have hnil : line = [] := List.mem_singleton.mp hback
    rw [hnil] at hlost
    exact hlines hlost
  · have hunbroken : ∀ other ∈ kept, '\n' ∉ other := by
      intro other hother
      rw [← hkept] at hother
      exact not_mem_of_mem_splitOn (List.mem_of_mem_filter hother)
    rw [joinLines, List.splitOn_intercalate '\n' hunbroken hnone, hmem, not_not]

/-- The lines `_denoise` removes. -/
def removedLines (elements : List ParsedElement) : List Text :=
  if 3 ≤ (textPages elements).length then boilerplate (textPages elements) (3 / 5) else []

def cleaned (lines : List Text) (element : ParsedElement) : ParsedElement :=
  if IsTextPage element then { element with content := withoutLines lines element.content }
  else element

theorem cleaned_nil (element : ParsedElement) : cleaned [] element = element := by
  rw [cleaned, withoutLines_nil]
  exact ite_self element

theorem assignContents_map (lines : List Text) (elements : List ParsedElement) :
    assignContents elements ((textPages elements).map (withoutLines lines)) =
      elements.map (cleaned lines) := by
  induction elements with
  | nil => rfl
  | cons element elements ih =>
      by_cases hpage : IsTextPage element
      · have hpages : textPages (element :: elements) = element.content :: textPages elements := by
          rw [textPages, List.filter_cons, if_pos (decide_eq_true hpage)]
          rfl
        rw [hpages, List.map_cons, List.map_cons, assignContents, if_pos hpage, ih, cleaned,
          if_pos hpage]
      · have hpages : textPages (element :: elements) = textPages elements := by
          rw [textPages, List.filter_cons, if_neg (by simpa using hpage)]
          rfl
        rw [hpages, List.map_cons, cleaned, if_neg hpage, ← ih]
        cases (textPages elements).map (withoutLines lines) with
        | nil =>
            rw [assignContents]
            cases elements <;> rfl
        | cons content contents => rw [assignContents, if_neg hpage]

theorem stripRepeatedBoilerplate_eq {texts : List Text} (hmany : 3 ≤ texts.length) :
    stripRepeatedBoilerplate texts = texts.map (withoutLines (boilerplate texts (3 / 5))) := by
  rw [stripRepeatedBoilerplate, if_neg hmany.not_gt]
  dsimp only
  split_ifs with hnone
  · rw [hnone]
    have hsame : withoutLines [] = id := funext withoutLines_nil
    rw [hsame, List.map_id]
  · rfl

theorem denoise_eq (elements : List ParsedElement) :
    denoise elements = elements.map (cleaned (removedLines elements)) := by
  rw [denoise, removedLines]
  split_ifs with hmany
  · rw [stripRepeatedBoilerplate_eq hmany, assignContents_map]
  · have hsame : cleaned [] = id := funext cleaned_nil
    rw [hsame, List.map_id]

/-- The removed lines by their counts. -/
theorem mem_removedLines_iff {elements : List ParsedElement} {line : Text} :
    line ∈ removedLines elements ↔ OftenRepeated elements line := by
  rw [removedLines, OftenRepeated]
  split_ifs with hmany
  · have hpos : (0 : ℚ) < (textPages elements).length := by
      exact_mod_cast (by omega : 0 < (textPages elements).length)
    have hshare : (3 / 5 : ℚ) ≤ occurrences (textPages elements) line /
        (textPages elements).length ↔ 3 * (textPages elements).length ≤
          5 * occurrences (textPages elements) line := by
      rw [le_div_iff₀ hpos, div_mul_eq_mul_div, div_le_iff₀ (by norm_num), mul_comm _ (5 : ℚ)]
      exact_mod_cast Iff.rfl
    rw [boilerplate, List.mem_filter, decide_eq_true_eq, hshare]
    constructor
    · intro hline
      exact ⟨hmany, hline.2.2, hline.2.1⟩
    · intro hoften
      refine ⟨?_, hoften.2.2, hoften.2.1⟩
      have hsome : 0 < occurrences (textPages elements) line := by omega
      obtain ⟨text, htext, hseen⟩ := List.countP_pos_iff.mp hsome
      exact List.mem_flatMap.mpr ⟨text, htext, of_decide_eq_true hseen⟩
  · simp [hmany]

theorem OftenRepeated.exists_element {elements : List ParsedElement} {line : Text}
    (hoften : OftenRepeated elements line) :
    ∃ element ∈ elements, IsTextPage element ∧ line ∈ seenLines element.content := by
  have hsome : 0 < occurrences (textPages elements) line := by
    have hmany := hoften.1
    have hshare := hoften.2.2
    omega
  obtain ⟨text, htext, hseen⟩ := List.countP_pos_iff.mp hsome
  obtain ⟨element, helement, hcontent⟩ := List.mem_map.mp htext
  rw [List.mem_filter, decide_eq_true_eq] at helement
  rw [← hcontent] at hseen
  exact ⟨element, helement.1, helement.2, of_decide_eq_true hseen⟩

/-- An element loses the lines whose stripped form is often repeated. -/
theorem losesLine_iff {elements : List ParsedElement} {line : Text} :
    LosesLine elements line ↔ OftenRepeated elements (stripWhere isSpace line) ∧
      ∃ element ∈ elements, IsTextPage element ∧ line ∈ element.content.splitOn '\n' := by
  have hnonempty : [] ∉ removedLines elements := by
    intro hnil
    obtain ⟨element, _, _, hseen⟩ := (mem_removedLines_iff.mp hnil).exists_element
    exact (mem_seenLines.mp hseen).1 rfl
  rw [LosesLine, denoise_eq, ← List.map_prod_left_eq_zip]
  constructor
  · intro hloses
    obtain ⟨before, after, hpair, hbefore, hafter⟩ := hloses
    obtain ⟨element, helement, hsame⟩ := List.mem_map.mp hpair
    cases hsame
    by_cases hpage : IsTextPage before
    · rw [cleaned, if_pos hpage, not_mem_withoutLines_iff hnonempty hbefore] at hafter
      exact ⟨mem_removedLines_iff.mp hafter, before, helement, hpage, hbefore⟩
    · rw [cleaned, if_neg hpage] at hafter
      exact absurd hbefore hafter
  · intro hoften
    obtain ⟨hoften, element, helement, hpage, hline⟩ := hoften
    refine ⟨element, _, List.mem_map_of_mem helement, hline, ?_⟩
    rw [cleaned, if_pos hpage, not_mem_withoutLines_iff hnonempty hline]
    exact mem_removedLines_iff.mpr hoften

/-- `_denoise` removes only lines that most pages have, and none from a document of fewer
than three pages, exactly when no line is more frequent among the elements than among
the pages. -/
theorem denoise_sound_iff (elements : List ParsedElement) :
    ((∀ line, LosesLine elements line → 3 * (pagesWithText elements).card ≤
        5 * (pagesWithLine elements (stripWhere isSpace line)).card) ∧
      ((pagesWithText elements).card < 3 → ∀ line, ¬ LosesLine elements line)) ↔
    ∀ line, OftenRepeated elements line → OnMostPages elements line := by
  constructor
  · intro hsound line hoften
    obtain ⟨element, helement, hpage, hseen⟩ := hoften.exists_element
    obtain ⟨_, raw, hraw, hstrip⟩ := mem_seenLines.mp hseen
    have hloses : LosesLine elements raw :=
      losesLine_iff.mpr ⟨hstrip.symm ▸ hoften, element, helement, hpage, hraw⟩
    have hshare := hsound.1 raw hloses
    rw [hstrip] at hshare
    refine ⟨?_, hshare⟩
    by_contra hfew
    exact hsound.2 (Nat.lt_of_not_le hfew) raw hloses
  · intro hmost
    refine ⟨fun line hloses => (hmost _ (losesLine_iff.mp hloses).1).2, ?_⟩
    intro hfew line hloses
    have hthree := (hmost _ (losesLine_iff.mp hloses).1).1
    omega

/-- Three paragraphs of one page with the same line. -/
def onePage : List ParsedElement :=
  List.replicate 3 { kind := .text, content := "Siehe oben".toList, page := some 1 }

/-- A document of one page loses a line that stands in three of its elements. -/
theorem denoise_one_page :
    (pagesWithText onePage).card < 3 ∧ LosesLine onePage "Siehe oben".toList := by
  refine ⟨by decide, losesLine_iff.mpr ⟨?_, ?_⟩⟩
  · decide
  · decide

end AgenticRag.Chunker
