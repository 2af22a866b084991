import AgenticRag.Chunking.LegacySplit
import AgenticRag.Chunking.Places

/-!
# What the legacy splitter does to a text

The splitter moves characters without looking at them, except for blanks and newlines.  Run
on characters that carry their place it therefore yields the same pieces and tells where
each of their characters stood.
-/

namespace AgenticRag.LegacySplit

open AgenticRag.Chunker AgenticRag.Windows AgenticRag.PyString

section Naturality

variable {α β : Type*} {space isNewline : α → Bool} {newline : α} {target overlap : ℕ}
  {spaceTo lineTo : β → Bool} {newlineTo : β} {forget : α → β}

theorem map_modifyHead_cons (char : α) (parts : List (List α)) :
    (parts.modifyHead (char :: ·)).map (List.map forget) =
      (parts.map (List.map forget)).modifyHead (forget char :: ·) := by
  cases parts with
  | nil => rfl
  | cons part parts => rfl

theorem map_splitBlank (hline : ∀ char, lineTo (forget char) = isNewline char) (text : List α) :
    splitBlank lineTo (text.map forget) =
      (splitBlank isNewline text).map (List.map forget) := by
  induction text using splitBlank.induct isNewline with
  | case1 first second rest hboth ih =>
      rw [List.map_cons, List.map_cons, splitBlank, splitBlank, hline, hline, if_pos hboth,
        if_pos hboth, ih]
      rfl
  | case2 first second rest hboth ih =>
      rw [List.map_cons] at ih
      rw [List.map_cons, List.map_cons, splitBlank, splitBlank, hline, hline, if_neg hboth,
        if_neg hboth, ih, map_modifyHead_cons]
  | case3 char => rfl
  | case4 => rfl

theorem map_strip (hspace : ∀ char, spaceTo (forget char) = space char) (text : List α) :
    strip spaceTo (text.map forget) = (strip space text).map forget := by
  have hcompose : spaceTo ∘ forget = space := funext hspace
  rw [strip, strip, List.rdropWhile, List.rdropWhile, List.dropWhile_map, hcompose,
    ← List.map_reverse, List.dropWhile_map, hcompose, List.map_reverse]

theorem map_paragraphs (hspace : ∀ char, spaceTo (forget char) = space char)
    (hline : ∀ char, lineTo (forget char) = isNewline char) (text : List α) :
    paragraphs spaceTo lineTo (text.map forget) =
      (paragraphs space isNewline text).map (List.map forget) := by
  have hstrip : strip spaceTo ∘ List.map forget = List.map forget ∘ strip space :=
    funext (map_strip hspace)
  rw [paragraphs, paragraphs, map_splitBlank hline, List.map_map, hstrip, ← List.map_map,
    List.filter_map]
  congr 2
  funext paragraph
  rw [Function.comp_apply, List.isEmpty_map]

theorem map_addParagraph (hnewline : forget newline = newlineTo) (packing : Packing α)
    (para : List α) :
    addParagraph newlineTo target overlap (packing.map forget) (para.map forget) =
      (addParagraph newline target overlap packing para).map forget := by
  rw [addParagraph, addParagraph]
  simp only [Packing.map, Ne, List.map_eq_nil_iff, List.length_map]
  split_ifs with hflush hnone
  · rw [List.map_append, List.map_singleton]
  · simp only [List.map_append, List.map_singleton, map_blankLine hnewline, List.rtake,
      List.length_map, List.map_drop]
  · rw [map_candidate hnewline]

theorem map_addAll (hnewline : forget newline = newlineTo) (packing : Packing α)
    (paras : List (List α)) :
    (paras.map (List.map forget)).foldl (addParagraph newlineTo target overlap)
        (packing.map forget) =
      (paras.foldl (addParagraph newline target overlap) packing).map forget := by
  induction paras generalizing packing with
  | nil => rfl
  | cons para paras ih =>
      rw [List.map_cons, List.foldl_cons, List.foldl_cons, map_addParagraph hnewline, ih]

theorem map_closeBuffer (hspace : ∀ char, spaceTo (forget char) = space char)
    (packing : Packing α) :
    closeBuffer spaceTo (packing.map forget) =
      (closeBuffer space packing).map (List.map forget) := by
  rw [closeBuffer, closeBuffer, Packing.map, all_map_space hspace]
  split_ifs
  · rfl
  · rw [List.map_append, List.map_singleton]

theorem map_cutChunk (fuel : ℕ) (chunk : List α) :
    cutChunk target overlap fuel (chunk.map forget) =
      (cutChunk target overlap fuel chunk).map (List.map (List.map forget)) := by
  induction fuel generalizing chunk with
  | zero => rfl
  | succ fuel ih =>
      rw [cutChunk, cutChunk, List.length_map, ← List.map_drop, ← List.map_take, ih]
      split_ifs
      · rw [Option.map_map, Option.map_map]
        rfl
      · rfl

theorem map_cutChunks (fuel : ℕ) (chunks : List (List α)) :
    cutChunks target overlap fuel (chunks.map (List.map forget)) =
      (cutChunks target overlap fuel chunks).map (List.map (List.map forget)) := by
  induction chunks with
  | nil => rfl
  | cons chunk chunks ih =>
      rw [List.map_cons, cutChunks, cutChunks, map_cutChunk, ih]
      cases cutChunk target overlap fuel chunk with
      | none => rfl
      | some pieces =>
          cases cutChunks target overlap fuel chunks with
          | none => rfl
          | some others => simp

/-- The splitter moves characters about without looking at them. -/
theorem map_splitText (hspace : ∀ char, spaceTo (forget char) = space char)
    (hline : ∀ char, lineTo (forget char) = isNewline char)
    (hnewline : forget newline = newlineTo) (fuel : ℕ) (text : List α) :
    splitText spaceTo lineTo newlineTo target overlap fuel (text.map forget) =
      (splitText space isNewline newline target overlap fuel text).map
        (List.map (List.map forget)) := by
  have hempty : ({} : Packing β) = ({} : Packing α).map forget := rfl
  rw [splitText, splitText, map_paragraphs hspace hline, hempty, map_addAll hnewline,
    map_closeBuffer hspace, map_cutChunks, Option.map_map, Option.map_map]
  congr 1
  funext final
  rw [Function.comp_apply, Function.comp_apply, List.filter_map]
  congr 2
  funext piece
  rw [Function.comp_apply, all_map_space hspace]

end Naturality

def isNewline (char : Char) : Bool :=
  char == '\n'

/-- `_split_text` on the characters of a text. -/
def splitPlain (target overlap fuel : ℕ) (text : Text) : Option (List Text) :=
  splitText isSpace isNewline '\n' target overlap fuel text

/-- `_split_text` on characters that know their place in the text. -/
def splitPlaced (target overlap fuel : ℕ) (text : Text) : Option (List (List Placed)) :=
  splitText isPlacedSpace (fun char => isNewline char.1) placedNewline target overlap fuel
    (placed 0 text)

theorem map_fst_splitPlaced (target overlap fuel : ℕ) (text : Text) :
    splitPlain target overlap fuel text =
      (splitPlaced target overlap fuel text).map (List.map (List.map Prod.fst)) := by
  have hnatural := @map_splitText Placed Char isPlacedSpace (fun char => isNewline char.1)
    placedNewline target overlap isSpace isNewline '\n' Prod.fst (fun _ => rfl) (fun _ => rfl) rfl
    fuel (placed 0 text)
  rwa [map_fst_placed] at hnatural

/-- What `_split_text` owes a text: no piece is longer than one and a half targets, the
characters of a piece stand where they say and in the order of the text, the pieces are in
order, and no character but blanks is missing. -/
structure SplitInPlace (target : ℕ) (text : Text) (pieces : List (List Placed)) : Prop where
  bounded : ∀ piece ∈ pieces, 2 * piece.length ≤ 3 * target
  filled : ∀ piece ∈ pieces, ∃ char place, (char, some place) ∈ piece
  faithful : ∀ piece ∈ pieces, ∀ char place, (char, some place) ∈ piece → text[place]? = some char
  separators : ∀ piece ∈ pieces, ∀ char, (char, none) ∈ piece → char = '\n'
  increasing : ∀ piece ∈ pieces, Increasing Prod.snd piece
  ordered : pieces.Pairwise (InOrder Prod.snd)
  covered : ∀ place char, text[place]? = some char → isSpace char = false →
    ∃ piece ∈ pieces, (char, some place) ∈ piece

theorem mem_placed_iff {place : ℕ} {char : Char} {text : Text} :
    (char, some place) ∈ placed 0 text ↔ text[place]? = some char := by
  rw [← List.mk_mem_zipIdx_iff_getElem?, placed, List.mem_map]
  constructor
  · intro hfound
    obtain ⟨entry, hentry, hsame⟩ := hfound
    cases hsame
    exact hentry
  · intro hentry
    exact ⟨_, hentry, rfl⟩

theorem key_placed {text : Text} {char : Placed} (hchar : char ∈ placed 0 text) :
    char.2 ≠ none := by
  obtain ⟨entry, _, rfl⟩ := List.mem_map.mp hchar
  exact Option.some_ne_none _

theorem increasing_placed (text : Text) : Increasing Prod.snd (placed 0 text) := by
  have hkeys : (placed 0 text).filterMap Prod.snd = List.range' 0 text.length := by
    rw [placed, List.filterMap_map, ← List.zipIdx_map_snd, ← List.filterMap_eq_map]
    rfl
  rw [Increasing, hkeys]
  exact List.pairwise_lt_range'

/-- For every text the splitter ends, and what it returns is short, in order, and complete
but for blanks. -/
theorem splitPlain_inPlace {target overlap : ℕ} (hless : overlap < target) (text : Text) :
    ∃ pieces, (∃ enough, ∀ fuel, enough < fuel →
        splitPlaced target overlap fuel text = some pieces ∧
          splitPlain target overlap fuel text = some (pieces.map (List.map Prod.fst))) ∧
      SplitInPlace target text pieces := by
  obtain ⟨pieces, enough, hsplit⟩ := @splitText_ends _ isPlacedSpace
    (fun char => isNewline char.1) placedNewline target overlap hless (placed 0 text)
  have hnewline : ∀ char : Placed, isNewline char.1 = true → isPlacedSpace char = true := by
    intro char hline
    rw [isPlacedSpace, beq_iff_eq.mp hline]
    rfl
  have hpieces : Pieces Prod.snd isPlacedSpace placedNewline target (placed 0 text) pieces :=
    pieces_splitText hless rfl hnewline rfl (fun _ hchar => key_placed hchar)
      (increasing_placed text) (hsplit (enough + 1) (Nat.lt_succ_self _))
  have hplain : ∀ fuel, enough < fuel →
      splitPlain target overlap fuel text = some (pieces.map (List.map Prod.fst)) := by
    intro fuel hfuel
    rw [map_fst_splitPlaced, splitPlaced, hsplit fuel hfuel, Option.map_some]
  refine ⟨pieces, ⟨enough, fun fuel hfuel => ⟨hsplit fuel hfuel, hplain fuel hfuel⟩⟩, ?_⟩
  exact {
    bounded := hpieces.bounded
    filled := by
      intro piece hpiece
      obtain ⟨place, hplace⟩ := List.exists_mem_of_ne_nil _ (hpieces.keyed piece hpiece)
      obtain ⟨char, hchar, hkey⟩ := List.mem_filterMap.mp hplace
      exact ⟨char.1, place, hkey ▸ hchar⟩
    faithful := by
      intro piece hpiece char place hchar
      cases hpieces.own piece hpiece _ hchar with
      | inl hseparator => cases hseparator
      | inr hmem => exact mem_placed_iff.mp hmem
    separators := by
      intro piece hpiece char hchar
      cases hpieces.own piece hpiece _ hchar with
      | inl hseparator => exact congrArg Prod.fst hseparator
      | inr hmem => exact absurd rfl (key_placed hmem)
    increasing := hpieces.increasing
    ordered := hpieces.ordered
    covered := fun place char hplace hkept =>
      hpieces.covered _ (mem_placed_iff.mpr hplace) hkept }

/-- The sizes of the default settings. -/
theorem splitPlain_inPlace_default :
    150 < 1200 ∧ ∃ pieces, (∃ enough, ∀ fuel, enough < fuel →
        splitPlaced 1200 150 fuel "Satzung\n\nDie Satzung gilt.".toList = some pieces ∧
          splitPlain 1200 150 fuel "Satzung\n\nDie Satzung gilt.".toList =
            some (pieces.map (List.map Prod.fst))) ∧
      SplitInPlace 1200 "Satzung\n\nDie Satzung gilt.".toList pieces :=
  ⟨by decide, splitPlain_inPlace (by decide) _⟩

end AgenticRag.LegacySplit
