import AgenticRag.Client.Inline
import AgenticRag.Text.Lines

/-!
# Markdown of the web client

How `Markdown` cuts an answer into blocks, as far as it decides which texts are handed to
`inline`.  Every such text stands in one line of the answer.
-/

namespace AgenticRag.Client

open AgenticRag.PyString

/-- `text.trim()` of JavaScript. -/
def trim (text : Text) : Text :=
  stripWhere isJsSpace text

/-- Where the dot of a JavaScript expression stops. -/
def isLineEnd (char : Char) : Bool :=
  char == '\n' || char == '\r' || char == '\u2028' || char == '\u2029'

def isFence (line : Text) : Bool :=
  ['\x60', '\x60', '\x60'].isPrefixOf (trim line)

/-- `/^(#{1,4})\s+(.*)$/`: the second group. -/
def heading (text : Text) : Option Text :=
  let level := (text.takeWhile (· = '#')).length
  let behind := text.dropWhile (· = '#')
  let title := behind.dropWhile isJsSpace
  if 1 ≤ level ∧ level ≤ 4 ∧ behind.head?.any isJsSpace ∧ title.all (fun char => !isLineEnd char)
  then some title
  else none

/-- `text.replace(c, "")` at the front. -/
def dropFirst (char : Char) (text : Text) : Text :=
  if text.head? = some char then text.tail else text

/-- `/^\|?\s*:?-{2,}/` -/
def isRule (line : Text) : Bool :=
  ['-', '-'].isPrefixOf (dropFirst ':' ((dropFirst '|' (trim line)).dropWhile isJsSpace))

def isRow (line : Text) : Bool :=
  (trim line).head? = some '|'

def cells (row : Text) : List Text :=
  let inner := dropFirst '|' (trim row)
  let inner := if inner.getLast? = some '|' then inner.dropLast else inner
  (inner.splitOn '|').map trim

/-- `[-*•]|\d+[.)]`: the text behind it. -/
def bulletSign : Text → Option Text
  | '-' :: rest => some rest
  | '*' :: rest => some rest
  | '•' :: rest => some rest
  | text =>
      match text.dropWhile isJsDigit with
      | sign :: rest =>
          if text.takeWhile isJsDigit ≠ [] ∧ (sign = '.' ∨ sign = ')') then some rest else none
      | [] => none

/-- `BULLET`: the trimmed text of the item. -/
def bullet (line : Text) : Option Text :=
  match bulletSign (line.dropWhile isJsSpace) with
  | some rest =>
      if rest.head?.any isJsSpace then some (trim (rest.dropWhile isJsSpace)) else none
  | none => none

/-- The line belongs to a list that has begun. -/
def inList (line : Text) : Bool :=
  trim line ≠ [] && ((bullet line).isSome || line.head?.any isJsSpace)

def itemText (line : Text) : Text :=
  (bullet line).getD (trim line)

def isQuote (line : Text) : Bool :=
  (trim line).head? = some '>'

/-- `/^>\s?/` is taken off the line. -/
def quoteText (line : Text) : Text :=
  let text := (trim line).drop 1
  if text.head?.any isJsSpace then text.drop 1 else text

/-- The texts that are handed to `inline`, block by block.  The buffered paragraph lines
come before the block that flushes them, so the order is that of the lines. -/
def pieces : List Text → List Text
  | [] => []
  | line :: rest =>
      if trim line = [] then pieces rest
      else if isFence line then pieces ((rest.dropWhile fun other => !isFence other).drop 1)
      else
        match heading (trim line) with
        | some title => title :: pieces rest
        | none =>
            if isRow line ∧ rest.head?.any isRule then
              cells line ++ (((rest.drop 1).takeWhile isRow).flatMap cells ++
                pieces ((rest.drop 1).dropWhile isRow))
            else if (bullet line).isSome then
              (line :: rest.takeWhile inList).map itemText ++ pieces (rest.dropWhile inList)
            else if isQuote line then
              (line :: rest.takeWhile isQuote).map quoteText ++ pieces (rest.dropWhile isQuote)
            else trim line :: pieces rest
termination_by lines => lines.length
decreasing_by
  all_goals
    have hfence := List.length_dropWhile_le (fun other => !isFence other) rest
    have hrow := List.length_dropWhile_le isRow (rest.drop 1)
    have hlist := List.length_dropWhile_le inList rest
    have hquote := List.length_dropWhile_le isQuote rest
    simp only [List.length_drop, List.length_cons] at *
    omega

/-- The lines of `Markdown`. -/
def sourceLines (answer : Text) : List Text :=
  (answer.filter (· ≠ '\r')).splitOn '\n'

/-- The citation markers of a rendered answer. -/
def shownMarkers (answer : Text) : List Marker :=
  (pieces (sourceLines answer)).flatMap inlineMarkers

/-! ## Every piece stands in a line -/

theorem infix_trim (text : Text) : trim text <:+: text := by
  obtain ⟨left, right, hsplit, _⟩ := exists_stripWhere isJsSpace text
  exact ⟨left, right, by rw [List.append_assoc]; exact hsplit.symm⟩

theorem suffix_dropFirst (char : Char) (text : Text) : dropFirst char text <:+ text := by
  rw [dropFirst]
  split_ifs
  · exact List.tail_suffix _
  · exact List.suffix_rfl

theorem infix_heading {text title : Text} (hheading : heading text = some title) :
    title <:+: text := by
  rw [heading] at hheading
  split_ifs at hheading
  cases hheading
  exact ((List.dropWhile_suffix _).trans (List.dropWhile_suffix _)).isInfix

theorem infix_cells {row cell : Text} (hcell : cell ∈ cells row) : cell <:+: row := by
  rw [cells] at hcell
  obtain ⟨part, hpart, rfl⟩ := List.mem_map.mp hcell
  have hjoined := @Lines.infix_of_mem _ ['|'] _ _ hpart
  rw [List.intercalate_splitOn] at hjoined
  have hinner : dropFirst '|' (trim row) <:+: row :=
    (suffix_dropFirst '|' (trim row)).isInfix.trans (infix_trim row)
  refine ((infix_trim part).trans hjoined).trans ?_
  split_ifs
  · exact (List.dropLast_prefix _).isInfix.trans hinner
  · exact hinner

theorem suffix_bulletSign {text rest : Text} (hsign : bulletSign text = some rest) :
    rest <:+ text := by
  unfold bulletSign at hsign
  split at hsign
  · cases hsign
    exact List.suffix_cons _ _
  · cases hsign
    exact List.suffix_cons _ _
  · cases hsign
    exact List.suffix_cons _ _
  · split at hsign
    · rename_i sign behind hbehind
      split_ifs at hsign
      cases hsign
      have hsuffix : sign :: rest <:+ text := hbehind ▸ List.dropWhile_suffix _
      exact (List.suffix_cons _ _).trans hsuffix
    · cases hsign

theorem infix_itemText (line : Text) : itemText line <:+: line := by
  rw [itemText]
  cases hbullet : bullet line with
  | none => exact infix_trim line
  | some item =>
      unfold bullet at hbullet
      split at hbullet
      · rename_i rest hsign
        split_ifs at hbullet
        cases hbullet
        exact (infix_trim _).trans (((List.dropWhile_suffix _).trans
          (suffix_bulletSign hsign)).trans (List.dropWhile_suffix _)).isInfix
      · cases hbullet

theorem infix_quoteText (line : Text) : quoteText line <:+: line := by
  rw [quoteText]
  have hdrop : (trim line).drop 1 <:+: line :=
    (List.drop_suffix _ _).isInfix.trans (infix_trim line)
  split_ifs
  · exact (List.drop_suffix _ _).isInfix.trans hdrop
  · exact hdrop

/-- The text stands in one of the lines. -/
def Within (lines : List Text) (piece : Text) : Prop :=
  ∃ line ∈ lines, piece <:+: line

theorem Within.mono {lines more : List Text} {piece : Text} (hwithin : Within lines piece)
    (hsubset : lines ⊆ more) : Within more piece := by
  obtain ⟨line, hline, hpiece⟩ := hwithin
  exact ⟨line, hsubset hline, hpiece⟩

theorem Within.of_map {lines : List Text} {read : Text → Text} {piece : Text}
    (hread : ∀ line, read line <:+: line) (hpiece : piece ∈ lines.map read) :
    Within lines piece := by
  obtain ⟨line, hline, rfl⟩ := List.mem_map.mp hpiece
  exact ⟨line, hline, hread line⟩

/-- Every text that is handed to `inline` stands in a line. -/
theorem mem_pieces {lines : List Text} {piece : Text} (hpiece : piece ∈ pieces lines) :
    Within lines piece := by
  induction lines using pieces.induct with
  | case1 =>
      rw [pieces] at hpiece
      cases hpiece
  | case2 line rest hblank ih =>
      rw [pieces, if_pos hblank] at hpiece
      exact (ih hpiece).mono (List.subset_cons_self _ _)
  | case3 line rest hblank hfence ih =>
      rw [pieces, if_neg hblank, if_pos hfence] at hpiece
      have hlater : (rest.dropWhile fun other => !isFence other).drop 1 <:+ line :: rest :=
        ((List.drop_suffix _ _).trans (List.dropWhile_suffix _)).trans (List.suffix_cons _ _)
      exact (ih hpiece).mono hlater.subset
  | case4 line rest hblank hfence title htitle ih =>
      rw [pieces, if_neg hblank, if_neg hfence, htitle] at hpiece
      cases List.mem_cons.mp hpiece with
      | inl hhead =>
          rw [hhead]
          exact ⟨line, List.mem_cons_self, (infix_heading htitle).trans (infix_trim line)⟩
      | inr hrest => exact (ih hrest).mono (List.subset_cons_self _ _)
  | case5 line rest hblank hfence htitle htable ih =>
      rw [pieces, if_neg hblank, if_neg hfence, htitle] at hpiece
      dsimp only at hpiece
      rw [if_pos htable, List.mem_append, List.mem_append] at hpiece
      have hlater : rest.drop 1 <:+ line :: rest :=
        (List.drop_suffix _ _).trans (List.suffix_cons _ _)
      cases hpiece with
      | inl hhead => exact ⟨line, List.mem_cons_self, infix_cells hhead⟩
      | inr hbelow =>
          cases hbelow with
          | inl hrows =>
              obtain ⟨row, hrow, hcell⟩ := List.mem_flatMap.mp hrows
              have hbelow := (List.takeWhile_prefix isRow).subset hrow
              exact ⟨row, hlater.subset hbelow, infix_cells hcell⟩
          | inr hrest => exact (ih hrest).mono ((List.dropWhile_suffix _).trans hlater).subset
  | case6 line rest hblank hfence htitle htable hbullet ih =>
      rw [pieces, if_neg hblank, if_neg hfence, htitle] at hpiece
      dsimp only at hpiece
      rw [if_neg htable, if_pos hbullet, List.mem_append] at hpiece
      cases hpiece with
      | inl hitem =>
          exact (Within.of_map infix_itemText hitem).mono
            (List.cons_subset_cons _ (List.takeWhile_prefix _).subset)
      | inr hrest =>
          exact (ih hrest).mono ((List.dropWhile_suffix _).trans (List.suffix_cons _ _)).subset
  | case7 line rest hblank hfence htitle htable hbullet hquote ih =>
      rw [pieces, if_neg hblank, if_neg hfence, htitle] at hpiece
      dsimp only at hpiece
      rw [if_neg htable, if_neg hbullet, if_pos hquote, List.mem_append] at hpiece
      cases hpiece with
      | inl hitem =>
          exact (Within.of_map infix_quoteText hitem).mono
            (List.cons_subset_cons _ (List.takeWhile_prefix _).subset)
      | inr hrest =>
          exact (ih hrest).mono ((List.dropWhile_suffix _).trans (List.suffix_cons _ _)).subset
  | case8 line rest hblank hfence htitle htable hbullet hquote ih =>
      rw [pieces, if_neg hblank, if_neg hfence, htitle] at hpiece
      dsimp only at hpiece
      rw [if_neg htable, if_neg hbullet, if_neg hquote] at hpiece
      cases List.mem_cons.mp hpiece with
      | inl hhead =>
          rw [hhead]
          exact ⟨line, List.mem_cons_self, infix_trim line⟩
      | inr hrest => exact (ih hrest).mono (List.subset_cons_self _ _)

/-- A marker that is shown stands in the answer without its carriage returns. -/
theorem mem_shownMarkers {answer : Text} {cited : Marker} (hcited : cited ∈ shownMarkers answer) :
    cited.source <:+: answer.filter (· ≠ '\r') ∧ cited.Form := by
  obtain ⟨piece, hpiece, hmarker⟩ := List.mem_flatMap.mp hcited
  obtain ⟨hwithin, hform⟩ := mem_inlineMarkers hmarker
  obtain ⟨line, hline, hinfix⟩ := mem_pieces hpiece
  have hjoined := @Lines.infix_of_mem _ ['\n'] _ _ hline
  rw [sourceLines, List.intercalate_splitOn] at hjoined
  exact ⟨(hwithin.trans hinfix).trans hjoined, hform⟩

end AgenticRag.Client
