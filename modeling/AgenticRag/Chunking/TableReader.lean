import AgenticRag.Chunking.Tables
import AgenticRag.Text.Normalize

/-!
# The web client's table reader

`Markdown` of the admin client reads a pipe table that `table_to_markdown` wrote.  The
writer escapes pipes and the reader does not know the escape; the reader drops carriage
returns and the writer keeps them.  Up to these two the table comes back.
-/

namespace AgenticRag.Chunker

open AgenticRag.PyString AgenticRag.Normalize

/-- The characters that `String.prototype.trim` removes and `\s` matches. -/
def isJsSpace (char : Char) : Bool :=
  let code := char.toNat
  (9 ≤ code && code ≤ 13) || code == 32 || code == 0xA0 || code == 0x1680 ||
    (0x2000 ≤ code && code ≤ 0x200A) || code == 0x2028 || code == 0x2029 || code == 0x202F ||
    code == 0x205F || code == 0x3000 || code == 0xFEFF

def jsTrim (text : Text) : Text :=
  stripWhere isJsSpace text

/-- `text.replace(/\r/g, "")` -/
def dropReturns (text : Text) : Text :=
  text.filter (· ≠ '\r')

/-- `cells` -/
def readCells (row : Text) : List Text :=
  let row := jsTrim row
  let row := if row.head? = some '|' then row.drop 1 else row
  let row := if row.getLast? = some '|' then row.dropLast else row
  (row.splitOn '|').map jsTrim

/-- `t.startsWith("|")` for a trimmed line. -/
def startsRow (line : Text) : Bool :=
  (jsTrim line).head? == some '|'

/-- The test `/^\|?\s*:?-{2,}/` on a trimmed line. -/
def isSeparator (line : Text) : Bool :=
  let line := jsTrim line
  let line := if line.head? = some '|' then line.drop 1 else line
  let line := line.dropWhile isJsSpace
  let line := if line.head? = some ':' then line.drop 1 else line
  "--".toList.isPrefixOf line

/-- The pipe-table branch: the header, the rows and the lines behind the table.  The
branches before it ask for an empty line, a fence or a hash. -/
def readTable (src : List Text) : Option (List Text × List (List Text) × List Text) :=
  match src with
  | first :: second :: rest =>
      if startsRow first && isSeparator second then
        some (readCells first, (rest.takeWhile startsRow).map readCells, rest.dropWhile startsRow)
      else none
  | _ => none

/-- `Markdown` on a text whose first block is a table. -/
def readMarkdownTable (text : Text) : Option (List Text × List (List Text) × List Text) :=
  readTable ((dropReturns text).splitOn '\n')

/-- A cell up to trimming and newline-to-space. -/
def expectedCell (cell : Text) : Text :=
  jsTrim (stripWhere isSpace (cell.map fun char => if char = '\n' then ' ' else char))

def expectedRow (cols : ℕ) (cells : List Text) : List Text :=
  cells.map expectedCell ++ List.replicate (cols - cells.length) []

/-! ## One line -/

/-- A line of the table, from its written cells. -/
def framed (cells : List Text) : Text :=
  "| ".toList ++ joinText " | " cells ++ " |".toList

theorem dropReturns_append (first second : Text) :
    dropReturns (first ++ second) = dropReturns first ++ dropReturns second :=
  List.filter_append first second

theorem dropReturns_cons {char : Char} (hchar : char ≠ '\r') (text : Text) :
    dropReturns (char :: text) = char :: dropReturns text :=
  List.filter_cons_of_pos (decide_eq_true hchar)

theorem dropReturns_of_not_mem {text : Text} (hreturn : '\r' ∉ text) : dropReturns text = text := by
  refine List.filter_eq_self.mpr fun char hchar => ?_
  exact decide_eq_true fun hsame => hreturn (hsame ▸ hchar)

/-- A carriage return counts as a blank, so it does not matter whether it is dropped
before or after trimming. -/
theorem jsTrim_dropReturns (text : Text) : jsTrim (dropReturns text) = dropReturns (jsTrim text) := by
  obtain ⟨left, right, hsplit, hleft, hright⟩ := exists_stripWhere isJsSpace text
  rw [← jsTrim] at hsplit
  have hblank : ∀ part : Text, (∀ char ∈ part, isJsSpace char = true) →
      ∀ char ∈ dropReturns part, isJsSpace char = true :=
    fun part hpart char hchar => hpart char (List.mem_filter.mp hchar).1
  have hkept : ∀ char, isJsSpace char = false → char ≠ '\r' := by
    intro char hchar hsame
    rw [hsame] at hchar
    cases hchar
  have houter : jsTrim (dropReturns text) = jsTrim (dropReturns (jsTrim text)) := by
    calc jsTrim (dropReturns text)
        = jsTrim (dropReturns left ++ (dropReturns (jsTrim text) ++ dropReturns right)) := by
          rw [← dropReturns_append, ← dropReturns_append, ← hsplit]
      _ = jsTrim (dropReturns (jsTrim text)) := by
          rw [jsTrim, stripWhere_append_left (hblank left hleft),
            stripWhere_append_right (hblank right hright), ← jsTrim]
  rw [houter]
  by_cases hempty : jsTrim text = []
  · rw [hempty]
    rfl
  · refine stripWhere_eq_of_ends ?_ ?_
    · obtain ⟨char, rest, hfirst, hchar⟩ := stripWhere_first hempty
      rw [jsTrim, hfirst, dropReturns_cons (hkept char hchar)]
      exact ⟨char, _, rfl, hchar⟩
    · obtain ⟨front, char, hlast, hchar⟩ := stripWhere_last hempty
      rw [jsTrim, hlast, dropReturns_append, dropReturns_cons (hkept char hchar)]
      exact ⟨_, char, rfl, hchar⟩

theorem jsTrim_framed (cells : List Text) : jsTrim (framed cells) = framed cells := by
  have hlast : framed cells = ("| ".toList ++ joinText " | " cells ++ [' ']) ++ ['|'] := by
    rw [framed, List.append_assoc _ [' ']]
    rfl
  exact stripWhere_eq_of_ends ⟨'|', _, rfl, rfl⟩ ⟨_, '|', hlast, rfl⟩

/-- A cell between its pipes. -/
def padded (cell : Text) : Text :=
  ' ' :: cell ++ [' ']

theorem joinText_padded {cells : List Text} (hne : cells ≠ []) :
    ' ' :: joinText " | " cells ++ [' '] = ['|'].intercalate (cells.map padded) := by
  rw [joinText]
  induction cells with
  | nil => exact absurd rfl hne
  | cons cell cells ih =>
      cases cells with
      | nil =>
          rw [List.intercalate_singleton, List.map_singleton, List.intercalate_singleton, padded]
      | cons second cells =>
          have hrest := ih (List.cons_ne_nil _ _)
          rw [List.map_cons] at hrest
          rw [List.map_cons, List.map_cons, List.intercalate_cons_cons, List.intercalate_cons_cons,
            ← hrest]
          simp [padded]

theorem readCells_framed {cells : List Text} (hne : cells ≠ []) :
    readCells (framed cells) =
      ((['|'].intercalate (cells.map padded)).splitOn '|').map jsTrim := by
  have hrest : (framed cells).drop 1 = ' ' :: joinText " | " cells ++ " |".toList := by
    rw [framed, List.append_assoc]
    rfl
  have hend : ' ' :: joinText " | " cells ++ " |".toList =
      (' ' :: joinText " | " cells ++ [' ']) ++ ['|'] := by
    rw [List.append_assoc]
    rfl
  have hhead : (framed cells).head? = some '|' := rfl
  rw [readCells, jsTrim_framed, if_pos hhead, hrest, hend, if_pos List.getLast?_concat,
    List.dropLast_concat, joinText_padded hne]

theorem length_splitOn (text : Text) (separator : Char) :
    (text.splitOn separator).length = text.count separator + 1 := by
  induction text with
  | nil => rfl
  | cons char text ih =>
      rw [List.splitOn_cons_eq_if_modifyHead, List.count_cons]
      split_ifs with hsame
      · rw [List.length_cons, ih]
      · rw [List.length_modifyHead, ih, Nat.add_zero]

theorem count_padded (cells : List Text) :
    (['|'].intercalate (cells.map padded)).count '|' + 1 =
      max 1 cells.length + (cells.map (List.count '|')).sum := by
  induction cells with
  | nil => rfl
  | cons cell cells ih =>
      have hcell : (padded cell).count '|' = cell.count '|' := by
        simp [padded]
      by_cases hempty : cells = []
      · rw [hempty, List.map_singleton, List.intercalate_singleton, hcell]
        simp [Nat.add_comm]
      · obtain ⟨second, rest, rfl⟩ := List.exists_cons_of_ne_nil hempty
        have hpipe : ['|'].count '|' = 1 := rfl
        have hjoin : ['|'].intercalate ((cell :: second :: rest).map padded) =
            padded cell ++ ['|'] ++ ['|'].intercalate ((second :: rest).map padded) :=
          List.intercalate_cons_cons
        rw [hjoin, List.count_append, List.count_append, hcell, hpipe,
          @List.map_cons _ _ _ cell, List.sum_cons, List.length_cons]
        rw [List.length_cons] at ih ⊢
        omega

theorem jsTrim_padded (cell : Text) : jsTrim (padded cell) = jsTrim cell := by
  have hblank : ∀ char ∈ [' '], isJsSpace char = true := by
    intro char hchar
    rw [List.mem_singleton.mp hchar]
    rfl
  rw [padded, jsTrim, List.cons_append, ← List.singleton_append,
    stripWhere_append_left hblank, stripWhere_append_right hblank, ← jsTrim]

/-- The reader finds one cell more for each pipe that stands in a cell. -/
theorem length_readCells {cells : List Text} (hne : cells ≠ []) :
    (readCells (framed cells)).length = cells.length + (cells.map (List.count '|')).sum := by
  have hpos := List.length_pos_of_ne_nil hne
  rw [readCells_framed hne, List.length_map, length_splitOn, count_padded]
  omega

theorem readCells_of_no_pipes {cells : List Text} (hne : cells ≠ [])
    (hpipes : ∀ cell ∈ cells, '|' ∉ cell) : readCells (framed cells) = cells.map jsTrim := by
  have hunsplit : ∀ part ∈ cells.map padded, '|' ∉ part := by
    intro part hpart
    obtain ⟨cell, hcell, rfl⟩ := List.mem_map.mp hpart
    simpa [padded] using hpipes cell hcell
  rw [readCells_framed hne, List.splitOn_intercalate '|' hunsplit (by simpa using hne),
    List.map_map]
  exact List.map_congr_left fun cell _ => jsTrim_padded cell

/-! ## The written cells -/

theorem mdEscape_of_no_pipe {cell : Text} (hpipe : '|' ∉ cell) :
    jsTrim (mdEscape cell) = expectedCell cell := by
  have hsame : (cell.flatMap fun char => if char = '|' then ['\\', '|'] else [char]) = cell := by
    conv_rhs => rw [← List.flatMap_singleton' cell]
    refine List.flatMap_congr fun char hchar => ?_
    have hother : char ≠ '|' := fun hsame => hpipe (hsame ▸ hchar)
    exact if_neg hother
  rw [mdEscape, hsame, expectedCell]

theorem mem_stripWhere {drop : Char → Bool} {char : Char} (hkept : drop char = false)
    {text : Text} (hchar : char ∈ text) : char ∈ stripWhere drop text := by
  obtain ⟨left, right, hsplit, hleft, hright⟩ := exists_stripWhere drop text
  rw [hsplit] at hchar
  cases List.mem_append.mp hchar with
  | inl hmem =>
      rw [hleft char hmem] at hkept
      cases hkept
  | inr hmem =>
      cases List.mem_append.mp hmem with
      | inl hcore => exact hcore
      | inr hend =>
          rw [hright char hend] at hkept
          cases hkept

/-- An escaped pipe is still a pipe. -/
theorem pipe_mem_mdEscape {cell : Text} (hpipe : '|' ∈ cell) : '|' ∈ dropReturns (mdEscape cell) := by
  refine List.mem_filter.mpr ⟨mem_stripWhere rfl ?_, rfl⟩
  refine List.mem_map.mpr ⟨'|', List.mem_flatMap.mpr ⟨'|', hpipe, ?_⟩, rfl⟩
  rw [if_pos rfl]
  exact List.mem_cons_of_mem _ List.mem_cons_self

theorem pipe_not_mem_mdEscape {cell : Text} (hpipe : '|' ∉ cell) : '|' ∉ mdEscape cell := by
  intro hmem
  have hinner := (infix_stripWhere isSpace _).subset hmem
  obtain ⟨char, hchar, hsame⟩ := List.mem_map.mp hinner
  split_ifs at hsame with hnewline
  · cases hsame
  · obtain ⟨original, horiginal, hescaped⟩ := List.mem_flatMap.mp hchar
    have hother : original ≠ '|' := fun heq => hpipe (heq ▸ horiginal)
    rw [if_neg hother, List.mem_singleton, hsame] at hescaped
    exact hother hescaped.symm

theorem newline_not_mem_mdEscape (cell : Text) : '\n' ∉ mdEscape cell := by
  intro hmem
  have hinner := (infix_stripWhere isSpace _).subset hmem
  obtain ⟨char, _, hchar⟩ := List.mem_map.mp hinner
  split_ifs at hchar with hnewline
  · cases hchar
  · exact hnewline hchar

theorem dropReturns_joinText {separator : String} (hreturn : '\r' ∉ separator.toList)
    (parts : List Text) :
    dropReturns (joinText separator parts) = joinText separator (parts.map dropReturns) := by
  rw [joinText, joinText]
  induction parts with
  | nil => rfl
  | cons part parts ih =>
      cases parts with
      | nil => rw [List.map_singleton, List.intercalate_singleton, List.intercalate_singleton]
      | cons second parts =>
          rw [List.map_cons] at ih
          rw [List.map_cons, List.map_cons, List.intercalate_cons_cons, List.intercalate_cons_cons,
            dropReturns_append, dropReturns_append, dropReturns_of_not_mem hreturn, ih]

theorem mem_joinText {separator : String} {parts : List Text} {char : Char}
    (hchar : char ∈ joinText separator parts) :
    char ∈ separator.toList ∨ ∃ part ∈ parts, char ∈ part := by
  rw [joinText] at hchar
  induction parts with
  | nil => cases hchar
  | cons part parts ih =>
      cases parts with
      | nil =>
          rw [List.intercalate_singleton] at hchar
          exact .inr ⟨part, List.mem_cons_self, hchar⟩
      | cons second parts =>
          rw [List.intercalate_cons_cons, List.mem_append, List.mem_append, or_assoc] at hchar
          cases hchar with
          | inl hfirst => exact .inr ⟨part, List.mem_cons_self, hfirst⟩
          | inr hlater =>
              cases hlater with
              | inl hseparator => exact .inl hseparator
              | inr hrest =>
                  refine (ih hrest).imp_right fun hpart => ?_
                  obtain ⟨other, hother, hmem⟩ := hpart
                  exact ⟨other, List.mem_cons_of_mem _ hother, hmem⟩

/-- The written cells of a row. -/
def writtenCells (cols : ℕ) (cells : List Text) : List Text :=
  cells.map mdEscape ++ List.replicate (cols - cells.length) []

theorem dropReturns_markdownLine (cols : ℕ) (cells : List Text) :
    dropReturns (markdownLine cols cells) =
      framed ((writtenCells cols cells).map dropReturns) := by
  rw [markdownLine, dropReturns_append, dropReturns_append, dropReturns_joinText (by decide)]
  rfl

/-- What the reader makes of a written row. -/
theorem readCells_markdownLine_iff {cols : ℕ} (hcols : 0 < cols) {cells : List Text}
    (hwidth : cells.length ≤ cols) :
    readCells (dropReturns (markdownLine cols cells)) = expectedRow cols cells ↔
      ∀ cell ∈ cells, '|' ∉ cell ∧ '\r' ∉ expectedCell cell := by
  have hlength : ((writtenCells cols cells).map dropReturns).length = cols := by
    rw [List.length_map, writtenCells, List.length_append, List.length_map, List.length_replicate]
    omega
  have hne : (writtenCells cols cells).map dropReturns ≠ [] :=
    List.ne_nil_of_length_pos (by omega)
  have hread : (∀ cell ∈ cells, '|' ∉ cell) → readCells (dropReturns (markdownLine cols cells)) =
      cells.map (fun cell => dropReturns (expectedCell cell)) ++
        List.replicate (cols - cells.length) [] := by
    intro hpipes
    have hunpiped : ∀ cell ∈ (writtenCells cols cells).map dropReturns, '|' ∉ cell := by
      intro cell hcell hmem
      obtain ⟨written, hwritten, rfl⟩ := List.mem_map.mp hcell
      have hpipe := (List.mem_filter.mp hmem).1
      cases List.mem_append.mp hwritten with
      | inl hcells =>
          obtain ⟨original, horiginal, rfl⟩ := List.mem_map.mp hcells
          exact pipe_not_mem_mdEscape (hpipes original horiginal) hpipe
      | inr hblank =>
          rw [List.eq_of_mem_replicate hblank] at hpipe
          cases hpipe
    rw [dropReturns_markdownLine, readCells_of_no_pipes hne hunpiped, List.map_map, writtenCells,
      List.map_append, List.map_map, List.map_replicate]
    congr 1
    refine List.map_congr_left fun cell hcell => ?_
    rw [Function.comp_apply, Function.comp_apply, jsTrim_dropReturns,
      mdEscape_of_no_pipe (hpipes cell hcell)]
  rw [dropReturns_markdownLine] at hread ⊢
  constructor
  · intro hsame
    have hpipes : ∀ cell ∈ cells, '|' ∉ cell := by
      have hcount := congrArg List.length hsame
      rw [length_readCells hne, hlength, expectedRow, List.length_append, List.length_map,
        List.length_replicate] at hcount
      intro cell hcell hpipe
      have hmem : dropReturns (mdEscape cell) ∈ (writtenCells cols cells).map dropReturns :=
        List.mem_map_of_mem (List.mem_append_left _ (List.mem_map_of_mem hcell))
      have hsome := List.count_pos_iff.mpr (pipe_mem_mdEscape hpipe)
      have hsum := List.single_le_sum (fun count _ => Nat.zero_le count) _
        (List.mem_map_of_mem (f := List.count '|') hmem)
      omega
    rw [hread hpipes, expectedRow] at hsame
    have hcells := List.append_cancel_right hsame
    intro cell hcell
    refine ⟨hpipes cell hcell, ?_⟩
    have hkept := List.map_inj_left.mp hcells cell hcell
    rw [← hkept]
    intro hmem
    exact absurd rfl (of_decide_eq_true (List.mem_filter.mp hmem).2)
  · intro hclean
    rw [hread fun cell hcell => (hclean cell hcell).1, expectedRow]
    congr 1
    exact List.map_congr_left fun cell hcell => dropReturns_of_not_mem (hclean cell hcell).2

/-! ## The whole table -/

theorem newline_not_mem_markdownLine (cols : ℕ) (cells : List Text) :
    '\n' ∉ dropReturns (markdownLine cols cells) := by
  intro hmem
  have hline := (List.mem_filter.mp hmem).1
  rw [markdownLine, List.mem_append, List.mem_append] at hline
  have hcells : '\n' ∉ joinText " | " (writtenCells cols cells) := by
    intro hjoined
    cases mem_joinText hjoined with
    | inl hseparator => exact absurd hseparator (by decide)
    | inr hpart =>
        obtain ⟨cell, hcell, hnewline⟩ := hpart
        cases List.mem_append.mp hcell with
        | inl hwritten =>
            obtain ⟨original, _, rfl⟩ := List.mem_map.mp hwritten
            exact newline_not_mem_mdEscape original hnewline
        | inr hblank =>
            rw [List.eq_of_mem_replicate hblank] at hnewline
            cases hnewline
  cases hline with
  | inl hfront =>
      cases hfront with
      | inl hpipe => exact absurd hpipe (by decide)
      | inr hjoined => exact hcells hjoined
  | inr hback => exact absurd hback (by decide)

theorem separatorLine_chars {cols : ℕ} {char : Char} (hchar : char ∈ separatorLine cols) :
    char ∈ "|- ".toList := by
  rw [separatorLine, List.mem_append, List.mem_append] at hchar
  have hpipe : char ∈ "|".toList → char ∈ "|- ".toList := by
    intro hmem
    rw [List.mem_singleton.mp hmem]
    decide
  cases hchar with
  | inl hfront =>
      cases hfront with
      | inl hfirst => exact hpipe hfirst
      | inr hjoined =>
          cases mem_joinText hjoined with
          | inl hseparator => exact hpipe hseparator
          | inr hpart =>
              obtain ⟨part, hpart, hmem⟩ := hpart
              rw [List.eq_of_mem_replicate hpart] at hmem
              have hdash : " --- ".toList ⊆ "|- ".toList := by simp
              exact hdash hmem
  | inr hback => exact hpipe hback

theorem dropReturns_separatorLine (cols : ℕ) :
    dropReturns (separatorLine cols) = separatorLine cols := by
  refine dropReturns_of_not_mem fun hmem => ?_
  exact absurd (separatorLine_chars hmem) (by simp)

theorem separatorLine_first {cols : ℕ} (hcols : 0 < cols) :
    ∃ rest, separatorLine cols = '|' :: ' ' :: '-' :: '-' :: rest ++ ['|'] := by
  obtain ⟨count, rfl⟩ := Nat.exists_eq_succ_of_ne_zero hcols.ne'
  rw [separatorLine, joinText]
  cases count with
  | zero => exact ⟨"- ".toList, by simp⟩
  | succ count =>
      rw [List.replicate_succ, List.replicate_succ, List.intercalate_cons_cons]
      exact ⟨_, rfl⟩

theorem isSeparator_separatorLine {cols : ℕ} (hcols : 0 < cols) :
    isSeparator (separatorLine cols) = true := by
  obtain ⟨rest, hrest⟩ := separatorLine_first hcols
  have htrim : jsTrim (separatorLine cols) = separatorLine cols := by
    rw [hrest]
    exact stripWhere_eq_of_ends ⟨'|', _, rfl, rfl⟩ ⟨_, '|', rfl, rfl⟩
  rw [isSeparator, htrim, hrest]
  rfl

theorem startsRow_markdownLine (cols : ℕ) (cells : List Text) :
    startsRow (dropReturns (markdownLine cols cells)) = true := by
  rw [startsRow, dropReturns_markdownLine, jsTrim_framed]
  rfl

/-- The lines that the reader sees. -/
theorem splitOn_tableToMarkdown (table : Table) :
    (dropReturns (tableToMarkdown table)).splitOn '\n' =
      dropReturns (markdownLine table.nCols table.shownHeader) :: separatorLine table.nCols ::
        table.rows.map fun row => dropReturns (markdownLine table.nCols row) := by
  rw [tableToMarkdown, dropReturns_joinText (by decide), List.map_cons, List.map_cons,
    List.map_map, dropReturns_separatorLine]
  refine List.splitOn_intercalate '\n' ?_ (List.cons_ne_nil _ _)
  intro line hline
  cases List.mem_cons.mp hline with
  | inl hheader =>
      rw [hheader]
      exact newline_not_mem_markdownLine _ _
  | inr hrest =>
      cases List.mem_cons.mp hrest with
      | inl hseparator =>
          rw [hseparator]
          intro hmem
          exact absurd (separatorLine_chars hmem) (by simp)
      | inr hrow =>
          obtain ⟨row, _, rfl⟩ := List.mem_map.mp hrow
          exact newline_not_mem_markdownLine _ _

/-- The reader reads the header and every row, and nothing is left. -/
theorem readMarkdownTable_eq {table : Table} (hcols : 0 < table.nCols) :
    readMarkdownTable (tableToMarkdown table) =
      some (readCells (dropReturns (markdownLine table.nCols table.shownHeader)),
        table.rows.map (fun row => readCells (dropReturns (markdownLine table.nCols row))), []) := by
  have hrows : ∀ line ∈ table.rows.map (fun row => dropReturns (markdownLine table.nCols row)),
      startsRow line = true := by
    intro line hline
    obtain ⟨row, _, rfl⟩ := List.mem_map.mp hline
    exact startsRow_markdownLine _ _
  rw [readMarkdownTable, splitOn_tableToMarkdown, readTable, startsRow_markdownLine,
    isSeparator_separatorLine hcols, List.takeWhile_eq_self_iff.mpr hrows,
    List.dropWhile_eq_nil_iff.mpr hrows, List.map_map]
  rfl

theorem le_foldr_max {items : List ℕ} {item : ℕ} (hitem : item ∈ items) :
    item ≤ items.foldr max 0 := by
  induction items with
  | nil => cases hitem
  | cons first items ih =>
      rw [List.foldr_cons]
      cases List.mem_cons.mp hitem with
      | inl hsame => exact hsame ▸ Nat.le_max_left _ _
      | inr hrest => exact (ih hrest).trans (Nat.le_max_right _ _)

theorem row_width {table : Table} {row : List Text} (hrow : row ∈ table.rows) :
    row.length ≤ table.nCols :=
  le_foldr_max (List.mem_append_left _ (List.mem_map_of_mem hrow))

theorem shownHeader_width (table : Table) : table.shownHeader.length ≤ table.nCols := by
  rw [Table.shownHeader]
  split_ifs
  · rw [columnNames, List.length_map, List.length_range]
  · exact le_foldr_max (List.mem_append_right _ (List.mem_singleton.mpr rfl))

theorem mem_expectedCell {cell : Text} {char : Char} (hchar : char ∈ expectedCell cell) :
    char ∈ cell ∨ char = ' ' := by
  have hinner := (infix_stripWhere isSpace _).subset ((infix_stripWhere isJsSpace _).subset hchar)
  obtain ⟨original, horiginal, hsame⟩ := List.mem_map.mp hinner
  split_ifs at hsame
  · exact .inr hsame.symm
  · exact .inl (hsame ▸ horiginal)

theorem mem_columnNames {cols : ℕ} {name : Text} (hname : name ∈ columnNames cols) {char : Char}
    (hchar : char ∈ name) : char ∈ "Spalte ".toList ∨ char.isDigit = true := by
  obtain ⟨column, _, rfl⟩ := List.mem_map.mp hname
  cases List.mem_append.mp hchar with
  | inl hword => exact .inl hword
  | inr hdigit =>
      rw [digits, Nat.toString_eq_repr, Nat.toList_repr] at hdigit
      exact .inr (Nat.isDigit_of_mem_toDigits (by decide) (by decide) hdigit)

/-- The names of the columns hold neither pipes nor carriage returns. -/
theorem columnNames_clean {cols : ℕ} {name : Text} (hname : name ∈ columnNames cols) :
    '|' ∉ name ∧ '\r' ∉ expectedCell name := by
  refine ⟨fun hpipe => ?_, fun hreturn => ?_⟩
  · cases mem_columnNames hname hpipe with
    | inl hword => exact absurd hword (by decide)
    | inr hdigit => exact absurd hdigit (by decide)
  · cases mem_expectedCell hreturn with
    | inl hmem =>
        cases mem_columnNames hname hmem with
        | inl hword => exact absurd hword (by decide)
        | inr hdigit => exact absurd hdigit (by decide)
    | inr hspace => exact absurd hspace (by decide)

theorem shownHeader_clean_iff (table : Table) :
    (∀ cell ∈ table.shownHeader, '|' ∉ cell ∧ '\r' ∉ expectedCell cell) ↔
      ∀ cell ∈ table.headers, '|' ∉ cell ∧ '\r' ∉ expectedCell cell := by
  rw [Table.shownHeader]
  split_ifs with hnone
  · rw [hnone]
    refine iff_of_true (fun cell hcell => columnNames_clean hcell) fun cell hcell => ?_
    cases hcell
  · rfl

/-- The reader gives back the table that was written, every cell up to trimming and
newline-to-space, exactly when no cell holds a pipe, nor a carriage return between its
first and its last character that is not blank. -/
theorem readMarkdownTable_roundtrip_iff {table : Table} (hcols : 0 < table.nCols) :
    readMarkdownTable (tableToMarkdown table) =
        some (expectedRow table.nCols table.shownHeader,
          table.rows.map (expectedRow table.nCols), []) ↔
      ∀ row ∈ table.headers :: table.rows, ∀ cell ∈ row,
        '|' ∉ cell ∧ '\r' ∉ expectedCell cell := by
  rw [readMarkdownTable_eq hcols, Option.some_inj, Prod.mk.injEq, Prod.mk.injEq,
    readCells_markdownLine_iff hcols (shownHeader_width table), shownHeader_clean_iff,
    List.map_inj_left, List.forall_mem_cons]
  refine and_congr_right fun _ => ?_
  rw [and_iff_left rfl]
  refine forall₂_congr fun row hrow => ?_
  exact readCells_markdownLine_iff hcols (row_width hrow)

/-- A ragged table of plain cells comes back, padded. -/
theorem readMarkdownTable_roundtrip_ragged :
    readMarkdownTable (tableToMarkdown
        { rows := [[" 1 ".toList], ["2".toList, "x\ny".toList]], header := some ["A".toList] }) =
      some (["A".toList, []], [["1".toList, []], ["2".toList, "x y".toList]], []) :=
  (@readMarkdownTable_roundtrip_iff
    { rows := [[" 1 ".toList], ["2".toList, "x\ny".toList]], header := some ["A".toList] }
    (by decide)).mpr (by decide)

/-- A cell with a pipe is read as two. -/
theorem readMarkdownTable_pipe :
    ¬ readMarkdownTable (tableToMarkdown
        { rows := [["a|b".toList]], header := some ["A".toList] }) =
      some (expectedRow 1 ["A".toList], [expectedRow 1 ["a|b".toList]], []) := by
  decide

end AgenticRag.Chunker
