import AgenticRag.Chunking.Tables
import AgenticRag.Text.Lines
import AgenticRag.Text.Normalize

/-!
# Tables from the document parser

`_table_element` takes the first row of a grid for the header when one of its cells is
marked so.  `chunk_table` then reads the rows; a table that has only a header counts as
one without rows, and neither its header nor its caption reaches the index.
-/

namespace AgenticRag.Chunker

open AgenticRag.PyString AgenticRag.Normalize

/-- A cell of the parser's grid. -/
structure GridCell where
  text : Option Text
  columnHeader : Bool := false

/-- `(c.text or "").strip()` for the cells of a row. -/
def cellTexts (row : List GridCell) : List Text :=
  row.map fun cell => stripWhere isSpace (cell.text.getD [])

/-- The header and the rows that the loop over the grid finds. -/
def readGrid : List (List GridCell) → Option (List Text) × List (List Text)
  | [] => (none, [])
  | first :: rest =>
      if first.any GridCell.columnHeader then (some (cellTexts first), rest.map cellTexts)
      else (none, (first :: rest).map cellTexts)

/-- `(item.caption_text(doc) or "").strip() or None` -/
def readCaption (caption : Option Text) : Option Text :=
  truthy (some (stripWhere isSpace (caption.getD [])))

/-- `_table_element` -/
def tableElement (grid : List (List GridCell)) (caption : Option Text) (page : Option ℕ)
    (bbox : Option Bbox) (sectionTitle : Option Text) : ParsedElement where
  kind := .table
  content := []
  page := page
  sectionTitle := sectionTitle
  bbox := bbox
  metadata :=
    { rows := some (readGrid grid).2
      header := (readGrid grid).1.filter fun header => header ≠ []
      caption := readCaption caption }

/-- The texts of the table: its cells and its caption, without the empty ones. -/
def tableTexts (grid : List (List GridCell)) (caption : Option Text) : List Text :=
  (grid.flatMap cellTexts).filter (· ≠ []) ++ (readCaption caption).toList

/-- The text occurs in the content, as it is or escaped. -/
def Shown (text content : Text) : Prop :=
  text <:+: content ∨ mdEscape text <:+: content

instance (text content : Text) : Decidable (Shown text content) :=
  inferInstanceAs (Decidable (_ ∨ _))

theorem infix_joinText (separator : String) {part : Text} {parts : List Text}
    (hpart : part ∈ parts) : part <:+: joinText separator parts :=
  Lines.infix_of_mem hpart

theorem infix_markdownLine {cell : Text} {cells : List Text} (hcell : cell ∈ cells) (cols : ℕ) :
    mdEscape cell <:+: markdownLine cols cells := by
  have hjoined : mdEscape cell <:+: joinText " | "
      (cells.map mdEscape ++ List.replicate (cols - cells.length) []) :=
    infix_joinText _ (List.mem_append_left _ (List.mem_map_of_mem hcell))
  rw [markdownLine]
  exact hjoined.trans ⟨_, _, rfl⟩

theorem row_infix_markdown {table : Table} {row : List Text} (hrow : row ∈ table.rows)
    {cell : Text} (hcell : cell ∈ row) : mdEscape cell <:+: tableToMarkdown table := by
  refine (infix_markdownLine hcell table.nCols).trans (infix_joinText _ ?_)
  exact List.mem_cons_of_mem _ (List.mem_cons_of_mem _ (List.mem_map_of_mem hrow))

theorem header_infix_markdown {table : Table} {cell : Text} (hcell : cell ∈ table.headers) :
    mdEscape cell <:+: tableToMarkdown table := by
  have hshown : table.shownHeader = table.headers :=
    if_neg (List.ne_nil_of_mem hcell)
  rw [tableToMarkdown, hshown]
  exact (infix_markdownLine hcell table.nCols).trans (infix_joinText _ List.mem_cons_self)

theorem caption_infix_summary {table : Table} {caption : Text}
    (hcaption : truthy table.caption = some caption) (sectionTitle captionHint : Option Text) :
    stripWhere isSpace caption <:+: tableSummary table sectionTitle captionHint := by
  have hsubject : summarySubject table sectionTitle captionHint =
      ["(".toList ++ stripWhere isSpace caption ++ ")".toList] := by
    rw [summarySubject, hcaption]
  have hpart : stripWhere isSpace caption <:+: "(".toList ++ stripWhere isSpace caption ++
      ")".toList := ⟨_, _, rfl⟩
  rw [tableSummary, hsubject]
  refine hpart.trans ((infix_joinText " " ?_).trans (List.prefix_append _ _).isInfix)
  exact List.mem_cons_of_mem _ (List.mem_append_left _ (List.mem_singleton.mpr rfl))

/-- The grid has no row besides a header. -/
def OnlyHeader (grid : List (List GridCell)) : Prop :=
  grid.length ≤ 1 ∧ ∀ row ∈ grid, row.any GridCell.columnHeader = true

theorem readGrid_rows_eq_nil_iff (grid : List (List GridCell)) :
    (readGrid grid).2 = [] ↔ OnlyHeader grid := by
  rw [OnlyHeader]
  cases grid with
  | nil => simp [readGrid]
  | cons first rest =>
      rw [readGrid]
      split_ifs with hheader
      · simp only [List.map_eq_nil_iff, List.length_cons]
        constructor
        · intro hrest
          rw [hrest]
          exact ⟨Nat.le_refl _, fun row hrow => List.mem_singleton.mp hrow ▸ hheader⟩
        · intro honly
          exact List.length_eq_zero_iff.mp (by omega)
      · refine iff_of_false (List.cons_ne_nil _ _) fun honly => hheader ?_
        exact honly.2 first List.mem_cons_self

/-- Every row of the grid is read, as the header or as a row. -/
theorem readGrid_covers {grid : List (List GridCell)} {row : List GridCell} (hrow : row ∈ grid) :
    (readGrid grid).1 = some (cellTexts row) ∨ cellTexts row ∈ (readGrid grid).2 := by
  cases grid with
  | nil => cases hrow
  | cons first rest =>
      rw [readGrid]
      split_ifs with hheader
      · cases List.mem_cons.mp hrow with
        | inl hsame => exact .inl (by rw [hsame])
        | inr hrest => exact .inr (List.mem_map_of_mem hrest)
      · exact .inr (List.mem_map_of_mem hrow)

section

variable {grid : List (List GridCell)} {caption : Option Text} {page : Option ℕ}
  {bbox : Option Bbox} {sectionTitle : Option Text}

/-- The table that `chunk_table` reads from the element. -/
def gridTable (grid : List (List GridCell)) (caption : Option Text) : Table where
  rows := (readGrid grid).2
  header := (readGrid grid).1.filter fun header => header ≠ []
  caption := readCaption caption

theorem structured_tableElement (hbody : ¬ OnlyHeader grid) :
    structured (tableElement grid caption page bbox sectionTitle) =
      some (gridTable grid caption) := by
  rw [← readGrid_rows_eq_nil_iff] at hbody
  obtain ⟨row, rows, hrows⟩ := List.exists_cons_of_ne_nil hbody
  rw [structured, tableElement, gridTable]
  dsimp only
  rw [hrows]

theorem structured_onlyHeader (hheader : OnlyHeader grid) :
    structured (tableElement grid caption page bbox sectionTitle) = none := by
  rw [structured, tableElement]
  dsimp only
  rw [(readGrid_rows_eq_nil_iff grid).mpr hheader]

theorem readCaption_stripped {text : Text} (hcaption : readCaption caption = some text) :
    truthy (readCaption caption) = some text ∧ stripWhere isSpace text = text := by
  rw [readCaption, truthy] at hcaption
  split_ifs at hcaption with hempty
  rw [← Option.some.inj hcaption]
  refine ⟨?_, ?_⟩
  · rw [readCaption, truthy, if_neg hempty, truthy, if_neg hempty]
  · exact stripWhere_eq_of_ends (stripWhere_first hempty) (stripWhere_last hempty)

/-- A table with a body shows its header, its rows and its caption. -/
theorem gridTable_shows {text : Text} (htext : text ∈ tableTexts grid caption)
    (captionHint : Option Text) :
    Shown text (markdownChunk (tableElement grid caption page bbox sectionTitle)
      (tableSummary (gridTable grid caption) sectionTitle captionHint)
      (tableToMarkdown (gridTable grid caption))).normalizedContent := by
  cases List.mem_append.mp htext with
  | inl hcell =>
      obtain ⟨row, hrow, hmem⟩ := List.mem_flatMap.mp (List.mem_filter.mp hcell).1
      have hmarkdown : mdEscape text <:+: tableToMarkdown (gridTable grid caption) := by
        cases readGrid_covers hrow with
        | inl hheader =>
            refine header_infix_markdown ?_
            rw [Table.headers, gridTable, hheader, Option.filter_some_pos]
            · exact hmem
            · exact decide_eq_true (List.ne_nil_of_mem hmem)
        | inr hbody => exact row_infix_markdown hbody hmem
      exact .inr (hmarkdown.trans (List.suffix_append _ _).isInfix)
  | inr hcaption =>
      obtain ⟨htruthy, hstripped⟩ := readCaption_stripped (Option.mem_toList.mp hcaption)
      have hsummary := @caption_infix_summary (gridTable grid caption) text htruthy sectionTitle
        captionHint
      rw [hstripped] at hsummary
      refine .inl (hsummary.trans ?_)
      rw [markdownChunk, List.append_assoc]
      exact (List.prefix_append _ _).isInfix

end

/-- Every cell of a table and its caption reach a chunk exactly when the table has a row
besides its header, or its texts happen to stand in the placeholder line. -/
theorem tableElement_complete_iff (settings : ChunkSettings) (grid : List (List GridCell))
    (caption : Option Text) (page : Option ℕ) (bbox : Option Bbox)
    (sectionTitle captionHint : Option Text) :
    (∀ text ∈ tableTexts grid caption,
      ∃ chunk ∈ chunkTable settings (tableElement grid caption page bbox sectionTitle) captionHint,
        Shown text chunk.normalizedContent) ↔
    ¬ OnlyHeader grid ∨ ∀ text ∈ tableTexts grid caption,
      Shown text (plainSummary (tableElement grid caption page bbox sectionTitle) captionHint ++
        "\n\n".toList) := by
  rw [chunkTable]
  by_cases hheader : OnlyHeader grid
  · rw [structured_onlyHeader hheader]
    simp only [hheader, not_true_eq_false, false_or, List.mem_singleton, exists_eq_left]
    rw [markdownChunk, tableElement]
    dsimp only
    rw [List.append_nil]
  · refine iff_of_true (fun text htext => ?_) (.inl hheader)
    rw [structured_tableElement hheader]
    exact ⟨_, List.mem_cons_self, gridTable_shows htext captionHint⟩

/-- A header row and a caption: the chunk is the placeholder line alone. -/
theorem tableElement_header_lost :
    ¬ ∀ text ∈ tableTexts [[⟨some "Jahr".toList, true⟩]] (some "Einwohner".toList),
      ∃ chunk ∈ chunkTable ChunkSettings.default
          (tableElement [[⟨some "Jahr".toList, true⟩]] (some "Einwohner".toList) none none none)
          none,
        Shown text chunk.normalizedContent := by
  decide

end AgenticRag.Chunker
