import AgenticRag.Chunking.Elements
import AgenticRag.Context.Assembler

/-!
# Table chunks

`chunk_table`: a table becomes one Markdown chunk and, when it is large, row chunks that
are packed to the token limit.
-/

namespace AgenticRag.Chunker

open AgenticRag.PyString
open AgenticRag.Assembler (estimateTokens)

/-- `separator.join(parts)` -/
def joinText (separator : String) (parts : List Text) : Text :=
  separator.toList.intercalate parts

/-- The decimal digits of a number. -/
def digits (number : ℕ) : Text :=
  (toString number).toList

/-- An optional text as Python tests it: an empty one counts as none. -/
def truthy : Option Text → Option Text
  | some text => if text = [] then none else some text
  | none => none

structure Table where
  rows : List (List Text)
  header : Option (List Text) := none
  caption : Option Text := none

namespace Table

def nRows (table : Table) : ℕ :=
  table.rows.length

/-- The header, unless it is missing or empty. -/
def headers (table : Table) : List Text :=
  table.header.getD []

/-- The longest row or header; an empty header does not count. -/
def nCols (table : Table) : ℕ :=
  (table.rows.map List.length ++ [table.headers.length]).foldr max 0

end Table

/-- `_md_escape` -/
def mdEscape (cell : Text) : Text :=
  stripWhere isSpace ((cell.flatMap fun char =>
    if char = '|' then ['\\', '|'] else [char]).map fun char =>
      if char = '\n' then ' ' else char)

/-- `f"Spalte {i + 1}"` for each column. -/
def columnNames (cols : ℕ) : List Text :=
  (List.range cols).map fun column => "Spalte ".toList ++ digits (column + 1)

/-- One line of the Markdown table, with empty cells up to the width. -/
def markdownLine (cols : ℕ) (cells : List Text) : Text :=
  "| ".toList ++ joinText " | " (cells.map mdEscape ++ List.replicate (cols - cells.length) []) ++
    " |".toList

def separatorLine (cols : ℕ) : Text :=
  "|".toList ++ joinText "|" (List.replicate cols " --- ".toList) ++ "|".toList

/-- The header of the Markdown table. -/
def Table.shownHeader (table : Table) : List Text :=
  if table.headers = [] then columnNames table.nCols else table.headers

def tableToMarkdown (table : Table) : Text :=
  joinText "\n" (markdownLine table.nCols table.shownHeader :: separatorLine table.nCols ::
    table.rows.map (markdownLine table.nCols))

/-- What the summary says the table is about. -/
def summarySubject (table : Table) (sectionTitle captionHint : Option Text) : List Text :=
  match truthy table.caption, truthy captionHint, truthy sectionTitle with
  | some caption, _, _ => ["(".toList ++ stripWhere isSpace caption ++ ")".toList]
  | none, some hint, _ => ["(".toList ++ stripWhere isSpace hint ++ ")".toList]
  | none, none, some title =>
      ["(Abschnitt: ".toList ++ stripWhere isSpace title ++ ")".toList]
  | none, none, none => []

def tableSummary (table : Table) (sectionTitle captionHint : Option Text) : Text :=
  let size := "Tabelle mit ".toList ++ digits table.nRows ++ " Zeilen und ".toList ++
    digits table.nCols ++ " Spalten".toList
  let columns := if table.headers = [] then []
    else ["— Spalten: ".toList ++ joinText ", "
      ((table.headers.map (stripWhere isSpace)).filter (· ≠ []))]
  joinText " " (size :: summarySubject table sectionTitle captionHint ++ columns) ++ ".".toList

/-- The column that a cell of the row belongs to. -/
def columnOf (header : List Text) (column : ℕ) : Text :=
  header.getD column ("Spalte".toList ++ digits (column + 1))

def serializeRow (row header : List Text) (rowNo : ℕ) : Text :=
  let pairs := (row.zipIdx.filter fun entry => stripWhere isSpace entry.1 ≠ []).map fun entry =>
    stripWhere isSpace (columnOf header entry.2) ++ "=".toList ++ stripWhere isSpace entry.1
  "Zeile ".toList ++ digits rowNo ++ ": ".toList ++ joinText ", " pairs

section

variable (settings : ChunkSettings) (element : ParsedElement)

/-- `base_meta` -/
def baseMeta : SourceMetadata where
  copied := { element.metadata with rows := none, header := none }
  bbox := element.bbox

/-- `_row_chunk` -/
def rowChunk (summary : Text) (lines : List Text) (rows : ℕ × ℕ) : ChunkData where
  chunkType := .table
  rawContent := summary ++ "\n".toList ++ joinText "\n" lines
  normalizedContent := summary ++ "\n".toList ++ joinText "\n" lines
  chunkIndex := 0
  pageNumber := element.page
  sectionTitle := element.sectionTitle
  sourceMetadata := { baseMeta element with tableRepr := some .rows, rowRange := some rows }

/-- The variables of the loop over the rows. -/
structure RowPacking where
  out : List ChunkData := []
  buf : List Text := []
  firstRow : ℕ := 1

/-- One round of the loop over the rows. -/
def packRow (summary : Text) (header : List Text) (packing : RowPacking)
    (entry : List Text × ℕ) : RowPacking :=
  let line := serializeRow entry.1 header entry.2
  if packing.buf ≠ [] ∧ settings.chunkMaxTokens * 19 / 5 <
      summary.length + (packing.buf.map fun other => other.length + 1).sum + line.length then
    { out := packing.out ++
        [rowChunk element summary packing.buf (packing.firstRow, entry.2 - 1)]
      buf := [line]
      firstRow := entry.2 }
  else { packing with buf := packing.buf ++ [line] }

/-- The row chunks of a large table. -/
def rowChunks (summary : Text) (table : Table) : List ChunkData :=
  let packing := (table.rows.zipIdx 1).foldl
    (packRow settings element summary table.headers) {}
  if packing.buf = [] then packing.out
  else packing.out ++
    [rowChunk element summary packing.buf (packing.firstRow, table.nRows)]

/-- The Markdown chunk of a table. -/
def markdownChunk (summary md : Text) : ChunkData where
  chunkType := .table
  rawContent := summary ++ "\n\n".toList ++ md
  normalizedContent := summary ++ "\n\n".toList ++ md
  chunkIndex := 0
  pageNumber := element.page
  sectionTitle := element.sectionTitle
  sourceMetadata := { baseMeta element with tableRepr := some .markdown }

/-- The summary of a table that has no rows to read. -/
def plainSummary (captionHint : Option Text) : Text :=
  match (truthy captionHint).or (truthy element.sectionTitle) with
  | some title => "Tabelle (Abschnitt: ".toList ++ title ++ ").".toList
  | none => "Tabelle.".toList

/-- The table of an element whose `rows` are there and not empty. -/
def structured : Option Table :=
  match element.metadata.rows with
  | some (row :: rows) =>
      some { rows := row :: rows
             header := element.metadata.header
             caption := element.metadata.caption }
  | _ => none

/-- `chunk_table` -/
def chunkTable (captionHint : Option Text) : List ChunkData :=
  match structured element with
  | some table =>
      let summary := tableSummary table element.sectionTitle captionHint
      markdownChunk element summary (tableToMarkdown table) ::
        if settings.tableRowSerializeThreshold < table.nRows then
          rowChunks settings element summary table
        else []
  | none => [markdownChunk element (plainSummary element captionHint) element.content]

end

end AgenticRag.Chunker
