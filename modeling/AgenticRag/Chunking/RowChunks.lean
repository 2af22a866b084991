import AgenticRag.Chunking.Tables

/-!
# The row chunks of a large table

The row chunks partition the rows: each lists the rows of its range, in order and under
their numbers, and fits the token limit unless a single row is too long for it.
-/

namespace AgenticRag.Chunker

open AgenticRag.Assembler (estimateTokens)

/-- The ranges cover the rows from the first to the last, one behind the other. -/
inductive Consecutive : ℕ → ℕ → List (ℕ × ℕ) → Prop where
  | nil (last : ℕ) : Consecutive (last + 1) last []
  | cons {first middle last : ℕ} {ranges : List (ℕ × ℕ)} (hrange : first ≤ middle)
      (hrest : Consecutive (middle + 1) last ranges) :
      Consecutive first last ((first, middle) :: ranges)

theorem Consecutive.concat {first middle : ℕ} {ranges : List (ℕ × ℕ)}
    (hconsecutive : Consecutive first middle ranges) {last : ℕ} (hrange : middle < last) :
    Consecutive first last (ranges ++ [(middle + 1, last)]) := by
  induction hconsecutive with
  | nil => exact .cons hrange (.nil last)
  | cons hfirst _ ih => exact .cons hfirst (ih hrange)

/-- The serialisations of the rows of a range. -/
def linesOf (rows : List (List Text)) (header : List Text) (range : ℕ × ℕ) : List Text :=
  (List.range' range.1 (range.2 + 1 - range.1)).map fun number =>
    serializeRow (rows.getD (number - 1) []) header number

theorem linesOf_succ (rows : List (List Text)) (header : List Text) {first last : ℕ}
    (hrange : first ≤ last + 1) : linesOf rows header (first, last + 1) =
      linesOf rows header (first, last) ++ [serializeRow (rows.getD last []) header (last + 1)] := by
  have hlength : last + 1 + 1 - first = last + 1 - first + 1 := by omega
  have hlast : first + (last + 1 - first) = last + 1 := by omega
  rw [linesOf, linesOf, hlength, List.range'_1_concat, List.map_append, List.map_singleton, hlast,
    Nat.add_sub_cancel]

theorem linesOf_ne_nil (rows : List (List Text)) (header : List Text) {first last : ℕ}
    (hrange : first ≤ last) : linesOf rows header (first, last) ≠ [] := by
  have hpos : last + 1 - first ≠ 0 := by omega
  simpa [linesOf] using hpos

section

variable (settings : ChunkSettings) (element : ParsedElement) (summary : Text)
  (rows : List (List Text)) (header : List Text)

/-- A range of two or more rows is within the limit, up to the newline behind the summary. -/
def FitsLimit (range : ℕ × ℕ) : Prop :=
  range.1 < range.2 → summary.length +
    ((linesOf rows header range).map fun line => line.length + 1).sum ≤
      settings.chunkMaxTokens * 19 / 5 + 1

/-- The chunk that lists the rows of a range. -/
def chunkOf (range : ℕ × ℕ) : ChunkData :=
  rowChunk element summary (linesOf rows header range) range

/-- The loop behind the first rows. -/
def packRows (count : ℕ) : RowPacking :=
  ((rows.take count).zipIdx 1).foldl (packRow settings element summary header) {}

/-- The loop invariant: the ranges written so far and the open one end with this row. -/
structure Packed (count : ℕ) (packing : RowPacking) : Prop where
  written : ∃ done ranges, packing.firstRow = done + 1 ∧ Consecutive 1 done ranges ∧
    packing.out = ranges.map (chunkOf element summary rows header) ∧
    ∀ range ∈ ranges, FitsLimit settings summary rows header range
  buf : packing.buf = linesOf rows header (packing.firstRow, count)
  first : packing.firstRow ≤ max 1 count
  fits : FitsLimit settings summary rows header (packing.firstRow, count)

end

section

variable {settings : ChunkSettings} {element : ParsedElement} {summary : Text}
  {rows : List (List Text)} {header : List Text}

theorem packRows_succ {count : ℕ} (hcount : count < rows.length) :
    packRows settings element summary rows header (count + 1) =
      packRow settings element summary header
        (packRows settings element summary rows header count)
        (rows.getD count [], count + 1) := by
  have hlength : (rows.take count).length = count := by
    rw [List.length_take]
    omega
  rw [packRows, List.take_succ_eq_append_getElem hcount, List.zipIdx_append, hlength,
    List.foldl_append, Nat.add_comm 1 count, List.getD_eq_getElem?_getD,
    List.getElem?_eq_getElem hcount]
  rfl

/-- One row more. -/
theorem Packed.move {count : ℕ} {packing : RowPacking}
    (hpacked : Packed settings element summary rows header count packing) :
    Packed settings element summary rows header (count + 1)
      (packRow settings element summary header packing (rows.getD count [], count + 1)) := by
  obtain ⟨⟨done, ranges, hfirst, hconsecutive, hout, hranges⟩, hbuf, hmax, hfits⟩ := hpacked
  rw [packRow]
  dsimp only
  split_ifs with hflush
  · obtain ⟨hfilled, _⟩ := hflush
    have hopen : packing.firstRow ≤ count := by
      by_contra hnone
      rw [hbuf, linesOf, show count + 1 - packing.firstRow = 0 by omega] at hfilled
      exact hfilled rfl
    refine ⟨⟨count, ranges ++ [(packing.firstRow, count)], rfl, ?_, ?_, ?_⟩, ?_, ?_, ?_⟩
    · rw [hfirst]
      exact hconsecutive.concat (by omega)
    · rw [hout, hbuf, Nat.add_sub_cancel, List.map_append]
      rfl
    · exact forall_mem_concat.mpr ⟨hranges, hfits⟩
    · rw [linesOf_succ rows header (Nat.le_refl _), linesOf,
        show count + 1 - (count + 1) = 0 by omega]
      rfl
    · dsimp only
      omega
    · intro hless
      exact absurd hless (Nat.lt_irrefl _)
  · have hlines : packing.buf ++ [serializeRow (rows.getD count []) header (count + 1)] =
        linesOf rows header (packing.firstRow, count + 1) := by
      rw [linesOf_succ rows header (by omega), hbuf]
    refine ⟨⟨done, ranges, hfirst, hconsecutive, hout, hranges⟩, hlines, ?_, ?_⟩
    · dsimp only
      omega
    · intro hless
      dsimp only at hless ⊢
      have hfilled : packing.buf ≠ [] := by
        rw [hbuf]
        exact linesOf_ne_nil rows header (by omega)
      have hlimit := Nat.le_of_not_lt fun hover => hflush ⟨hfilled, hover⟩
      rw [← hlines, List.map_append, List.sum_append, List.map_singleton, List.sum_singleton]
      omega

theorem packRows_packed {count : ℕ} (hcount : count ≤ rows.length) :
    Packed settings element summary rows header count
      (packRows settings element summary rows header count) := by
  induction count with
  | zero =>
      refine ⟨⟨0, [], rfl, .nil 0, rfl, ?_⟩, rfl, Nat.le_refl _, ?_⟩
      · exact fun range hrange => absurd hrange List.not_mem_nil
      · exact fun hless => absurd hless (Nat.not_lt_zero _)
  | succ count ih =>
      rw [packRows_succ hcount]
      exact (ih (Nat.le_of_lt hcount)).move

/-- The row chunks are those of ranges that partition the rows. -/
theorem rowChunks_partition {table : Table} (hrows : table.rows ≠ []) :
    ∃ ranges, Consecutive 1 table.nRows ranges ∧
      rowChunks settings element summary table =
        ranges.map (chunkOf element summary table.rows table.headers) ∧
      ∀ range ∈ ranges, FitsLimit settings summary table.rows table.headers range := by
  have hpacked := @packRows_packed settings element summary table.rows table.headers
    table.rows.length (Nat.le_refl _)
  have hpos := List.length_pos_of_ne_nil hrows
  rw [rowChunks, Table.nRows]
  rw [packRows, List.take_length] at hpacked
  generalize (table.rows.zipIdx 1).foldl (packRow settings element summary table.headers) {} =
    packing at hpacked
  obtain ⟨⟨done, ranges, hfirst, hconsecutive, hout, hranges⟩, hbuf, hmax, hfits⟩ := hpacked
  have hopen : packing.firstRow ≤ table.rows.length := by omega
  have hfilled : packing.buf ≠ [] := by
    rw [hbuf]
    exact linesOf_ne_nil _ _ hopen
  refine ⟨ranges ++ [(packing.firstRow, table.rows.length)], ?_, ?_, ?_⟩
  · rw [hfirst]
    exact hconsecutive.concat (by omega)
  · rw [if_neg hfilled, hout, hbuf, List.map_append]
    rfl
  · exact forall_mem_concat.mpr ⟨hranges, hfits⟩

theorem length_joinText_newline {lines : List Text} (hlines : lines ≠ []) :
    (joinText "\n" lines).length + 1 = (lines.map fun line => line.length + 1).sum := by
  rw [joinText]
  induction lines with
  | nil => exact absurd rfl hlines
  | cons line lines ih =>
      cases lines with
      | nil => simp
      | cons second lines =>
          have hrest := ih (List.cons_ne_nil _ _)
          rw [List.intercalate_cons_cons, List.length_append, List.length_append, List.map_cons,
            List.sum_cons, ← hrest]
          have hnewline : "\n".toList.length = 1 := rfl
          omega

/-- A range within the limit makes a chunk within the token limit. -/
theorem FitsLimit.tokens {range : ℕ × ℕ} (hfits : FitsLimit settings summary rows header range)
    (hrange : range.1 < range.2) :
    estimateTokens (String.ofList (chunkOf element summary rows header range).normalizedContent) ≤
      settings.chunkMaxTokens := by
  have hlimit := hfits hrange
  have hlines : linesOf rows header range ≠ [] := linesOf_ne_nil rows header hrange.le
  have hbody := length_joinText_newline hlines
  have hpos : 0 < settings.chunkMaxTokens * 19 / 5 := maxC_pos settings.limits
  have hnewline : "\n".toList.length = 1 := rfl
  rw [estimateTokens, String.length_ofList, chunkOf, rowChunk]
  dsimp only
  rw [List.length_append, List.length_append]
  omega

end

end AgenticRag.Chunker
