import AgenticRag.Chunking.Fillings

/-!
# Characters that know their place

The packer moves characters without looking at them, except for blanks.  Run on
characters that carry their place in the section text, it therefore builds the same
chunks and tells where each of their characters comes from.
-/

namespace AgenticRag.Chunker

abbrev Text := List Char

/-- A character with its place in the section text; the newlines that the packer puts
in itself have none. -/
abbrev Placed := Char × Option ℕ

def placed (start : ℕ) (paragraph : Text) : List Placed :=
  (paragraph.zipIdx start).map fun entry => (entry.1, some entry.2)

/-- Paragraphs joined by blank lines, each character with its place in the joined text. -/
def placeAll : ℕ → List Text → List (List Placed)
  | _, [] => []
  | start, paragraph :: paragraphs =>
      placed start paragraph :: placeAll (start + paragraph.length + 2) paragraphs

def placedNewline : Placed :=
  ('\n', none)

def isPlacedSpace (char : Placed) : Bool :=
  PyString.isSpace char.1

/-- `_pack_paragraphs` on the characters of a text. -/
def packText (limits : Limits) (paragraphs : List Text) : List Text :=
  packParagraphs limits PyString.isSpace '\n' paragraphs

/-- `_pack_paragraphs` on characters that know their place. -/
def packPlaced (limits : Limits) (paragraphs : List Text) : List (List Placed) :=
  packParagraphs limits isPlacedSpace placedNewline (placeAll 0 paragraphs)

/-! ## The packer does not look at the characters -/

section Naturality

variable {α β : Type*} {limits : Limits} {space : α → Bool} {newline : α}
  {spaceTo : β → Bool} {newlineTo : β} {forget : α → β}

theorem map_blankLine (hnewline : forget newline = newlineTo) :
    (blankLine newline).map forget = blankLine newlineTo := by
  rw [blankLine, List.map_cons, List.map_singleton, hnewline]
  rfl

theorem all_map_space (hspace : ∀ char, spaceTo (forget char) = space char) (text : List α) :
    (text.map forget).all spaceTo = text.all space := by
  rw [List.all_map]
  congr 1
  funext char
  exact hspace char

theorem map_hardSplit (hspace : ∀ char, spaceTo (forget char) = space char)
    (paragraph : List α) : hardSplit limits spaceTo (paragraph.map forget) =
      (hardSplit limits space paragraph).map (List.map forget) := by
  induction paragraph using hardSplit.induct limits space with
  | case1 paragraph hlong ih =>
      rw [hardSplit_long hlong, hardSplit_long (by rwa [List.length_map]), ← List.map_take,
        ← List.map_drop, ih]
      rfl
  | case2 paragraph hshort hblank =>
      have hfits := Nat.le_of_not_lt hshort
      rw [hardSplit_short hfits, hardSplit_short (by rwa [List.length_map]),
        all_map_space hspace, if_pos hblank, if_pos hblank]
      rfl
  | case3 paragraph hshort hblank =>
      have hfits := Nat.le_of_not_lt hshort
      rw [hardSplit_short hfits, hardSplit_short (by rwa [List.length_map]),
        all_map_space hspace, if_neg hblank, if_neg hblank]
      rfl

theorem map_unitsOf (hspace : ∀ char, spaceTo (forget char) = space char)
    (paragraphs : List (List α)) :
    unitsOf limits spaceTo (paragraphs.map (List.map forget)) =
      (unitsOf limits space paragraphs).map (List.map forget) := by
  rw [unitsOf, unitsOf, List.flatMap_map, List.map_flatMap]
  congr 1
  funext paragraph
  exact map_hardSplit hspace paragraph

theorem map_candidate (hnewline : forget newline = newlineTo) (buf unit : List α) :
    candidate newlineTo (buf.map forget) (unit.map forget) =
      (candidate newline buf unit).map forget := by
  by_cases hempty : buf = []
  · rw [hempty, candidate, candidate, List.map_nil, if_pos rfl, if_pos rfl]
  · rw [candidate_filled hempty, candidate_filled (by simpa using hempty), List.map_append,
      List.map_append, map_blankLine hnewline]

theorem map_tail (buf : List α) :
    tail limits (buf.map forget) = (tail limits buf).map forget := by
  rw [tail, tail, List.rtake, List.rtake, List.length_map, List.map_drop]

def Packing.map (forget : α → β) (packing : Packing α) : Packing β :=
  { chunks := packing.chunks.map (List.map forget), buf := packing.buf.map forget }

theorem map_packUnit (hnewline : forget newline = newlineTo) (packing : Packing α)
    (unit : List α) : packUnit limits newlineTo (packing.map forget) (unit.map forget) =
      (packUnit limits newline packing unit).map forget := by
  have hcandidate : (candidate newlineTo (packing.buf.map forget) (unit.map forget)).length =
      (candidate newline packing.buf unit).length := by
    rw [map_candidate hnewline, List.length_map]
  have hflush : ((packing.map forget).buf ≠ [] ∧
      limits.maxC < (candidate newlineTo (packing.map forget).buf (unit.map forget)).length) ↔
      packing.buf ≠ [] ∧ limits.maxC < (candidate newline packing.buf unit).length := by
    rw [Packing.map, hcandidate, Ne, List.map_eq_nil_iff]
  rw [packUnit, packUnit, if_congr hflush rfl rfl]
  split_ifs
  · simp [Packing.map, map_tail, map_candidate hnewline]
  · simp [Packing.map, map_candidate hnewline]

theorem map_packUnits (hnewline : forget newline = newlineTo) (units : List (List α)) :
    packUnits limits newlineTo (units.map (List.map forget)) =
      (packUnits limits newline units).map forget := by
  induction units using List.reverseRecOn with
  | nil => rfl
  | append_singleton seen unit ih =>
      rw [List.map_append, List.map_singleton, packUnits_concat, packUnits_concat, ih,
        map_packUnit hnewline]

theorem map_finishPacking (hspace : ∀ char, spaceTo (forget char) = space char)
    (hnewline : forget newline = newlineTo) (packing : Packing α) :
    finishPacking limits spaceTo newlineTo (packing.map forget) =
      (finishPacking limits space newline packing).map (List.map forget) := by
  rw [finishPacking, finishPacking, Packing.map, all_map_space hspace, List.getLast?_map]
  split_ifs
  · rfl
  · cases hlast : packing.chunks.getLast? with
    | none => simp
    | some last =>
        have hmerges : MergesTail limits (last.map forget) (packing.buf.map forget) ↔
            MergesTail limits last packing.buf := by
          rw [MergesTail, MergesTail, List.length_map, List.length_map]
        dsimp only [Option.map_some]
        rw [if_congr hmerges rfl rfl]
        split_ifs
        · simp [map_blankLine hnewline, List.map_dropLast]
        · simp

/-- The packer moves characters about without looking at them. -/
theorem map_packParagraphs (hspace : ∀ char, spaceTo (forget char) = space char)
    (hnewline : forget newline = newlineTo) (paragraphs : List (List α)) :
    packParagraphs limits spaceTo newlineTo (paragraphs.map (List.map forget)) =
      (packParagraphs limits space newline paragraphs).map (List.map forget) := by
  rw [packParagraphs, packParagraphs, map_unitsOf hspace, map_packUnits hnewline,
    map_finishPacking hspace hnewline]

end Naturality

/-! ## Places of a text -/

@[simp]
theorem length_placed (start : ℕ) (paragraph : Text) :
    (placed start paragraph).length = paragraph.length := by
  rw [placed, List.length_map, List.length_zipIdx]

@[simp]
theorem map_fst_placed (start : ℕ) (paragraph : Text) :
    (placed start paragraph).map Prod.fst = paragraph := by
  rw [placed, List.map_map]
  exact List.zipIdx_map_fst start paragraph

theorem map_fst_placeAll (start : ℕ) (paragraphs : List Text) :
    (placeAll start paragraphs).map (List.map Prod.fst) = paragraphs := by
  induction paragraphs generalizing start with
  | nil => rfl
  | cons paragraph paragraphs ih =>
      rw [placeAll, List.map_cons, map_fst_placed, ih]

theorem map_length_placeAll (start : ℕ) (paragraphs : List Text) :
    (placeAll start paragraphs).map List.length = paragraphs.map List.length := by
  induction paragraphs generalizing start with
  | nil => rfl
  | cons paragraph paragraphs ih =>
      rw [placeAll, List.map_cons, List.map_cons, length_placed, ih]

theorem mem_placed {start : ℕ} {paragraph : Text} {char : Placed}
    (hchar : char ∈ placed start paragraph) : ∃ place, char.2 = some place ∧ start ≤ place ∧
      place < start + paragraph.length ∧ paragraph[place - start]? = some char.1 := by
  obtain ⟨entry, hentry, rfl⟩ := List.mem_map.mp hchar
  obtain ⟨hstart, hget⟩ := List.mem_zipIdx_iff_le_and_getElem?_sub.mp hentry
  obtain ⟨hlength, _⟩ := List.getElem?_eq_some_iff.mp hget
  exact ⟨entry.2, rfl, hstart, by omega, hget⟩

/-- Without their places the chunks are those of the program. -/
theorem map_fst_packPlaced (limits : Limits) (paragraphs : List Text) :
    (packPlaced limits paragraphs).map (List.map Prod.fst) = packText limits paragraphs := by
  have hnatural := @map_packParagraphs Placed Char limits isPlacedSpace placedNewline
    PyString.isSpace '\n' Prod.fst (fun _ => rfl) rfl (placeAll 0 paragraphs)
  rw [map_fst_placeAll] at hnatural
  exact hnatural.symm

end AgenticRag.Chunker
