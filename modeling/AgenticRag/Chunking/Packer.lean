import Mathlib.Data.List.DropRight
import Mathlib.Data.List.Infix

/-!
# Packing paragraphs into windows

`_pack_paragraphs`: a paragraph that is too long is cut hard, then the pieces are
packed greedily into windows that start with the end of the window before.  The
functions are written over any alphabet, so that they can also be run on characters
that know where in the text they stand.
-/

namespace AgenticRag.Chunker

/-- The three lengths that `_pack_paragraphs` computes from the settings. -/
structure Limits where
  minC : ℕ
  maxC : ℕ
  overlapC : ℕ
  overlap_lt : overlapC < maxC

section

variable {α : Type*} (limits : Limits) (space : α → Bool) (newline : α)

/-- The separator of two paragraphs. -/
def blankLine : List α :=
  [newline, newline]

/-- What the first loop appends to `units` for one paragraph. -/
def hardSplit (paragraph : List α) : List (List α) :=
  if limits.maxC < paragraph.length then
    paragraph.take limits.maxC :: hardSplit (paragraph.drop (limits.maxC - limits.overlapC))
  else if paragraph.all space then [] else [paragraph]
termination_by paragraph.length
decreasing_by
  have hless := limits.overlap_lt
  rw [List.length_drop]
  omega

def unitsOf (paragraphs : List (List α)) : List (List α) :=
  paragraphs.flatMap (hardSplit limits space)

/-- The variables of the second loop. -/
structure Packing (α : Type*) where
  chunks : List (List α) := []
  buf : List α := []

/-- `f"{buf}\n\n{unit}" if buf else unit` -/
def candidate (buf unit : List α) : List α :=
  if buf = [] then unit else buf ++ blankLine newline ++ unit

/-- `buf[-overlap_c:] if overlap_c else ""` -/
def tail (buf : List α) : List α :=
  buf.rtake limits.overlapC

/-- One round of the second loop. -/
def packUnit (packing : Packing α) (unit : List α) : Packing α :=
  if packing.buf ≠ [] ∧ limits.maxC < (candidate newline packing.buf unit).length then
    { chunks := packing.chunks ++ [packing.buf]
      buf := candidate newline (tail limits packing.buf) unit }
  else { packing with buf := candidate newline packing.buf unit }

/-- The last buffer is merged into the last chunk; `max_c * 1.2` in exact rationals. -/
def MergesTail (last buf : List α) : Prop :=
  buf.length < limits.minC ∧ 5 * (last.length + buf.length) < 6 * limits.maxC

instance (last buf : List α) : Decidable (MergesTail limits last buf) :=
  inferInstanceAs (Decidable (_ ∧ _))

/-- What happens behind the second loop. -/
def finishPacking (packing : Packing α) : List (List α) :=
  if packing.buf.all space then packing.chunks
  else
    match packing.chunks.getLast? with
    | none => packing.chunks ++ [packing.buf]
    | some last =>
        if MergesTail limits last packing.buf then
          packing.chunks.dropLast ++ [last ++ blankLine newline ++ packing.buf]
        else packing.chunks ++ [packing.buf]

/-- The two loops behind each other. -/
def packUnits (units : List (List α)) : Packing α :=
  units.foldl (packUnit limits newline) {}

/-- `_pack_paragraphs` -/
def packParagraphs (paragraphs : List (List α)) : List (List α) :=
  finishPacking limits space newline (packUnits limits newline (unitsOf limits space paragraphs))

end

/-! ## What the loops do -/

section Loops

variable {α : Type*} {limits : Limits} {space : α → Bool} {newline : α}

@[simp]
theorem length_blankLine (newline : α) : (blankLine newline).length = 2 := rfl

theorem maxC_pos (limits : Limits) : 0 < limits.maxC :=
  Nat.zero_lt_of_lt limits.overlap_lt

theorem hardSplit_short {paragraph : List α} (hshort : paragraph.length ≤ limits.maxC) :
    hardSplit limits space paragraph = if paragraph.all space then [] else [paragraph] := by
  rw [hardSplit, if_neg hshort.not_gt]

theorem hardSplit_long {paragraph : List α} (hlong : limits.maxC < paragraph.length) :
    hardSplit limits space paragraph = paragraph.take limits.maxC ::
      hardSplit limits space (paragraph.drop (limits.maxC - limits.overlapC)) := by
  rw [hardSplit, if_pos hlong]

/-- A unit is a part of its paragraph, not empty and not longer than a window. -/
theorem mem_hardSplit {paragraph unit : List α} (hunit : unit ∈ hardSplit limits space paragraph) :
    unit <:+: paragraph ∧ unit ≠ [] ∧ unit.length ≤ limits.maxC := by
  induction paragraph using hardSplit.induct limits space with
  | case1 paragraph hlong ih =>
      rw [hardSplit_long hlong] at hunit
      cases hunit with
      | head =>
          have hpos := maxC_pos limits
          have hfirst : (paragraph.take limits.maxC).length ≠ 0 := by
            rw [List.length_take]
            omega
          refine ⟨(List.take_prefix _ _).isInfix, ?_, List.length_take_le _ _⟩
          exact List.ne_nil_of_length_pos (Nat.pos_of_ne_zero hfirst)
      | tail _ hrest =>
          obtain ⟨hwithin, hrest⟩ := ih hrest
          exact ⟨hwithin.trans (List.drop_suffix _ _).isInfix, hrest⟩
  | case2 paragraph hshort hblank =>
      rw [hardSplit_short (Nat.le_of_not_lt hshort), if_pos hblank] at hunit
      cases hunit
  | case3 paragraph hshort hblank =>
      rw [hardSplit_short (Nat.le_of_not_lt hshort), if_neg hblank] at hunit
      rw [List.mem_singleton.mp hunit]
      refine ⟨List.infix_refl _, ?_, Nat.le_of_not_lt hshort⟩
      intro hnil
      rw [hnil] at hblank
      exact hblank rfl

/-- The unit stands in the text, over this place. -/
def Covers (text unit : List α) (place : ℕ) : Prop :=
  ∃ front back, text = front ++ unit ++ back ∧ front.length ≤ place ∧
    place < front.length + unit.length

theorem Covers.all_eq_false {text unit : List α} {place : ℕ} (hcovers : Covers text unit place)
    (hplace : place < text.length) (hkept : space text[place] = false) :
    unit.all space = false := by
  obtain ⟨front, back, rfl, hfront, hback⟩ := hcovers
  have hinside : place - front.length < unit.length := by omega
  have hsame : (front ++ unit ++ back)[place] = unit[place - front.length] := by
    simp [List.getElem_append_right hfront, List.getElem_append_left hinside]
  rw [hsame] at hkept
  rw [List.all_eq_false]
  refine ⟨_, List.getElem_mem hinside, ?_⟩
  rw [hkept]
  exact Bool.false_ne_true

/-- The units of a paragraph leave out only blanks. -/
theorem hardSplit_covers {paragraph : List α} {place : ℕ} (hplace : place < paragraph.length)
    (hkept : space paragraph[place] = false) :
    ∃ unit ∈ hardSplit limits space paragraph, Covers paragraph unit place := by
  induction paragraph using hardSplit.induct limits space generalizing place with
  | case1 paragraph hlong ih =>
      rw [hardSplit_long hlong]
      by_cases hfirst : place < limits.maxC
      · refine ⟨_, List.mem_cons_self, [], paragraph.drop limits.maxC, ?_, Nat.zero_le _, ?_⟩
        · rw [List.nil_append, List.take_append_drop]
        · rw [List.length_nil, List.length_take]
          omega
      · have hless := limits.overlap_lt
        have hstep : limits.maxC - limits.overlapC ≤ place := by omega
        have hinside : place - (limits.maxC - limits.overlapC) <
            (paragraph.drop (limits.maxC - limits.overlapC)).length := by
          rw [List.length_drop]
          omega
        have hsame : (paragraph.drop (limits.maxC - limits.overlapC))[place -
            (limits.maxC - limits.overlapC)] = paragraph[place] := by
          rw [List.getElem_drop]
          congr 1
          omega
        obtain ⟨unit, hunit, front, back, hsplit, hfront, hback⟩ :=
          ih hinside (by rw [hsame, hkept])
        refine ⟨unit, List.mem_cons_of_mem _ hunit,
          paragraph.take (limits.maxC - limits.overlapC) ++ front, back, ?_, ?_, ?_⟩
        · rw [List.append_assoc, List.append_assoc, ← List.append_assoc front, ← hsplit,
            List.take_append_drop]
        · rw [List.length_append, List.length_take]
          omega
        · rw [List.length_append, List.length_take]
          omega
  | case2 paragraph hshort hblank =>
      have hspace := List.all_eq_true.mp hblank _ (List.getElem_mem hplace)
      rw [hkept] at hspace
      cases hspace
  | case3 paragraph hshort hblank =>
      rw [hardSplit_short (Nat.le_of_not_lt hshort), if_neg hblank]
      refine ⟨paragraph, List.mem_singleton.mpr rfl, [], [], ?_, Nat.zero_le _, ?_⟩
      · simp
      · simpa using hplace

theorem tail_suffix (buf : List α) : tail limits buf <:+ buf := by
  rw [tail, List.rtake_eq_reverse_take_reverse, ← List.reverse_prefix, List.reverse_reverse]
  exact List.take_prefix _ _

@[simp]
theorem length_tail (buf : List α) :
    (tail limits buf).length = min limits.overlapC buf.length := by
  rw [tail, List.rtake, List.length_drop]
  omega

theorem forall_mem_concat {p : α → Prop} {items : List α} {last : α} :
    (∀ item ∈ items ++ [last], p item) ↔ (∀ item ∈ items, p item) ∧ p last := by
  rw [List.forall_mem_append, List.forall_mem_singleton]

/-- What one round of the second loop does. -/
inductive PackMove (limits : Limits) (newline : α) (packing : Packing α) (unit : List α) :
    Packing α → Prop where
  | first (hempty : packing.buf = []) :
      PackMove limits newline packing unit { packing with buf := unit }
  | flush (hfilled : packing.buf ≠ [])
      (hover : limits.maxC < packing.buf.length + 2 + unit.length) :
      PackMove limits newline packing unit
        { chunks := packing.chunks ++ [packing.buf]
          buf := candidate newline (tail limits packing.buf) unit }
  | fill (hfilled : packing.buf ≠ [])
      (hfits : packing.buf.length + 2 + unit.length ≤ limits.maxC) :
      PackMove limits newline packing unit
        { packing with buf := packing.buf ++ blankLine newline ++ unit }

theorem candidate_filled {buf : List α} (hfilled : buf ≠ []) (unit : List α) :
    candidate newline buf unit = buf ++ blankLine newline ++ unit :=
  if_neg hfilled

theorem unit_suffix_candidate (newline : α) (buf unit : List α) :
    unit <:+ candidate newline buf unit := by
  rw [candidate]
  split_ifs
  · exact List.suffix_refl _
  · exact List.suffix_append _ _

theorem candidate_ne_nil (buf : List α) {unit : List α} (hne : unit ≠ []) :
    candidate newline buf unit ≠ [] := by
  intro hnil
  have hsuffix := unit_suffix_candidate newline buf unit
  rw [hnil] at hsuffix
  exact hne (List.suffix_nil.mp hsuffix)

theorem packUnit_moves (packing : Packing α) (unit : List α) :
    PackMove limits newline packing unit (packUnit limits newline packing unit) := by
  unfold packUnit
  by_cases hempty : packing.buf = []
  · rw [if_neg fun hflush => hflush.1 hempty, candidate, if_pos hempty]
    exact .first hempty
  · rw [candidate_filled hempty]
    have hlength : (packing.buf ++ blankLine newline ++ unit).length =
        packing.buf.length + 2 + unit.length := by
      rw [List.length_append, List.length_append, length_blankLine]
    rw [hlength]
    split_ifs with hflush
    · exact .flush hempty hflush.2
    · exact .fill hempty (Nat.le_of_not_lt fun hover => hflush ⟨hempty, hover⟩)

/-- What stands behind the second loop. -/
inductive Finishes (limits : Limits) (space : α → Bool) (newline : α) (packing : Packing α) :
    List (List α) → Prop where
  | blank (hblank : packing.buf.all space = true) :
      Finishes limits space newline packing packing.chunks
  | merge {earlier : List (List α)} {last : List α} (hkept : packing.buf.all space = false)
      (hchunks : packing.chunks = earlier ++ [last]) (hmerges : MergesTail limits last packing.buf) :
      Finishes limits space newline packing
        (earlier ++ [last ++ blankLine newline ++ packing.buf])
  | emit (hkept : packing.buf.all space = false)
      (happart : ∀ earlier last, packing.chunks = earlier ++ [last] →
        ¬ MergesTail limits last packing.buf) :
      Finishes limits space newline packing (packing.chunks ++ [packing.buf])

theorem finishPacking_finishes (packing : Packing α) :
    Finishes limits space newline packing (finishPacking limits space newline packing) := by
  unfold finishPacking
  split_ifs with hblank
  · exact .blank hblank
  · rw [Bool.not_eq_true] at hblank
    cases hlast : packing.chunks.getLast? with
    | none =>
        have hnil := List.getLast?_eq_none_iff.mp hlast
        refine .emit hblank fun earlier last hchunks => ?_
        rw [hnil] at hchunks
        simp at hchunks
    | some last =>
        obtain ⟨earlier, hchunks⟩ := List.getLast?_eq_some_iff.mp hlast
        dsimp only
        split_ifs with hmerges
        · rw [hchunks, List.dropLast_concat]
          exact .merge hblank hchunks hmerges
        · refine .emit hblank fun front final hsplit => ?_
          rw [hchunks] at hsplit
          obtain ⟨_, hsame⟩ := List.append_inj' hsplit rfl
          rw [← (List.cons.inj hsame).1]
          exact hmerges

theorem packUnits_concat (seen : List (List α)) (unit : List α) :
    packUnits limits newline (seen ++ [unit]) =
      packUnit limits newline (packUnits limits newline seen) unit := by
  rw [packUnits, List.foldl_append]
  rfl

/-- The buffer ends with the unit read last. -/
theorem unit_suffix_buf (seen : List (List α)) (unit : List α) :
    unit <:+ (packUnits limits newline (seen ++ [unit])).buf := by
  rw [packUnits_concat]
  have hmove := @packUnit_moves _ limits newline (packUnits limits newline seen) unit
  generalize packUnit limits newline (packUnits limits newline seen) unit = next at hmove
  cases hmove with
  | first => exact List.suffix_refl _
  | flush => exact unit_suffix_candidate _ _ _
  | fill => exact List.suffix_append _ _

theorem packUnits_buf_kept {units : List (List α)}
    (hkept : ∀ seen unit, units = seen ++ [unit] → unit.all space = false)
    (hfilled : (packUnits limits newline units).buf ≠ []) :
    (packUnits limits newline units).buf.all space = false := by
  induction units using List.reverseRecOn with
  | nil => exact absurd rfl hfilled
  | append_singleton seen unit _ =>
      have hunit := hkept seen unit rfl
      rw [List.all_eq_false] at hunit ⊢
      obtain ⟨char, hchar, hspace⟩ := hunit
      exact ⟨char, (unit_suffix_buf seen unit).subset hchar, hspace⟩

theorem concat_ne_nil {β : Type*} (earlier : List β) (last : β) : earlier ++ [last] ≠ [] :=
  List.append_ne_nil_of_right_ne_nil _ (List.cons_ne_nil _ _)

theorem tail_zero (hzero : limits.overlapC = 0) (buf : List α) : tail limits buf = [] := by
  rw [tail, hzero, List.rtake_zero]

theorem tail_ne_nil (hpos : 0 < limits.overlapC) {buf : List α} (hfilled : buf ≠ []) :
    tail limits buf ≠ [] := by
  have hbuf := List.length_pos_of_ne_nil hfilled
  refine List.ne_nil_of_length_pos ?_
  rw [length_tail]
  omega

theorem tail_getLast? (hpos : 0 < limits.overlapC) {buf : List α} {char : α}
    (hend : buf.getLast? = some char) : (tail limits buf).getLast? = some char := by
  obtain ⟨front, rfl⟩ := List.getLast?_eq_some_iff.mp hend
  obtain ⟨overlap, hoverlap⟩ := Nat.exists_eq_succ_of_ne_zero hpos.ne'
  rw [tail, hoverlap, List.rtake_concat_succ, List.getLast?_concat]

end Loops

end AgenticRag.Chunker
