import AgenticRag.Chunking.Packer
import AgenticRag.Text.PyString
import Mathlib.Data.List.Forall2

/-!
# What the chunks carry

Every unit stands in one chunk, the units in their order, and a chunk is made of
nothing but the paragraphs and their separators.  A unit is lost only where it is
blank: the source drops blank remainders and a blank last buffer.
-/

namespace AgenticRag.Chunker

variable {α : Type*} {limits : Limits} {space : α → Bool} {newline : α}

/-- The units stand in the chunk at places of their own, in this order. -/
inductive Carries : List (List α) → List α → Prop where
  | nil (chunk : List α) : Carries [] chunk
  | cons {unit rest} {units : List (List α)} (front : List α) (hrest : Carries units rest) :
      Carries (unit :: units) (front ++ unit ++ rest)

theorem Carries.append {left right : List (List α)} {first second : List α}
    (hfirst : Carries left first) (hsecond : Carries right second) (gap : List α) :
    Carries (left ++ right) (first ++ gap ++ second) := by
  induction hfirst with
  | nil chunk =>
      cases hsecond with
      | nil => exact .nil _
      | @cons unit rest units front hrest =>
          have hgap := @Carries.cons _ unit _ _ (chunk ++ gap ++ front) hrest
          rw [List.nil_append]
          simpa only [List.append_assoc] using hgap
  | @cons unit rest units front _ ih =>
      have hcons := @Carries.cons _ unit _ _ front ih
      rw [List.cons_append]
      simpa only [List.append_assoc] using hcons

theorem Carries.single (unit : List α) : Carries [unit] unit := by
  simpa using @Carries.cons _ unit _ _ [] (.nil [])

theorem Carries.of_suffix {units : List (List α)} {unit : List α} (front : List α)
    (hcarries : Carries units unit) : Carries units (front ++ unit) := by
  simpa using (Carries.nil front).append hcarries []

theorem Carries.mem {units : List (List α)} {unit chunk : List α}
    (hcarries : Carries units chunk) (hunit : unit ∈ units) : unit <:+: chunk := by
  induction hcarries with
  | nil => cases hunit
  | cons front hrest ih =>
      cases hunit with
      | head => exact ⟨front, _, rfl⟩
      | tail _ hlater => exact (ih hlater).trans (List.suffix_append _ _).isInfix

/-- The end of a text of pieces joined by blank lines: a window as the packer cuts it. -/
def Made (newline : α) (paragraphs : List (List α)) (window : List α) : Prop :=
  ∃ pieces, pieces ≠ [] ∧ (∀ piece ∈ pieces, ∃ paragraph ∈ paragraphs, piece <:+: paragraph) ∧
    window <:+ (blankLine newline).intercalate pieces

/-- A chunk is such a window, or two of them where the last buffer was merged. -/
def Woven (newline : α) (paragraphs : List (List α)) (chunk : List α) : Prop :=
  Made newline paragraphs chunk ∨ ∃ first second, Made newline paragraphs first ∧
    Made newline paragraphs second ∧ chunk = first ++ blankLine newline ++ second

theorem intercalate_concat (separator : List α) {pieces : List (List α)} (hne : pieces ≠ [])
    (piece : List α) : separator.intercalate (pieces ++ [piece]) =
      separator.intercalate pieces ++ separator ++ piece := by
  induction pieces with
  | nil => exact absurd rfl hne
  | cons first pieces ih =>
      cases pieces with
      | nil => simp [List.intercalate]
      | cons second pieces =>
          rw [List.cons_append, List.cons_append, List.intercalate_cons_cons,
            List.intercalate_cons_cons, ← List.cons_append, ih (List.cons_ne_nil _ _)]
          simp only [List.append_assoc]

section

variable {paragraphs : List (List α)}

theorem made_unit {unit : List α} (hunit : ∃ paragraph ∈ paragraphs, unit <:+: paragraph) :
    Made newline paragraphs unit := by
  refine ⟨[unit], List.cons_ne_nil _ _, List.forall_mem_singleton.mpr hunit, ?_⟩
  rw [List.intercalate_singleton]

theorem Made.suffix {window shorter : List α} (hmade : Made newline paragraphs window)
    (hsuffix : shorter <:+ window) : Made newline paragraphs shorter := by
  obtain ⟨pieces, hne, hpieces, hwindow⟩ := hmade
  exact ⟨pieces, hne, hpieces, hsuffix.trans hwindow⟩

theorem Made.join {window unit : List α} (hmade : Made newline paragraphs window)
    (hunit : ∃ paragraph ∈ paragraphs, unit <:+: paragraph) :
    Made newline paragraphs (window ++ blankLine newline ++ unit) := by
  obtain ⟨pieces, hne, hpieces, front, hfront⟩ := hmade
  refine ⟨pieces ++ [unit], List.append_ne_nil_of_left_ne_nil hne _,
    forall_mem_concat.mpr ⟨hpieces, hunit⟩, front, ?_⟩
  rw [intercalate_concat _ hne, ← hfront]
  simp only [List.append_assoc]

theorem Made.candidate {window unit : List α}
    (hmade : window ≠ [] → Made newline paragraphs window)
    (hunit : ∃ paragraph ∈ paragraphs, unit <:+: paragraph) :
    Made newline paragraphs (candidate newline window unit) := by
  by_cases hempty : window = []
  · rw [Chunker.candidate, if_pos hempty]
    exact made_unit hunit
  · rw [candidate_filled hempty]
    exact (hmade hempty).join hunit

theorem mem_unitsOf {unit : List α} (hunit : unit ∈ unitsOf limits space paragraphs) :
    unit ≠ [] ∧ unit.length ≤ limits.maxC ∧ ∃ paragraph ∈ paragraphs, unit <:+: paragraph := by
  obtain ⟨paragraph, hparagraph, hunit⟩ := List.mem_flatMap.mp hunit
  obtain ⟨hwithin, hne, hlength⟩ := mem_hardSplit hunit
  exact ⟨hne, hlength, paragraph, hparagraph, hwithin⟩

end

theorem candidate_carries (front unit : List α) :
    Carries [unit] (candidate newline front unit) := by
  by_cases hempty : front = []
  · rw [candidate, if_pos hempty]
    exact .single unit
  · rw [candidate_filled hempty]
    exact (Carries.single unit).of_suffix _

/-- The loop invariant: the units read so far are in the chunks and in the buffer. -/
structure Holds (newline : α) (paragraphs seen : List (List α)) (packing : Packing α) :
    Prop where
  carried : ∃ groups held, groups.flatten ++ held = seen ∧
    List.Forall₂ Carries groups packing.chunks ∧ Carries held packing.buf
  made : ∀ chunk ∈ packing.chunks, Made newline paragraphs chunk
  open_made : packing.buf ≠ [] → Made newline paragraphs packing.buf

theorem Holds.move {paragraphs seen : List (List α)} {packing next : Packing α} {unit : List α}
    (hholds : Holds newline paragraphs seen packing) (hseen : ∀ unit ∈ seen, unit ≠ [])
    (hunit : ∃ paragraph ∈ paragraphs, unit <:+: paragraph)
    (hmove : PackMove limits newline packing unit next) :
    Holds newline paragraphs (seen ++ [unit]) next := by
  obtain ⟨⟨groups, held, hflatten, hgroups, hheld⟩, hmade, hopen⟩ := hholds
  have hread : groups.flatten ++ (held ++ [unit]) = seen ++ [unit] := by
    rw [← List.append_assoc, hflatten]
  cases hmove with
  | first hempty =>
      -- Nothing is held in an empty buffer, since no unit is empty.
      have hnone : held = [] := by
        refine List.eq_nil_iff_forall_not_mem.mpr fun other hother => ?_
        have hwithin := hheld.mem hother
        rw [hempty, List.infix_nil] at hwithin
        refine hseen other ?_ hwithin
        rw [← hflatten]
        exact List.mem_append_right _ hother
      refine ⟨⟨groups, held ++ [unit], hread, hgroups, ?_⟩, hmade, fun _ => made_unit hunit⟩
      rw [hnone]
      exact .single unit
  | fill hfilled _ =>
      refine ⟨⟨groups, held ++ [unit], hread, hgroups, ?_⟩, hmade, fun _ => ?_⟩
      · exact hheld.append (.single unit) _
      · exact (hopen hfilled).join hunit
  | flush hfilled _ =>
      have htail : Made newline paragraphs (tail limits packing.buf) :=
        (hopen hfilled).suffix (tail_suffix _)
      refine ⟨⟨groups ++ [held], [unit], ?_, ?_, candidate_carries _ unit⟩,
        forall_mem_concat.mpr ⟨hmade, hopen hfilled⟩, fun _ => Made.candidate (fun _ => htail) hunit⟩
      · simpa using hread
      · exact List.rel_append hgroups (List.Forall₂.cons hheld List.Forall₂.nil)

theorem packUnits_holds (paragraphs : List (List α)) :
    Holds newline paragraphs (unitsOf limits space paragraphs)
      (packUnits limits newline (unitsOf limits space paragraphs)) := by
  have hunits := fun unit => @mem_unitsOf _ limits space paragraphs unit
  generalize unitsOf limits space paragraphs = units at hunits
  induction units using List.reverseRecOn with
  | nil =>
      refine ⟨⟨[], [], rfl, .nil, .nil []⟩, ?_, ?_⟩
      · intro chunk hchunk
        cases hchunk
      · intro hne
        exact absurd rfl hne
  | append_singleton seen unit ih =>
      obtain ⟨hseen, hunit⟩ := forall_mem_concat.mp hunits
      rw [packUnits_concat]
      exact (ih hseen).move (fun other hother => (hseen other hother).1) hunit.2.2
        (packUnit_moves _ unit)

theorem forall₂_concat_right {β γ : Type*} {rel : β → γ → Prop} {left : List β}
    {right : List γ} {last : γ} (hrel : List.Forall₂ rel left (right ++ [last])) :
    ∃ before after, left = before ++ [after] ∧ List.Forall₂ rel before right ∧
      rel after last := by
  induction right generalizing left with
  | nil =>
      cases hrel with
      | cons hlast hnil =>
          cases hnil
          exact ⟨[], _, rfl, .nil, hlast⟩
  | cons first right ih =>
      cases hrel with
      | cons hfirst hrest =>
          obtain ⟨before, after, rfl, hbefore, hafter⟩ := ih hrest
          exact ⟨_ :: before, after, rfl, .cons hfirst hbefore, hafter⟩

/-- What stands in a chunk once the last buffer is dealt with. -/
theorem packParagraphs_holds (paragraphs : List (List α)) :
    (∃ groups lost, groups.flatten ++ lost = unitsOf limits space paragraphs ∧
      (∀ unit ∈ lost, unit.all space = true) ∧
      List.Forall₂ Carries groups (packParagraphs limits space newline paragraphs)) ∧
    ∀ chunk ∈ packParagraphs limits space newline paragraphs,
      Woven newline paragraphs chunk := by
  have hholds := @packUnits_holds _ limits space newline paragraphs
  obtain ⟨⟨groups, held, hflatten, hgroups, hheld⟩, hmade, hopen⟩ := hholds
  have hfinishes := @finishPacking_finishes _ limits space newline
    (packUnits limits newline (unitsOf limits space paragraphs))
  rw [packParagraphs]
  generalize packUnits limits newline (unitsOf limits space paragraphs) = packing at *
  generalize finishPacking limits space newline packing = chunks at *
  have hfilled : packing.buf.all space = false → packing.buf ≠ [] := by
    intro hkept hempty
    rw [hempty] at hkept
    cases hkept
  cases hfinishes with
  | blank hblank =>
      refine ⟨⟨groups, held, hflatten, ?_, hgroups⟩, fun chunk hchunk => .inl (hmade chunk hchunk)⟩
      intro unit hunit
      rw [List.all_eq_true] at hblank ⊢
      exact fun char hchar => hblank char ((hheld.mem hunit).subset hchar)
  | emit hkept _ =>
      refine ⟨⟨groups ++ [held], [], ?_, ?_, ?_⟩, ?_⟩
      · simpa using hflatten
      · intro unit hunit
        cases hunit
      · exact List.rel_append hgroups (List.Forall₂.cons hheld List.Forall₂.nil)
      · exact forall_mem_concat.mpr
          ⟨fun chunk hchunk => .inl (hmade chunk hchunk), .inl (hopen (hfilled hkept))⟩
  | @merge earlier last hkept hchunks _ =>
      rw [hchunks] at hgroups hmade
      obtain ⟨before, after, rfl, hbefore, hafter⟩ := forall₂_concat_right hgroups
      refine ⟨⟨before ++ [after ++ held], [], ?_, ?_, ?_⟩, ?_⟩
      · simpa using hflatten
      · intro unit hunit
        cases hunit
      · exact List.rel_append hbefore
          (List.Forall₂.cons (hafter.append hheld _) List.Forall₂.nil)
      · obtain ⟨hearlier, hlast⟩ := forall_mem_concat.mp hmade
        exact forall_mem_concat.mpr ⟨fun chunk hchunk => .inl (hearlier chunk hchunk),
          .inr ⟨last, packing.buf, hlast, hopen (hfilled hkept), rfl⟩⟩

/-- A unit that is not blank stands in one of the chunks. -/
theorem exists_chunk_of_unit {paragraphs : List (List α)} {unit : List α}
    (hunit : unit ∈ unitsOf limits space paragraphs) (hkept : unit.all space = false) :
    ∃ chunk ∈ packParagraphs limits space newline paragraphs, unit <:+: chunk := by
  obtain ⟨⟨groups, lost, hflatten, hlost, hgroups⟩, _⟩ :=
    @packParagraphs_holds _ limits space newline paragraphs
  rw [← hflatten] at hunit
  cases List.mem_append.mp hunit with
  | inl hcarried =>
      obtain ⟨group, hgroup, hunit⟩ := List.mem_flatten.mp hcarried
      obtain ⟨place, hplace, rfl⟩ := List.mem_iff_getElem.mp hgroup
      have hchunk : place < (packParagraphs limits space newline paragraphs).length :=
        hgroups.length_eq ▸ hplace
      have hcarries := List.forall₂_iff_get.mp hgroups |>.2 place hplace hchunk
      exact ⟨_, List.getElem_mem hchunk, hcarries.mem hunit⟩
  | inr hblank =>
      rw [hlost unit hblank] at hkept
      cases hkept

/-- `_pack_paragraphs` loses no unit that is not blank, keeps the units in their order,
has every character that is not blank in a chunk, and adds nothing of its own. -/
theorem packParagraphs_keeps (limits : Limits) (space : α → Bool) (newline : α)
    (paragraphs : List (List α)) :
    (∃ groups lost, groups.flatten ++ lost = unitsOf limits space paragraphs ∧
      (∀ unit ∈ lost, unit.all space = true) ∧
      List.Forall₂ Carries groups (packParagraphs limits space newline paragraphs)) ∧
    (∀ paragraph ∈ paragraphs, ∀ place, ∀ hplace : place < paragraph.length,
      space paragraph[place] = false → ∃ unit, Covers paragraph unit place ∧
        ∃ chunk ∈ packParagraphs limits space newline paragraphs, unit <:+: chunk) ∧
    ∀ chunk ∈ packParagraphs limits space newline paragraphs,
      Woven newline paragraphs chunk := by
  obtain ⟨hgroups, hwoven⟩ := @packParagraphs_holds _ limits space newline paragraphs
  refine ⟨hgroups, ?_, hwoven⟩
  intro paragraph hparagraph place hplace hchar
  obtain ⟨unit, hunit, hcovers⟩ := @hardSplit_covers _ limits space _ _ hplace hchar
  refine ⟨unit, hcovers, exists_chunk_of_unit ?_ (hcovers.all_eq_false hplace hchar)⟩
  exact List.mem_flatMap.mpr ⟨paragraph, hparagraph, hunit⟩

/-- A paragraph of one blank is short enough for a window and stands in no chunk. -/
theorem packParagraphs_blank_lost :
    [' '].length ≤ 2280 ∧ ¬ ∃ chunk ∈ packParagraphs ⟨1330, 2280, 342, by decide⟩
      PyString.isSpace '\n' [[' ']], [' '] <:+: chunk := by
  refine ⟨by decide, ?_⟩
  rw [packParagraphs, unitsOf, List.flatMap_singleton, hardSplit_short (by decide)]
  decide

end AgenticRag.Chunker
