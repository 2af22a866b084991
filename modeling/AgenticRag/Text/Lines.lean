import Mathlib.Data.List.Basic
import Mathlib.Data.List.Infix

/-!
# Joined lines

What can be read off a list of lines that are joined by a separator none of them contains:
a part across a separator lies in two neighbouring lines, a part without one in a single
line.
-/

namespace AgenticRag.Lines

variable {α : Type*} {separator : α}

theorem intercalate_cons_append (line : List α) {lines : List (List α)} (hne : lines ≠ []) :
    [separator].intercalate (line :: lines) =
      line ++ separator :: [separator].intercalate lines := by
  rw [List.intercalate_cons_of_ne_nil hne, List.append_assoc]
  rfl

/-- The first separator of a text tells where its first line ends. -/
theorem append_cons_cases {before line behind rest : List α} (hline : separator ∉ line)
    (hsplit : before ++ separator :: behind = line ++ separator :: rest) :
    before = line ∧ behind = rest ∨
      ∃ tail, before = line ++ separator :: tail ∧ rest = tail ++ separator :: behind := by
  cases List.append_eq_append_iff.mp hsplit with
  | inl hshort =>
      obtain ⟨more, hmore, hrest⟩ := hshort
      cases more with
      | nil =>
          rw [List.nil_append] at hrest
          rw [List.append_nil] at hmore
          exact .inl ⟨hmore.symm, List.tail_eq_of_cons_eq hrest⟩
      | cons char more =>
          rw [← List.head_eq_of_cons_eq hrest] at hmore
          exact absurd (by simp [hmore]) hline
  | inr hlong =>
      obtain ⟨more, hmore, hrest⟩ := hlong
      cases more with
      | nil =>
          rw [List.nil_append] at hrest
          rw [List.append_nil] at hmore
          exact .inl ⟨hmore, (List.tail_eq_of_cons_eq hrest).symm⟩
      | cons char more =>
          rw [← List.head_eq_of_cons_eq hrest] at hmore
          exact .inr ⟨more, hmore, List.tail_eq_of_cons_eq hrest⟩

/-- A text without a separator that stands at the end of one with it stands behind it. -/
theorem append_eq_cons_append {before part line rest : List α} (hpart : separator ∉ part)
    (hsplit : before ++ part = line ++ separator :: rest) :
    ∃ tail, before = line ++ separator :: tail ∧ rest = tail ++ part := by
  rw [← List.singleton_append, ← List.append_assoc] at hsplit
  cases List.append_eq_append_iff.mp hsplit with
  | inl hlonger =>
      obtain ⟨more, hline, hmore⟩ := hlonger
      by_cases hempty : more = []
      · rw [hempty, List.append_nil] at hline
        exact ⟨[], hline.symm, by simp [hmore, hempty]⟩
      · have hlast := congrArg List.getLast? hline
        rw [List.getLast?_concat, List.getLast?_append_of_ne_nil _ hempty] at hlast
        have hmem := List.mem_append_left rest (List.mem_of_getLast? hlast.symm)
        exact absurd (hmore ▸ hmem) hpart
  | inr hshorter =>
      obtain ⟨more, hbefore, hrest⟩ := hshorter
      exact ⟨more, by simp [hbefore], hrest⟩

/-- A beginning without a separator is one of the first line. -/
theorem prefix_of_prefix_append_cons {part line rest : List α} (hpart : separator ∉ part)
    (hfront : part <+: line ++ separator :: rest) : part <+: line := by
  obtain ⟨behind, hsplit⟩ := hfront
  cases List.append_eq_append_iff.mp hsplit with
  | inl hlonger =>
      obtain ⟨more, hline, _⟩ := hlonger
      exact ⟨more, hline.symm⟩
  | inr hshorter =>
      obtain ⟨more, hmore, hrest⟩ := hshorter
      cases more with
      | nil =>
          rw [hmore, List.append_nil]
      | cons char more =>
          rw [← List.head_eq_of_cons_eq hrest] at hmore
          exact absurd (by simp [hmore]) hpart

theorem suffix_intercalate (front lines : List (List α)) (hne : lines ≠ []) :
    [separator].intercalate lines <:+ [separator].intercalate (front ++ lines) := by
  induction front with
  | nil => exact List.suffix_rfl
  | cons line front ih =>
      have hrest : front ++ lines ≠ [] := List.append_ne_nil_of_right_ne_nil _ hne
      rw [List.cons_append, intercalate_cons_append line hrest]
      exact (ih.trans (List.suffix_cons _ _)).trans (List.suffix_append _ _)

theorem prefix_intercalate (lines back : List (List α)) :
    [separator].intercalate lines <+: [separator].intercalate (lines ++ back) := by
  induction lines with
  | nil => exact List.nil_prefix
  | cons line lines ih =>
      cases lines with
      | nil =>
          rw [List.intercalate_singleton]
          cases back with
          | nil =>
              rw [List.append_nil, List.intercalate_singleton]
          | cons next back =>
              rw [List.singleton_append, intercalate_cons_append line (List.cons_ne_nil _ _)]
              exact List.prefix_append _ _
      | cons next lines =>
          have hrest : next :: lines ++ back ≠ [] := List.cons_ne_nil _ _
          rw [intercalate_cons_append line (List.cons_ne_nil _ _), List.cons_append,
            intercalate_cons_append line hrest, List.prefix_append_right_inj,
            List.prefix_cons_inj]
          exact ih

theorem infix_intercalate {part lines : List (List α)} (hpart : part <:+: lines)
    (hne : part ≠ []) :
    [separator].intercalate part <:+: [separator].intercalate lines := by
  obtain ⟨front, back, rfl⟩ := hpart
  rw [List.append_assoc]
  have hrest : part ++ back ≠ [] := List.append_ne_nil_of_left_ne_nil hne _
  exact (prefix_intercalate part back).isInfix.trans
    (suffix_intercalate front (part ++ back) hrest).isInfix

/-- A line stands in the joined text, also with a longer separator. -/
theorem infix_of_mem {joint line : List α} {lines : List (List α)} (hline : line ∈ lines) :
    line <:+: joint.intercalate lines := by
  induction lines with
  | nil => cases hline
  | cons first lines ih =>
      cases lines with
      | nil =>
          rw [List.mem_singleton.mp hline, List.intercalate_singleton]
      | cons second lines =>
          rw [List.intercalate_cons_cons]
          cases List.mem_cons.mp hline with
          | inl hsame =>
              rw [hsame, List.append_assoc]
              exact (List.prefix_append _ _).isInfix
          | inr hrest => exact (ih hrest).trans (List.suffix_append _ _).isInfix

/-- What stands around a separator ends one line and begins the next. -/
theorem infix_across_iff {left right : List α} {lines : List (List α)}
    (hleft : separator ∉ left) (hright : separator ∉ right)
    (hlines : ∀ line ∈ lines, separator ∉ line) :
    left ++ separator :: right <:+: [separator].intercalate lines ↔
      ∃ first second, [first, second] <:+: lines ∧ left <:+ first ∧ right <+: second := by
  constructor
  · intro hwithin
    induction lines with
    | nil =>
        have hempty := List.infix_nil.mp hwithin
        simp at hempty
    | cons line lines ih =>
        have hline := hlines line List.mem_cons_self
        by_cases hne : lines = []
        · rw [hne, List.intercalate_singleton] at hwithin
          exact absurd (hwithin.subset (by simp)) hline
        · rw [intercalate_cons_append line hne] at hwithin
          obtain ⟨before, behind, hsplit⟩ := hwithin
          have hcut : before ++ left ++ separator :: (right ++ behind) =
              line ++ separator :: [separator].intercalate lines := by
            rw [← hsplit]
            simp
          cases append_cons_cases hline hcut with
          | inl hhere =>
              obtain ⟨second, rest, rfl⟩ := List.exists_cons_of_ne_nil hne
              have hfront : right <+: [separator].intercalate (second :: rest) :=
                ⟨behind, hhere.2⟩
              have hsecond : right <+: second := by
                by_cases hrest : rest = []
                · rwa [hrest, List.intercalate_singleton] at hfront
                · rw [intercalate_cons_append second hrest] at hfront
                  exact prefix_of_prefix_append_cons hright hfront
              exact ⟨line, second, ⟨[], rest, rfl⟩, ⟨before, hhere.1⟩, hsecond⟩
          | inr hlater =>
              obtain ⟨tail, hbefore, hrest⟩ := hlater
              obtain ⟨inner, _, hinner⟩ := append_eq_cons_append hleft hbefore
              have hwithin : left ++ separator :: right <:+: [separator].intercalate lines :=
                ⟨inner, behind, by simp [hrest, hinner]⟩
              obtain ⟨first, second, hpair, hends⟩ :=
                ih (fun other hother => hlines other (List.mem_cons_of_mem _ hother)) hwithin
              exact ⟨first, second, hpair.trans (List.suffix_cons _ _).isInfix, hends⟩
  · intro hends
    obtain ⟨first, second, hpair, ⟨before, hfirst⟩, behind, hsecond⟩ := hends
    have hjoined := @infix_intercalate _ separator _ _ hpair (List.cons_ne_nil _ _)
    rw [intercalate_cons_append first (List.cons_ne_nil _ _), List.intercalate_singleton,
      ← hfirst, ← hsecond] at hjoined
    exact List.IsInfix.trans ⟨before, behind, by simp⟩ hjoined

/-- What contains no separator stands in one line. -/
theorem infix_within {part : List α} {lines : List (List α)} (hpart : separator ∉ part)
    (hne : part ≠ []) (hwithin : part <:+: [separator].intercalate lines) :
    ∃ line ∈ lines, part <:+: line := by
  induction lines with
  | nil => exact absurd (List.infix_nil.mp hwithin) hne
  | cons line lines ih =>
      by_cases hlast : lines = []
      · rw [hlast, List.intercalate_singleton] at hwithin
        exact ⟨line, List.mem_cons_self, hwithin⟩
      · rw [intercalate_cons_append line hlast] at hwithin
        obtain ⟨before, behind, hsplit⟩ := hwithin
        cases List.append_eq_append_iff.mp hsplit with
        | inl hfirst =>
            obtain ⟨more, hline, _⟩ := hfirst
            exact ⟨line, List.mem_cons_self, before, more, hline.symm⟩
        | inr hlater =>
            obtain ⟨more, hbefore, hmore⟩ := hlater
            cases more with
            | nil =>
                rw [List.append_nil] at hbefore
                exact ⟨line, List.mem_cons_self, before, [], by simp [hbefore]⟩
            | cons char more =>
                rw [List.cons_append, List.cons.injEq] at hmore
                rw [← hmore.1] at hbefore
                obtain ⟨inner, _, hinner⟩ := append_eq_cons_append hpart hbefore
                obtain ⟨other, hother, hfound⟩ := ih ⟨inner, behind, by
                  rw [hmore.2, hinner]⟩
                exact ⟨other, List.mem_cons_of_mem _ hother, hfound⟩

end AgenticRag.Lines
