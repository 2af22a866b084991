import AgenticRag.Text.HyphenBreaks
import AgenticRag.Text.Lines

/-!
# When a normalized text is in normal form

Each step of `normalize_text` leaves what the steps before it have done, but one: stripping
the lines joins a hyphen with a newline behind blanks.  What is missing from the normal form
are the split words the scan has left.
-/

namespace AgenticRag.Normalize

open AgenticRag.PyString

theorem isSpace_of_isBlankChar {char : Char} (hblank : isBlankChar char = true) :
    isSpace char = true := by
  simp only [isBlankChar, Bool.or_eq_true, beq_iff_eq] at hblank
  cases hblank with
  | inl hleft =>
      cases hleft with
      | inl hspace => rw [hspace]; rfl
      | inr htab => rw [htab]; rfl
  | inr hfixed => rw [hfixed]; rfl

theorem isBlankChar_of_kept {char : Char} (hkept : isSpace char = false) :
    isBlankChar char = false := by
  by_contra hblank
  rw [isSpace_of_isBlankChar (Bool.not_eq_false _ ▸ hblank)] at hkept
  cases hkept

theorem ne_newline_of_isBlankChar {char : Char} (hblank : isBlankChar char = true) :
    char ≠ '\n' := by
  intro hsame
  rw [hsame] at hblank
  cases hblank

/-! ## Collapsed blanks -/

theorem head?_any_append_kept {kept : Char} (hkept : isBlankChar kept = false)
    (front rest : List Char) :
    (front ++ kept :: rest).head?.any isBlankChar = front.head?.any isBlankChar := by
  cases front with
  | nil => simp [hkept]
  | cons => rfl

theorem collapseBlanks_append_kept {kept : Char} (hkept : isBlankChar kept = false)
    (front rest : List Char) :
    collapseBlanks (front ++ kept :: rest) = collapseBlanks front ++ kept :: collapseBlanks rest := by
  induction front with
  | nil =>
      rw [List.nil_append, @collapseBlanks.eq_2 kept rest, hkept]
      rfl
  | cons char front ih =>
      rw [List.cons_append, collapseBlanks, collapseBlanks, head?_any_append_kept hkept, ih]
      split_ifs with hchar hnext
      · rfl
      · rfl
      · rfl

/-- A kept character stood in the text, and the two sides are collapsed apart. -/
theorem exists_of_collapseBlanks {kept : Char} (hkept : isBlankChar kept = false)
    {text front rest : List Char} (hsplit : collapseBlanks text = front ++ kept :: rest) :
    ∃ before behind, text = before ++ kept :: behind ∧ collapseBlanks before = front ∧
      collapseBlanks behind = rest := by
  induction text generalizing front with
  | nil => simp [collapseBlanks] at hsplit
  | cons char text ih =>
      rw [collapseBlanks] at hsplit
      split_ifs at hsplit with hchar hnext
      · obtain ⟨before, behind, rfl, hbefore, hbehind⟩ := ih hsplit
        rw [head?_any_append_kept hkept] at hnext
        refine ⟨char :: before, behind, rfl, ?_, hbehind⟩
        rw [collapseBlanks, if_pos hchar, if_pos hnext, hbefore]
      · cases front with
        | nil =>
            rw [← List.head_eq_of_cons_eq hsplit] at hkept
            cases hkept
        | cons blank front =>
            rw [List.cons_append, List.cons.injEq] at hsplit
            obtain ⟨before, behind, rfl, hbefore, hbehind⟩ := ih hsplit.2
            rw [head?_any_append_kept hkept] at hnext
            refine ⟨char :: before, behind, rfl, ?_, hbehind⟩
            rw [collapseBlanks, if_pos hchar, if_neg hnext, hbefore, hsplit.1]
      · cases front with
        | nil =>
            rw [List.nil_append, List.cons.injEq] at hsplit
            exact ⟨[], text, by rw [hsplit.1]; rfl, rfl, hsplit.2⟩
        | cons first front =>
            rw [List.cons_append, List.cons.injEq] at hsplit
            obtain ⟨before, behind, rfl, hbefore, hbehind⟩ := ih hsplit.2
            refine ⟨char :: before, behind, rfl, ?_, hbehind⟩
            rw [collapseBlanks, if_neg hchar, hbefore, hsplit.1]

theorem head?_any_collapseBlanks (text : List Char) :
    (collapseBlanks text).head?.any isBlankChar = text.head?.any isBlankChar := by
  induction text with
  | nil => rfl
  | cons char text ih =>
      rw [collapseBlanks]
      split_ifs with hchar hnext
      · rw [ih, hnext]
        simp [hchar]
      · simp only [List.head?_cons, Option.any_some, hchar]
        decide
      · rfl

theorem collapseBlanks_eq_nil {text : List Char} (hempty : collapseBlanks text = []) :
    text = [] := by
  cases text with
  | nil => rfl
  | cons char text =>
      have hhead := head?_any_collapseBlanks (char :: text)
      rw [hempty, List.head?_cons, Option.any_some, List.head?_nil, Option.any_none] at hhead
      rw [collapseBlanks, if_neg (by simp [← hhead])] at hempty
      cases hempty

theorem mem_collapseBlanks {text : List Char} {char : Char} (hmem : char ∈ collapseBlanks text) :
    char = ' ' ∨ char ∈ text := by
  induction text with
  | nil => cases hmem
  | cons first text ih =>
      rw [collapseBlanks] at hmem
      split_ifs at hmem
      · exact (ih hmem).imp_right (List.mem_cons_of_mem _)
      · cases List.mem_cons.mp hmem with
        | inl hblank => exact .inl hblank
        | inr hrest => exact (ih hrest).imp_right (List.mem_cons_of_mem _)
      · cases List.mem_cons.mp hmem with
        | inl hfirst => exact .inr (List.mem_cons.mpr (.inl hfirst))
        | inr hrest => exact (ih hrest).imp_right (List.mem_cons_of_mem _)

/-- Collapsing does not change whether there is anything but whitespace. -/
theorem forall_isSpace_collapseBlanks (text : List Char) :
    (∀ char ∈ collapseBlanks text, isSpace char = true) ↔ ∀ char ∈ text, isSpace char = true := by
  constructor
  · intro hall char hchar
    by_contra hkept
    obtain ⟨front, rest, rfl⟩ := List.append_of_mem hchar
    rw [collapseBlanks_append_kept (isBlankChar_of_kept (Bool.not_eq_true _ ▸ hkept))] at hall
    exact hkept (hall char (by simp))
  · intro hall char hchar
    cases mem_collapseBlanks hchar with
    | inl hblank => rw [hblank]; rfl
    | inr hmem => exact hall char hmem

/-- No two blanks side by side, and no blank but the space. -/
structure Collapsed (text : List Char) : Prop where
  apart : ∀ first second, isBlankChar first = true → isBlankChar second = true →
    ¬ [first, second] <:+: text
  plain : ∀ char ∈ text, isBlankChar char = true → char = ' '

theorem Collapsed.of_infix {part text : List Char} (htext : Collapsed text)
    (hpart : part <:+: text) : Collapsed part where
  apart := fun first second hfirst hsecond hwithin =>
    htext.apart first second hfirst hsecond (hwithin.trans hpart)
  plain := fun char hchar => htext.plain char (hpart.subset hchar)

theorem collapsed_cons_iff {char : Char} {text : List Char} :
    Collapsed (char :: text) ↔
      (isBlankChar char = true → char = ' ' ∧ text.head?.any isBlankChar = false) ∧
        Collapsed text := by
  constructor
  · intro hcollapsed
    refine ⟨fun hchar => ⟨hcollapsed.plain char List.mem_cons_self hchar, ?_⟩,
      hcollapsed.of_infix (List.suffix_cons _ _).isInfix⟩
    cases text with
    | nil => rfl
    | cons second text =>
        by_contra hsecond
        rw [Bool.not_eq_false] at hsecond
        exact hcollapsed.apart char second hchar hsecond ⟨[], text, rfl⟩
  · intro hparts
    obtain ⟨hhead, htext⟩ := hparts
    constructor
    · intro first second hfirst hsecond hwithin
      cases List.infix_cons_iff.mp hwithin with
      | inr hrest => exact htext.apart first second hfirst hsecond hrest
      | inl hprefix =>
          obtain ⟨behind, hsplit⟩ := hprefix
          cases hsplit
          have hnext := (hhead hfirst).2
          have hsome : isBlankChar second = false := hnext
          rw [hsecond] at hsome
          cases hsome
    · rw [List.forall_mem_cons]
      exact ⟨fun hchar => (hhead hchar).1, htext.plain⟩

theorem collapsed_collapseBlanks (text : List Char) : Collapsed (collapseBlanks text) := by
  induction text with
  | nil => exact ⟨by simp [collapseBlanks], by simp [collapseBlanks]⟩
  | cons char text ih =>
      rw [collapseBlanks]
      split_ifs with hchar hnext
      · exact ih
      · rw [collapsed_cons_iff, head?_any_collapseBlanks]
        exact ⟨fun _ => ⟨rfl, Bool.not_eq_true _ ▸ hnext⟩, ih⟩
      · rw [collapsed_cons_iff]
        exact ⟨fun hblank => absurd hblank hchar, ih⟩

theorem Collapsed.collapse {text : List Char} (htext : Collapsed text) :
    collapseBlanks text = text := by
  induction text with
  | nil => rfl
  | cons char text ih =>
      obtain ⟨hhead, hrest⟩ := collapsed_cons_iff.mp htext
      rw [collapseBlanks, ih hrest]
      split_ifs with hchar hnext
      · rw [(hhead hchar).2] at hnext
        cases hnext
      · rw [(hhead hchar).1]
      · rfl

/-! ## Limited newlines -/

theorem prefix_limitNewlines_iff {part text : List Char} {run : ℕ} (hrun : run < 2)
    (hsingle : ¬ ['\n', '\n'] <:+: part) (hhead : run = 1 → part.head? ≠ some '\n') :
    part <+: limitNewlines run text ↔ part <+: text := by
  induction text generalizing part run with
  | nil => rfl
  | cons char text ih =>
      cases part with
      | nil => simp
      | cons first part =>
          have hinner : ¬ ['\n', '\n'] <:+: part := fun hwithin =>
            hsingle (hwithin.trans (List.suffix_cons _ _).isInfix)
          rw [limitNewlines, if_pos hrun]
          split_ifs with hchar
          · rw [List.cons_prefix_cons, List.cons_prefix_cons]
            refine and_congr_right fun hfirst => ?_
            rw [hfirst, hchar] at hhead hsingle
            have hzero : run = 0 := by
              have hone : run ≠ 1 := fun hone => hhead hone rfl
              omega
            refine ih (by omega) hinner fun _ hnext => ?_
            obtain ⟨rest, rfl⟩ := List.head?_eq_some_iff.mp hnext
            exact hsingle ⟨[], rest, rfl⟩
          · rw [List.cons_prefix_cons, List.cons_prefix_cons]
            exact and_congr_right fun _ => ih (by decide) hinner (by simp)

/-- A part that does not begin with a newline and has no two of them side by side is kept
as it is. -/
theorem infix_limitNewlines_iff {first : Char} {part : List Char} (hfirst : first ≠ '\n')
    (hsingle : ¬ ['\n', '\n'] <:+: first :: part) (run : ℕ) (text : List Char) :
    first :: part <:+: limitNewlines run text ↔ first :: part <:+: text := by
  induction text generalizing run with
  | nil => rfl
  | cons char text ih =>
      rw [limitNewlines]
      split_ifs with hchar hrun
      · rw [List.infix_cons_iff, List.infix_cons_iff, ih, List.cons_prefix_cons,
          List.cons_prefix_cons, hchar]
        simp [hfirst]
      · rw [ih, @List.infix_cons_iff _ _ char, List.cons_prefix_cons, hchar]
        simp [hfirst]
      · have hprefix := @prefix_limitNewlines_iff (first :: part) (char :: text) 0 (by decide)
          hsingle (by simp)
        rw [limitNewlines, if_neg hchar] at hprefix
        rw [List.infix_cons_iff, List.infix_cons_iff, ih, hprefix]

theorem not_triple_cons {char : Char} (hchar : char ≠ '\n') {text : List Char}
    (htext : ¬ ['\n', '\n', '\n'] <:+: text) {run : ℕ} (hrun : run ≤ 2) :
    ¬ ['\n', '\n', '\n'] <:+: List.replicate run '\n' ++ char :: text := by
  have hother : '\n' ≠ char := fun hsame => hchar hsame.symm
  match run with
  | 0 => simp [List.infix_cons_iff, htext, hother]
  | 1 => simp [List.infix_cons_iff, htext, hother]
  | 2 => simp [List.infix_cons_iff, htext, hother, List.replicate]

/-- With the newlines read before there are never three in a row. -/
theorem not_triple_limitNewlines {run : ℕ} (hrun : run ≤ 2) (text : List Char) :
    ¬ ['\n', '\n', '\n'] <:+: List.replicate run '\n' ++ limitNewlines run text := by
  induction text generalizing run with
  | nil =>
      intro hwithin
      have hlength := hwithin.length_le
      simp [limitNewlines] at hlength
      omega
  | cons char text ih =>
      rw [limitNewlines]
      split_ifs with hchar hless
      · have hmore := ih hless
        rw [List.replicate_succ', List.append_assoc] at hmore
        rw [hchar]
        exact hmore
      · exact ih hrun
      · exact not_triple_cons hchar (ih (Nat.zero_le 2)) hrun

theorem limitNewlines_eq_self {run : ℕ} (hrun : run ≤ 2) {text : List Char}
    (hnone : ¬ ['\n', '\n', '\n'] <:+: List.replicate run '\n' ++ text) :
    limitNewlines run text = text := by
  induction text generalizing run with
  | nil => rfl
  | cons char text ih =>
      rw [limitNewlines]
      split_ifs with hchar hless
      · rw [ih hless]
        rw [List.replicate_succ', List.append_assoc, List.singleton_append]
        rw [hchar] at hnone
        exact hnone
      · have htwo : run = 2 := by omega
        rw [htwo, hchar] at hnone
        exact absurd ⟨[], text, rfl⟩ hnone
      · rw [ih (Nat.zero_le 2)]
        intro hwithin
        have hsuffix : text <:+ List.replicate run '\n' ++ char :: text :=
          (List.suffix_cons _ _).trans (List.suffix_append _ _)
        exact hnone (List.IsInfix.trans hwithin hsuffix.isInfix)

/-! ## The ends of a cleaned line -/

theorem rdropWhile_cons_spaces {char : Char} (hkept : isSpace char = false) {blanks : List Char}
    (hblanks : ∀ blank ∈ blanks, isSpace blank = true) :
    (char :: blanks).rdropWhile isSpace = [char] := by
  have hall : ∀ blank ∈ blanks.reverse, isSpace blank = true := by simpa using hblanks
  rw [List.rdropWhile, List.reverse_cons, List.dropWhile_append_of_pos hall,
    List.dropWhile_cons_of_neg (by simp [hkept])]
  rfl

theorem suffix_cleanLine_iff {first : Char} (hfirst : isSpace first = false) (line : List Char) :
    [first, '-'] <:+ cleanLine line ↔
      ∃ left, (∀ char ∈ left, isSpace char = true) ∧ first :: '-' :: left <:+ line := by
  have hhyphen : isSpace '-' = false := by decide
  constructor
  · intro hsuffix
    obtain ⟨front, hfront⟩ := hsuffix
    obtain ⟨before, behind, hsplit, _, hbehind⟩ :=
      exists_stripWhere isSpace (collapseBlanks line)
    rw [← cleanLine, ← hfront] at hsplit
    have hcut : collapseBlanks line = (before ++ front) ++ first :: ('-' :: behind) := by
      rw [hsplit]
      simp
    obtain ⟨start, tail, rfl, _, htail⟩ :=
      exists_of_collapseBlanks (isBlankChar_of_kept hfirst) hcut
    rw [← List.nil_append ('-' :: behind)] at htail
    obtain ⟨between, left, rfl, hbetween, hleft⟩ :=
      exists_of_collapseBlanks (isBlankChar_of_kept hhyphen) htail
    rw [← hleft, forall_isSpace_collapseBlanks] at hbehind
    exact ⟨left, hbehind, start, by rw [collapseBlanks_eq_nil hbetween]; rfl⟩
  · intro hends
    obtain ⟨left, hleft, front, rfl⟩ := hends
    have hblanks := (forall_isSpace_collapseBlanks left).mpr hleft
    rw [cleanLine, collapseBlanks_append_kept (isBlankChar_of_kept hfirst),
      stripWhere_append_kept hfirst, ← List.nil_append ('-' :: left),
      collapseBlanks_append_kept (isBlankChar_of_kept hhyphen), collapseBlanks,
      List.nil_append, rdropWhile_cons_spaces hhyphen hblanks]
    exact List.suffix_append _ _

theorem prefix_cleanLine_iff {second : Char} (hsecond : isSpace second = false)
    (line : List Char) :
    [second] <+: cleanLine line ↔
      ∃ right, (∀ char ∈ right, isSpace char = true) ∧ right ++ [second] <+: line := by
  constructor
  · intro hprefix
    obtain ⟨rest, hrest⟩ := hprefix
    obtain ⟨before, behind, hsplit, hbefore, _⟩ :=
      exists_stripWhere isSpace (collapseBlanks line)
    rw [← cleanLine, ← hrest] at hsplit
    obtain ⟨right, tail, rfl, hright, _⟩ :=
      exists_of_collapseBlanks (isBlankChar_of_kept hsecond) hsplit
    rw [← hright, forall_isSpace_collapseBlanks] at hbefore
    exact ⟨right, hbefore, tail, by simp⟩
  · intro hends
    obtain ⟨right, hright, tail, rfl⟩ := hends
    have hblanks := (forall_isSpace_collapseBlanks right).mpr hright
    rw [List.append_assoc, List.singleton_append, cleanLine,
      collapseBlanks_append_kept (isBlankChar_of_kept hsecond), stripWhere_append_kept hsecond,
      List.dropWhile_eq_nil_iff.mpr hblanks]
    exact ⟨_, rfl⟩

/-! ## Breaks in the cleaned lines -/

/-- A break `_HYPHEN_BREAK` would match. -/
def Break (isWord : Char → Bool) (text : List Char) : Prop :=
  ∃ first second, isWord first = true ∧ isWord second = true ∧
    [first, '-', '\n', second] <:+: text

section Lines

variable {isWord : Char → Bool}

theorem isInlineSpace_of_mem {blanks line : List Char} (hline : '\n' ∉ line)
    (hsubset : ∀ char ∈ blanks, char ∈ line) (hblanks : ∀ char ∈ blanks, isSpace char = true) :
    ∀ char ∈ blanks, isInlineSpace char = true := by
  intro char hchar
  have hother : char ≠ '\n' := fun hsame => hline (hsame ▸ hsubset char hchar)
  rw [isInlineSpace, hblanks char hchar, Bool.true_and, bne_iff_ne]
  exact hother

/-- The cleaned lines of a text have a break exactly where the text has a split word. -/
theorem break_cleanLine_iff (hwords : Words isWord) (text : List Char) :
    Break isWord (joinLines ((text.splitOn '\n').map cleanLine)) ↔
      Nonempty (SplitWord isWord text) := by
  have hlines : ∀ line ∈ text.splitOn '\n', '\n' ∉ line := fun line hline =>
    not_mem_of_mem_splitOn hline
  have hcleaned : ∀ line ∈ (text.splitOn '\n').map cleanLine, '\n' ∉ line := by
    intro line hline hmem
    obtain ⟨raw, hraw, rfl⟩ := List.mem_map.mp hline
    exact newline_not_mem_collapseBlanks (hlines raw hraw) ((infix_stripWhere _ _).subset hmem)
  constructor
  · intro hbreak
    obtain ⟨first, second, hfirst, hsecond, hwithin⟩ := hbreak
    have hleft : '\n' ∉ [first, '-'] := by
      simp [(hwords.ne_newline hfirst).symm]
    have hright : '\n' ∉ [second] := by
      simp [(hwords.ne_newline hsecond).symm]
    obtain ⟨one, two, hpair, hends, hstarts⟩ :=
      (Lines.infix_across_iff hleft hright hcleaned).mp hwithin
    obtain ⟨raw, hraw, hmap⟩ := List.infix_map_iff.mp hpair
    match raw, hmap with
    | [line, next], hmap =>
        rw [List.map_cons, List.map_singleton, List.cons.injEq, List.cons.injEq] at hmap
        rw [hmap.1, suffix_cleanLine_iff (hwords.space first hfirst)] at hends
        rw [hmap.2.1, prefix_cleanLine_iff (hwords.space second hsecond)] at hstarts
        obtain ⟨left, hblankLeft, hline⟩ := hends
        obtain ⟨right, hblankRight, hnext⟩ := hstarts
        have hlineFree := hlines line (hraw.subset (by simp))
        have hnextFree := hlines next (hraw.subset (by simp))
        have hsplit := (Lines.infix_across_iff (fun hmem => hlineFree (hline.subset hmem))
          (fun hmem => hnextFree (hnext.subset hmem)) hlines).mpr ⟨line, next, hraw, hline, hnext⟩
        rw [List.intercalate_splitOn] at hsplit
        obtain ⟨before, behind, htext⟩ := hsplit
        exact ⟨{
          before := before
          first := first
          left := left
          right := right
          second := second
          behind := behind
          split := by rw [← htext]; simp
          isWord_first := hfirst
          isWord_second := hsecond
          blank_left := isInlineSpace_of_mem hlineFree
            (fun char hchar => hline.subset (by simp [hchar])) hblankLeft
          blank_right := isInlineSpace_of_mem hnextFree
            (fun char hchar => hnext.subset (by simp [hchar])) hblankRight }⟩
  · intro hword
    obtain ⟨word⟩ := hword
    have hblank : ∀ {blanks : List Char}, (∀ char ∈ blanks, isInlineSpace char = true) →
        (∀ char ∈ blanks, isSpace char = true) ∧ '\n' ∉ blanks := by
      intro blanks hblanks
      refine ⟨fun char hchar => ?_, fun hmem => absurd (hblanks _ hmem) (by decide)⟩
      have hboth := hblanks char hchar
      rw [isInlineSpace, Bool.and_eq_true] at hboth
      exact hboth.1
    obtain ⟨hspaceLeft, hfreeLeft⟩ := hblank word.blank_left
    obtain ⟨hspaceRight, hfreeRight⟩ := hblank word.blank_right
    have hfirst := hwords.ne_newline word.isWord_first
    have hsecond := hwords.ne_newline word.isWord_second
    have hwithin : (word.first :: '-' :: word.left) ++ '\n' :: (word.right ++ [word.second]) <:+:
        ['\n'].intercalate (text.splitOn '\n') := by
      rw [List.intercalate_splitOn]
      refine ⟨word.before, word.behind, Eq.trans ?_ word.split.symm⟩
      simp
    obtain ⟨line, next, hpair, hends, hstarts⟩ :=
      (Lines.infix_across_iff (by simp [hfirst.symm, hfreeLeft])
        (by simp [hsecond.symm, hfreeRight]) hlines).mp hwithin
    refine ⟨word.first, word.second, word.isWord_first, word.isWord_second, ?_⟩
    have hleft : '\n' ∉ [word.first, '-'] := by simp [hfirst.symm]
    have hright : '\n' ∉ [word.second] := by simp [hsecond.symm]
    exact (Lines.infix_across_iff hleft hright hcleaned).mpr
      ⟨cleanLine line, cleanLine next, hpair.map cleanLine,
        (suffix_cleanLine_iff (hwords.space _ word.isWord_first) line).mpr
          ⟨word.left, hspaceLeft, hends⟩,
        (prefix_cleanLine_iff (hwords.space _ word.isWord_second) next).mpr
          ⟨word.right, hspaceRight, hstarts⟩⟩

end Lines

/-! ## The normal form -/

/-- What `normalize_text` is for. -/
structure NormalForm (isWord : Char → Bool) (text : List Char) : Prop where
  idempotent : normalizeText isWord (normalizeText isWord text) = normalizeText isWord text
  rejoined : ¬ Break isWord (normalizeText isWord text)
  paragraphs : ¬ ['\n', '\n', '\n'] <:+: normalizeText isWord text
  no_return : '\r' ∉ normalizeText isWord text
  stripped : ∀ line ∈ (normalizeText isWord text).splitOn '\n', stripWhere isSpace line = line

section NormalForm

variable {isWord : Char → Bool}

/-- The cleaned lines before newlines are limited. -/
def cleanedText (isWord : Char → Bool) (text : List Char) : List Char :=
  joinLines (((joinHyphens isWord (replaceCr (replaceCrlf text))).splitOn '\n').map cleanLine)

theorem normalizeText_eq (isWord : Char → Bool) (text : List Char) :
    normalizeText isWord text = stripWhere isSpace (limitNewlines 0 (cleanedText isWord text)) := by
  rw [normalizeText]
  split_ifs with hempty
  · rw [hempty]
    simp [cleanedText, replaceCrlf, replaceCr, joinHyphens, joinLines, cleanLine, collapseBlanks,
      stripWhere, limitNewlines]
  · rfl

theorem infix_normalizeText_iff {first : Char} {part : List Char} (hfirst : first ≠ '\n')
    (hsingle : ¬ ['\n', '\n'] <:+: first :: part)
    (hends : stripWhere isSpace (first :: part) = first :: part) (text : List Char) :
    first :: part <:+: normalizeText isWord text ↔ first :: part <:+: cleanedText isWord text := by
  rw [normalizeText_eq, ← infix_limitNewlines_iff hfirst hsingle 0 (cleanedText isWord text)]
  constructor
  · intro hwithin
    exact hwithin.trans (infix_stripWhere _ _)
  · intro hwithin
    rw [← hends]
    exact stripWhere_infix_stripWhere hwithin

/-- The breaks of a normalized text are the split words whose break is not matched. -/
theorem break_normalizeText_iff (hwords : Words isWord) (text : List Char) :
    Break isWord (normalizeText isWord text) ↔
      ∃ word : SplitWord isWord (replaceCr (replaceCrlf text)), ¬ word.Rejoined := by
  have hcleaned : Break isWord (normalizeText isWord text) ↔
      Break isWord (cleanedText isWord text) := by
    refine exists_congr fun first => exists_congr fun second => and_congr_right fun hfirst =>
      and_congr_right fun hsecond => ?_
    have hne := hwords.ne_newline hfirst
    have hsame := hwords.ne_newline hsecond
    refine infix_normalizeText_iff hne ?_ ?_ text
    · simp [List.infix_cons_iff, hne.symm, hsame.symm]
    · exact stripWhere_eq_of_ends ⟨first, _, rfl, hwords.space first hfirst⟩
        ⟨[first, '-', '\n'], second, rfl, hwords.space second hsecond⟩
  rw [hcleaned, cleanedText, break_cleanLine_iff hwords]
  constructor
  · intro hword
    obtain ⟨word⟩ := hword
    exact word.of_joinHyphens hwords
  · intro hword
    obtain ⟨word, hkept⟩ := hword
    exact word.stays hwords hkept

/-- What stands within a line of the result stood within a collapsed line. -/
theorem exists_line_of_infix {first : Char} {part text : List Char} (hpart : '\n' ∉ first :: part)
    (hwithin : first :: part <:+: normalizeText isWord text) :
    ∃ raw ∈ (joinHyphens isWord (replaceCr (replaceCrlf text))).splitOn '\n',
      first :: part <:+: collapseBlanks raw := by
  have hfirst : first ≠ '\n' := fun hsame => hpart (by simp [hsame])
  have hsingle : ¬ ['\n', '\n'] <:+: first :: part := fun hpair =>
    hpart (hpair.subset List.mem_cons_self)
  rw [normalizeText_eq] at hwithin
  have hcleaned : first :: part <:+: cleanedText isWord text :=
    (infix_limitNewlines_iff hfirst hsingle 0 _).mp (hwithin.trans (infix_stripWhere _ _))
  obtain ⟨line, hline, hinner⟩ := Lines.infix_within hpart (List.cons_ne_nil _ _) hcleaned
  obtain ⟨raw, hraw, rfl⟩ := List.mem_map.mp hline
  exact ⟨raw, hraw, hinner.trans (infix_stripWhere _ _)⟩

theorem mem_normalizeText {text : List Char} {char : Char}
    (hchar : char ∈ normalizeText isWord text) (hnewline : char ≠ '\n') :
    ∃ raw ∈ (joinHyphens isWord (replaceCr (replaceCrlf text))).splitOn '\n',
      char ∈ collapseBlanks raw := by
  obtain ⟨front, rest, hsplit⟩ := List.append_of_mem hchar
  have hsingle : '\n' ∉ [char] := by simpa using hnewline.symm
  obtain ⟨raw, hraw, hinner⟩ := exists_line_of_infix hsingle
    ⟨front, rest, by rw [hsplit]; simp⟩
  exact ⟨raw, hraw, hinner.subset List.mem_cons_self⟩

theorem not_mem_replaceCr (text : List Char) : '\r' ∉ replaceCr text := by
  intro hmem
  obtain ⟨char, _, hchar⟩ := List.mem_map.mp hmem
  split_ifs at hchar with hreturn
  · cases hchar
  · exact hreturn hchar

theorem Tidy.stripped {text line : List Char} (htidy : Tidy text)
    (hline : line ∈ text.splitOn '\n') : stripWhere isSpace line = line := by
  induction htidy with
  | @line only honly =>
      rw [List.splitOn_eq_singleton honly.unbroken, List.mem_singleton] at hline
      rw [hline]
      exact stripWhere_eq_of_ends honly.first honly.last
  | @next first rest hfirst _ ih =>
      rw [List.splitOn_append_cons_self_of_not_mem hfirst.unbroken] at hline
      cases List.mem_cons.mp hline with
      | inl hsame =>
          rw [hsame]
          exact stripWhere_eq_of_ends hfirst.first hfirst.last
      | inr hrest => exact ih hrest
  | @gap first rest hfirst _ ih =>
      rw [List.splitOn_append_cons_self_of_not_mem hfirst.unbroken, ← List.nil_append ('\n' :: rest),
        List.splitOn_append_cons_self_of_not_mem List.not_mem_nil] at hline
      cases List.mem_cons.mp hline with
      | inl hsame =>
          rw [hsame]
          exact stripWhere_eq_of_ends hfirst.first hfirst.last
      | inr hlater =>
          cases List.mem_cons.mp hlater with
          | inl hempty =>
              rw [hempty]
              rfl
          | inr hrest => exact ih hrest

theorem collapsed_normalizeText (text : List Char) : Collapsed (normalizeText isWord text) where
  apart := by
    intro first second hfirst hsecond hwithin
    obtain ⟨raw, _, hinner⟩ := exists_line_of_infix
      (by simp [(ne_newline_of_isBlankChar hfirst).symm, (ne_newline_of_isBlankChar hsecond).symm])
      hwithin
    exact (collapsed_collapseBlanks raw).apart first second hfirst hsecond hinner
  plain := by
    intro char hchar hblank
    obtain ⟨raw, _, hmem⟩ := mem_normalizeText hchar (ne_newline_of_isBlankChar hblank)
    exact (collapsed_collapseBlanks raw).plain char hmem hblank

theorem normalizeText_stripped (text : List Char) :
    ∀ line ∈ (normalizeText isWord text).splitOn '\n', stripWhere isSpace line = line := by
  intro line hline
  cases normalizeText_tidy isWord text with
  | inl hempty =>
      rw [hempty, List.splitOn_nil, List.mem_singleton] at hline
      rw [hline]
      rfl
  | inr htidy => exact htidy.stripped hline

theorem normalizeText_paragraphs (text : List Char) :
    ¬ ['\n', '\n', '\n'] <:+: normalizeText isWord text := by
  rw [normalizeText_eq]
  intro hwithin
  exact not_triple_limitNewlines (Nat.zero_le 2) _ (hwithin.trans (infix_stripWhere _ _))

theorem normalizeText_no_return (text : List Char) : '\r' ∉ normalizeText isWord text := by
  intro hmem
  obtain ⟨raw, hraw, hcollapsed⟩ := mem_normalizeText hmem (by decide)
  have hline := @Lines.infix_of_mem _ ['\n'] _ _ hraw
  rw [List.intercalate_splitOn] at hline
  cases mem_collapseBlanks hcollapsed with
  | inl hspace => cases hspace
  | inr hstood =>
      exact not_mem_replaceCr _ ((sublist_joinHyphens _).subset (hline.subset hstood))

/-- Without a break a normalized text is normalized to itself. -/
theorem normalizeText_idempotent {text : List Char}
    (hnone : ¬ Break isWord (normalizeText isWord text)) :
    normalizeText isWord (normalizeText isWord text) = normalizeText isWord text := by
  generalize hresult : normalizeText isWord text = result at hnone ⊢
  have hreturn : '\r' ∉ result := hresult ▸ normalizeText_no_return text
  have hjoined : joinHyphens isWord result = result :=
    joinHyphens_eq_self fun first second hfirst hsecond hwithin =>
      hnone ⟨first, second, hfirst, hsecond, hwithin⟩
  have hcollapsed : Collapsed result := hresult ▸ collapsed_normalizeText text
  have hlines : (result.splitOn '\n').map cleanLine = result.splitOn '\n' := by
    have hclean : ∀ line ∈ result.splitOn '\n', cleanLine line = id line := by
      intro line hline
      have hwithin := @Lines.infix_of_mem _ ['\n'] _ _ hline
      rw [List.intercalate_splitOn] at hwithin
      rw [cleanLine, (hcollapsed.of_infix hwithin).collapse]
      exact normalizeText_stripped text line (hresult.symm ▸ hline)
    rw [List.map_congr_left hclean, List.map_id]
  have hlimited : limitNewlines 0 result = result :=
    limitNewlines_eq_self (Nat.zero_le 2) (hresult ▸ normalizeText_paragraphs text)
  have hstrip : stripWhere isSpace result = result := by
    cases normalizeText_tidy isWord text with
    | inl hempty =>
        rw [← hresult, hempty]
        rfl
    | inr htidy => exact hresult ▸ htidy.strip
  rw [normalizeText_eq, cleanedText, replaceCrlf_of_not_mem hreturn,
    replaceCr_of_not_mem hreturn, hjoined, hlines, joinLines, List.intercalate_splitOn, hlimited,
    hstrip]

/-- A normalized text is in normal form exactly where every split word is rejoined by the
one scan that comes before the lines are stripped. -/
theorem normalForm_iff (hwords : Words isWord) (text : List Char) :
    NormalForm isWord text ↔
      ∀ word : SplitWord isWord (replaceCr (replaceCrlf text)), word.Rejoined := by
  have hbreak := break_normalizeText_iff hwords text
  constructor
  · intro hnormal word
    by_contra hkept
    exact hnormal.rejoined (hbreak.mpr ⟨word, hkept⟩)
  · intro hall
    have hnone : ¬ Break isWord (normalizeText isWord text) := by
      intro hsome
      obtain ⟨word, hkept⟩ := hbreak.mp hsome
      exact hkept (hall word)
    exact {
      idempotent := normalizeText_idempotent hnone
      rejoined := hnone
      paragraphs := normalizeText_paragraphs text
      no_return := normalizeText_no_return text
      stripped := normalizeText_stripped text }

theorem words_isAlphanum : Words Char.isAlphanum where
  hyphen := by decide
  space := by
    intro char hchar
    have hclass : ((decide (65 ≤ char.val ∧ char.val ≤ 90) ||
        (decide (97 ≤ char.val) && decide (char.val ≤ 122))) ||
          (decide (48 ≤ char.val) && decide (char.val ≤ 57))) = true := hchar
    simp only [Bool.or_eq_true, Bool.and_eq_true, decide_eq_true_eq,
      UInt32.le_iff_toNat_le] at hclass
    have hcode : ((65 ≤ char.toNat ∧ char.toNat ≤ 90) ∨ (97 ≤ char.toNat ∧ char.toNat ≤ 122)) ∨
        (48 ≤ char.toNat ∧ char.toNat ≤ 57) := hclass
    have hrange : 32 < char.toNat ∧ char.toNat < 0x85 := by omega
    simp only [isSpace, Bool.or_eq_false_iff, Bool.and_eq_false_iff, decide_eq_false_iff_not,
      beq_eq_false_iff_ne]
    omega

/-- A word that is split at the end of a line, without blanks. -/
theorem normalForm_hyphen :
    Words Char.isAlphanum ∧ NormalForm Char.isAlphanum ['a', '-', '\n', 'b'] := by
  refine ⟨words_isAlphanum, (normalForm_iff words_isAlphanum _).mpr fun word => ?_⟩
  have hunified : replaceCr (replaceCrlf ['a', '-', '\n', 'b']) = ['a', '-', '\n', 'b'] := by
    simp [replaceCr, replaceCrlf]
  have hsplit := hunified.symm.trans word.split
  cases hbefore : word.before with
  | nil =>
      rw [hbefore, List.nil_append, List.cons.injEq, List.cons.injEq] at hsplit
      cases hleft : word.left with
      | nil =>
          cases hright : word.right with
          | nil => exact ⟨hleft, hright, by rw [hbefore]; rfl⟩
          | cons char right => simp [hleft, hright] at hsplit
      | cons char left =>
          have hblank := word.blank_left char (hleft ▸ List.mem_cons_self)
          rw [hleft, List.cons_append, List.cons.injEq] at hsplit
          rw [← hsplit.2.2.1] at hblank
          cases hblank
  | cons char before =>
      rw [hbefore, List.cons_append, List.cons.injEq, List.append_cons] at hsplit
      have htail := congrArg List.tail hsplit.2
      rw [List.tail_append_of_ne_nil (by simp)] at htail
      have hmem : '-' ∈ ['-', '\n', 'b'].tail := by
        rw [htail]
        simp
      simp at hmem

/-- A blank before the line break leaves the word split. -/
theorem normalizeText_blank_break :
    normalizeText Char.isAlphanum "inter- \nnal".toList = "inter-\nnal".toList ∧
      ¬ NormalForm Char.isAlphanum "inter- \nnal".toList := by
  have hresult : normalizeText Char.isAlphanum "inter- \nnal".toList = "inter-\nnal".toList := by
    simp [normalizeText, replaceCrlf, replaceCr, joinHyphens]
    decide
  refine ⟨hresult, fun hnormal => hnormal.rejoined ?_⟩
  rw [hresult]
  exact ⟨'r', 'n', by decide, by decide, ['i', 'n', 't', 'e'], ['a', 'l'], by decide⟩

end NormalForm

end AgenticRag.Normalize
