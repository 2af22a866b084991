import AgenticRag.Text.Normalize

/-!
# Words split at the end of a line

Which hyphenated line breaks `_HYPHEN_BREAK.sub` leaves in a text: those with blanks around
the newline, and those whose first word character the match before has consumed.
-/

namespace AgenticRag.Normalize

open AgenticRag.PyString

def isInlineSpace (char : Char) : Bool :=
  isSpace char && char != '\n'

/-- A word that is split at the end of a line: word character, hyphen, newline, word
character, with any blanks around the newline. -/
structure SplitWord (isWord : Char → Bool) (text : List Char) where
  before : List Char
  first : Char
  left : List Char
  right : List Char
  second : Char
  behind : List Char
  split : text = before ++ first :: '-' :: (left ++ '\n' :: (right ++ second :: behind))
  isWord_first : isWord first = true
  isWord_second : isWord second = true
  blank_left : ∀ char ∈ left, isInlineSpace char = true
  blank_right : ∀ char ∈ right, isInlineSpace char = true

/-- Whether the word character behind a text is the second one of a match.  The text is
read backwards; the matches of `sub` do not overlap. -/
def isTaken (isWord : Char → Bool) : List Char → Bool
  | '\n' :: '-' :: char :: before => isWord char && !isTaken isWord before
  | _ => false

/-- The break is one that `_HYPHEN_BREAK.sub` matches. -/
def SplitWord.Rejoined {isWord : Char → Bool} {text : List Char}
    (word : SplitWord isWord text) : Prop :=
  word.left = [] ∧ word.right = [] ∧ isTaken isWord word.before.reverse = false

/-- What the word characters of `\w` are not. -/
structure Words (isWord : Char → Bool) : Prop where
  hyphen : isWord '-' = false
  space : ∀ char, isWord char = true → isSpace char = false

section Scan

variable {isWord : Char → Bool}

theorem Words.ne_newline (hwords : Words isWord) {char : Char} (hchar : isWord char = true) :
    char ≠ '\n' := by
  intro hsame
  have hkept := hwords.space char hchar
  rw [hsame] at hkept
  exact absurd hkept (by decide)

theorem Words.ne_hyphen (hwords : Words isWord) {char : Char} (hchar : isWord char = true) :
    char ≠ '-' := by
  intro hsame
  rw [hsame, hwords.hyphen] at hchar
  cases hchar

/-- A match begins with the character. -/
def BeginsMatch (isWord : Char → Bool) (char : Char) (rest : List Char) : Prop :=
  isWord char = true ∧
    ∃ second behind, rest = '-' :: '\n' :: second :: behind ∧ isWord second = true

theorem joinHyphens_match {first second : Char} (hfirst : isWord first = true)
    (hsecond : isWord second = true) (rest : List Char) :
    joinHyphens isWord (first :: '-' :: '\n' :: second :: rest) =
      first :: second :: joinHyphens isWord rest := by
  rw [joinHyphens, hfirst, hsecond]
  rfl

/-- Where no match begins, the character stays. -/
theorem joinHyphens_cons {char : Char} {rest : List Char}
    (hno : ¬ BeginsMatch isWord char rest) :
    joinHyphens isWord (char :: rest) = char :: joinHyphens isWord rest := by
  rw [joinHyphens.eq_def]
  split
  · rename_i first second behind hshape
    cases hshape
    rw [if_neg]
    intro hboth
    rw [Bool.and_eq_true] at hboth
    exact hno ⟨hboth.1, second, behind, rfl, hboth.2⟩
  · rename_i hshape
    cases hshape
    rfl
  · rename_i hshape
    cases hshape

theorem joinHyphens_cons_of_not_word {char : Char} (hchar : isWord char = false)
    (rest : List Char) : joinHyphens isWord (char :: rest) = char :: joinHyphens isWord rest :=
  joinHyphens_cons fun hbegins => by simp [BeginsMatch, hchar] at hbegins

/-- Induction along the scan: either the match at the front is taken out of the text, or
its first character. -/
theorem scan_induction {motive : List Char → Prop} (nil : motive [])
    (matched : ∀ first second rest, isWord first = true → isWord second = true →
      motive rest → motive (first :: '-' :: '\n' :: second :: rest))
    (kept : ∀ char rest, ¬ BeginsMatch isWord char rest → motive rest → motive (char :: rest))
    (text : List Char) : motive text := by
  induction text using joinHyphens.induct isWord with
  | case1 first second rest hboth ih =>
      rw [Bool.and_eq_true] at hboth
      exact matched first second rest hboth.1 hboth.2 ih
  | case2 first second rest hboth ih =>
      refine kept _ _ (fun hbegins => ?_) ih
      obtain ⟨hfirst, other, behind, hrest, hother⟩ := hbegins
      cases hrest
      exact hboth (Bool.and_eq_true _ _ ▸ ⟨hfirst, hother⟩)
  | case3 char rest hother ih =>
      refine kept _ _ (fun hbegins => ?_) ih
      obtain ⟨_, second, behind, hrest, _⟩ := hbegins
      exact hother second behind hrest
  | case4 => exact nil

theorem head?_joinHyphens (text : List Char) :
    (joinHyphens isWord text).head? = text.head? := by
  induction text using @scan_induction isWord with
  | nil => rfl
  | matched first second rest hfirst hsecond _ =>
      rw [joinHyphens_match hfirst hsecond]
      rfl
  | kept char rest hno _ =>
      rw [joinHyphens_cons hno]
      rfl

theorem getLast?_joinHyphens (text : List Char) :
    (joinHyphens isWord text).getLast? = text.getLast? := by
  induction text using @scan_induction isWord with
  | nil => rfl
  | matched first second rest hfirst hsecond ih =>
      rw [joinHyphens_match hfirst hsecond]
      simp only [List.getLast?_cons, ih, Option.getD_some]
  | kept char rest hno ih =>
      rw [joinHyphens_cons hno]
      simp only [List.getLast?_cons, ih]

theorem sublist_joinHyphens (text : List Char) : (joinHyphens isWord text).Sublist text := by
  induction text using @scan_induction isWord with
  | nil => exact List.Sublist.refl _
  | matched first second rest hfirst hsecond ih =>
      rw [joinHyphens_match hfirst hsecond]
      exact (((ih.cons_cons second).cons '\n').cons '-').cons_cons first
  | kept char rest hno ih =>
      rw [joinHyphens_cons hno]
      exact ih.cons_cons char

/-- A text without a match is scanned to itself. -/
theorem joinHyphens_eq_self {text : List Char}
    (hno : ∀ first second, isWord first = true → isWord second = true →
      ¬ [first, '-', '\n', second] <:+: text) : joinHyphens isWord text = text := by
  induction text using @scan_induction isWord with
  | nil => rfl
  | matched first second rest hfirst hsecond _ =>
      exact absurd ⟨[], rest, rfl⟩ (hno first second hfirst hsecond)
  | kept char rest hnone ih =>
      rw [joinHyphens_cons hnone, ih]
      intro first second hfirst hsecond hwithin
      exact hno first second hfirst hsecond (hwithin.trans (List.suffix_cons _ _).isInfix)

/-! ## Where the scan can be cut -/

/-- The scan can be cut before a word character that ends no match. -/
theorem joinHyphens_append_of_no_match (hwords : Words isWord) {front : List Char} {next : Char}
    (hnext : isWord next = true) (rest : List Char)
    (hno : ∀ char, isWord char = true → ¬ [char, '-', '\n'] <:+ front) :
    joinHyphens isWord (front ++ next :: rest) =
      joinHyphens isWord front ++ joinHyphens isWord (next :: rest) := by
  induction front using @scan_induction isWord with
  | nil => rfl
  | matched first second front hfirst hsecond ih =>
      have hinner := ih fun char hchar hsuffix =>
        hno char hchar (hsuffix.trans ⟨[first, '-', '\n', second], rfl⟩)
      rw [List.cons_append, List.cons_append, List.cons_append, List.cons_append,
        joinHyphens_match hfirst hsecond, joinHyphens_match hfirst hsecond, hinner]
      rfl
  | kept char front hnone ih =>
      have hinner := ih fun other hother hsuffix =>
        hno other hother (hsuffix.trans (List.suffix_cons _ _))
      have hacross : ¬ BeginsMatch isWord char (front ++ next :: rest) := by
        intro hbegins
        obtain ⟨hchar, second, behind, hshape, hsecond⟩ := hbegins
        match front with
        | [] => exact hwords.ne_hyphen hnext (List.head_eq_of_cons_eq hshape)
        | [hyphen] =>
            exact hwords.ne_newline hnext
              (List.head_eq_of_cons_eq (List.tail_eq_of_cons_eq hshape))
        | [hyphen, newline] =>
            cases hshape
            exact hno char hchar List.suffix_rfl
        | hyphen :: newline :: third :: front =>
            cases hshape
            exact hnone ⟨hchar, second, _, rfl, hsecond⟩
      rw [List.cons_append, joinHyphens_cons hacross, joinHyphens_cons hnone, hinner]
      rfl

/-- The scan at a word character: it goes on behind one that is taken and begins anew
before one that is not. -/
theorem joinHyphens_append_word (hwords : Words isWord) (back : List Char) {next : Char}
    (hnext : isWord next = true) (rest : List Char) :
    joinHyphens isWord (back.reverse ++ next :: rest) =
      if isTaken isWord back then
        joinHyphens isWord (back.reverse ++ [next]) ++ joinHyphens isWord rest
      else joinHyphens isWord back.reverse ++ joinHyphens isWord (next :: rest) := by
  induction back using isTaken.induct generalizing next rest with
  | case1 char before ih =>
      have hfront : ∀ tail, ('\n' :: '-' :: char :: before).reverse ++ tail =
          before.reverse ++ char :: '-' :: '\n' :: tail := by simp
      cases hchar : isWord char with
      | false =>
          rw [isTaken, hchar, Bool.false_and, if_neg Bool.false_ne_true]
          refine joinHyphens_append_of_no_match hwords hnext rest fun other hother hsuffix => ?_
          rw [← List.append_nil (List.reverse _), hfront] at hsuffix
          have hsame := List.suffix_of_suffix_length_le hsuffix
            (List.suffix_append before.reverse _) (Nat.le_refl _)
          rw [List.head_eq_of_cons_eq (hsame.eq_of_length rfl), hchar] at hother
          cases hother
      | true =>
          have hhyphen := joinHyphens_cons_of_not_word hwords.hyphen
          have hnewline : ∀ tail, joinHyphens isWord ('\n' :: tail) =
              '\n' :: joinHyphens isWord tail :=
            joinHyphens_cons_of_not_word (by
              by_contra hword
              exact hwords.ne_newline (Bool.not_eq_false _ ▸ hword) rfl)
          have hself : ('\n' :: '-' :: char :: before).reverse =
              before.reverse ++ [char, '-', '\n'] := by simp
          rw [isTaken, hchar, Bool.true_and, hfront, hfront, hself]
          cases htaken : isTaken isWord before with
          | true =>
              have hbehind : ∀ tail, joinHyphens isWord (before.reverse ++ char :: tail) =
                  joinHyphens isWord (before.reverse ++ [char]) ++ joinHyphens isWord tail := by
                intro tail
                rw [ih hchar, htaken]
                rfl
              rw [hbehind ('-' :: '\n' :: next :: rest), hbehind ['-', '\n'], hhyphen, hhyphen,
                hnewline, hnewline]
              simp [joinHyphens]
          | false =>
              have hbefore : ∀ tail, joinHyphens isWord (before.reverse ++ char :: tail) =
                  joinHyphens isWord before.reverse ++ joinHyphens isWord (char :: tail) := by
                intro tail
                rw [ih hchar, htaken]
                rfl
              rw [hbefore ('-' :: '\n' :: next :: rest), hbefore ['-', '\n', next],
                joinHyphens_match hchar hnext, joinHyphens_match hchar hnext]
              simp [joinHyphens]
  | case2 back hother =>
      have hfree : isTaken isWord back = false := by
        rw [isTaken.eq_def]
        split
        · exact absurd rfl (hother _ _)
        · rfl
      rw [hfree, if_neg Bool.false_ne_true]
      refine joinHyphens_append_of_no_match hwords hnext rest fun char _ hsuffix => ?_
      rw [← List.reverse_prefix, List.reverse_reverse] at hsuffix
      obtain ⟨before, hback⟩ := hsuffix
      exact hother char before hback.symm

/-- Characters outside of words stay, and the scan goes on behind them. -/
theorem joinHyphens_append_plain {plain : List Char}
    (hplain : ∀ char ∈ plain, isWord char = false) (rest : List Char) :
    joinHyphens isWord (plain ++ rest) = plain ++ joinHyphens isWord rest := by
  induction plain with
  | nil => rfl
  | cons char plain ih =>
      rw [List.cons_append, joinHyphens_cons_of_not_word (hplain char List.mem_cons_self),
        ih fun other hother => hplain other (List.mem_cons_of_mem _ hother)]
      rfl

/-- They also stood in the text. -/
theorem exists_of_joinHyphens_plain {plain text rest : List Char}
    (hplain : ∀ char ∈ plain, isWord char = false)
    (hscan : joinHyphens isWord text = plain ++ rest) :
    ∃ behind, text = plain ++ behind ∧ joinHyphens isWord behind = rest := by
  induction plain generalizing text with
  | nil => exact ⟨text, rfl, hscan⟩
  | cons char plain ih =>
      have hhead := @head?_joinHyphens isWord text
      rw [hscan] at hhead
      match text with
      | [] => cases hhead
      | first :: text =>
          cases hhead
          rw [joinHyphens_cons_of_not_word (hplain char List.mem_cons_self)] at hscan
          obtain ⟨behind, htext, hbehind⟩ := ih
            (fun other hother => hplain other (List.mem_cons_of_mem _ hother))
            (List.tail_eq_of_cons_eq hscan)
          exact ⟨behind, by rw [htext]; rfl, hbehind⟩

theorem BeginsMatch.append {char : Char} {rest : List Char} (hbegins : BeginsMatch isWord char rest)
    (more : List Char) : BeginsMatch isWord char (rest ++ more) := by
  obtain ⟨hchar, second, behind, rfl, hsecond⟩ := hbegins
  exact ⟨hchar, second, behind ++ more, rfl, hsecond⟩

/-- A hyphen that stays stood behind the same character, and the text can be cut between
the two. -/
theorem exists_of_joinHyphens_hyphen (hwords : Words isWord) {text front rest : List Char}
    {char : Char} (hscan : joinHyphens isWord text = front ++ char :: '-' :: rest) :
    ∃ before behind, text = before ++ char :: '-' :: behind ∧
      joinHyphens isWord (before ++ [char]) = front ++ [char] ∧
      joinHyphens isWord behind = rest := by
  have hhyphen : ∀ {tail rest : List Char}, joinHyphens isWord tail = '-' :: rest →
      ∃ behind, tail = '-' :: behind ∧ joinHyphens isWord behind = rest := by
    intro tail rest htail
    refine @exists_of_joinHyphens_plain isWord ['-'] tail rest (fun other hother => ?_) htail
    rw [List.mem_singleton.mp hother]
    exact hwords.hyphen
  induction text using @scan_induction isWord generalizing front with
  | nil => simp [joinHyphens] at hscan
  | matched first second text hfirst hsecond ih =>
      rw [joinHyphens_match hfirst hsecond] at hscan
      cases front with
      | nil =>
          rw [List.nil_append, List.cons.injEq, List.cons.injEq] at hscan
          exact absurd hscan.2.1 (hwords.ne_hyphen hsecond)
      | cons other front =>
          cases front with
          | nil =>
              rw [List.singleton_append, List.cons.injEq, List.cons.injEq] at hscan
              obtain ⟨rfl, rfl, htail⟩ := hscan
              obtain ⟨behind, rfl, hbehind⟩ := hhyphen htail
              refine ⟨[first, '-', '\n'], behind, rfl, ?_, hbehind⟩
              rw [List.cons_append, List.cons_append, List.cons_append, List.nil_append,
                joinHyphens_match hfirst hsecond]
              simp [joinHyphens]
          | cons another front =>
              rw [List.cons_append, List.cons_append, List.cons.injEq, List.cons.injEq] at hscan
              obtain ⟨rfl, rfl, htail⟩ := hscan
              obtain ⟨before, behind, rfl, hbefore, hbehind⟩ := ih htail
              refine ⟨first :: '-' :: '\n' :: second :: before, behind, rfl, ?_, hbehind⟩
              rw [List.cons_append, List.cons_append, List.cons_append, List.cons_append,
                joinHyphens_match hfirst hsecond, hbefore]
              rfl
  | kept first text hno ih =>
      rw [joinHyphens_cons hno] at hscan
      cases front with
      | nil =>
          rw [List.nil_append, List.cons.injEq] at hscan
          obtain ⟨rfl, htail⟩ := hscan
          obtain ⟨behind, rfl, hbehind⟩ := hhyphen htail
          exact ⟨[], behind, rfl, by simp [joinHyphens], hbehind⟩
      | cons other front =>
          rw [List.cons_append, List.cons.injEq] at hscan
          obtain ⟨rfl, htail⟩ := hscan
          obtain ⟨before, behind, rfl, hbefore, hbehind⟩ := ih htail
          refine ⟨first :: before, behind, rfl, ?_, hbehind⟩
          have hnone : ¬ BeginsMatch isWord first (before ++ [char]) := by
            intro hbegins
            have hlonger := hbegins.append ('-' :: behind)
            rw [List.append_assoc] at hlonger
            exact hno hlonger
          rw [List.cons_append, joinHyphens_cons hnone, hbefore]
          rfl

/-! ## The breaks that stay -/

theorem isWord_of_isInlineSpace (hwords : Words isWord) {char : Char}
    (hblank : isInlineSpace char = true) : isWord char = false := by
  by_contra hword
  rw [Bool.not_eq_false] at hword
  rw [isInlineSpace, hwords.space char hword] at hblank
  cases hblank

theorem SplitWord.plain_gap (hwords : Words isWord) {text : List Char}
    (word : SplitWord isWord text) :
    ∀ char ∈ '-' :: (word.left ++ '\n' :: word.right), isWord char = false := by
  have hnewline : isWord '\n' = false := by
    by_contra hword
    exact hwords.ne_newline (Bool.not_eq_false _ ▸ hword) rfl
  simp only [List.forall_mem_cons, List.forall_mem_append]
  exact ⟨hwords.hyphen, fun char hchar => isWord_of_isInlineSpace hwords (word.blank_left char hchar),
    hnewline, fun char hchar => isWord_of_isInlineSpace hwords (word.blank_right char hchar)⟩

/-- The break of a split word is matched only if there are no blanks around it. -/
theorem SplitWord.not_beginsMatch (hwords : Words isWord) {text : List Char}
    (word : SplitWord isWord text) (hblank : ¬ (word.left = [] ∧ word.right = [])) :
    ¬ BeginsMatch isWord word.first
      ('-' :: (word.left ++ '\n' :: (word.right ++ word.second :: word.behind))) := by
  intro hbegins
  obtain ⟨_, other, behind, hshape, hother⟩ := hbegins
  have hshape := List.tail_eq_of_cons_eq hshape
  cases hleft : word.left with
  | cons char left =>
      rw [hleft, List.cons_append, List.cons.injEq] at hshape
      have hchar := word.blank_left char (hleft ▸ List.mem_cons_self)
      rw [hshape.1] at hchar
      exact absurd hchar (by decide)
  | nil =>
      cases hright : word.right with
      | nil => exact hblank ⟨hleft, hright⟩
      | cons char right =>
          rw [hleft, hright, List.nil_append, List.cons.injEq, List.cons_append,
            List.cons.injEq] at hshape
          have hchar := isWord_of_isInlineSpace hwords
            (word.blank_right char (hright ▸ List.mem_cons_self))
          rw [hshape.2.1, hother] at hchar
          cases hchar

/-- A split word whose break is not matched stays split. -/
theorem SplitWord.stays (hwords : Words isWord) {text : List Char}
    (word : SplitWord isWord text) (hkept : ¬ word.Rejoined) :
    Nonempty (SplitWord isWord (joinHyphens isWord text)) := by
  have hplain := word.plain_gap hwords
  obtain ⟨tail, htail⟩ : ∃ tail, joinHyphens isWord
      ('-' :: (word.left ++ '\n' :: (word.right ++ word.second :: word.behind))) =
        '-' :: (word.left ++ '\n' :: (word.right ++ word.second :: tail)) := by
    have hscan := joinHyphens_append_plain hplain (word.second :: word.behind)
    have hhead := @head?_joinHyphens isWord (word.second :: word.behind)
    obtain ⟨tail, htail⟩ := List.head?_eq_some_iff.mp hhead
    rw [htail] at hscan
    exact ⟨tail, by simpa using hscan⟩
  obtain ⟨front, hfront⟩ : ∃ front, joinHyphens isWord text = front ++ word.first ::
      '-' :: (word.left ++ '\n' :: (word.right ++ word.second :: tail)) := by
    have hcut := joinHyphens_append_word hwords word.before.reverse word.isWord_first
      ('-' :: (word.left ++ '\n' :: (word.right ++ word.second :: word.behind)))
    rw [List.reverse_reverse, ← word.split] at hcut
    cases htaken : isTaken isWord word.before.reverse with
    | true =>
        have hlast := @getLast?_joinHyphens isWord (word.before ++ [word.first])
        rw [List.getLast?_concat] at hlast
        obtain ⟨front, hfront⟩ := List.getLast?_eq_some_iff.mp hlast
        rw [htaken, if_pos rfl, hfront, htail] at hcut
        exact ⟨front, by rw [hcut, List.append_assoc]; rfl⟩
    | false =>
        have hblank : ¬ (word.left = [] ∧ word.right = []) :=
          fun hnone => hkept ⟨hnone.1, hnone.2, htaken⟩
        rw [htaken, if_neg Bool.false_ne_true,
          joinHyphens_cons (word.not_beginsMatch hwords hblank), htail] at hcut
        exact ⟨_, hcut⟩
  exact ⟨{ word with before := front, behind := tail, split := hfront }⟩

/-- A word that is split after the scan was split before it, by a break that is not
matched. -/
theorem SplitWord.of_joinHyphens (hwords : Words isWord) {text : List Char}
    (kept : SplitWord isWord (joinHyphens isWord text)) :
    ∃ word : SplitWord isWord text, ¬ word.Rejoined := by
  obtain ⟨before, tail, htext, hbefore, htail⟩ :=
    exists_of_joinHyphens_hyphen hwords kept.split
  have hgap := kept.plain_gap hwords
  have hscan : joinHyphens isWord tail =
      (kept.left ++ '\n' :: kept.right) ++ kept.second :: kept.behind := by
    rw [htail]
    simp
  obtain ⟨rest, hrest, hbehind⟩ := exists_of_joinHyphens_plain
    (fun char hchar => hgap char (List.mem_cons_of_mem _ hchar)) hscan
  have hhead := @head?_joinHyphens isWord rest
  rw [hbehind, List.head?_cons, eq_comm] at hhead
  obtain ⟨behind, rfl⟩ := List.head?_eq_some_iff.mp hhead
  have hsplit : text = before ++ kept.first ::
      '-' :: (kept.left ++ '\n' :: (kept.right ++ kept.second :: behind)) := by
    refine htext.trans ?_
    rw [hrest]
    simp
  refine ⟨{ kept with before := before, behind := behind, split := hsplit }, fun hrejoined => ?_⟩
  obtain ⟨hleft, hright, hfree⟩ := hrejoined
  dsimp only at hleft hright hfree
  have hcut : ∀ rest, joinHyphens isWord (before ++ kept.first :: rest) =
      joinHyphens isWord before ++ joinHyphens isWord (kept.first :: rest) := by
    intro rest
    have hword := joinHyphens_append_word hwords before.reverse kept.isWord_first rest
    rwa [hfree, if_neg Bool.false_ne_true, List.reverse_reverse] at hword
  -- the match would have put the second character where the hyphen stands
  have hfront : joinHyphens isWord before = kept.before := by
    rw [hcut] at hbefore
    simpa [joinHyphens] using hbefore
  rw [hleft, hright] at hsplit
  have hmatched := (congrArg (joinHyphens isWord) hsplit).symm.trans kept.split
  rw [hcut, hfront, List.nil_append, List.nil_append,
    joinHyphens_match kept.isWord_first kept.isWord_second, List.append_cancel_left_eq,
    List.cons.injEq, List.cons.injEq] at hmatched
  exact hwords.ne_hyphen kept.isWord_second hmatched.2.1

end Scan

end AgenticRag.Normalize
