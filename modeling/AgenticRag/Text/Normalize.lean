import AgenticRag.Text.PyString

/-!
# Normalized texts

`normalize_text` and what it guarantees: the text is empty, or it consists of stripped
lines that are one or two newlines apart.  The word characters of `\w` are a parameter;
nothing below depends on which they are.
-/

namespace AgenticRag.Normalize

open AgenticRag.PyString

/-- `text.replace("\r\n", "\n")` -/
def replaceCrlf : List Char → List Char
  | '\r' :: '\n' :: rest => '\n' :: replaceCrlf rest
  | char :: rest => char :: replaceCrlf rest
  | [] => []

/-- `text.replace("\r", "\n")` -/
def replaceCr (text : List Char) : List Char :=
  text.map fun char => if char = '\r' then '\n' else char

/-- `_HYPHEN_BREAK.sub(r"\1\2", text)`: the two word characters of a match are consumed. -/
def joinHyphens (isWord : Char → Bool) : List Char → List Char
  | first :: '-' :: '\n' :: second :: rest =>
      if isWord first && isWord second then first :: second :: joinHyphens isWord rest
      else first :: joinHyphens isWord ('-' :: '\n' :: second :: rest)
  | char :: rest => char :: joinHyphens isWord rest
  | [] => []

/-- The class of `_WS`. -/
def isBlankChar (char : Char) : Bool :=
  char == ' ' || char == '\t' || char == '\u00a0'

/-- `_WS.sub(" ", line)` -/
def collapseBlanks : List Char → List Char
  | [] => []
  | char :: rest =>
      if isBlankChar char then
        if rest.head?.any isBlankChar then collapseBlanks rest else ' ' :: collapseBlanks rest
      else char :: collapseBlanks rest

/-- `_MULTINEWLINE.sub("\n\n", text)`: a newline behind two others is dropped.  The
number is that of the newlines read before. -/
def limitNewlines : ℕ → List Char → List Char
  | _, [] => []
  | run, char :: rest =>
      if char = '\n' then
        if run < 2 then char :: limitNewlines (run + 1) rest else limitNewlines run rest
      else char :: limitNewlines 0 rest

def cleanLine (line : List Char) : List Char :=
  stripWhere isSpace (collapseBlanks line)

def joinLines (lines : List (List Char)) : List Char :=
  ['\n'].intercalate lines

def normalizeText (isWord : Char → Bool) (text : List Char) : List Char :=
  if text = [] then []
  else
    let text := joinHyphens isWord (replaceCr (replaceCrlf text))
    let lines := (text.splitOn '\n').map cleanLine
    stripWhere isSpace (limitNewlines 0 (joinLines lines))

/-! ## The shape of a normalized text -/

/-- A line that is not empty, not broken, and has no blank at its ends. -/
structure Line (line : List Char) : Prop where
  unbroken : '\n' ∉ line
  first : ∃ char rest, line = char :: rest ∧ isSpace char = false
  last : ∃ front char, line = front ++ [char] ∧ isSpace char = false

theorem Line.ne_nil {line : List Char} (hline : Line line) : line ≠ [] := by
  obtain ⟨char, rest, rfl, _⟩ := hline.first
  exact List.cons_ne_nil _ _

/-- Lines that are one or two newlines apart. -/
inductive Tidy : List Char → Prop where
  | line {line : List Char} (hline : Line line) : Tidy line
  | next {line rest : List Char} (hline : Line line) (hrest : Tidy rest) :
      Tidy (line ++ '\n' :: rest)
  | gap {line rest : List Char} (hline : Line line) (hrest : Tidy rest) :
      Tidy (line ++ '\n' :: '\n' :: rest)

theorem Tidy.first {text : List Char} (htidy : Tidy text) :
    ∃ char rest, text = char :: rest ∧ isSpace char = false := by
  cases htidy with
  | line hline => exact hline.first
  | next hline _ =>
      obtain ⟨char, rest, rfl, hkept⟩ := hline.first
      exact ⟨char, _, rfl, hkept⟩
  | gap hline _ =>
      obtain ⟨char, rest, rfl, hkept⟩ := hline.first
      exact ⟨char, _, rfl, hkept⟩

theorem Tidy.last {text : List Char} (htidy : Tidy text) :
    ∃ front char, text = front ++ [char] ∧ isSpace char = false := by
  induction htidy with
  | line hline => exact hline.last
  | @next line _ _ _ ih =>
      obtain ⟨front, char, rfl, hkept⟩ := ih
      exact ⟨line ++ '\n' :: front, char, by simp, hkept⟩
  | @gap line _ _ _ ih =>
      obtain ⟨front, char, rfl, hkept⟩ := ih
      exact ⟨line ++ '\n' :: '\n' :: front, char, by simp, hkept⟩

/-- Two such texts behind a blank line are one. -/
theorem Tidy.append {first second : List Char} (hfirst : Tidy first) (hsecond : Tidy second) :
    Tidy (first ++ '\n' :: '\n' :: second) := by
  induction hfirst with
  | line hline => exact .gap hline hsecond
  | next hline _ ih =>
      rw [List.append_assoc, List.cons_append]
      exact .next hline ih
  | gap hline _ ih =>
      rw [List.append_assoc, List.cons_append, List.cons_append]
      exact .gap hline ih

theorem infix_stripWhere (drop : Char → Bool) (text : List Char) :
    stripWhere drop text <:+: text := by
  obtain ⟨left, right, hsplit, _⟩ := exists_stripWhere drop text
  exact ⟨left, right, by rw [List.append_assoc, ← hsplit]⟩

theorem stripWhere_first {drop : Char → Bool} {text : List Char}
    (hne : stripWhere drop text ≠ []) :
    ∃ char rest, stripWhere drop text = char :: rest ∧ drop char = false := by
  have hdropped : text.dropWhile drop ≠ [] := by
    intro hnil
    rw [stripWhere, hnil] at hne
    exact hne rfl
  obtain ⟨char, rest, hsplit⟩ := List.exists_cons_of_ne_nil hne
  have hprefix : stripWhere drop text <+: text.dropWhile drop := List.rdropWhile_prefix _ _
  rw [hsplit] at hprefix
  obtain ⟨back, hback⟩ := hprefix
  have hhead := List.head_dropWhile_not drop hdropped
  simp only [← hback, List.cons_append, List.head_cons] at hhead
  exact ⟨char, rest, hsplit, hhead⟩

theorem stripWhere_last {drop : Char → Bool} {text : List Char}
    (hne : stripWhere drop text ≠ []) :
    ∃ front char, stripWhere drop text = front ++ [char] ∧ drop char = false := by
  have hkept := List.rdropWhile_last_not drop (text.dropWhile drop) hne
  refine ⟨_, _, (List.dropLast_append_getLast hne).symm, ?_⟩
  exact Bool.eq_false_iff.mpr hkept

/-- A stripped text keeps the stripped form of everything inside it. -/
theorem stripWhere_infix_stripWhere {drop : Char → Bool} {part text : List Char}
    (hpart : part <:+: text) : stripWhere drop part <:+: stripWhere drop text := by
  by_cases hne : stripWhere drop part = []
  · rw [hne]
    exact List.nil_infix
  · obtain ⟨before, behind, htext⟩ := (infix_stripWhere drop part).trans hpart
    obtain ⟨kept, rest, hfirst, hkept⟩ := stripWhere_first hne
    obtain ⟨front, final, hlast, hfinal⟩ := stripWhere_last hne
    have hend : (before ++ stripWhere drop part).getLast? = some final := by
      rw [hlast, ← List.append_assoc, List.getLast?_concat]
    rw [← htext, stripWhere_append_of_getLast? hfinal hend, hfirst,
      dropWhile_append_kept hkept]
    exact ⟨_, _, rfl⟩

theorem stripWhere_eq_of_ends {drop : Char → Bool} {text : List Char}
    (hfirst : ∃ char rest, text = char :: rest ∧ drop char = false)
    (hlast : ∃ front char, text = front ++ [char] ∧ drop char = false) :
    stripWhere drop text = text := by
  obtain ⟨char, rest, rfl, hkept⟩ := hfirst
  obtain ⟨front, final, hsplit, hend⟩ := hlast
  rw [stripWhere, List.dropWhile_cons_of_neg (by simp [hkept]), hsplit,
    List.rdropWhile_concat_neg _ _ _ (by simp [hend])]

theorem Tidy.strip {text : List Char} (htidy : Tidy text) : stripWhere isSpace text = text :=
  stripWhere_eq_of_ends htidy.first htidy.last

theorem not_mem_of_mem_splitOn {text line : List Char} {separator : Char}
    (hline : line ∈ text.splitOn separator) : separator ∉ line := by
  induction text generalizing line with
  | nil =>
      rw [List.splitOn_nil, List.mem_singleton] at hline
      rw [hline]
      exact List.not_mem_nil
  | cons char text ih =>
      rw [List.splitOn_cons_eq_if_modifyHead] at hline
      split_ifs at hline with hchar
      · cases hline with
        | head => exact List.not_mem_nil
        | tail _ hrest => exact ih hrest
      · obtain ⟨first, rest, hsplit⟩ := List.exists_cons_of_ne_nil
          (List.splitOn_ne_nil separator text)
        rw [hsplit, List.modifyHead_cons] at hline
        cases hline with
        | head =>
            intro hmem
            cases List.mem_cons.mp hmem with
            | inl hsame => exact hchar (beq_iff_eq.mpr hsame.symm)
            | inr hfirst => exact ih (hsplit ▸ List.mem_cons_self) hfirst
        | tail _ hrest => exact ih (hsplit ▸ List.mem_cons_of_mem _ hrest)

theorem newline_not_mem_collapseBlanks {line : List Char} (hline : '\n' ∉ line) :
    '\n' ∉ collapseBlanks line := by
  induction line with
  | nil => exact List.not_mem_nil
  | cons char rest ih =>
      have hrest := ih (fun hmem => hline (List.mem_cons_of_mem _ hmem))
      rw [collapseBlanks]
      split_ifs
      · exact hrest
      · simpa using hrest
      · intro hmem
        cases List.mem_cons.mp hmem with
        | inl hsame => exact hline (List.mem_cons.mpr (.inl hsame))
        | inr htail => exact hrest htail

theorem cleanLine_cases {line : List Char} (hline : '\n' ∉ line) :
    cleanLine line = [] ∨ Line (cleanLine line) := by
  by_cases hempty : cleanLine line = []
  · exact .inl hempty
  · have hunbroken : '\n' ∉ cleanLine line := by
      intro hmem
      exact newline_not_mem_collapseBlanks hline
        ((infix_stripWhere isSpace _).subset hmem)
    exact .inr ⟨hunbroken, stripWhere_first hempty, stripWhere_last hempty⟩

theorem limitNewlines_line {line : List Char} (hunbroken : '\n' ∉ line) (hne : line ≠ [])
    (run : ℕ) (rest : List Char) :
    limitNewlines run (line ++ rest) = line ++ limitNewlines 0 rest := by
  induction line generalizing run with
  | nil => exact absurd rfl hne
  | cons char line ih =>
      have hchar : char ≠ '\n' := fun hsame => hunbroken (hsame ▸ List.mem_cons_self)
      rw [List.cons_append, limitNewlines, if_neg hchar, List.cons_append]
      by_cases hline : line = []
      · rw [hline, List.nil_append, List.nil_append]
      · rw [ih (fun hmem => hunbroken (List.mem_cons_of_mem _ hmem)) hline]

/-- What is left of the newlines: at most two in front, and a text of lines between. -/
inductive Trimmed (run : ℕ) (text : List Char) : Prop where
  | blank (count : ℕ) (htext : text = List.replicate count '\n')
  | core (before after : ℕ) {tidy : List Char} (hbefore : before + run ≤ 2)
      (htidy : Tidy tidy)
      (htext : text = List.replicate before '\n' ++ (tidy ++ List.replicate after '\n'))

theorem Trimmed.cons_newline {run : ℕ} {text : List Char}
    (htrimmed : Trimmed (run + 1) text) : Trimmed run ('\n' :: text) := by
  cases htrimmed with
  | blank count htext => exact .blank (count + 1) (by rw [htext]; rfl)
  | core before after hbefore htidy htext =>
      exact .core (before + 1) after (by omega) htidy (by rw [htext]; rfl)

theorem Trimmed.line {text line : List Char} (hline : Line line) (htrimmed : Trimmed 1 text) :
    Trimmed 2 (line ++ '\n' :: text) := by
  cases htrimmed with
  | blank count htext =>
      exact .core 0 (count + 1) (Nat.le_refl _) (.line hline) (by rw [htext]; rfl)
  | @core before after tidy hbefore htidy htext =>
      have hone : before = 0 ∨ before = 1 := by omega
      cases hone with
      | inl hnone =>
          exact .core 0 after (Nat.le_refl _) (.next hline htidy) (by simp [htext, hnone])
      | inr hgap =>
          exact .core 0 after (Nat.le_refl _) (.gap hline htidy) (by simp [htext, hgap])

theorem Trimmed.mono {run other : ℕ} {text : List Char} (hless : other ≤ run)
    (htrimmed : Trimmed run text) : Trimmed other text := by
  cases htrimmed with
  | blank count htext => exact .blank count htext
  | core before after hbefore htidy htext => exact .core before after (by omega) htidy htext

theorem limitNewlines_trimmed {lines : List (List Char)}
    (hlines : ∀ line ∈ lines, line = [] ∨ Line line) {run : ℕ} (hrun : run ≤ 2) :
    Trimmed run (limitNewlines run (joinLines lines)) := by
  induction lines generalizing run with
  | nil => exact .blank 0 rfl
  | cons line lines ih =>
      have hrest := fun other hother => hlines other (List.mem_cons_of_mem line hother)
      cases lines with
      | nil =>
          rw [joinLines, List.intercalate_singleton]
          cases hlines line List.mem_cons_self with
          | inl hempty =>
              rw [hempty]
              exact .blank 0 rfl
          | inr hline =>
              have hlimit := limitNewlines_line hline.unbroken hline.ne_nil run []
              rw [List.append_nil, limitNewlines, List.append_nil] at hlimit
              rw [hlimit]
              exact .core 0 0 (by omega) (.line hline) (by simp)
      | cons second lines =>
          have hjoin : joinLines (line :: second :: lines) =
              line ++ '\n' :: joinLines (second :: lines) := by
            rw [joinLines, List.intercalate_cons_cons, List.append_assoc]
            rfl
          rw [hjoin]
          cases hlines line List.mem_cons_self with
          | inl hempty =>
              rw [hempty, List.nil_append, limitNewlines, if_pos rfl]
              split_ifs with hless
              · exact (ih hrest hless).cons_newline
              · exact ih hrest hrun
          | inr hline =>
              rw [limitNewlines_line hline.unbroken hline.ne_nil, limitNewlines, if_pos rfl,
                if_pos (by decide)]
              exact ((ih hrest (by decide)).line hline).mono hrun

/-- A normalized text is empty, or lines one or two newlines apart. -/
theorem normalizeText_tidy (isWord : Char → Bool) (text : List Char) :
    normalizeText isWord text = [] ∨ Tidy (normalizeText isWord text) := by
  rw [normalizeText]
  split_ifs with hempty
  · exact .inl rfl
  · have hlines : ∀ line ∈ ((joinHyphens isWord (replaceCr (replaceCrlf text))).splitOn '\n').map
        cleanLine, line = [] ∨ Line line := by
      intro line hline
      obtain ⟨raw, hraw, rfl⟩ := List.mem_map.mp hline
      exact cleanLine_cases (not_mem_of_mem_splitOn hraw)
    have hnewline : ∀ count : ℕ, ∀ char ∈ List.replicate count '\n', isSpace char = true := by
      intro count char hchar
      rw [List.eq_of_mem_replicate hchar]
      rfl
    cases limitNewlines_trimmed hlines (Nat.zero_le 2) with
    | blank count htext =>
        dsimp only
        rw [htext, stripWhere_eq_nil_iff]
        exact .inl (hnewline count)
    | core before after _ htidy htext =>
        dsimp only
        rw [htext, stripWhere_append_left (hnewline before),
          stripWhere_append_right (hnewline after), htidy.strip]
        exact .inr htidy

/-! ## A text without blanks -/

section Unspaced

variable {text : List Char}

theorem not_mem_of_unspaced (hunspaced : ∀ char ∈ text, isSpace char = false) {blank : Char}
    (hblank : isSpace blank = true) : blank ∉ text := by
  intro hmem
  have hkept := hunspaced blank hmem
  rw [hblank] at hkept
  cases hkept

theorem replaceCrlf_of_not_mem (hcr : '\r' ∉ text) : replaceCrlf text = text := by
  induction text using replaceCrlf.induct with
  | case1 rest _ => exact absurd List.mem_cons_self hcr
  | case2 char rest hother ih =>
      rw [replaceCrlf, ih fun hmem => hcr (List.mem_cons_of_mem _ hmem)]
      exact hother
  | case3 => rfl

theorem replaceCr_of_not_mem (hcr : '\r' ∉ text) : replaceCr text = text := by
  rw [replaceCr, List.map_congr_left (g := id), List.map_id]
  intro char hchar
  have hother : char ≠ '\r' := fun hsame => hcr (hsame ▸ hchar)
  exact if_neg hother

theorem joinHyphens_of_not_mem (isWord : Char → Bool) (hnewline : '\n' ∉ text) :
    joinHyphens isWord text = text := by
  induction text using joinHyphens.induct isWord with
  | case1 first second rest _ _ => simp at hnewline
  | case2 first second rest _ _ => simp at hnewline
  | case3 char rest hother ih =>
      rw [joinHyphens, ih fun hmem => hnewline (List.mem_cons_of_mem _ hmem)]
      exact hother
  | case4 => rfl

theorem collapseBlanks_unspaced (hunspaced : ∀ char ∈ text, isSpace char = false) :
    collapseBlanks text = text := by
  induction text with
  | nil => rfl
  | cons char text ih =>
      have hchar : isBlankChar char = false := by
        have hkept := hunspaced char List.mem_cons_self
        by_contra hblank
        rw [Bool.not_eq_false, isBlankChar, Bool.or_eq_true, Bool.or_eq_true, beq_iff_eq,
          beq_iff_eq, beq_iff_eq, or_assoc] at hblank
        rcases hblank with rfl | rfl | rfl <;> exact absurd hkept (by decide)
      rw [collapseBlanks, hchar, ih fun other hother => hunspaced other (List.mem_cons_of_mem _ hother)]
      rfl

/-- A text without blanks is normalized. -/
theorem normalizeText_unspaced (isWord : Char → Bool)
    (hunspaced : ∀ char ∈ text, isSpace char = false) : normalizeText isWord text = text := by
  rw [normalizeText]
  split_ifs with hempty
  · exact hempty.symm
  · have hnewline := @not_mem_of_unspaced _ hunspaced '\n' rfl
    have hcr := @not_mem_of_unspaced _ hunspaced '\r' rfl
    have hlimit := limitNewlines_line hnewline hempty 0 []
    rw [List.append_nil, limitNewlines, List.append_nil] at hlimit
    dsimp only
    rw [replaceCrlf_of_not_mem hcr, replaceCr_of_not_mem hcr,
      joinHyphens_of_not_mem isWord hnewline, List.splitOn_eq_singleton hnewline,
      List.map_singleton, cleanLine, collapseBlanks_unspaced hunspaced,
      stripWhere_of_forall hunspaced, joinLines, List.intercalate_singleton, hlimit,
      stripWhere_of_forall hunspaced]

end Unspaced

end AgenticRag.Normalize
