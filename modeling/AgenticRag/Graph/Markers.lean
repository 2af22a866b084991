import AgenticRag.Graph.Citations

/-!
# Marker normalisation

`normalize_markers` on a text that is put together from two parts.  A native
marker ends at its first closing bracket, so the normalisation of the whole is
that of the parts unless a marker begins in the first part and ends in the
second.
-/

namespace AgenticRag.Citations

open AgenticRag.PyString

/-- A text that `_NATIVE_CITE` matches, with its digits. -/
def NativeMarker (digits marker : List Char) : Prop :=
  ∃ front back closing, marker = '【' :: (front ++ (digits ++ (back ++ closing))) ∧
    (∀ char ∈ front, isSpace char = true) ∧ digits ≠ [] ∧
    (∀ char ∈ digits, isDigit char = true) ∧ (∀ char ∈ back, isSpace char = true) ∧
    (closing = ['】'] ∨ ∃ note, '】' ∉ note ∧ closing = '†' :: (note ++ ['】']))

theorem digitZeros_not_space : ∀ base ∈ digitZeros, base = 0x30 ∨
    (0x660 ≤ base ∧ base + 10 ≤ 0x1680) ∨ (0x1681 ≤ base ∧ base + 10 ≤ 0x2000) ∨
      0x3001 ≤ base := by
  decide

theorem isDigit_range {char : Char} (hdigit : isDigit char = true) :
    ∃ base ∈ digitZeros, base ≤ char.toNat ∧ char.toNat < base + 10 := by
  rw [isDigit, digitValue, Option.isSome_map, List.find?_isSome] at hdigit
  obtain ⟨base, hbase, hrange⟩ := hdigit
  rw [Bool.and_eq_true, decide_eq_true_eq, decide_eq_true_eq] at hrange
  exact ⟨base, hbase, hrange⟩

/-- No whitespace character is a digit. -/
theorem isSpace_of_isDigit {char : Char} (hdigit : isDigit char = true) :
    isSpace char = false := by
  obtain ⟨base, hbase, hlow, hhigh⟩ := isDigit_range hdigit
  have hblock := digitZeros_not_space base hbase
  simp only [isSpace, Bool.or_eq_false_iff, Bool.and_eq_false_iff, decide_eq_false_iff_not,
    beq_eq_false_iff_ne]
  omega

theorem NativeMarker.ne_nil {digits marker : List Char}
    (hmarker : NativeMarker digits marker) : marker ≠ [] := by
  obtain ⟨front, back, closing, rfl, _⟩ := hmarker
  simp

/-- A marker ends at its first closing bracket. -/
theorem NativeMarker.closed {digits marker : List Char}
    (hmarker : NativeMarker digits marker) :
    ∃ body, marker = body ++ ['】'] ∧ '】' ∉ body := by
  obtain ⟨front, back, closing, rfl, hfront, _, hdigits, hback, hclosing⟩ := hmarker
  have hspace : isSpace '】' = false := by decide
  have hdigit : isDigit '】' = false := by decide
  have hfront' : '】' ∉ front := fun hmem => by
    have hbad := hfront _ hmem
    rw [hspace] at hbad
    cases hbad
  have hdigits' : '】' ∉ digits := fun hmem => by
    have hbad := hdigits _ hmem
    rw [hdigit] at hbad
    cases hbad
  have hback' : '】' ∉ back := fun hmem => by
    have hbad := hback _ hmem
    rw [hspace] at hbad
    cases hbad
  rcases hclosing with rfl | ⟨note, hnote, rfl⟩
  · exact ⟨'【' :: (front ++ (digits ++ back)), by simp, by simp [hfront', hdigits', hback']⟩
  · exact ⟨'【' :: (front ++ (digits ++ (back ++ '†' :: note))), by simp,
      by simp [hfront', hdigits', hback', hnote]⟩

/-- A run of characters of one class, up to a character outside the class. -/
theorem span_append (p : Char → Bool) (run rest : List Char)
    (hrun : ∀ char ∈ run, p char = true) (hstop : ∀ char ∈ rest.head?, p char = false) :
    (run ++ rest).takeWhile p = run ∧ (run ++ rest).dropWhile p = rest := by
  rw [List.takeWhile_append_of_pos hrun, List.dropWhile_append_of_pos hrun]
  cases rest with
  | nil => simp
  | cons char rest =>
      have hchar : p char = false := hstop char rfl
      simp [hchar]

/-- The matcher finds the markers at the head of a text. -/
theorem matchNative_marker {digits marker : List Char}
    (hmarker : NativeMarker digits marker) (rest : List Char) :
    matchNative (marker ++ rest) = some (digits, rest) := by
  obtain ⟨front, back, closing, rfl, hfront, hne, hdigits, hback, hclosing⟩ := hmarker
  have hdigitsHead : ∀ char ∈ (digits ++ (back ++ (closing ++ rest))).head?,
      isSpace char = false := by
    obtain ⟨head, tail, rfl⟩ := List.exists_cons_of_ne_nil hne
    intro char hchar
    cases hchar
    exact isSpace_of_isDigit (hdigits head List.mem_cons_self)
  have hclosingHead : ∀ char ∈ (closing ++ rest).head?,
      isSpace char = false ∧ isDigit char = false := by
    rcases hclosing with rfl | ⟨note, _, rfl⟩
    · intro char hchar
      cases hchar
      decide
    · intro char hchar
      cases hchar
      decide
  have hbackHead : ∀ char ∈ (back ++ (closing ++ rest)).head?, isDigit char = false := by
    cases back with
    | nil => exact fun char hchar => (hclosingHead char hchar).2
    | cons space back =>
        intro char hchar
        cases hchar
        by_contra hdigit
        have hbad := isSpace_of_isDigit (by simpa using hdigit)
        rw [hback space List.mem_cons_self] at hbad
        cases hbad
  have hfrontSpan := (span_append isSpace front _ hfront hdigitsHead).2
  have hdigitsSpan := span_append isDigit digits _ hdigits hbackHead
  have hbackSpan := (span_append isSpace back _ hback
    fun char hchar => (hclosingHead char hchar).1).2
  simp only [matchNative, List.cons_append, List.append_assoc, hfrontSpan, hdigitsSpan.1,
    hdigitsSpan.2, hbackSpan, if_neg hne]
  rcases hclosing with rfl | ⟨note, hnote, rfl⟩
  · rfl
  · have hopen : ∀ char ∈ note, decide (char ≠ '】') = true := by
      intro char hchar
      rw [decide_eq_true_eq]
      rintro rfl
      exact hnote hchar
    have hnoteSpan := (span_append (fun char => decide (char ≠ '】')) note ('】' :: rest) hopen
      (by simp)).2
    simp only [List.cons_append, List.append_assoc, List.nil_append, hnoteSpan]

theorem marker_of_matchNative {text digits rest : List Char}
    (hmatch : matchNative text = some (digits, rest)) :
    ∃ marker, NativeMarker digits marker ∧ text = marker ++ rest := by
  unfold matchNative at hmatch
  split at hmatch
  · rename_i body
    simp only at hmatch
    split_ifs at hmatch with hdigits
    have hfront := List.takeWhile_append_dropWhile (p := isSpace) (l := body)
    have hnumber := List.takeWhile_append_dropWhile (p := isDigit)
      (l := body.dropWhile isSpace)
    have hback := List.takeWhile_append_dropWhile (p := isSpace)
      (l := (body.dropWhile isSpace).dropWhile isDigit)
    split at hmatch
    · rename_i remaining hclose
      cases hmatch
      refine ⟨'【' :: (body.takeWhile isSpace ++ ((body.dropWhile isSpace).takeWhile isDigit ++
        (((body.dropWhile isSpace).dropWhile isDigit).takeWhile isSpace ++ ['】']))),
        ⟨_, _, _, rfl, fun _ => List.mem_takeWhile_imp, hdigits,
          fun _ => List.mem_takeWhile_imp, fun _ => List.mem_takeWhile_imp,
          Or.inl rfl⟩, ?_⟩
      simp only [List.cons_append, List.append_assoc, List.nil_append, ← hclose, hback,
        hnumber, hfront]
    · rename_i note hdagger
      split at hmatch
      · rename_i head remaining hnote
        cases hmatch
        have hhead : head = '】' := by
          have hstop := List.head?_dropWhile_not (fun char => decide (char ≠ '】')) note
          rw [hnote] at hstop
          simpa using hstop
        have hsplit := List.takeWhile_append_dropWhile
          (p := fun char => decide (char ≠ '】')) (l := note)
        refine ⟨'【' :: (body.takeWhile isSpace ++ ((body.dropWhile isSpace).takeWhile isDigit
          ++ (((body.dropWhile isSpace).dropWhile isDigit).takeWhile isSpace ++
            '†' :: (note.takeWhile (fun char => decide (char ≠ '】')) ++ ['】'])))),
          ⟨_, _, _, rfl, fun _ => List.mem_takeWhile_imp, hdigits,
            fun _ => List.mem_takeWhile_imp, fun _ => List.mem_takeWhile_imp,
            Or.inr ⟨_, ?_, rfl⟩⟩, ?_⟩
        · intro hmem
          simpa using List.mem_takeWhile_imp hmem
        · rw [hnote, hhead] at hsplit
          simp only [List.cons_append, List.append_assoc, List.nil_append, hsplit,
            ← hdagger, hback, hnumber, hfront]
      · cases hmatch
    · cases hmatch
  · cases hmatch

/-! ## Normalisation -/

theorem substituteNative_skip (skip : ℕ) (text : List Char) :
    substituteNative skip text = substituteNative 0 (text.drop skip) := by
  induction text generalizing skip with
  | nil => cases skip <;> simp [substituteNative]
  | cons char rest ih =>
      cases skip with
      | zero => rfl
      | succ skip => rw [substituteNative, ih, List.drop_succ_cons]

theorem substituteNative_plain {char : Char} {rest : List Char}
    (hnone : matchNative (char :: rest) = none) :
    substituteNative 0 (char :: rest) = char :: substituteNative 0 rest := by
  rw [substituteNative, hnone]

theorem substituteNative_marker {digits marker : List Char}
    (hmarker : NativeMarker digits marker) (rest : List Char) :
    substituteNative 0 (marker ++ rest) =
      '[' :: (digits ++ ']' :: substituteNative 0 rest) := by
  have hmatch := matchNative_marker hmarker rest
  obtain ⟨head, tail, rfl⟩ := List.exists_cons_of_ne_nil hmarker.ne_nil
  rw [List.cons_append] at hmatch ⊢
  rw [substituteNative, hmatch]
  simp only [substituteNative_skip ((tail ++ rest).length - rest.length)]
  rw [List.length_append, Nat.add_sub_cancel, List.drop_left]

/-- A text is empty, or begins with a character that is copied, or with a marker. -/
theorem normalize_induction {motive : List Char → Prop} (nil : motive [])
    (plain : ∀ char rest, matchNative (char :: rest) = none → motive rest →
      motive (char :: rest))
    (marker : ∀ digits marker rest, NativeMarker digits marker → motive rest →
      motive (marker ++ rest)) (text : List Char) : motive text := by
  induction hlength : text.length using Nat.strong_induction_on generalizing text with
  | _ length ih =>
      cases text with
      | nil => exact nil
      | cons char rest =>
          cases hmatch : matchNative (char :: rest) with
          | none => exact plain char rest hmatch (ih _ (by simp [← hlength]) rest rfl)
          | some found =>
              obtain ⟨digits, remaining⟩ := found
              obtain ⟨native, hnative, htext⟩ := marker_of_matchNative hmatch
              have hlonger : remaining.length < length := by
                have hpositive := List.length_pos_of_ne_nil hnative.ne_nil
                rw [← hlength, htext, List.length_append]
                omega
              rw [htext]
              exact marker digits native remaining hnative (ih _ hlonger remaining rfl)

/-- No marker begins in the first text and ends in the second. -/
def NoStraddle (first second : List Char) : Prop :=
  ∀ front back digits, front ≠ [] → back ≠ [] → front <:+ first → back <+: second →
    ¬ NativeMarker digits (front ++ back)

theorem normalize_append {first second : List Char} (hstraddle : NoStraddle first second) :
    substituteNative 0 (first ++ second) =
      substituteNative 0 first ++ substituteNative 0 second := by
  induction first using normalize_induction with
  | nil => rfl
  | plain char rest hnone ih =>
      have hrest : NoStraddle rest second := fun front back digits hfront hback hsuffix =>
        hstraddle front back digits hfront hback (hsuffix.trans (List.suffix_cons _ _))
      have hstill : matchNative (char :: (rest ++ second)) = none := by
        rw [Option.eq_none_iff_forall_not_mem]
        rintro ⟨digits, remaining⟩ hmatch
        obtain ⟨native, hnative, hsplit⟩ := marker_of_matchNative hmatch
        rw [← List.cons_append] at hsplit
        rcases List.append_eq_append_iff.mp hsplit with ⟨back, rfl, rfl⟩ | ⟨after, hinside, _⟩
        · by_cases hback : back = []
          · subst hback
            rw [List.append_nil] at hnative
            have hfound := matchNative_marker hnative []
            rw [List.append_nil, hnone] at hfound
            cases hfound
          · exact hstraddle _ back digits (by simp) hback (List.suffix_refl _)
              (List.prefix_append _ _) hnative
        · rw [hinside, matchNative_marker hnative after] at hnone
          cases hnone
      rw [List.cons_append, substituteNative_plain hstill, substituteNative_plain hnone,
        ih hrest, List.cons_append]
  | marker digits native rest hnative ih =>
      have hrest : NoStraddle rest second := fun front back number hfront hback hsuffix =>
        hstraddle front back number hfront hback (hsuffix.trans (List.suffix_append _ _))
      rw [List.append_assoc, substituteNative_marker hnative, substituteNative_marker hnative,
        ih hrest]
      simp

/-- Behind a closing bracket the normalisation starts anew. -/
theorem normalize_append_of_closed (body second : List Char) :
    substituteNative 0 (body ++ '】' :: second) =
      substituteNative 0 (body ++ ['】']) ++ substituteNative 0 second := by
  have hsplit : body ++ '】' :: second = (body ++ ['】']) ++ second := by simp
  rw [hsplit]
  apply normalize_append
  intro front back digits hfront hback hsuffix _ hmarker
  obtain ⟨inner, hinner, hopen⟩ := hmarker.closed
  obtain ⟨back, last, rfl⟩ := (List.eq_nil_or_concat back).resolve_left hback
  obtain ⟨front, edge, rfl⟩ := (List.eq_nil_or_concat front).resolve_left hfront
  rw [List.concat_eq_append, List.concat_eq_append, ← List.append_assoc] at hinner
  rw [List.concat_eq_append] at hsuffix
  have hedge : edge = '】' := by
    obtain ⟨before, hbefore⟩ := hsuffix
    rw [← List.append_assoc] at hbefore
    exact (List.append_inj' hbefore rfl).2 |> List.singleton_inj.mp
  obtain ⟨hbody, _⟩ := List.append_inj' hinner rfl
  apply hopen
  rw [← hbody, hedge]
  simp

/-- A text without a closing bracket ends no marker. -/
theorem normalize_append_of_not_mem {first second : List Char} (hopen : '】' ∉ second) :
    substituteNative 0 (first ++ second) =
      substituteNative 0 first ++ substituteNative 0 second := by
  apply normalize_append
  intro front back digits _ hback _ hprefix hmarker
  obtain ⟨inner, hinner, _⟩ := hmarker.closed
  obtain ⟨back, last, rfl⟩ := (List.eq_nil_or_concat back).resolve_left hback
  rw [List.concat_eq_append, ← List.append_assoc] at hinner
  obtain ⟨_, hlast⟩ := List.append_inj' hinner rfl
  apply hopen
  apply hprefix.subset
  rw [List.concat_eq_append, List.singleton_inj.mp hlast]
  simp

theorem normalize_of_not_mem {text : List Char} (hopen : '】' ∉ text) :
    substituteNative 0 text = text := by
  induction text using normalize_induction with
  | nil => rfl
  | plain char rest hnone ih =>
      rw [substituteNative_plain hnone, ih fun hmem => hopen (List.mem_cons_of_mem _ hmem)]
  | marker digits native rest hnative ih =>
      obtain ⟨body, rfl, _⟩ := hnative.closed
      simp at hopen

/-- Normalisation keeps a text that is not blank from being blank. -/
theorem blank_of_normalize_blank {text : List Char}
    (hblank : ∀ char ∈ substituteNative 0 text, isSpace char = true) :
    ∀ char ∈ text, isSpace char = true := by
  induction text using normalize_induction with
  | nil => simp
  | plain char rest hnone ih =>
      rw [substituteNative_plain hnone] at hblank
      intro other hother
      rcases List.mem_cons.mp hother with rfl | hrest
      · exact hblank other List.mem_cons_self
      · exact ih (fun kept hkept => hblank kept (List.mem_cons_of_mem _ hkept)) other hrest
  | marker digits native rest hnative ih =>
      rw [substituteNative_marker hnative] at hblank
      exact absurd (hblank '[' List.mem_cons_self) (by decide)

/-- A text that ends with a closing bracket still ends with a kept character. -/
theorem normalize_last (text : List Char) (hlast : text.getLast? = some '】') :
    ∃ kept, (substituteNative 0 text).getLast? = some kept ∧ isSpace kept = false := by
  induction text using normalize_induction with
  | nil => cases hlast
  | plain char rest hnone ih =>
      rw [substituteNative_plain hnone]
      cases rest with
      | nil =>
          cases hlast
          exact ⟨'】', rfl, by decide⟩
      | cons next rest =>
          obtain ⟨kept, hkept, hspace⟩ := ih (by simpa using hlast)
          exact ⟨kept, by rw [List.getLast?_cons, hkept]; rfl, hspace⟩
  | marker digits native rest hnative ih =>
      rw [substituteNative_marker hnative]
      cases rest with
      | nil =>
          have hsplit : '[' :: (digits ++ ']' :: substituteNative 0 []) =
              ('[' :: digits) ++ [']'] := by simp [substituteNative]
          exact ⟨']', by rw [hsplit, List.getLast?_concat], by decide⟩
      | cons next rest =>
          obtain ⟨kept, hkept, hspace⟩ := ih (by simpa using hlast)
          refine ⟨kept, ?_, hspace⟩
          have hsplit : '[' :: (digits ++ ']' :: substituteNative 0 (next :: rest)) =
              ('[' :: (digits ++ [']'])) ++ substituteNative 0 (next :: rest) := by simp
          rw [hsplit, List.getLast?_append, hkept]
          rfl

/-! ## Two parts of which only the second is the answer -/

/-- The kept characters of a text. -/
def keptCount (text : List Char) : ℕ :=
  text.countP fun char => !isSpace char

theorem keptCount_eq_zero_iff {text : List Char} :
    keptCount text = 0 ↔ ∀ char ∈ text, isSpace char = true := by
  simp [keptCount, List.countP_eq_zero]

/-- The first text ends in a marker that the second one completes with its first
closing bracket, and nothing is left of the first one. -/
def Swallowed (first second : List Char) : Prop :=
  ∃ body rest, second = body ++ '】' :: rest ∧ '】' ∉ body ∧
    (substituteNative 0 (first ++ (body ++ ['】']))).dropWhile isSpace =
      (substituteNative 0 (body ++ ['】'])).dropWhile isSpace

/-- Only what precedes the first closing bracket of the second part decides
whether the first part shows. -/
theorem strip_normalize_closed_iff (first body rest : List Char) :
    stripWhere isSpace (substituteNative 0 (first ++ (body ++ '】' :: rest))) =
        stripWhere isSpace (substituteNative 0 (body ++ '】' :: rest)) ↔
      (substituteNative 0 (first ++ (body ++ ['】']))).dropWhile isSpace =
        (substituteNative 0 (body ++ ['】'])).dropWhile isSpace := by
  obtain ⟨kept, hkept, hspace⟩ := normalize_last (first ++ (body ++ ['】'])) (by simp)
  obtain ⟨kept', hkept', hspace'⟩ := normalize_last (body ++ ['】']) (by simp)
  rw [← List.append_assoc, normalize_append_of_closed (first ++ body) rest,
    normalize_append_of_closed body rest, List.append_assoc,
    stripWhere_append_of_getLast? hspace hkept,
    stripWhere_append_of_getLast? hspace' hkept']
  exact List.append_left_inj _

theorem normalize_append_of_blank {first : List Char}
    (hblank : ∀ char ∈ first, isSpace char = true) (second : List Char) :
    substituteNative 0 (first ++ second) = first ++ substituteNative 0 second := by
  have hopen : '】' ∉ first := fun hmem => by
    have hspace := hblank _ hmem
    exact absurd hspace (by decide)
  rw [normalize_append, normalize_of_not_mem hopen]
  rintro front back digits hfront _ hsuffix _ ⟨_, _, _, hmarker, _⟩
  obtain ⟨head, tail, rfl⟩ := List.exists_cons_of_ne_nil hfront
  obtain ⟨rfl, _⟩ := List.cons.inj hmarker
  have hspace := hblank _ (hsuffix.subset List.mem_cons_self)
  exact absurd hspace (by decide)

/-- The normalised whole is the normalised second part, up to whitespace around
it, exactly when the first part is blank or swallowed. -/
theorem strip_normalize_append_iff (first second : List Char) :
    stripWhere isSpace (substituteNative 0 (first ++ second)) =
        stripWhere isSpace (substituteNative 0 second) ↔
      (∀ char ∈ first, isSpace char = true) ∨ Swallowed first second := by
  constructor
  · intro heq
    by_cases hclosed : '】' ∈ second
    · obtain ⟨body, rest, rfl, hbody⟩ := List.eq_append_cons_of_mem hclosed
      exact Or.inr ⟨body, rest, rfl, hbody, (strip_normalize_closed_iff first body rest).mp heq⟩
    · -- without a closing bracket every kept character of the first part shows
      left
      have hcount := congrArg keptCount heq
      rw [normalize_append_of_not_mem hclosed, keptCount, keptCount, countP_stripWhere,
        countP_stripWhere, List.countP_append] at hcount
      have hzero : keptCount (substituteNative 0 first) = 0 := by
        rw [keptCount]
        omega
      exact blank_of_normalize_blank (keptCount_eq_zero_iff.mp hzero)
  · rintro (hblank | ⟨body, rest, rfl, _, hswallowed⟩)
    · rw [normalize_append_of_blank hblank, stripWhere_append_left hblank]
    · exact (strip_normalize_closed_iff first body rest).mpr hswallowed

/-- Stripping a text before or after its normalisation is the same. -/
theorem strip_normalize_strip (text : List Char) :
    stripWhere isSpace (substituteNative 0 (stripWhere isSpace text)) =
      stripWhere isSpace (substituteNative 0 text) := by
  obtain ⟨left, right, htext, hleft, hright⟩ := exists_stripWhere isSpace text
  have hopen : '】' ∉ right := fun hmem => by
    have hspace := hright _ hmem
    exact absurd hspace (by decide)
  conv_rhs => rw [htext, normalize_append_of_blank hleft,
    normalize_append_of_not_mem hopen, normalize_of_not_mem hopen,
    stripWhere_append_left hleft, stripWhere_append_right hright]

end AgenticRag.Citations
