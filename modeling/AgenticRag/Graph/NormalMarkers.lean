import AgenticRag.Graph.Markers

/-!
# What normalisation does to the markers

`normalize_markers` leaves no native marker behind, so a second run changes nothing, and
the numbers that are read afterwards are those that were written natively and those that
were written as `[n]` outside of the native markers.  Nothing is read where one of them has
more digits than `int` takes.
-/

namespace AgenticRag.Citations

/-- The scan of `_NATIVE_CITE.sub` has consumed the first part of the text and goes on with
the second. -/
inductive Scanned : List Char → List Char → List Char → Prop where
  | here (text : List Char) : Scanned text [] text
  | plain {char : Char} {rest before tail : List Char}
      (hnone : matchNative (char :: rest) = none) (hrest : Scanned rest before tail) :
      Scanned (char :: rest) (char :: before) tail
  | marker {digits marker rest before tail : List Char} (hmarker : NativeMarker digits marker)
      (hrest : Scanned rest before tail) : Scanned (marker ++ rest) (marker ++ before) tail

theorem Scanned.split {text before tail : List Char} (hscan : Scanned text before tail) :
    text = before ++ tail := by
  induction hscan with
  | here text => rfl
  | plain _ _ ih => rw [ih, List.cons_append]
  | marker _ _ ih => rw [ih, List.append_assoc]

/-- The digits stand in a marker `[n]`, and no native marker holds it. -/
def MarkedOutside (digits answer : List Char) : Prop :=
  ∃ before rest text, Scanned answer before text ∧ MarkerAt digits rest text

/-- The digits are those of a native marker of the answer. -/
def MarkedNatively (digits answer : List Char) : Prop :=
  ∃ before marker rest, Scanned answer before (marker ++ rest) ∧ NativeMarker digits marker

/-- The text before a place of the scan is normalized as it is alone. -/
theorem Scanned.substitute {text before tail : List Char} (hscan : Scanned text before tail) :
    substituteNative 0 text = substituteNative 0 before ++ substituteNative 0 tail := by
  induction hscan with
  | here text => rfl
  | @plain char rest before tail hnone hrest ih =>
      have halone : matchNative (char :: before) = none := by
        rw [Option.eq_none_iff_forall_not_mem]
        intro found hfound
        obtain ⟨marker, hmarker, hsplit⟩ := marker_of_matchNative hfound
        rw [hrest.split, ← List.cons_append, hsplit, List.append_assoc,
          matchNative_marker hmarker] at hnone
        cases hnone
      rw [substituteNative_plain hnone, substituteNative_plain halone, ih]
      rfl
  | marker hmarker _ ih =>
      rw [substituteNative_marker hmarker, substituteNative_marker hmarker, ih]
      simp

theorem matchNative_of_ne {char : Char} (hchar : char ≠ '【') (rest : List Char) :
    matchNative (char :: rest) = none := by
  rw [matchNative]
  intro other hother
  exact hchar (List.head_eq_of_cons_eq hother)

/-- Characters that open no marker stay. -/
theorem substituteNative_run {run : List Char} (hrun : '【' ∉ run) (rest : List Char) :
    substituteNative 0 (run ++ rest) = run ++ substituteNative 0 rest := by
  induction run with
  | nil => rfl
  | cons char run ih =>
      have hchar : char ≠ '【' := fun hsame => hrun (hsame ▸ List.mem_cons_self)
      rw [List.cons_append, substituteNative_plain (matchNative_of_ne hchar _),
        ih fun hmem => hrun (List.mem_cons_of_mem _ hmem)]
      rfl

/-- What is no opening bracket stood there before. -/
theorem exists_of_substituteNative_run {run text rest : List Char} (hrun : '[' ∉ run)
    (hresult : substituteNative 0 text = run ++ rest) :
    ∃ behind, text = run ++ behind ∧ substituteNative 0 behind = rest := by
  induction run generalizing text with
  | nil => exact ⟨text, rfl, hresult⟩
  | cons char run ih =>
      have hchar : char ≠ '[' := fun hsame => hrun (hsame ▸ List.mem_cons_self)
      cases text with
      | nil => cases hresult
      | cons first text =>
          cases hmatch : matchNative (first :: text) with
          | none =>
              rw [substituteNative_plain hmatch, List.cons_append, List.cons.injEq] at hresult
              obtain ⟨behind, htext, hbehind⟩ :=
                ih (fun hmem => hrun (List.mem_cons_of_mem _ hmem)) hresult.2
              exact ⟨behind, by rw [hresult.1, htext]; rfl, hbehind⟩
          | some found =>
              obtain ⟨marker, hmarker, hsplit⟩ := marker_of_matchNative hmatch
              rw [hsplit, substituteNative_marker hmarker, List.cons_append,
                List.cons.injEq] at hresult
              exact absurd hresult.1.symm hchar

theorem MarkerAt.free {digits rest text : List Char} (hmarker : MarkerAt digits rest text) :
    '[' ∉ digits ++ [']'] ∧ '【' ∉ digits ++ [']'] := by
  have hother : ∀ char, isDigit char = false → char ≠ ']' → char ∉ digits ++ [']'] := by
    intro char hchar hclose hmem
    cases List.mem_append.mp hmem with
    | inl hdigit =>
        rw [hmarker.2.2 char hdigit] at hchar
        cases hchar
    | inr hlast => exact hclose (List.mem_singleton.mp hlast)
  exact ⟨hother '[' (by decide) (by decide), hother '【' (by decide) (by decide)⟩

/-! ## No native marker is left -/

/-- How a native marker ends: at once, or with a note. -/
def Closing (closing : List Char) : Prop :=
  closing = ['】'] ∨ ∃ note, '】' ∉ note ∧ closing = '†' :: (note ++ ['】'])

/-- Before its end a native marker has no plain bracket, and it may end otherwise. -/
theorem NativeMarker.head {digits marker : List Char} (hmarker : NativeMarker digits marker) :
    ∃ run closing, marker = '【' :: (run ++ closing) ∧ '[' ∉ run ∧ Closing closing ∧
      ∀ other, Closing other → NativeMarker digits ('【' :: (run ++ other)) := by
  obtain ⟨front, back, closing, rfl, hfront, hne, hdigits, hback, hclosing⟩ := hmarker
  refine ⟨front ++ (digits ++ back), closing, by simp, ?_, hclosing, fun other hother =>
    ⟨front, back, other, by simp, hfront, hne, hdigits, hback, hother⟩⟩
  simp only [List.mem_append, not_or]
  exact ⟨fun hmem => absurd (hfront _ hmem) (by decide),
    fun hmem => absurd (hdigits _ hmem) (by decide),
    fun hmem => absurd (hback _ hmem) (by decide)⟩

/-- What opened no marker opens none after the normalisation of what follows. -/
theorem matchNative_substituteNative {char : Char} {rest : List Char}
    (hnone : matchNative (char :: rest) = none) :
    matchNative (char :: substituteNative 0 rest) = none := by
  rw [Option.eq_none_iff_forall_not_mem]
  intro found hfound
  obtain ⟨marker, hmarker, hsplit⟩ := marker_of_matchNative hfound
  obtain ⟨run, closing, rfl, hrun, hclosing, hother⟩ := hmarker.head
  rw [List.cons_append, List.cons.injEq, List.append_assoc] at hsplit
  obtain ⟨rfl, hresult⟩ := hsplit
  obtain ⟨behind, rfl, hbehind⟩ := exists_of_substituteNative_run hrun hresult
  -- the text that follows the run closes the marker as well
  have hcloses : ∃ other tail, Closing other ∧ behind = other ++ tail := by
    cases hclosing with
    | inl hbracket =>
        rw [hbracket] at hbehind
        obtain ⟨tail, htail, _⟩ := exists_of_substituteNative_run (by decide) hbehind
        exact ⟨['】'], tail, .inl rfl, htail⟩
    | inr hnote =>
        obtain ⟨note, _, rfl⟩ := hnote
        rw [List.cons_append, ← List.singleton_append] at hbehind
        obtain ⟨tail, rfl, htail⟩ := exists_of_substituteNative_run (by decide) hbehind
        have hmem : '】' ∈ tail := by
          by_contra hopen
          rw [normalize_of_not_mem hopen] at htail
          exact hopen (htail ▸ by simp)
        obtain ⟨shorter, tail, rfl, hshorter⟩ := List.eq_append_cons_of_mem hmem
        exact ⟨'†' :: (shorter ++ ['】']), tail, .inr ⟨shorter, hshorter, rfl⟩, by simp⟩
  obtain ⟨other, tail, hcloses, rfl⟩ := hcloses
  have hmatch := matchNative_marker (hother other hcloses) tail
  rw [List.cons_append, List.append_assoc, hnone] at hmatch
  cases hmatch

theorem matchNative_suffix_run {run rest : List Char} (hrun : '【' ∉ run)
    (hrest : ∀ suffix, suffix <:+ rest → matchNative suffix = none) {suffix : List Char}
    (hsuffix : suffix <:+ run ++ rest) : matchNative suffix = none := by
  induction run with
  | nil => exact hrest suffix hsuffix
  | cons char run ih =>
      rw [List.cons_append, List.suffix_cons_iff] at hsuffix
      cases hsuffix with
      | inl hwhole =>
          rw [hwhole]
          exact matchNative_of_ne (fun hsame => hrun (hsame ▸ List.mem_cons_self)) _
      | inr hlater => exact ih (fun hmem => hrun (List.mem_cons_of_mem _ hmem)) hlater

theorem NativeMarker.digits_free {digits marker : List Char}
    (hmarker : NativeMarker digits marker) (rest : List Char) :
    MarkerAt digits rest ('[' :: (digits ++ ']' :: rest)) := by
  obtain ⟨_, _, _, _, _, hne, hdigits, _⟩ := hmarker
  exact ⟨rfl, hne, hdigits⟩

theorem matchNative_suffix (text : List Char) :
    ∀ suffix, suffix <:+ substituteNative 0 text → matchNative suffix = none := by
  induction text using normalize_induction with
  | nil =>
      intro suffix hsuffix
      rw [List.suffix_nil.mp hsuffix]
      rfl
  | plain char rest hnone ih =>
      intro suffix hsuffix
      rw [substituteNative_plain hnone, List.suffix_cons_iff] at hsuffix
      cases hsuffix with
      | inl hwhole =>
          rw [hwhole]
          exact matchNative_substituteNative hnone
      | inr hrest => exact ih suffix hrest
  | marker digits native rest hnative ih =>
      intro suffix hsuffix
      have hfree : '【' ∉ '[' :: (digits ++ [']']) := by
        rw [List.mem_cons, not_or]
        exact ⟨by decide, (hnative.digits_free []).free.2⟩
      refine matchNative_suffix_run hfree ih ?_
      rw [substituteNative_marker hnative] at hsuffix
      simpa using hsuffix

/-- No native marker is left. -/
theorem native_not_within {digits marker : List Char} (hmarker : NativeMarker digits marker)
    (text : List Char) : ¬ marker <:+: substituteNative 0 text := by
  intro hwithin
  obtain ⟨front, back, hsplit⟩ := hwithin
  rw [List.append_assoc] at hsplit
  have hnone := matchNative_suffix text (marker ++ back) ⟨front, hsplit⟩
  rw [matchNative_marker hmarker] at hnone
  cases hnone

theorem substituteNative_eq_self {text : List Char}
    (hnone : ∀ suffix, suffix <:+ text → matchNative suffix = none) :
    substituteNative 0 text = text := by
  induction text using normalize_induction with
  | nil => rfl
  | plain char rest hplain ih =>
      rw [substituteNative_plain hplain, ih fun suffix hsuffix =>
        hnone suffix (hsuffix.trans (List.suffix_cons _ _))]
  | marker digits native rest hnative _ =>
      have hfound := hnone _ List.suffix_rfl
      rw [matchNative_marker hnative] at hfound
      cases hfound

/-! ## The numbers that are read -/

/-- A marker outside of the native ones stays where it stands. -/
theorem substituteNative_markerAt {digits rest text : List Char}
    (hmarker : MarkerAt digits rest text) :
    substituteNative 0 text = '[' :: (digits ++ ']' :: substituteNative 0 rest) := by
  have hfree : '【' ∉ '[' :: (digits ++ [']']) := by
    rw [List.mem_cons, not_or]
    exact ⟨by decide, hmarker.free.2⟩
  have hrun := substituteNative_run hfree rest
  rw [hmarker.1]
  simpa using hrun

theorem digits_unique {digits others rest tail : List Char}
    (hdigits : ∀ char ∈ digits, isDigit char = true)
    (hothers : ∀ char ∈ others, isDigit char = true)
    (hsame : digits ++ ']' :: rest = others ++ ']' :: tail) : digits = others := by
  have hclose : isDigit ']' = false := by decide
  have htake := congrArg (List.takeWhile isDigit) hsame
  rwa [(span_append isDigit digits _ hdigits (by simp [hclose])).1,
    (span_append isDigit others _ hothers (by simp [hclose])).1] at htake

def MarkedEither (digits answer : List Char) : Prop :=
  MarkedOutside digits answer ∨ MarkedNatively digits answer

/-- The number is written in one of the two forms. -/
def WrittenEither (number : ℕ) (answer : List Char) : Prop :=
  ∃ digits, MarkedEither digits answer ∧ numberOf digits = number

theorem MarkedEither.of_scan {digits text longer : List Char}
    (hscan : ∀ before tail, Scanned text before tail → ∃ before, Scanned longer before tail)
    (hmarked : MarkedEither digits text) : MarkedEither digits longer := by
  cases hmarked with
  | inl houtside =>
      obtain ⟨before, rest, tail, htail, hfound⟩ := houtside
      obtain ⟨before, hbefore⟩ := hscan before tail htail
      exact .inl ⟨before, rest, tail, hbefore, hfound⟩
  | inr hnatively =>
      obtain ⟨before, marker, rest, htail, hfound⟩ := hnatively
      obtain ⟨before, hbefore⟩ := hscan before _ htail
      exact .inr ⟨before, marker, rest, hbefore, hfound⟩

/-- Digits that are read after normalisation stood in a marker of one of the two forms. -/
theorem marked_of_substituteNative {text front digits rest tail : List Char}
    (hmarker : MarkerAt digits rest tail) (hresult : substituteNative 0 text = front ++ tail) :
    MarkedEither digits text := by
  induction text using normalize_induction generalizing front with
  | nil =>
      rw [hmarker.1] at hresult
      simp [substituteNative] at hresult
  | plain char text hnone ih =>
      rw [substituteNative_plain hnone] at hresult
      cases front with
      | nil =>
          rw [List.nil_append, hmarker.1, List.cons.injEq, ← List.singleton_append,
            ← List.append_assoc] at hresult
          obtain ⟨behind, rfl, _⟩ := exists_of_substituteNative_run hmarker.free.1 hresult.2
          exact .inl ⟨[], behind, _, .here _, ⟨by simp [hresult.1], hmarker.2⟩⟩
      | cons first front =>
          rw [List.cons_append, List.cons.injEq] at hresult
          exact (ih hresult.2).of_scan fun before tail hscan => ⟨_, .plain hnone hscan⟩
  | marker number native text hnative ih =>
      rw [substituteNative_marker hnative] at hresult
      have hmore : ∀ {front : List Char}, substituteNative 0 text = front ++ tail →
          MarkedEither digits (native ++ text) := fun hrest =>
        (ih hrest).of_scan fun before tail hscan => ⟨_, .marker hnative hscan⟩
      have hplain := hnative.digits_free (substituteNative 0 text)
      cases front with
      | nil =>
          rw [List.nil_append, hmarker.1, List.cons.injEq] at hresult
          have hsame := digits_unique hplain.2.2 hmarker.2.2 hresult.2
          exact .inr ⟨[], native, text, .here _, hsame ▸ hnative⟩
      | cons first front =>
          rw [List.cons_append, List.cons.injEq, ← List.singleton_append,
            ← List.append_assoc] at hresult
          cases List.append_eq_append_iff.mp hresult.2 with
          | inl hlonger =>
              obtain ⟨more, _, hrest⟩ := hlonger
              exact hmore hrest
          | inr hshorter =>
              obtain ⟨more, hnumber, htail⟩ := hshorter
              cases more with
              | nil => exact @hmore [] htail.symm
              | cons bracket more =>
                  rw [hmarker.1, List.cons_append, List.cons.injEq] at htail
                  rw [← htail.1] at hnumber
                  exact absurd (hnumber ▸ by simp) hplain.free.1

theorem toList_normalizeMarkers (answer : String) :
    (normalizeMarkers answer).toList = substituteNative 0 answer.toList := by
  rw [normalizeMarkers, String.toList_ofList]

/-- The markers of the normalized answer are those of the two forms. -/
theorem findCites_normalizeMarkers_iff (digits : List Char) (answer : String) :
    digits ∈ findCites (normalizeMarkers answer).toList ↔
      MarkedEither digits answer.toList := by
  rw [mem_findCites_iff, toList_normalizeMarkers]
  constructor
  · intro hread
    obtain ⟨before, rest, text, hsplit, hmarker⟩ := hread
    exact marked_of_substituteNative hmarker hsplit
  · intro heither
    cases heither with
    | inl houtside =>
        obtain ⟨before, rest, text, hscan, hmarker⟩ := houtside
        refine ⟨substituteNative 0 before, substituteNative 0 rest, _, ?_, ⟨rfl, hmarker.2⟩⟩
        rw [hscan.substitute, substituteNative_markerAt hmarker]
    | inr hnatively =>
        obtain ⟨before, marker, rest, hscan, hmarker⟩ := hnatively
        refine ⟨substituteNative 0 before, substituteNative 0 rest, _, ?_,
          hmarker.digits_free _⟩
        rw [hscan.substitute, substituteNative_marker hmarker]

theorem written_normalizeMarkers_iff (number : ℕ) (answer : String) :
    Written number (normalizeMarkers answer) ↔ WrittenEither number answer.toList := by
  simp only [written_iff, List.mem_map, findCites_normalizeMarkers_iff, WrittenEither]

/-- A normalized answer cannot be read where a marker of it has too many digits. -/
theorem not_readable_normalizeMarkers_iff (answer : String) :
    ¬ Readable (normalizeMarkers answer) ↔
      ∃ digits, MarkedEither digits answer.toList ∧ maxStrDigits < digits.length := by
  simp only [Readable, findCites_normalizeMarkers_iff, not_forall, exists_prop, Nat.not_le]

/-- What the docstring of `normalize_markers` promises of an answer, and what
`extract_citations` reads of it. -/
structure Normalizes (answer : String) : Prop where
  idempotent : normalizeMarkers (normalizeMarkers answer) = normalizeMarkers answer
  no_native : ∀ digits marker, NativeMarker digits marker →
    ¬ marker <:+: (normalizeMarkers answer).toList
  identity : '【' ∉ answer.toList → normalizeMarkers answer = answer
  untouched : ∀ before digits rest text, Scanned answer.toList before text →
    MarkerAt digits rest text → (normalizeMarkers answer).toList =
      substituteNative 0 before ++ '[' :: (digits ++ ']' :: substituteNative 0 rest)
  numbers : ∀ markers, readMarkers (normalizeMarkers answer) = .ok markers →
    ∀ number, number ∈ markers ↔ WrittenEither number answer.toList
  raises : ∀ chunks,
    (∃ failure, extractCitations (normalizeMarkers answer) chunks = .error failure) ↔
      ∃ digits, MarkedEither digits answer.toList ∧ maxStrDigits < digits.length

/-- Normalisation keeps its promises, and the numbers of both forms are read unless one has
too many digits. -/
theorem normalizeMarkers_normalizes (answer : String) : Normalizes answer where
  idempotent := by
    rw [normalizeMarkers, toList_normalizeMarkers,
      substituteNative_eq_self (matchNative_suffix answer.toList)]
    rfl
  no_native := by
    intro digits marker hmarker
    rw [toList_normalizeMarkers]
    exact native_not_within hmarker answer.toList
  identity := by
    intro hfree
    have hself := substituteNative_run hfree []
    rw [List.append_nil, substituteNative, List.append_nil] at hself
    rw [normalizeMarkers, hself, String.ofList_toList]
  untouched := by
    intro before digits rest text hscan hmarker
    rw [toList_normalizeMarkers, hscan.substitute, substituteNative_markerAt hmarker]
  numbers := by
    intro markers hread number
    have hreadable : Readable (normalizeMarkers answer) := by
      by_contra hlong
      obtain ⟨failure, hfailure⟩ := readMarkers_error hlong
      rw [hfailure] at hread
      cases hread
    rw [readMarkers_ok hreadable] at hread
    rw [← Except.ok.inj hread, ← written_iff, written_normalizeMarkers_iff]
  raises := by
    intro chunks
    rw [extractCitations_raises_iff, not_readable_normalizeMarkers_iff]

/-- A marker of 4301 ones is written, and no set of numbers is read. -/
theorem readMarkers_long :
    ¬ ∀ answer : String, ∃ markers, readMarkers (normalizeMarkers answer) = .ok markers ∧
      ∀ number, number ∈ markers ↔ WrittenEither number answer.toList := by
  intro hclaim
  obtain ⟨markers, hread, _⟩ :=
    hclaim (String.ofList ('[' :: (List.replicate 4301 '1' ++ ']' :: [])))
  have hmarked : MarkedEither (List.replicate 4301 '1')
      (String.ofList ('[' :: (List.replicate 4301 '1' ++ ']' :: []))).toList := by
    rw [String.toList_ofList]
    refine .inl ⟨[], [], _, .here _, rfl, ?_, fun char hchar => ?_⟩
    · exact List.ne_nil_of_length_pos (by rw [List.length_replicate]; decide)
    · rw [List.eq_of_mem_replicate hchar]
      rfl
  have hlong := (not_readable_normalizeMarkers_iff _).mpr
    ⟨_, hmarked, by rw [List.length_replicate]; decide⟩
  obtain ⟨failure, hfailure⟩ := readMarkers_error hlong
  rw [hfailure] at hread
  cases hread

end AgenticRag.Citations
