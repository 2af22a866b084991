import AgenticRag.Core.SortedSet
import AgenticRag.Graph.State
import AgenticRag.Text.PyString

/-!
# Citation extraction

Citations come only from the `[n]` markers of the answer, mapped against the
packed context.  The two regular expressions are scanners on the characters:
their pieces are disjoint character classes, so a greedy match never has to
backtrack.
-/

namespace AgenticRag.Citations

open AgenticRag.PyString

/-- The zeros of the decimal digit blocks of Unicode, which `\d` matches. -/
def digitZeros : List ℕ :=
  [0x30, 0x660, 0x6F0, 0x7C0, 0x966, 0x9E6, 0xA66, 0xAE6, 0xB66, 0xBE6, 0xC66,
    0xCE6, 0xD66, 0xDE6, 0xE50, 0xED0, 0xF20, 0x1040, 0x1090, 0x17E0, 0x1810,
    0x1946, 0x19D0, 0x1A80, 0x1A90, 0x1B50, 0x1BB0, 0x1C40, 0x1C50, 0xA620,
    0xA8D0, 0xA900, 0xA9D0, 0xA9F0, 0xAA50, 0xABF0, 0xFF10, 0x104A0, 0x10D30,
    0x11066, 0x110F0, 0x11136, 0x111D0, 0x112F0, 0x11450, 0x114D0, 0x11650,
    0x116C0, 0x11730, 0x118E0, 0x11950, 0x11C50, 0x11D50, 0x11DA0, 0x16A60,
    0x16AC0, 0x16B50, 0x1D7CE, 0x1D7D8, 0x1D7E2, 0x1D7EC, 0x1D7F6, 0x1E140,
    0x1E2F0, 0x1E950, 0x1FBF0]

def digitValue (char : Char) : Option ℕ :=
  (digitZeros.find? fun base => base ≤ char.toNat && char.toNat < base + 10).map
    fun base => char.toNat - base

def isDigit (char : Char) : Bool :=
  (digitValue char).isSome

/-- The number that the digits write. -/
def numberOf (digits : List Char) : ℕ :=
  digits.foldl (fun value char => 10 * value + (digitValue char).getD 0) 0

/-- `sys.int_info.default_max_str_digits` -/
def maxStrDigits : ℕ := 4300

/-- `int(digits)`: leading zeros count against the limit too. -/
def parseInt (digits : List Char) : Except Failure ℕ :=
  if maxStrDigits < digits.length then .error "ValueError" else .ok (numberOf digits)

/-- A match of `_NATIVE_CITE` at the head of the text: the digits and the text
after the closing bracket. -/
def matchNative : List Char → Option (List Char × List Char)
  | '【' :: rest =>
      let body := rest.dropWhile isSpace
      let digits := body.takeWhile isDigit
      if digits = [] then none
      else
        match (body.dropWhile isDigit).dropWhile isSpace with
        | '】' :: remaining => some (digits, remaining)
        | '†' :: note =>
            match note.dropWhile (· ≠ '】') with
            | _ :: remaining => some (digits, remaining)
            | [] => none
        | _ => none
  | _ => none

/-- `_NATIVE_CITE.sub(r"[\1]", text)`, with the number of characters of the
current match that are still to be skipped. -/
def substituteNative : ℕ → List Char → List Char
  | _, [] => []
  | skip + 1, _ :: rest => substituteNative skip rest
  | 0, char :: rest =>
      match matchNative (char :: rest) with
      | some (digits, remaining) =>
          '[' :: (digits ++
            ']' :: substituteNative (rest.length - remaining.length) rest)
      | none => char :: substituteNative 0 rest

/-- `normalize_markers` -/
def normalizeMarkers (answer : String) : String :=
  String.ofList (substituteNative 0 answer.toList)

/-- A match of `_CITE` at the head of the text: its digits. -/
def matchCite : List Char → Option (List Char)
  | '[' :: rest =>
      let digits := rest.takeWhile isDigit
      if digits ≠ [] ∧ (rest.dropWhile isDigit).head? = some ']' then some digits
      else none
  | _ => none

/-- `_CITE.findall(text)`: a match holds no second `[`, so every position may be
tried. -/
def findCites (text : List Char) : List (List Char) :=
  text.tails.filterMap matchCite

/-- The record of the chunk with the given marker. -/
def citationOf (marker : ℕ) (chunk : Chunk) : Citation where
  marker := some marker
  documentId := chunk.documentId
  chunkId := some chunk.chunkId
  pageNumber := chunk.pageNumber
  chunkType := some chunk.chunkType
  fileName := chunk.fileName
  sectionTitle := chunk.sectionTitle
  content := some chunk.content
  imageUri := chunk.imageUri

/-- `{int(m) for m in _CITE.findall(answer)}`, in the order of the matches. -/
def readMarkers (answer : String) : Except Failure (List ℕ) :=
  (findCites answer.toList).mapM parseInt

/-- `extract_citations` -/
def extractCitations (answer : String) (chunks : List Chunk) :
    Except Failure (List Citation) :=
  if answer = "" ∨ strip answer = insufficientAnswerText then .ok []
  else do
    let markers ← readMarkers answer
    pure ((SortedSet.ascending markers.toFinset).filterMap fun marker =>
      if 1 ≤ marker then (chunks[marker - 1]?).map (citationOf marker) else none)

/-! ## Markers -/

/-- `text` is one marker: a bracket, digits and the closing bracket. -/
def MarkerAt (digits rest text : List Char) : Prop :=
  text = '[' :: (digits ++ ']' :: rest) ∧ digits ≠ [] ∧
    ∀ char ∈ digits, isDigit char = true

/-- The number is written as `[n]` in the answer. -/
def Written (marker : ℕ) (answer : String) : Prop :=
  ∃ before digits rest text, answer.toList = before ++ text ∧
    MarkerAt digits rest text ∧ numberOf digits = marker

theorem matchCite_eq_some_iff {text digits : List Char} :
    matchCite text = some digits ↔ ∃ rest, MarkerAt digits rest text := by
  constructor
  · intro hmatch
    unfold matchCite at hmatch
    split at hmatch
    · rename_i body
      simp only [Option.ite_none_right_eq_some, Option.some.injEq] at hmatch
      obtain ⟨⟨hne, hclose⟩, rfl⟩ := hmatch
      obtain ⟨rest, hrest⟩ := List.head?_eq_some_iff.mp hclose
      refine ⟨rest, ?_, hne, fun char hchar => List.mem_takeWhile_imp hchar⟩
      rw [← hrest, List.takeWhile_append_dropWhile]
    · cases hmatch
  · rintro ⟨rest, rfl, hne, hdigits⟩
    have hclosed : isDigit ']' = false := by decide
    have htake : (digits ++ ']' :: rest).takeWhile isDigit = digits := by
      rw [List.takeWhile_append_of_pos hdigits,
        List.takeWhile_cons_of_neg (by simp [hclosed]), List.append_nil]
    have hdrop : (digits ++ ']' :: rest).dropWhile isDigit = ']' :: rest := by
      rw [List.dropWhile_append_of_pos hdigits,
        List.dropWhile_cons_of_neg (by simp [hclosed])]
    simp [matchCite, htake, hdrop, hne]

/-- The scanner finds the digits of every marker. -/
theorem mem_findCites_iff {answer : String} {digits : List Char} :
    digits ∈ findCites answer.toList ↔
      ∃ before rest text, answer.toList = before ++ text ∧ MarkerAt digits rest text := by
  simp only [findCites, List.mem_filterMap, List.mem_tails, matchCite_eq_some_iff]
  constructor
  · rintro ⟨text, ⟨before, hsplit⟩, rest, hmarker⟩
    exact ⟨before, rest, text, hsplit.symm, hmarker⟩
  · rintro ⟨before, rest, text, hsplit, hmarker⟩
    exact ⟨text, ⟨before, hsplit.symm⟩, rest, hmarker⟩

theorem written_iff {answer : String} {marker : ℕ} :
    Written marker answer ↔ marker ∈ (findCites answer.toList).map numberOf := by
  simp only [List.mem_map, mem_findCites_iff]
  constructor
  · rintro ⟨before, digits, rest, text, hsplit, hmarker, hvalue⟩
    exact ⟨digits, ⟨before, rest, text, hsplit, hmarker⟩, hvalue⟩
  · rintro ⟨digits, ⟨before, rest, text, hsplit, hmarker⟩, hvalue⟩
    exact ⟨before, digits, rest, text, hsplit, hmarker, hvalue⟩

/-- No marker of the answer has more digits than `int` takes. -/
def Readable (answer : String) : Prop :=
  ∀ digits ∈ findCites answer.toList, digits.length ≤ maxStrDigits

instance (answer : String) : Decidable (Readable answer) :=
  inferInstanceAs (Decidable (∀ digits ∈ findCites answer.toList, _))

theorem parseInt_ok {digits : List Char} (hshort : digits.length ≤ maxStrDigits) :
    parseInt digits = .ok (numberOf digits) :=
  if_neg hshort.not_gt

theorem mapM_parseInt {cites : List (List Char)}
    (hshort : ∀ digits ∈ cites, digits.length ≤ maxStrDigits) :
    cites.mapM parseInt = .ok (cites.map numberOf) := by
  induction cites with
  | nil => rfl
  | cons digits cites ih =>
      rw [List.mapM_cons, parseInt_ok (hshort digits List.mem_cons_self),
        ih fun other hother => hshort other (List.mem_cons_of_mem _ hother)]
      rfl

/-- `int` raises at the first marker that is too long. -/
theorem mapM_parseInt_long {cites : List (List Char)} {digits : List Char}
    (hdigits : digits ∈ cites) (hlong : maxStrDigits < digits.length) :
    ∃ failure, cites.mapM parseInt = .error failure := by
  induction cites with
  | nil => cases hdigits
  | cons first cites ih =>
      rw [List.mapM_cons]
      by_cases hfirst : maxStrDigits < first.length
      · exact ⟨"ValueError", by rw [parseInt, if_pos hfirst]; rfl⟩
      · have hrest : digits ∈ cites := by
          cases List.mem_cons.mp hdigits with
          | inl hsame => exact absurd (hsame ▸ hlong) hfirst
          | inr hrest => exact hrest
        obtain ⟨failure, hfailure⟩ := ih hrest
        exact ⟨failure, by rw [parseInt_ok (Nat.le_of_not_lt hfirst), hfailure]; rfl⟩

theorem readMarkers_ok {answer : String} (hreadable : Readable answer) :
    readMarkers answer = .ok ((findCites answer.toList).map numberOf) :=
  mapM_parseInt hreadable

theorem readMarkers_error {answer : String} (hlong : ¬ Readable answer) :
    ∃ failure, readMarkers answer = .error failure := by
  rw [Readable, not_forall] at hlong
  obtain ⟨digits, hdigits⟩ := hlong
  obtain ⟨hmem, hless⟩ := Classical.not_imp.mp hdigits
  exact mapM_parseInt_long hmem (Nat.lt_of_not_le hless)

theorem strip_ne_insufficient {answer : String} {digits : List Char}
    (hdigits : digits ∈ findCites answer.toList) : strip answer ≠ insufficientAnswerText := by
  obtain ⟨before, rest, text, hsplit, hmarker⟩ := mem_findCites_iff.mp hdigits
  intro hsame
  have hbracket : '[' ∈ (strip answer).toList := by
    rw [strip, String.toList_ofList, hsplit, hmarker.1,
      stripWhere_append_kept (by decide : isSpace '[' = false)]
    simp
  rw [hsame] at hbracket
  exact absurd hbracket (by decide)

/-- The answers whose markers are not read have none. -/
theorem findCites_unread {answer : String}
    (hunread : answer = "" ∨ strip answer = insufficientAnswerText) :
    findCites answer.toList = [] := by
  rw [List.eq_nil_iff_forall_not_mem]
  intro digits hdigits
  cases hunread with
  | inl hempty =>
      have hnone : findCites "".toList = [] := by decide
      rw [hempty, hnone] at hdigits
      cases hdigits
  | inr hsame => exact strip_ne_insufficient hdigits hsame

/-- The numbers of the records of an answer. -/
def citedMarkers (answer : String) (chunks : List Chunk) : List ℕ :=
  (SortedSet.ascending ((findCites answer.toList).map numberOf).toFinset).filter
    fun marker => 1 ≤ marker ∧ marker ≤ chunks.length

theorem mem_citedMarkers {answer : String} {chunks : List Chunk} {marker : ℕ} :
    marker ∈ citedMarkers answer chunks ↔
      Written marker answer ∧ 1 ≤ marker ∧ marker ≤ chunks.length := by
  simp [citedMarkers, written_iff]

theorem citedMarkers_pairwise (answer : String) (chunks : List Chunk) :
    (citedMarkers answer chunks).Pairwise (· < ·) :=
  (SortedSet.ascending_pairwise _).filter _

theorem citedMarkers_unread {answer : String} (chunks : List Chunk)
    (hunread : answer = "" ∨ strip answer = insufficientAnswerText) :
    citedMarkers answer chunks = [] := by
  rw [citedMarkers, findCites_unread hunread]
  rfl

/-- The records of the written numbers that the context has. -/
def recordsOf (answer : String) (chunks : List Chunk) : List Citation :=
  (citedMarkers answer chunks).filterMap fun marker =>
    (chunks[marker - 1]?).map (citationOf marker)

theorem filterMap_citationOf (markers : List ℕ) (chunks : List Chunk) :
    (markers.filterMap fun marker =>
        if 1 ≤ marker then (chunks[marker - 1]?).map (citationOf marker) else none) =
      (markers.filter fun marker => 1 ≤ marker ∧ marker ≤ chunks.length).filterMap
        fun marker => (chunks[marker - 1]?).map (citationOf marker) := by
  rw [List.filterMap_filter]
  apply List.filterMap_congr
  intro marker _
  by_cases hlow : 1 ≤ marker
  · by_cases hhigh : marker ≤ chunks.length
    · simp [hlow, hhigh]
    · have hout : chunks.length ≤ marker - 1 := by omega
      simp [hlow, hhigh, List.getElem?_eq_none hout]
  · simp [hlow]

theorem extractCitations_ok {answer : String} (hreadable : Readable answer)
    (chunks : List Chunk) : extractCitations answer chunks = .ok (recordsOf answer chunks) := by
  rw [extractCitations]
  split_ifs with hunread
  · rw [recordsOf, citedMarkers_unread chunks hunread, List.filterMap_nil]
  · rw [readMarkers_ok hreadable, recordsOf, citedMarkers, ← filterMap_citationOf]
    rfl

theorem extractCitations_error {answer : String} (hlong : ¬ Readable answer)
    (chunks : List Chunk) : ∃ failure, extractCitations answer chunks = .error failure := by
  rw [extractCitations]
  split_ifs with hunread
  · refine absurd ?_ hlong
    rw [Readable, findCites_unread hunread]
    exact fun _ hnone => absurd hnone List.not_mem_nil
  · obtain ⟨failure, hfailure⟩ := readMarkers_error hlong
    exact ⟨failure, by rw [hfailure]; rfl⟩

/-- The citations are the records, unless a marker cannot be read. -/
theorem extractCitations_eq_ok_iff {answer : String} {chunks : List Chunk}
    {citations : List Citation} :
    extractCitations answer chunks = .ok citations ↔
      Readable answer ∧ citations = recordsOf answer chunks := by
  by_cases hreadable : Readable answer
  · rw [extractCitations_ok hreadable, Except.ok.injEq, eq_comm, and_iff_right hreadable]
  · obtain ⟨failure, hfailure⟩ := extractCitations_error hreadable chunks
    rw [hfailure]
    exact iff_of_false (fun hok => by cases hok) fun hboth => hreadable hboth.1

theorem extractCitations_raises_iff (answer : String) (chunks : List Chunk) :
    (∃ failure, extractCitations answer chunks = .error failure) ↔ ¬ Readable answer := by
  constructor
  · intro hraises hreadable
    obtain ⟨failure, hfailure⟩ := hraises
    rw [extractCitations_ok hreadable] at hfailure
    cases hfailure
  · exact fun hlong => extractCitations_error hlong chunks

/-- The records carry the written numbers that the context has, in increasing
order, and each is the record of the chunk at its number. -/
theorem recordsOf_records (answer : String) (chunks : List Chunk) :
    List.Forall₂ (fun marker citation => 1 ≤ marker ∧
        ∃ chunk, chunks[marker - 1]? = some chunk ∧ citation = citationOf marker chunk)
      (citedMarkers answer chunks) (recordsOf answer chunks) := by
  have hrange : ∀ marker ∈ citedMarkers answer chunks,
      1 ≤ marker ∧ marker - 1 < chunks.length := by
    intro marker hmarker
    have hbounds := (mem_citedMarkers.mp hmarker).2
    omega
  rw [recordsOf]
  generalize citedMarkers answer chunks = markers at hrange
  induction markers with
  | nil => exact .nil
  | cons marker rest ih =>
      obtain ⟨hpositive, hlt⟩ := hrange marker List.mem_cons_self
      have hchunk := List.getElem?_eq_getElem hlt
      rw [List.filterMap_cons_some (by rw [hchunk, Option.map_some])]
      exact .cons ⟨hpositive, _, hchunk, rfl⟩
        (ih fun other hother => hrange other (List.mem_cons_of_mem _ hother))

/-- Every citation is the record of a chunk of the packed context. -/
theorem mem_recordsOf {answer : String} {chunks : List Chunk} {citation : Citation}
    (hmem : citation ∈ recordsOf answer chunks) :
    ∃ marker, ∃ chunk ∈ chunks, citation = citationOf marker chunk := by
  obtain ⟨marker, _, hrecord⟩ := List.mem_filterMap.mp hmem
  obtain ⟨chunk, hchunk, rfl⟩ := Option.map_eq_some_iff.mp hrecord
  exact ⟨marker, chunk, List.mem_of_getElem? hchunk, rfl⟩

example : normalizeMarkers "a【1†L1】b 【 2 】" = "a[1]b [2]" := by decide

example : readMarkers "x[2] [10][2]" = .ok [2, 10, 2] := by decide

end AgenticRag.Citations
