import AgenticRag.Client.Markdown
import AgenticRag.Graph.NormalMarkers

/-!
# The sources behind the shown markers

The backend reads `[n]` only, the client shows more: lists of numbers, native markers with
a byte order mark, and markers a carriage return interrupts.  What the two have in common
is what the client shows of the markers the backend reads.
-/

namespace AgenticRag.Client

open AgenticRag.PyString AgenticRag.Citations

/-- The client shows the marker, and the backend does not read it where it stands. -/
def Unread (answer : Text) (cited : Marker) : Prop :=
  2 ≤ cited.digits.length ∨ '\ufeff' ∈ cited.source ∨
    ('\r' ∈ answer ∧ ¬ cited.source <:+: answer)

theorem isDigit_of_isJsDigit {char : Char} (hdigit : isJsDigit char = true) :
    isDigit char = true := by
  rw [isJsDigit, Bool.and_eq_true, decide_eq_true_eq, decide_eq_true_eq] at hdigit
  rw [isDigit, digitValue, Option.isSome_map, List.find?_isSome]
  refine ⟨0x30, by decide, ?_⟩
  rw [Bool.and_eq_true, decide_eq_true_eq, decide_eq_true_eq]
  omega

theorem isSpace_of_isJsSpace {char : Char} (hspace : isJsSpace char = true)
    (hmark : char ≠ '\ufeff') : isSpace char = true := by
  have hcode : char.toNat ≠ 0xFEFF := fun hsame => hmark (Char.toNat_inj.mp hsame)
  simp only [isJsSpace, isSpace, Bool.or_eq_true, Bool.and_eq_true, decide_eq_true_eq,
    beq_iff_eq] at hspace ⊢
  omega

/-- A shown marker that the backend reads is the `[n]` of the answer. -/
theorem written_of_shown {answer : String} {cited : Marker}
    (hcited : cited ∈ shownMarkers (normalizeMarkers answer).toList)
    (hread : ¬ Unread (normalizeMarkers answer).toList cited) {number : ℕ}
    (hnumber : number ∈ cited.numbers) : Written number (normalizeMarkers answer) := by
  obtain ⟨hshown, hform⟩ := mem_shownMarkers hcited
  rw [Unread, not_or, not_or, not_and_not_right] at hread
  obtain ⟨hone, hmark, hreturn⟩ := hread
  have hwithin : cited.source <:+: (normalizeMarkers answer).toList := by
    by_cases hinterrupted : '\r' ∈ (normalizeMarkers answer).toList
    · exact hreturn hinterrupted
    · have hkept : ∀ char ∈ (normalizeMarkers answer).toList,
          decide (char ≠ '\r') = true := by
        intro char hchar
        rw [decide_eq_true_eq]
        exact fun hsame => hinterrupted (hsame ▸ hchar)
      rwa [List.filter_eq_self.mpr hkept] at hshown
  obtain ⟨before, behind, hsplit⟩ := hwithin
  cases hform with
  | several hmany => exact absurd hmany hone
  | single digits hdigits hne hall hsource =>
      rw [Marker.numbers, hdigits, List.map_singleton, List.mem_singleton] at hnumber
      refine ⟨before, digits, behind, _, ?_,
        ⟨rfl, hne, fun char hchar => isDigit_of_isJsDigit (hall char hchar)⟩, hnumber.symm⟩
      rw [← hsplit, hsource]
      simp
  | native digits front back closing hdigits hne hall hfront hback hclosing hsource =>
      have hfree : ∀ {blanks : Text}, (∀ char ∈ blanks, isJsSpace char = true) →
          (∀ char ∈ blanks, char ∈ cited.source) → ∀ char ∈ blanks, isSpace char = true := by
        intro blanks hblanks hsubset char hchar
        exact isSpace_of_isJsSpace (hblanks char hchar)
          fun hsame => hmark (hsame ▸ hsubset char hchar)
      have hmarker : NativeMarker digits cited.source := by
        refine ⟨front, back, closing, hsource, hfree hfront ?_, hne,
          fun char hchar => isDigit_of_isJsDigit (hall char hchar), hfree hback ?_, hclosing⟩
        · intro char hchar
          simp [hsource, hchar]
        · intro char hchar
          simp [hsource, hchar]
      rw [toList_normalizeMarkers] at hsplit
      exact absurd ⟨before, behind, hsplit⟩ (native_not_within hmarker answer.toList)

/-- The number opens a source. -/
def Opens (citations : List Citation) (number : ℕ) : Prop :=
  ∃ citation ∈ citations, citation.marker = some number

/-- A number opens a source exactly where it is written and in range. -/
theorem opens_iff {answer : String} {chunks : List Chunk} {number : ℕ} :
    Opens (recordsOf answer chunks) number ↔
      Written number answer ∧ 1 ≤ number ∧ number ≤ chunks.length := by
  rw [← mem_citedMarkers, Opens, recordsOf]
  constructor
  · intro hopens
    obtain ⟨citation, hcitation, hmarker⟩ := hopens
    obtain ⟨marker, hcited, hrecord⟩ := List.mem_filterMap.mp hcitation
    obtain ⟨chunk, _, rfl⟩ := Option.map_eq_some_iff.mp hrecord
    rw [← Option.some.inj hmarker]
    exact hcited
  · intro hcited
    obtain ⟨_, hlow, hhigh⟩ := mem_citedMarkers.mp hcited
    have hless : number - 1 < chunks.length := by omega
    refine ⟨citationOf number chunks[number - 1], List.mem_filterMap.mpr ⟨number, hcited, ?_⟩, rfl⟩
    rw [List.getElem?_eq_getElem hless, Option.map_some]

/-- Every shown number of the context opens a source, among the citations extracted from the
answer, exactly where the numbers of the markers that the backend does not read are written
in a form it reads as well. -/
theorem shown_opens_iff (answer : String) (chunks : List Chunk) {citations : List Citation}
    (hcitations : extractCitations (normalizeMarkers answer) chunks = .ok citations) :
    (∀ cited ∈ shownMarkers (normalizeMarkers answer).toList, ∀ number ∈ cited.numbers,
        1 ≤ number → number ≤ chunks.length → Opens citations number) ↔
      ∀ cited ∈ shownMarkers (normalizeMarkers answer).toList,
        Unread (normalizeMarkers answer).toList cited → ∀ number ∈ cited.numbers,
          1 ≤ number → number ≤ chunks.length → WrittenEither number answer.toList := by
  have hrecords := (extractCitations_eq_ok_iff.mp hcitations).2
  rw [hrecords]
  constructor
  · intro hall cited hcited _ number hnumber hlow hhigh
    have hopens := hall cited hcited number hnumber hlow hhigh
    exact (written_normalizeMarkers_iff number answer).mp (opens_iff.mp hopens).1
  · intro hall cited hcited number hnumber hlow hhigh
    rw [opens_iff]
    refine ⟨?_, hlow, hhigh⟩
    by_cases hread : Unread (normalizeMarkers answer).toList cited
    · exact (written_normalizeMarkers_iff number answer).mpr
        (hall cited hcited hread number hnumber hlow hhigh)
    · exact written_of_shown hcited hread hnumber

/-- A chunk of the packed context. -/
def sampleChunk : Chunk where
  chunkId := 1
  documentId := 2
  collectionId := 3
  chunkType := "text"
  pageNumber := none
  sectionTitle := none
  content := "Die Frist beträgt vier Wochen."
  score := 1
  fileName := none
  imageUri := none

/-- What is shown of an answer that is one line with one marker. -/
theorem shownMarkers_single {answer : Text} {cited : Marker}
    (hlines : sourceLines answer = [answer]) (hpieces : pieces [answer] = [answer])
    (htoken : matchToken answer = some (.marker cited, [])) : shownMarkers answer = [cited] := by
  rw [shownMarkers, hlines, hpieces, List.flatMap_singleton, inlineMarkers_token htoken,
    Token.cited, Token.content, inlineMarkers]
  rfl

/-- A native marker is shown as `[1]`, and its source opens. -/
theorem shown_opens_iff_native :
    extractCitations (normalizeMarkers "【1】") [sampleChunk] =
        .ok [citationOf 1 sampleChunk] ∧
      ∀ cited ∈ shownMarkers (normalizeMarkers "【1】").toList, ∀ number ∈ cited.numbers,
        1 ≤ number → number ≤ [sampleChunk].length →
          Opens [citationOf 1 sampleChunk] number := by
  refine ⟨by decide, (shown_opens_iff "【1】" [sampleChunk] (by decide)).mpr ?_⟩
  have hnormal : (normalizeMarkers "【1】").toList = "[1]".toList := by decide
  have hshown : shownMarkers "[1]".toList = [⟨"[1]".toList, ["1".toList]⟩] := by
    refine shownMarkers_single (by decide) ?_ (by rfl)
    rw [pieces, if_neg (by decide), if_neg (by decide)]
    have htitle : heading (trim "[1]".toList) = none := by decide
    rw [htitle]
    dsimp only
    rw [if_neg (by decide), if_neg (by decide), if_neg (by decide), pieces]
    decide
  rw [hnormal, hshown]
  intro cited hcited hunread
  rw [List.mem_singleton.mp hcited, Unread] at hunread
  exact absurd hunread (by decide)

/-- A list of two numbers shows two markers, and there is no record of either. -/
theorem shown_list_unread :
    extractCitations (normalizeMarkers "[1, 2]") [sampleChunk, sampleChunk] = .ok [] ∧
      ¬ ∀ cited ∈ shownMarkers (normalizeMarkers "[1, 2]").toList, ∀ number ∈ cited.numbers,
        1 ≤ number → number ≤ [sampleChunk, sampleChunk].length → Opens [] number := by
  refine ⟨by decide, fun hall => ?_⟩
  have hnormal : (normalizeMarkers "[1, 2]").toList = "[1, 2]".toList := by decide
  have hshown : shownMarkers "[1, 2]".toList =
      [⟨"[1, 2]".toList, ["1".toList, "2".toList]⟩] := by
    refine shownMarkers_single (by decide) ?_ (by rfl)
    rw [pieces, if_neg (by decide), if_neg (by decide)]
    have htitle : heading (trim "[1, 2]".toList) = none := by decide
    rw [htitle]
    dsimp only
    rw [if_neg (by decide), if_neg (by decide), if_neg (by decide), pieces]
    decide
  rw [hnormal, hshown] at hall
  obtain ⟨citation, hcitation, _⟩ := hall _ (List.mem_singleton.mpr rfl) 1 (by decide)
    (by decide) (by decide)
  cases hcitation

end AgenticRag.Client
