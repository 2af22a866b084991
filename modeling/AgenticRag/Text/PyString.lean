import Mathlib.Data.List.DropRight
import Mathlib.Data.String.Basic

/-!
# The string operations the graph nodes use

`str.strip`, `str.split`, `str.lower` and `str.startswith` as the follow-up
heuristic and the guards call them.  `isSpace` is the Unicode whitespace class
of `str.isspace`.
-/

namespace AgenticRag.PyString

def isSpace (char : Char) : Bool :=
  let code := char.toNat
  (9 ≤ code && code ≤ 13) || (28 ≤ code && code ≤ 32) || code == 0x85 ||
    code == 0xA0 || code == 0x1680 || (0x2000 ≤ code && code ≤ 0x200A) ||
    code == 0x2028 || code == 0x2029 || code == 0x202F || code == 0x205F ||
    code == 0x3000

/-- `text.strip(chars)` for the characters satisfying `drop`. -/
def stripWhere (drop : Char → Bool) (text : List Char) : List Char :=
  (text.dropWhile drop).rdropWhile drop

/-- `text.strip()` -/
def strip (text : String) : String :=
  String.ofList (stripWhere isSpace text.toList)

/-- `text.split()`: the maximal runs of non-whitespace. -/
def split (text : String) : List String :=
  ((text.toList.splitOnP isSpace).filter fun word => !word.isEmpty).map
    String.ofList

/-- `text.lower()` on the Latin letters.  The words the program compares with
contain no other cased letter, and no other letter lowers to one of theirs. -/
def lowerChar (char : Char) : Char :=
  let code := char.toNat
  if (65 ≤ code ∧ code ≤ 90) ∨ (0xC0 ≤ code ∧ code ≤ 0xDE ∧ code ≠ 0xD7) then
    Char.ofNat (code + 32)
  else char

def lower (text : String) : String :=
  String.ofList (text.toList.map lowerChar)

def startsWith (text head : String) : Bool :=
  head.toList.isPrefixOf text.toList

/-- `not text.strip()` -/
def isBlank (text : String) : Bool :=
  strip text == ""

/-- `separator.join(parts)` for a separator of one character. -/
def join (separator : Char) (parts : List String) : String :=
  String.ofList ([separator].intercalate (parts.map String.toList))

theorem stripWhere_eq_nil_iff (drop : Char → Bool) (text : List Char) :
    stripWhere drop text = [] ↔ ∀ char ∈ text, drop char = true := by
  rw [stripWhere, List.rdropWhile_eq_nil_iff]
  constructor
  · intro hall
    by_contra hsome
    have hne : text.dropWhile drop ≠ [] := by
      rw [Ne, List.dropWhile_eq_nil_iff]
      simpa using hsome
    have hhead := List.head_dropWhile_not drop hne
    rw [hall _ (List.head_mem hne)] at hhead
    exact Bool.noConfusion hhead
  · intro hall char hchar
    exact hall char (List.dropWhile_subset _ hchar)

/-- A text is blank exactly when it consists of whitespace. -/
theorem isBlank_iff (text : String) :
    isBlank text = true ↔ ∀ char ∈ text.toList, isSpace char = true := by
  rw [← stripWhere_eq_nil_iff isSpace, isBlank, beq_iff_eq, strip]
  constructor
  · intro h
    simpa using congrArg String.toList h
  · intro h
    rw [h]

section Strip

variable {drop : Char → Bool}

/-- Nothing is stripped from a text of kept characters. -/
theorem stripWhere_of_forall {text : List Char} (hkept : ∀ char ∈ text, drop char = false) : stripWhere drop text = text := by
  have hfront : text.dropWhile drop = text := by
    rw [List.dropWhile_eq_self_iff]
    exact fun hlength => by simp [hkept _ (List.getElem_mem hlength)]
  have hback : text.rdropWhile drop = text := by
    rw [List.rdropWhile_eq_self_iff]
    exact fun hne => by simp [hkept _ (List.getLast_mem hne)]
  rw [stripWhere, hfront, hback]

theorem stripWhere_append_left {blank : List Char} (hblank : ∀ char ∈ blank, drop char = true)
    (text : List Char) : stripWhere drop (blank ++ text) = stripWhere drop text := by
  rw [stripWhere, List.dropWhile_append_of_pos hblank, ← stripWhere]

theorem dropWhile_append_kept {kept : Char} (hkept : drop kept = false)
    (front rest : List Char) :
    (front ++ kept :: rest).dropWhile drop = front.dropWhile drop ++ kept :: rest := by
  induction front with
  | nil => simp [hkept]
  | cons char front ih =>
      by_cases hchar : drop char = true
      · simpa [hchar] using ih
      · simp [hchar]

/-- A kept character separates what is lost on the left from what is lost on the
right. -/
theorem stripWhere_append_kept {kept : Char} (hkept : drop kept = false)
    (front rest : List Char) :
    stripWhere drop (front ++ kept :: rest) =
      front.dropWhile drop ++ kept :: rest.rdropWhile drop := by
  rw [stripWhere, dropWhile_append_kept hkept, List.rdropWhile]
  have hreverse : (front.dropWhile drop ++ kept :: rest).reverse =
      rest.reverse ++ kept :: (front.dropWhile drop).reverse := by simp
  rw [hreverse, dropWhile_append_kept hkept, List.rdropWhile]
  simp

/-- Behind a kept last character only the second text loses its end. -/
theorem stripWhere_append_of_getLast? {kept : Char} (hkept : drop kept = false)
    {first : List Char} (hlast : first.getLast? = some kept) (second : List Char) :
    stripWhere drop (first ++ second) =
      first.dropWhile drop ++ second.rdropWhile drop := by
  obtain ⟨front, rfl⟩ := List.getLast?_eq_some_iff.mp hlast
  rw [List.append_assoc, List.singleton_append, stripWhere_append_kept hkept,
    dropWhile_append_kept hkept]
  simp

theorem stripWhere_append_right {blank : List Char}
    (hblank : ∀ char ∈ blank, drop char = true) (text : List Char) :
    stripWhere drop (text ++ blank) = stripWhere drop text := by
  by_cases htext : ∀ char ∈ text, drop char = true
  · rw [(stripWhere_eq_nil_iff drop text).mpr htext, stripWhere_eq_nil_iff]
    intro char hchar
    exact (List.mem_append.mp hchar).elim (htext char) (hblank char)
  · push Not at htext
    obtain ⟨kept, hmem, hkept⟩ := htext
    obtain ⟨front, rest, rfl⟩ := List.append_of_mem hmem
    have hkept' : drop kept = false := by simpa using hkept
    rw [List.append_assoc, List.cons_append, stripWhere_append_kept hkept',
      stripWhere_append_kept hkept', List.rdropWhile, List.rdropWhile, List.reverse_append,
      List.dropWhile_append_of_pos (by simpa using hblank)]

/-- What `strip` takes away stands at the two ends. -/
theorem exists_stripWhere (drop : Char → Bool) (text : List Char) :
    ∃ left right, text = left ++ (stripWhere drop text ++ right) ∧
      (∀ char ∈ left, drop char = true) ∧ ∀ char ∈ right, drop char = true := by
  refine ⟨text.takeWhile drop, (text.dropWhile drop).rtakeWhile drop, ?_, ?_, ?_⟩
  · rw [stripWhere, List.rdropWhile_append_rtakeWhile, List.takeWhile_append_dropWhile]
  · intro char hchar
    exact List.mem_takeWhile_imp hchar
  · intro char hchar
    exact List.mem_rtakeWhile_imp hchar

/-- The kept characters of a text are those of the stripped text. -/
theorem countP_stripWhere (drop : Char → Bool) (text : List Char) :
    (stripWhere drop text).countP (fun char => !drop char) =
      text.countP fun char => !drop char := by
  obtain ⟨left, right, htext, hleft, hright⟩ := exists_stripWhere drop text
  have hzero : ∀ blank : List Char, (∀ char ∈ blank, drop char = true) →
      blank.countP (fun char => !drop char) = 0 := by
    intro blank hblank
    rw [List.countP_eq_zero]
    intro char hchar
    simp [hblank char hchar]
  conv_rhs => rw [htext, List.countP_append, List.countP_append, hzero left hleft,
    hzero right hright, Nat.zero_add, Nat.add_zero]

end Strip

/-- Non-empty parts without the separator can be read back from their join. -/
theorem join_injOn (separator : Char) :
    Set.InjOn (join separator)
      {parts | ∀ part ∈ parts, part ≠ "" ∧ separator ∉ part.toList} := by
  have hsplit : ∀ parts : List String, parts ≠ [] →
      (∀ part ∈ parts, part ≠ "" ∧ separator ∉ part.toList) →
      (join separator parts).toList.splitOn separator = parts.map String.toList := by
    intro parts hne hparts
    rw [join, String.toList_ofList]
    apply List.splitOn_intercalate
    · intro word hword
      obtain ⟨part, hpart, rfl⟩ := List.mem_map.mp hword
      exact (hparts part hpart).2
    · simpa using hne
  have hempty : ∀ parts : List String,
      (∀ part ∈ parts, part ≠ "" ∧ separator ∉ part.toList) →
      join separator parts = join separator [] → parts = [] := by
    intro parts hparts heq
    by_contra hne
    have hwords := hsplit parts hne hparts
    rw [heq] at hwords
    have hsingle : parts.map String.toList = [[]] := by
      simpa [join] using hwords.symm
    obtain ⟨part, hpart, hnil⟩ :=
      List.mem_map.mp (hsingle ▸ List.mem_singleton_self ([] : List Char))
    exact (hparts part hpart).1 (String.toList_eq_nil_iff.mp hnil)
  intro left hleft right hright heq
  by_cases hnil : left = []
  · subst hnil
    exact (hempty right hright heq.symm).symm
  · by_cases hnil' : right = []
    · subst hnil'
      exact hempty left hleft heq
    · have hlists : left.map String.toList = right.map String.toList := by
        rw [← hsplit left hnil hleft, ← hsplit right hnil' hright, heq]
      apply List.map_injective_iff.mpr _ hlists
      intro first second h
      exact String.toList_inj.mp h

end AgenticRag.PyString
