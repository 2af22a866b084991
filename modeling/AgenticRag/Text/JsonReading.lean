import AgenticRag.Text.Json
import Mathlib.Algebra.Field.Rat
import Mathlib.Data.List.TakeWhile
import Mathlib.Tactic.IntervalCases

/-!
# What is written is read back

The round trip of the JSON texts, and what a written text is made of: it has neither line
ends nor blanks around it.
-/

namespace AgenticRag.Json

/-! ## Texts -/

theorem hexValue_hexDigit : ∀ digit < 16, hexValue (hexDigit digit) = some digit := by
  decide

theorem readHex_hexDigits {unit : ℕ} (hunit : unit < 0x10000) :
    readHex (hexDigit (unit / 0x1000 % 16)) (hexDigit (unit / 0x100 % 16))
      (hexDigit (unit / 0x10 % 16)) (hexDigit (unit % 16)) = some unit := by
  have hvalue : ∀ digit, hexValue (hexDigit (digit % 16)) = some (digit % 16) :=
    fun digit => hexValue_hexDigit _ (Nat.mod_lt digit (by decide))
  rw [readHex, hvalue, hvalue, hvalue, hvalue]
  simp only [Option.bind_eq_bind, Option.bind_some, Option.pure_def, Option.some.injEq]
  omega

theorem lt_of_mem_unitsOfCode {code : CodePoint} {unit : ℕ} (hunit : unit ∈ unitsOfCode code) :
    unit < 0x10000 := by
  have hcode := code.isLt
  rw [unitsOfCode] at hunit
  split_ifs at hunit with hsmall
  · rw [List.mem_singleton] at hunit
    omega
  · rw [List.mem_pair] at hunit
    omega

theorem prepend_some {α : Type} (units more : List ℕ) (rest : α) :
    prepend units (some (more, rest)) = some (units ++ more, rest) := rfl

theorem prepend_prepend {α : Type} (first second : List ℕ) (result : Option (List ℕ × α)) :
    prepend first (prepend second result) = prepend (first ++ second) result := by
  cases result with
  | none => rfl
  | some result => simp [prepend]

theorem readText_escapeUnit {unit : ℕ} (hunit : unit < 0x10000) (rest : List Char) :
    readText (escapeUnit unit ++ rest) = prepend [unit] (readText rest) := by
  have hquote : '\\' ≠ '"' := by decide
  rw [escapeUnit, readText.eq_def]
  simp only [List.cons_append, List.nil_append, if_neg hquote, if_true,
    readHex_hexDigits hunit]

theorem readText_escapeUnits {units : List ℕ} (hunits : ∀ unit ∈ units, unit < 0x10000)
    (rest : List Char) :
    readText (units.flatMap escapeUnit ++ rest) = prepend units (readText rest) := by
  induction units with
  | nil =>
    rw [List.flatMap_nil, List.nil_append]
    cases readText rest <;> rfl
  | cons unit more ih =>
    rw [List.flatMap_cons, List.append_assoc,
      readText_escapeUnit (hunits unit List.mem_cons_self),
      ih fun other hother => hunits other (List.mem_cons_of_mem unit hother), prepend_prepend]
    rfl

theorem readText_mark {mark : Char} {unit : ℕ} (hmark : mark ≠ 'u')
    (hescape : escapes.lookup mark = some unit) (rest : List Char) :
    readText ('\\' :: mark :: rest) = prepend [unit] (readText rest) := by
  have hquote : '\\' ≠ '"' := by decide
  rw [readText.eq_def]
  simp only [if_neg hquote, if_true, if_neg hmark, hescape]

/-- Every escape of the writer is one of the reader. -/
theorem shortEscapes_read : ∀ escape ∈ shortEscapes,
    escape.2 ≠ 'u' ∧ escapes.lookup escape.2 = some escape.1 ∧ escape.1 < 0x10000 := by
  decide

theorem mem_of_lookup {code : ℕ} {mark : Char} {table : List (ℕ × Char)}
    (hlookup : table.lookup code = some mark) : (code, mark) ∈ table := by
  rw [List.lookup_eq_some_iff] at hlookup
  obtain ⟨front, back, rfl, -⟩ := hlookup
  exact List.mem_append_right front List.mem_cons_self

theorem toNat_ofNat {code : ℕ} (hcode : code < 0xD800) : (Char.ofNat code).toNat = code := by
  rw [Char.ofNat, dif_pos (Or.inl hcode)]
  rfl

/-- A printable character without an escape stands for itself. -/
theorem readText_plain {code : ℕ} (hcode : 0x20 ≤ code ∧ code ≤ 0x7E)
    (hquote : code ≠ 0x22) (hslash : code ≠ 0x5C) (rest : List Char) :
    readText (Char.ofNat code :: rest) = prepend [code] (readText rest) := by
  have hplain : ∀ code, 0x20 ≤ code → code ≤ 0x7E → code ≠ 0x22 → code ≠ 0x5C →
      Char.ofNat code ≠ '"' ∧ Char.ofNat code ≠ '\\' ∧ (Char.ofNat code).toNat = code := by
    intro code hleast hmost
    interval_cases code <;> decide
  obtain ⟨hne, hne', hnat⟩ := hplain code hcode.1 hcode.2 hquote hslash
  have hunits : Codecs.unitsOfChar (Char.ofNat code) = [code] := by
    rw [Codecs.unitsOfChar, hnat, if_pos (by omega)]
  rw [readText.eq_def]
  simp only [if_neg hne, if_neg hne', hnat, hunits]
  rw [if_neg (by omega)]

theorem readText_quoteCode (code : CodePoint) (rest : List Char) :
    readText (quoteCode code ++ rest) = prepend (unitsOfCode code) (readText rest) := by
  rw [quoteCode]
  cases hlookup : shortEscapes.lookup code.val with
  | some mark =>
    obtain ⟨hmark, hescape, hsmall⟩ := shortEscapes_read _ (mem_of_lookup hlookup)
    rw [unitsOfCode, if_pos hsmall]
    exact readText_mark hmark hescape rest
  | none =>
    by_cases hprintable : 0x20 ≤ code.val ∧ code.val ≤ 0x7E
    · have hquote : code.val ≠ 0x22 := by
        intro heq
        rw [heq] at hlookup
        exact absurd hlookup (by decide)
      have hslash : code.val ≠ 0x5C := by
        intro heq
        rw [heq] at hlookup
        exact absurd hlookup (by decide)
      have hunits : unitsOfCode code = [code.val] := by
        rw [unitsOfCode, if_pos (by omega)]
      rw [if_pos hprintable, hunits]
      exact readText_plain hprintable hquote hslash rest
    · rw [if_neg hprintable]
      exact readText_escapeUnits (fun unit hunit => lt_of_mem_unitsOfCode hunit) rest

/-- A quoted text is read back as its units. -/
theorem readText_quote (text : List CodePoint) (rest : List Char) :
    readText (text.flatMap quoteCode ++ '"' :: rest) = some (unitsOf text, rest) := by
  induction text with
  | nil =>
    rw [List.flatMap_nil, List.nil_append, readText.eq_def]
    simp only [if_true, unitsOf, List.flatMap_nil]
  | cons code more ih =>
    rw [List.flatMap_cons, List.append_assoc, readText_quoteCode, ih, prepend_some]
    rfl


/-! ## Numbers -/

theorem isDigit_of_mem_toDigits {number : ℕ} {char : Char}
    (hchar : char ∈ Nat.toDigits 10 number) : isDigit char = true := by
  have hdigit := Nat.isDigit_of_mem_toDigits (by decide) (by decide) hchar
  rw [Char.isDigit, Bool.and_eq_true, decide_eq_true_eq, decide_eq_true_eq] at hdigit
  rw [isDigit, Bool.and_eq_true, decide_eq_true_eq, decide_eq_true_eq]
  exact ⟨hdigit.1, hdigit.2⟩

/-- Only the number zero starts with a zero. -/
theorem head?_toDigits {number : ℕ} (hhead : (Nat.toDigits 10 number).head? = some '0') :
    number = 0 := by
  induction number using Nat.strong_induction_on with
  | h number ih =>
    by_cases hsmall : number < 10
    · rw [Nat.toDigits_of_lt_base hsmall] at hhead
      interval_cases number <;> first | rfl | exact absurd hhead (by decide)
    · have hle : 10 ≤ number := not_lt.mp hsmall
      rw [Nat.toDigits_of_base_le (by decide) hle, List.head?_append_of_ne_nil _
        Nat.toDigits_ne_nil] at hhead
      have hzero := ih (number / 10) (Nat.div_lt_self (by omega) (by decide)) hhead
      omega

/-- Digits without a leading zero are a literal of their number, and so they are behind a
minus. -/
theorem readLiteral_digits {digits : List Char} (hne : digits ≠ [])
    (hdigits : ∀ char ∈ digits, isDigit char = true)
    (hzero : digits.head? = some '0' → digits = ['0']) :
    readLiteral digits = some (Nat.ofDigitChars 10 digits 0 : ℚ) ∧
      readLiteral ('-' :: digits) = some (-(Nat.ofDigitChars 10 digits 0 : ℚ)) := by
  have htake : digits.takeWhile isDigit = digits := List.takeWhile_eq_self_iff.mpr hdigits
  have hdrop : digits.dropWhile isDigit = [] := List.dropWhile_eq_nil_iff.mpr hdigits
  have hminus : digits.head? ≠ some '-' := by
    intro hhead
    exact absurd (hdigits '-' (List.mem_of_head? hhead)) (by decide)
  have hleading : ¬ (digits.head? = some '0' ∧ ¬ digits = ['0']) :=
    fun hhead => hhead.2 (hzero hhead.1)
  constructor
  · simp [readLiteral, hminus, htake, hdrop, hne, hleading, readExponent]
  · simp [readLiteral, htake, hdrop, hne, hleading, readExponent]

theorem readLiteral_integer (value : ℤ) : readLiteral (integer value) = some (value : ℚ) := by
  have hdigits := readLiteral_digits (@Nat.toDigits_ne_nil value.natAbs 10)
    (fun char hchar => isDigit_of_mem_toDigits hchar) (by
      intro hhead
      rw [head?_toDigits hhead]
      exact Nat.toDigits_zero 10)
  rw [Nat.ofDigitChars_ten_toDigits] at hdigits
  rw [integer]
  split_ifs with hnegative
  · rw [hdigits.2, ← Int.cast_natCast value.natAbs,
      Int.ofNat_natAbs_of_nonpos hnegative.le, Int.cast_neg, neg_neg]
  · rw [hdigits.1, ← Int.cast_natCast value.natAbs, Int.natAbs_of_nonneg (not_lt.mp hnegative)]

theorem isNumberChar_of_mem_integer {value : ℤ} {char : Char} (hchar : char ∈ integer value) :
    isNumberChar char = true := by
  have hdigit : ∀ char ∈ Nat.toDigits 10 value.natAbs, isNumberChar char = true := by
    intro char hchar
    simp [isNumberChar, isDigit_of_mem_toDigits hchar]
  rw [integer] at hchar
  split_ifs at hchar
  · cases hchar with
    | head => decide
    | tail _ hlater => exact hdigit char hlater
  · exact hdigit char hchar

/-! ## Values -/

/-- Induction over the values nested in one. -/
theorem Value.induction {σ ν : Type} {motive : Value σ ν → Prop} (null : motive .null)
    (bool : ∀ value, motive (.bool value)) (number : ∀ value, motive (.number value))
    (string : ∀ text, motive (.string text))
    (array : ∀ items, (∀ item ∈ items, motive item) → motive (.array items))
    (object : ∀ members, (∀ member ∈ members, motive member.2) → motive (.object members))
    (value : Value σ ν) : motive value :=
  @Value.rec σ ν motive (fun items => ∀ item ∈ items, motive item)
    (fun members => ∀ member ∈ members, motive member.2) (fun member => motive member.2)
    null bool number string array object
    (fun _ hitem => absurd hitem List.not_mem_nil)
    (fun _ _ hfirst hrest => List.forall_mem_cons.mpr ⟨hfirst, hrest⟩)
    (fun _ hmember => absurd hmember List.not_mem_nil)
    (fun _ _ hfirst hrest => List.forall_mem_cons.mpr ⟨hfirst, hrest⟩)
    (fun _ _ hvalue => hvalue) value

/-- What may stand behind a value: nothing that continues a number. -/
def Stops (rest : List Char) : Prop :=
  ∀ char ∈ rest.head?, isNumberChar char = false

section Values

variable {ν : Type} (double : ℚ → ν)

/-- Behind its text a value is read back. -/
def ReadBack (value : Written) : Prop :=
  ∀ fuel rest, Stops rest → 2 * (dumps value).length ≤ fuel →
    readValue double fuel (dumps value ++ rest) = some (value.converted double, rest)

variable {double}

theorem skip_cons {char : Char} (hchar : isWhitespace char = false) (rest : List Char) :
    skip (char :: rest) = char :: rest := by
  rw [skip, List.dropWhile_cons_of_neg (by simp [hchar])]

theorem skip_space (rest : List Char) : skip (' ' :: rest) = skip rest := by
  rw [skip, List.dropWhile_cons_of_pos (by decide)]
  rfl

theorem readValue_space (fuel : ℕ) (text : List Char) :
    readValue double fuel (' ' :: text) = readValue double fuel text := by
  cases fuel with
  | zero => rfl
  | succ fuel => rw [readValue, readValue, skip_space]

theorem stops_cons {char : Char} (hchar : isNumberChar char = false) (rest : List Char) :
    Stops (char :: rest) := by
  intro other hother
  rw [List.head?_cons, Option.mem_some] at hother
  exact hother ▸ hchar

/-- The first character of a number. -/
theorem exists_integer_eq (value : ℤ) :
    ∃ char tail, integer value = char :: tail ∧ (char = '-' ∨ isDigit char = true) := by
  rw [integer]
  split_ifs
  · exact ⟨'-', _, rfl, Or.inl rfl⟩
  · obtain ⟨char, tail, heq⟩ := List.exists_cons_of_ne_nil
      (@Nat.toDigits_ne_nil value.natAbs 10)
    have hmem : char ∈ Nat.toDigits 10 value.natAbs := heq ▸ List.mem_cons_self
    exact ⟨char, tail, heq, Or.inr (isDigit_of_mem_toDigits hmem)⟩

/-- The characters a written value starts with. -/
def Opens (char : Char) : Prop :=
  char ∈ ['n', 't', 'f', '"', '[', '\x7b', '-'] ∨ isDigit char = true

theorem exists_dumps_eq (value : Written) :
    ∃ char tail, dumps value = char :: tail ∧ Opens char := by
  cases value with
  | null => exact ⟨'n', _, by rw [dumps], Or.inl (by decide)⟩
  | bool value =>
    cases value with
    | false => exact ⟨'f', _, by rw [dumps], Or.inl (by decide)⟩
    | true => exact ⟨'t', _, by rw [dumps], Or.inl (by decide)⟩
  | number value =>
    obtain ⟨char, tail, heq, hchar⟩ := exists_integer_eq value
    refine ⟨char, tail, by rw [dumps, heq], ?_⟩
    cases hchar with
    | inl hminus => exact Or.inl (by rw [hminus]; decide)
    | inr hdigit => exact Or.inr hdigit
  | string text => exact ⟨'"', _, by rw [dumps, quote], Or.inl (by decide)⟩
  | array items =>
    cases items with
    | nil => exact ⟨'[', _, by rw [dumps], Or.inl (by decide)⟩
    | cons item rest => exact ⟨'[', _, by rw [dumps], Or.inl (by decide)⟩
  | object members =>
    cases members with
    | nil => exact ⟨'\x7b', _, by rw [dumps], Or.inl (by decide)⟩
    | cons member rest => exact ⟨'\x7b', _, by rw [dumps], Or.inl (by decide)⟩

theorem Opens.not_whitespace {char : Char} (hopens : Opens char) :
    isWhitespace char = false ∧ char ≠ ']' := by
  cases hopens with
  | inl hmem =>
    have hall : ∀ char ∈ ['n', 't', 'f', '"', '[', '\x7b', '-'],
        isWhitespace char = false ∧ char ≠ ']' := by
      simp [isWhitespace]
    exact hall char hmem
  | inr hdigit =>
    rw [isDigit, Bool.and_eq_true, decide_eq_true_eq, decide_eq_true_eq] at hdigit
    have hne : ∀ other : Char, (other.toNat < 48 ∨ 57 < other.toNat) → char ≠ other := by
      intro other hother heq
      subst heq
      omega
    refine ⟨?_, hne ']' (by decide)⟩
    simp [isWhitespace, hne ' ' (by decide), hne '\t' (by decide), hne '\n' (by decide),
      hne '\r' (by decide)]

theorem skip_dumps (value : Written) (rest : List Char) :
    skip (dumps value ++ rest) = dumps value ++ rest := by
  obtain ⟨char, tail, heq, hopens⟩ := exists_dumps_eq value
  rw [heq, List.cons_append, skip_cons hopens.not_whitespace.1]

theorem exists_fuel {value : Written} {fuel : ℕ} (hfuel : 2 * (dumps value).length ≤ fuel) :
    ∃ below, fuel = below + 1 := by
  obtain ⟨char, tail, heq, -⟩ := exists_dumps_eq value
  rw [heq, List.length_cons] at hfuel
  exact Nat.exists_eq_add_one.mpr (by omega)

/-- A word is read back. -/
theorem readBack_word {value : Written} {char : Char} {tail : List Char}
    (hdumps : dumps value = char :: tail) (hword : isWhitespace char = false ∧ char ≠ '"' ∧
      char ≠ '[' ∧ char ≠ '\x7b')
    (hplain : ∀ rest, Stops rest →
      readPlain double (dumps value ++ rest) = some (value.converted double, rest)) :
    ReadBack double value := by
  intro fuel rest hstops hfuel
  obtain ⟨below, rfl⟩ := exists_fuel hfuel
  have hread := hplain rest hstops
  rw [hdumps, List.cons_append] at hread ⊢
  obtain ⟨hspace, hquote, hbracket, hbrace⟩ := hword
  rw [readValue, skip_cons hspace]
  simp only [if_neg hquote, if_neg hbracket, if_neg hbrace]
  exact hread

theorem readPlain_integer (value : ℤ) {rest : List Char} (hstops : Stops rest) :
    readPlain double (integer value ++ rest) = some (.number (double value), rest) := by
  have hno : ∀ char word, isNumberChar char = false →
      ¬ (char :: word) <+: integer value ++ rest := by
    intro char word hchar hfront
    obtain ⟨first, tail, heq, -⟩ := exists_integer_eq value
    have hfirst : isNumberChar first = true :=
      isNumberChar_of_mem_integer (heq ▸ List.mem_cons_self)
    rw [heq, List.cons_append, List.cons_prefix_cons] at hfront
    rw [← hfront.1, hchar] at hfirst
    cases hfirst
  have hall : ∀ char ∈ integer value, isNumberChar char = true :=
    fun char hchar => isNumberChar_of_mem_integer hchar
  have htake : (integer value ++ rest).takeWhile isNumberChar = integer value := by
    rw [List.takeWhile_append_of_pos hall]
    cases rest with
    | nil => rw [List.takeWhile_nil, List.append_nil]
    | cons char rest =>
      rw [List.takeWhile_cons_of_neg (by simp [hstops char rfl]), List.append_nil]
  have hdrop : (integer value ++ rest).dropWhile isNumberChar = rest := by
    rw [List.dropWhile_append_of_pos hall]
    cases rest with
    | nil => rfl
    | cons char rest => rw [List.dropWhile_cons_of_neg (by simp [hstops char rfl])]
  rw [readPlain, if_neg (hno 'n' _ (by decide)), if_neg (hno 't' _ (by decide)),
    if_neg (hno 'f' _ (by decide)), htake, hdrop, readLiteral_integer, Option.map_some]

theorem readBack_number (value : ℤ) : ReadBack double (.number value) := by
  obtain ⟨char, tail, heq, hchar⟩ := exists_integer_eq value
  have hdumps : dumps (.number value) = integer value := by rw [dumps]
  refine readBack_word (hdumps.trans heq) ?_ ?_
  · have hopens : Opens char := by
      cases hchar with
      | inl hminus => exact Or.inl (by rw [hminus]; decide)
      | inr hdigit => exact Or.inr hdigit
    refine ⟨hopens.not_whitespace.1, ?_⟩
    cases hchar with
    | inl hminus => rw [hminus]; decide
    | inr hdigit =>
      refine ⟨?_, ?_, ?_⟩ <;>
      · rintro rfl
        exact absurd hdigit (by decide)
  · intro rest hstops
    rw [hdumps, Value.converted]
    exact readPlain_integer value hstops

theorem readBack_string (text : List CodePoint) : ReadBack double (.string text) := by
  intro fuel rest hstops hfuel
  obtain ⟨below, rfl⟩ := exists_fuel hfuel
  have hdumps : dumps (.string text) ++ rest =
      '"' :: (text.flatMap quoteCode ++ '"' :: rest) := by
    rw [dumps, quote, List.cons_append, List.append_assoc]
    rfl
  rw [hdumps, readValue, skip_cons (by decide)]
  simp only [if_true, readText_quote, Option.map_some, Value.converted]

end Values

/-! ## Arrays and objects -/

section Nested

variable {ν : Type} {double : ℚ → ν}

theorem stops_dumpsItems (items : List Written) (rest : List Char) :
    Stops (dumpsItems items ++ rest) := by
  cases items with
  | nil => rw [dumpsItems]; exact stops_cons (by decide) _
  | cons item items => rw [dumpsItems]; exact stops_cons (by decide) _

theorem stops_dumpsMembers (members : List (List CodePoint × Written)) (rest : List Char) :
    Stops (dumpsMembers members ++ rest) := by
  cases members with
  | nil => rw [dumpsMembers]; exact stops_cons (by decide) _
  | cons member members => rw [dumpsMembers]; exact stops_cons (by decide) _

theorem length_dumps_pos (value : Written) : 0 < (dumps value).length := by
  obtain ⟨char, tail, heq, -⟩ := exists_dumps_eq value
  rw [heq]
  exact Nat.succ_pos _

/-- The items of an array are read back one by one. -/
theorem readItems_dumps {item : Written} {items : List Written}
    (hitem : ReadBack double item) (hitems : ∀ other ∈ items, ReadBack double other)
    {fuel : ℕ} (rest : List Char)
    (hfuel : 2 * ((dumps item).length + (dumpsItems items).length) ≤ fuel + 1) :
    readItems double fuel (dumps item ++ (dumpsItems items ++ rest)) =
      some (item.converted double :: convertedItems double items, rest) := by
  have hlength := length_dumps_pos item
  induction items generalizing item fuel with
  | nil =>
    rw [dumpsItems, List.length_singleton] at hfuel
    obtain ⟨below, rfl⟩ : ∃ below, fuel = below + 1 := Nat.exists_eq_add_one.mpr (by omega)
    have hread := hitem below (dumpsItems [] ++ rest) (stops_dumpsItems [] rest) (by omega)
    rw [readItems, hread, convertedItems]
    rfl
  | cons next items ih =>
    rw [dumpsItems, List.length_cons, List.length_cons, List.length_append] at hfuel
    have hnext := hitems next List.mem_cons_self
    have hlater : ∀ other ∈ items, ReadBack double other :=
      fun other hother => hitems other (List.mem_cons_of_mem next hother)
    obtain ⟨below, rfl⟩ : ∃ below, fuel = below + 1 := Nat.exists_eq_add_one.mpr (by omega)
    have hread := hitem below (dumpsItems (next :: items) ++ rest)
      (stops_dumpsItems (next :: items) rest) (by omega)
    have htail : readItems double below (dumps next ++ (dumpsItems items ++ rest)) =
        some (next.converted double :: convertedItems double items, rest) :=
      ih hnext hlater (by omega) (length_dumps_pos next)
    have hspaced : readItems double below (' ' :: (dumps next ++ (dumpsItems items ++ rest))) =
        readItems double below (dumps next ++ (dumpsItems items ++ rest)) := by
      cases below with
      | zero => rfl
      | succ below => rw [readItems, readItems, readValue_space]
    rw [readItems, hread]
    simp only [Option.bind_eq_bind, Option.bind_some]
    rw [dumpsItems, List.cons_append, List.cons_append, List.append_assoc,
      skip_cons (by decide)]
    simp only [hspaced, htail, Option.bind_some, Option.pure_def]
    rw [convertedItems]

theorem readBack_array {items : List Written}
    (hitems : ∀ item ∈ items, ReadBack double item) : ReadBack double (.array items) := by
  intro fuel rest hstops hfuel
  obtain ⟨below, rfl⟩ := exists_fuel hfuel
  cases items with
  | nil =>
    rw [dumps, List.cons_append, List.cons_append, List.nil_append, readValue,
      skip_cons (by decide)]
    simp only [if_neg (by decide : ¬ '[' = '"'), if_true,
      skip_cons (by decide : isWhitespace ']' = false), List.head?_cons, List.tail_cons,
      Value.converted, convertedItems]
  | cons item items =>
    rw [dumps, List.length_cons, List.length_append] at hfuel
    have hread : readItems double below (dumps item ++ (dumpsItems items ++ rest)) =
        some (item.converted double :: convertedItems double items, rest) :=
      readItems_dumps (hitems item List.mem_cons_self)
        (fun other hother => hitems other (List.mem_cons_of_mem item hother)) rest (by omega)
    have hopen : (dumps item ++ (dumpsItems items ++ rest)).head? ≠ some ']' := by
      obtain ⟨char, tail, heq, hopens⟩ := exists_dumps_eq item
      rw [heq, List.cons_append, List.head?_cons, ne_eq, Option.some.injEq]
      exact hopens.not_whitespace.2
    rw [dumps, List.cons_append, List.append_assoc, readValue, skip_cons (by decide)]
    simp only [if_neg (by decide : ¬ '[' = '"'), if_true, skip_dumps, if_neg hopen, hread,
      Option.map_some, Value.converted, convertedItems]

/-- The members of an object are read back one by one. -/
theorem readMembers_dumps {name : List CodePoint} {value : Written}
    {members : List (List CodePoint × Written)} (hvalue : ReadBack double value)
    (hmembers : ∀ other ∈ members, ReadBack double other.2) {fuel : ℕ} (rest : List Char)
    (hfuel : 2 * ((dumps value).length + (dumpsMembers members).length) ≤ fuel + 1) :
    readMembers double fuel
        (quote name ++ ':' :: ' ' :: (dumps value ++ (dumpsMembers members ++ rest))) =
      some ((unitsOf name, value.converted double) :: convertedMembers double members,
        rest) := by
  have hlength := length_dumps_pos value
  induction members generalizing name value fuel with
  | nil =>
    rw [dumpsMembers, List.length_singleton] at hfuel
    obtain ⟨below, rfl⟩ : ∃ below, fuel = below + 1 := Nat.exists_eq_add_one.mpr (by omega)
    have hread := hvalue below (dumpsMembers [] ++ rest) (stops_dumpsMembers [] rest)
      (by omega)
    rw [quote, List.cons_append, List.append_assoc, readMembers, skip_cons (by decide)]
    simp only [List.singleton_append, readText_quote, Option.bind_eq_bind, Option.bind_some,
      skip_cons (by decide : isWhitespace ':' = false), readValue_space, hread]
    rw [convertedMembers]
    rfl
  | cons next members ih =>
    obtain ⟨nextName, nextValue⟩ := next
    rw [dumpsMembers, List.length_cons, List.length_cons, List.length_append,
      List.length_cons, List.length_cons, List.length_append] at hfuel
    have hnext : ReadBack double nextValue :=
      hmembers (nextName, nextValue) List.mem_cons_self
    have hlater : ∀ other ∈ members, ReadBack double other.2 :=
      fun other hother => hmembers other (List.mem_cons_of_mem _ hother)
    obtain ⟨below, rfl⟩ : ∃ below, fuel = below + 1 := Nat.exists_eq_add_one.mpr (by omega)
    have hread := hvalue below (dumpsMembers ((nextName, nextValue) :: members) ++ rest)
      (stops_dumpsMembers _ rest) (by omega)
    have htail : readMembers double below (quote nextName ++
        ':' :: ' ' :: (dumps nextValue ++ (dumpsMembers members ++ rest))) =
        some ((unitsOf nextName, nextValue.converted double) ::
          convertedMembers double members, rest) :=
      ih hnext hlater (by omega) (length_dumps_pos nextValue)
    have hspaced : ∀ text : List Char, readMembers double below (' ' :: text) =
        readMembers double below text := by
      intro text
      cases below with
      | zero => rfl
      | succ below => rw [readMembers, readMembers, skip_space]
    rw [quote, List.cons_append, List.append_assoc, readMembers, skip_cons (by decide)]
    simp only [List.singleton_append, readText_quote, Option.bind_eq_bind, Option.bind_some,
      skip_cons (by decide : isWhitespace ':' = false), readValue_space, hread]
    have hdumps : dumpsMembers ((nextName, nextValue) :: members) ++ rest =
        ',' :: ' ' :: (quote nextName ++
          ':' :: ' ' :: (dumps nextValue ++ (dumpsMembers members ++ rest))) := by
      rw [dumpsMembers]
      simp only [List.cons_append, List.append_assoc]
    rw [hdumps, skip_cons (by decide)]
    simp only [hspaced, htail, Option.bind_some, Option.pure_def]
    rw [convertedMembers]

theorem readBack_object {members : List (List CodePoint × Written)}
    (hmembers : ∀ member ∈ members, ReadBack double member.2) :
    ReadBack double (.object members) := by
  intro fuel rest hstops hfuel
  obtain ⟨below, rfl⟩ := exists_fuel hfuel
  cases members with
  | nil =>
    rw [dumps, List.cons_append, List.cons_append, List.nil_append, readValue,
      skip_cons (by decide)]
    simp only [if_neg (by decide : ¬ '\x7b' = '"'),
      if_neg (by decide : ¬ '\x7b' = '['), if_true,
      skip_cons (by decide : isWhitespace '\x7d' = false), List.head?_cons, List.tail_cons,
      Value.converted, convertedMembers]
  | cons member members =>
    obtain ⟨name, value⟩ := member
    rw [dumps, List.length_cons, List.length_append, List.length_cons, List.length_cons,
      List.length_append] at hfuel
    have hvalue : ReadBack double value := hmembers (name, value) List.mem_cons_self
    have hread : readMembers double below
        (quote name ++ ':' :: ' ' :: (dumps value ++ (dumpsMembers members ++ rest))) =
        some ((unitsOf name, value.converted double) :: convertedMembers double members,
          rest) :=
      readMembers_dumps hvalue
        (fun other hother => hmembers other (List.mem_cons_of_mem _ hother)) rest (by omega)
    have hdumps : dumps (.object ((name, value) :: members)) ++ rest =
        '\x7b' :: (quote name ++
          ':' :: ' ' :: (dumps value ++ (dumpsMembers members ++ rest))) := by
      rw [dumps]
      simp only [List.cons_append, List.append_assoc]
    have hskip : skip (quote name ++
        ':' :: ' ' :: (dumps value ++ (dumpsMembers members ++ rest))) =
        quote name ++ ':' :: ' ' :: (dumps value ++ (dumpsMembers members ++ rest)) := by
      rw [quote, List.cons_append, skip_cons (by decide)]
    have hopen : (quote name ++
        ':' :: ' ' :: (dumps value ++ (dumpsMembers members ++ rest))).head? ≠
        some '\x7d' := by
      rw [quote, List.cons_append, List.head?_cons]
      decide
    rw [hdumps, readValue, skip_cons (by decide)]
    simp only [if_neg (by decide : ¬ '\x7b' = '"'),
      if_neg (by decide : ¬ '\x7b' = '['), if_true,
      hskip, if_neg hopen, hread, Option.map_some, Value.converted, convertedMembers]

/-- Every value is read back. -/
theorem readBack (double : ℚ → ν) (value : Written) : ReadBack double value := by
  induction value using Value.induction with
  | null =>
    have hdumps : dumps .null = ['n', 'u', 'l', 'l'] := by rw [dumps]
    refine readBack_word hdumps (by decide) ?_
    intro rest _
    rw [hdumps, readPlain, if_pos (List.prefix_append _ rest), Value.converted]
    rfl
  | bool value =>
    cases value with
    | true =>
      have hdumps : dumps (.bool true) = ['t', 'r', 'u', 'e'] := by rw [dumps]
      refine readBack_word hdumps (by decide) ?_
      intro rest _
      rw [hdumps, readPlain, if_neg (by simp), if_pos (List.prefix_append _ rest),
        Value.converted]
      rfl
    | false =>
      have hdumps : dumps (.bool false) = ['f', 'a', 'l', 's', 'e'] := by rw [dumps]
      refine readBack_word hdumps (by decide) ?_
      intro rest _
      rw [hdumps, readPlain, if_neg (by simp), if_neg (by simp),
        if_pos (List.prefix_append _ rest), Value.converted]
      rfl
  | number value => exact readBack_number value
  | string text => exact readBack_string text
  | array items ih => exact readBack_array ih
  | object members ih => exact readBack_object ih

/-- `JSON.parse` of what `json.dumps` writes is the same value. -/
theorem parse_dumps (double : ℚ → ν) (value : Written) :
    parse double (dumps value) = some (value.converted double) := by
  have hread := readBack double value (2 * (dumps value).length + 2) [] (by
    intro char hchar
    cases hchar) (by omega)
  rw [List.append_nil] at hread
  rw [parse, hread]
  rfl

end Nested

/-! ## The characters of a written text -/

def Printable (char : Char) : Prop :=
  0x20 ≤ char.toNat ∧ char.toNat ≤ 0x7E
  deriving Decidable

theorem printable_hexDigit : ∀ digit < 16, Printable (hexDigit digit) := by
  decide

theorem printable_escapeUnit {unit : ℕ} {char : Char} (hchar : char ∈ escapeUnit unit) :
    Printable char := by
  have hdigit : ∀ digit, Printable (hexDigit (digit % 16)) :=
    fun digit => printable_hexDigit _ (Nat.mod_lt digit (by decide))
  have hall : ∀ char ∈ escapeUnit unit, Printable char := by
    rw [escapeUnit]
    simp only [List.forall_mem_cons, hdigit, List.not_mem_nil, false_implies, implies_true,
      and_true]
    decide
  exact hall char hchar

theorem printable_quote {text : List CodePoint} {char : Char} (hchar : char ∈ quote text) :
    Printable char := by
  have hmarks : ∀ escape ∈ shortEscapes, Printable escape.2 := by decide
  have hcode : ∀ code : CodePoint, ∀ char ∈ quoteCode code, Printable char := by
    intro code char hchar
    rw [quoteCode] at hchar
    cases hlookup : shortEscapes.lookup code.val with
    | some mark =>
      rw [hlookup, List.mem_pair] at hchar
      cases hchar with
      | inl hslash => rw [hslash]; decide
      | inr hmark => exact hmark ▸ hmarks _ (mem_of_lookup hlookup)
    | none =>
      rw [hlookup] at hchar
      simp only at hchar
      split_ifs at hchar with hprintable
      · rw [List.mem_singleton.mp hchar, Printable, toNat_ofNat (by omega)]
        exact hprintable
      · obtain ⟨unit, -, hunit⟩ := List.mem_flatMap.mp hchar
        exact printable_escapeUnit hunit
  rw [quote, List.mem_cons, List.mem_append, List.mem_singleton] at hchar
  rcases hchar with rfl | hinner | rfl
  · decide
  · obtain ⟨code, -, hmem⟩ := List.mem_flatMap.mp hinner
    exact hcode code char hmem
  · decide

theorem printable_integer {value : ℤ} {char : Char} (hchar : char ∈ integer value) :
    Printable char := by
  have hdigit : ∀ char ∈ Nat.toDigits 10 value.natAbs, Printable char := by
    intro char hchar
    have hdigit := isDigit_of_mem_toDigits hchar
    rw [isDigit, Bool.and_eq_true, decide_eq_true_eq, decide_eq_true_eq] at hdigit
    unfold Printable
    omega
  rw [integer] at hchar
  split_ifs at hchar
  · cases hchar with
    | head => decide
    | tail _ hlater => exact hdigit char hlater
  · exact hdigit char hchar

/-- A written text is printable ASCII. -/
theorem printable_dumps (value : Written) : ∀ char ∈ dumps value, Printable char := by
  have hcomma : Printable ',' ∧ Printable ' ' ∧ Printable ':' ∧ Printable '[' ∧
      Printable ']' ∧ Printable '\x7b' ∧ Printable '\x7d' := by
    decide
  obtain ⟨hcomma, hspace, hcolon, hopen, hclose, hbrace, hend⟩ := hcomma
  have happend : ∀ {left right : List Char}, (∀ char ∈ left, Printable char) →
      (∀ char ∈ right, Printable char) → ∀ char ∈ left ++ right, Printable char :=
    fun hleft hright => List.forall_mem_append.mpr ⟨hleft, hright⟩
  have hcons : ∀ {first : Char} {rest : List Char}, Printable first →
      (∀ char ∈ rest, Printable char) → ∀ char ∈ first :: rest, Printable char :=
    fun hfirst hrest => List.forall_mem_cons.mpr ⟨hfirst, hrest⟩
  have hnil : ∀ char ∈ ([] : List Char), Printable char := by simp
  induction value using Value.induction with
  | null => simp [dumps, Printable]
  | bool value => cases value <;> simp [dumps, Printable]
  | number value =>
    rw [dumps]
    exact fun char hchar => printable_integer hchar
  | string text =>
    rw [dumps]
    exact fun char hchar => printable_quote hchar
  | array items ih =>
    have hitems : ∀ items : List Written,
        (∀ item ∈ items, ∀ char ∈ dumps item, Printable char) →
          ∀ char ∈ dumpsItems items, Printable char := by
      intro items hall
      induction items with
      | nil =>
        rw [dumpsItems]
        exact hcons hclose hnil
      | cons item items ihItems =>
        obtain ⟨hitem, hrest⟩ := List.forall_mem_cons.mp hall
        rw [dumpsItems]
        exact hcons hcomma (hcons hspace (happend hitem (ihItems hrest)))
    cases items with
    | nil =>
      rw [dumps]
      exact hcons hopen (hcons hclose hnil)
    | cons item items =>
      obtain ⟨hitem, hrest⟩ := List.forall_mem_cons.mp ih
      rw [dumps]
      exact hcons hopen (happend hitem (hitems items hrest))
  | object members ih =>
    have hname : ∀ name, ∀ char ∈ quote name, Printable char :=
      fun name char hchar => printable_quote hchar
    have hmembers : ∀ members : List (List CodePoint × Written),
        (∀ member ∈ members, ∀ char ∈ dumps member.2, Printable char) →
          ∀ char ∈ dumpsMembers members, Printable char := by
      intro members hall
      induction members with
      | nil =>
        rw [dumpsMembers]
        exact hcons hend hnil
      | cons member members ihMembers =>
        obtain ⟨name, value⟩ := member
        obtain ⟨hvalue, hrest⟩ := List.forall_mem_cons.mp hall
        rw [dumpsMembers]
        exact hcons hcomma (hcons hspace (happend (hname name)
          (hcons hcolon (hcons hspace (happend hvalue (ihMembers hrest))))))
    cases members with
    | nil =>
      rw [dumps]
      exact hcons hbrace (hcons hend hnil)
    | cons member members =>
      obtain ⟨name, value⟩ := member
      obtain ⟨hvalue, hrest⟩ := List.forall_mem_cons.mp ih
      rw [dumps]
      exact hcons hbrace (happend (hname name)
        (hcons hcolon (hcons hspace (happend hvalue (hmembers members hrest)))))

/-- An object starts with its brace and ends with it. -/
theorem exists_dumps_object (members : List (List CodePoint × Written)) :
    ∃ inner, dumps (.object members) = '\x7b' :: (inner ++ ['\x7d']) := by
  have hmembers : ∀ members : List (List CodePoint × Written),
      ∃ inner, dumpsMembers members = inner ++ ['\x7d'] := by
    intro members
    induction members with
    | nil => exact ⟨[], by rw [dumpsMembers]; rfl⟩
    | cons member members ih =>
      obtain ⟨name, value⟩ := member
      obtain ⟨inner, hinner⟩ := ih
      refine ⟨',' :: ' ' :: (quote name ++ ':' :: ' ' :: (dumps value ++ inner)), ?_⟩
      rw [dumpsMembers, hinner]
      simp only [List.cons_append, List.append_assoc]
  cases members with
  | nil => exact ⟨[], by rw [dumps]; rfl⟩
  | cons member members =>
    obtain ⟨name, value⟩ := member
    obtain ⟨inner, hinner⟩ := hmembers members
    refine ⟨quote name ++ ':' :: ' ' :: (dumps value ++ inner), ?_⟩
    rw [dumps, hinner]
    simp only [List.cons_append, List.append_assoc]

end AgenticRag.Json
