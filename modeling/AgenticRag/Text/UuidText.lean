import AgenticRag.Graph.Citations

/-!
# Identifiers read from text

`uuid.UUID(text)`, which accepts more than `str` writes: prefixes, braces, hyphens anywhere
and whatever `int(text, 16)` reads in 32 characters.
-/

namespace AgenticRag.Uuid

open AgenticRag.Citations (digitValue)
open AgenticRag.PyString

/-- `text.replace(part, "")`; `skip` characters of a match are still to come. -/
def withoutPart (part : List Char) : ℕ → List Char → List Char
  | _, [] => []
  | skip + 1, _ :: rest => withoutPart part skip rest
  | 0, char :: rest =>
      if part <+: char :: rest then withoutPart part (part.length - 1) rest
      else char :: withoutPart part 0 rest

def hexValue (char : Char) : Option ℕ :=
  match digitValue char with
  | some digit => some digit
  | none =>
      let code := char.toNat
      if 97 ≤ code ∧ code ≤ 102 then some (code - 87)
      else if 65 ≤ code ∧ code ≤ 70 then some (code - 55)
      else none

/-- The digits behind a value, with single underscores between them; `awaiting` when a
digit has to come. -/
def readDigits (value : ℕ) (awaiting : Bool) : List Char → Option ℕ
  | [] => if awaiting then none else some value
  | char :: rest =>
      match hexValue char with
      | some digit => readDigits (16 * value + digit) false rest
      | none => if char = '_' ∧ awaiting = false then readDigits value true rest else none

/-- A number with or without `0x`; behind it one underscore is allowed. -/
def readUnsigned (text : List Char) : Option ℕ :=
  match text with
  | zero :: mark :: rest =>
      if digitValue zero = some 0 ∧ (mark = 'x' ∨ mark = 'X') then
        readDigits 0 true (if rest.head? = some '_' then rest.tail else rest)
      else readDigits 0 true text
  | _ => readDigits 0 true text

/-- The characters `int` skips at both ends; of ASCII these are the blanks of C. -/
def isIntSpace (char : Char) : Bool :=
  isSpace char && !(28 ≤ char.toNat && char.toNat ≤ 31)

/-- `int(text, 16)` -/
def parseHex (text : List Char) : Option ℤ :=
  match stripWhere isIntSpace text with
  | [] => none
  | first :: rest =>
      if first = '-' then (readUnsigned rest).map fun value => -(value : ℤ)
      else if first = '+' then (readUnsigned rest).map Int.ofNat
      else (readUnsigned (first :: rest)).map Int.ofNat

def isBrace (char : Char) : Bool :=
  char == '\x7b' || char == '\x7d'

/-- `uuid.UUID(text)`; `none` for a `ValueError`. -/
def parse (text : String) : Option Uuid :=
  let bare := withoutPart "uuid:".toList 0 (withoutPart "urn:".toList 0 text.toList)
  let hex := (stripWhere isBrace bare).filter (· ≠ '-')
  if hex.length ≠ 32 then none
  else
    match parseHex hex with
    | some (.ofNat value) => if value < 2 ^ 128 then some ⟨BitVec.ofNat 128 value⟩ else none
    | _ => none

/-! ## What `str` writes -/

theorem hexValue_hexDigit : ∀ digit < 16, hexValue (hexDigit digit) = some digit := by
  decide

/-- No digit is one of the characters the reader takes away or treats apart. -/
theorem hexDigit_plain : ∀ digit < 16, isIntSpace (hexDigit digit) = false ∧
    isBrace (hexDigit digit) = false ∧ hexDigit digit ≠ 'u' ∧ hexDigit digit ≠ 'x' ∧
      hexDigit digit ≠ 'X' ∧ hexDigit digit ≠ '-' ∧ hexDigit digit ≠ '+' := by
  decide

theorem exists_hexDigit {width value : ℕ} {char : Char} (hchar : char ∈ hexDigits width value) :
    ∃ digit < 16, char = hexDigit digit := by
  induction width generalizing value with
  | zero => cases hchar
  | succ width ih =>
    cases List.mem_append.mp hchar with
    | inl hinit => exact ih hinit
    | inr hlast => exact ⟨value % 16, Nat.mod_lt _ (by decide), List.mem_singleton.mp hlast⟩

theorem length_hexDigits (width value : ℕ) : (hexDigits width value).length = width := by
  induction width generalizing value with
  | zero => rfl
  | succ width ih => rw [hexDigits, List.length_append, ih]; rfl

theorem readDigits_hexDigits (width value before : ℕ) (awaiting : Bool) (rest : List Char) :
    readDigits before awaiting (hexDigits (width + 1) value ++ rest) =
      readDigits (16 ^ (width + 1) * before + value % 16 ^ (width + 1)) false rest := by
  induction width generalizing value before awaiting rest with
  | zero =>
    have hdigit := hexValue_hexDigit (value % 16) (Nat.mod_lt _ (by decide))
    simp [hexDigits, readDigits, hdigit]
  | succ width ih =>
    have hdigit := hexValue_hexDigit (value % 16) (Nat.mod_lt _ (by decide))
    have hvalue : 16 * (16 ^ (width + 1) * before + value / 16 % 16 ^ (width + 1)) +
        value % 16 = 16 ^ (width + 1 + 1) * before + value % 16 ^ (width + 1 + 1) := by
      rw [pow_succ' 16 (width + 1), Nat.mod_mul]
      ring
    rw [hexDigits, List.append_assoc, ih, List.singleton_append, readDigits, hdigit]
    exact congrArg (readDigits · false rest) hvalue

theorem withoutPart_eq_self {first : Char} {part text : List Char} (hfirst : first ∉ text) :
    withoutPart (first :: part) 0 text = text := by
  induction text with
  | nil => rfl
  | cons char text ih =>
    rw [List.mem_cons, not_or] at hfirst
    have hno : ¬ first :: part <+: char :: text :=
      fun hfront => hfirst.1 (List.cons_prefix_cons.mp hfront).1
    rw [withoutPart, if_neg hno, ih hfirst.2]

theorem mem_str {id : Uuid} {char : Char} (hchar : char ∈ id.str.toList) :
    char = '-' ∨ ∃ digit < 16, char = hexDigit digit := by
  by_cases hhyphen : char = '-'
  · exact .inl hhyphen
  · have hhex : char ∈ id.hex := by
      rw [← str_filter]
      exact List.mem_filter.mpr ⟨hchar, decide_eq_true hhyphen⟩
    exact .inr (exists_hexDigit hhex)

theorem parseHex_hex (id : Uuid) : parseHex id.hex = some (Int.ofNat id.val.toNat) := by
  have hplain : ∀ char ∈ id.hex, ∃ digit < 16, char = hexDigit digit :=
    fun char hchar => exists_hexDigit hchar
  have hstrip : stripWhere isIntSpace id.hex = id.hex := by
    apply stripWhere_of_forall
    intro char hchar
    obtain ⟨digit, hdigit, rfl⟩ := hplain char hchar
    exact (hexDigit_plain digit hdigit).1
  have hread : readDigits 0 true id.hex = some id.val.toNat := by
    have hall := readDigits_hexDigits 31 id.val.toNat 0 true []
    have hless : id.val.toNat < 16 ^ (31 + 1) := id.val.isLt
    rw [List.append_nil, Nat.mul_zero, Nat.zero_add, Nat.mod_eq_of_lt hless] at hall
    exact hall
  have hlength : id.hex.length = 32 := length_hexDigits 32 id.val.toNat
  obtain ⟨first, behind, hhead⟩ := List.exists_cons_of_length_eq_add_one hlength
  have hbehind : behind.length = 31 := by simpa [hhead] using hlength
  obtain ⟨second, rest, htail⟩ := List.exists_cons_of_length_eq_add_one hbehind
  have hhex : id.hex = first :: second :: rest := by rw [hhead, htail]
  rw [hhex] at hplain hread
  obtain ⟨digit, hdigit, hfirst⟩ := hplain first List.mem_cons_self
  obtain ⟨other, hother, hsecond⟩ := hplain second (List.mem_cons_of_mem first List.mem_cons_self)
  obtain ⟨-, -, -, -, -, hminus, hplus⟩ := hexDigit_plain digit hdigit
  obtain ⟨-, -, -, hlower, hupper, -, -⟩ := hexDigit_plain other hother
  have hunsigned : readUnsigned (first :: second :: rest) = some id.val.toNat := by
    rw [readUnsigned, if_neg, hread]
    rintro ⟨-, hmark⟩
    exact hmark.elim (hsecond ▸ hlower) (hsecond ▸ hupper)
  rw [parseHex, hstrip, hhex]
  simp only [if_neg (hfirst ▸ hminus), if_neg (hfirst ▸ hplus), hunsigned, Option.map_some]

/-- An identifier is read back from its text. -/
theorem parse_str (id : Uuid) : parse id.str = some id := by
  have hfree : 'u' ∉ id.str.toList := by
    intro hmem
    cases mem_str hmem with
    | inl hhyphen => exact absurd hhyphen (by decide)
    | inr hhex =>
      obtain ⟨digit, hdigit, heq⟩ := hhex
      exact (hexDigit_plain digit hdigit).2.2.1 heq.symm
  have hbare : withoutPart "uuid:".toList 0 (withoutPart "urn:".toList 0 id.str.toList) =
      id.str.toList :=
    (congrArg (withoutPart "uuid:".toList 0) (withoutPart_eq_self hfree)).trans
      (withoutPart_eq_self hfree)
  have hbraces : stripWhere isBrace id.str.toList = id.str.toList := by
    apply stripWhere_of_forall
    intro char hchar
    cases mem_str hchar with
    | inl hhyphen => rw [hhyphen]; rfl
    | inr hhex =>
      obtain ⟨digit, hdigit, rfl⟩ := hhex
      exact (hexDigit_plain digit hdigit).2.1
  have hlength : id.hex.length = 32 := length_hexDigits 32 id.val.toNat
  have hvalue : id.val.toNat < 2 ^ 128 := id.val.isLt
  simp only [parse, hbare, hbraces, str_filter, hlength, parseHex_hex, ne_eq,
    not_true_eq_false, if_false, if_pos hvalue, BitVec.ofNat_toNat, BitVec.setWidth_eq]

end AgenticRag.Uuid
