import Mathlib.Data.List.Basic
import Mathlib.Data.Nat.Basic

/-!
# Text codecs over byte strings

UTF-8 is Lean's own.  UTF-16 reads two bytes as one unit, the byte order taken from a
leading mark and little-endian without one, and joins a high surrogate with the low one
behind it.  Latin-1 has one byte for each character.
-/

namespace AgenticRag.Codecs

def encodeUtf8 (text : List Char) : List UInt8 :=
  text.flatMap String.utf8EncodeChar

def decodeUtf8 (data : List UInt8) : Option (List Char) :=
  data.toByteArray.utf8Decode?.map Array.toList

inductive ByteOrder where
  | little
  | big
  deriving DecidableEq

def unitOf (order : ByteOrder) (first second : UInt8) : ℕ :=
  match order with
  | .little => first.toNat + 256 * second.toNat
  | .big => 256 * first.toNat + second.toNat

def bytesOf (order : ByteOrder) (unit : ℕ) : List UInt8 :=
  match order with
  | .little => [UInt8.ofNat unit, UInt8.ofNat (unit / 256)]
  | .big => [UInt8.ofNat (unit / 256), UInt8.ofNat unit]

/-- The units of the byte pairs; an odd last byte belongs to none. -/
def unitsOf (order : ByteOrder) : List UInt8 → List ℕ
  | first :: second :: rest => unitOf order first second :: unitsOf order rest
  | _ => []

def IsHigh (unit : ℕ) : Prop :=
  0xD800 ≤ unit ∧ unit < 0xDC00
  deriving Decidable

def IsLow (unit : ℕ) : Prop :=
  0xDC00 ≤ unit ∧ unit < 0xE000
  deriving Decidable

/-- The code point of a surrogate pair. -/
def joinPair (high low : ℕ) : ℕ :=
  0x10000 + (high - 0xD800) * 0x400 + (low - 0xDC00)

def decodeUnits : List ℕ → Option (List Char)
  | [] => some []
  | unit :: rest =>
      if IsHigh unit then
        match rest with
        | low :: rest =>
            if IsLow low then
              (decodeUnits rest).map fun text => Char.ofNat (joinPair unit low) :: text
            else none
        | [] => none
      else if IsLow unit then none
      else (decodeUnits rest).map fun text => Char.ofNat unit :: text

def unitsOfChar (char : Char) : List ℕ :=
  if char.toNat < 0x10000 then [char.toNat]
  else
    [0xD800 + (char.toNat - 0x10000) / 0x400, 0xDC00 + (char.toNat - 0x10000) % 0x400]

/-- The byte order a leading mark announces, and the bytes behind the mark. -/
def splitMark (data : List UInt8) : ByteOrder × List UInt8 :=
  if data.take 2 = [0xFF, 0xFE] then (.little, data.drop 2)
  else if data.take 2 = [0xFE, 0xFF] then (.big, data.drop 2)
  else (.little, data)

def unitsBehindMark (data : List UInt8) : List ℕ :=
  unitsOf (splitMark data).1 (splitMark data).2

def decodeUtf16 (data : List UInt8) : Option (List Char) :=
  if data.length % 2 = 1 then none else decodeUnits (unitsBehindMark data)

def encodeUtf16 (order : ByteOrder) (text : List Char) : List UInt8 :=
  (0xFEFF :: text.flatMap unitsOfChar).flatMap (bytesOf order)

def decodeLatin1 (data : List UInt8) : List Char :=
  data.map fun byte => Char.ofNat byte.toNat

/-- Only the first 256 characters have a byte. -/
def encodeLatin1 (text : List Char) : Option (List UInt8) :=
  text.mapM fun char => if char.toNat < 256 then some (UInt8.ofNat char.toNat) else none

/-- Every surrogate stands in a pair. -/
inductive Paired : List ℕ → Prop where
  | nil : Paired []
  | plain {unit : ℕ} {rest : List ℕ} (hhigh : ¬ IsHigh unit) (hlow : ¬ IsLow unit)
      (hrest : Paired rest) : Paired (unit :: rest)
  | pair {high low : ℕ} {rest : List ℕ} (hhigh : IsHigh high) (hlow : IsLow low)
      (hrest : Paired rest) : Paired (high :: low :: rest)

theorem decodeUtf8_encodeUtf8 (text : List Char) : decodeUtf8 (encodeUtf8 text) = some text := by
  have hencode : (encodeUtf8 text).toByteArray = text.utf8Encode := rfl
  rw [decodeUtf8, hencode, List.utf8Decode?_utf8Encode]
  simp

/-- What UTF-8 decodes is an encoding. -/
theorem exists_encodeUtf8 {data : List UInt8} {text : List Char}
    (hdecode : decodeUtf8 data = some text) : ∃ text, data = encodeUtf8 text := by
  have hsome : data.toByteArray.utf8Decode?.isSome := by
    cases hcase : data.toByteArray.utf8Decode? with
    | none => simp [decodeUtf8, hcase] at hdecode
    | some chars => rfl
  obtain ⟨chars, hchars⟩ := ByteArray.isSome_utf8Decode?_iff.mp hsome
  refine ⟨chars, ?_⟩
  have hbytes := congrArg (fun bytes : ByteArray => bytes.data.toList) hchars
  simpa [List.utf8Encode, encodeUtf8] using hbytes

/-- The first byte of a character announces at most four bytes. -/
theorem head_utf8EncodeChar (char : Char) {first : UInt8} {rest : List UInt8}
    (hbytes : String.utf8EncodeChar char = first :: rest) : first.toNat < 0xF8 := by
  rw [String.utf8EncodeChar] at hbytes
  split_ifs at hbytes with hone htwo hthree
  all_goals
    obtain ⟨rfl, -⟩ := List.cons.inj hbytes
    rw [UInt8.toNat_ofNat']
    omega

theorem decodeUtf8_eq_none {first : UInt8} (hfirst : 0xF8 ≤ first.toNat) (rest : List UInt8) :
    decodeUtf8 (first :: rest) = none := by
  cases hdecode : decodeUtf8 (first :: rest) with
  | none => rfl
  | some text =>
      obtain ⟨chars, hchars⟩ := exists_encodeUtf8 hdecode
      cases chars with
      | nil => simp [encodeUtf8] at hchars
      | cons char chars =>
          cases hbytes : String.utf8EncodeChar char with
          | nil => exact absurd hbytes String.utf8EncodeChar_ne_nil
          | cons byte bytes =>
              rw [encodeUtf8, List.flatMap_cons, hbytes, List.cons_append] at hchars
              have hbyte := head_utf8EncodeChar char hbytes
              rw [← (List.cons.inj hchars).1] at hbyte
              omega

section Utf16

theorem unitsOf_bytesOf (order : ByteOrder) {unit : ℕ} (hunit : unit < 0x10000)
    (rest : List UInt8) :
    unitsOf order (bytesOf order unit ++ rest) = unit :: unitsOf order rest := by
  cases order with
  | little =>
      simp only [bytesOf, List.cons_append, List.nil_append, unitsOf, unitOf,
        UInt8.toNat_ofNat', List.cons.injEq, and_true]
      omega
  | big =>
      simp only [bytesOf, List.cons_append, List.nil_append, unitsOf, unitOf,
        UInt8.toNat_ofNat', List.cons.injEq, and_true]
      omega

theorem unitsOf_flatMap_bytesOf (order : ByteOrder) {units : List ℕ}
    (hunits : ∀ unit ∈ units, unit < 0x10000) :
    unitsOf order (units.flatMap (bytesOf order)) = units := by
  induction units with
  | nil => rfl
  | cons unit units ih =>
      rw [List.flatMap_cons, unitsOf_bytesOf order (hunits unit List.mem_cons_self),
        ih fun other hother => hunits other (List.mem_cons_of_mem unit hother)]

theorem length_flatMap_bytesOf (order : ByteOrder) (units : List ℕ) :
    (units.flatMap (bytesOf order)).length = 2 * units.length := by
  induction units with
  | nil => rfl
  | cons unit units ih =>
      rw [List.flatMap_cons, List.length_append, ih, List.length_cons]
      cases order with
      | little => simp only [bytesOf, List.length_cons, List.length_nil]; omega
      | big => simp only [bytesOf, List.length_cons, List.length_nil]; omega

theorem length_unitsOf (order : ByteOrder) (data : List UInt8) :
    2 * (unitsOf order data).length ≤ data.length := by
  fun_induction unitsOf order data with
  | case1 first second rest ih =>
      simp only [List.length_cons]
      omega
  | case2 data hshort => simp

theorem toNat_char_lt (char : Char) :
    char.toNat < 0xD800 ∨ 0xE000 ≤ char.toNat ∧ char.toNat < 0x110000 := by
  have hvalid := char.valid
  simp only [UInt32.isValidChar, Nat.isValidChar] at hvalid
  have hnat : char.toNat = char.val.toNat := rfl
  omega

theorem unitsOfChar_lt {char : Char} {unit : ℕ} (hunit : unit ∈ unitsOfChar char) :
    unit < 0x10000 := by
  have hrange := toNat_char_lt char
  rw [unitsOfChar] at hunit
  split_ifs at hunit with hbasic
  · rw [List.mem_singleton] at hunit
    omega
  · simp only [List.mem_cons, List.not_mem_nil, or_false] at hunit
    omega

theorem decodeUnits_plain {unit : ℕ} (hhigh : ¬ IsHigh unit) (hlow : ¬ IsLow unit)
    (rest : List ℕ) :
    decodeUnits (unit :: rest) =
      (decodeUnits rest).map fun text => Char.ofNat unit :: text := by
  conv_lhs => unfold decodeUnits
  rw [if_neg hhigh, if_neg hlow]

theorem decodeUnits_pair {high low : ℕ} (hhigh : IsHigh high) (hlow : IsLow low)
    (rest : List ℕ) :
    decodeUnits (high :: low :: rest) =
      (decodeUnits rest).map fun text => Char.ofNat (joinPair high low) :: text := by
  conv_lhs => unfold decodeUnits
  rw [if_pos hhigh]
  exact if_pos hlow

theorem joinPair_eq {code high low : ℕ} (hcode : 0x10000 ≤ code)
    (hhigh : high = 0xD800 + (code - 0x10000) / 0x400)
    (hlow : low = 0xDC00 + (code - 0x10000) % 0x400) : joinPair high low = code := by
  have hjoin : joinPair high low = 0x10000 + (high - 0xD800) * 0x400 + (low - 0xDC00) := rfl
  omega

/-- The units of one character decode to it, whatever stands behind them. -/
theorem decodeUnits_unitsOfChar (char : Char) (rest : List ℕ) :
    decodeUnits (unitsOfChar char ++ rest) =
      (decodeUnits rest).map fun text => char :: text := by
  have hrange := toNat_char_lt char
  rw [unitsOfChar]
  split_ifs with hbasic
  · have hhigh : ¬ IsHigh char.toNat := by simp only [IsHigh]; omega
    have hlow : ¬ IsLow char.toNat := by simp only [IsLow]; omega
    rw [List.singleton_append, decodeUnits_plain hhigh hlow, Char.ofNat_toNat]
  · have hhigh : IsHigh (0xD800 + (char.toNat - 0x10000) / 0x400) := by
      simp only [IsHigh]
      omega
    have hlow : IsLow (0xDC00 + (char.toNat - 0x10000) % 0x400) := by
      simp only [IsLow]
      omega
    rw [List.cons_append, List.cons_append, List.nil_append, decodeUnits_pair hhigh hlow,
      joinPair_eq (by omega) rfl rfl, Char.ofNat_toNat]

theorem decodeUnits_flatMap (text : List Char) :
    decodeUnits (text.flatMap unitsOfChar) = some text := by
  induction text with
  | nil => rfl
  | cons char text ih =>
      rw [List.flatMap_cons, decodeUnits_unitsOfChar, ih]
      rfl

theorem encodeUtf16_eq (order : ByteOrder) (text : List Char) :
    encodeUtf16 order text =
      bytesOf order 0xFEFF ++ (text.flatMap unitsOfChar).flatMap (bytesOf order) := by
  rw [encodeUtf16, List.flatMap_cons]

theorem unitsBehindMark_encodeUtf16 (order : ByteOrder) (text : List Char) :
    unitsBehindMark (encodeUtf16 order text) = text.flatMap unitsOfChar := by
  have hmark : splitMark (encodeUtf16 order text) =
      (order, (text.flatMap unitsOfChar).flatMap (bytesOf order)) := by
    rw [encodeUtf16_eq]
    cases order with
    | little => rfl
    | big => rfl
  rw [unitsBehindMark, hmark]
  apply unitsOf_flatMap_bytesOf
  intro unit hunit
  obtain ⟨char, -, hchar⟩ := List.mem_flatMap.mp hunit
  exact unitsOfChar_lt hchar

theorem decodeUtf16_encodeUtf16 (order : ByteOrder) (text : List Char) :
    decodeUtf16 (encodeUtf16 order text) = some text := by
  have heven : (encodeUtf16 order text).length % 2 ≠ 1 := by
    rw [encodeUtf16, length_flatMap_bytesOf]
    omega
  rw [decodeUtf16, if_neg heven, unitsBehindMark_encodeUtf16, decodeUnits_flatMap]

/-- A byte-order mark starts no UTF-8 text. -/
theorem decodeUtf8_encodeUtf16 (order : ByteOrder) (text : List Char) :
    decodeUtf8 (encodeUtf16 order text) = none := by
  rw [encodeUtf16_eq]
  cases order with
  | little => exact decodeUtf8_eq_none (by decide) _
  | big => exact decodeUtf8_eq_none (by decide) _

theorem decodeUnits_isSome_iff (units : List ℕ) :
    (decodeUnits units).isSome = true ↔ Paired units := by
  fun_induction decodeUnits units with
  | case1 => simpa using Paired.nil
  | case2 high hhigh low rest hlow ih =>
      rw [Option.isSome_map, ih]
      constructor
      · exact Paired.pair hhigh hlow
      · intro hpaired
        cases hpaired with
        | plain hnothigh => exact absurd hhigh hnothigh
        | pair _ _ hrest => exact hrest
  | case3 high hhigh low rest hlow =>
      simp only [Option.isSome_none, Bool.false_eq_true, false_iff]
      intro hpaired
      cases hpaired with
      | plain hnothigh => exact hnothigh hhigh
      | pair _ hpartner => exact hlow hpartner
  | case4 high hhigh =>
      simp only [Option.isSome_none, Bool.false_eq_true, false_iff]
      intro hpaired
      cases hpaired with
      | plain hnothigh => exact hnothigh hhigh
  | case5 low rest hhigh hlow =>
      simp only [Option.isSome_none, Bool.false_eq_true, false_iff]
      intro hpaired
      cases hpaired with
      | plain _ hnotlow => exact hnotlow hlow
      | pair hpartner => exact hhigh hpartner
  | case6 unit rest hhigh hlow ih =>
      rw [Option.isSome_map, ih]
      constructor
      · exact Paired.plain hhigh hlow
      · intro hpaired
        cases hpaired with
        | plain _ _ hrest => exact hrest
        | pair hpartner => exact absurd hpartner hhigh

theorem length_decodeUnits {units : List ℕ} {text : List Char}
    (hdecode : decodeUnits units = some text) : text.length ≤ units.length := by
  fun_induction decodeUnits units generalizing text with
  | case1 => simp [← Option.some.inj hdecode]
  | case2 high hhigh low rest hlow ih =>
      obtain ⟨behind, hbehind, rfl⟩ := Option.map_eq_some_iff.mp hdecode
      have hle := ih hbehind
      simp only [List.length_cons]
      omega
  | case3 | case4 | case5 => simp at hdecode
  | case6 unit rest hhigh hlow ih =>
      obtain ⟨behind, hbehind, rfl⟩ := Option.map_eq_some_iff.mp hdecode
      have hle := ih hbehind
      simp only [List.length_cons]
      omega

/-- What UTF-16 decodes is at most half as long as its bytes. -/
theorem length_decodeUtf16 {data : List UInt8} {text : List Char}
    (hdecode : decodeUtf16 data = some text) : 2 * text.length ≤ data.length := by
  rw [decodeUtf16] at hdecode
  split_ifs at hdecode with hodd
  have hunits := length_decodeUnits hdecode
  have hbytes := length_unitsOf (splitMark data).1 (splitMark data).2
  have hmark : (splitMark data).2.length ≤ data.length := by
    rw [splitMark]
    split_ifs
    · simp
    · simp
    · exact le_rfl
  rw [unitsBehindMark] at hunits
  omega

theorem decodeUtf16_eq_none_iff (data : List UInt8) :
    decodeUtf16 data = none ↔ data.length % 2 = 1 ∨ ¬ Paired (unitsBehindMark data) := by
  rw [decodeUtf16, ← decodeUnits_isSome_iff]
  split_ifs with hodd
  · simp [hodd]
  · simp [hodd]

end Utf16

theorem length_decodeLatin1 (data : List UInt8) : (decodeLatin1 data).length = data.length :=
  List.length_map _

theorem decodeLatin1_encodeLatin1 {text : List Char} {data : List UInt8}
    (hencode : encodeLatin1 text = some data) : decodeLatin1 data = text := by
  induction text generalizing data with
  | nil =>
      rw [encodeLatin1, List.mapM_nil] at hencode
      cases hencode
      rfl
  | cons char text ih =>
      rw [encodeLatin1, List.mapM_cons] at hencode
      simp only [Option.bind_eq_bind, Option.bind_eq_some_iff, Option.ite_none_right_eq_some] at hencode
      obtain ⟨byte, ⟨hbyte, hvalue⟩, bytes, hbytes, hdata⟩ := hencode
      cases hvalue
      cases hdata
      rw [decodeLatin1, List.map_cons, ← decodeLatin1, ih hbytes, UInt8.toNat_ofNat',
        Nat.mod_eq_of_lt hbyte, Char.ofNat_toNat]

end AgenticRag.Codecs
