import AgenticRag.Text.Codecs
import Mathlib.Data.Rat.Init
import Mathlib.Algebra.Order.Field.Rat

/-!
# JSON between two languages

Texts of the writer are lists of code points, surrogates included, and its numbers are
integers; it escapes everything outside of printable ASCII.  Texts of the reader are lists
of UTF-16 units, and the double that stands for a number is a parameter.  What is written
is read back as the same value with its texts and numbers converted.
-/

namespace AgenticRag.Json

/-- A value with texts of one type and numbers of another.  An object is the list of its
members, of which the last one of a name counts. -/
inductive Value (σ ν : Type) where
  | null
  | bool (value : Bool)
  | number (value : ν)
  | string (text : σ)
  | array (items : List (Value σ ν))
  | object (members : List (σ × Value σ ν))

abbrev CodePoint := Fin 0x110000

/-- What is written. -/
abbrev Written := Value (List CodePoint) ℤ

/-- What is read, with doubles of type `ν`. -/
abbrev Read (ν : Type) := Value (List ℕ) ν

def unitsOfCode (code : CodePoint) : List ℕ :=
  if code.val < 0x10000 then [code.val]
  else
    [0xD800 + (code.val - 0x10000) / 0x400, 0xDC00 + (code.val - 0x10000) % 0x400]

def unitsOf (text : List CodePoint) : List ℕ :=
  text.flatMap unitsOfCode

section Converted

variable {ν : Type} (double : ℚ → ν)

mutual

/-- The value in the types of the reader. -/
def Value.converted : Written → Read ν
  | .null => .null
  | .bool value => .bool value
  | .number value => .number (double value)
  | .string text => .string (unitsOf text)
  | .array items => .array (convertedItems items)
  | .object members => .object (convertedMembers members)

def convertedItems : List Written → List (Read ν)
  | [] => []
  | item :: rest => item.converted :: convertedItems rest

def convertedMembers : List (List CodePoint × Written) → List (List ℕ × Read ν)
  | [] => []
  | (name, value) :: rest =>
      (unitsOf name, value.converted) :: convertedMembers rest

end

end Converted

/-! ## Writing -/

def hexDigit (digit : ℕ) : Char :=
  if digit < 10 then Char.ofNat (48 + digit) else Char.ofNat (87 + digit)

/-- `\uXXXX` -/
def escapeUnit (unit : ℕ) : List Char :=
  ['\\', 'u', hexDigit (unit / 0x1000 % 16), hexDigit (unit / 0x100 % 16),
    hexDigit (unit / 0x10 % 16), hexDigit (unit % 16)]

/-- The code points with an escape of their own. -/
def shortEscapes : List (ℕ × Char) :=
  [(0x22, '"'), (0x5C, '\\'), (0x0A, 'n'), (0x0D, 'r'), (0x09, 't'), (0x0C, 'f'),
    (0x08, 'b')]

def quoteCode (code : CodePoint) : List Char :=
  match shortEscapes.lookup code.val with
  | some mark => ['\\', mark]
  | none =>
      if 0x20 ≤ code.val ∧ code.val ≤ 0x7E then [Char.ofNat code.val]
      else (unitsOfCode code).flatMap escapeUnit

def quote (text : List CodePoint) : List Char :=
  '"' :: (text.flatMap quoteCode ++ ['"'])

def integer (value : ℤ) : List Char :=
  if value < 0 then '-' :: Nat.toDigits 10 value.natAbs else Nat.toDigits 10 value.natAbs

mutual

/-- `json.dumps` -/
def dumps : Written → List Char
  | .null => ['n', 'u', 'l', 'l']
  | .bool true => ['t', 'r', 'u', 'e']
  | .bool false => ['f', 'a', 'l', 's', 'e']
  | .number value => integer value
  | .string text => quote text
  | .array [] => ['[', ']']
  | .array (item :: rest) => '[' :: (dumps item ++ dumpsItems rest)
  | .object [] => ['\x7b', '\x7d']
  | .object ((name, value) :: rest) =>
      '\x7b' :: (quote name ++ ':' :: ' ' :: (dumps value ++ dumpsMembers rest))

/-- The items behind the first one, and the bracket. -/
def dumpsItems : List Written → List Char
  | [] => [']']
  | item :: rest => ',' :: ' ' :: (dumps item ++ dumpsItems rest)

/-- The members behind the first one, and the brace. -/
def dumpsMembers : List (List CodePoint × Written) → List Char
  | [] => ['\x7d']
  | (name, value) :: rest =>
      ',' :: ' ' :: (quote name ++ ':' :: ' ' :: (dumps value ++ dumpsMembers rest))

end

/-! ## Reading -/

def isWhitespace (char : Char) : Bool :=
  char == ' ' || char == '\t' || char == '\n' || char == '\r'

def skip (text : List Char) : List Char :=
  text.dropWhile isWhitespace

def hexValue (char : Char) : Option ℕ :=
  let code := char.toNat
  if 48 ≤ code ∧ code ≤ 57 then some (code - 48)
  else if 97 ≤ code ∧ code ≤ 102 then some (code - 87)
  else if 65 ≤ code ∧ code ≤ 70 then some (code - 55)
  else none

/-- The unit of four hexadecimal digits. -/
def readHex (first second third fourth : Char) : Option ℕ := do
  let first ← hexValue first
  let second ← hexValue second
  let third ← hexValue third
  let fourth ← hexValue fourth
  return first * 0x1000 + second * 0x100 + third * 0x10 + fourth

/-- The marks behind a backslash other than `u`. -/
def escapes : List (Char × ℕ) :=
  [('"', 0x22), ('\\', 0x5C), ('/', 0x2F), ('b', 0x08), ('f', 0x0C), ('n', 0x0A),
    ('r', 0x0D), ('t', 0x09)]

/-- Units in front of a text that has been read. -/
def prepend {α : Type} (units : List ℕ) : Option (List ℕ × α) → Option (List ℕ × α) :=
  Option.map fun result => (units ++ result.1, result.2)

/-- The rest of a text behind its opening quote. -/
def readText : List Char → Option (List ℕ × List Char)
  | [] => none
  | char :: rest =>
      if char = '"' then some ([], rest)
      else if char = '\\' then
        match rest with
        | [] => none
        | mark :: rest =>
            if mark = 'u' then
              match rest with
              | first :: second :: third :: fourth :: rest =>
                  match readHex first second third fourth with
                  | some unit => prepend [unit] (readText rest)
                  | none => none
              | _ => none
            else
              match escapes.lookup mark with
              | some unit => prepend [unit] (readText rest)
              | none => none
      else if char.toNat < 0x20 then none
      else prepend (Codecs.unitsOfChar char) (readText rest)

def isDigit (char : Char) : Bool :=
  48 ≤ char.toNat && char.toNat ≤ 57

def isNumberChar (char : Char) : Bool :=
  isDigit char || char == '-' || char == '+' || char == '.' || char == 'e' || char == 'E'

/-- The exponent of a literal: none of the text may be left. -/
def readExponent : List Char → Option ℤ
  | [] => some 0
  | char :: rest =>
      let digits := if rest.head? = some '+' ∨ rest.head? = some '-' then rest.tail else rest
      if (char = 'e' ∨ char = 'E') ∧ digits ≠ [] ∧ digits.all isDigit then
        let size : ℤ := Nat.ofDigitChars 10 digits 0
        some (if rest.head? = some '-' then -size else size)
      else none

/-- The exact value of a number literal. -/
def readLiteral (literal : List Char) : Option ℚ :=
  let body := if literal.head? = some '-' then literal.tail else literal
  let whole := body.takeWhile isDigit
  let behind := body.dropWhile isDigit
  let decimals := if behind.head? = some '.' then behind.tail.takeWhile isDigit else []
  let exponent := if behind.head? = some '.' then behind.tail.dropWhile isDigit else behind
  if whole = [] ∨ (whole.head? = some '0' ∧ whole ≠ ['0']) ∨
      (behind.head? = some '.' ∧ decimals = []) then none
  else
    (readExponent exponent).map fun power : ℤ =>
      let size : ℚ := Nat.ofDigitChars 10 (whole ++ decimals) 0
      let value : ℚ := size * (10 : ℚ) ^ (power - (decimals.length : ℤ))
      if literal.head? = some '-' then -value else value

section Reading

variable {ν : Type} (double : ℚ → ν)

/-- A number or a word; what ends a literal is no part of one. -/
def readPlain (text : List Char) : Option (Read ν × List Char) :=
  if ['n', 'u', 'l', 'l'] <+: text then some (.null, text.drop 4)
  else if ['t', 'r', 'u', 'e'] <+: text then some (.bool true, text.drop 4)
  else if ['f', 'a', 'l', 's', 'e'] <+: text then some (.bool false, text.drop 5)
  else
    (readLiteral (text.takeWhile isNumberChar)).map fun value =>
      (.number (double value), text.dropWhile isNumberChar)

mutual

def readValue : ℕ → List Char → Option (Read ν × List Char)
  | 0, _ => none
  | fuel + 1, text =>
      match skip text with
      | [] => none
      | char :: rest =>
          if char = '"' then
            (readText rest).map fun result => (.string result.1, result.2)
          else if char = '[' then
            if (skip rest).head? = some ']' then some (.array [], (skip rest).tail)
            else (readItems fuel rest).map fun result => (.array result.1, result.2)
          else if char = '\x7b' then
            if (skip rest).head? = some '\x7d' then some (.object [], (skip rest).tail)
            else (readMembers fuel rest).map fun result => (.object result.1, result.2)
          else readPlain double (char :: rest)

/-- One item and what follows it up to the bracket. -/
def readItems : ℕ → List Char → Option (List (Read ν) × List Char)
  | 0, _ => none
  | fuel + 1, text => do
      let (item, behind) ← readValue fuel text
      match skip behind with
      | ',' :: rest => do
          let (items, rest) ← readItems fuel rest
          return (item :: items, rest)
      | ']' :: rest => return ([item], rest)
      | _ => none

/-- One member and what follows it up to the brace. -/
def readMembers : ℕ → List Char → Option (List (List ℕ × Read ν) × List Char)
  | 0, _ => none
  | fuel + 1, text =>
      match skip text with
      | '"' :: rest => do
          let (name, behind) ← readText rest
          match skip behind with
          | ':' :: rest => do
              let (value, behind) ← readValue fuel rest
              match skip behind with
              | ',' :: rest => do
                  let (members, rest) ← readMembers fuel rest
                  return ((name, value) :: members, rest)
              | '\x7d' :: rest => return ([(name, value)], rest)
              | _ => none
          | _ => none
      | _ => none

end

/-- `JSON.parse`: a nested call has read a character since the one before the last. -/
def parse (text : List Char) : Option (Read ν) :=
  match readValue double (2 * text.length + 2) text with
  | some (value, rest) => if skip rest = [] then some value else none
  | none => none

end Reading

end AgenticRag.Json
