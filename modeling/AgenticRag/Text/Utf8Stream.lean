import AgenticRag.Text.Codecs

/-!
# UTF-8 in pieces

A decoder that keeps the bytes of an unfinished character.  No encoding of a character
begins with the one of another, so the decoder finds every character with its last byte.
-/

namespace AgenticRag.Codecs

/-- One byte behind the bytes that are kept: what is kept then, and what was decoded. -/
def feedByte (pending : List UInt8) (byte : UInt8) : List UInt8 × List Char :=
  match decodeUtf8 (pending ++ [byte]) with
  | some text => ([], text)
  | none => (pending ++ [byte], [])

def feed (pending : List UInt8) : List UInt8 → List UInt8 × List Char
  | [] => (pending, [])
  | byte :: rest =>
      let first := feedByte pending byte
      let later := feed first.1 rest
      (later.1, first.2 ++ later.2)

theorem feed_append (first second pending : List UInt8) :
    feed pending (first ++ second) =
      ((feed (feed pending first).1 second).1,
        (feed pending first).2 ++ (feed (feed pending first).1 second).2) := by
  induction first generalizing pending with
  | nil => rfl
  | cons byte first ih =>
    simp only [List.cons_append, feed]
    rw [ih, List.append_assoc]

/-- The encoding of a character that others follow gives the character away. -/
theorem head_of_utf8EncodeChar_append {first second : Char} {behind more : List UInt8}
    (hbytes : String.utf8EncodeChar first ++ behind = String.utf8EncodeChar second ++ more) :
    first = second := by
  have hfirst := ByteArray.utf8DecodeChar?_utf8EncodeChar_append
    (b := behind.toByteArray) (c := first)
  have hsecond := ByteArray.utf8DecodeChar?_utf8EncodeChar_append
    (b := more.toByteArray) (c := second)
  rw [← List.toByteArray_append, hbytes, List.toByteArray_append, hsecond] at hfirst
  exact (Option.some.inj hfirst).symm

/-- Bytes that a character still needs some behind decode to nothing. -/
theorem decodeUtf8_part {char : Char} {front behind : List UInt8} (hfront : front ≠ [])
    (hbehind : behind ≠ []) (hbytes : String.utf8EncodeChar char = front ++ behind) :
    decodeUtf8 front = none := by
  by_contra hsome
  obtain ⟨decoded, hdecoded⟩ := Option.ne_none_iff_exists'.mp hsome
  obtain ⟨text, rfl⟩ := exists_encodeUtf8 hdecoded
  cases text with
  | nil => exact hfront rfl
  | cons other text =>
    have hsplit : String.utf8EncodeChar char ++ [] =
        String.utf8EncodeChar other ++ (encodeUtf8 text ++ behind) := by
      rw [List.append_nil, hbytes, encodeUtf8, List.flatMap_cons, List.append_assoc]
      rfl
    have hsame := head_of_utf8EncodeChar_append hsplit
    rw [hsame, List.append_right_inj] at hsplit
    exact hbehind (List.append_eq_nil_iff.mp hsplit.symm).2

theorem feed_part {char : Char} (behind : List UInt8) {front : List UInt8}
    (hbehind : behind ≠ []) (hbytes : String.utf8EncodeChar char = front ++ behind) :
    feed front behind = ([], [char]) := by
  induction behind generalizing front with
  | nil => exact absurd rfl hbehind
  | cons byte behind ih =>
    have hnext : String.utf8EncodeChar char = (front ++ [byte]) ++ behind := by
      rw [hbytes, List.append_assoc]
      rfl
    by_cases hlast : behind = []
    · have hdecode : decodeUtf8 (front ++ [byte]) = some [char] := by
        have hsingle : front ++ [byte] = encodeUtf8 [char] := by
          simp [encodeUtf8, hnext, hlast]
        rw [hsingle, decodeUtf8_encodeUtf8]
      simp [feed, feedByte, hdecode, hlast]
    · have hkept := decodeUtf8_part (by simp) hlast hnext
      simp [feed, feedByte, hkept, ih hlast hnext]

/-- Every character is found with its last byte. -/
theorem feed_encodeUtf8 (text : List Char) : feed [] (encodeUtf8 text) = ([], text) := by
  induction text with
  | nil => rfl
  | cons char text ih =>
    have hchar : feed [] (String.utf8EncodeChar char) = ([], [char]) :=
      feed_part _ String.utf8EncodeChar_ne_nil rfl
    have hsplit : encodeUtf8 (char :: text) = String.utf8EncodeChar char ++ encodeUtf8 text := rfl
    rw [hsplit, feed_append, hchar, ih]
    rfl

end AgenticRag.Codecs
