import AgenticRag.Chunking.DoclingTables
import AgenticRag.Text.Codecs

/-!
# The parsers for plain text, Markdown and HTML

All three read the text that `_decode` finds in the bytes: the first of UTF-8, UTF-16
and Latin-1 that accepts them.
-/

namespace AgenticRag.Parsers

open AgenticRag.Chunker AgenticRag.Codecs AgenticRag.Normalize AgenticRag.PyString

/-- `_decode(data)`.  Latin-1 accepts every byte string, so the source's last line is
never reached. -/
def decode (data : List UInt8) : Text :=
  match decodeUtf8 data with
  | some text => text
  | none =>
      match decodeUtf16 data with
      | some text => text
      | none => decodeLatin1 data

def textElement (content : Text) : ParsedElement where
  kind := .text
  content := content

def parseTxt (data : List UInt8) : List ParsedElement :=
  [textElement (decode data)]

/-- The second group of `_MD_HEADING`: what follows one to six hashes and whitespace. -/
def headingTitle (line : Text) : Option Text :=
  let hashes := line.takeWhile (· == '#')
  let rest := line.dropWhile (· == '#')
  if 1 ≤ hashes.length ∧ hashes.length ≤ 6 ∧ rest.head?.any isSpace = true then
    some (rest.dropWhile isSpace)
  else none

/-- The variables of `parse_markdown`. -/
structure MarkdownState where
  elements : List ParsedElement := []
  sectionTitle : Option Text := none
  buf : List Text := []

namespace MarkdownState

def flush (state : MarkdownState) : MarkdownState :=
  let body := stripWhere isSpace (joinLines state.buf)
  if body = [] then { state with buf := [] }
  else
    { state with
      elements :=
        state.elements ++ [{ textElement body with sectionTitle := state.sectionTitle }]
      buf := [] }

def readLine (state : MarkdownState) (line : Text) : MarkdownState :=
  match headingTitle line with
  | some title => { state.flush with sectionTitle := some (stripWhere isSpace title) }
  | none => { state with buf := state.buf ++ [line] }

end MarkdownState

def markdownElements (text : Text) : List ParsedElement :=
  let elements := ((text.splitOn '\n').foldl MarkdownState.readLine {}).flush.elements
  if elements = [] then [textElement text] else elements

def parseMarkdown (data : List UInt8) : List ParsedElement :=
  markdownElements (decode data)

/-- The stripped line stands in an element. -/
def Kept (elements : List ParsedElement) (line : Text) : Prop :=
  ∃ element ∈ elements, stripWhere isSpace line <:+: element.content

namespace MarkdownState

/-- The line stands in an element or waits in the buffer; a blank one may have been
dropped. -/
def Holds (state : MarkdownState) (line : Text) : Prop :=
  line ∈ state.buf ∨ stripWhere isSpace line = [] ∨ Kept state.elements line

theorem infix_joinLines {line : Text} {buf : List Text} (hline : line ∈ buf) :
    line <:+: joinLines buf :=
  infix_joinText "\n" hline

theorem flush_holds {state : MarkdownState} {line : Text} (hholds : state.Holds line) :
    stripWhere isSpace line = [] ∨ Kept state.flush.elements line := by
  rw [flush]
  cases hholds with
  | inl hbuf =>
      have hbody : stripWhere isSpace line <:+: stripWhere isSpace (joinLines state.buf) :=
        stripWhere_infix_stripWhere (infix_joinLines hbuf)
      split_ifs with hblank
      · rw [hblank] at hbody
        exact .inl (List.infix_nil.mp hbody)
      · exact .inr ⟨_, List.mem_append_right _ List.mem_cons_self, hbody⟩
  | inr hread =>
      cases hread with
      | inl hnil => exact .inl hnil
      | inr hkept =>
          obtain ⟨element, helement, hwithin⟩ := hkept
          right
          split_ifs with hblank
          · exact ⟨element, helement, hwithin⟩
          · exact ⟨element, List.mem_append_left _ helement, hwithin⟩

theorem readLine_holds {state : MarkdownState} {line : Text} (hholds : state.Holds line)
    (next : Text) : (state.readLine next).Holds line := by
  rw [readLine]
  cases headingTitle next with
  | some title => exact .inr (flush_holds hholds)
  | none =>
      cases hholds with
      | inl hbuf => exact .inl (List.mem_append_left _ hbuf)
      | inr hread => exact .inr hread

theorem foldl_holds {lines : List Text} {line : Text} (hline : line ∈ lines)
    (hbody : headingTitle line = none) (state : MarkdownState) :
    (lines.foldl readLine state).Holds line := by
  induction lines using List.reverseRecOn with
  | nil => cases hline
  | append_singleton lines last ih =>
      rw [List.foldl_append, List.foldl_cons, List.foldl_nil]
      cases List.mem_append.mp hline with
      | inl hbefore => exact readLine_holds (ih hbefore) last
      | inr hlast =>
          rw [← List.mem_singleton.mp hlast, readLine, hbody]
          exact .inl (List.mem_append_right _ List.mem_cons_self)

end MarkdownState

/-- Every line that is no heading reaches an element. -/
theorem markdownElements_line {text line : Text} (hline : line ∈ text.splitOn '\n')
    (hbody : headingTitle line = none) : Kept (markdownElements text) line := by
  have hread := MarkdownState.flush_holds (MarkdownState.foldl_holds hline hbody {})
  rw [markdownElements]
  split_ifs with hnone
  · have hjoined : joinLines (text.splitOn '\n') = text := List.intercalate_splitOn '\n'
    have hwithin : line <:+: text := hjoined ▸ MarkdownState.infix_joinLines hline
    exact ⟨_, List.mem_cons_self, (infix_stripWhere isSpace line).trans hwithin⟩
  · cases hread with
    | inl hnil =>
        obtain ⟨element, helement⟩ := List.exists_mem_of_ne_nil _ hnone
        exact ⟨element, helement, hnil ▸ List.nil_infix⟩
    | inr hkept => exact hkept

/-- What the parser reads from the soup: the cells of the rows of each table, and the
text that is left once scripts, styles and tables are taken out. -/
structure Soup where
  tables : List (List (List Text))
  bodyText : Text

def htmlRow (cells : List Text) : Text :=
  "| ".toList ++ joinText " | " cells ++ " |".toList

def htmlTable (table : List (List Text)) : Option ParsedElement :=
  let rows := (table.filter (· ≠ [])).map htmlRow
  if rows = [] then none else some { kind := .table, content := joinLines rows }

def htmlElements (soup : Soup) : List ParsedElement :=
  let tables := soup.tables.filterMap htmlTable
  let elements :=
    if stripWhere isSpace soup.bodyText = [] then tables
    else textElement soup.bodyText :: tables
  if elements = [] then [textElement []] else elements

/-- The parser over the soup that BeautifulSoup makes of a text. -/
def parseHtml (soupOf : Text → Soup) (data : List UInt8) : List ParsedElement :=
  htmlElements (soupOf (decode data))

inductive Encoding where
  | utf8
  | utf16 (order : ByteOrder)
  | latin1
  deriving DecidableEq

/-- `text.encode(encoding)`; UTF-16 starts with a byte-order mark. -/
def encode (encoding : Encoding) (text : Text) : Option (List UInt8) :=
  match encoding with
  | .utf8 => some (encodeUtf8 text)
  | .utf16 order => some (encodeUtf16 order text)
  | .latin1 => encodeLatin1 text

/-- The parsers work on the text, and none of its Markdown body is lost. -/
structure Reads (data : List UInt8) (text : Text) : Prop where
  decoded : decode data = text
  txt : parseTxt data = [textElement text]
  markdown : parseMarkdown data = markdownElements text
  lines : ∀ line ∈ text.splitOn '\n', headingTitle line = none →
    Kept (parseMarkdown data) line
  html : ∀ soupOf, parseHtml soupOf data = htmlElements (soupOf text)

theorem reads_iff (data : List UInt8) (text : Text) : Reads data text ↔ decode data = text := by
  constructor
  · intro hreads
    exact hreads.decoded
  · rintro rfl
    exact ⟨rfl, rfl, rfl, fun _ => markdownElements_line, fun _ => rfl⟩

theorem decode_encodeUtf8 (text : Text) : decode (encodeUtf8 text) = text := by
  rw [decode, decodeUtf8_encodeUtf8]

theorem decode_encodeUtf16 (order : ByteOrder) (text : Text) :
    decode (encodeUtf16 order text) = text := by
  rw [decode, decodeUtf8_encodeUtf16, decodeUtf16_encodeUtf16]

/-- Latin-1 is read back when UTF-16 refuses the bytes.  What UTF-16 accepts it reads as
fewer characters than there are bytes. -/
theorem decode_encodeLatin1_iff {text : Text} {data : List UInt8}
    (hencode : encodeLatin1 text = some data) (hutf8 : decodeUtf8 data = none) :
    decode data = text ↔ decodeUtf16 data = none := by
  have hlatin := decodeLatin1_encodeLatin1 hencode
  rw [decode, hutf8]
  cases hutf16 : decodeUtf16 data with
  | none => simp [hlatin]
  | some other =>
      simp only [reduceCtorEq, iff_false]
      intro hsame
      have hlength := length_decodeLatin1 data
      have hhalf := length_decodeUtf16 hutf16
      rw [hsame, ← hlatin, hlength] at hhalf
      have hnil : data = [] := List.eq_nil_of_length_eq_zero (by omega)
      rw [hnil] at hutf8
      exact absurd (decodeUtf8_encodeUtf8 []) (by simp [encodeUtf8, hutf8])

/-- The parsers read back what was encoded, except Latin-1 text whose bytes UTF-16
accepts: an even number of them, with every surrogate in a pair. -/
theorem decode_encode_iff {encoding : Encoding} {text : Text} {data : List UInt8}
    (hencode : encode encoding text = some data)
    (hlatin : encoding = .latin1 → decodeUtf8 data = none) :
    Reads data text ↔
      (encoding = .latin1 → data.length % 2 = 1 ∨ ¬ Paired (unitsBehindMark data)) := by
  rw [reads_iff, ← decodeUtf16_eq_none_iff]
  cases encoding with
  | utf8 =>
      cases hencode
      simp [decode_encodeUtf8]
  | utf16 order =>
      cases hencode
      simp [decode_encodeUtf16]
  | latin1 =>
      rw [decode_encodeLatin1_iff hencode (hlatin rfl)]
      simp

/-- One byte is no UTF-16 text. -/
theorem decode_encode_umlaut :
    encode .latin1 ['ü'] = some [0xFC] ∧ decodeUtf8 [0xFC] = none ∧
      (Reads [0xFC] ['ü'] ↔
        (Encoding.latin1 = .latin1 →
          [(0xFC : UInt8)].length % 2 = 1 ∨ ¬ Paired (unitsBehindMark [0xFC]))) := by
  have hencode : encode .latin1 ['ü'] = some [0xFC] := by decide
  have hutf8 : decodeUtf8 [0xFC] = none := decodeUtf8_eq_none (by decide) []
  exact ⟨hencode, hutf8, decode_encode_iff hencode fun _ => hutf8⟩

/-- The four Latin-1 bytes of a German word are read as two Chinese characters. -/
theorem decode_word_wrong :
    encode .latin1 "über".toList = some [0xFC, 0x62, 0x65, 0x72] ∧
      decodeUtf8 [0xFC, 0x62, 0x65, 0x72] = none ∧
      decode [0xFC, 0x62, 0x65, 0x72] = "拼牥".toList ∧
      "拼牥".toList ≠ "über".toList := by
  have hutf8 : decodeUtf8 [0xFC, 0x62, 0x65, 0x72] = none := decodeUtf8_eq_none (by decide) _
  refine ⟨by decide, hutf8, ?_, by decide⟩
  rw [decode, hutf8]
  decide

end AgenticRag.Parsers
