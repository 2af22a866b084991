import AgenticRag.Text.Normalize

/-!
# File types and their parsers

`filetype.detect` looks at the first bytes and then at the extension.  Its test for ZIP
archives compares two bytes with four, so an archive is taken for whatever its extension
says.
-/

namespace AgenticRag.FileTypes

open AgenticRag.PyString

inductive FileType where
  | pdf
  | docx
  | pptx
  | xlsx
  | csv
  | txt
  | md
  | html
  | image
  deriving DecidableEq

/-- `_EXT_MAP` -/
def extMap : List (List Char × FileType) :=
  [(".pdf".toList, .pdf), (".docx".toList, .docx), (".pptx".toList, .pptx),
    (".xlsx".toList, .xlsx), (".csv".toList, .csv), (".txt".toList, .txt), (".md".toList, .md),
    (".markdown".toList, .md), (".html".toList, .html), (".htm".toList, .html),
    (".png".toList, .image), (".jpg".toList, .image), (".jpeg".toList, .image),
    (".tif".toList, .image), (".tiff".toList, .image), (".bmp".toList, .image)]

/-- `os.path.splitext(filename)[1]`: from the last dot of the last component on, unless
only dots stand before it. -/
def extension (filename : List Char) : List Char :=
  let base := filename.rtakeWhile (· ≠ '/')
  if (base.rdropWhile (· ≠ '.')).any (· ≠ '.') then '.' :: base.rtakeWhile (· ≠ '.') else []

section Detect

variable (lower repr : List Char → List Char)

/-- `detect`; the error is the text of the `ValueError`. -/
def detect (filename : List Char) (data : List UInt8) : Except (List Char) FileType :=
  let head := data.take 8
  if [0x25, 0x50, 0x44, 0x46].isPrefixOf head then .ok .pdf
  else if [0x89, 0x50, 0x4E, 0x47].isPrefixOf head ∨ head.take 3 = [0xFF, 0xD8, 0xFF] then
    .ok .image
  else if head.take 6 = [0x47, 0x49, 0x46, 0x38, 0x37, 0x61] ∨
      head.take 6 = [0x47, 0x49, 0x46, 0x38, 0x39, 0x61] then .ok .image
  else
    let ext := lower (extension filename)
    -- the two bytes are never the four of the signature
    if head.take 2 = [0x50, 0x4B, 0x03, 0x04] then
      if ext = ".docx".toList then .ok .docx
      else if ext = ".pptx".toList then .ok .pptx
      else if ext = ".xlsx".toList then .ok .xlsx
      else .error ("Unsupported OOXML/zip file: ".toList ++ filename)
    else
      match extMap.lookup ext with
      | some type => .ok type
      | none => .error ("Unsupported file type: ".toList ++ repr filename)

end Detect

/-- `safe_filename` -/
def safeFilename (filename : List Char) : List Char :=
  let slashed := filename.map fun char => if char = '\\' then '/' else char
  let name := stripWhere isSpace (slashed.rtakeWhile (· ≠ '/'))
  if name = [] ∨ name = ['.'] ∨ name = ['.', '.'] then "upload.bin".toList else name

inductive ParserBackend where
  | docling
  | legacy
  deriving DecidableEq

/-- Docling is told the type of its input. -/
inductive Parser where
  | docling (type : FileType)
  | pdf
  | docx
  | xlsx
  | csv
  | txt
  | markdown
  | html
  | image
  deriving DecidableEq

/-- `_use_docling` -/
def UsesDocling (backend : ParserBackend) (type : FileType) : Prop :=
  backend = .docling ∧ type ∈ [.pdf, .docx, .pptx, .xlsx]
  deriving Decidable

/-- `_PARSERS.get(file_type)` -/
def legacyParser : FileType → Option Parser
  | .pdf => some .pdf
  | .docx => some .docx
  | .pptx => none
  | .xlsx => some .xlsx
  | .csv => some .csv
  | .txt => some .txt
  | .md => some .markdown
  | .html => some .html
  | .image => some .image

/-- The parser `parse` hands the bytes to; without one it raises. -/
def parserOf (backend : ParserBackend) (type : FileType) : Option Parser :=
  if UsesDocling backend type then some (.docling type) else legacyParser type

/-! ## Archives -/

section Archives

variable (lower repr : List Char → List Char)

/-- The parser that gets the bytes of an upload once `create_document` has accepted it. -/
def uploadParser (backend : ParserBackend) (uploaded : List Char) (data : List UInt8) :
    Option Parser :=
  match detect lower repr (safeFilename uploaded) data with
  | .ok type => parserOf backend type
  | .error _ => none

/-- The extensions of the archives there is a parser for. -/
def archiveTypes : List (List Char × FileType) :=
  [(".docx".toList, .docx), (".pptx".toList, .pptx), (".xlsx".toList, .xlsx)]

/-- The parsers that do not expect an archive. -/
def plainParsers : List Parser :=
  [.docling .pdf, .pdf, .csv, .txt, .markdown, .html, .image]

/-- An archive of this name is told by its extension among the three types, and no upload
that gets the name hands it to a plain parser. -/
structure Intercepted (filename : List Char) (data : List UInt8) : Prop where
  detected : ∀ type, detect lower repr filename data = .ok type ↔
    (lower (extension filename), type) ∈ archiveTypes
  parsed : ∀ backend uploaded parser, safeFilename uploaded = filename →
    uploadParser lower repr backend uploaded data = some parser → parser ∉ plainParsers

/-- The first tests fail on an archive, and so does the one that is meant for it. -/
theorem detect_zip (filename : List Char) {data : List UInt8}
    (hzip : [0x50, 0x4B, 0x03, 0x04] <+: data) :
    detect lower repr filename data =
      match extMap.lookup (lower (extension filename)) with
      | some type => .ok type
      | none => .error ("Unsupported file type: ".toList ++ repr filename) := by
  obtain ⟨rest, rfl⟩ := hzip
  rfl

theorem lookup_archive {ext : List Char} {type : FileType} (hmem : (ext, type) ∈ archiveTypes) :
    extMap.lookup ext = some type := by
  have hall : ∀ entry ∈ archiveTypes, extMap.lookup entry.1 = some entry.2 := by decide
  exact hall _ hmem

theorem parserOf_archive {ext : List Char} {type : FileType} (hmem : (ext, type) ∈ archiveTypes)
    {backend : ParserBackend} {parser : Parser} (hparser : parserOf backend type = some parser) :
    parser ∉ plainParsers := by
  have hall : ∀ entry ∈ archiveTypes, ∀ backend ∈ [ParserBackend.docling, .legacy],
      ∀ parser ∈ parserOf backend entry.2, parser ∉ plainParsers := by decide
  have hbackend : backend ∈ [ParserBackend.docling, .legacy] := by
    cases backend with
    | docling => decide
    | legacy => decide
  exact hall _ hmem backend hbackend parser hparser

/-- Where the detection is right, so is the dispatch. -/
theorem Intercepted.of_detected {filename : List Char} {data : List UInt8}
    (hdetected : ∀ type, detect lower repr filename data = .ok type ↔
      (lower (extension filename), type) ∈ archiveTypes) :
    Intercepted lower repr filename data where
  detected := hdetected
  parsed := by
    intro backend uploaded parser hname hparser
    rw [uploadParser, hname] at hparser
    cases hdetect : detect lower repr filename data with
    | error message =>
        rw [hdetect] at hparser
        cases hparser
    | ok type =>
        rw [hdetect] at hparser
        exact parserOf_archive ((hdetected type).mp hdetect) hparser

/-- Archives are intercepted exactly where the extension is one of the three or none that
is known. -/
theorem detect_zip_iff (filename : List Char) {data : List UInt8}
    (hzip : [0x50, 0x4B, 0x03, 0x04] <+: data) :
    Intercepted lower repr filename data ↔
      lower (extension filename) ∈ archiveTypes.map Prod.fst ∨
        lower (extension filename) ∉ extMap.map Prod.fst := by
  have hdetect := detect_zip lower repr filename hzip
  generalize hext : lower (extension filename) = ext at hdetect ⊢
  cases hlookup : extMap.lookup ext with
  | none =>
      have hunknown : ext ∉ extMap.map Prod.fst := by
        intro hmem
        obtain ⟨entry, hentry, hname⟩ := List.mem_map.mp hmem
        have hother := List.lookup_eq_none_iff.mp hlookup entry hentry
        simp [hname] at hother
      rw [hlookup] at hdetect
      refine iff_of_true (.of_detected lower repr fun type => ?_) (.inr hunknown)
      rw [hdetect, hext]
      refine iff_of_false (fun hsame => by cases hsame) fun hmem => ?_
      rw [lookup_archive hmem] at hlookup
      cases hlookup
  | some known =>
      rw [hlookup] at hdetect
      have hknown : ext ∈ extMap.map Prod.fst := by
        by_contra hunknown
        have hnone : extMap.lookup ext = none := by
          rw [List.lookup_eq_none_iff]
          intro entry hentry
          have hother : ext ≠ entry.1 := fun hsame =>
            hunknown (hsame ▸ List.mem_map_of_mem hentry)
          simpa using hother
        rw [hnone] at hlookup
        cases hlookup
      constructor
      · intro hintercepted
        have hmem := (hintercepted.detected known).mp hdetect
        rw [hext] at hmem
        exact .inl (List.mem_map_of_mem hmem)
      · intro hcondition
        obtain ⟨entry, hentry, hname⟩ :=
          List.mem_map.mp (hcondition.resolve_right fun hunknown => hunknown hknown)
        have hsame : extMap.lookup entry.1 = some entry.2 := lookup_archive hentry
        rw [hname, hlookup] at hsame
        refine .of_detected lower repr fun type => ?_
        rw [hdetect, hext]
        constructor
        · intro htype
          cases htype
          rw [← hname, Option.some.inj hsame]
          exact hentry
        · intro hmem
          rw [lookup_archive hmem] at hlookup
          rw [Option.some.inj hlookup]

/-- A Word document is told by its extension. -/
theorem detect_zip_docx :
    ([0x50, 0x4B, 0x03, 0x04] : List UInt8) <+: [0x50, 0x4B, 0x03, 0x04, 0x14] ∧
      Intercepted (List.map lowerChar) id "Satzung.DOCX".toList [0x50, 0x4B, 0x03, 0x04, 0x14] :=
  ⟨⟨[0x14], rfl⟩,
    (detect_zip_iff (List.map lowerChar) id "Satzung.DOCX".toList ⟨[0x14], rfl⟩).mpr
      (.inl (by decide))⟩

/-- An archive that is called a text file goes to the parser of text files. -/
theorem detect_zip_txt :
    detect (List.map lowerChar) id "notizen.txt".toList [0x50, 0x4B, 0x03, 0x04] = .ok .txt ∧
      uploadParser (List.map lowerChar) id .docling "notizen.txt".toList
        [0x50, 0x4B, 0x03, 0x04] = some .txt ∧
      ¬ Intercepted (List.map lowerChar) id "notizen.txt".toList [0x50, 0x4B, 0x03, 0x04] := by
  have hdetect : detect (List.map lowerChar) id "notizen.txt".toList [0x50, 0x4B, 0x03, 0x04] =
      .ok .txt := by rfl
  refine ⟨hdetect, by rfl, fun hintercepted => ?_⟩
  have hmem := (hintercepted.detected .txt).mp hdetect
  revert hmem
  decide

end Archives

end AgenticRag.FileTypes
