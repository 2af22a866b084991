import AgenticRag.Core.Ranking
import AgenticRag.Graph.Builder
import AgenticRag.Ingestion.Stores
import AgenticRag.Text.PyString
import Mathlib.Data.Prod.Lex

/-!
# The metadata path

`lookup_documents` answers a question about the documents themselves from Postgres: which
documents of the requester's collections the question names, the newest first.
-/

namespace AgenticRag.MetadataLookup

open AgenticRag.Ingestion (DocumentStatus)

/-! ## Rows -/

/-- A point in time and what `strftime("%Y-%m-%d")` prints for it. -/
structure Stamp where
  instant : ℤ
  date : String
  deriving DecidableEq

/-- A row of `documents`, with the columns the lookup reads. -/
structure Document where
  id : Uuid
  collectionId : Uuid
  filename : String
  fileType : String
  status : DocumentStatus
  pageCount : Option ℕ
  uploadedById : Option Uuid
  createdAt : Stamp
  updatedAt : Stamp
  deriving DecidableEq

/-- The tables: the documents as the database finds them, the names of the collections and
the addresses of the users. -/
structure Tables where
  documents : List Document
  collections : Uuid → Option String
  users : Uuid → Option String

/-- A row of the joined tables. -/
structure Row where
  document : Document
  name : String
  email : Option String
  deriving DecidableEq

/-- The inner join with the collection and the outer join with the uploader. -/
def Tables.join (tables : Tables) (document : Document) : Option Row :=
  (tables.collections document.collectionId).map fun name =>
    { document := document
      name := name
      email := document.uploadedById.bind tables.users }

/-- The key of `order_by(updated_at.desc(), created_at.desc())`. -/
def Row.recency (row : Row) : ℤ ×ₗ ℤ :=
  toLex (row.document.updatedAt.instant, row.document.createdAt.instant)

/-! ## The words of the question -/

/-- `_FILE_TYPES` -/
def fileTypes : List String :=
  ["pdf", "docx", "pptx", "xlsx", "csv", "txt", "md"]

/-- `_STOPWORDS` -/
def stopwords : List String :=
  ["das", "der", "die", "und", "oder", "ist", "sind", "wie", "was", "wer", "wann",
    "welche", "welches", "welcher", "viele", "seiten", "hat", "gibt", "eine", "einen",
    "neueste", "neuere", "aktuellste", "version", "fassung", "dokument", "dokumente",
    "datei", "dateien", "sammlung", "hochgeladen", "aktualisiert", "zuletzt", "von",
    "the", "and", "what", "which", "who", "when", "how", "many", "pages", "does",
    "have", "there", "are", "is", "latest", "newest", "version", "document",
    "documents", "file", "files", "collection", "uploaded", "updated", "recently",
    "most", "author", "type", "list", "all", "available", "week", "this", "was"]

/-- `_DE_WORDS` of the prompts. -/
def germanWords : List String :=
  ["der", "die", "das", "und", "ist", "sind", "was", "wie", "mehr", "auf", "mir",
    "den", "dem", "ein", "eine", "nicht", "mit", "für", "von", "zu", "sich", "auch",
    "werden", "wird", "aufgaben", "erkläre", "erklär", "warum", "wer", "welche", "kannst"]

section Words

variable (lower : String → String) (isWord : Char → Bool)

/-- `re.findall` of a class with a plus: the maximal runs. -/
def findRuns (inClass : Char → Bool) (text : String) : List String :=
  ((text.toList.splitOnP fun char => !inClass char).filter (· ≠ [])).map String.ofList

/-- `_tokens` -/
def tokens (query : String) : List String :=
  let words := findRuns (fun char => isWord char || char ∈ "äöüß-".toList) (lower query)
  let expanded := words.flatMap fun word =>
    word :: if '-' ∈ word.toList then
        ((word.toList.splitOn '-').filter (· ≠ [])).map String.ofList
      else []
  expanded.filter fun word => 3 ≤ word.length ∧ word ∉ stopwords ∧ word ∉ fileTypes

/-- `\b` at a place of the text. -/
def isBoundary (text : List Char) (place : ℕ) : Bool :=
  (place ≠ 0 && (text[place - 1]?).any isWord) != (text[place]?).any isWord

/-- `re.search(rf"\b{t}\b", q)` -/
def mentions (text word : List Char) : Bool :=
  (List.range (text.length + 1)).any fun place =>
    word.isPrefixOf (text.drop place) && isBoundary isWord text place &&
      isBoundary isWord text (place + word.length)

/-- `_mentioned_types` -/
def mentionedTypes (query : String) : List String :=
  fileTypes.filter fun type => mentions isWord (lower query).toList type.toList

inductive Lang where
  | de
  | en
  deriving DecidableEq

/-- `detect_lang` -/
def detectLang (text : String) : Lang :=
  if text.toList.any (· ∈ "äöüßÄÖÜ".toList) then .de
  else
    let words := findRuns isWord (lower text)
    if 2 ≤ (germanWords.filter (· ∈ words)).length then .de else .en

/-- `needle in text` -/
def isIn (needle text : String) : Bool :=
  text.toList.tails.any fun rest => needle.toList.isPrefixOf rest

end Words

/-! ## The lookup -/

/-- `DocumentStatus.value` -/
def statusValue : DocumentStatus → String
  | .pending => "pending"
  | .processing => "processing"
  | .indexed => "indexed"
  | .failed => "failed"
  | .duplicate => "duplicate"

/-- `_render` -/
def render (row : Row) (lang : Lang) : String :=
  let document := row.document
  let pages := match document.pageCount with
    | some count => toString count
    | none => "?"
  match lang with
  | .de =>
      let uploader := if row.email.getD "" = "" then "unbekannt" else row.email.getD ""
      "Dokument: " ++ document.filename ++ " | Sammlung: " ++ row.name ++
        " | Typ: " ++ document.fileType ++ " | Seiten: " ++ pages ++
        " | Status: " ++ statusValue document.status ++
        " | Hochgeladen: " ++ document.createdAt.date ++ " von " ++ uploader ++
        " | Zuletzt aktualisiert: " ++ document.updatedAt.date
  | .en =>
      let uploader := if row.email.getD "" = "" then "unknown" else row.email.getD ""
      "Document: " ++ document.filename ++ " | Collection: " ++ row.name ++
        " | Type: " ++ document.fileType ++ " | Pages: " ++ pages ++
        " | Status: " ++ statusValue document.status ++
        " | Uploaded: " ++ document.createdAt.date ++ " by " ++ uploader ++
        " | Last updated: " ++ document.updatedAt.date

/-- The chunk of a row. -/
def toChunk (lang : Lang) (row : Row) : Chunk where
  chunkId := row.document.id
  documentId := row.document.id
  collectionId := row.document.collectionId
  chunkType := "metadata"
  pageNumber := none
  sectionTitle := none
  content := render row lang
  score := 1
  fileName := some row.document.filename
  imageUri := none

section Lookup

variable (lower : String → String) (isWord : Char → Bool)

/-- Some token of the question is in the name of the document or of its collection. -/
def Named (query : String) (row : Row) : Prop :=
  ∃ token ∈ tokens lower isWord query,
    isIn token (lower row.document.filename) = true ∨ isIn token (lower row.name) = true

instance (query : String) : DecidablePred (Named lower isWord query) := fun row =>
  inferInstanceAs (Decidable (∃ token ∈ tokens lower isWord query,
    isIn token (lower row.document.filename) = true ∨ isIn token (lower row.name) = true))

/-- The rows of the statement with both of its conditions, unordered. -/
def scopedRows (tables : Tables) (allowed : Finset Uuid) (types : List String) : List Row :=
  ((tables.documents.filter fun document => document.collectionId ∈ allowed).filterMap
    tables.join).filter fun row => types = [] ∨ row.document.fileType ∈ types

/-- `lookup_documents` -/
def lookupDocuments (tables : Tables) (allowed : Finset Uuid) (query : String)
    (limit : Option ℕ) : List Chunk :=
  if allowed = ∅ then []
  else
    let limit := if limit.getD 0 = 0 then 10 else limit.getD 0
    let rows := (scopedRows tables allowed (mentionedTypes lower isWord query)).insertionSort
      fun left right => right.recency ≤ left.recency
    let narrowed := rows.filter fun row => Named lower isWord query row
    let chosen :=
      if tokens lower isWord query = [] ∨ narrowed = [] then rows else narrowed
    (chosen.take limit).map (toChunk (detectLang lower isWord query))

end Lookup

/-! ## What the question asks for -/

/-- The tables have the same documents in these collections, and call the collections and the
uploaders of those documents the same. -/
structure AgreeOn (allowed : Finset Uuid) (left right : Tables) : Prop where
  documents : (left.documents.filter fun document => document.collectionId ∈ allowed) =
    right.documents.filter fun document => document.collectionId ∈ allowed
  collections : ∀ collectionId ∈ allowed,
    left.collections collectionId = right.collections collectionId
  users : ∀ document ∈ left.documents, document.collectionId ∈ allowed →
    ∀ userId ∈ document.uploadedById, left.users userId = right.users userId

theorem scopedRows_congr {allowed : Finset Uuid} {left right : Tables}
    (hagree : AgreeOn allowed left right) (types : List String) :
    scopedRows left allowed types = scopedRows right allowed types := by
  rw [scopedRows, scopedRows, ← hagree.documents]
  congr 1
  apply List.filterMap_congr
  intro document hdocument
  obtain ⟨hmem, hscope⟩ := List.mem_filter.mp hdocument
  have hallowed : document.collectionId ∈ allowed := of_decide_eq_true hscope
  rw [Tables.join, Tables.join, hagree.collections _ hallowed]
  congr 1
  funext name
  congr 1
  cases huser : document.uploadedById with
  | none => rfl
  | some userId => exact hagree.users document hmem hallowed userId huser

section Lookup

variable {lower : String → String} {isWord : Char → Bool} {tables : Tables}
  {allowed : Finset Uuid} {query : String}

/-- The question is about this row of those it could be about: it names nothing, it names this
one, or none of them. -/
def Suits (lower : String → String) (isWord : Char → Bool) (rows : List Row) (query : String)
    (row : Row) : Prop :=
  tokens lower isWord query = [] ∨ Named lower isWord query row ∨
    ∀ other ∈ rows, ¬ Named lower isWord query other

instance (rows : List Row) : DecidablePred (Suits lower isWord rows query) := fun row =>
  inferInstanceAs (Decidable (tokens lower isWord query = [] ∨ Named lower isWord query row ∨
    ∀ other ∈ rows, ¬ Named lower isWord query other))

theorem suits_congr {rows order : List Row} (hperm : order.Perm rows) (row : Row) :
    Suits lower isWord order query row ↔ Suits lower isWord rows query row := by
  rw [Suits, Suits]
  simp only [hperm.mem_iff]

/-- The choice between all rows and the named ones. -/
theorem chosen_eq (order : List Row) :
    (if tokens lower isWord query = [] ∨
        order.filter (fun row => Named lower isWord query row) = [] then order
      else order.filter fun row => Named lower isWord query row) =
      order.filter fun row => Suits lower isWord order query row := by
  split_ifs with hall
  · symm
    rw [List.filter_eq_self]
    intro row hrow
    apply decide_eq_true
    cases hall with
    | inl hnone => exact .inl hnone
    | inr hempty =>
        refine .inr (.inr ?_)
        intro other hother hnamed
        exact List.filter_eq_nil_iff.mp hempty other hother (decide_eq_true hnamed)
  · rw [not_or] at hall
    apply List.filter_congr
    intro row _
    apply decide_eq_decide.mpr
    constructor
    · exact fun hnamed => .inr (.inl hnamed)
    · intro hsuits
      refine (hsuits.resolve_left hall.1).resolve_right ?_
      intro hnone
      refine hall.2 (List.filter_eq_nil_iff.mpr ?_)
      intro other hother hnamed
      exact hnone other hother (of_decide_eq_true hnamed)

theorem scopedRows_empty (types : List String) : scopedRows tables ∅ types = [] := by
  simp [scopedRows]

/-- The hits are the newest of the rows the question is about. -/
theorem lookupDocuments_top (limit : Option ℕ) :
    ∃ rows, lookupDocuments lower isWord tables allowed query limit =
        rows.map (toChunk (detectLang lower isWord query)) ∧
      Ranking.Top Row.recency (if limit.getD 0 = 0 then 10 else limit.getD 0)
        ((scopedRows tables allowed (mentionedTypes lower isWord query)).filter fun row =>
          Suits lower isWord (scopedRows tables allowed (mentionedTypes lower isWord query)) query
            row) rows := by
  by_cases hallowed : allowed = ∅
  · subst hallowed
    refine ⟨[], by rw [lookupDocuments, if_pos rfl]; rfl, [], ?_, List.Pairwise.nil, ?_⟩
    · rw [scopedRows_empty, List.filter_nil]
    · rw [List.take_nil]
  · rw [lookupDocuments, if_neg hallowed]
    dsimp only
    rw [chosen_eq]
    generalize scopedRows tables allowed (mentionedTypes lower isWord query) = candidates
    have hperm := List.perm_insertionSort (fun left right : Row => right.recency ≤ left.recency)
      candidates
    have hsorted := List.pairwise_insertionSort
      (fun left right : Row => right.recency ≤ left.recency) candidates
    refine ⟨_, rfl, _, ?_, hsorted.sublist List.filter_sublist, rfl⟩
    rw [List.filter_congr fun row _ => decide_eq_decide.mpr (suits_congr hperm row)]
    exact hperm.filter _

/-- The row is one of a document in scope, of a type the question mentions if it mentions
any. -/
structure InScope (lower : String → String) (isWord : Char → Bool) (tables : Tables)
    (allowed : Finset Uuid) (query : String) (row : Row) : Prop where
  stored : row.document ∈ tables.documents
  joined : tables.join row.document = some row
  allowed : row.document.collectionId ∈ allowed
  type : mentionedTypes lower isWord query = [] ∨
    row.document.fileType ∈ mentionedTypes lower isWord query

/-- The question is about the row: it is in scope, and named unless no row in scope is. -/
structure Asked (lower : String → String) (isWord : Char → Bool) (tables : Tables)
    (allowed : Finset Uuid) (query : String) (row : Row) : Prop where
  inScope : InScope lower isWord tables allowed query row
  named : tokens lower isWord query = [] ∨ Named lower isWord query row ∨
    ∀ other, InScope lower isWord tables allowed query other → ¬ Named lower isWord query other

theorem Tables.join_document {document : Document} {row : Row}
    (hjoin : tables.join document = some row) : row.document = document := by
  obtain ⟨name, _, rfl⟩ := Option.map_eq_some_iff.mp hjoin
  rfl

theorem mem_scopedRows_iff {row : Row} :
    row ∈ scopedRows tables allowed (mentionedTypes lower isWord query) ↔
      InScope lower isWord tables allowed query row := by
  rw [scopedRows, List.mem_filter, List.mem_filterMap, decide_eq_true_iff]
  constructor
  · rintro ⟨⟨document, hdocument, hjoin⟩, htype⟩
    obtain ⟨hstored, hallowed⟩ := List.mem_filter.mp hdocument
    have hsame := Tables.join_document hjoin
    subst hsame
    exact ⟨hstored, hjoin, of_decide_eq_true hallowed, htype⟩
  · intro hscope
    refine ⟨⟨row.document, ?_, hscope.joined⟩, hscope.type⟩
    exact List.mem_filter.mpr ⟨hscope.stored, decide_eq_true hscope.allowed⟩

theorem mem_asked_iff {row : Row} :
    (row ∈ (scopedRows tables allowed (mentionedTypes lower isWord query)).filter fun row =>
      Suits lower isWord (scopedRows tables allowed (mentionedTypes lower isWord query)) query
        row) ↔ Asked lower isWord tables allowed query row := by
  rw [List.mem_filter, decide_eq_true_iff, mem_scopedRows_iff, Suits]
  simp only [mem_scopedRows_iff]
  exact ⟨fun hboth => ⟨hboth.1, hboth.2⟩, fun hasked => ⟨hasked.inScope, hasked.named⟩⟩

theorem nodup_scopedRows (hunique : (tables.documents.map Document.id).Nodup)
    (types : List String) :
    ((scopedRows tables allowed types).map fun row => row.document.id).Nodup := by
  have hjoined : ∀ documents : List Document,
      ((documents.filterMap tables.join).map fun row => row.document.id).Sublist
        (documents.map Document.id) := by
    intro documents
    induction documents with
    | nil => exact List.Sublist.slnil
    | cons document documents ih =>
        cases hjoin : tables.join document with
        | none =>
            rw [List.filterMap_cons_none hjoin]
            exact ih.cons _
        | some row =>
            rw [List.filterMap_cons_some hjoin, List.map_cons, List.map_cons,
              Tables.join_document hjoin]
            exact ih.cons_cons _
  have hallowed := hjoined (tables.documents.filter fun document =>
    document.collectionId ∈ allowed)
  have hstored : ((tables.documents.filter fun document =>
      document.collectionId ∈ allowed).map Document.id).Sublist
        (tables.documents.map Document.id) :=
    List.filter_sublist.map _
  refine hunique.sublist (List.Sublist.trans ?_ (hallowed.trans hstored))
  exact List.filter_sublist.map _

/-- The hits depend on the documents of the allowed collections alone, whatever else is in the
tables.  They are rows the question is about, each document once and the newest first, and a
row the question is about is left out only of a full answer of rows at least as new. -/
theorem lookupDocuments_answers (lower : String → String) (isWord : Char → Bool)
    (tables : Tables) (allowed : Finset Uuid) (query : String) (limit : Option ℕ) :
    (∀ other, AgreeOn allowed tables other →
      lookupDocuments lower isWord tables allowed query limit =
        lookupDocuments lower isWord other allowed query limit) ∧
    ∃ rows : List Row, lookupDocuments lower isWord tables allowed query limit =
        rows.map (toChunk (detectLang lower isWord query)) ∧
      (∀ row ∈ rows, Asked lower isWord tables allowed query row) ∧
      (rows.Pairwise fun newer older => older.recency ≤ newer.recency) ∧
      ((tables.documents.map Document.id).Nodup →
        (rows.map fun row => row.document.id).Nodup) ∧
      ∀ row, Asked lower isWord tables allowed query row → row ∉ rows →
        rows.length = (if limit.getD 0 = 0 then 10 else limit.getD 0) ∧
          ∀ hit ∈ rows, row.recency ≤ hit.recency := by
  constructor
  · intro other hagree
    simp only [lookupDocuments, scopedRows_congr hagree]
  · obtain ⟨rows, hhits, htop⟩ := @lookupDocuments_top lower isWord tables allowed query limit
    refine ⟨rows, hhits, ?_, htop.pairwise, ?_, ?_⟩
    · exact fun row hrow => mem_asked_iff.mp (htop.subset hrow)
    · intro hunique
      obtain ⟨order, hperm, _, rfl⟩ := htop
      have horder : (order.map fun row => row.document.id).Nodup := by
        rw [(hperm.map _).nodup_iff]
        exact (nodup_scopedRows hunique _).sublist (List.filter_sublist.map _)
      exact horder.sublist ((List.take_sublist _ _).map _)
    · exact fun row hasked hout => htop.left_out (mem_asked_iff.mpr hasked) hout

/-! ## The node -/

/-- The graph looks its documents up in these tables. -/
def withTables (lower : String → String) (isWord : Char → Bool) (tables : Tables)
    (services : Services) : Services :=
  { services with
    lookupDocuments := fun allowed query =>
      .ok (lookupDocuments lower isWord tables allowed query none) }

theorem metadataLookup_eq (services : Services) (state : GraphState) :
    Nodes.metadataLookup (withTables lower isWord tables services) state =
      { iterations := some (Nodes.bump state)
        chunks := some (lookupDocuments lower isWord tables state.allowed state.queryText
          none) } := by
  rw [Nodes.metadataLookup]
  split_ifs with hnone
  · rw [hnone, lookupDocuments, if_pos rfl]
  · rfl

/-- There are hits exactly where a row is in scope. -/
theorem lookupDocuments_ne_nil_iff :
    lookupDocuments lower isWord tables allowed query none ≠ [] ↔
      ∃ row, InScope lower isWord tables allowed query row := by
  obtain ⟨_, rows, hhits, hasked, _, _, hout⟩ :=
    lookupDocuments_answers lower isWord tables allowed query none
  rw [hhits, ne_eq, List.map_eq_nil_iff]
  constructor
  · intro hrows
    obtain ⟨row, hrow⟩ := List.exists_mem_of_ne_nil rows hrows
    exact ⟨row, (hasked row hrow).inScope⟩
  · rintro ⟨row, hscope⟩ rfl
    -- Where nothing in scope is named, the question is about every row of it.
    have hsome : ∃ other, Asked lower isWord tables allowed query other := by
      by_cases hnamed : ∃ other, InScope lower isWord tables allowed query other ∧
          Named lower isWord query other
      · obtain ⟨other, hother, hname⟩ := hnamed
        exact ⟨other, hother, .inr (.inl hname)⟩
      · refine ⟨row, hscope, .inr (.inr fun other hother hname => ?_)⟩
        exact hnamed ⟨other, hother, hname⟩
    obtain ⟨other, hother⟩ := hsome
    have hlength := (hout other hother List.not_mem_nil).1
    cases hlength

/-- The node sees the documents of the allowed collections alone, and within the budget it
goes on to the answer exactly where one of them is of a type the question mentions; else the
question is searched for. -/
theorem metadataLookup_next (services : Services) (settings : Settings)
    (state : GraphState) :
    let update := Nodes.metadataLookup (withTables lower isWord tables services) state
    (∀ other, AgreeOn state.allowed tables other →
      Nodes.metadataLookup (withTables lower isWord other services) state = update) ∧
    (Graph.overBudget settings (state.merge update) = false →
      (Graph.next settings .metadataLookup (state.merge update) = some .generator ↔
        ∃ row, InScope lower isWord tables state.allowed state.queryText row) ∧
      (Graph.next settings .metadataLookup (state.merge update) = some .retriever ↔
        ¬ ∃ row, InScope lower isWord tables state.allowed state.queryText row)) := by
  intro update
  constructor
  · intro other hagree
    have hsame := (lookupDocuments_answers lower isWord tables state.allowed state.queryText
      none).1 other hagree
    rw [metadataLookup_eq, ← hsame]
    exact (metadataLookup_eq services state).symm
  · intro hbudget
    have hchunks : (state.merge update).chunkList =
        lookupDocuments lower isWord tables state.allowed state.queryText none := by
      rw [show update = _ from metadataLookup_eq services state]
      rfl
    rw [← lookupDocuments_ne_nil_iff, Graph.next, Graph.afterMetadata, hbudget, hchunks]
    by_cases hempty : lookupDocuments lower isWord tables state.allowed state.queryText none = []
    · simp [hempty]
    · simp [hempty]

/-! ## An archive -/

/-- Two documents of a collection and one of another. -/
def archive : Tables where
  documents :=
    [⟨1, 7, "satzung.pdf", "pdf", .indexed, some 3, some 5, ⟨10, "2024-01-01"⟩,
        ⟨10, "2024-01-01"⟩⟩,
      ⟨2, 7, "it_richtlinie_de.pdf", "pdf", .indexed, none, none, ⟨20, "2024-01-02"⟩,
        ⟨30, "2024-01-03"⟩⟩,
      ⟨3, 8, "it_richtlinie_alt.docx", "docx", .failed, none, none, ⟨40, "2024-01-04"⟩,
        ⟨40, "2024-01-04"⟩⟩]
  collections := fun id => if id = 7 then some "Vorstand" else some "Technik"
  users := fun _ => some "a@b.de"

theorem lookupDocuments_answers_sample :
    ∃ rows : List Row,
      lookupDocuments PyString.lower Char.isAlphanum archive {7} "Wann kam die IT-Richtlinie?"
          none =
        rows.map (toChunk
          (detectLang PyString.lower Char.isAlphanum "Wann kam die IT-Richtlinie?")) ∧
      (rows.map fun row => row.document.id).Nodup ∧
      ∀ row ∈ rows, row.document.collectionId ∈ ({7} : Finset Uuid) := by
  obtain ⟨_, rows, hhits, hasked, _, hnodup, _⟩ := lookupDocuments_answers PyString.lower
    Char.isAlphanum archive {7} "Wann kam die IT-Richtlinie?" none
  exact ⟨rows, hhits, hnodup (by decide), fun row hrow => (hasked row hrow).inScope.allowed⟩

end Lookup

end AgenticRag.MetadataLookup
