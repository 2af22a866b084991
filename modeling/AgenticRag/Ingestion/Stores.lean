import AgenticRag.Settings
import AgenticRag.Text.Uuid
import Mathlib.Data.List.Basic

/-!
# The stores of the ingestion pipeline

Committed Postgres rows, the two Qdrant collections, the MinIO objects and the
uploaded files, with the commands the indexer and the document service send to
them.  A Qdrant or MinIO command takes effect at once; a Postgres command takes
effect when its session commits, under READ COMMITTED: a statement sees the
rows that are committed when it runs.
-/

namespace AgenticRag.Ingestion

inductive DocumentStatus where
  | pending
  | processing
  | indexed
  | failed
  | duplicate
  deriving DecidableEq

inductive IngestStatus where
  | queued
  | parsing
  | captioning
  | indexing
  | indexed
  | failed
  deriving DecidableEq

inductive ChunkType where
  | text
  | table
  | image
  | chart
  | diagram
  | form
  | ocr
  deriving DecidableEq

/-- A command succeeds, raises without an effect, or takes effect and raises: a
client gives up on an answer, or the connection breaks behind a commit. -/
inductive Outcome where
  | ok
  | raise (message : String)
  | late (message : String)
  deriving DecidableEq

/-- The command has had its effect. -/
def Outcome.takesEffect : Outcome → Bool
  | .ok | .late _ => true
  | .raise _ => false

/-- A row of `documents`. -/
structure Document where
  collectionId : Uuid
  filename : String
  fileType : String
  status : DocumentStatus := .pending
  pageCount : Option ℕ := none
  error : Option String := none
  deriving DecidableEq

/-- A finalized chunk.  Of its metadata only the image location is used. -/
structure ChunkData where
  chunkType : ChunkType
  rawContent : String
  normalizedContent : String
  chunkIndex : ℕ
  pageNumber : Option ℕ
  sectionTitle : Option String
  imageUri : Option String
  deriving DecidableEq

/-- A row of `document_chunks`. -/
structure DocumentChunk where
  id : Uuid
  documentId : Uuid
  collectionId : Uuid
  fileName : String
  fileType : String
  chunk : ChunkData
  deriving DecidableEq

/-- A point of `rag_chunks`, by its payload. -/
structure RagPoint where
  id : Uuid
  documentId : Uuid
  collectionId : Uuid
  chunkType : ChunkType
  pageNumber : Option ℕ
  sectionTitle : Option String
  fileName : String
  fileType : String
  content : String
  imageUri : Option String
  deriving DecidableEq

/-- A point of `docs_pages`, by its payload. -/
structure PagePoint where
  id : Uuid
  documentId : Uuid
  collectionId : Uuid
  pageNumber : ℕ
  fileName : String
  fileType : String
  deriving DecidableEq

inductive Bucket where
  | figures
  | pages
  deriving DecidableEq

/-- An object `{bucket}/{doc_id}/{name}.png`. -/
structure StoredObject where
  bucket : Bucket
  documentId : Uuid
  name : String
  deriving DecidableEq

/-- A row of `ingest_jobs`. -/
structure IngestJob where
  documentId : Uuid
  status : IngestStatus
  attempt : ℕ
  error : Option String := none
  deriving DecidableEq

structure Stores where
  documents : Uuid → Option Document := fun _ => none
  chunks : List DocumentChunk := []
  jobs : Uuid → Option IngestJob := fun _ => none
  files : Finset Uuid := ∅
  ragPoints : List RagPoint := []
  pagePoints : List PagePoint := []
  objects : List StoredObject := []

/-- The rows of `document_chunks` a transaction has deleted and not committed. -/
abbrev Session := List DocumentChunk

namespace Stores

variable (stores : Stores)

/-! ## Postgres -/

/-- The committed rows of a document. -/
def chunksOf (documentId : Uuid) : List DocumentChunk :=
  stores.chunks.filter (·.documentId = documentId)

/-- The deletions of the session become visible. -/
def commitDeletes (session : Session) : Stores :=
  { stores with chunks := stores.chunks.filter (· ∉ session) }

def insertChunks (rows : List DocumentChunk) : Stores :=
  { stores with chunks := stores.chunks ++ rows }

def setDocument (documentId : Uuid) (document : Document) : Stores :=
  { stores with
    documents := Function.update stores.documents documentId (some document) }

def setJob (jobId : Uuid) (job : IngestJob) : Stores :=
  { stores with jobs := Function.update stores.jobs jobId (some job) }

/-- Delete the row of a document; its chunks and jobs go with it. -/
def deleteDocumentRow (documentId : Uuid) : Stores :=
  { stores with
    documents := Function.update stores.documents documentId none
    chunks := stores.chunks.filter (·.documentId ≠ documentId)
    jobs := fun jobId => (stores.jobs jobId).filter (·.documentId ≠ documentId) }

/-! ## Qdrant -/

def ragPointsOf (documentId : Uuid) : List RagPoint :=
  stores.ragPoints.filter (·.documentId = documentId)

def pagePointsOf (documentId : Uuid) : List PagePoint :=
  stores.pagePoints.filter (·.documentId = documentId)

/-- `QdrantIndex.delete_by_document` -/
def deleteRagPoints (documentId : Uuid) : Stores :=
  { stores with ragPoints := stores.ragPoints.filter (·.documentId ≠ documentId) }

/-- `QdrantIndex.upsert_points` -/
def upsertRagPoints (points : List RagPoint) : Stores :=
  { stores with
    ragPoints := stores.ragPoints.filter (·.id ∉ points.map (·.id)) ++ points }

/-- `PagesIndex.delete_by_document` -/
def deletePagePoints (documentId : Uuid) : Stores :=
  { stores with pagePoints := stores.pagePoints.filter (·.documentId ≠ documentId) }

/-- `PagesIndex.upsert_pages` -/
def upsertPagePoints (points : List PagePoint) : Stores :=
  { stores with
    pagePoints := stores.pagePoints.filter (·.id ∉ points.map (·.id)) ++ points }

/-! ## Objects and files -/

/-- `ObjectStore._put` -/
def putObject (object : StoredObject) : Stores :=
  { stores with objects := stores.objects.filter (· ≠ object) ++ [object] }

/-- `ObjectStore.delete_document`.  The `stuck` objects are those for which
`remove_objects` reports an error, which is logged only. -/
def deleteObjects (documentId : Uuid) (stuck : List StoredObject) : Stores :=
  { stores with
    objects := stores.objects.filter fun object =>
      object.documentId ≠ documentId ∨ object ∈ stuck }

/-- `storage.delete_document_files` -/
def deleteFiles (documentId : Uuid) : Stores :=
  { stores with files := stores.files.erase documentId }

/-! ## Rows and points of one document -/

section

variable {stores : Stores} {documentId : Uuid}

@[simp]
theorem chunksOf_commitDeletes (session : Session) :
    (stores.commitDeletes session).chunksOf documentId =
      (stores.chunksOf documentId).filter (· ∉ session) := by
  simp only [chunksOf, commitDeletes, List.filter_filter]
  congr 1
  funext row
  exact Bool.and_comm _ _

@[simp]
theorem chunksOf_insertChunks (rows : List DocumentChunk) :
    (stores.insertChunks rows).chunksOf documentId =
      stores.chunksOf documentId ++ rows.filter (·.documentId = documentId) := by
  simp [chunksOf, insertChunks]

@[simp]
theorem ragPointsOf_deleteRagPoints :
    (stores.deleteRagPoints documentId).ragPointsOf documentId = [] := by
  simp only [ragPointsOf, deleteRagPoints, List.filter_filter]
  rw [List.filter_eq_nil_iff]
  simp

@[simp]
theorem ragPointsOf_upsertRagPoints (points : List RagPoint) :
    (stores.upsertRagPoints points).ragPointsOf documentId =
      (stores.ragPointsOf documentId).filter (·.id ∉ points.map (·.id)) ++
        points.filter (·.documentId = documentId) := by
  simp only [ragPointsOf, upsertRagPoints, List.filter_append, List.filter_filter]
  congr 2
  funext point
  exact Bool.and_comm _ _

@[simp]
theorem pagePointsOf_deletePagePoints :
    (stores.deletePagePoints documentId).pagePointsOf documentId = [] := by
  simp only [pagePointsOf, deletePagePoints, List.filter_filter]
  rw [List.filter_eq_nil_iff]
  simp

@[simp]
theorem pagePointsOf_upsertPagePoints (points : List PagePoint) :
    (stores.upsertPagePoints points).pagePointsOf documentId =
      (stores.pagePointsOf documentId).filter (·.id ∉ points.map (·.id)) ++
        points.filter (·.documentId = documentId) := by
  simp only [pagePointsOf, upsertPagePoints, List.filter_append, List.filter_filter]
  congr 2
  funext point
  exact Bool.and_comm _ _

/-- Writing a row removes none. -/
theorem documents_of_setDocument {other : Uuid} {document : Document}
    (hgone : (stores.setDocument documentId document).documents other = none) :
    stores.documents other = none := by
  by_cases hother : other = documentId
  · rw [hother] at hgone
    simp [setDocument] at hgone
  · simpa [setDocument, hother] using hgone

theorem mem_chunksOf {row : DocumentChunk} :
    row ∈ stores.chunksOf documentId ↔
      row ∈ stores.chunks ∧ row.documentId = documentId := by
  simp [chunksOf]

end

end Stores

end AgenticRag.Ingestion
