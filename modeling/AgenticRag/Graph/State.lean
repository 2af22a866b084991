import AgenticRag.Text.Uuid

/-!
# The graph state

`GraphState` is a `TypedDict` with `total=False`: every key may be absent, and a
node returns a partial dictionary of the same type.  The checkpointer persists
all keys of a thread, so the state a turn starts from is the state the previous
turn ended with.

The latency keys are left out: no node and no route reads them.
-/

namespace AgenticRag

/-- An exception that a call raises. -/
abbrev Failure := String

inductive Role where
  | user
  | assistant
  deriving DecidableEq

structure Message where
  role : Role
  content : String
  deriving DecidableEq

/-- A retrieved chunk in graph-state shape. -/
structure Chunk where
  chunkId : Uuid
  documentId : Uuid
  collectionId : Uuid
  chunkType : String
  pageNumber : Option ℕ
  sectionTitle : Option String
  content : String
  score : ℚ
  fileName : Option String
  imageUri : Option String
  deriving DecidableEq

/-- A visual page hit in graph-state shape. -/
structure PageHit where
  pointId : Uuid
  documentId : Uuid
  collectionId : Uuid
  pageNumber : ℕ
  imageUri : String
  fileName : Option String
  score : ℚ
  deriving DecidableEq

/-- A citation record.  Only `documentId` is present in the records made up for
a cache entry that was written before citations were cached. -/
structure Citation where
  marker : Option ℕ := none
  documentId : Uuid
  chunkId : Option Uuid := none
  pageNumber : Option ℕ := none
  chunkType : Option String := none
  fileName : Option String := none
  sectionTitle : Option String := none
  content : Option String := none
  imageUri : Option String := none
  deriving DecidableEq

/-- `INSUFFICIENT_ANSWER` -/
def insufficientAnswerText : String :=
  "I don't have enough supporting evidence in the documents you can access to " ++
    "answer that confidently."

structure GraphState where
  messages : List Message := []
  query : Option String := none
  allowedCollectionIds : Option (List Uuid) := none
  requestId : Option String := none
  rewrittenQuery : Option String := none
  route : Option String := none
  intent : Option String := none
  intentSource : Option String := none
  plan : Option (List String) := none
  chunks : Option (List Chunk) := none
  pageHits : Option (List PageHit) := none
  answer : Option String := none
  citations : Option (List Citation) := none
  contextTokens : Option ℕ := none
  contextImages : Option ℕ := none
  cacheHit : Option Bool := none
  relevanceOk : Option Bool := none
  grounded : Option Bool := none
  insufficient : Option Bool := none
  retrievalRetries : Option ℕ := none
  generationRetries : Option ℕ := none
  iterations : Option ℕ := none
  deriving DecidableEq

namespace GraphState

/-- Apply a partial update: `messages` has the reducer `operator.add`, every
other key that the update contains replaces the persisted value. -/
def merge (state update : GraphState) : GraphState where
  messages := state.messages ++ update.messages
  query := update.query.or state.query
  allowedCollectionIds := update.allowedCollectionIds.or state.allowedCollectionIds
  requestId := update.requestId.or state.requestId
  rewrittenQuery := update.rewrittenQuery.or state.rewrittenQuery
  route := update.route.or state.route
  intent := update.intent.or state.intent
  intentSource := update.intentSource.or state.intentSource
  plan := update.plan.or state.plan
  chunks := update.chunks.or state.chunks
  pageHits := update.pageHits.or state.pageHits
  answer := update.answer.or state.answer
  citations := update.citations.or state.citations
  contextTokens := update.contextTokens.or state.contextTokens
  contextImages := update.contextImages.or state.contextImages
  cacheHit := update.cacheHit.or state.cacheHit
  relevanceOk := update.relevanceOk.or state.relevanceOk
  grounded := update.grounded.or state.grounded
  insufficient := update.insufficient.or state.insufficient
  retrievalRetries := update.retrievalRetries.or state.retrievalRetries
  generationRetries := update.generationRetries.or state.generationRetries
  iterations := update.iterations.or state.iterations

/-- `state["query"]`; the caller seeds the key in every turn. -/
def queryText (state : GraphState) : String :=
  state.query.getD ""

/-- `_uuids(state.get("allowed_collection_ids", []))` -/
def allowed (state : GraphState) : Finset Uuid :=
  (state.allowedCollectionIds.getD []).toFinset

/-- `state.get("chunks", [])` -/
def chunkList (state : GraphState) : List Chunk :=
  state.chunks.getD []

/-- `state.get("page_hits", [])` -/
def pageHitList (state : GraphState) : List PageHit :=
  state.pageHits.getD []

/-- `state.get("answer", "")` -/
def answerText (state : GraphState) : String :=
  state.answer.getD ""

/-- Python truth of a flag that may be absent. -/
def flag (value : Option Bool) : Bool :=
  value.getD false

end GraphState

end AgenticRag
