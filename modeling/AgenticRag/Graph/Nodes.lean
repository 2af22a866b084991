import AgenticRag.Context.Assembler
import AgenticRag.Graph.Citations
import AgenticRag.Graph.FollowUp

/-!
# Graph nodes

Each node maps the state to a partial update and the calls it makes that change
something outside the state.  The language model, the retrievers, the metadata
lookup and the cache are parameters: `Services` holds what each of them does
during one node execution, including raising.
-/

namespace AgenticRag

open AgenticRag.PyString AgenticRag.FollowUp AgenticRag.Assembler
open AgenticRag.Citations

structure CacheHit where
  answer : String
  queryText : String
  score : ℚ
  collectionIds : Finset Uuid
  documentIds : Finset Uuid
  citations : List Citation
  deriving DecidableEq

structure RetrievedChunk where
  chunkId : Uuid
  documentId : Uuid
  collectionId : Uuid
  chunkType : String
  pageNumber : Option ℕ
  sectionTitle : Option String
  score : ℚ
  snippet : String
  content : String
  fileName : Option String
  imageUri : Option String
  deriving DecidableEq

/-- The state dictionary of a retrieved chunk. -/
def RetrievedChunk.toChunk (chunk : RetrievedChunk) : Chunk where
  chunkId := chunk.chunkId
  documentId := chunk.documentId
  collectionId := chunk.collectionId
  chunkType := chunk.chunkType
  pageNumber := chunk.pageNumber
  sectionTitle := chunk.sectionTitle
  content := chunk.content
  score := chunk.score
  fileName := chunk.fileName
  imageUri := chunk.imageUri

/-- The arguments of `llm.generate`. -/
structure GenerateCall where
  query : String
  contexts : List String
  history : List Message
  images : List String
  deriving DecidableEq

/-- What `llm.generate` returns, and the tokens it streamed on the way. -/
structure Generation where
  text : String
  tokens : List String := []
  deriving DecidableEq

/-- The arguments of `SemanticCache.store`. -/
structure StoreCall where
  query : String
  answer : String
  sourceCollectionIds : Finset Uuid
  sourceDocumentIds : Finset Uuid
  requesterScope : Option (Finset Uuid)
  citations : List Citation
  deriving DecidableEq

/-- The payload pushed to the evaluation queue. -/
structure EvalPayload where
  requestId : Option String
  query : Option String
  answer : String
  route : Option String
  cacheHit : Bool
  contexts : List String
  retrievedDocumentIds : List Uuid
  citations : List Citation
  insufficient : Bool
  deriving DecidableEq

/-- The collaborators of one node execution. -/
structure Services where
  cacheLookup : Finset Uuid → String → Except Failure (Option CacheHit)
  routeIntent : String → Except Failure (Option String)
  lookupDocuments : Finset Uuid → String → Except Failure (List Chunk)
  plan : String → Except Failure (List String)
  search : Finset Uuid → String → Except Failure (List RetrievedChunk)
  searchPages : Finset Uuid → String → Except Failure (List PageHit)
  gradeRelevance : String → List String → Except Failure Bool
  rewriteQuery : String → Except Failure String
  objectStore : String → Option String
  generate : GenerateCall → Except Failure Generation
  gradeGrounded : String → List String → Except Failure Bool
  cacheStore : StoreCall → Except Failure Unit
  rpush : EvalPayload → Except Failure Unit

/-- A call a node makes to the outside, with its outcome. -/
inductive Effect where
  | generated (call : GenerateCall) (result : Generation)
  | stored (call : StoreCall) (succeeded : Bool)
  | enqueued (payload : EvalPayload) (succeeded : Bool)
  deriving DecidableEq

abbrev NodeResult := Except Failure (GraphState × List Effect)

def succeeded {α : Type} (result : Except Failure α) : Bool :=
  match result with
  | .ok _ => true
  | .error _ => false

/-! ## Intent router -/

/-- `INTENTS` -/
def intents : List String :=
  ["text", "visual", "metadata", "multi_doc"]

/-- `RouterDecision` without its latency. -/
structure RouterDecision where
  intent : String
  source : String
  deriving DecidableEq

def fallbackDecision : RouterDecision :=
  ⟨"text", "fallback"⟩

/-- `IntentRouter.classify` -/
def classify (routeIntent : String → Except Failure (Option String))
    (query : String) : RouterDecision :=
  if isBlank query then fallbackDecision
  else
    match routeIntent query with
    | .ok (some raw) => if raw ∈ intents then ⟨raw, "llm"⟩ else fallbackDecision
    | _ => fallbackDecision

namespace Nodes

/-- `call if condition else default`, for a call that can raise. -/
def callIf {α : Type} (condition : Prop) [Decidable condition] (default : α)
    (call : Except Failure α) : Except Failure α :=
  if condition then call else .ok default

/-- `_bump` -/
def bump (state : GraphState) : ℕ :=
  state.iterations.getD 0 + 1

def inputGuard (state : GraphState) : GraphState :=
  let update : GraphState :=
    { iterations := some (bump state)
      retrievalRetries := some (state.retrievalRetries.getD 0)
      generationRetries := some (state.generationRetries.getD 0) }
  if isBlank state.queryText then
    { update with
      insufficient := some true
      answer := some "Empty query."
      messages := [⟨.assistant, "Empty query."⟩] }
  else update

def semanticCache (services : Services) (state : GraphState) :
    Except Failure GraphState := do
  let hit ← callIf (state.allowed ≠ ∅) none
    (services.cacheLookup state.allowed state.queryText)
  match hit with
  | some hit =>
      let fallback := (SortedSet.ascending hit.documentIds).map
        fun document => ({ documentId := document } : Citation)
      pure
        { iterations := some (bump state)
          cacheHit := some true
          answer := some hit.answer
          citations := some (if hit.citations = [] then fallback else hit.citations)
          messages := [⟨.assistant, hit.answer⟩] }
  | none => pure { iterations := some (bump state), cacheHit := some false }

def router (services : Services) (state : GraphState) : GraphState :=
  let decision := classify services.routeIntent state.queryText
  { iterations := some (bump state)
    intent := some decision.intent
    intentSource := some decision.source
    route := some decision.intent }

/-- A failed lookup degrades to no hits. -/
def metadataLookup (services : Services) (state : GraphState) : GraphState :=
  let chunks :=
    if state.allowed = ∅ then []
    else
      match services.lookupDocuments state.allowed state.queryText with
      | .ok chunks => chunks
      | .error _ => []
  { iterations := some (bump state), chunks := some chunks }

def planner (services : Services) (state : GraphState) :
    Except Failure GraphState := do
  let steps ← services.plan state.queryText
  pure { iterations := some (bump state), plan := some steps }

/-- The text the retrievers search for: the rewritten query, else the question,
prefixed by the previous user message when it is a follow-up. -/
def retrievalQuery (state : GraphState) : String :=
  let rewritten := state.rewrittenQuery.getD ""
  if rewritten = "" then contextualize state.messages state.queryText
  else rewritten

def retriever (services : Services) (state : GraphState) :
    Except Failure GraphState := do
  let query := retrievalQuery state
  let chunks ← callIf (state.allowed ≠ ∅) [] (services.search state.allowed query)
  let pageHits ← callIf (state.intent = some "visual" ∧ state.allowed ≠ ∅) []
    (services.searchPages state.allowed query)
  pure
    { iterations := some (bump state)
      pageHits := some pageHits
      chunks := some (chunks.map RetrievedChunk.toChunk) }

def retrievalGrader (services : Services) (state : GraphState) :
    Except Failure GraphState := do
  let ok ← callIf (state.chunkList ≠ []) false
    (services.gradeRelevance state.queryText (state.chunkList.map (·.content)))
  pure { iterations := some (bump state), relevanceOk := some ok }

def rewrite (services : Services) (state : GraphState) :
    Except Failure GraphState := do
  let rewritten ← services.rewriteQuery state.queryText
  pure
    { iterations := some (bump state)
      retrievalRetries := some (state.retrievalRetries.getD 0 + 1)
      rewrittenQuery := some rewritten }

/-- The image limit of the generator: page images only for a multimodal model. -/
def imageLimit (settings : Settings) : ℕ :=
  if settings.llmMultimodal then settings.contextMaxImages else 0

/-- The context the generator assembles from the state. -/
def assembled (settings : Settings) (services : Services) (state : GraphState) :
    AssembledContext :=
  assemble settings services.objectStore state.chunkList state.pageHitList
    state.allowed none (some (imageLimit settings))

/-- The arguments of the model call.  All messages have one of the two roles of
the history, and the last one is the current question. -/
def generateCall (settings : Settings) (services : Services)
    (state : GraphState) : GenerateCall where
  query := state.queryText
  contexts := (assembled settings services state).blocks
  history := state.messages.dropLast
  images := (assembled settings services state).images.map (·.b64)

def generator (settings : Settings) (services : Services) (state : GraphState) :
    NodeResult := do
  let context := assembled settings services state
  let call := generateCall settings services state
  let generation ← services.generate call
  let answer := normalizeMarkers generation.text
  let citations ← extractCitations answer context.packedChunks
  pure
    ({ iterations := some (bump state)
       answer := some answer
       citations := some citations
       contextTokens := some context.tokenCount
       contextImages := some context.images.length },
      [.generated call generation])

def hallucinationGrader (settings : Settings) (services : Services)
    (state : GraphState) : Except Failure GraphState := do
  let answer := strip state.answerText
  let grounded ← callIf (settings.hallucinationCheckEnabled = true)
    (answer ≠ "" && answer ≠ insufficientAnswerText)
    (services.gradeGrounded answer (state.chunkList.map (·.content)))
  pure { iterations := some (bump state), grounded := some grounded }

def retryGeneration (state : GraphState) : GraphState where
  iterations := some (bump state)
  generationRetries := some (state.generationRetries.getD 0 + 1)

def insufficient (state : GraphState) : GraphState where
  iterations := some (bump state)
  insufficient := some true
  answer := some insufficientAnswerText
  citations := some []
  messages := [⟨.assistant, insufficientAnswerText⟩]

def finalizeAnswer (state : GraphState) : GraphState where
  iterations := some (bump state)
  messages := [⟨.assistant, state.answerText⟩]

/-- The entry `cache_writer` asks the cache to store. -/
def storeCall (state : GraphState) : StoreCall where
  query := state.queryText
  answer := state.answerText
  sourceCollectionIds := (state.chunkList.map (·.collectionId)).toFinset
  sourceDocumentIds := (state.chunkList.map (·.documentId)).toFinset
  requesterScope := some state.allowed
  citations := state.citations.getD []

/-- There is an answer from chunks to store. -/
def WritesAnswer (state : GraphState) : Prop :=
  state.answerText ≠ "" ∧ state.chunkList ≠ [] ∧
    GraphState.flag state.insufficient = false

instance (state : GraphState) : Decidable (WritesAnswer state) :=
  inferInstanceAs (Decidable (_ ∧ _))

/-- A failed store is logged and swallowed. -/
def cacheWriter (services : Services) (state : GraphState) :
    GraphState × List Effect :=
  let call := storeCall state
  let effects :=
    if WritesAnswer state then
      [Effect.stored call (succeeded (services.cacheStore call))]
    else []
  ({ iterations := some (bump state) }, effects)

def evalPayload (state : GraphState) : EvalPayload where
  requestId := state.requestId
  query := state.query
  answer := state.answerText
  route := state.route
  cacheHit := GraphState.flag state.cacheHit
  contexts := state.chunkList.map (·.content)
  retrievedDocumentIds :=
    SortedSet.ascending (state.chunkList.map (·.documentId)).toFinset
  citations := state.citations.getD []
  insufficient := GraphState.flag state.insufficient

def evalQueue (settings : Settings) (services : Services) (state : GraphState) :
    GraphState × List Effect :=
  let payload := evalPayload state
  let effects :=
    if settings.evalEnabled then
      [Effect.enqueued payload (succeeded (services.rpush payload))]
    else []
  ({ iterations := some (bump state) }, effects)

end Nodes

end AgenticRag
