import AgenticRag.Cache.SemanticCache
import AgenticRag.Graph.Grading
import AgenticRag.Graph.Prompts

/-!
# The clients of the external services

The collaborators of the nodes in terms of the calls they make to the language
model, the vector database, the embeddings service and the other services.
`Backends` is the behaviour of every such call during one node execution,
including raising; `servicesOf` is what the clients make of it.  The parser of the
replies and the text of their parts are parameters, and a reply may be any text.
-/

namespace AgenticRag.Clients

open AgenticRag.PyString AgenticRag.Cache

/-! ## Replies -/

/-- What `json.loads` returns; the keys of an object are unique. -/
inductive Json where
  | null
  | bool (value : Bool)
  | number (value : ℚ)
  | string (text : String)
  | array (items : List Json)
  | object (fields : List (String × Json))

/-- `bool(value)` -/
def Json.truthy : Json → Bool
  | .null => false
  | .bool value => value
  | .number value => value ≠ 0
  | .string text => text ≠ ""
  | .array items => ! items.isEmpty
  | .object fields => ! fields.isEmpty

/-- What `for part in value` runs over; `none` for a value it raises on. -/
def Json.parts : Json → Option (List Json)
  | .array items => some items
  | .string text => some (text.toList.map fun char => .string (String.singleton char))
  | .object fields => some (fields.map fun field => .string field.1)
  | .null | .bool _ | .number _ => none

mutual

/-- `repr` of a value whose numbers are integers and whose texts need no escapes. -/
def Json.repr : Json → String
  | .null => "None"
  | .bool value => if value then "True" else "False"
  | .number value => toString value.num
  | .string text => "'" ++ text ++ "'"
  | .array items => "[" ++ ", ".intercalate (Json.reprItems items) ++ "]"
  | .object fields => "\x7b" ++ ", ".intercalate (Json.reprFields fields) ++ "\x7d"

def Json.reprItems : List Json → List String
  | [] => []
  | item :: rest => item.repr :: Json.reprItems rest

def Json.reprFields : List (String × Json) → List String
  | [] => []
  | (key, value) :: rest => ("'" ++ key ++ "': " ++ value.repr) :: Json.reprFields rest

end

/-- `str(value)`: a text is its own. -/
def Json.str : Json → String
  | .string text => text
  | .null => Json.null.repr
  | .bool value => (Json.bool value).repr
  | .number value => (Json.number value).repr
  | .array items => (Json.array items).repr
  | .object fields => (Json.object fields).repr

/-- The text from the first `{` to the last `}`, if both are there. -/
def extractObject (text : String) : String :=
  let start := text.toList.findIdx (· = '{')
  let stop := text.length - 1 - text.toList.reverse.findIdx (· = '}')
  if '{' ∈ text.toList ∧ '}' ∈ text.toList then
    String.ofList ((text.toList.take (stop + 1)).drop start)
  else text

/-! ## Calls -/

/-- The system prompts. -/
inductive Prompt where
  | intentRouter
  | planner
  | rewrite
  | relevance
  | grounded
  /-- The one of the generator depends on the language of the question. -/
  | generator (query : String)
  deriving DecidableEq

structure ChatRequest where
  prompt : Prompt
  user : String
  images : List String := []
  deriving DecidableEq

/-- A streamed completion: the deltas that arrived, and the exception that ended it. -/
structure Streamed where
  deltas : List String
  raised : Option Failure := none

/-- The collections of the vector database. -/
inductive VectorCollection where
  | docs
  | pages
  | cache
  deriving DecidableEq

/-- A point of the text collection as a search returns it. -/
structure FoundPoint where
  id : Uuid
  documentId : Uuid
  collectionId : Uuid
  chunkType : String
  pageNumber : Option ℕ
  sectionTitle : Option String
  content : String
  fileName : Option String
  imageUri : Option String
  deriving DecidableEq

/-- The behaviour of the external services during one node execution, with the clock
the cache reads. -/
structure Backends (V : Type) where
  now : ℚ
  chat : ChatRequest → Except Failure String
  chatStream : ChatRequest → Streamed
  embedDense : String → Except Failure V
  embedSparse : String → Except Failure V
  rerank : String → List String → Except Failure (List ℚ)
  collectionExists : VectorCollection → Except Failure Bool
  queryCache : V → String → Except Failure (List (ScoredPoint V))
  queryChunks : V → V → Finset Uuid → ℕ → Except Failure (List FoundPoint)
  embedQuery : String → Except Failure V
  /-- A point without a valid payload is `none`. -/
  queryPages : V → Finset Uuid → ℕ → Except Failure (List (Option PageHit))
  selectDocuments : Finset Uuid → String → Except Failure (List Chunk)
  loadImage : String → Option String
  cacheStore : StoreCall → Except Failure Unit
  rpush : EvalPayload → Except Failure Unit

/-- What the clients are configured with. -/
structure Config where
  settings : Settings := {}
  retrievalTopK : ℕ := 20
  retrievalTopN : ℕ := 5
  visualTopKPages : ℕ := 4
  /-- The tokens are written to a stream. -/
  streaming : Bool := true
  sha256 : String → String
  /-- `json.loads`, `none` when it raises -/
  loads : String → Option Json
  /-- `str` of a part of a reply -/
  str : Json → String

section Clients

variable {V : Type} (config : Config) (backends : Backends V)

/-! ## Language model -/

/-- `_chat` -/
def chat (request : ChatRequest) : Except Failure String :=
  (backends.chat request).map strip

/-- `.get(key, default)` of a parsed reply; the error stands for the
`AttributeError` of a value that is no object. -/
def Json.get (value : Json) (key : String) (default : Json) : Except Failure Json :=
  match value with
  | .object fields => .ok ((fields.lookup key).getD default)
  | .null | .bool _ | .number _ | .string _ | .array _ => .error "AttributeError"

/-- `_json`: any failure on the way gives the default. -/
def jsonField (prompt : Prompt) (user key : String) (default : Json) : Json :=
  match chat backends { prompt := prompt, user := user } with
  | .error _ => default
  | .ok out =>
      match config.loads (extractObject out) with
      | none => default
      | some reply =>
          match reply.get key default with
          | .error _ => default
          | .ok value => value

/-- `route_intent` -/
def routeIntent (query : String) : Option String :=
  match jsonField config backends .intentRouter query "intent" .null with
  | .string intent => some intent
  | .null | .bool _ | .number _ | .array _ | .object _ => none

/-- The `steps` of the reply of the planner. -/
def planSteps (query : String) : Json :=
  jsonField config backends .planner query "steps" (.array [.string query])

/-- `plan`: the list is built outside the handler of `_json`. -/
def plan (query : String) : Except Failure (List String) :=
  match (planSteps config backends query).parts with
  | none => .error "TypeError"
  | some steps =>
      let texts := (steps.map config.str).take 3
      .ok (if texts = [] then [query] else texts)

/-- `rewrite_query` -/
def rewriteQuery (query : String) : String :=
  match chat backends { prompt := .rewrite, user := query } with
  | .error _ => query
  | .ok text => if text = "" then query else text

/-- `generate`, with or without a writer for the tokens. -/
def generate (call : GenerateCall) : Generation :=
  let request : ChatRequest :=
    { prompt := .generator call.query
      user := Prompts.generatorUser call.query call.contexts call.history
      images := call.images }
  if config.streaming then
    let streamed := backends.chatStream request
    { text :=
        if streamed.raised.isSome then "" else strip (String.join streamed.deltas)
      tokens := streamed.deltas.filter (· ≠ "") }
  else
    match chat backends request with
    | .error _ => { text := "" }
    | .ok text => { text := text }

/-- The user message of `grade_relevance` -/
def relevanceUser (query context : String) : String :=
  "Question: " ++ query ++ "\n\nContext:\n" ++ String.ofList (context.toList.take 1500)

/-- `grade_relevance` -/
def gradeRelevance (query : String) (contexts : List String) : Bool :=
  match contexts with
  | [] => false
  | first :: _ =>
      (jsonField config backends .relevance (relevanceUser query first) "relevant"
        (.bool true)).truthy

/-- `grade_grounded` -/
def gradeGrounded (answer : String) (contexts : List String) : Bool :=
  if answer = "" then false
  else
    (jsonField config backends .grounded (Graph.groundedUser answer contexts) "grounded"
      (.bool true)).truthy

/-! ## Semantic cache -/

/-- `SemanticCache.lookup`; what it evicts is not part of the result. -/
def cacheLookup (allowed : Finset Uuid) (query : String) :
    Except Failure (Option CacheHit) :=
  if isBlank query then .ok none
  else do
    let present ← backends.collectionExists .cache
    if present = false then .ok none
    else do
      let dense ← backends.embedDense query
      let points ← backends.queryCache dense (scopeHash config.sha256 allowed)
      .ok (points.foldl (scanStep config.settings backends.now allowed) {}).hit

/-! ## Retrieval -/

/-- `sorted(..., key=score, reverse=True)`, which is stable. -/
def byScore (scored : List (FoundPoint × ℚ)) : List (FoundPoint × ℚ) :=
  scored.insertionSort fun left right => right.2 ≤ left.2

/-- The relevance gate: what is far below the best score is dropped. -/
def gate (scores : List ℚ) (order : List (FoundPoint × ℚ)) : List (FoundPoint × ℚ) :=
  let best := scores.foldl max (scores.headD 0)
  let gated := order.filter fun scored => best * (5 / 100) ≤ scored.2
  if 0 < best then (if gated = [] then order else gated) else order

def toRetrieved (scored : FoundPoint × ℚ) : RetrievedChunk where
  chunkId := scored.1.id
  documentId := scored.1.documentId
  collectionId := scored.1.collectionId
  chunkType := scored.1.chunkType
  pageNumber := scored.1.pageNumber
  sectionTitle := scored.1.sectionTitle
  score := scored.2
  snippet := String.ofList (scored.1.content.toList.take 300)
  content := scored.1.content
  fileName := scored.1.fileName
  imageUri := scored.1.imageUri

/-- The chunks of the response; a score is read for every point. -/
def reranked (points : List FoundPoint) (scores : List ℚ) :
    Except Failure (List RetrievedChunk) :=
  if scores.length < points.length then .error "IndexError"
  else .ok (((gate scores (byScore (points.zip scores))).take config.retrievalTopN).map
    toRetrieved)

/-- `Retriever.search` -/
def search (allowed : Finset Uuid) (query : String) :
    Except Failure (List RetrievedChunk) :=
  if allowed = ∅ ∨ isBlank query then .ok []
  else do
    let present ← backends.collectionExists .docs
    if present = false then .ok []
    else do
      let dense ← backends.embedDense query
      let sparse ← backends.embedSparse query
      let points ← backends.queryChunks dense sparse allowed config.retrievalTopK
      if points = [] then .ok []
      else do
        let scores ← backends.rerank query (points.map (·.content))
        reranked config points scores

/-- `ColQwenClient.enabled` -/
def colqwenEnabled (settings : Settings) : Bool :=
  settings.visualPath = .full ∧ settings.colqwenBaseUrl.toList.any (· ≠ '/')

/-- The part of `VisualRetriever.search` behind `collection_exists`: both of its calls
degrade to no pages. -/
def foundPages (allowed : Finset Uuid) (query : String) : List PageHit :=
  match backends.embedQuery query with
  | .error _ => []
  | .ok multivector =>
      match backends.queryPages multivector allowed config.visualTopKPages with
      | .error _ => []
      | .ok points => points.reduceOption

/-- `VisualRetriever.search` -/
def searchPages (allowed : Finset Uuid) (query : String) :
    Except Failure (List PageHit) :=
  if allowed = ∅ ∨ isBlank query then .ok []
  else if colqwenEnabled config.settings = false then .ok []
  else do
    let present ← backends.collectionExists .pages
    if present = false then .ok [] else .ok (foundPages config backends allowed query)

/-- The collaborators of a node execution. -/
def servicesOf : Services where
  cacheLookup := cacheLookup config backends
  routeIntent query := .ok (routeIntent config backends query)
  lookupDocuments := backends.selectDocuments
  plan := plan config backends
  search := search config backends
  searchPages := searchPages config backends
  gradeRelevance query contexts := .ok (gradeRelevance config backends query contexts)
  rewriteQuery query := .ok (rewriteQuery backends query)
  objectStore := backends.loadImage
  generate call := .ok (generate config backends call)
  gradeGrounded answer contexts := .ok (gradeGrounded config backends answer contexts)
  cacheStore := backends.cacheStore
  rpush := backends.rpush

end Clients

end AgenticRag.Clients
