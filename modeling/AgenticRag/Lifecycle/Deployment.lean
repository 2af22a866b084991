import AgenticRag.Cache.Sweep
import AgenticRag.Chat.Service
import AgenticRag.Ingestion.Documents

/-!
# Chat turns beside a document operation

The chat service, the ingest worker and one call of `delete_document` or
`reindex_document`, command by command.  Search and lookup of a turn find what
the stores contain at that moment; the invalidation of the operation is one more
caller of the cache.
-/

namespace AgenticRag.Lifecycle

open AgenticRag.Graph AgenticRag.Cache AgenticRag.Ingestion

/-! ## What a turn can find -/

/-- `ChunkType.value` -/
def chunkTypeValue : ChunkType → String
  | .text => "text"
  | .table => "table"
  | .image => "image"
  | .chart => "chart"
  | .diagram => "diagram"
  | .form => "form"
  | .ocr => "ocr"

/-- A search result made of the payload of a point. -/
def toRetrieved (point : RagPoint) (score : ℚ) : RetrievedChunk where
  chunkId := point.id
  documentId := point.documentId
  collectionId := point.collectionId
  chunkType := chunkTypeValue point.chunkType
  pageNumber := point.pageNumber
  sectionTitle := point.sectionTitle
  score := score
  snippet := String.ofList (point.content.toList.take 300)
  content := point.content
  fileName := some point.fileName
  imageUri := point.imageUri

/-- The collaborators of a node, searching the stores as they are. -/
def searching (stores : Stores) (services : Services) : Services :=
  { services with
    search := fun allowed query =>
      (services.search allowed query).map fun chunks => chunks.filter fun chunk =>
        stores.ragPoints.any fun point => chunk = toRetrieved point chunk.score
    searchPages := fun allowed query =>
      (services.searchPages allowed query).map fun hits => hits.filter fun hit =>
        stores.pagePoints.any fun point => hit.pointId = point.id &&
          hit.documentId = point.documentId && hit.collectionId = point.collectionId
    lookupDocuments := fun allowed query =>
      (services.lookupDocuments allowed query).map fun chunks => chunks.filter fun chunk =>
        (stores.documents chunk.documentId).isSome }

/-! ## The operation -/

/-- A call of one of the two handlers. -/
inductive Handler where
  | delete (phase : DeletePhase)
  | reindex (jobId : Uuid) (phase : ReindexPhase)
  deriving DecidableEq

namespace Handler

/-- The call has not sent a command. -/
def waiting : Handler → Bool
  | .delete .loading | .reindex _ .loading => true
  | _ => false

/-- The call waits for `invalidate_document`. -/
def invalidating : Handler → Bool
  | .delete .invalidating | .reindex _ .invalidating => true
  | _ => false

/-- `invalidate_document` has returned to the call. -/
def invalidated : Handler → Bool
  | .delete .deletingFiles | .delete .deletingRow | .delete .deleted => true
  | .reindex _ .enqueueing | .reindex _ .reindexed => true
  | _ => false

/-- The call has returned without an error. -/
def returned : Handler → Bool
  | .delete .deleted | .reindex _ .reindexed => true
  | _ => false

/-- The next command of the call. -/
def advance (documentId : Uuid) (stores : Stores) (worker : Worker) (outcome : Outcome) :
    Handler → Option (Stores × Worker × Handler)
  | .delete phase =>
      (deleteStep documentId (stores, phase) outcome).map fun (stores, phase) =>
        (stores, worker, .delete phase)
  | .reindex jobId phase =>
      (reindexStep documentId jobId (stores, worker, phase) outcome).map
        fun (stores, worker, phase) => (stores, worker, .reindex jobId phase)

theorem invalidated_of_returned {handler : Handler} (hreturned : handler.returned = true) :
    handler.invalidated = true := by
  cases handler with
  | delete phase =>
      cases phase with
      | deleted => rfl
      | _ => cases hreturned
  | reindex jobId phase =>
      cases phase with
      | reindexed => rfl
      | _ => cases hreturned

/-- Only the end of the invalidation brings the call behind it. -/
theorem advance_invalidated {documentId : Uuid} {stores after : Stores}
    {worker moved : Worker} {outcome : Outcome} {handler next : Handler}
    (hadvance : handler.advance documentId stores worker outcome = some (after, moved, next))
    (hinvalidated : next.invalidated = true) :
    handler.invalidated = true ∨ (handler.invalidating = true ∧ outcome = .ok) := by
  cases handler with
  | delete phase =>
      obtain ⟨⟨reached, following⟩, hstep, heq⟩ := Option.map_eq_some_iff.mp hadvance
      cases heq
      cases phase with
      | invalidating =>
          cases outcome with
          | ok => exact Or.inr ⟨rfl, rfl⟩
          | raise message | late message =>
              cases hstep
              cases hinvalidated
      | deletingFiles | deletingRow | deleted => exact Or.inl rfl
      | clearingPoints | failed _ =>
          cases outcome <;> cases hstep <;> cases hinvalidated
      | loading =>
          cases outcome with
          | ok =>
              simp only [deleteStep] at hstep
              split at hstep <;> cases hstep <;> cases hinvalidated
          | raise message | late message =>
              cases hstep
              cases hinvalidated
  | reindex jobId phase =>
      obtain ⟨⟨reached, following, _⟩, hstep, heq⟩ := Option.map_eq_some_iff.mp hadvance
      cases heq
      cases phase with
      | invalidating =>
          cases outcome with
          | ok => exact Or.inr ⟨rfl, rfl⟩
          | raise message | late message =>
              cases hstep
              cases hinvalidated
      | enqueueing | reindexed => exact Or.inl rfl
      | failed _ => cases outcome <;> cases hstep
      | loading =>
          cases outcome with
          | ok =>
              simp only [reindexStep] at hstep
              split at hstep <;> cases hstep <;> cases hinvalidated
          | raise message | late message =>
              cases hstep
              cases hinvalidated
      | committing =>
          cases outcome with
          | ok | late message =>
              simp only [reindexStep] at hstep
              split at hstep <;> cases hstep <;> cases hinvalidated
          | raise message =>
              cases hstep
              cases hinvalidated

end Handler

/-! ## The deployment -/

/-- The parts that run beside one another, and the caller of the cache that
executes the invalidation of the operation. -/
structure Deployment (V : Type) where
  service : Chat.Service V
  stores : Stores
  worker : Worker
  handler : Handler
  evictor : Option ℕ := none

inductive Event (V : Type) where
  | chat (event : Chat.Event V)
  | worker (action : WorkerAction)
  | invalidate (caller : ℕ)
  | handle (outcome : Outcome)

/-- A chat event, with what the stores contain. -/
def connected {V : Type} (stores : Stores) : Chat.Event V → Chat.Event V
  | .node request services now => .node request (searching stores services) now
  | event => event

namespace Deployment

variable {V : Type} (settings : Settings) (backend : Backend V) (documentId : Uuid)

/-- The invalidation of the operation has returned. -/
def evicted (deployment : Deployment V) : Bool :=
  match deployment.evictor with
  | some caller => (deployment.service.cache.process caller).isReturned
  | none => false

def step (deployment : Deployment V) : Event V → Option (Deployment V)
  | .chat event =>
      (deployment.service.step settings backend (connected deployment.stores event)).map
        fun service => { deployment with service := service }
  | .worker action =>
      (workerStep settings (deployment.stores, deployment.worker) action).map
        fun (stores, worker) => { deployment with stores := stores, worker := worker }
  | .invalidate caller =>
      if deployment.handler.invalidating = true ∧ deployment.evictor = none then
        (deployment.service.step settings backend
          (.cache (.invoke caller (.evict (.doc documentId))))).map fun service =>
            { deployment with service := service, evictor := some caller }
      else none
  | .handle outcome =>
      if deployment.handler.invalidating = true ∧ outcome = .ok ∧
          deployment.evicted = false then none
      else
        (deployment.handler.advance documentId deployment.stores deployment.worker
          outcome).map fun (stores, worker, handler) =>
            { deployment with stores := stores, worker := worker, handler := handler }

/-- Before the first request: any stores, any queue, a call that has just begun. -/
def opening (tables : Access.Tables) (stores : Stores) (worker : Worker)
    (handler : Handler) : Deployment V where
  service := { tables := tables }
  stores := stores
  worker := worker
  handler := handler

def run (start : Deployment V) (events : List (Event V)) : Option (Deployment V) :=
  Transition.exec (step settings backend documentId) start events

/-- The operation has returned and the worker has nothing more to do. -/
structure Over (deployment : Deployment V) : Prop where
  returned : deployment.handler.returned = true
  idle : deployment.worker.phase = .idle
  queue : deployment.worker.queue = []

/-! ## What a step does -/

section Cases

variable {settings : Settings} {backend : Backend V} {documentId : Uuid}
variable {deployment next : Deployment V} {event : Event V}

/-- The service takes one of its own steps or none. -/
theorem step_service (hstep : deployment.step settings backend documentId event = some next) :
    next.service = deployment.service ∨
      ∃ event, deployment.service.step settings backend event = some next.service := by
  cases event with
  | chat event =>
      obtain ⟨service, hservice, rfl⟩ := Option.map_eq_some_iff.mp hstep
      exact Or.inr ⟨_, hservice⟩
  | worker action =>
      obtain ⟨_, _, rfl⟩ := Option.map_eq_some_iff.mp hstep
      exact Or.inl rfl
  | invalidate caller =>
      simp only [step] at hstep
      split_ifs at hstep
      obtain ⟨service, hservice, rfl⟩ := Option.map_eq_some_iff.mp hstep
      exact Or.inr ⟨_, hservice⟩
  | handle outcome =>
      simp only [step] at hstep
      split_ifs at hstep
      obtain ⟨_, _, rfl⟩ := Option.map_eq_some_iff.mp hstep
      exact Or.inl rfl

end Cases

end Deployment

end AgenticRag.Lifecycle
