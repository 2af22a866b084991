import AgenticRag.Ingestion.Worker

/-!
# The ingest queue and its producers

An upload or a re-index request commits its rows and then pushes a payload; one
worker takes payloads off the queue and puts retries back; `requeue_dlq` moves
dead letters to the queue.  The producers and the worker interleave command by
command, and nothing but `index_document` raises.
-/

namespace AgenticRag.Ingestion

/-- A running call of `requeue_dlq`: the turns its loop has left, the dead letter
it has popped and not pushed yet, and its count `n`. -/
structure Drain where
  remaining : ℕ
  popped : Option QueueItem := none
  count : ℕ := 0
  deriving DecidableEq

/-- `loaded` are the rows that re-index requests have read, `announced` the
payloads of requests between their commit and their push. -/
structure Dispatch where
  stores : Stores := {}
  worker : Worker := {}
  loaded : List (Uuid × Document) := []
  announced : List QueueItem := []
  drains : ℕ → Option Drain := fun _ => none

inductive DispatchAction where
  | upload (documentId jobId collectionId : Uuid) (filename fileType : String)
  | load (documentId : Uuid)
  | reindex (documentId jobId : Uuid) (document : Document)
  | push (item : QueueItem)
  | enqueue (item : QueueItem)
  | work (action : WorkerAction)
  | requeueDlq (call : ℕ) (limit : ℤ)
  | drain (call : ℕ)

/-! ## The commands -/

namespace Stores

variable (stores : Stores)

/-- `create_job` -/
def createJob (documentId jobId : Uuid) : Stores :=
  stores.setJob jobId { documentId := documentId, status := .queued, attempt := 0 }

/-- What `create_document` commits, with the file it has written. -/
def createDocument (documentId jobId collectionId : Uuid) (filename fileType : String) :
    Stores :=
  ({ stores with files := insert documentId stores.files }.setDocument documentId
    { collectionId := collectionId, filename := filename, fileType := fileType }).createJob
      documentId jobId

/-- What `reindex_document` commits.  The session writes the attributes that
differ from the loaded ones. -/
def reindexDocument (documentId jobId : Uuid) (document row : Document) : Stores :=
  (stores.setDocument documentId
    { row with
      status := if document.status = .pending then row.status else .pending
      error := if document.error = none then row.error else none }).createJob
        documentId jobId

end Stores

/-- `rpush` on the ingest queue. -/
def Worker.push (worker : Worker) (item : QueueItem) : Worker :=
  { worker with queue := worker.queue ++ [item] }

/-- The payload of a dead letter with its attempt counter reset. -/
def QueueItem.reset (item : QueueItem) : QueueItem :=
  { item with attempt := 0 }

/-- The next command of a call of `requeue_dlq`: push what was popped, return, or
pop. -/
def Dispatch.drainNext (state : Dispatch) (call : ℕ) (drain : Drain) : Dispatch :=
  match drain.popped, drain.remaining, state.worker.deadLetters with
  | some item, _, _ =>
      { state with
        worker := state.worker.push item.reset
        drains := Function.update state.drains call
          (some { drain with popped := none, count := drain.count + 1 }) }
  | none, remaining + 1, (item, _) :: rest =>
      { state with
        worker := { state.worker with deadLetters := rest }
        drains := Function.update state.drains call
          (some { drain with remaining := remaining, popped := some item }) }
  | none, 0, _ | none, _ + 1, [] =>
      { state with drains := Function.update state.drains call none }

/-- Only a command of `index_document` raises. -/
def WorkerPhase.faultless (phase : WorkerPhase) : WorkerAction → Bool
  | .pop => true
  | .start _ _ outcome => outcome = .ok
  | .work outcome =>
      match phase with
      | .indexing _ _ => true
      | _ => outcome = .ok

section

variable (settings : Settings)

/-- One command of a request, of the worker or of `requeue_dlq`.  `enqueue` is any
other producer: a first attempt for a document that exists. -/
def dispatchStep (state : Dispatch) : DispatchAction → Option Dispatch
  | .upload documentId jobId collectionId filename fileType =>
      if state.stores.documents documentId = none ∧ state.stores.jobs jobId = none then
        some { state with
          stores := state.stores.createDocument documentId jobId collectionId filename fileType
          announced := state.announced ++ [⟨documentId, 0, some jobId⟩] }
      else none
  | .load documentId =>
      (state.stores.documents documentId).map fun document =>
        { state with loaded := state.loaded ++ [(documentId, document)] }
  | .reindex documentId jobId document =>
      if (documentId, document) ∈ state.loaded ∧ state.stores.jobs jobId = none then
        (state.stores.documents documentId).map fun row =>
          { state with
            stores := state.stores.reindexDocument documentId jobId document row
            loaded := state.loaded.erase (documentId, document)
            announced := state.announced ++ [⟨documentId, 0, some jobId⟩] }
      else none
  | .push item =>
      if item ∈ state.announced then
        some { state with
          worker := state.worker.push item
          announced := state.announced.erase item }
      else none
  | .enqueue item =>
      if item.attempt = 0 ∧ state.stores.documents item.documentId ≠ none then
        some { state with worker := state.worker.push item }
      else none
  | .work action =>
      if state.worker.phase.faultless action then
        (workerStep settings (state.stores, state.worker) action).map fun after =>
          { state with stores := after.1, worker := after.2 }
      else none
  | .requeueDlq call limit =>
      match state.drains call with
      | some _ => none
      | none =>
          some { state with
            drains := Function.update state.drains call (some { remaining := limit.toNat }) }
  | .drain call => (state.drains call).map (state.drainNext call)

end

/-! ## What a step does -/

/-- The moves of the worker while nothing but its run raises. -/
inductive WorkMove (settings : Settings) (stores : Stores) (worker : Worker) :
    WorkerAction → Stores → Worker → Prop where
  | pop {item : QueueItem} {rest : List QueueItem} (hphase : worker.phase = .idle)
      (hqueue : worker.queue = item :: rest) :
      WorkMove settings stores worker .pop stores
        { worker with phase := .starting item, queue := rest }
  | drop {item : QueueItem} {newJobId : Uuid} (plan : Plan)
      (hphase : worker.phase = .starting item)
      (hgone : jobStarted item newJobId stores = none) :
      WorkMove settings stores worker (.start newJobId plan .ok) stores
        { worker with phase := .idle }
  | start {item : QueueItem} {newJobId jobId : Uuid} (plan : Plan) {after : Stores}
      (hphase : worker.phase = .starting item)
      (hstarted : jobStarted item newJobId stores = some (jobId, after)) :
      WorkMove settings stores worker (.start newJobId plan .ok) after
        { worker with
          phase := .indexing item
            { documentId := item.documentId, jobId := some jobId, plan := plan } }
  | index {item : QueueItem} {run : Run} {outcome : Outcome} {after : Stores} {phase : Phase}
      {session : Session} (hphase : worker.phase = .indexing item run)
      (hmove : Move settings stores run outcome after phase session) :
      WorkMove settings stores worker (.work outcome) after
        { worker with
          phase := afterIndex settings item { run with phase := phase, session := session } }
  | finish {item : QueueItem} {jobId : Uuid} (hphase : worker.phase = .finishing item jobId) :
      WorkMove settings stores worker (.work .ok) (jobFinished jobId none false stores)
        { worker with phase := .idle }
  | fail {item : QueueItem} {jobId : Uuid} {message : String}
      (hphase : worker.phase = .failing item jobId message) :
      WorkMove settings stores worker (.work .ok)
        (jobFinished jobId (some message) (willRetry settings item) stores)
        { worker with phase := afterFailure settings item (some jobId) message }
  | requeue {item : QueueItem} (hphase : worker.phase = .requeueing item) :
      WorkMove settings stores worker (.work .ok) stores
        { worker with phase := .idle, queue := worker.queue ++ [item] }
  | bury {item : QueueItem} {message : String} (hphase : worker.phase = .burying item message) :
      WorkMove settings stores worker (.work .ok) stores
        { worker with
          phase := .idle
          deadLetters := worker.deadLetters ++ [(item, message)] }

theorem WorkerMove.faultless {settings : Settings} {stores after : Stores}
    {worker next : Worker} {action : WorkerAction}
    (hmove : WorkerMove settings stores worker action after next)
    (hfaultless : worker.phase.faultless action = true) :
    WorkMove settings stores worker action after next := by
  cases hmove with
  | pop hphase hqueue => exact .pop hphase hqueue
  | drop plan hphase hgone =>
      obtain rfl := of_decide_eq_true hfaultless
      exact .drop plan hphase hgone
  | start plan hphase hstarted => exact .start plan hphase hstarted
  | index hphase hmove => exact .index hphase hmove
  | finish hphase => exact .finish hphase
  | fail hphase => exact .fail hphase
  | requeue hphase =>
      obtain rfl : _ = Outcome.ok := by simpa [WorkerPhase.faultless, hphase] using hfaultless
      exact .requeue hphase
  | bury hphase =>
      obtain rfl : _ = Outcome.ok := by simpa [WorkerPhase.faultless, hphase] using hfaultless
      exact .bury hphase
  | untracked | untrackedLate => simp [WorkerPhase.faultless] at hfaultless
  | unfinished _ hphase | unfinishedLate _ hphase | failLate _ hphase =>
      simp [WorkerPhase.faultless, hphase] at hfaultless
  | lose failure hphase =>
      rcases hphase with ⟨_, _, _, hphase⟩ | ⟨_, hphase⟩ | ⟨_, _, hphase⟩
      · simp [WorkerPhase.faultless, hphase] at hfaultless
      · simp [WorkerPhase.faultless, hphase] at hfaultless
      · simp [WorkerPhase.faultless, hphase] at hfaultless

/-- The moves of the whole system. -/
inductive DispatchMove (settings : Settings) (state : Dispatch) :
    DispatchAction → Dispatch → Prop where
  | upload {documentId jobId : Uuid} (collectionId : Uuid) (filename fileType : String)
      (hdocument : state.stores.documents documentId = none)
      (hjob : state.stores.jobs jobId = none) :
      DispatchMove settings state (.upload documentId jobId collectionId filename fileType)
        { state with
          stores := state.stores.createDocument documentId jobId collectionId filename fileType
          announced := state.announced ++ [⟨documentId, 0, some jobId⟩] }
  | load {documentId : Uuid} {document : Document}
      (hdocument : state.stores.documents documentId = some document) :
      DispatchMove settings state (.load documentId)
        { state with loaded := state.loaded ++ [(documentId, document)] }
  | reindex {documentId jobId : Uuid} {document row : Document}
      (hloaded : (documentId, document) ∈ state.loaded)
      (hrow : state.stores.documents documentId = some row)
      (hjob : state.stores.jobs jobId = none) :
      DispatchMove settings state (.reindex documentId jobId document)
        { state with
          stores := state.stores.reindexDocument documentId jobId document row
          loaded := state.loaded.erase (documentId, document)
          announced := state.announced ++ [⟨documentId, 0, some jobId⟩] }
  | push {item : QueueItem} (hannounced : item ∈ state.announced) :
      DispatchMove settings state (.push item)
        { state with
          worker := state.worker.push item
          announced := state.announced.erase item }
  | enqueue {item : QueueItem} (hattempt : item.attempt = 0)
      (hdocument : state.stores.documents item.documentId ≠ none) :
      DispatchMove settings state (.enqueue item)
        { state with worker := state.worker.push item }
  | work {action : WorkerAction} {stores : Stores} {worker : Worker}
      (hmove : WorkMove settings state.stores state.worker action stores worker) :
      DispatchMove settings state (.work action)
        { state with stores := stores, worker := worker }
  | requeueDlq {call : ℕ} (limit : ℤ) (hdrain : state.drains call = none) :
      DispatchMove settings state (.requeueDlq call limit)
        { state with
          drains := Function.update state.drains call (some { remaining := limit.toNat }) }
  | rpush {call : ℕ} {drain : Drain} {item : QueueItem}
      (hdrain : state.drains call = some drain) (hpopped : drain.popped = some item) :
      DispatchMove settings state (.drain call)
        { state with
          worker := state.worker.push item.reset
          drains := Function.update state.drains call
            (some { drain with popped := none, count := drain.count + 1 }) }
  | lpop {call remaining : ℕ} {drain : Drain} {item : QueueItem} {error : String}
      {rest : List (QueueItem × String)} (hdrain : state.drains call = some drain)
      (hpopped : drain.popped = none) (hremaining : drain.remaining = remaining + 1)
      (hletters : state.worker.deadLetters = (item, error) :: rest) :
      DispatchMove settings state (.drain call)
        { state with
          worker := { state.worker with deadLetters := rest }
          drains := Function.update state.drains call
            (some { drain with remaining := remaining, popped := some item }) }
  | finished {call : ℕ} {drain : Drain} (hdrain : state.drains call = some drain)
      (hpopped : drain.popped = none)
      (hdone : drain.remaining = 0 ∨ state.worker.deadLetters = []) :
      DispatchMove settings state (.drain call)
        { state with drains := Function.update state.drains call none }

/-- Everything a step of the system can do. -/
theorem dispatchStep_moves {settings : Settings} {state next : Dispatch}
    {action : DispatchAction} (hstep : dispatchStep settings state action = some next) :
    DispatchMove settings state action next := by
  cases action with
  | upload documentId jobId collectionId filename fileType =>
      simp only [dispatchStep] at hstep
      split_ifs at hstep with hfresh
      cases hstep
      exact .upload collectionId filename fileType hfresh.1 hfresh.2
  | load documentId =>
      obtain ⟨document, hdocument, rfl⟩ := Option.map_eq_some_iff.mp hstep
      exact .load hdocument
  | reindex documentId jobId document =>
      simp only [dispatchStep] at hstep
      split_ifs at hstep with hready
      obtain ⟨row, hrow, rfl⟩ := Option.map_eq_some_iff.mp hstep
      exact .reindex hready.1 hrow hready.2
  | push item =>
      simp only [dispatchStep] at hstep
      split_ifs at hstep with hannounced
      cases hstep
      exact .push hannounced
  | enqueue item =>
      simp only [dispatchStep] at hstep
      split_ifs at hstep with hfirst
      cases hstep
      exact .enqueue hfirst.1 hfirst.2
  | work action =>
      simp only [dispatchStep] at hstep
      split_ifs at hstep with hfaultless
      obtain ⟨⟨stores, worker⟩, hwork, rfl⟩ := Option.map_eq_some_iff.mp hstep
      exact .work ((workerStep_moves hwork).faultless hfaultless)
  | requeueDlq call limit =>
      cases hdrain : state.drains call with
      | none =>
          simp only [dispatchStep, hdrain] at hstep
          cases hstep
          exact .requeueDlq limit hdrain
      | some drain => simp [dispatchStep, hdrain] at hstep
  | drain call =>
      obtain ⟨drain, hdrain, rfl⟩ := Option.map_eq_some_iff.mp hstep
      unfold Dispatch.drainNext
      split
      · rename_i hpopped
        exact .rpush hdrain hpopped
      · rename_i hpopped hremaining hletters
        exact .lpop hdrain hpopped hremaining hletters
      · rename_i hpopped hremaining
        exact .finished hdrain hpopped (Or.inl hremaining)
      · rename_i hpopped hremaining hletters
        exact .finished hdrain hpopped (Or.inr hletters)

/-! ## Rows under the worker -/

/-- The statuses that `job_stage` writes. -/
def IngestStatus.isStage : IngestStatus → Bool
  | .parsing | .captioning | .indexing => true
  | .queued | .indexed | .failed => false

section Rows

variable {settings : Settings} {stores after : Stores} {run : Run}

/-- The stage of the job of the run is written, or no job row is. -/
def StageOnly (run : Run) (stores after : Stores) : Prop :=
  after.jobs = stores.jobs ∨
    ∃ jobId job row, run.jobId = some jobId ∧ stores.jobs jobId = some job ∧
      row.documentId = job.documentId ∧ row.status.isStage = true ∧
        after.jobs = Function.update stores.jobs jobId (some row)

theorem stage_jobs {status : IngestStatus} (hstage : status.isStage = true) :
    StageOnly run stores (run.stage status stores).1 := by
  unfold Run.stage
  cases hown : run.jobId with
  | none => exact Or.inl rfl
  | some jobId =>
      cases hjob : stores.jobs jobId with
      | none => exact Or.inl (by simp only [hjob])
      | some job =>
          simp only [hjob]
          exact Or.inr ⟨jobId, job, { job with status := status }, hown, hjob, rfl, hstage, rfl⟩

theorem execute_jobs {document : Document} {command : Command} {session : Session}
    (hexecute : run.execute document stores command = some (after, session)) :
    StageOnly run stores after := by
  have hstaged : ∀ status : IngestStatus, status.isStage = true →
      some (run.stage status stores) = some (after, session) → StageOnly run stores after := by
    intro status hstage hwritten
    have hafter : (run.stage status stores).1 = after := by rw [Option.some.inj hwritten]
    rw [← hafter]
    exact stage_jobs hstage
  cases command with
  | stageParsing => exact hstaged .parsing rfl hexecute
  | stageCaptioning count page rest => exact hstaged .captioning rfl hexecute
  | stageIndexing => exact hstaged .indexing rfl hexecute
  | readDocument =>
      simp only [Run.execute] at hexecute
      split_ifs at hexecute
      cases hexecute
      exact Or.inl rfl
  | commit =>
      simp only [Run.execute] at hexecute
      split at hexecute
      · cases hexecute
      · cases hexecute
        exact Or.inl rfl
  | ensureBuckets | ensureCollection | deleteRows | deletePoints | deleteObjects | parse
    | putFigure _ _ _ | buildChunks | embed _ | upsertPoints | ensurePages | clearPages
    | renderPages | putPage _ _ | upsertPages =>
      cases hexecute
      exact Or.inl rfl

/-- A run writes at most the stage of its own job. -/
theorem Move.jobs {outcome : Outcome} {phase : Phase} {session : Session}
    (hmove : Move settings stores run outcome after phase session) :
    StageOnly run stores after := by
  cases hmove with
  | mark _ hmark | markLate _ _ hmark =>
      rcases markProcessing_cases hmark with rfl | ⟨row, rfl⟩
      · exact Or.inl rfl
      · exact Or.inl rfl
  | handle hphase =>
      rcases markFailed_cases run _ stores with hsame | ⟨row, hwritten⟩
      · exact Or.inl (by rw [hsame])
      · exact Or.inl (by rw [hwritten]; rfl)
  | proceed _ hexecute _ | finish _ hexecute | skipPagesLate _ hexecute _
    | failLate _ hexecute _ => exact execute_jobs hexecute
  | load | abort | skipPages | fail | giveUp => exact Or.inl rfl

theorem markProcessing_documents {document : Document}
    (hmark : run.markProcessing document stores = some after) :
    after.documents = stores.documents ∨ ∃ row : Document, row.status = .processing ∧
      after.documents = Function.update stores.documents run.documentId (some row) := by
  unfold Run.markProcessing at hmark
  split_ifs at hmark
  · cases hmark
    exact Or.inl rfl
  · obtain ⟨row, _, rfl⟩ := Option.map_eq_some_iff.mp hmark
    exact Or.inr ⟨{ row with status := .processing, error := none }, rfl, rfl⟩

theorem execute_documents {document : Document} {command : Command} {session : Session}
    (hexecute : run.execute document stores command = some (after, session)) :
    after.documents = stores.documents ∨ ∃ row : Document, row.status = .indexed ∧
      after.documents = Function.update stores.documents run.documentId (some row) := by
  rcases execute_cases hexecute with ⟨_, rfl, _⟩ | ⟨_, rfl, _⟩ | ⟨_, rfl, _⟩ |
    ⟨_, ⟨row, _, rfl⟩, _⟩ | ⟨_, hsame, _⟩ | ⟨_, _, _, _, hneutral⟩
  · exact Or.inl rfl
  · exact Or.inl rfl
  · exact Or.inl rfl
  · exact Or.inr ⟨{ row with status := .indexed, pageCount := some run.plan.pageCount }, rfl,
      rfl⟩
  · exact Or.inl hsame
  · exact Or.inl hneutral.documents

/-- A run writes at most the row of its own document, and only the `except` block
writes that it has failed. -/
theorem Move.documents {outcome : Outcome} {phase : Phase} {session : Session}
    (hmove : Move settings stores run outcome after phase session) :
    after.documents = stores.documents ∨
      ∃ row, after.documents = Function.update stores.documents run.documentId (some row) ∧
        (row.status = .failed →
          outcome.takesEffect = true ∧ ∃ message, run.phase = .handling message) := by
  cases hmove with
  | mark _ hmark | markLate _ _ hmark =>
      refine (markProcessing_documents hmark).imp_right ?_
      rintro ⟨row, hstatus, hwritten⟩
      exact ⟨row, hwritten, fun hfailed => by cases hstatus.symm.trans hfailed⟩
  | handle hphase heffect =>
      rcases markFailed_cases run _ stores with hsame | ⟨row, hwritten⟩
      · exact Or.inl (by rw [hsame])
      · rw [hwritten]
        exact Or.inr ⟨row, rfl, fun _ => ⟨heffect, _, hphase⟩⟩
  | proceed _ hexecute _ | finish _ hexecute | skipPagesLate _ hexecute _
    | failLate _ hexecute _ =>
      refine (execute_documents hexecute).imp_right ?_
      rintro ⟨row, hstatus, hwritten⟩
      exact ⟨row, hwritten, fun hfailed => by cases hstatus.symm.trans hfailed⟩
  | load | abort | skipPages | fail | giveUp => exact Or.inl rfl

/-- `job_started` writes the row of the job it returns. -/
theorem jobStarted_rows {item : QueueItem} {newJobId jobId : Uuid}
    (hstarted : jobStarted item newJobId stores = some (jobId, after)) :
    after.documents = stores.documents ∧ ∃ row : IngestJob, row.status = .parsing ∧
      after.jobs = Function.update stores.jobs jobId (some row) := by
  unfold jobStarted at hstarted
  split at hstarted
  · cases hstarted
    exact ⟨rfl, _, rfl, rfl⟩
  · split at hstarted
    · cases hstarted
    · cases hstarted
      exact ⟨rfl, _, rfl, rfl⟩

/-- A payload whose job has a row keeps its job. -/
theorem jobStarted_own {item : QueueItem} {newJobId jobId own : Uuid} {job : IngestJob}
    (hown : item.jobId = some own) (hjob : stores.jobs own = some job)
    (hstarted : jobStarted item newJobId stores = some (jobId, after)) :
    jobId = own ∧ ∃ row : IngestJob, row.documentId = job.documentId ∧ row.status = .parsing ∧
      after.jobs = Function.update stores.jobs own (some row) := by
  simp only [jobStarted, hown, Option.bind_some, hjob, Option.map_some, Option.some.injEq,
    Prod.mk.injEq] at hstarted
  obtain ⟨rfl, rfl⟩ := hstarted
  exact ⟨rfl, { job with status := .parsing, attempt := item.attempt, error := none }, rfl, rfl,
    rfl⟩

/-- The status `job_finished` leaves. -/
def finishedStatus (error : Option String) (requeued : Bool) : IngestStatus :=
  match error with
  | none => .indexed
  | some _ => if requeued then .queued else .failed

theorem jobFinished_rows {jobId : Uuid} {job : IngestJob} (error : Option String)
    (requeued : Bool) (hjob : stores.jobs jobId = some job) :
    (jobFinished jobId error requeued stores).documents = stores.documents ∧
      ∃ row : IngestJob, row.documentId = job.documentId ∧
        row.status = finishedStatus error requeued ∧
        (jobFinished jobId error requeued stores).jobs =
          Function.update stores.jobs jobId (some row) := by
  simp only [jobFinished, hjob]
  cases error with
  | none => exact ⟨rfl, { job with status := .indexed }, rfl, rfl, rfl⟩
  | some message =>
      exact ⟨rfl, { job with
        status := if requeued then .queued else .failed
        error := some (String.ofList (message.toList.take 2000)) }, rfl, rfl, rfl⟩

end Rows

/-! ## What every run keeps -/

/-- The payload the worker has taken off the queue. -/
def WorkerPhase.item : WorkerPhase → Option QueueItem
  | .idle => none
  | .starting item | .indexing item _ | .finishing item _ | .failing item _ _
  | .requeueing item | .burying item _ => some item

/-- A payload or a dead letter of the document is with the worker or in one of its
lists. -/
def Worker.Mentions (worker : Worker) (documentId : Uuid) : Prop :=
  (∃ item ∈ worker.queue, item.documentId = documentId) ∨
    (∃ item, worker.phase.item = some item ∧ item.documentId = documentId) ∨
      ∃ letter ∈ worker.deadLetters, letter.1.documentId = documentId

/-- The document is with some call of `requeue_dlq`. -/
def Popped (drains : ℕ → Option Drain) (documentId : Uuid) : Prop :=
  ∃ call drain item, drains call = some drain ∧ drain.popped = some item ∧
    item.documentId = documentId

/-- A payload of the document is somewhere in the system. -/
def Dispatch.Mentions (state : Dispatch) (documentId : Uuid) : Prop :=
  state.worker.Mentions documentId ∨
    (∃ item ∈ state.announced, item.documentId = documentId) ∨
      Popped state.drains documentId

/-- The job of the payload has a row: a run is tracked, and a payload is buried
after its row says so. -/
def WorkerPhase.Tracked (stores : Stores) : WorkerPhase → Prop
  | .idle | .starting _ | .requeueing _ => True
  | .indexing item run =>
      ¬ run.Finished ∧ run.documentId = item.documentId ∧
        ∃ jobId job, run.jobId = some jobId ∧ stores.jobs jobId = some job
  | .finishing _ jobId | .failing _ jobId _ => ∃ job, stores.jobs jobId = some job
  | .burying item _ =>
      ∃ jobId job, item.jobId = some jobId ∧ stores.jobs jobId = some job ∧
        job.status = .failed

structure Dispatch.Tracked (state : Dispatch) : Prop where
  documents : ∀ documentId, state.Mentions documentId →
    state.stores.documents documentId ≠ none
  phase : state.worker.phase.Tracked state.stores

section Tracked

variable {settings : Settings} {state next : Dispatch} {action : DispatchAction}
variable {stores after : Stores}

theorem WorkerPhase.Tracked.mono {phase : WorkerPhase} (htracked : phase.Tracked stores)
    (hkept : ∀ jobId job, stores.jobs jobId = some job → after.jobs jobId = some job) :
    phase.Tracked after := by
  cases phase with
  | idle | starting _ | requeueing _ => exact trivial
  | indexing item run =>
      obtain ⟨hrunning, hdocument, jobId, job, hown, hjob⟩ := htracked
      exact ⟨hrunning, hdocument, jobId, job, hown, hkept jobId job hjob⟩
  | finishing item jobId =>
      obtain ⟨job, hjob⟩ := htracked
      exact ⟨job, hkept jobId job hjob⟩
  | failing item jobId message =>
      obtain ⟨job, hjob⟩ := htracked
      exact ⟨job, hkept jobId job hjob⟩
  | burying item message =>
      obtain ⟨jobId, job, hown, hjob, hfailed⟩ := htracked
      exact ⟨jobId, job, hown, hkept jobId job hjob, hfailed⟩

/-- A run keeps the row of its job. -/
theorem StageOnly.row {run : Run} (hstage : StageOnly run stores after) {jobId : Uuid}
    {job : IngestJob} (hjob : stores.jobs jobId = some job) :
    ∃ row, after.jobs jobId = some row := by
  rcases hstage with hsame | ⟨own, _, row, _, _, _, _, hwritten⟩
  · exact ⟨job, by rw [hsame, hjob]⟩
  · by_cases hown : jobId = own
    · exact ⟨row, by rw [hwritten, hown, Function.update_self]⟩
    · exact ⟨job, by rw [hwritten, Function.update_of_ne hown, hjob]⟩

theorem tracked_afterFailure {item : QueueItem} {jobId : Uuid} {job : IngestJob}
    (message : String) (hjob : stores.jobs jobId = some job)
    (hfailed : willRetry settings item = false → job.status = .failed) :
    (afterFailure settings item (some jobId) message).Tracked stores := by
  unfold afterFailure
  split_ifs with hretry
  · exact trivial
  · exact ⟨jobId, job, rfl, hjob, hfailed (by simpa using hretry)⟩

theorem tracked_afterIndex {item : QueueItem} {run : Run} {jobId : Uuid} {job : IngestJob}
    (hdocument : run.documentId = item.documentId) (hown : run.jobId = some jobId)
    (hjob : stores.jobs jobId = some job) :
    (afterIndex settings item run).Tracked stores := by
  unfold afterIndex
  split
  · simp only [hown]
    exact ⟨job, hjob⟩
  · simp only [hown]
    exact ⟨job, hjob⟩
  · rename_i hreturned hraised
    refine ⟨?_, hdocument, jobId, job, hown, hjob⟩
    cases hphase : run.phase with
    | returned count => exact absurd hphase (hreturned count)
    | raised message => exact absurd hphase (hraised message)
    | loading | marking _ | running _ _ | handling _ => simp [Run.Finished, hphase]

theorem WorkMove.tracked {worker following : Worker} {workerAction : WorkerAction}
    (hmove : WorkMove settings stores worker workerAction after following)
    (htracked : worker.phase.Tracked stores) : following.phase.Tracked after := by
  cases hmove with
  | pop | drop | finish | requeue | bury => exact trivial
  | start plan hphase hstarted =>
      obtain ⟨_, row, _, hjobs⟩ := jobStarted_rows hstarted
      exact ⟨id, rfl, _, row, rfl, by rw [hjobs, Function.update_self]⟩
  | index hphase hmove =>
      rw [hphase] at htracked
      obtain ⟨_, hdocument, jobId, job, hown, hjob⟩ := htracked
      obtain ⟨row, hrow⟩ := hmove.jobs.row hjob
      exact tracked_afterIndex hdocument hown hrow
  | fail hphase =>
      rw [hphase] at htracked
      obtain ⟨job, hjob⟩ := htracked
      obtain ⟨_, row, _, hstatus, hjobs⟩ := jobFinished_rows (some _) (willRetry settings _) hjob
      refine tracked_afterFailure _ (by rw [hjobs, Function.update_self]) fun hlast => ?_
      rw [hstatus, finishedStatus, hlast]
      rfl

/-- The worker tracks the job of its payload. -/
def WorkerPhase.Own : WorkerPhase → Prop
  | .idle | .starting _ | .requeueing _ | .burying _ _ => True
  | .indexing item run => run.jobId = item.jobId
  | .finishing item jobId | .failing item jobId _ => item.jobId = some jobId

/-- After a step of its run the worker still holds the payload and its job. -/
theorem afterIndex_own {item : QueueItem} {run : Run} {jobId : Uuid}
    (hown : run.jobId = item.jobId) (hjob : item.jobId = some jobId) :
    (afterIndex settings item run).item = some item ∧ (afterIndex settings item run).Own := by
  have hrun : run.jobId = some jobId := hown.trans hjob
  unfold afterIndex
  split
  · simp only [hrun]
    exact ⟨rfl, hjob⟩
  · simp only [hrun]
    exact ⟨rfl, hjob⟩
  · exact ⟨rfl, hown⟩

theorem own_afterFailure {item : QueueItem} {jobId : Option Uuid} {message : String} :
    (afterFailure settings item jobId message).Own := by
  unfold afterFailure
  split_ifs
  · exact trivial
  · exact trivial

theorem WorkMove.own {worker following : Worker} {workerAction : WorkerAction}
    (hmove : WorkMove settings stores worker workerAction after following)
    (hown : worker.phase.Own)
    (hheld : ∀ item, worker.phase.item = some item →
      ∃ jobId job, item.jobId = some jobId ∧ stores.jobs jobId = some job) :
    following.phase.Own := by
  cases hmove with
  | pop | drop | finish | requeue | bury => exact trivial
  | start plan hphase hstarted =>
      obtain ⟨ownId, job, hownId, hjob⟩ := hheld _ (by rw [hphase]; rfl)
      obtain ⟨rfl, _⟩ := jobStarted_own hownId hjob hstarted
      exact hownId.symm
  | @index item run outcome after phase session hphase hmove =>
      obtain ⟨jobId, job, hjobId, _⟩ := hheld _ (by rw [hphase]; rfl)
      rw [hphase] at hown
      exact (@afterIndex_own settings item { run with phase := phase, session := session } jobId
        hown hjobId).2
  | fail hphase => exact own_afterFailure

/-- Rows of documents stay. -/
theorem WorkMove.documents {worker following : Worker} {workerAction : WorkerAction}
    (hmove : WorkMove settings stores worker workerAction after following)
    (htracked : worker.phase.Tracked stores) {documentId : Uuid}
    (hdocument : stores.documents documentId ≠ none) : after.documents documentId ≠ none := by
  cases hmove with
  | pop | drop | requeue | bury => exact hdocument
  | start plan hphase hstarted => rwa [(jobStarted_rows hstarted).1]
  | finish hphase =>
      rw [hphase] at htracked
      obtain ⟨job, hjob⟩ := htracked
      rwa [(jobFinished_rows none false hjob).1]
  | fail hphase =>
      rw [hphase] at htracked
      obtain ⟨job, hjob⟩ := htracked
      rwa [(jobFinished_rows (some _) _ hjob).1]
  | index hphase hmove =>
      rcases hmove.documents with hsame | ⟨row, hwritten, _⟩
      · rwa [hsame]
      · rw [hwritten, Function.update_apply]
        split_ifs
        · exact Option.some_ne_none row
        · exact hdocument

theorem afterFailure_item {item held : QueueItem} {jobId : Option Uuid} {message : String}
    (hheld : (afterFailure settings item jobId message).item = some held) :
    held.documentId = item.documentId := by
  unfold afterFailure at hheld
  split_ifs at hheld
  · cases hheld
    rfl
  · cases hheld
    rfl

theorem afterIndex_item {item held : QueueItem} {run : Run}
    (hheld : (afterIndex settings item run).item = some held) :
    held.documentId = item.documentId := by
  unfold afterIndex at hheld
  split at hheld
  · split at hheld
    · cases hheld
    · cases hheld
      rfl
  · split at hheld
    · exact afterFailure_item hheld
    · cases hheld
      rfl
  · cases hheld
    rfl

/-- The worker brings up no new document. -/
theorem WorkMove.mentions {worker following : Worker} {workerAction : WorkerAction}
    (hmove : WorkMove settings stores worker workerAction after following) {documentId : Uuid}
    (hmentions : following.Mentions documentId) : worker.Mentions documentId := by
  cases hmove with
  | pop hphase hqueue =>
      rcases hmentions with ⟨item, hitem, hown⟩ | ⟨item, hitem, hown⟩ | hletter
      · exact Or.inl ⟨item, by rw [hqueue]; exact List.mem_cons_of_mem _ hitem, hown⟩
      · cases hitem
        exact Or.inl ⟨_, by rw [hqueue]; exact List.mem_cons_self, hown⟩
      · exact Or.inr (Or.inr hletter)
  | drop _ hphase | finish hphase =>
      rcases hmentions with hqueued | ⟨item, hitem, _⟩ | hletter
      · exact Or.inl hqueued
      · cases hitem
      · exact Or.inr (Or.inr hletter)
  | start plan hphase hstarted =>
      rcases hmentions with hqueued | ⟨item, hitem, hown⟩ | hletter
      · exact Or.inl hqueued
      · cases hitem
        exact Or.inr (Or.inl ⟨_, by rw [hphase]; rfl, hown⟩)
      · exact Or.inr (Or.inr hletter)
  | index hphase hmove =>
      rcases hmentions with hqueued | ⟨item, hitem, hown⟩ | hletter
      · exact Or.inl hqueued
      · exact Or.inr (Or.inl ⟨_, by rw [hphase]; rfl, (afterIndex_item hitem).symm.trans hown⟩)
      · exact Or.inr (Or.inr hletter)
  | fail hphase =>
      rcases hmentions with hqueued | ⟨item, hitem, hown⟩ | hletter
      · exact Or.inl hqueued
      · exact Or.inr (Or.inl ⟨_, by rw [hphase]; rfl,
          (afterFailure_item hitem).symm.trans hown⟩)
      · exact Or.inr (Or.inr hletter)
  | requeue hphase =>
      rcases hmentions with ⟨item, hitem, hown⟩ | ⟨item, hitem, _⟩ | hletter
      · rcases List.mem_append.mp hitem with hold | hnew
        · exact Or.inl ⟨item, hold, hown⟩
        · rw [List.mem_singleton.mp hnew] at hown
          exact Or.inr (Or.inl ⟨_, by rw [hphase]; rfl, hown⟩)
      · cases hitem
      · exact Or.inr (Or.inr hletter)
  | bury hphase =>
      rcases hmentions with hqueued | ⟨item, hitem, _⟩ | ⟨letter, hletter, hown⟩
      · exact Or.inl hqueued
      · cases hitem
      · rcases List.mem_append.mp hletter with hold | hnew
        · exact Or.inr (Or.inr ⟨letter, hold, hown⟩)
        · rw [List.mem_singleton.mp hnew] at hown
          exact Or.inr (Or.inl ⟨_, by rw [hphase]; rfl, hown⟩)

theorem mentions_push {worker : Worker} {item : QueueItem} {documentId : Uuid} :
    (worker.push item).Mentions documentId ↔
      worker.Mentions documentId ∨ item.documentId = documentId := by
  simp only [Worker.Mentions, Worker.push, List.mem_append, List.mem_singleton]
  constructor
  · rintro (⟨other, hold | rfl, hown⟩ | hrest)
    · exact Or.inl (Or.inl ⟨other, hold, hown⟩)
    · exact Or.inr hown
    · exact Or.inl (Or.inr hrest)
  · rintro ((⟨other, hold, hown⟩ | hrest) | hown)
    · exact Or.inl ⟨other, Or.inl hold, hown⟩
    · exact Or.inr hrest
    · exact Or.inl ⟨item, Or.inr rfl, hown⟩

theorem popped_update {drains : ℕ → Option Drain} {call : ℕ} {changed : Option Drain}
    {documentId : Uuid} (hpopped : Popped (Function.update drains call changed) documentId) :
    Popped drains documentId ∨ ∃ drain item, changed = some drain ∧ drain.popped = some item ∧
      item.documentId = documentId := by
  obtain ⟨other, drain, item, hdrain, hitem, hown⟩ := hpopped
  by_cases hcall : other = call
  · rw [hcall, Function.update_self] at hdrain
    exact Or.inr ⟨drain, item, hdrain, hitem, hown⟩
  · rw [Function.update_of_ne hcall] at hdrain
    exact Or.inl ⟨other, drain, item, hdrain, hitem, hown⟩

/-- A producer commits or pushes a payload of the document. -/
def DispatchAction.Supplies (documentId : Uuid) : DispatchAction → Prop
  | .upload uploaded _ _ _ _ => uploaded = documentId
  | .reindex reindexed _ _ => reindexed = documentId
  | .enqueue item => item.documentId = documentId
  | .load _ | .push _ | .work _ | .requeueDlq _ _ | .drain _ => False

/-- Only the producers bring up a document. -/
theorem DispatchMove.mentions (hmove : DispatchMove settings state action next)
    {documentId : Uuid} (hmentions : next.Mentions documentId) :
    state.Mentions documentId ∨ action.Supplies documentId := by
  cases hmove with
  | upload | reindex =>
      rcases hmentions with hworker | ⟨item, hitem, hown⟩ | hpopped
      · exact Or.inl (Or.inl hworker)
      · rcases List.mem_append.mp hitem with hold | hnew
        · exact Or.inl (Or.inr (Or.inl ⟨item, hold, hown⟩))
        · rw [List.mem_singleton.mp hnew] at hown
          exact Or.inr hown
      · exact Or.inl (Or.inr (Or.inr hpopped))
  | load => exact Or.inl hmentions
  | push hannounced =>
      rcases hmentions with hworker | ⟨item, hitem, hown⟩ | hpopped
      · rcases mentions_push.mp hworker with hold | hown
        · exact Or.inl (Or.inl hold)
        · exact Or.inl (Or.inr (Or.inl ⟨_, hannounced, hown⟩))
      · exact Or.inl (Or.inr (Or.inl ⟨item, List.mem_of_mem_erase hitem, hown⟩))
      · exact Or.inl (Or.inr (Or.inr hpopped))
  | enqueue =>
      rcases hmentions with hworker | hrest
      · rcases mentions_push.mp hworker with hold | hown
        · exact Or.inl (Or.inl hold)
        · exact Or.inr hown
      · exact Or.inl (Or.inr hrest)
  | work hmove =>
      rcases hmentions with hworker | hrest
      · exact Or.inl (Or.inl (hmove.mentions hworker))
      · exact Or.inl (Or.inr hrest)
  | requeueDlq =>
      rcases hmentions with hworker | hannounced | hpopped
      · exact Or.inl (Or.inl hworker)
      · exact Or.inl (Or.inr (Or.inl hannounced))
      · rcases popped_update hpopped with hold | ⟨drain, item, hdrain, hitem, _⟩
        · exact Or.inl (Or.inr (Or.inr hold))
        · cases hdrain
          cases hitem
  | rpush hdrain hitem =>
      rcases hmentions with hworker | hannounced | hpopped
      · rcases mentions_push.mp hworker with hold | hown
        · exact Or.inl (Or.inl hold)
        · exact Or.inl (Or.inr (Or.inr ⟨_, _, _, hdrain, hitem, hown⟩))
      · exact Or.inl (Or.inr (Or.inl hannounced))
      · rcases popped_update hpopped with hold | ⟨drain, item, hchanged, hnone, _⟩
        · exact Or.inl (Or.inr (Or.inr hold))
        · cases hchanged
          cases hnone
  | lpop hdrain hnone hremaining hletters =>
      rcases hmentions with (hqueued | hheld | ⟨letter, hletter, hown⟩) | hannounced | hpopped
      · exact Or.inl (Or.inl (Or.inl hqueued))
      · exact Or.inl (Or.inl (Or.inr (Or.inl hheld)))
      · exact Or.inl (Or.inl (Or.inr (Or.inr
          ⟨letter, by rw [hletters]; exact List.mem_cons_of_mem _ hletter, hown⟩)))
      · exact Or.inl (Or.inr (Or.inl hannounced))
      · rcases popped_update hpopped with hold | ⟨drain, item, hchanged, hitem, hown⟩
        · exact Or.inl (Or.inr (Or.inr hold))
        · cases hchanged
          cases hitem
          exact Or.inl (Or.inl (Or.inr (Or.inr
            ⟨_, by rw [hletters]; exact List.mem_cons_self, hown⟩)))
  | finished =>
      rcases hmentions with hworker | hannounced | hpopped
      · exact Or.inl (Or.inl hworker)
      · exact Or.inl (Or.inr (Or.inl hannounced))
      · rcases popped_update hpopped with hold | ⟨drain, item, hchanged, _⟩
        · exact Or.inl (Or.inr (Or.inr hold))
        · cases hchanged

/-- A new row leaves the others alone. -/
theorem createJob_jobs {documentId jobId : Uuid} (hfresh : stores.jobs jobId = none)
    (other : Uuid) (job : IngestJob) (hjob : stores.jobs other = some job) :
    (stores.createJob documentId jobId).jobs other = some job := by
  have hother : other ≠ jobId := fun hsame => by
    rw [hsame, hfresh] at hjob
    cases hjob
  simp [Stores.createJob, Stores.setJob, hother, hjob]

/-- Rows of documents stay, and a producer has seen the row of its document. -/
theorem DispatchMove.documents (hmove : DispatchMove settings state action next)
    (htracked : state.worker.phase.Tracked state.stores) {documentId : Uuid}
    (hdocument : state.stores.documents documentId ≠ none ∨ action.Supplies documentId) :
    next.stores.documents documentId ≠ none := by
  cases hmove with
  | upload | reindex =>
      rcases hdocument with hold | rfl
      · exact fun hgone => hold (Stores.documents_of_setDocument hgone)
      · simp [Stores.createDocument, Stores.reindexDocument, Stores.createJob, Stores.setJob,
          Stores.setDocument]
  | enqueue hattempt hrow =>
      rcases hdocument with hold | rfl
      · exact hold
      · exact hrow
  | work hmove =>
      rcases hdocument with hold | hsupplies
      · exact hmove.documents htracked hold
      · cases hsupplies
  | load | push | requeueDlq | rpush | lpop | finished =>
      rcases hdocument with hold | hsupplies
      · exact hold
      · cases hsupplies

theorem DispatchMove.tracked (hmove : DispatchMove settings state action next)
    (htracked : state.Tracked) : next.Tracked where
  documents := fun documentId hmentions =>
    hmove.documents htracked.phase
      ((hmove.mentions hmentions).imp_left (htracked.documents documentId))
  phase := by
    cases hmove with
    | upload collectionId filename fileType hdocument hjob =>
        exact htracked.phase.mono (createJob_jobs hjob)
    | reindex hloaded hrow hjob => exact htracked.phase.mono (createJob_jobs hjob)
    | work hmove => exact hmove.tracked htracked.phase
    | load | push | enqueue | requeueDlq | rpush | lpop | finished => exact htracked.phase

theorem tracked_empty (stores : Stores) : ({ stores := stores } : Dispatch).Tracked where
  documents := by
    rintro documentId ((⟨item, hitem, _⟩ | ⟨item, hitem, _⟩ | ⟨letter, hletter, _⟩) |
      ⟨item, hitem, _⟩ | ⟨call, drain, item, hdrain, _⟩)
    · cases hitem
    · cases hitem
    · cases hletter
    · cases hitem
    · cases hdrain
  phase := trivial

end Tracked

end AgenticRag.Ingestion
