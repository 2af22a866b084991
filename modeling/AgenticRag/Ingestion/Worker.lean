import AgenticRag.Ingestion.Indexer

/-!
# The ingest worker

One worker takes items from the ingest queue and handles them one after the
other.  A failed run is queued again until its attempts are used up, then it is
a dead letter.  Every command may raise, before or after its effect; what a
tracking command raises ends the handling of the item or the tracking, as in the
source.
-/

namespace AgenticRag.Ingestion

/-- An item of the ingest queue. -/
structure QueueItem where
  documentId : Uuid
  attempt : ℕ
  jobId : Option Uuid
  deriving DecidableEq

/-- Where `_handle_job` stands. -/
inductive WorkerPhase where
  | idle
  | starting (item : QueueItem)
  | indexing (item : QueueItem) (run : Run)
  | finishing (item : QueueItem) (jobId : Uuid)
  | failing (item : QueueItem) (jobId : Uuid) (message : String)
  | requeueing (item : QueueItem)
  | burying (item : QueueItem) (message : String)

structure Worker where
  phase : WorkerPhase := .idle
  queue : List QueueItem := []
  deadLetters : List (QueueItem × String) := []

/-! ## Job tracking -/

/-- `job_started` with `_get_or_create`; `none` when the document is gone. -/
def jobStarted (item : QueueItem) (newJobId : Uuid) (stores : Stores) :
    Option (Uuid × Stores) :=
  match item.jobId.bind fun jobId => (stores.jobs jobId).map (jobId, ·) with
  | some (jobId, job) =>
      some (jobId, stores.setJob jobId
        { job with status := .parsing, attempt := item.attempt, error := none })
  | none =>
      match stores.documents item.documentId with
      | none => none
      | some _ =>
          some (newJobId, stores.setJob newJobId
            { documentId := item.documentId, status := .parsing, attempt := item.attempt })

/-- `job_finished` -/
def jobFinished (jobId : Uuid) (error : Option String) (requeued : Bool)
    (stores : Stores) : Stores :=
  match stores.jobs jobId with
  | none => stores
  | some job =>
      match error with
      | none => stores.setJob jobId { job with status := .indexed }
      | some message =>
          stores.setJob jobId
            { job with
              status := if requeued then .queued else .failed
              error := some (String.ofList (message.toList.take 2000)) }

/-! ## Handling an item -/

section

variable (settings : Settings)

def willRetry (item : QueueItem) : Bool :=
  item.attempt + 1 < settings.maxIndexingRetries

/-- Queue the item again, or bury it. -/
def afterFailure (item : QueueItem) (jobId : Option Uuid) (message : String) :
    WorkerPhase :=
  if willRetry settings item then
    .requeueing { item with attempt := item.attempt + 1, jobId := jobId }
  else
    .burying { item with jobId := jobId } (String.ofList (message.toList.take 2000))

/-- The phase after a step of the run. -/
def afterIndex (item : QueueItem) (run : Run) : WorkerPhase :=
  match run.phase with
  | .returned _ =>
      match run.jobId with
      | none => .idle
      | some jobId => .finishing item jobId
  | .raised message =>
      match run.jobId with
      | none => afterFailure settings item none message
      | some jobId => .failing item jobId message
  | _ => .indexing item run

/-- What the worker does next.  `start` brings the id of a new job row and what
the run will make of the file. -/
inductive WorkerAction where
  | pop
  | start (newJobId : Uuid) (plan : Plan) (outcome : Outcome)
  | work (outcome : Outcome)

/-- One command of `_handle_job`, or the pop before it. -/
def workerStep (state : Stores × Worker) (action : WorkerAction) :
    Option (Stores × Worker) :=
  let (stores, worker) := state
  match worker.phase, action with
  | .idle, .pop =>
      match worker.queue with
      | [] => none
      | item :: rest =>
          some (stores, { worker with phase := .starting item, queue := rest })
  | .starting item, .start newJobId plan .ok =>
      match jobStarted item newJobId stores with
      | none => some (stores, { worker with phase := .idle })
      | some (jobId, stores) =>
          some (stores, { worker with
            phase := .indexing item
              { documentId := item.documentId, jobId := some jobId, plan := plan } })
  | .starting item, .start _ plan (.raise _) =>
      some (stores, { worker with
        phase := .indexing item
          { documentId := item.documentId, jobId := none, plan := plan } })
  | .starting item, .start newJobId plan (.late _) =>
      match jobStarted item newJobId stores with
      | none => some (stores, { worker with phase := .idle })
      | some (_, stores) =>
          some (stores, { worker with
            phase := .indexing item
              { documentId := item.documentId, jobId := none, plan := plan } })
  | .indexing item run, .work outcome =>
      (indexStep settings (stores, run) outcome).map fun (stores, run) =>
        (stores, { worker with phase := afterIndex settings item run })
  | .finishing _ jobId, .work .ok =>
      some (jobFinished jobId none false stores, { worker with phase := .idle })
  | .finishing item jobId, .work (.raise message) =>
      some (stores, { worker with phase := .failing item jobId message })
  | .finishing item jobId, .work (.late message) =>
      some (jobFinished jobId none false stores,
        { worker with phase := .failing item jobId message })
  | .failing item jobId message, .work .ok =>
      some (jobFinished jobId (some message) (willRetry settings item) stores,
        { worker with phase := afterFailure settings item (some jobId) message })
  | .failing item jobId message, .work (.late _) =>
      some (jobFinished jobId (some message) (willRetry settings item) stores,
        { worker with phase := .idle })
  | .requeueing item, .work .ok | .requeueing item, .work (.late _) =>
      some (stores, { worker with phase := .idle, queue := worker.queue ++ [item] })
  | .burying item message, .work .ok | .burying item message, .work (.late _) =>
      some (stores, { worker with
        phase := .idle
        deadLetters := worker.deadLetters ++ [(item, message)] })
  | .failing _ _ _, .work (.raise _) | .requeueing _, .work (.raise _)
  | .burying _ _, .work (.raise _) =>
      some (stores, { worker with phase := .idle })
  | _, _ => none

end

/-! ## The document of the worker -/

/-- The item is for the document, and so is a run of it. -/
def WorkerPhase.For (documentId : Uuid) : WorkerPhase → Prop
  | .idle => True
  | .indexing item run => item.documentId = documentId ∧ run.documentId = documentId
  | .starting item | .finishing item _ | .failing item _ _ | .requeueing item
  | .burying item _ => item.documentId = documentId

/-- All items of the worker are for one document. -/
structure Worker.For (documentId : Uuid) (worker : Worker) : Prop where
  phase : worker.phase.For documentId
  queue : ∀ item ∈ worker.queue, item.documentId = documentId

/-- The commands that leave the document row and both collections alone. -/
structure Tracking (stores after : Stores) : Prop where
  documents : after.documents = stores.documents
  ragPoints : after.ragPoints = stores.ragPoints
  pagePoints : after.pagePoints = stores.pagePoints

theorem Tracking.refl (stores : Stores) : Tracking stores stores := ⟨rfl, rfl, rfl⟩

theorem jobFinished_tracking (jobId : Uuid) (error : Option String) (requeued : Bool)
    (stores : Stores) : Tracking stores (jobFinished jobId error requeued stores) := by
  unfold jobFinished
  split
  · exact Tracking.refl stores
  · cases error with
    | none => exact ⟨rfl, rfl, rfl⟩
    | some message => exact ⟨rfl, rfl, rfl⟩

theorem jobStarted_tracking {item : QueueItem} {newJobId jobId : Uuid}
    {stores after : Stores} (hstarted : jobStarted item newJobId stores = some (jobId, after)) :
    Tracking stores after := by
  unfold jobStarted at hstarted
  split at hstarted
  · cases hstarted
    exact ⟨rfl, rfl, rfl⟩
  · split at hstarted
    · cases hstarted
    · cases hstarted
      exact ⟨rfl, rfl, rfl⟩

/-- What a step that is not one of the run does to the stores. -/
inductive JobStep (stores : Stores) : Stores → Prop where
  | untouched : JobStep stores stores
  | started {item : QueueItem} {newJobId jobId : Uuid} {after : Stores}
      (hstarted : jobStarted item newJobId stores = some (jobId, after)) :
      JobStep stores after
  | finished (jobId : Uuid) (error : Option String) (requeued : Bool) :
      JobStep stores (jobFinished jobId error requeued stores)

theorem JobStep.tracking {stores after : Stores} (hjob : JobStep stores after) :
    Tracking stores after := by
  cases hjob with
  | untouched => exact Tracking.refl stores
  | started hstarted => exact jobStarted_tracking hstarted
  | finished jobId error requeued => exact jobFinished_tracking jobId error requeued stores

/-- Everything a command of the worker can do.  With `untracked` the job row could not
be written, with `lose` an exception leaves `_handle_job`. -/
inductive WorkerMove (settings : Settings) (stores : Stores) (worker : Worker) :
    WorkerAction → Stores → Worker → Prop where
  | pop {item : QueueItem} {rest : List QueueItem} (hphase : worker.phase = .idle)
      (hqueue : worker.queue = item :: rest) :
      WorkerMove settings stores worker .pop stores
        { worker with phase := .starting item, queue := rest }
  | drop {item : QueueItem} {newJobId : Uuid} {outcome : Outcome} (plan : Plan)
      (hphase : worker.phase = .starting item)
      (hgone : jobStarted item newJobId stores = none) :
      WorkerMove settings stores worker (.start newJobId plan outcome) stores
        { worker with phase := .idle }
  | start {item : QueueItem} {newJobId jobId : Uuid} (plan : Plan) {after : Stores}
      (hphase : worker.phase = .starting item)
      (hstarted : jobStarted item newJobId stores = some (jobId, after)) :
      WorkerMove settings stores worker (.start newJobId plan .ok) after
        { worker with
          phase := .indexing item
            { documentId := item.documentId, jobId := some jobId, plan := plan } }
  | untracked {item : QueueItem} (newJobId : Uuid) (plan : Plan) (message : String)
      (hphase : worker.phase = .starting item) :
      WorkerMove settings stores worker (.start newJobId plan (.raise message)) stores
        { worker with
          phase := .indexing item
            { documentId := item.documentId, jobId := none, plan := plan } }
  | untrackedLate {item : QueueItem} {newJobId jobId : Uuid} (plan : Plan) {after : Stores}
      (message : String) (hphase : worker.phase = .starting item)
      (hstarted : jobStarted item newJobId stores = some (jobId, after)) :
      WorkerMove settings stores worker (.start newJobId plan (.late message)) after
        { worker with
          phase := .indexing item
            { documentId := item.documentId, jobId := none, plan := plan } }
  | index {item : QueueItem} {run : Run} {outcome : Outcome} {after : Stores} {phase : Phase}
      {session : Session} (hphase : worker.phase = .indexing item run)
      (hmove : Move settings stores run outcome after phase session) :
      WorkerMove settings stores worker (.work outcome) after
        { worker with
          phase := afterIndex settings item { run with phase := phase, session := session } }
  | finish {item : QueueItem} {jobId : Uuid} (hphase : worker.phase = .finishing item jobId) :
      WorkerMove settings stores worker (.work .ok) (jobFinished jobId none false stores)
        { worker with phase := .idle }
  | unfinished {item : QueueItem} {jobId : Uuid} (message : String)
      (hphase : worker.phase = .finishing item jobId) :
      WorkerMove settings stores worker (.work (.raise message)) stores
        { worker with phase := .failing item jobId message }
  | unfinishedLate {item : QueueItem} {jobId : Uuid} (message : String)
      (hphase : worker.phase = .finishing item jobId) :
      WorkerMove settings stores worker (.work (.late message))
        (jobFinished jobId none false stores)
        { worker with phase := .failing item jobId message }
  | fail {item : QueueItem} {jobId : Uuid} {message : String}
      (hphase : worker.phase = .failing item jobId message) :
      WorkerMove settings stores worker (.work .ok)
        (jobFinished jobId (some message) (willRetry settings item) stores)
        { worker with phase := afterFailure settings item (some jobId) message }
  | failLate {item : QueueItem} {jobId : Uuid} {message : String} (failure : String)
      (hphase : worker.phase = .failing item jobId message) :
      WorkerMove settings stores worker (.work (.late failure))
        (jobFinished jobId (some message) (willRetry settings item) stores)
        { worker with phase := .idle }
  | requeue {item : QueueItem} {outcome : Outcome} (hphase : worker.phase = .requeueing item)
      (heffect : outcome.takesEffect = true) :
      WorkerMove settings stores worker (.work outcome) stores
        { worker with phase := .idle, queue := worker.queue ++ [item] }
  | bury {item : QueueItem} {message : String} {outcome : Outcome}
      (hphase : worker.phase = .burying item message)
      (heffect : outcome.takesEffect = true) :
      WorkerMove settings stores worker (.work outcome) stores
        { worker with
          phase := .idle
          deadLetters := worker.deadLetters ++ [(item, message)] }
  | lose (failure : String)
      (hphase : (∃ item jobId message, worker.phase = .failing item jobId message) ∨
        (∃ item, worker.phase = .requeueing item) ∨
          ∃ item message, worker.phase = .burying item message) :
      WorkerMove settings stores worker (.work (.raise failure)) stores
        { worker with phase := .idle }

section Steps

variable {settings : Settings} {stores after : Stores} {worker next : Worker}
variable {action : WorkerAction} {documentId : Uuid}

theorem workerStep_moves
    (hstep : workerStep settings (stores, worker) action = some (after, next)) :
    WorkerMove settings stores worker action after next := by
  cases hphase : worker.phase with
  | idle =>
      cases action with
      | pop =>
          cases hqueue : worker.queue with
          | nil => simp [workerStep, hphase, hqueue] at hstep
          | cons item rest =>
              simp only [workerStep, hphase, hqueue] at hstep
              cases hstep
              exact .pop hphase hqueue
      | start newJobId plan outcome => simp [workerStep, hphase] at hstep
      | work outcome => simp [workerStep, hphase] at hstep
  | starting item =>
      cases action with
      | pop => simp [workerStep, hphase] at hstep
      | start newJobId plan outcome =>
          cases outcome with
          | raise message =>
              simp only [workerStep, hphase] at hstep
              cases hstep
              exact .untracked newJobId plan message hphase
          | late message =>
              cases hstarted : jobStarted item newJobId stores with
              | none =>
                  simp only [workerStep, hphase, hstarted] at hstep
                  cases hstep
                  exact .drop plan hphase hstarted
              | some started =>
                  simp only [workerStep, hphase, hstarted] at hstep
                  cases hstep
                  exact .untrackedLate plan message hphase hstarted
          | ok =>
              cases hstarted : jobStarted item newJobId stores with
              | none =>
                  simp only [workerStep, hphase, hstarted] at hstep
                  cases hstep
                  exact .drop plan hphase hstarted
              | some started =>
                  simp only [workerStep, hphase, hstarted] at hstep
                  cases hstep
                  exact .start plan hphase hstarted
      | work outcome => simp [workerStep, hphase] at hstep
  | indexing item run =>
      cases action with
      | pop => simp [workerStep, hphase] at hstep
      | start newJobId plan outcome => simp [workerStep, hphase] at hstep
      | work outcome =>
          simp only [workerStep, hphase] at hstep
          obtain ⟨⟨reached, following⟩, hindex, heq⟩ := Option.map_eq_some_iff.mp hstep
          cases heq
          obtain ⟨phase, session, rfl, hmove⟩ := indexStep_cases hindex
          exact .index hphase hmove
  | finishing item jobId =>
      cases action with
      | pop => simp [workerStep, hphase] at hstep
      | start newJobId plan outcome => simp [workerStep, hphase] at hstep
      | work outcome =>
          cases outcome with
          | ok =>
              simp only [workerStep, hphase] at hstep
              cases hstep
              exact .finish hphase
          | raise failure =>
              simp only [workerStep, hphase] at hstep
              cases hstep
              exact .unfinished failure hphase
          | late failure =>
              simp only [workerStep, hphase] at hstep
              cases hstep
              exact .unfinishedLate failure hphase
  | failing item jobId message =>
      cases action with
      | pop => simp [workerStep, hphase] at hstep
      | start newJobId plan outcome => simp [workerStep, hphase] at hstep
      | work outcome =>
          cases outcome with
          | ok =>
              simp only [workerStep, hphase] at hstep
              cases hstep
              exact .fail hphase
          | raise failure =>
              simp only [workerStep, hphase] at hstep
              cases hstep
              exact .lose failure (Or.inl ⟨item, jobId, message, hphase⟩)
          | late failure =>
              simp only [workerStep, hphase] at hstep
              cases hstep
              exact .failLate failure hphase
  | requeueing item =>
      cases action with
      | pop => simp [workerStep, hphase] at hstep
      | start newJobId plan outcome => simp [workerStep, hphase] at hstep
      | work outcome =>
          cases outcome with
          | ok | late failure =>
              simp only [workerStep, hphase] at hstep
              cases hstep
              exact .requeue hphase rfl
          | raise failure =>
              simp only [workerStep, hphase] at hstep
              cases hstep
              exact .lose failure (Or.inr (Or.inl ⟨item, hphase⟩))
  | burying item message =>
      cases action with
      | pop => simp [workerStep, hphase] at hstep
      | start newJobId plan outcome => simp [workerStep, hphase] at hstep
      | work outcome =>
          cases outcome with
          | ok | late failure =>
              simp only [workerStep, hphase] at hstep
              cases hstep
              exact .bury hphase rfl
          | raise failure =>
              simp only [workerStep, hphase] at hstep
              cases hstep
              exact .lose failure (Or.inr (Or.inr ⟨item, message, hphase⟩))

/-- A step of the worker is a step of its run, or tracks the job. -/
theorem workerStep_cases
    (hstep : workerStep settings (stores, worker) action = some (after, next)) :
    (∃ item run outcome phase session, worker.phase = .indexing item run ∧
      action = .work outcome ∧ Move settings stores run outcome after phase session ∧
      next = { worker with
        phase := afterIndex settings item
          { run with phase := phase, session := session } }) ∨
    ((∀ item run, worker.phase ≠ .indexing item run) ∧ JobStep stores after) := by
  cases workerStep_moves hstep with
  | index hphase hmove => exact Or.inl ⟨_, _, _, _, _, hphase, rfl, hmove, rfl⟩
  | pop hphase | drop plan hphase | untracked newJobId plan message hphase
  | unfinished message hphase | requeue hphase | bury hphase =>
      exact Or.inr ⟨by simp [hphase], .untouched⟩
  | start plan hphase hstarted | untrackedLate plan _ hphase hstarted =>
      exact Or.inr ⟨by simp [hphase], .started hstarted⟩
  | finish hphase | unfinishedLate _ hphase | fail hphase | failLate _ hphase =>
      exact Or.inr ⟨by simp [hphase], .finished _ _ _⟩
  | lose failure hphase =>
      refine Or.inr ⟨?_, .untouched⟩
      rcases hphase with ⟨_, _, _, hphase⟩ | ⟨_, hphase⟩ | ⟨_, _, hphase⟩
      · simp [hphase]
      · simp [hphase]
      · simp [hphase]

theorem afterFailure_for {item : QueueItem} (jobId : Option Uuid) (message : String)
    (hitem : item.documentId = documentId) :
    (afterFailure settings item jobId message).For documentId := by
  unfold afterFailure
  split_ifs
  · exact hitem
  · exact hitem

theorem afterIndex_for {item : QueueItem} {run : Run}
    (hitem : item.documentId = documentId) (hrun : run.documentId = documentId) :
    (afterIndex settings item run).For documentId := by
  unfold afterIndex
  split
  · split
    · exact trivial
    · exact hitem
  · split
    · exact afterFailure_for none _ hitem
    · exact hitem
  · exact ⟨hitem, hrun⟩

/-- The worker stays with its document. -/
theorem workerStep_for (hfor : worker.For documentId)
    (hstep : workerStep settings (stores, worker) action = some (after, next)) :
    next.For documentId := by
  obtain ⟨hfirst, hqueue⟩ := hfor
  cases workerStep_moves hstep with
  | @pop item rest hphase hitems =>
      rw [hitems] at hqueue
      exact ⟨hqueue item List.mem_cons_self,
        fun other hother => hqueue other (List.mem_cons_of_mem _ hother)⟩
  | drop | finish | failLate | bury | lose => exact ⟨trivial, hqueue⟩
  | start _ hphase | untracked _ _ _ hphase | untrackedLate _ _ hphase =>
      rw [hphase] at hfirst
      exact ⟨⟨hfirst, hfirst⟩, hqueue⟩
  | index hphase hmove =>
      rw [hphase] at hfirst
      exact ⟨afterIndex_for hfirst.1 hfirst.2, hqueue⟩
  | unfinished _ hphase | unfinishedLate _ hphase =>
      rw [hphase] at hfirst
      exact ⟨hfirst, hqueue⟩
  | fail hphase =>
      rw [hphase] at hfirst
      exact ⟨afterFailure_for _ _ hfirst, hqueue⟩
  | requeue hphase =>
      rw [hphase] at hfirst
      refine ⟨trivial, fun other hother => ?_⟩
      rcases List.mem_append.mp hother with hold | hnew
      · exact hqueue other hold
      · rw [List.mem_singleton.mp hnew]
        exact hfirst

end Steps

end AgenticRag.Ingestion
