import AgenticRag.Core.Transition
import AgenticRag.Ingestion.Dispatch

/-!
# What the statuses say

The status of a job and of a document against the payloads that are still to be
processed.  `Placed` says where the jobs of an ingest queue are, by their ids
alone; the worker, the requests and `requeue_dlq` move them from place to place.
-/

namespace AgenticRag.Ingestion

/-! ## Where the jobs are -/

/-- A queued job is pending or held, and a failed one is held or a dead letter; the
pending jobs are queued and `shows` is what the held one is.  No id is at two places. -/
structure Placed (jobs : Uuid → Option IngestJob) (pending : List (Option Uuid))
    (held : Option (Option Uuid)) (shows : IngestStatus → Prop)
    (letters : List (Option Uuid)) : Prop where
  nodup : (held.toList ++ pending).Nodup
  pending_row : ∀ id ∈ pending, ∃ jobId job, id = some jobId ∧ jobs jobId = some job ∧
    job.status = .queued
  held_row : ∀ id, held = some id → ∃ jobId job, id = some jobId ∧ jobs jobId = some job ∧
    shows job.status
  queued_at : ∀ jobId job, jobs jobId = some job → job.status = .queued →
    some jobId ∈ held.toList ++ pending
  failed_at : ∀ jobId job, jobs jobId = some job → job.status = .failed →
    some jobId ∈ held.toList ++ letters

section Placed

variable {jobs : Uuid → Option IngestJob} {pending letters : List (Option Uuid)}
variable {held : Option (Option Uuid)} {shows : IngestStatus → Prop}
variable {jobId : Uuid} {row : IngestJob}

/-- Every id of a payload is that of a row. -/
theorem Placed.has_row (hplaced : Placed jobs pending held shows letters) {id : Option Uuid}
    (hid : id ∈ held.toList ++ pending) : ∃ jobId job, id = some jobId ∧ jobs jobId = some job := by
  rcases List.mem_append.mp hid with hheld | hpending
  · obtain ⟨jobId, job, hjobId, hjob, _⟩ := hplaced.held_row id (Option.mem_toList.mp hheld)
    exact ⟨jobId, job, hjobId, hjob⟩
  · obtain ⟨jobId, job, hjobId, hjob, _⟩ := hplaced.pending_row id hpending
    exact ⟨jobId, job, hjobId, hjob⟩

/-- The order of the pending jobs does not matter. -/
theorem Placed.perm (hplaced : Placed jobs pending held shows letters)
    {others : List (Option Uuid)} (hperm : others.Perm pending) :
    Placed jobs others held shows letters where
  nodup := (hperm.append_left held.toList).nodup_iff.mpr hplaced.nodup
  pending_row := fun id hid => hplaced.pending_row id (hperm.mem_iff.mp hid)
  held_row := hplaced.held_row
  queued_at := fun jobId job hjob hqueued =>
    (hperm.append_left held.toList).mem_iff.mpr (hplaced.queued_at jobId job hjob hqueued)
  failed_at := hplaced.failed_at

/-- A new job is queued. -/
theorem Placed.issue (hplaced : Placed jobs pending held shows letters)
    (hfresh : jobs jobId = none) (hqueued : row.status = .queued) :
    Placed (Function.update jobs jobId (some row)) (pending ++ [some jobId]) held shows
      letters := by
  have hkept : ∀ other job, jobs other = some job →
      Function.update jobs jobId (some row) other = some job := by
    intro other job hjob
    have hne : other ≠ jobId := fun hsame => by
      rw [hsame, hfresh] at hjob
      cases hjob
    rw [Function.update_of_ne hne, hjob]
  have hnew : some jobId ∉ held.toList ++ pending := by
    intro hmem
    obtain ⟨other, job, hother, hjob⟩ := hplaced.has_row hmem
    cases hother
    rw [hfresh] at hjob
    cases hjob
  refine ⟨?_, ?_, ?_, ?_, ?_⟩
  · rw [← List.append_assoc]
    exact hplaced.nodup.append (List.nodup_singleton _) (List.disjoint_singleton.mpr hnew)
  · intro id hid
    rcases List.mem_append.mp hid with hold | hlast
    · obtain ⟨other, job, hother, hjob, hstatus⟩ := hplaced.pending_row id hold
      exact ⟨other, job, hother, hkept other job hjob, hstatus⟩
    · exact ⟨jobId, row, List.mem_singleton.mp hlast, Function.update_self _ _ _, hqueued⟩
  · intro id hid
    obtain ⟨other, job, hother, hjob, hshows⟩ := hplaced.held_row id hid
    exact ⟨other, job, hother, hkept other job hjob, hshows⟩
  · intro other job hjob hstatus
    rw [← List.append_assoc]
    by_cases hsame : other = jobId
    · rw [hsame]
      exact List.mem_append_right _ (List.mem_singleton.mpr rfl)
    · rw [Function.update_of_ne hsame] at hjob
      exact List.mem_append_left _ (hplaced.queued_at other job hjob hstatus)
  · intro other job hjob hstatus
    by_cases hsame : other = jobId
    · rw [hsame, Function.update_self] at hjob
      cases hjob
      rw [hqueued] at hstatus
      cases hstatus
    · rw [Function.update_of_ne hsame] at hjob
      exact hplaced.failed_at other job hjob hstatus

/-- The first pending job is taken. -/
theorem Placed.take {id : Option Uuid} {rest : List (Option Uuid)}
    (hplaced : Placed jobs (id :: rest) none shows letters) :
    Placed jobs rest (some id) (· = .queued) letters where
  nodup := hplaced.nodup
  pending_row := fun other hother => hplaced.pending_row other (List.mem_cons_of_mem id hother)
  held_row := fun other hother => hplaced.pending_row other (by
    cases hother
    exact List.mem_cons_self)
  queued_at := hplaced.queued_at
  failed_at := fun jobId job hjob hfailed =>
    List.mem_append_right _ (hplaced.failed_at jobId job hjob hfailed)

/-- The row of the held job is written. -/
theorem Placed.write (hplaced : Placed jobs pending (some (some jobId)) shows letters)
    {showing : IngestStatus → Prop} (hshowing : showing row.status) :
    Placed (Function.update jobs jobId (some row)) pending (some (some jobId)) showing
      letters where
  nodup := hplaced.nodup
  pending_row := by
    intro id hid
    obtain ⟨other, job, hother, hjob, hstatus⟩ := hplaced.pending_row id hid
    have hne : other ≠ jobId := by
      rintro rfl
      have hheld := List.nodup_cons.mp hplaced.nodup
      rw [hother] at hid
      exact hheld.1 hid
    exact ⟨other, job, hother, by rw [Function.update_of_ne hne, hjob], hstatus⟩
  held_row := by
    intro id hid
    cases hid
    exact ⟨jobId, row, rfl, Function.update_self _ _ _, hshowing⟩
  queued_at := by
    intro other job hjob hstatus
    by_cases hsame : other = jobId
    · rw [hsame]
      exact List.mem_append_left _ (List.mem_singleton.mpr rfl)
    · rw [Function.update_of_ne hsame] at hjob
      exact hplaced.queued_at other job hjob hstatus
  failed_at := by
    intro other job hjob hstatus
    by_cases hsame : other = jobId
    · rw [hsame]
      exact List.mem_append_left _ (List.mem_singleton.mpr rfl)
    · rw [Function.update_of_ne hsame] at hjob
      exact hplaced.failed_at other job hjob hstatus

/-- A held job that is queued goes back to the pending ones. -/
theorem Placed.putBack {id : Option Uuid}
    (hplaced : Placed jobs pending (some id) (· = .queued) letters) :
    Placed jobs (id :: pending) none shows letters where
  nodup := hplaced.nodup
  pending_row := by
    intro other hother
    rcases List.mem_cons.mp hother with rfl | hold
    · exact hplaced.held_row other rfl
    · exact hplaced.pending_row other hold
  held_row := fun other hother => by cases hother
  queued_at := hplaced.queued_at
  failed_at := by
    intro other job hjob hstatus
    rcases List.mem_append.mp (hplaced.failed_at other job hjob hstatus) with hheld | hletter
    · obtain ⟨jobId, found, hjobId, hfound, hqueued⟩ :=
        hplaced.held_row _ (Option.mem_toList.mp hheld)
      cases hjobId
      rw [hjob] at hfound
      cases hfound
      rw [hstatus] at hqueued
      cases hqueued
    · exact hletter

/-- A held job that has failed becomes a dead letter; any other is dropped. -/
theorem Placed.release {id : Option Uuid}
    (hplaced : Placed jobs pending (some id) shows letters)
    (hshows : ∀ status, shows status → status ≠ .queued) {others : List (Option Uuid)}
    (hletters : ∀ letter ∈ letters, letter ∈ others)
    (hfailed : id ∈ others ∨ ∀ status, shows status → status ≠ .failed)
    {showing : IngestStatus → Prop} : Placed jobs pending none showing others where
  nodup := hplaced.nodup.of_cons
  pending_row := hplaced.pending_row
  held_row := fun other hother => by cases hother
  queued_at := by
    intro other job hjob hstatus
    rcases List.mem_append.mp (hplaced.queued_at other job hjob hstatus) with hheld | hpending
    · obtain ⟨jobId, found, hjobId, hfound, hshown⟩ := hplaced.held_row _ (Option.mem_toList.mp hheld)
      cases hjobId
      rw [hjob] at hfound
      cases hfound
      exact absurd hstatus (hshows _ hshown)
    · exact hpending
  failed_at := by
    intro other job hjob hstatus
    rcases List.mem_append.mp (hplaced.failed_at other job hjob hstatus) with hheld | hletter
    · obtain ⟨jobId, found, hjobId, hfound, hshown⟩ := hplaced.held_row _ (Option.mem_toList.mp hheld)
      cases hjobId
      rw [hjob] at hfound
      cases hfound
      rcases hfailed with hmem | hnone
      · rw [← Option.some.inj (Option.mem_toList.mp hheld)]
        exact hmem
      · exact absurd hstatus (hnone _ hshown)
    · exact hletters _ hletter

end Placed

/-! ## Jobs of the system -/

/-- The payloads of the queue, and of the requests that have committed and not pushed
yet. -/
def Dispatch.pending (state : Dispatch) : List QueueItem :=
  state.worker.queue ++ state.announced

/-- What the row of the job shows in this phase. -/
def WorkerPhase.Shows : WorkerPhase → IngestStatus → Prop
  | .idle => fun _ => True
  | .starting _ | .requeueing _ => (· = .queued)
  | .indexing _ _ | .finishing _ _ | .failing _ _ _ => (·.isStage = true)
  | .burying _ _ => (· = .failed)

def WorkerPlaced (jobs : Uuid → Option IngestJob) (pending : List QueueItem)
    (worker : Worker) : Prop :=
  Placed jobs (pending.map (·.jobId)) (worker.phase.item.map (·.jobId)) worker.phase.Shows
    (worker.deadLetters.map (·.1.jobId))

/-- No call of `requeue_dlq` has popped a dead letter. -/
def NonePopped (drains : ℕ → Option Drain) : Prop :=
  ∀ call drain, drains call = some drain → drain.popped = none

structure Dispatch.Placed (state : Dispatch) : Prop where
  jobs : WorkerPlaced state.stores.jobs state.pending state.worker
  own : state.worker.phase.Own
  popped : NonePopped state.drains

/-- The payload and the document of the run whose `except` block comes next. -/
def WorkerPhase.handled : WorkerPhase → Option (QueueItem × Uuid)
  | .indexing item run =>
      match run.phase with
      | .handling _ => some (item, run.documentId)
      | _ => none
  | _ => none

/-- The step leaves a status that is not true.  The `except` block marks a document
failed while a payload of it is left; a re-index request has loaded the document
before it failed and does not write the status; `requeue_dlq` moves a dead letter and
leaves its job failed. -/
def Misreports (settings : Settings) (state : Dispatch) : DispatchAction → Prop
  | .work (.work outcome) =>
      outcome.takesEffect = true ∧
        ∃ marked ∈ state.worker.phase.handled, willRetry settings marked.1 = true ∨
          ∃ other ∈ state.pending, other.documentId = marked.2
  | .reindex documentId _ document =>
      document.status = .pending ∧
        ∃ row ∈ state.stores.documents documentId, row.status = .failed
  | .drain call =>
      state.worker.deadLetters.isEmpty = false ∧
        ∃ drain ∈ state.drains call, drain.popped = none ∧ drain.remaining ≠ 0
  | _ => False

instance (settings : Settings) (state : Dispatch) :
    ∀ action, Decidable (Misreports settings state action)
  | .work (.work outcome) =>
      inferInstanceAs (Decidable (outcome.takesEffect = true ∧
        ∃ marked ∈ state.worker.phase.handled, willRetry settings marked.1 = true ∨
          ∃ other ∈ state.pending, other.documentId = marked.2))
  | .reindex documentId _ document =>
      inferInstanceAs (Decidable (document.status = .pending ∧
        ∃ row ∈ state.stores.documents documentId, row.status = .failed))
  | .drain call =>
      inferInstanceAs (Decidable (state.worker.deadLetters.isEmpty = false ∧
        ∃ drain ∈ state.drains call, drain.popped = none ∧ drain.remaining ≠ 0))
  | .work .pop | .work (.start _ _ _) | .upload _ _ _ _ _ | .load _ | .push _ | .enqueue _
  | .requeueDlq _ _ => isFalse id

section Jobs

variable {settings : Settings} {state next : Dispatch} {stores after : Stores}
variable {worker following : Worker} {action : WorkerAction} {item : QueueItem}

/-- After a step of its run the worker has returned or raised, or goes on with it. -/
theorem shows_afterIndex {run : Run} {jobId : Uuid} (hown : run.jobId = some jobId) :
    (afterIndex settings item run).Shows = (·.isStage = true) := by
  unfold afterIndex
  split
  · simp only [hown]
    rfl
  · simp only [hown]
    rfl
  · rfl

/-- A command of the worker moves its job to where its status says. -/
theorem WorkMove.placed {announced : List QueueItem}
    (hmove : WorkMove settings stores worker action after following)
    (hplaced : WorkerPlaced stores.jobs (worker.queue ++ announced) worker)
    (hown : worker.phase.Own) :
    WorkerPlaced after.jobs (following.queue ++ announced) following := by
  unfold WorkerPlaced at hplaced ⊢
  cases hmove with
  | pop hphase hqueue =>
      rw [hphase, hqueue] at hplaced
      exact hplaced.take
  | drop plan hphase hgone =>
      rw [hphase] at hplaced
      obtain ⟨jobId, job, hjobId, hjob, _⟩ := hplaced.held_row _ rfl
      simp [jobStarted, hjobId, hjob] at hgone
  | @start item newJobId jobId plan after hphase hstarted =>
      rw [hphase] at hplaced
      obtain ⟨ownId, job, hownId, hjob, _⟩ := hplaced.held_row _ rfl
      obtain ⟨rfl, row, _, hparsing, hjobs⟩ := jobStarted_own hownId hjob hstarted
      rw [hjobs]
      simp only [WorkerPhase.item, Option.map_some, hownId] at hplaced ⊢
      exact hplaced.write (by rw [hparsing]; rfl)
  | @index item run outcome after phase session hphase hmove =>
      rw [hphase] at hplaced hown
      obtain ⟨jobId, job, hjobId, hjob, _⟩ := hplaced.held_row _ rfl
      have hitem := (@afterIndex_own settings item
        { run with phase := phase, session := session } jobId hown hjobId).1
      have hshows := @shows_afterIndex settings item
        { run with phase := phase, session := session } jobId (hown.trans hjobId)
      simp only [hitem, hshows]
      rcases hmove.jobs with hsame | ⟨runId, _, row, hrunId, _, _, hstage, hjobs⟩
      · rw [hsame]
        exact hplaced
      · have hitemId : item.jobId = some runId := hown.symm.trans hrunId
        rw [hjobs]
        simp only [WorkerPhase.item, Option.map_some, hitemId] at hplaced ⊢
        exact hplaced.write hstage
  | @finish item jobId hphase =>
      rw [hphase] at hplaced hown
      obtain ⟨ownId, job, hownId, hjob, _⟩ := hplaced.held_row _ rfl
      obtain rfl : ownId = jobId := Option.some.inj (hownId.symm.trans hown)
      obtain ⟨_, row, _, hindexed, hjobs⟩ := jobFinished_rows none false hjob
      rw [hjobs]
      simp only [WorkerPhase.item, Option.map_some, hownId] at hplaced
      have hwritten := @Placed.write _ _ _ _ _ row hplaced (· = .indexed) hindexed
      exact hwritten.release (fun status hstatus => by rw [hstatus]; decide)
        (fun letter hletter => hletter)
        (Or.inr fun status hstatus => by rw [hstatus]; decide)
  | @fail item jobId message hphase =>
      rw [hphase] at hplaced hown
      obtain ⟨ownId, job, hownId, hjob, _⟩ := hplaced.held_row _ rfl
      obtain rfl : ownId = jobId := Option.some.inj (hownId.symm.trans hown)
      obtain ⟨_, row, _, hstatus, hjobs⟩ :=
        jobFinished_rows (some message) (willRetry settings item) hjob
      rw [hjobs]
      simp only [WorkerPhase.item, Option.map_some, hownId] at hplaced
      unfold afterFailure
      cases hretry : willRetry settings item with
      | true =>
          rw [hretry] at hstatus
          exact hplaced.write hstatus
      | false =>
          rw [hretry] at hstatus
          exact hplaced.write hstatus
  | @requeue item hphase =>
      rw [hphase] at hplaced
      refine hplaced.putBack.perm ?_
      simp only [List.map_append, List.map_cons, List.map_nil, List.append_assoc]
      exact List.perm_middle
  | @bury item message hphase =>
      rw [hphase] at hplaced
      refine hplaced.release (fun status hstatus => by rw [hstatus]; decide) ?_ ?_
      · intro letter hletter
        rw [List.map_append]
        exact List.mem_append_left _ hletter
      · left
        rw [List.map_append]
        exact List.mem_append_right _ (List.mem_singleton.mpr rfl)

theorem NonePopped.update {drains : ℕ → Option Drain} (hpopped : NonePopped drains) (call : ℕ)
    {changed : Option Drain} (hchanged : ∀ drain, changed = some drain → drain.popped = none) :
    NonePopped (Function.update drains call changed) := by
  intro other drain hdrain
  by_cases hcall : other = call
  · rw [hcall, Function.update_self] at hdrain
    exact hchanged drain hdrain
  · rw [Function.update_of_ne hcall] at hdrain
    exact hpopped other drain hdrain

/-- A push moves a payload among the pending ones. -/
theorem pending_push {announced : List QueueItem} (hannounced : item ∈ announced) :
    ((worker.push item).queue ++ announced.erase item).Perm (worker.queue ++ announced) := by
  simp only [Worker.push, List.append_assoc, List.singleton_append]
  exact (List.perm_cons_erase hannounced).symm.append_left worker.queue

theorem placed_push {announced : List QueueItem} (hannounced : item ∈ announced)
    (hplaced : WorkerPlaced stores.jobs (worker.queue ++ announced) worker) :
    WorkerPlaced stores.jobs ((worker.push item).queue ++ announced.erase item)
      (worker.push item) :=
  Placed.perm hplaced ((pending_push hannounced).map (·.jobId))

/-- A request commits a new job. -/
theorem placed_announce {documentId jobId : Uuid} {row : IngestJob}
    (hplaced : WorkerPlaced stores.jobs state.pending worker) (hfresh : stores.jobs jobId = none)
    (hqueued : row.status = .queued) :
    WorkerPlaced (Function.update stores.jobs jobId (some row))
      (state.worker.queue ++ (state.announced ++ [⟨documentId, 0, some jobId⟩])) worker := by
  unfold WorkerPlaced
  rw [← List.append_assoc, List.map_append]
  exact Placed.issue hplaced hfresh hqueued

theorem DispatchMove.placed {action : DispatchAction}
    (hmove : DispatchMove settings state action next) (hplaced : state.Placed)
    (hknown : ∀ item, action ≠ .enqueue item) (htrue : ¬ Misreports settings state action) :
    next.Placed := by
  obtain ⟨hjobs, hown, hpopped⟩ := hplaced
  cases hmove with
  | upload collectionId filename fileType hdocument hjob =>
      exact ⟨placed_announce hjobs hjob rfl, hown, hpopped⟩
  | load => exact ⟨hjobs, hown, hpopped⟩
  | reindex hloaded hrow hjob => exact ⟨placed_announce hjobs hjob rfl, hown, hpopped⟩
  | push hannounced => exact ⟨placed_push hannounced hjobs, hown, hpopped⟩
  | enqueue => exact absurd rfl (hknown _)
  | work hmove =>
      refine ⟨hmove.placed hjobs hown, hmove.own hown fun item hitem => ?_, hpopped⟩
      exact Placed.has_row hjobs (List.mem_append_left _ (by simp [hitem]))
  | @requeueDlq call limit =>
      exact ⟨hjobs, hown, hpopped.update call fun drain hdrain => by cases hdrain; rfl⟩
  | rpush hdrain hitem =>
      rw [hpopped _ _ hdrain] at hitem
      cases hitem
  | lpop hdrain hnone hremaining hletters =>
      refine absurd ⟨?_, _, hdrain, hnone, ?_⟩ htrue
      · rw [hletters]
        rfl
      · rw [hremaining]
        exact Nat.succ_ne_zero _
  | @finished call drain =>
      exact ⟨hjobs, hown, hpopped.update call fun drain hdrain => by cases hdrain⟩

end Jobs

/-! ## Documents of the system -/

/-- The document of the payload the worker has if it may go back to the queue. -/
def WorkerPhase.returning (settings : Settings) : WorkerPhase → Option Uuid
  | .starting item | .indexing item _ | .failing item _ _ =>
      if willRetry settings item then some item.documentId else none
  | .requeueing item => some item.documentId
  | .idle | .finishing _ _ | .burying _ _ => none

/-- No document that waits is marked failed. -/
def Unmarked (documents : Uuid → Option Document) (waiting : List Uuid) : Prop :=
  ∀ documentId document, documents documentId = some document →
    document.status = .failed → documentId ∉ waiting

def Dispatch.waiting (settings : Settings) (state : Dispatch) : List Uuid :=
  (state.worker.phase.returning settings).toList ++ state.pending.map (·.documentId)

section Documents

variable {settings : Settings} {state next : Dispatch} {item : QueueItem}
variable {documents : Uuid → Option Document} {waiting : List Uuid}

theorem Unmarked.subset (hunmarked : Unmarked documents waiting) {others : List Uuid}
    (hsubset : ∀ documentId ∈ others, documentId ∈ waiting) : Unmarked documents others :=
  fun documentId document hdocument hfailed hmem =>
    hunmarked documentId document hdocument hfailed (hsubset documentId hmem)

theorem Unmarked.write (hunmarked : Unmarked documents waiting) {documentId : Uuid}
    {row : Document} (hrow : row.status = .failed → documentId ∉ waiting) :
    Unmarked (Function.update documents documentId (some row)) waiting := by
  intro other document hdocument hfailed
  by_cases hsame : other = documentId
  · rw [hsame, Function.update_self] at hdocument
    cases hdocument
    rw [hsame]
    exact hrow hfailed
  · rw [Function.update_of_ne hsame] at hdocument
    exact hunmarked other document hdocument hfailed

/-- A request resets the status and announces the document. -/
theorem Unmarked.announce (hunmarked : Unmarked documents waiting) {documentId : Uuid}
    {row : Document} (hrow : row.status ≠ .failed) :
    Unmarked (Function.update documents documentId (some row)) (waiting ++ [documentId]) := by
  intro other document hdocument hfailed hmem
  have hwritten : Unmarked (Function.update documents documentId (some row)) waiting :=
    hunmarked.write fun hstatus => absurd hstatus hrow
  rcases List.mem_append.mp hmem with hold | hnew
  · exact hwritten other document hdocument hfailed hold
  · rw [List.mem_singleton.mp hnew, Function.update_self] at hdocument
    cases hdocument
    exact hrow hfailed

theorem returning_afterFailure {message : String} {jobId : Option Uuid} :
    (afterFailure settings item jobId message).returning settings =
      if willRetry settings item then some item.documentId else none := by
  unfold afterFailure
  split_ifs
  · rfl
  · rfl

/-- A step of its run makes no further payload go back. -/
theorem returning_afterIndex {run : Run} {jobId documentId : Uuid}
    (hown : run.jobId = some jobId)
    (hreturning : (afterIndex settings item run).returning settings = some documentId) :
    willRetry settings item = true ∧ item.documentId = documentId := by
  unfold afterIndex at hreturning
  split at hreturning
  · rw [hown] at hreturning
    cases hreturning
  · rw [hown] at hreturning
    simpa [WorkerPhase.returning] using hreturning
  · simpa [WorkerPhase.returning] using hreturning

theorem waiting_announce {worker : Worker} {announced : List QueueItem} {documentId jobId : Uuid} :
    (worker.queue ++ (announced ++ [(⟨documentId, 0, some jobId⟩ : QueueItem)])).map
        (·.documentId) = (worker.queue ++ announced).map (·.documentId) ++ [documentId] := by
  rw [← List.append_assoc, List.map_append]
  rfl

/-- A command of the worker marks no document that waits, unless it misreports. -/
theorem WorkMove.unmarked {action : WorkerAction} {stores : Stores} {worker : Worker}
    (hmove : WorkMove settings state.stores state.worker action stores worker)
    (htracked : state.Tracked) (hunmarked : Unmarked state.stores.documents (state.waiting settings))
    (htrue : ¬ Misreports settings state (.work action)) :
    Unmarked stores.documents
      (({ state with stores := stores, worker := worker } : Dispatch).waiting settings) := by
  have hphase := htracked.phase
  unfold Dispatch.waiting Dispatch.pending at hunmarked ⊢
  cases hmove with
  | pop hidle hqueue =>
      rw [hqueue] at hunmarked
      refine hunmarked.subset fun documentId hmem => ?_
      rcases List.mem_append.mp hmem with hreturning | hpending
      · simp only [WorkerPhase.returning, Option.mem_toList] at hreturning
        split_ifs at hreturning
        cases hreturning
        exact List.mem_append_right _ List.mem_cons_self
      · exact List.mem_append_right _ (List.mem_cons_of_mem _ hpending)
  | drop plan hstarting hgone =>
      exact hunmarked.subset fun documentId hmem => List.mem_append_right _ hmem
  | start plan hstarting hstarted =>
      rw [hstarting] at hunmarked
      rw [(jobStarted_rows hstarted).1]
      exact hunmarked
  | @index item run outcome after phase session hindexing hmove =>
      rw [hindexing] at hphase hunmarked
      obtain ⟨_, hdocument, jobId, job, hown, hjob⟩ := hphase
      have hsubset : Unmarked state.stores.documents
          (((afterIndex settings item { run with phase := phase, session := session }).returning
            settings).toList ++ (state.worker.queue ++ state.announced).map (·.documentId)) := by
        refine hunmarked.subset fun documentId hmem => ?_
        rcases List.mem_append.mp hmem with hreturning | hpending
        · obtain ⟨hretry, hsame⟩ :=
            @returning_afterIndex settings item { run with phase := phase, session := session }
              jobId documentId hown (Option.mem_toList.mp hreturning)
          exact List.mem_append_left _ (by simp [WorkerPhase.returning, hretry, hsame])
        · exact List.mem_append_right _ hpending
      rcases hmove.documents with hsame | ⟨row, hwritten, hfailed⟩
      · rw [hsame]
        exact hsubset
      · rw [hwritten]
        refine hsubset.write fun hstatus hmem => ?_
        obtain ⟨heffect, message, hhandling⟩ := hfailed hstatus
        have hmarked : (item, run.documentId) ∈ state.worker.phase.handled := by
          simp [WorkerPhase.handled, hindexing, hhandling]
        refine htrue ⟨heffect, _, hmarked, ?_⟩
        rcases List.mem_append.mp hmem with hreturning | hpending
        · exact Or.inl (@returning_afterIndex settings item
            { run with phase := phase, session := session } jobId run.documentId hown
              (Option.mem_toList.mp hreturning)).1
        · exact Or.inr (List.mem_map.mp hpending)
  | finish hfinishing =>
      rw [hfinishing] at hphase hunmarked
      obtain ⟨job, hjob⟩ := hphase
      rw [(jobFinished_rows none false hjob).1]
      exact hunmarked
  | @fail item jobId message hfailing =>
      rw [hfailing] at hphase hunmarked
      obtain ⟨job, hjob⟩ := hphase
      rw [(jobFinished_rows (some message) _ hjob).1, returning_afterFailure]
      exact hunmarked
  | @requeue item hrequeueing =>
      rw [hrequeueing] at hunmarked
      refine hunmarked.subset fun documentId hmem => ?_
      simp only [WorkerPhase.returning, Option.toList_none, List.nil_append, List.map_append,
        List.map_cons, List.map_nil, List.append_assoc, List.mem_append,
        List.mem_singleton, Option.toList_some] at hmem ⊢
      rcases hmem with hqueued | hback | hannounced
      · exact Or.inr (Or.inl hqueued)
      · exact Or.inl hback
      · exact Or.inr (Or.inr hannounced)
  | bury hburying =>
      rw [hburying] at hunmarked
      exact hunmarked

theorem DispatchMove.unmarked {action : DispatchAction}
    (hmove : DispatchMove settings state action next) (htracked : state.Tracked)
    (hunmarked : Unmarked state.stores.documents (state.waiting settings))
    (hknown : ∀ item, action ≠ .enqueue item) (hpopped : NonePopped state.drains)
    (htrue : ¬ Misreports settings state action) :
    Unmarked next.stores.documents (next.waiting settings) := by
  cases hmove with
  | upload =>
      unfold Dispatch.waiting Dispatch.pending
      rw [waiting_announce, ← List.append_assoc]
      refine hunmarked.announce ?_
      intro hfailed
      cases hfailed
  | load => exact hunmarked
  | @reindex documentId jobId document row hloaded hrow hjob =>
      unfold Dispatch.waiting Dispatch.pending
      rw [waiting_announce, ← List.append_assoc]
      refine hunmarked.announce ?_
      dsimp only
      split_ifs with hpending
      · exact fun hfailed => htrue ⟨hpending, row, hrow, hfailed⟩
      · intro hfailed
        cases hfailed
  | push hannounced =>
      have hperm := (@pending_push state.worker _ _ hannounced).map (·.documentId)
      exact hunmarked.subset fun documentId hmem => (hperm.append_left _).mem_iff.mp hmem
  | enqueue => exact absurd rfl (hknown _)
  | work hmove => exact hmove.unmarked htracked hunmarked htrue
  | requeueDlq => exact hunmarked
  | rpush hdrain hitem =>
      rw [hpopped _ _ hdrain] at hitem
      cases hitem
  | lpop => exact hunmarked
  | finished => exact hunmarked

end Documents

/-! ## What an admin sees -/

/-- A job is queued exactly when its payload is pending, a failed job is a dead
letter, and no payload of a failed document is pending. -/
structure Dispatch.Agrees (state : Dispatch) : Prop where
  queued : ∀ jobId, (∃ job, state.stores.jobs jobId = some job ∧ job.status = .queued) ↔
    ∃ item ∈ state.pending, item.jobId = some jobId
  failed : ∀ jobId job, state.stores.jobs jobId = some job → job.status = .failed →
    ∃ letter ∈ state.worker.deadLetters, letter.1.jobId = some jobId
  documents : ∀ documentId document, state.stores.documents documentId = some document →
    document.status = .failed → ∀ item ∈ state.pending, item.documentId ≠ documentId

section Agreement

variable {settings : Settings} {finish : Dispatch} {actions : List DispatchAction}

theorem placed_empty : ({} : Dispatch).Placed where
  jobs :=
    { nodup := List.nodup_nil
      pending_row := fun id hid => by cases hid
      held_row := fun id hid => by cases hid
      queued_at := fun jobId job hjob => by cases hjob
      failed_at := fun jobId job hjob => by cases hjob }
  own := trivial
  popped := fun call drain hdrain => by cases hdrain

/-- What is in place in an idle state agrees with the statuses. -/
theorem Dispatch.Placed.agrees (hplaced : finish.Placed)
    (hunmarked : Unmarked finish.stores.documents (finish.waiting settings))
    (hidle : finish.worker.phase = .idle) : finish.Agrees := by
  have hjobs := hplaced.jobs
  unfold WorkerPlaced at hjobs
  rw [hidle] at hjobs
  refine ⟨fun jobId => ⟨?_, ?_⟩, ?_, ?_⟩
  · rintro ⟨job, hjob, hqueued⟩
    exact List.mem_map.mp (hjobs.queued_at jobId job hjob hqueued)
  · rintro ⟨item, hitem, hown⟩
    obtain ⟨other, job, hother, hjob, hqueued⟩ :=
      hjobs.pending_row (some jobId) (List.mem_map.mpr ⟨item, hitem, hown⟩)
    cases hother
    exact ⟨job, hjob, hqueued⟩
  · intro jobId job hjob hfailed
    exact List.mem_map.mp (hjobs.failed_at jobId job hjob hfailed)
  · intro documentId document hdocument hfailed item hitem hown
    exact hunmarked documentId document hdocument hfailed
      (List.mem_append_right _ (List.mem_map.mpr ⟨item, hitem, hown⟩))

/-- Unless a step of the run misreports, the statuses agree with the lists whenever
the worker is idle. -/
theorem statuses_agree
    (hrun : Transition.exec (dispatchStep settings) {} actions = some finish)
    (hknown : ∀ item, DispatchAction.enqueue item ∉ actions)
    (htrue : ¬ Transition.Occurs (dispatchStep settings) {} actions (Misreports settings))
    (hidle : finish.worker.phase = .idle) : finish.Agrees := by
  have hkept := Transition.exec_induction
    (motive := fun past state => (∀ item, DispatchAction.enqueue item ∉ past) →
      ¬ Transition.Occurs (dispatchStep settings) {} past (Misreports settings) →
        state.Tracked ∧ state.Placed ∧
          Unmarked state.stores.documents (state.waiting settings)) ?_ ?_ hrun hknown htrue
  · exact hkept.2.1.agrees hkept.2.2 hidle
  · exact fun _ _ => ⟨tracked_empty {}, placed_empty, fun _ _ hnone => by cases hnone⟩
  · intro past state action next hpast hkept hstep hknown htrue
    rw [Transition.occurs_snoc hpast, not_or] at htrue
    have haction : ∀ item, action ≠ .enqueue item := fun item hsame =>
      hknown item (by rw [hsame]; simp)
    obtain ⟨htracked, hplaced, hunmarked⟩ := hkept
      (fun item hmem => hknown item (List.mem_append_left _ hmem)) htrue.1
    have hmove := dispatchStep_moves hstep
    exact ⟨hmove.tracked htracked, hmove.placed hplaced haction htrue.2,
      hmove.unmarked htracked hunmarked haction hplaced.popped htrue.2⟩

/-- An upload whose only run cannot load the row. -/
def sampleUnloaded : List DispatchAction :=
  [.upload 7 1 3 "handbook.pdf" "pdf", .push ⟨7, 0, some 1⟩, .work .pop,
    .work (.start 9 ⟨[], [], 0, [], []⟩ .ok), .work (.work (.raise "database is down")),
    .work (.work .ok), .work (.work .ok)]

theorem statuses_agree_unloaded :
    ∃ finish, Transition.exec (dispatchStep { maxIndexingRetries := 1 }) {} sampleUnloaded =
        some finish ∧ finish.Agrees := by
  have hrun : ∃ finish, Transition.exec (dispatchStep { maxIndexingRetries := 1 }) {}
      sampleUnloaded = some finish ∧ finish.worker.phase = .idle := ⟨_, rfl, rfl⟩
  obtain ⟨finish, hrun, hidle⟩ := hrun
  refine ⟨finish, hrun, statuses_agree hrun (by simp [sampleUnloaded]) ?_ hidle⟩
  decide

/-- The first attempt at an upload: the parser refuses the file. -/
def sampleRefused : List DispatchAction :=
  [.upload 7 1 3 "handbook.pdf" "pdf", .push ⟨7, 0, some 1⟩, .work .pop,
    .work (.start 9 ⟨[], [], 0, [], []⟩ .ok)] ++ List.replicate 9 (.work (.work .ok)) ++
    [.work (.work (.raise "cannot read the file"))] ++ List.replicate 3 (.work (.work .ok))

/-- The payload of the second attempt is in the queue, and the document is failed. -/
theorem statuses_not_agree :
    ∃ finish, Transition.exec (dispatchStep {}) {} sampleRefused = some finish ∧
      finish.worker.phase = .idle ∧ finish.announced = [] ∧ ¬ finish.Agrees := by
  refine ⟨_, rfl, rfl, rfl, ?_⟩
  intro hagrees
  exact hagrees.documents 7 _ rfl rfl ⟨7, 1, some 1⟩ List.mem_cons_self rfl

end Agreement

end AgenticRag.Ingestion
