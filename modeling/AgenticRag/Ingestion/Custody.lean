import AgenticRag.Ingestion.Dispatch

/-!
# Documents with a job

A document has a job while a payload of it is in one of the lists or in somebody's
hands, or a row says that its job has finished.  A document that has one keeps it, and
only a push gives one to a document that has none: a row and a payload that is committed
and not pushed are no job.
-/

namespace AgenticRag.Ingestion

/-- The payload carries the id of a job row of its document. -/
def QueueItem.Owned (stores : Stores) (item : QueueItem) : Prop :=
  ∃ jobId job, item.jobId = some jobId ∧ stores.jobs jobId = some job ∧
    job.documentId = item.documentId

/-- A job of the document has finished. -/
def Stores.HasFinished (stores : Stores) (documentId : Uuid) : Prop :=
  ∃ jobId job, stores.jobs jobId = some job ∧ job.documentId = documentId ∧
    (job.status = .indexed ∨ job.status = .failed)

/-- A payload of the document is with the worker, in one of its lists, or with a call of
`requeue_dlq`. -/
def Dispatch.Queued (state : Dispatch) (documentId : Uuid) : Prop :=
  state.worker.Mentions documentId ∨ Popped state.drains documentId

/-- A queued, running or finished ingest job of the document. -/
def Dispatch.HasJob (state : Dispatch) (documentId : Uuid) : Prop :=
  state.Queued documentId ∨ state.stores.HasFinished documentId

/-- A payload of the document is pushed. -/
def DispatchAction.Delivers (documentId : Uuid) : DispatchAction → Prop
  | .push item | .enqueue item => item.documentId = documentId
  | .upload _ _ _ _ _ | .load _ | .reindex _ _ _ | .work _ | .requeueDlq _ _ | .drain _ => False

/-- What holds while all payloads come from uploads and re-index requests. -/
structure Dispatch.Owned (state : Dispatch) : Prop where
  queue : ∀ item ∈ state.worker.queue, item.Owned state.stores
  held : ∀ item, state.worker.phase.item = some item → item.Owned state.stores
  letters : ∀ letter ∈ state.worker.deadLetters, letter.1.Owned state.stores
  announced : ∀ item ∈ state.announced, item.Owned state.stores
  popped : ∀ call drain item, state.drains call = some drain → drain.popped = some item →
    item.Owned state.stores
  own : state.worker.phase.Own
  foreign : ∀ jobId job, state.stores.jobs jobId = some job →
    state.stores.documents job.documentId ≠ none

/-- Job rows stay, with their documents. -/
def RowsKept (stores after : Stores) : Prop :=
  ∀ jobId job, stores.jobs jobId = some job →
    ∃ row, after.jobs jobId = some row ∧ row.documentId = job.documentId

section Custody

variable {settings : Settings} {state next : Dispatch} {stores after : Stores}
variable {worker following : Worker} {action : WorkerAction} {item : QueueItem}
variable {documentId : Uuid}

theorem RowsKept.owned (hkept : RowsKept stores after) (howned : item.Owned stores) :
    item.Owned after := by
  obtain ⟨jobId, job, hjobId, hjob, hdocument⟩ := howned
  obtain ⟨row, hrow, hsame⟩ := hkept jobId job hjob
  exact ⟨jobId, row, hjobId, hrow, hsame.trans hdocument⟩

/-- Only the document and the job of a payload matter. -/
theorem QueueItem.Owned.of_eq {other : QueueItem} (howned : item.Owned stores)
    (hdocument : other.documentId = item.documentId) (hjob : other.jobId = item.jobId) :
    other.Owned stores := by
  unfold QueueItem.Owned
  rw [hdocument, hjob]
  exact howned

/-! ## The rows a worker writes -/

/-- The worker writes at most the row of the job it holds, and keeps the document
of the row. -/
theorem WorkMove.jobs (hmove : WorkMove settings stores worker action after following)
    (howned : ∀ held, worker.phase.item = some held → held.Owned stores)
    (hown : worker.phase.Own) :
    after.jobs = stores.jobs ∨ ∃ held jobId job row, worker.phase.item = some held ∧
      stores.jobs jobId = some job ∧ job.documentId = held.documentId ∧
        row.documentId = job.documentId ∧
          after.jobs = Function.update stores.jobs jobId (some row) := by
  cases hmove with
  | pop | drop | requeue | bury => exact Or.inl rfl
  | start plan hphase hstarted =>
      obtain ⟨jobId, job, hjobId, hjob, hdocument⟩ := howned _ (by rw [hphase]; rfl)
      obtain ⟨_, row, hrow, _, hjobs⟩ := jobStarted_own hjobId hjob hstarted
      exact Or.inr ⟨_, jobId, job, row, by rw [hphase]; rfl, hjob, hdocument, hrow, hjobs⟩
  | @index item run outcome after phase session hphase hmove =>
      obtain ⟨jobId, job, hjobId, hjob, hdocument⟩ := howned _ (by rw [hphase]; rfl)
      rw [hphase] at hown
      rcases hmove.jobs with hsame | ⟨runId, found, row, hrunId, hfound, hrow, _, hjobs⟩
      · exact Or.inl hsame
      · obtain rfl : runId = jobId :=
          Option.some.inj (hrunId.symm.trans (hown.trans hjobId))
        rw [hjob] at hfound
        cases hfound
        exact Or.inr ⟨item, runId, job, row, by rw [hphase]; rfl, hjob, hdocument, hrow, hjobs⟩
  | @finish item finished hphase =>
      obtain ⟨jobId, job, hjobId, hjob, hdocument⟩ := howned _ (by rw [hphase]; rfl)
      rw [hphase] at hown
      obtain rfl : jobId = finished := Option.some.inj (hjobId.symm.trans hown)
      obtain ⟨_, row, hrow, _, hjobs⟩ := jobFinished_rows none false hjob
      exact Or.inr ⟨item, jobId, job, row, by rw [hphase]; rfl, hjob, hdocument, hrow, hjobs⟩
  | @fail item failed message hphase =>
      obtain ⟨jobId, job, hjobId, hjob, hdocument⟩ := howned _ (by rw [hphase]; rfl)
      rw [hphase] at hown
      obtain rfl : jobId = failed := Option.some.inj (hjobId.symm.trans hown)
      obtain ⟨_, row, hrow, _, hjobs⟩ :=
        jobFinished_rows (some message) (willRetry settings item) hjob
      exact Or.inr ⟨item, jobId, job, row, by rw [hphase]; rfl, hjob, hdocument, hrow, hjobs⟩

theorem WorkMove.rowsKept (hmove : WorkMove settings stores worker action after following)
    (howned : ∀ held, worker.phase.item = some held → held.Owned stores)
    (hown : worker.phase.Own) : RowsKept stores after := by
  intro other found hfound
  rcases hmove.jobs howned hown with hsame | ⟨_, jobId, job, row, _, hjob, _, hrow, hjobs⟩
  · exact ⟨found, by rw [hsame, hfound], rfl⟩
  · by_cases heq : other = jobId
    · rw [heq, hjob] at hfound
      cases hfound
      exact ⟨row, by rw [hjobs, heq, Function.update_self], hrow⟩
    · exact ⟨found, by rw [hjobs, Function.update_of_ne heq, hfound], rfl⟩

/-- A finished row that the worker does not hold stays, and no other is new. -/
theorem WorkMove.finished_iff (hmove : WorkMove settings stores worker action after following)
    (howned : ∀ held, worker.phase.item = some held → held.Owned stores)
    (hown : worker.phase.Own)
    (hapart : ∀ held, worker.phase.item = some held → held.documentId ≠ documentId) :
    after.HasFinished documentId ↔ stores.HasFinished documentId := by
  rcases hmove.jobs howned hown with hsame | ⟨held, jobId, job, row, hheld, hjob, hdocument,
    hrow, hjobs⟩
  · unfold Stores.HasFinished
    rw [hsame]
  · have hother : ∀ other found, found.documentId = documentId →
        (after.jobs other = some found ↔ stores.jobs other = some found) := by
      intro other found hfound
      rw [hjobs]
      by_cases heq : other = jobId
      · rw [heq, Function.update_self, hjob]
        apply iff_of_false
        · intro hwritten
          cases hwritten
          have hsame : held.documentId = documentId :=
            calc held.documentId
                _ = job.documentId := hdocument.symm
                _ = row.documentId := hrow.symm
                _ = documentId := hfound
          exact hapart held hheld hsame
        · intro hold
          cases hold
          exact hapart held hheld (hdocument.symm.trans hfound)
      · rw [Function.update_of_ne heq]
    unfold Stores.HasFinished
    constructor
    · rintro ⟨other, found, hfound, hdoc, hstatus⟩
      exact ⟨other, found, (hother other found hdoc).mp hfound, hdoc, hstatus⟩
    · rintro ⟨other, found, hfound, hdoc, hstatus⟩
      exact ⟨other, found, (hother other found hdoc).mpr hfound, hdoc, hstatus⟩

/-! ## The worker and its documents -/

theorem afterFailure_holds {jobId : Option Uuid} {message : String} :
    ∃ held, (afterFailure settings item jobId message).item = some held ∧
      held.documentId = item.documentId ∧ held.jobId = jobId := by
  unfold afterFailure
  split_ifs
  · exact ⟨_, rfl, rfl, rfl⟩
  · exact ⟨_, rfl, rfl, rfl⟩

/-- The document of the payload the worker holds keeps a job. -/
theorem WorkMove.held (hmove : WorkMove settings stores worker action after following)
    (howned : ∀ held, worker.phase.item = some held → held.Owned stores)
    (hown : worker.phase.Own) (hitem : worker.phase.item = some item) :
    following.Mentions item.documentId ∨ after.HasFinished item.documentId := by
  obtain ⟨jobId, job, hjobId, hjob, hdocument⟩ := howned item hitem
  cases hmove with
  | pop hphase =>
      rw [hphase] at hitem
      cases hitem
  | drop plan hphase hgone =>
      rw [hphase] at hitem
      cases hitem
      simp [jobStarted, hjobId, hjob] at hgone
  | start plan hphase hstarted =>
      rw [hphase] at hitem
      cases hitem
      exact Or.inl (Or.inr (Or.inl ⟨_, rfl, rfl⟩))
  | @index _ run outcome after phase session hphase hmove =>
      rw [hphase] at hitem hown
      cases hitem
      have hholds := (@afterIndex_own settings item
        { run with phase := phase, session := session } jobId hown hjobId).1
      exact Or.inl (Or.inr (Or.inl ⟨item, hholds, rfl⟩))
  | @finish _ finished hphase =>
      rw [hphase] at hitem hown
      cases hitem
      obtain rfl : jobId = finished := Option.some.inj (hjobId.symm.trans hown)
      obtain ⟨_, row, hrow, hindexed, hjobs⟩ := jobFinished_rows none false hjob
      exact Or.inr ⟨jobId, row, by rw [hjobs, Function.update_self], hrow.trans hdocument,
        Or.inl hindexed⟩
  | fail hphase =>
      rw [hphase] at hitem
      cases hitem
      obtain ⟨held, hheld, hsame, _⟩ := afterFailure_holds
      exact Or.inl (Or.inr (Or.inl ⟨held, hheld, hsame⟩))
  | requeue hphase =>
      rw [hphase] at hitem
      cases hitem
      exact Or.inl (Or.inl ⟨item, List.mem_append_right _ (List.mem_singleton.mpr rfl), rfl⟩)
  | bury hphase =>
      rw [hphase] at hitem
      cases hitem
      exact Or.inl (Or.inr (Or.inr ⟨_, List.mem_append_right _ (List.mem_singleton.mpr rfl),
        rfl⟩))

/-- The payloads the worker does not hold stay with it. -/
theorem WorkMove.mentions_kept
    (hmove : WorkMove settings stores worker action after following)
    (hapart : ∀ held, worker.phase.item = some held → held.documentId ≠ documentId)
    (hmentions : worker.Mentions documentId) : following.Mentions documentId := by
  have hrest : (∃ item ∈ worker.queue, item.documentId = documentId) ∨
      ∃ letter ∈ worker.deadLetters, letter.1.documentId = documentId := by
    rcases hmentions with hqueued | ⟨held, hheld, hsame⟩ | hletter
    · exact Or.inl hqueued
    · exact absurd hsame (hapart held hheld)
    · exact Or.inr hletter
  cases hmove with
  | pop hphase hqueue =>
      rcases hrest with ⟨item, hitem, hsame⟩ | hletter
      · rw [hqueue] at hitem
        rcases List.mem_cons.mp hitem with rfl | htail
        · exact Or.inr (Or.inl ⟨item, rfl, hsame⟩)
        · exact Or.inl ⟨item, htail, hsame⟩
      · exact Or.inr (Or.inr hletter)
  | drop | start | index | finish | fail => exact hrest.imp_right Or.inr
  | requeue hphase =>
      rcases hrest with ⟨item, hitem, hsame⟩ | hletter
      · exact Or.inl ⟨item, List.mem_append_left _ hitem, hsame⟩
      · exact Or.inr (Or.inr hletter)
  | bury hphase =>
      rcases hrest with hqueued | ⟨letter, hletter, hsame⟩
      · exact Or.inl hqueued
      · exact Or.inr (Or.inr ⟨letter, List.mem_append_left _ hletter, hsame⟩)

/-- The worker gives no document a job and takes none away. -/
theorem WorkMove.hasJob_iff (hmove : WorkMove settings stores worker action after following)
    (howned : ∀ held, worker.phase.item = some held → held.Owned stores)
    (hown : worker.phase.Own) (documentId : Uuid) :
    following.Mentions documentId ∨ after.HasFinished documentId ↔
      worker.Mentions documentId ∨ stores.HasFinished documentId := by
  by_cases hheld : ∃ held, worker.phase.item = some held ∧ held.documentId = documentId
  · obtain ⟨held, hitem, rfl⟩ := hheld
    exact iff_of_true (hmove.held howned hown hitem) (Or.inl (Or.inr (Or.inl ⟨held, hitem, rfl⟩)))
  · have hapart : ∀ held, worker.phase.item = some held → held.documentId ≠ documentId :=
      fun held hitem hsame => hheld ⟨held, hitem, hsame⟩
    exact or_congr ⟨hmove.mentions, hmove.mentions_kept hapart⟩
      (hmove.finished_iff howned hown hapart)

theorem WorkMove.owned (hmove : WorkMove settings stores worker action after following)
    (hqueue : ∀ item ∈ worker.queue, item.Owned stores)
    (hheld : ∀ held, worker.phase.item = some held → held.Owned stores)
    (hletters : ∀ letter ∈ worker.deadLetters, letter.1.Owned stores)
    (hown : worker.phase.Own) :
    (∀ item ∈ following.queue, item.Owned after) ∧
      (∀ held, following.phase.item = some held → held.Owned after) ∧
        ∀ letter ∈ following.deadLetters, letter.1.Owned after := by
  have hkept := hmove.rowsKept hheld hown
  have hqueued := fun item hitem => hkept.owned (hqueue item hitem)
  have hburied := fun letter hletter => hkept.owned (hletters letter hletter)
  have hitem := fun held hsome => hkept.owned (hheld held hsome)
  cases hmove with
  | pop hphase hitems =>
      refine ⟨fun other hother => hqueued other ?_, fun held hsame => hqueued held ?_, hburied⟩
      · rw [hitems]
        exact List.mem_cons_of_mem _ hother
      · cases hsame
        rw [hitems]
        exact List.mem_cons_self
  | drop | finish => exact ⟨hqueued, fun held hsame => (by cases hsame), hburied⟩
  | start plan hphase hstarted =>
      exact ⟨hqueued, fun held hsame => hitem held (by rw [hphase]; exact hsame), hburied⟩
  | @index item run outcome after phase session hphase hmove =>
      obtain ⟨jobId, _, hjobId, _, _⟩ := hheld item (by rw [hphase]; rfl)
      rw [hphase] at hown
      have hholds := (@afterIndex_own settings item
        { run with phase := phase, session := session } jobId hown hjobId).1
      refine ⟨hqueued, fun held hsame => hitem held ?_, hburied⟩
      rw [hphase]
      exact hholds.symm.trans hsame
  | @fail item jobId message hphase =>
      refine ⟨hqueued, fun held hsame => ?_, hburied⟩
      obtain ⟨found, hfound, hdocument, hjob⟩ :=
        @afterFailure_holds settings item (some jobId) message
      rw [hphase] at hown
      cases hfound.symm.trans hsame
      exact (hitem item (by rw [hphase]; rfl)).of_eq hdocument (hjob.trans hown.symm)
  | requeue hphase =>
      refine ⟨fun other hother => ?_, fun held hsame => (by cases hsame), hburied⟩
      rcases List.mem_append.mp hother with hold | hback
      · exact hqueued other hold
      · rw [List.mem_singleton.mp hback]
        exact hitem _ (by rw [hphase]; rfl)
  | bury hphase =>
      refine ⟨hqueued, fun held hsame => (by cases hsame), fun letter hletter => ?_⟩
      rcases List.mem_append.mp hletter with hold | hnew
      · exact hburied letter hold
      · rw [List.mem_singleton.mp hnew]
        exact hitem _ (by rw [hphase]; rfl)

/-! ## The system and its documents -/

theorem createJob_rowsKept {jobId : Uuid} (hfresh : stores.jobs jobId = none) :
    RowsKept stores (stores.createJob documentId jobId) :=
  fun other job hjob => ⟨job, createJob_jobs hfresh other job hjob, rfl⟩

theorem createJob_finished {jobId other : Uuid} (hfresh : stores.jobs jobId = none) :
    (stores.createJob documentId jobId).HasFinished other ↔ stores.HasFinished other := by
  unfold Stores.HasFinished
  constructor
  · rintro ⟨found, job, hjob, hsame, hstatus⟩
    by_cases heq : found = jobId
    · rw [heq] at hjob
      simp only [Stores.createJob, Stores.setJob, Function.update_self] at hjob
      cases hjob
      rcases hstatus with hindexed | hfailed
      · cases hindexed
      · cases hfailed
    · simp only [Stores.createJob, Stores.setJob, Function.update_of_ne heq] at hjob
      exact ⟨found, job, hjob, hsame, hstatus⟩
  · rintro ⟨found, job, hjob, hsame, hstatus⟩
    exact ⟨found, job, createJob_jobs hfresh found job hjob, hsame, hstatus⟩

/-- A request announces a payload of its new job. -/
theorem Dispatch.Owned.announce (howned : state.Owned) {jobId : Uuid} {changed : Stores}
    {loaded : List (Uuid × Document)} (hjobs : changed.jobs = state.stores.jobs)
    (hdocuments : ∀ other, state.stores.documents other ≠ none ∨ other = documentId →
      changed.documents other ≠ none)
    (hfresh : state.stores.jobs jobId = none) :
    ({ state with
      stores := changed.createJob documentId jobId
      loaded := loaded
      announced := state.announced ++ [⟨documentId, 0, some jobId⟩] } : Dispatch).Owned := by
  have hchanged : changed.jobs jobId = none := by rw [hjobs, hfresh]
  have hkept : RowsKept state.stores (changed.createJob documentId jobId) := by
    intro other job hjob
    rw [← hjobs] at hjob
    exact createJob_rowsKept hchanged other job hjob
  refine ⟨fun item hitem => hkept.owned (howned.queue item hitem),
    fun held hheld => hkept.owned (howned.held held hheld),
    fun letter hletter => hkept.owned (howned.letters letter hletter), ?_,
    fun call drain item hdrain hitem => hkept.owned (howned.popped call drain item hdrain hitem),
    howned.own, ?_⟩
  · intro item hitem
    rcases List.mem_append.mp hitem with hold | hnew
    · exact hkept.owned (howned.announced item hold)
    · rw [List.mem_singleton.mp hnew]
      exact ⟨jobId, _, rfl, Function.update_self _ _ _, rfl⟩
  · intro other job hjob
    simp only [Stores.createJob, Stores.setJob, Function.update_apply] at hjob
    split_ifs at hjob with heq
    · cases hjob
      exact hdocuments documentId (Or.inr rfl)
    · rw [hjobs] at hjob
      exact hdocuments _ (Or.inl (howned.foreign other job hjob))

theorem setDocument_ne_none {document : Document} {other : Uuid}
    (hdocument : stores.documents other ≠ none ∨ other = documentId) :
    (stores.setDocument documentId document).documents other ≠ none := by
  rcases hdocument with hold | rfl
  · exact fun hgone => hold (Stores.documents_of_setDocument hgone)
  · simp [Stores.setDocument]

theorem popped_owned {drains : ℕ → Option Drain} {call : ℕ} {changed : Option Drain}
    (howned : ∀ call drain item, drains call = some drain → drain.popped = some item →
      item.Owned stores)
    (hchanged : ∀ drain item, changed = some drain → drain.popped = some item →
      item.Owned stores) :
    ∀ other drain item, Function.update drains call changed other = some drain →
      drain.popped = some item → item.Owned stores := by
  intro other drain item hdrain hitem
  by_cases hcall : other = call
  · rw [hcall, Function.update_self] at hdrain
    exact hchanged drain item hdrain hitem
  · rw [Function.update_of_ne hcall] at hdrain
    exact howned other drain item hdrain hitem

theorem owned_push (howned : ∀ item ∈ worker.queue, item.Owned stores)
    (hitem : item.Owned stores) : ∀ other ∈ (worker.push item).queue, other.Owned stores := by
  intro other hother
  rcases List.mem_append.mp hother with hold | hnew
  · exact howned other hold
  · rw [List.mem_singleton.mp hnew]
    exact hitem

theorem DispatchMove.owned {action : DispatchAction}
    (hmove : DispatchMove settings state action next) (htracked : state.Tracked)
    (howned : state.Owned) (hknown : ∀ item, action ≠ .enqueue item) : next.Owned := by
  cases hmove with
  | upload collectionId filename fileType hdocument hjob =>
      exact howned.announce rfl (fun other => setDocument_ne_none) hjob
  | load => exact ⟨howned.queue, howned.held, howned.letters, howned.announced, howned.popped,
      howned.own, howned.foreign⟩
  | reindex hloaded hrow hjob =>
      exact howned.announce rfl (fun other => setDocument_ne_none) hjob
  | push hannounced =>
      exact ⟨owned_push howned.queue (howned.announced _ hannounced), howned.held, howned.letters,
        fun item hitem => howned.announced item (List.mem_of_mem_erase hitem), howned.popped,
        howned.own, howned.foreign⟩
  | enqueue => exact absurd rfl (hknown _)
  | @work action stores worker hmove =>
      have hkept := hmove.rowsKept howned.held howned.own
      obtain ⟨hqueue, hheld, hletters⟩ :=
        hmove.owned howned.queue howned.held howned.letters howned.own
      refine ⟨hqueue, hheld, hletters, fun item hitem => hkept.owned (howned.announced item hitem),
        fun call drain item hdrain hitem => hkept.owned (howned.popped call drain item hdrain hitem),
        hmove.own howned.own ?_, ?_⟩
      · intro item hitem
        obtain ⟨jobId, job, hjobId, hjob, _⟩ := howned.held item hitem
        exact ⟨jobId, job, hjobId, hjob⟩
      · intro jobId job hjob
        apply hmove.documents htracked.phase
        rcases hmove.jobs howned.held howned.own with hsame | ⟨_, other, found, row, _, hfound, _,
          hrow, hjobs⟩
        · exact howned.foreign jobId job (by rw [← hsame]; exact hjob)
        · rw [hjobs, Function.update_apply] at hjob
          split_ifs at hjob
          · cases hjob
            rw [hrow]
            exact howned.foreign other found hfound
          · exact howned.foreign jobId job hjob
  | requeueDlq =>
      refine ⟨howned.queue, howned.held, howned.letters, howned.announced,
        popped_owned howned.popped ?_, howned.own, howned.foreign⟩
      intro drain item hdrain hitem
      cases hdrain
      cases hitem
  | rpush hdrain hpopped =>
      refine ⟨owned_push howned.queue ((howned.popped _ _ _ hdrain hpopped).of_eq rfl rfl),
        howned.held, howned.letters, howned.announced, popped_owned howned.popped ?_, howned.own,
        howned.foreign⟩
      intro drain item hchanged hitem
      cases hchanged
      cases hitem
  | lpop hdrain hpopped hremaining hletters =>
      refine ⟨howned.queue, howned.held, fun letter hletter => howned.letters letter ?_,
        howned.announced, popped_owned howned.popped ?_, howned.own, howned.foreign⟩
      · rw [hletters]
        exact List.mem_cons_of_mem _ hletter
      · intro drain item hchanged hitem
        cases hchanged
        cases hitem
        exact howned.letters (_, _) (by rw [hletters]; exact List.mem_cons_self)
  | finished =>
      refine ⟨howned.queue, howned.held, howned.letters, howned.announced,
        popped_owned howned.popped ?_, howned.own, howned.foreign⟩
      intro drain item hchanged
      cases hchanged

/-- What another call has popped stays with it. -/
theorem popped_elsewhere {drains : ℕ → Option Drain} (call : ℕ) (changed : Option Drain)
    (hpopped : Popped drains documentId) :
    (∃ drain item, drains call = some drain ∧ drain.popped = some item ∧
      item.documentId = documentId) ∨
      Popped (Function.update drains call changed) documentId := by
  obtain ⟨other, found, item, hfound, hitem, hsame⟩ := hpopped
  by_cases hcall : other = call
  · rw [hcall] at hfound
    exact Or.inl ⟨found, item, hfound, hitem, hsame⟩
  · exact Or.inr ⟨other, found, item, by rw [Function.update_of_ne hcall, hfound], hitem, hsame⟩

theorem Dispatch.Queued.mentions (hqueued : state.Queued documentId) :
    state.Mentions documentId :=
  hqueued.imp_right Or.inr

/-- Away from the worker a payload of a document comes by a push and does not go. -/
theorem DispatchMove.queued_iff {action : DispatchAction}
    (hmove : DispatchMove settings state action next)
    (hwork : ∀ workerAction, action ≠ .work workerAction) :
    next.Queued documentId ↔ state.Queued documentId ∨ action.Delivers documentId := by
  cases hmove with
  | upload | reindex | load => exact (or_iff_left id).symm
  | push | enqueue =>
      unfold Dispatch.Queued
      rw [mentions_push, or_right_comm]
      exact Iff.rfl
  | work => exact absurd rfl (hwork _)
  | @requeueDlq call limit hfree =>
      refine Iff.trans (or_congr Iff.rfl ⟨fun hpopped => ?_, fun hpopped => ?_⟩)
        (or_iff_left id).symm
      · rcases popped_update hpopped with hold | ⟨drain, item, hdrain, hitem, _⟩
        · exact hold
        · cases hdrain
          cases hitem
      · rcases popped_elsewhere call (some { remaining := limit.toNat }) hpopped with
          ⟨drain, item, hdrain, _⟩ | helsewhere
        · rw [hfree] at hdrain
          cases hdrain
        · exact helsewhere
  | @rpush call drain popped hdrain hitem =>
      rw [or_iff_left (show ¬ (DispatchAction.drain call).Delivers documentId from id)]
      constructor
      · rintro (hworker | hpopped)
        · rcases mentions_push.mp hworker with hold | hsame
          · exact Or.inl hold
          · exact Or.inr ⟨call, drain, popped, hdrain, hitem, hsame⟩
        · rcases popped_update hpopped with hold | ⟨found, item, hchanged, hnone, _⟩
          · exact Or.inr hold
          · cases hchanged
            cases hnone
      · rintro (hworker | hpopped)
        · exact Or.inl (mentions_push.mpr (Or.inl hworker))
        · rcases popped_elsewhere call
            (some { drain with popped := none, count := drain.count + 1 }) hpopped with
            ⟨found, item, hfound, hpopped, hsame⟩ | helsewhere
          · cases hdrain.symm.trans hfound
            cases hitem.symm.trans hpopped
            exact Or.inl (mentions_push.mpr (Or.inr hsame))
          · exact Or.inr helsewhere
  | @lpop call remaining drain item error rest hdrain hnone hremaining hletters =>
      rw [or_iff_left (show ¬ (DispatchAction.drain call).Delivers documentId from id)]
      constructor
      · rintro ((hqueued | hheld | ⟨letter, hletter, hsame⟩) | hpopped)
        · exact Or.inl (Or.inl hqueued)
        · exact Or.inl (Or.inr (Or.inl hheld))
        · exact Or.inl (Or.inr (Or.inr
            ⟨letter, by rw [hletters]; exact List.mem_cons_of_mem _ hletter, hsame⟩))
        · rcases popped_update hpopped with hold | ⟨found, other, hchanged, hother, hsame⟩
          · exact Or.inr hold
          · cases hchanged
            cases hother
            exact Or.inl (Or.inr (Or.inr
              ⟨_, by rw [hletters]; exact List.mem_cons_self, hsame⟩))
      · rintro ((hqueued | hheld | ⟨letter, hletter, hsame⟩) | hpopped)
        · exact Or.inl (Or.inl hqueued)
        · exact Or.inl (Or.inr (Or.inl hheld))
        · rw [hletters] at hletter
          rcases List.mem_cons.mp hletter with rfl | hrest
          · exact Or.inr ⟨call, _, item, Function.update_self _ _ _, rfl, hsame⟩
          · exact Or.inl (Or.inr (Or.inr ⟨letter, hrest, hsame⟩))
        · rcases popped_elsewhere call
            (some { drain with remaining := remaining, popped := some item }) hpopped with
            ⟨found, other, hfound, hother, _⟩ | helsewhere
          · cases hdrain.symm.trans hfound
            cases hnone.symm.trans hother
          · exact Or.inr helsewhere
  | @finished call drain hdrain hnone =>
      refine Iff.trans (or_congr Iff.rfl ⟨fun hpopped => ?_, fun hpopped => ?_⟩)
        (or_iff_left id).symm
      · rcases popped_update hpopped with hold | ⟨found, item, hchanged, _⟩
        · exact hold
        · cases hchanged
      · rcases popped_elsewhere call none hpopped with ⟨found, other, hfound, hother, _⟩ |
          helsewhere
        · cases hdrain.symm.trans hfound
          cases hnone.symm.trans hother
        · exact helsewhere

/-- Only the worker finishes a job. -/
theorem DispatchMove.finished_iff {action : DispatchAction}
    (hmove : DispatchMove settings state action next)
    (hwork : ∀ workerAction, action ≠ .work workerAction) :
    next.stores.HasFinished documentId ↔ state.stores.HasFinished documentId := by
  cases hmove with
  | upload collectionId filename fileType hdocument hjob => exact createJob_finished hjob
  | reindex hloaded hrow hjob => exact createJob_finished hjob
  | work => exact absurd rfl (hwork _)
  | load | push | enqueue | requeueDlq | rpush | lpop | finished => exact Iff.rfl

/-- A document has a job after a step if it had one, or if the step pushed its payload. -/
theorem DispatchMove.hasJob_iff {action : DispatchAction}
    (hmove : DispatchMove settings state action next) (howned : state.Owned)
    (documentId : Uuid) :
    next.HasJob documentId ↔ state.HasJob documentId ∨ action.Delivers documentId := by
  by_cases hwork : ∃ workerAction, action = .work workerAction
  · obtain ⟨workerAction, rfl⟩ := hwork
    have hnone : ¬ (DispatchAction.work workerAction).Delivers documentId := id
    rw [or_iff_left hnone]
    cases hmove with
    | work hmove =>
        have hworker := hmove.hasJob_iff howned.held howned.own documentId
        unfold Dispatch.HasJob Dispatch.Queued
        rw [or_right_comm, hworker, or_right_comm]
  · have hother : ∀ workerAction, action ≠ .work workerAction :=
      fun workerAction hsame => hwork ⟨workerAction, hsame⟩
    unfold Dispatch.HasJob
    rw [hmove.queued_iff hother, hmove.finished_iff hother, or_right_comm]

/-! ## A row without a payload -/

section Store

variable {jobId collectionId : Uuid} {filename fileType : String}

/-- A document and its job are committed, and nothing is pushed. -/
def Dispatch.store (state : Dispatch) (documentId jobId collectionId : Uuid)
    (filename fileType : String) : Dispatch :=
  { state with
    stores := state.stores.createDocument documentId jobId collectionId filename fileType }

theorem Dispatch.Tracked.store (htracked : state.Tracked) (hfresh : state.stores.jobs jobId = none) :
    (state.store documentId jobId collectionId filename fileType).Tracked where
  documents := fun other hmentions =>
    setDocument_ne_none (Or.inl (htracked.documents other hmentions))
  phase := htracked.phase.mono (createJob_jobs hfresh)

theorem Dispatch.Owned.store (howned : state.Owned) (hfresh : state.stores.jobs jobId = none) :
    (state.store documentId jobId collectionId filename fileType).Owned := by
  have hannounced := @Dispatch.Owned.announce state documentId howned jobId
    ({ state.stores with files := insert documentId state.stores.files }.setDocument documentId
      { collectionId := collectionId, filename := filename, fileType := fileType })
    state.loaded rfl (fun other => setDocument_ne_none) hfresh
  exact ⟨hannounced.queue, hannounced.held, hannounced.letters,
    fun item hitem => hannounced.announced item (List.mem_append_left _ hitem),
    hannounced.popped, hannounced.own, hannounced.foreign⟩

theorem hasJob_store (hfresh : state.stores.jobs jobId = none) (other : Uuid) :
    (state.store documentId jobId collectionId filename fileType).HasJob other ↔
      state.HasJob other :=
  or_congr Iff.rfl (createJob_finished hfresh)

theorem store_documents {other : Uuid} (hother : other ≠ documentId) :
    (state.store documentId jobId collectionId filename fileType).stores.documents other =
      state.stores.documents other :=
  Function.update_of_ne hother _ _

/-- The payload of a stored document is pushed. -/
def Dispatch.push (state : Dispatch) (item : QueueItem) : Dispatch :=
  { state with worker := state.worker.push item }

theorem Dispatch.Tracked.push (htracked : state.Tracked)
    (hdocument : state.stores.documents item.documentId ≠ none) : (state.push item).Tracked where
  documents := by
    rintro other (hworker | hrest)
    · rcases mentions_push.mp hworker with hold | rfl
      · exact htracked.documents other (Or.inl hold)
      · exact hdocument
    · exact htracked.documents other (Or.inr hrest)
  phase := htracked.phase

theorem Dispatch.Owned.push (howned : state.Owned) (hitem : item.Owned state.stores) :
    (state.push item).Owned :=
  ⟨owned_push howned.queue hitem, howned.held, howned.letters, howned.announced, howned.popped,
    howned.own, howned.foreign⟩

/-- A request gives its payload up: it raises behind its commit and never pushes. -/
def Dispatch.forget (state : Dispatch) (item : QueueItem) : Dispatch :=
  { state with announced := state.announced.erase item }

theorem Dispatch.Tracked.forget (htracked : state.Tracked) : (state.forget item).Tracked where
  documents := by
    rintro other (hworker | ⟨found, hfound, hsame⟩ | hpopped)
    · exact htracked.documents other (Or.inl hworker)
    · exact htracked.documents other (Or.inr (Or.inl ⟨found, List.mem_of_mem_erase hfound, hsame⟩))
    · exact htracked.documents other (Or.inr (Or.inr hpopped))
  phase := htracked.phase

theorem Dispatch.Owned.forget (howned : state.Owned) : (state.forget item).Owned :=
  ⟨howned.queue, howned.held, howned.letters,
    fun found hfound => howned.announced found (List.mem_of_mem_erase hfound), howned.popped,
    howned.own, howned.foreign⟩

theorem hasJob_push (other : Uuid) :
    (state.push item).HasJob other ↔ state.HasJob other ∨ item.documentId = other := by
  unfold Dispatch.HasJob Dispatch.Queued Dispatch.push
  rw [mentions_push]
  tauto

/-- A document that does not exist has no job. -/
theorem not_hasJob (htracked : state.Tracked) (howned : state.Owned)
    (hnone : state.stores.documents documentId = none) : ¬ state.HasJob documentId := by
  rintro (hqueued | ⟨jobId, job, hjob, rfl, _⟩)
  · exact htracked.documents documentId hqueued.mentions hnone
  · exact howned.foreign jobId job hjob hnone

theorem owned_empty : ({} : Dispatch).Owned where
  queue := fun item hitem => by cases hitem
  held := fun item hitem => by cases hitem
  letters := fun letter hletter => by cases hletter
  announced := fun item hitem => by cases hitem
  popped := fun call drain item hdrain => by cases hdrain
  own := trivial
  foreign := fun jobId job hjob => by cases hjob

end Store

/-- The worker writes only the row of the document it has a payload of. -/
theorem WorkMove.document_kept (hmove : WorkMove settings stores worker action after following)
    (htracked : worker.phase.Tracked stores) (hnone : ¬ worker.Mentions documentId) :
    after.documents documentId = stores.documents documentId := by
  cases hmove with
  | pop | drop | requeue | bury => rfl
  | start plan hphase hstarted => rw [(jobStarted_rows hstarted).1]
  | finish hphase =>
      rw [hphase] at htracked
      obtain ⟨job, hjob⟩ := htracked
      rw [(jobFinished_rows none false hjob).1]
  | fail hphase =>
      rw [hphase] at htracked
      obtain ⟨job, hjob⟩ := htracked
      rw [(jobFinished_rows (some _) _ hjob).1]
  | @index item run outcome after phase session hphase hmove =>
      rcases hmove.documents with hsame | ⟨row, hwritten, _⟩
      · rw [hsame]
      · rw [hphase] at htracked
        have hother : documentId ≠ run.documentId := by
          rintro rfl
          exact hnone (Or.inr (Or.inl ⟨item, by rw [hphase]; rfl, htracked.2.1.symm⟩))
        rw [hwritten, Function.update_of_ne hother]

/-- A re-index request commits while the row is there. -/
theorem DispatchMove.reindexed_row {jobId : Uuid} {document : Document}
    (hmove : DispatchMove settings state (.reindex documentId jobId document) next) :
    state.stores.documents documentId ≠ none := by
  cases hmove with
  | reindex hloaded hrow =>
      rw [hrow]
      exact Option.some_ne_none _

/-- Nothing writes the row of a document that has no payload and gets none. -/
theorem DispatchMove.document_kept {action : DispatchAction}
    (hmove : DispatchMove settings state action next) (htracked : state.Tracked)
    (hnone : ¬ state.Mentions documentId) (hsupplies : ¬ action.Supplies documentId) :
    next.stores.documents documentId = state.stores.documents documentId := by
  cases hmove with
  | upload | reindex =>
      have hother : documentId ≠ _ := fun hsame => hsupplies hsame.symm
      exact Function.update_of_ne hother _ _
  | work hmove =>
      exact hmove.document_kept htracked.phase fun hworker => hnone (Or.inl hworker)
  | load | push | enqueue | requeueDlq | rpush | lpop | finished => rfl

end Custody

end AgenticRag.Ingestion
