import AgenticRag.Ingestion.Worker

/-!
# The handling of one queue item

`BLPOP` has removed the item before `_handle_job` runs, so until the handler
puts it somewhere else the item lives in the memory of the worker.  A command
may raise where the source handles it, raise where nothing handles it, and the
process may die between any two commands.
-/

namespace AgenticRag.Ingestion

/-- A command of the handler; an exception of the rollback behind a failed
`job_started`, which nothing in the handler catches; the death of the worker. -/
inductive HandlingAction where
  | command (action : WorkerAction)
  | escape
  | crash

section

variable (settings : Settings)

/-- The worker without its item. -/
def Worker.dropItem (worker : Worker) : Worker :=
  { worker with phase := .idle }

/-- One step of a handling that has popped its item. -/
def handleStep (state : Stores × Worker) : HandlingAction → Option (Stores × Worker)
  | .command .pop => none
  | .command action => workerStep settings state action
  | .escape =>
      match state.2.phase with
      | .starting _ => some (state.1, state.2.dropItem)
      | _ => none
  | .crash =>
      match state.2.phase with
      | .idle => none
      | _ => some (state.1, state.2.dropItem)

end

/-! ## Where the work can be found -/

/-- The last commit of `index_document` takes effect. -/
def Commits (state : Stores × Worker) : HandlingAction → Prop
  | .command (.work outcome) =>
      match state.2.phase with
      | .indexing _ run =>
          (∃ document, run.phase = .running document .commit) ∧ outcome.takesEffect = true
      | _ => False
  | _ => False

/-- The `except` block of `index_document` writes the status `FAILED`. -/
def WritesFailed (state : Stores × Worker) : HandlingAction → Prop
  | .command (.work outcome) =>
      match state.2.phase with
      | .indexing _ run =>
          (∃ message, run.phase = .handling message) ∧ outcome.takesEffect = true
      | _ => False
  | _ => False

/-- The handling ends without a word about its item: the process dies, or an
exception leaves the handler before a queue has the item. -/
def Drops (state : Stores × Worker) : HandlingAction → Prop
  | .escape | .crash => True
  | .command (.work (.raise _)) =>
      match state.2.phase with
      | .failing .. | .requeueing _ | .burying .. => True
      | _ => False
  | .command (.work (.late _)) =>
      match state.2.phase with
      | .failing .. => True
      | _ => False
  | .command _ => False

/-- The payload, with the same or the next attempt, is in the ingest queue, or it
is a dead letter. -/
def QueueItem.Waits (item : QueueItem) (worker : Worker) : Prop :=
  (∃ queued ∈ worker.queue, queued.documentId = item.documentId ∧
      (queued.attempt = item.attempt ∨ queued.attempt = item.attempt + 1)) ∨
    ∃ letter ∈ worker.deadLetters, letter.1.documentId = item.documentId ∧
      letter.1.attempt = item.attempt

/-- The committed row of the document has the status `INDEXED`. -/
def Stores.Indexed (stores : Stores) (documentId : Uuid) : Prop :=
  ∃ row, stores.documents documentId = some row ∧ row.status = .indexed

/-- What is known of a handling in each of its phases.  `committed` says whether the index
commit stands, `dropped` whether a drop has happened. -/
def Underway (item : QueueItem) (start : Worker) (committed dropped : Prop)
    (state : Stores × Worker) : Prop :=
  let unmoved := state.2.queue = start.queue ∧ state.2.deadLetters = start.deadLetters
  let sure := committed → state.1.Indexed item.documentId
  match state.2.phase with
  | .starting held => held = item ∧ ¬ committed ∧ ¬ dropped ∧ unmoved
  | .indexing held run =>
      held = item ∧ run.documentId = item.documentId ∧ ¬ run.Finished ∧
        (committed → ∃ message, run.phase = .handling message) ∧ sure ∧ ¬ dropped ∧ unmoved
  | .finishing held _ => held = item ∧ committed ∧ sure ∧ ¬ dropped ∧ unmoved
  | .failing held _ _ => held = item ∧ sure ∧ ¬ dropped ∧ unmoved
  | .requeueing next =>
      next.documentId = item.documentId ∧ next.attempt = item.attempt + 1 ∧ sure ∧
        ¬ dropped ∧ unmoved
  | .burying held _ =>
      held.documentId = item.documentId ∧ held.attempt = item.attempt ∧ sure ∧
        ¬ dropped ∧ unmoved
  | .idle =>
      sure ∧ ((dropped ∧ unmoved) ∨
        (¬ dropped ∧ (committed ∨ item.Waits state.2 ∨
          state.1.documents item.documentId = none)))

section

variable {settings : Settings} {item : QueueItem} {start : Worker} {committed dropped : Prop}

/-- A handler that finds no job row and no document row. -/
theorem jobStarted_eq_none {newJobId : Uuid} {stores : Stores}
    (hgone : jobStarted item newJobId stores = none) :
    stores.documents item.documentId = none := by
  unfold jobStarted at hgone
  split at hgone
  next => cases hgone
  next =>
    split at hgone
    next hnone => exact hnone
    next => cases hgone

theorem Tracking.indexed {stores after : Stores} {documentId : Uuid}
    (htracking : Tracking stores after) (hindexed : stores.Indexed documentId) :
    after.Indexed documentId := by
  rw [Stores.Indexed, htracking.documents]
  exact hindexed

/-- The item of a failed run is on its way to the queue or to the dead letters. -/
theorem underway_afterFailure {stores : Stores} (worker : Worker) (jobId : Option Uuid)
    (message : String) (hsure : committed → stores.Indexed item.documentId)
    (hdropped : ¬ dropped)
    (hunmoved : worker.queue = start.queue ∧ worker.deadLetters = start.deadLetters) :
    Underway item start committed dropped
      (stores, { worker with phase := afterFailure settings item jobId message }) := by
  unfold Underway afterFailure
  split_ifs
  · exact ⟨rfl, rfl, hsure, hdropped, hunmoved⟩
  · exact ⟨rfl, rfl, hsure, hdropped, hunmoved⟩

/-- Dropping the item leaves the queue and the dead letters as they were. -/
theorem underway_drop {state : Stores × Worker}
    (hunderway : Underway item start committed dropped state) (hphase : state.2.phase ≠ .idle) :
    Underway item start committed True (state.1, state.2.dropItem) := by
  obtain ⟨stores, phase, queue, letters⟩ := state
  cases phase with
  | idle => exact absurd rfl hphase
  | starting held => exact ⟨fun h => absurd h hunderway.2.1, Or.inl ⟨trivial, hunderway.2.2.2⟩⟩
  | indexing held run =>
      obtain ⟨_, _, _, _, hsure, _, hunmoved⟩ := hunderway
      exact ⟨hsure, Or.inl ⟨trivial, hunmoved⟩⟩
  | finishing held jobId =>
      obtain ⟨_, _, hsure, _, hunmoved⟩ := hunderway
      exact ⟨hsure, Or.inl ⟨trivial, hunmoved⟩⟩
  | failing held jobId message =>
      obtain ⟨_, hsure, _, hunmoved⟩ := hunderway
      exact ⟨hsure, Or.inl ⟨trivial, hunmoved⟩⟩
  | requeueing next =>
      obtain ⟨_, _, hsure, _, hunmoved⟩ := hunderway
      exact ⟨hsure, Or.inl ⟨trivial, hunmoved⟩⟩
  | burying held message =>
      obtain ⟨_, _, hsure, _, hunmoved⟩ := hunderway
      exact ⟨hsure, Or.inl ⟨trivial, hunmoved⟩⟩

/-- A run that has raised. -/
theorem underway_raised {stores : Stores} {worker : Worker} {run : Run} {message : String}
    (hphase : run.phase = .raised message)
    (hsure : committed → stores.Indexed item.documentId) (hdropped : ¬ dropped)
    (hunmoved : worker.queue = start.queue ∧ worker.deadLetters = start.deadLetters) :
    Underway item start committed dropped
      (stores, { worker with phase := afterIndex settings item run }) := by
  rw [afterIndex, hphase]
  dsimp only
  cases run.jobId with
  | none => exact underway_afterFailure worker none message hsure hdropped hunmoved
  | some jobId => exact ⟨rfl, hsure, hdropped, hunmoved⟩

/-- A run that goes on. -/
theorem underway_running {stores : Stores} {worker : Worker} {run : Run}
    (hdocument : run.documentId = item.documentId) (hrunning : ¬ run.Finished)
    (hhandling : committed → ∃ message, run.phase = .handling message)
    (hsure : committed → stores.Indexed item.documentId) (hdropped : ¬ dropped)
    (hunmoved : worker.queue = start.queue ∧ worker.deadLetters = start.deadLetters) :
    Underway item start committed dropped
      (stores, { worker with phase := afterIndex settings item run }) := by
  have hindexing : afterIndex settings item run = .indexing item run := by
    unfold afterIndex
    unfold Run.Finished at hrunning
    split
    next hphase => rw [hphase] at hrunning; exact absurd trivial hrunning
    next hphase => rw [hphase] at hrunning; exact absurd trivial hrunning
    next => rfl
  rw [hindexing]
  exact ⟨rfl, hdocument, hrunning, hhandling, hsure, hdropped, hunmoved⟩

/-- The final commit leaves the document indexed. -/
theorem execute_commit_indexed {run : Run} {document : Document} {stores after : Stores}
    {session : Session}
    (hexecute : run.execute document stores .commit = some (after, session)) :
    after.Indexed run.documentId := by
  simp only [Run.execute] at hexecute
  split at hexecute
  next => cases hexecute
  next row _ =>
    cases hexecute
    exact ⟨_, Function.update_self .., rfl⟩

/-- One step of the run inside a handling. -/
theorem underway_index {stores after : Stores} (worker : Worker) {run : Run}
    {outcome : Outcome} {phase : Phase} {session : Session}
    (hunderway : Underway item start committed dropped
      (stores, { worker with phase := .indexing item run }))
    (hmove : Move settings stores run outcome after phase session) :
    Underway item start
      (((∃ document, run.phase = .running document .commit) ∧ outcome.takesEffect = true) ∨
        (committed ∧ ¬ ((∃ message, run.phase = .handling message) ∧
          outcome.takesEffect = true))) dropped
      (after, { worker with
        phase := afterIndex settings item { run with phase := phase, session := session } }) := by
  obtain ⟨_, hdocument, _, hhandling, hsure, hdropped, hunmoved⟩ := hunderway
  -- away from its `except` block the run has no commit that stands
  have hnone : (∀ document, run.phase = .running document .commit →
        outcome.takesEffect = false) → (∀ message, run.phase ≠ .handling message) →
      ¬ (((∃ document, run.phase = .running document .commit) ∧ outcome.takesEffect = true) ∨
        (committed ∧ ¬ ((∃ message, run.phase = .handling message) ∧
          outcome.takesEffect = true))) := by
    rintro hcommit hnot (⟨⟨document, hphase⟩, heffect⟩ | ⟨hcommitted, _⟩)
    · cases heffect.symm.trans (hcommit document hphase)
    · obtain ⟨message, hphase⟩ := hhandling hcommitted
      exact hnot message hphase
  cases hmove with
  | load hphase hrow | mark hphase hmark =>
      have hnow := hnone (fun document hcommit => by cases hphase.symm.trans hcommit)
        (fun message hnot => by cases hphase.symm.trans hnot)
      exact underway_running hdocument (by simp [Run.Finished]) (fun h => absurd h hnow)
        (fun h => absurd h hnow) hdropped hunmoved
  | markLate message hphase hmark =>
      have hnow := hnone (fun document hcommit => by cases hphase.symm.trans hcommit)
        (fun message hnot => by cases hphase.symm.trans hnot)
      exact underway_raised rfl (fun h => absurd h hnow) hdropped hunmoved
  | abort message hphase =>
      have hnow := hnone
        (fun document hcommit => by
          rcases hphase with hload | ⟨_, hmark⟩
          · cases hload.symm.trans hcommit
          · cases hmark.symm.trans hcommit)
        (fun message hnot => by
          rcases hphase with hload | ⟨_, hmark⟩
          · cases hload.symm.trans hnot
          · cases hmark.symm.trans hnot)
      exact underway_raised rfl (fun h => absurd h hnow) hdropped hunmoved
  | proceed hphase hexecute hnext =>
      have hnow := hnone
        (fun document hcommit => by
          cases hphase.symm.trans hcommit
          cases hnext)
        (fun message hnot => by cases hphase.symm.trans hnot)
      exact underway_running hdocument (by simp [Run.Finished]) (fun h => absurd h hnow)
        (fun h => absurd h hnow) hdropped hunmoved
  | finish hphase hexecute =>
      have hindexed : after.Indexed item.documentId := hdocument ▸ execute_commit_indexed hexecute
      have hnow : (∃ document, run.phase = .running document .commit) ∧
          Outcome.ok.takesEffect = true := ⟨⟨_, hphase⟩, rfl⟩
      unfold afterIndex
      dsimp only
      cases run.jobId with
      | none => exact ⟨fun _ => hindexed, Or.inr ⟨hdropped, Or.inl (Or.inl hnow)⟩⟩
      | some jobId => exact ⟨rfl, Or.inl hnow, fun _ => hindexed, hdropped, hunmoved⟩
  | skipPages hphase hpages | fail hphase hpages =>
      have hnow := hnone (fun _ _ => rfl) (fun message hnot => by cases hphase.symm.trans hnot)
      exact underway_running hdocument (by simp [Run.Finished]) (fun h => absurd h hnow)
        (fun h => absurd h hnow) hdropped hunmoved
  | skipPagesLate hphase hexecute hpages =>
      have hnow := hnone
        (fun document hcommit => by
          cases hphase.symm.trans hcommit
          cases hpages)
        (fun message hnot => by cases hphase.symm.trans hnot)
      exact underway_running hdocument (by simp [Run.Finished]) (fun h => absurd h hnow)
        (fun h => absurd h hnow) hdropped hunmoved
  | failLate hphase hexecute hpages =>
      refine underway_running hdocument (by simp [Run.Finished]) (fun _ => ⟨_, rfl⟩) ?_ hdropped
        hunmoved
      rintro (⟨⟨document, hcommit⟩, _⟩ | ⟨hcommitted, _⟩)
      · cases hphase.symm.trans hcommit
        exact hdocument ▸ execute_commit_indexed hexecute
      · obtain ⟨message, hnot⟩ := hhandling hcommitted
        cases hphase.symm.trans hnot
  | handle hphase heffect =>
      refine underway_raised rfl ?_ hdropped hunmoved
      rintro (⟨⟨document, hcommit⟩, _⟩ | ⟨_, hnot⟩)
      · cases hphase.symm.trans hcommit
      · exact absurd ⟨⟨_, hphase⟩, heffect⟩ hnot
  | giveUp failure hphase =>
      refine underway_raised rfl ?_ hdropped hunmoved
      rintro (⟨_, heffect⟩ | ⟨hcommitted, _⟩)
      · cases heffect
      · exact hsure hcommitted

/-- Nothing of the handling is decided by a step that neither commits nor drops. -/
theorem underway_quiet {state next : Stores × Worker} {action : HandlingAction}
    (hnext : Underway item start committed dropped next) (hcommits : ¬ Commits state action)
    (hfailed : ¬ WritesFailed state action) (hdrops : ¬ Drops state action) :
    Underway item start (Commits state action ∨ (committed ∧ ¬ WritesFailed state action))
      (dropped ∨ Drops state action) next := by
  simpa only [hcommits, hfailed, hdrops, not_false_eq_true, and_true, false_or, or_false]
    using hnext

/-- A step that drops the item. -/
theorem underway_dropped {state : Stores × Worker} {action : HandlingAction}
    (hunderway : Underway item start committed dropped state)
    (hphase : state.2.phase ≠ .idle) (hcommits : ¬ Commits state action)
    (hfailed : ¬ WritesFailed state action) (hdrops : Drops state action) :
    Underway item start (Commits state action ∨ (committed ∧ ¬ WritesFailed state action))
      (dropped ∨ Drops state action) (state.1, state.2.dropItem) := by
  simpa only [hcommits, hfailed, hdrops, not_false_eq_true, and_true, false_or, or_true]
    using underway_drop hunderway hphase

/-- A command of the handling, by what the worker does. -/
theorem underway_command {stores after : Stores} {worker following : Worker}
    {action : WorkerAction} (hunderway : Underway item start committed dropped (stores, worker))
    (hpop : action ≠ .pop) (hmove : WorkerMove settings stores worker action after following) :
    Underway item start
      (Commits (stores, worker) (.command action) ∨
        (committed ∧ ¬ WritesFailed (stores, worker) (.command action)))
      (dropped ∨ Drops (stores, worker) (.command action)) (after, following) := by
  obtain ⟨phase, queue, letters⟩ := worker
  cases hmove with
  | pop => exact absurd rfl hpop
  | drop plan hphase hgone =>
      cases hphase
      obtain ⟨rfl, hcommitted, hdropped, _⟩ := hunderway
      exact underway_quiet ⟨fun h => absurd h hcommitted,
        Or.inr ⟨hdropped, Or.inr (Or.inr (jobStarted_eq_none hgone))⟩⟩ id id id
  | start plan hphase hstarted =>
      cases hphase
      obtain ⟨rfl, hcommitted, hdropped, hunmoved⟩ := hunderway
      exact underway_quiet ⟨rfl, rfl, id, fun h => absurd h hcommitted,
        fun h => absurd h hcommitted, hdropped, hunmoved⟩ id id id
  | untracked newJobId plan message hphase | untrackedLate plan message hphase hstarted =>
      cases hphase
      obtain ⟨rfl, hcommitted, hdropped, hunmoved⟩ := hunderway
      exact underway_quiet ⟨rfl, rfl, id, fun h => absurd h hcommitted,
        fun h => absurd h hcommitted, hdropped, hunmoved⟩ id id id
  | @index held run outcome after phase session hphase hmove =>
      cases hphase
      obtain rfl := hunderway.1
      have hdrops : ¬ Drops (stores, ⟨.indexing held run, queue, letters⟩)
          (.command (.work outcome)) := by
        cases outcome with
        | ok => exact id
        | raise message | late message => exact id
      simp only [hdrops, or_false]
      exact underway_index ⟨.indexing held run, queue, letters⟩ hunderway hmove
  | finish hphase =>
      cases hphase
      obtain ⟨rfl, hcommitted, hsure, hdropped, hunmoved⟩ := hunderway
      exact underway_quiet ⟨fun h => (jobFinished_tracking ..).indexed (hsure h),
        Or.inr ⟨hdropped, Or.inl hcommitted⟩⟩ id id id
  | unfinished message hphase =>
      cases hphase
      obtain ⟨rfl, hcommitted, hsure, hdropped, hunmoved⟩ := hunderway
      exact underway_quiet ⟨rfl, hsure, hdropped, hunmoved⟩ id id id
  | unfinishedLate message hphase =>
      cases hphase
      obtain ⟨rfl, hcommitted, hsure, hdropped, hunmoved⟩ := hunderway
      exact underway_quiet ⟨rfl, fun h => (jobFinished_tracking ..).indexed (hsure h), hdropped,
        hunmoved⟩ id id id
  | @fail held jobId message hphase =>
      cases hphase
      obtain ⟨rfl, hsure, hdropped, hunmoved⟩ := hunderway
      exact underway_quiet (underway_afterFailure
        ⟨.failing held jobId message, queue, letters⟩ _ _
        (fun h => (jobFinished_tracking ..).indexed (hsure h)) hdropped hunmoved) id id id
  | @failLate held jobId message failure hphase =>
      cases hphase
      obtain ⟨rfl, hsure, hdropped, hunmoved⟩ := hunderway
      have hlost : Underway held start committed True
          (jobFinished jobId (some message) (willRetry settings held) stores,
            ⟨.idle, queue, letters⟩) :=
        ⟨fun h => (jobFinished_tracking ..).indexed (hsure h), Or.inl ⟨trivial, hunmoved⟩⟩
      have hdrops : Drops (stores, ⟨.failing held jobId message, queue, letters⟩)
          (.command (.work (.late failure))) := trivial
      have hcommits : ¬ Commits (stores, ⟨.failing held jobId message, queue, letters⟩)
          (.command (.work (.late failure))) := id
      have hfailed : ¬ WritesFailed (stores, ⟨.failing held jobId message, queue, letters⟩)
          (.command (.work (.late failure))) := id
      simpa only [hcommits, hfailed, hdrops, not_false_eq_true, and_true, false_or, or_true]
        using hlost
  | @requeue queued outcome hphase heffect =>
      cases hphase
      obtain ⟨hdocument, hattempt, hsure, hdropped, _⟩ := hunderway
      have hwaits : item.Waits ⟨.idle, queue ++ [queued], letters⟩ :=
        Or.inl ⟨queued, List.mem_append_right _ List.mem_cons_self, hdocument,
          Or.inr hattempt⟩
      refine underway_quiet ⟨hsure, Or.inr ⟨hdropped, Or.inr (Or.inl hwaits)⟩⟩ id id ?_
      cases outcome with
      | ok | late message => exact id
      | raise message => cases heffect
  | @bury held message outcome hphase heffect =>
      cases hphase
      obtain ⟨hdocument, hattempt, hsure, hdropped, _⟩ := hunderway
      have hwaits : item.Waits ⟨.idle, queue, letters ++ [(held, message)]⟩ :=
        Or.inr ⟨(held, message), List.mem_append_right _ List.mem_cons_self,
          hdocument, hattempt⟩
      refine underway_quiet ⟨hsure, Or.inr ⟨hdropped, Or.inr (Or.inl hwaits)⟩⟩ id id ?_
      cases outcome with
      | ok | late message => exact id
      | raise message => cases heffect
  | lose failure hphase =>
      rcases hphase with ⟨_, _, _, hphase⟩ | ⟨_, hphase⟩ | ⟨_, _, hphase⟩
      · cases hphase
        exact underway_dropped hunderway WorkerPhase.noConfusion id id trivial
      · cases hphase
        exact underway_dropped hunderway WorkerPhase.noConfusion id id trivial
      · cases hphase
        exact underway_dropped hunderway WorkerPhase.noConfusion id id trivial

/-- One step of a handling: a command, or the end of the process. -/
theorem underway_step {state next : Stores × Worker} {action : HandlingAction}
    (hunderway : Underway item start committed dropped state)
    (hstep : handleStep settings state action = some next) :
    Underway item start (Commits state action ∨ (committed ∧ ¬ WritesFailed state action))
      (dropped ∨ Drops state action) next := by
  obtain ⟨stores, phase, queue, letters⟩ := state
  cases action with
  | crash =>
      cases phase with
      | idle => cases hstep
      | _ => cases hstep; exact underway_dropped hunderway nofun id id trivial
  | escape =>
      cases phase with
      | starting held => cases hstep; exact underway_dropped hunderway nofun id id trivial
      | _ => cases hstep
  | command action =>
      obtain ⟨after, following⟩ := next
      cases action with
      | pop => cases hstep
      | start newJobId plan outcome =>
          exact underway_command hunderway WorkerAction.noConfusion (workerStep_moves hstep)
      | work outcome =>
          exact underway_command hunderway WorkerAction.noConfusion (workerStep_moves hstep)

/-! ## Who writes `INDEXED` -/

theorem indexed_setDocument {stores : Stores} {document : Document} {documentId other : Uuid}
    (hstatus : document.status ≠ .indexed)
    (hindexed : (stores.setDocument other document).Indexed documentId) :
    stores.Indexed documentId ∧ documentId ≠ other := by
  obtain ⟨row, hrow, hstatusRow⟩ := hindexed
  by_cases hsame : documentId = other
  · subst hsame
    obtain rfl : document = row := by simpa [Stores.setDocument] using hrow
    exact absurd hstatusRow hstatus
  · exact ⟨⟨row, by simpa [Stores.setDocument, hsame] using hrow, hstatusRow⟩, hsame⟩

/-- The `except` block takes `INDEXED` away from the document of its run. -/
theorem not_indexed_markFailed (run : Run) (message : String) (stores : Stores) :
    ¬ (run.markFailed message stores).Indexed run.documentId := by
  unfold Run.markFailed
  split
  next hnone =>
    rintro ⟨row, hrow, _⟩
    cases hnone.symm.trans hrow
  next row _ => exact fun hindexed => (indexed_setDocument DocumentStatus.noConfusion hindexed).2 rfl

/-- A run brings `INDEXED` by its commit only. -/
theorem indexed_move {stores after : Stores} {run : Run} {outcome : Outcome} {phase : Phase}
    {session : Session} (hmove : Move settings stores run outcome after phase session)
    (hindexed : after.Indexed run.documentId) :
    ((∃ document, run.phase = .running document .commit) ∧ outcome.takesEffect = true) ∨
      (stores.Indexed run.documentId ∧
        ¬ ((∃ message, run.phase = .handling message) ∧ outcome.takesEffect = true)) := by
  have hmarked : ∀ document, run.phase = .marking document →
      run.markProcessing document stores = some after → stores.Indexed run.documentId := by
    intro document _ hmark
    unfold Run.markProcessing at hmark
    split_ifs at hmark
    · cases hmark
      exact hindexed
    · obtain ⟨row, _, rfl⟩ := Option.map_eq_some_iff.mp hmark
      exact (indexed_setDocument DocumentStatus.noConfusion hindexed).1
  have hexecuted : ∀ document command left, run.phase = .running document command →
      run.execute document stores command = some (after, left) → command ≠ .commit →
        stores.Indexed run.documentId := by
    intro document command left _ hexecute hcommit
    obtain ⟨row, hrow, hstatus⟩ := hindexed
    refine ⟨row, ?_, hstatus⟩
    rcases execute_cases hexecute with ⟨_, rfl, _⟩ | ⟨_, rfl, _⟩ | ⟨_, rfl, _⟩ |
      ⟨rfl, _⟩ | ⟨_, hsame, _⟩ | ⟨_, _, _, _, hneutral⟩
    · exact hrow
    · exact hrow
    · exact hrow
    · exact absurd rfl hcommit
    · rwa [← hsame]
    · rwa [← hneutral.documents]
  cases hmove with
  | load hphase | skipPages hphase | fail hphase =>
      refine Or.inr ⟨hindexed, ?_⟩
      rintro ⟨⟨message, hhandling⟩, _⟩
      cases hphase.symm.trans hhandling
  | abort message hphase =>
      refine Or.inr ⟨hindexed, ?_⟩
      rintro ⟨⟨message, hhandling⟩, _⟩
      rcases hphase with hload | ⟨_, hmark⟩
      · cases hload.symm.trans hhandling
      · cases hmark.symm.trans hhandling
  | giveUp failure hphase => exact Or.inr ⟨hindexed, fun hwrites => by cases hwrites.2⟩
  | mark hphase hmark | markLate _ hphase hmark =>
      refine Or.inr ⟨hmarked _ hphase hmark, ?_⟩
      rintro ⟨⟨message, hhandling⟩, _⟩
      cases hphase.symm.trans hhandling
  | proceed hphase hexecute hnext =>
      refine Or.inr ⟨hexecuted _ _ _ hphase hexecute ?_, ?_⟩
      · rintro rfl
        cases hnext
      · rintro ⟨⟨message, hhandling⟩, _⟩
        cases hphase.symm.trans hhandling
  | finish hphase hexecute => exact Or.inl ⟨⟨_, hphase⟩, rfl⟩
  | @skipPagesLate document command _ _ _ hphase hexecute hpages =>
      refine Or.inr ⟨hexecuted _ _ _ hphase hexecute ?_, ?_⟩
      · rintro rfl
        cases hpages
      · rintro ⟨⟨message, hhandling⟩, _⟩
        cases hphase.symm.trans hhandling
  | @failLate document command _ _ _ hphase hexecute hpages =>
      by_cases hcommit : command = .commit
      · exact Or.inl ⟨⟨document, by rw [hphase, hcommit]⟩, rfl⟩
      · refine Or.inr ⟨hexecuted _ _ _ hphase hexecute hcommit, ?_⟩
        rintro ⟨⟨message, hhandling⟩, _⟩
        cases hphase.symm.trans hhandling
  | handle hphase heffect => exact absurd hindexed (not_indexed_markFailed run _ stores)

/-- So does a handling. -/
theorem indexed_step {state next : Stores × Worker} {action : HandlingAction}
    (hunderway : Underway item start committed dropped state)
    (hstep : handleStep settings state action = some next)
    (hindexed : next.1.Indexed item.documentId) :
    Commits state action ∨
      (state.1.Indexed item.documentId ∧ ¬ WritesFailed state action) := by
  obtain ⟨stores, phase, queue, letters⟩ := state
  cases action with
  | crash =>
      cases phase with
      | idle => cases hstep
      | _ => cases hstep; exact Or.inr ⟨hindexed, id⟩
  | escape =>
      cases phase with
      | starting held => cases hstep; exact Or.inr ⟨hindexed, id⟩
      | _ => cases hstep
  | command action =>
      obtain ⟨after, following⟩ := next
      cases action with
      | pop => cases hstep
      | start newJobId plan outcome =>
          refine Or.inr ⟨?_, id⟩
          cases workerStep_moves hstep with
          | drop | untracked => exact hindexed
          | start _ _ hstarted | untrackedLate _ _ _ hstarted =>
              obtain ⟨row, hrow, hstatus⟩ := hindexed
              exact ⟨row, by rw [← (jobStarted_tracking hstarted).documents]; exact hrow, hstatus⟩
      | work outcome =>
          have hkept : ∀ jobId error requeued,
              (jobFinished jobId error requeued stores).Indexed item.documentId →
                stores.Indexed item.documentId := by
            rintro jobId error requeued ⟨row, hrow, hstatus⟩
            rw [(jobFinished_tracking jobId error requeued stores).documents] at hrow
            exact ⟨row, hrow, hstatus⟩
          cases workerStep_moves hstep with
          | index hphase hmove =>
              cases hphase
              obtain ⟨rfl, hdocument, _⟩ := hunderway
              rw [← hdocument] at hindexed ⊢
              exact indexed_move hmove hindexed
          | finish hphase | unfinishedLate _ hphase | fail hphase | failLate _ hphase =>
              cases hphase
              exact Or.inr ⟨hkept _ _ _ hindexed, id⟩
          | unfinished _ hphase | requeue hphase | bury hphase =>
              cases hphase
              exact Or.inr ⟨hindexed, id⟩
          | lose _ hphase =>
              rcases hphase with ⟨_, _, _, hphase⟩ | ⟨_, hphase⟩ | ⟨_, _, hphase⟩
              · cases hphase
                exact Or.inr ⟨hindexed, id⟩
              · cases hphase
                exact Or.inr ⟨hindexed, id⟩
              · cases hphase
                exact Or.inr ⟨hindexed, id⟩

/-! ## A whole handling -/

/-- The work of the item is not lost: this attempt has indexed the document, the
payload waits in the queue or among the dead letters, or the document is gone. -/
def Kept (item : QueueItem) (committed : Prop) (state : Stores × Worker) : Prop :=
  (committed ∧ state.1.Indexed item.documentId) ∨ item.Waits state.2 ∨
    state.1.documents item.documentId = none

/-- The worker has just popped the item. -/
def popped (stores : Stores) (worker : Worker) (item : QueueItem) : Stores × Worker :=
  (stores, { worker with phase := .starting item })

theorem run_underway {stores : Stores} {worker : Worker} {actions : List HandlingAction}
    {finish : Stores × Worker}
    (hrun : Transition.exec (handleStep settings) (popped stores worker item) actions =
      some finish) :
    Underway item worker
      (Transition.Unanswered (handleStep settings) (popped stores worker item) actions Commits
        WritesFailed)
      (Transition.Occurs (handleStep settings) (popped stores worker item) actions Drops)
      finish := by
  refine Transition.exec_induction (motive := fun past state => Underway item worker
    (Transition.Unanswered (handleStep settings) (popped stores worker item) past Commits
      WritesFailed)
    (Transition.Occurs (handleStep settings) (popped stores worker item) past Drops)
    state) ?_ ?_ hrun
  · exact ⟨rfl, Transition.not_unanswered_nil _ _ _ _, Transition.not_occurs_nil _ _ _, rfl, rfl⟩
  · intro past state action next hpast hunderway hnext
    rw [Transition.unanswered_snoc hpast hnext, Transition.occurs_snoc hpast]
    exact underway_step hunderway hnext

/-- A commit of this attempt that shows at the end has not been overwritten. -/
theorem run_committed {stores : Stores} {worker : Worker} {actions : List HandlingAction}
    {finish : Stores × Worker}
    (hrun : Transition.exec (handleStep settings) (popped stores worker item) actions =
      some finish)
    (hcommits : Transition.Occurs (handleStep settings) (popped stores worker item) actions
      Commits) (hindexed : finish.1.Indexed item.documentId) :
    Transition.Unanswered (handleStep settings) (popped stores worker item) actions Commits
      WritesFailed := by
  revert hcommits hindexed
  refine Transition.exec_induction (motive := fun past state =>
    Transition.Occurs (handleStep settings) (popped stores worker item) past Commits →
      state.1.Indexed item.documentId →
        Transition.Unanswered (handleStep settings) (popped stores worker item) past Commits
          WritesFailed) ?_ ?_ hrun
  · intro hcommits
    exact absurd hcommits (Transition.not_occurs_nil _ _ _)
  · intro past state action next hpast ih hnext hcommits hindexed
    rw [Transition.unanswered_snoc hpast hnext]
    rcases indexed_step (run_underway hpast) hnext hindexed with hnow | ⟨hbefore, hkept⟩
    · exact Or.inl hnow
    · rcases (Transition.occurs_snoc hpast).mp hcommits with hearlier | hnow
      · exact Or.inr ⟨ih hearlier hbefore, hkept⟩
      · exact Or.inl hnow

/-- Exactly when a handling that is over has not lost its item: it never dropped the item,
or a commit of it stands that no `except` block has overwritten, or the payload waits
elsewhere anyway, or the document is gone. -/
theorem handled_kept_iff {stores : Stores} {worker : Worker} {actions : List HandlingAction}
    {finish : Stores × Worker}
    (hrun : Transition.exec (handleStep settings) (popped stores worker item) actions =
      some finish) (hidle : finish.2.phase = .idle) :
    Kept item
        (Transition.Occurs (handleStep settings) (popped stores worker item) actions Commits)
        finish ↔
      ¬ Transition.Occurs (handleStep settings) (popped stores worker item) actions Drops ∨
        Transition.Unanswered (handleStep settings) (popped stores worker item) actions Commits
          WritesFailed ∨
        item.Waits worker ∨ finish.1.documents item.documentId = none := by
  have hunderway := run_underway hrun
  rw [Underway, hidle] at hunderway
  obtain ⟨hsure, ⟨hdropped, hqueue, hletters⟩ | ⟨hdropped, hkept⟩⟩ := hunderway
  · have hwaits : item.Waits finish.2 ↔ item.Waits worker := by
      rw [QueueItem.Waits, QueueItem.Waits, hqueue, hletters]
    rw [Kept, hwaits]
    constructor
    · rintro (⟨hcommits, hindexed⟩ | hrest)
      · exact Or.inr (Or.inl (run_committed hrun hcommits hindexed))
      · exact Or.inr (Or.inr hrest)
    · rintro (hnot | hcommitted | hrest)
      · exact absurd hdropped hnot
      · exact Or.inl ⟨hcommitted.occurs, hsure hcommitted⟩
      · exact Or.inr hrest
  · refine iff_of_true ?_ (Or.inl hdropped)
    rcases hkept with hcommitted | hwaits | hgone
    · exact Or.inl ⟨hcommitted.occurs, hsure hcommitted⟩
    · exact Or.inr (Or.inl hwaits)
    · exact Or.inr (Or.inr hgone)

/-- A pending document and the first attempt to index it. -/
def sampleStores : Stores :=
  { documents := fun id => if id = 7 then
      some { collectionId := 3, filename := "handbook.pdf", fileType := "pdf" } else none }

def sampleItem : QueueItem :=
  { documentId := 7, attempt := 0, jobId := none }

/-- A run that raises at its first command, with its job tracked to the end. -/
def sampleRetry : List HandlingAction :=
  [.command (.start 9 ⟨[], [], 0, [], []⟩ .ok), .command (.work (.raise "database is down")),
    .command (.work .ok), .command (.work .ok)]

theorem handled_kept_iff_retried :
    ∃ finish, Transition.exec (handleStep {}) (popped sampleStores {} sampleItem) sampleRetry =
        some finish ∧
      Kept sampleItem (Transition.Occurs (handleStep {}) (popped sampleStores {} sampleItem)
        sampleRetry Commits) finish := by
  have hrun : ∃ finish, Transition.exec (handleStep {}) (popped sampleStores {} sampleItem)
      sampleRetry = some finish ∧ finish.2.phase = .idle := ⟨_, rfl, rfl⟩
  obtain ⟨finish, hrun, hidle⟩ := hrun
  refine ⟨finish, hrun, (handled_kept_iff hrun hidle).mpr (Or.inl ?_)⟩
  simp [sampleRetry, Transition.occurs_cons_iff, popped, handleStep, workerStep, jobStarted,
    sampleItem, sampleStores, indexStep, afterIndex, afterFailure, Drops]

/-- The worker dies after the pop: the document is still to be indexed, and no
queue knows of it. -/
theorem handled_not_kept :
    ∃ finish, Transition.exec (handleStep {}) (popped sampleStores {} sampleItem) [.crash] =
        some finish ∧ finish.2.phase = .idle ∧
      ¬ Kept sampleItem (Transition.Occurs (handleStep {}) (popped sampleStores {} sampleItem)
        [.crash] Commits) finish := by
  refine ⟨_, rfl, rfl, ?_⟩
  rintro (⟨hcommitted, _⟩ | hwaits | hgone)
  · simp [Transition.occurs_cons_iff, Commits] at hcommitted
  · simp [QueueItem.Waits, popped, Worker.dropItem] at hwaits
  · simp [popped, sampleStores, sampleItem] at hgone

end

end AgenticRag.Ingestion
