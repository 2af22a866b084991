import AgenticRag.Ingestion.Deletion

/-!
# What a step of the worker leaves of a document

The worker handles items of any documents.  Its steps execute a command of an
indexing run or keep the books: rows of existing documents and their jobs.
-/

namespace AgenticRag.Ingestion

/-- The object that a command writes. -/
def Command.puts (documentId : Uuid) : Command → Option StoredObject
  | .putFigure count page _ => some ⟨.figures, documentId, figureId page count⟩
  | .putPage page _ => some ⟨.pages, documentId, toString page⟩
  | _ => none

theorem Command.documentId_of_puts {documentId : Uuid} {command : Command}
    {object : StoredObject} (hputs : command.puts documentId = some object) :
    object.documentId = documentId := by
  cases command with
  | putFigure _ _ _ | putPage _ _ =>
      cases hputs
      rfl
  | _ => cases hputs

/-- Neither the row of the document nor a chunk or a job of it. -/
structure Stores.Rowless (stores : Stores) (documentId : Uuid) : Prop where
  document : stores.documents documentId = none
  chunks : ∀ row ∈ stores.chunks, row.documentId ≠ documentId
  jobs : ∀ jobId job, stores.jobs jobId = some job → job.documentId ≠ documentId

/-- Objects of the document. -/
def Stores.objectsOf (stores : Stores) (documentId : Uuid) : List StoredObject :=
  stores.objects.filter (·.documentId = documentId)

/-- A step that writes rows of existing documents, jobs of existing documents or
jobs that exist, and nothing else. -/
structure Bookkeeping (stores after : Stores) : Prop where
  ragPoints : after.ragPoints = stores.ragPoints
  pagePoints : after.pagePoints = stores.pagePoints
  objects : after.objects = stores.objects
  files : after.files = stores.files
  chunks : after.chunks = stores.chunks
  documents : ∀ documentId, stores.documents documentId = none →
    after.documents documentId = none
  jobs : ∀ jobId job, after.jobs jobId = some job →
    (∃ old, stores.jobs jobId = some old ∧ old.documentId = job.documentId) ∨
      stores.documents job.documentId ≠ none

namespace Bookkeeping

variable {stores after : Stores} {documentId : Uuid}

theorem refl (stores : Stores) : Bookkeeping stores stores :=
  ⟨rfl, rfl, rfl, rfl, rfl, fun _ => id, fun _ job hjob => Or.inl ⟨job, hjob, rfl⟩⟩

theorem trans {last : Stores} (hfirst : Bookkeeping stores after)
    (hsecond : Bookkeeping after last) : Bookkeeping stores last := by
  refine ⟨hsecond.ragPoints.trans hfirst.ragPoints,
    hsecond.pagePoints.trans hfirst.pagePoints, hsecond.objects.trans hfirst.objects,
    hsecond.files.trans hfirst.files, hsecond.chunks.trans hfirst.chunks,
    fun documentId hgone => hsecond.documents _ (hfirst.documents documentId hgone), ?_⟩
  intro jobId job hjob
  rcases hsecond.jobs jobId job hjob with ⟨old, hold, hsame⟩ | hexists
  · rw [← hsame]
    exact hfirst.jobs jobId old hold
  · exact Or.inr (mt (hfirst.documents _) hexists)

/-- Writing the row of an existing document. -/
theorem setDocument {row document : Document} (hrow : stores.documents documentId = some row) :
    Bookkeeping stores (stores.setDocument documentId document) := by
  refine ⟨rfl, rfl, rfl, rfl, rfl, ?_, fun _ job hjob => Or.inl ⟨job, hjob, rfl⟩⟩
  intro other hgone
  have hother : other ≠ documentId := by
    rintro rfl
    cases hgone.symm.trans hrow
  simpa [Stores.setDocument, hother] using hgone

/-- Writing a job that exists or whose document does. -/
theorem setJob {jobId : Uuid} {job : IngestJob}
    (hjob : (∃ old, stores.jobs jobId = some old ∧ old.documentId = job.documentId) ∨
      stores.documents job.documentId ≠ none) :
    Bookkeeping stores (stores.setJob jobId job) := by
  refine ⟨rfl, rfl, rfl, rfl, rfl, fun _ => id, ?_⟩
  intro other written hwritten
  by_cases hother : other = jobId
  · subst hother
    simp only [Stores.setJob, Function.update_self] at hwritten
    cases hwritten
    exact hjob
  · simp only [Stores.setJob, Function.update_of_ne hother] at hwritten
    exact Or.inl ⟨written, hwritten, rfl⟩

/-- Keeping the books brings no row of a removed document back. -/
theorem rowless (hbooks : Bookkeeping stores after) (hrowless : stores.Rowless documentId) :
    after.Rowless documentId := by
  refine ⟨hbooks.documents _ hrowless.document, ?_, ?_⟩
  · rw [hbooks.chunks]
    exact hrowless.chunks
  · intro jobId job hjob
    rcases hbooks.jobs jobId job hjob with ⟨old, hold, hsame⟩ | hexists
    · rw [← hsame]
      exact hrowless.jobs jobId old hold
    · rintro rfl
      exact hexists hrowless.document

end Bookkeeping

theorem markProcessing_bookkeeping {run : Run} {document : Document} {stores after : Stores}
    (hmark : run.markProcessing document stores = some after) : Bookkeeping stores after := by
  unfold Run.markProcessing at hmark
  split_ifs at hmark
  · cases hmark
    exact .refl _
  · obtain ⟨row, hrow, rfl⟩ := Option.map_eq_some_iff.mp hmark
    exact .setDocument hrow

theorem markFailed_bookkeeping (run : Run) (message : String) (stores : Stores) :
    Bookkeeping stores (run.markFailed message stores) := by
  unfold Run.markFailed
  split
  next => exact .refl stores
  next hrow => exact .setDocument hrow

theorem jobFinished_bookkeeping (jobId : Uuid) (error : Option String) (requeued : Bool)
    (stores : Stores) : Bookkeeping stores (jobFinished jobId error requeued stores) := by
  unfold jobFinished
  split
  next => exact .refl stores
  next job hjob =>
      cases error with
      | none => exact .setJob (Or.inl ⟨job, hjob, rfl⟩)
      | some message => exact .setJob (Or.inl ⟨job, hjob, rfl⟩)

theorem jobStarted_bookkeeping {item : QueueItem} {newJobId jobId : Uuid}
    {stores after : Stores} (hstarted : jobStarted item newJobId stores = some (jobId, after)) :
    Bookkeeping stores after := by
  unfold jobStarted at hstarted
  split at hstarted
  next tracked job htracked =>
      obtain ⟨known, _, hjob⟩ := Option.bind_eq_some_iff.mp htracked
      obtain ⟨old, hold, heq⟩ := Option.map_eq_some_iff.mp hjob
      cases heq
      cases hstarted
      exact .setJob (Or.inl ⟨job, hold, rfl⟩)
  next =>
      split at hstarted
      next => cases hstarted
      next document hrow =>
          cases hstarted
          refine .setJob (Or.inr ?_)
          rw [hrow]
          nofun

theorem JobStep.bookkeeping {stores after : Stores} (hjob : JobStep stores after) :
    Bookkeeping stores after := by
  cases hjob with
  | untouched => exact .refl stores
  | started hstarted => exact jobStarted_bookkeeping hstarted
  | finished jobId error requeued => exact jobFinished_bookkeeping jobId error requeued stores

section Steps

variable {settings : Settings} {stores after : Stores} {worker moved : Worker}
variable {action : WorkerAction}

/-- A move of a run executes its command, or keeps the books. -/
theorem move_bookkeeping {run : Run} {outcome : Outcome} {phase : Phase} {session : Session}
    (hmove : Move settings stores run outcome after phase session) :
    (∃ document command left, run.phase = .running document command ∧
      outcome.takesEffect = true ∧
      run.execute document stores command = some (after, left)) ∨
    ((∀ document command, run.phase = .running document command →
      outcome.takesEffect = false) ∧ Bookkeeping stores after) := by
  rcases Premises.move_executes hmove with hexecutes | ⟨hsilent, _⟩
  · exact Or.inl hexecutes
  · refine Or.inr ⟨hsilent, ?_⟩
    cases hmove with
    | proceed hphase _ _ | finish hphase _ | skipPagesLate hphase _ _
      | failLate hphase _ _ => cases hsilent _ _ hphase
    | mark _ hmark | markLate _ _ hmark => exact markProcessing_bookkeeping hmark
    | handle _ => exact markFailed_bookkeeping ..
    | load _ _ | abort _ _ | skipPages _ _ | fail _ _ | giveUp _ _ => exact .refl stores

/-- The command of a run of the worker that takes effect. -/
def Worker.executed (worker : Worker) : WorkerAction → Option (Run × Document × Command)
  | .work outcome =>
      if outcome.takesEffect then
        match worker.phase with
        | .indexing _ run =>
            match run.phase with
            | .running document command => some (run, document, command)
            | _ => none
        | _ => none
      else none
  | _ => none

/-- A step of the worker executes a command of a run, or keeps the books. -/
theorem workerStep_executes
    (hstep : workerStep settings (stores, worker) action = some (after, moved)) :
    (∃ run document command session,
      worker.executed action = some (run, document, command) ∧
      run.execute document stores command = some (after, session)) ∨
    (worker.executed action = none ∧ Bookkeeping stores after) := by
  rcases workerStep_cases hstep with
    ⟨item, run, outcome, phase, session, hphase, rfl, hmove, _⟩ | ⟨hnone, hjob⟩
  · rcases move_bookkeeping hmove with
      ⟨document, command, left, hrunning, heffect, hexecute⟩ | ⟨hsilent, hbooks⟩
    · refine Or.inl ⟨run, document, command, left, ?_, hexecute⟩
      simp only [Worker.executed, hphase, hrunning, heffect, if_true]
    · refine Or.inr ⟨?_, hbooks⟩
      simp only [Worker.executed, hphase]
      split_ifs with heffect
      · split
        next hrunning => cases heffect.symm.trans (hsilent _ _ hrunning)
        next => rfl
      · rfl
  · refine Or.inr ⟨?_, hjob.bookkeeping⟩
    unfold Worker.executed
    split
    next =>
        split_ifs
        · split
          next item run hphase => exact absurd hphase (hnone item run)
          next => rfl
        · rfl
    next => rfl

end Steps

/-! ## What a command does to objects, files and rows -/

section Commands

variable {run : Run} {document : Document} {stores after : Stores}
variable {session : Session} {command : Command} {documentId : Uuid}

/-- A stage callback updates its job and commits the session. -/
theorem stage_effect (run : Run) (stores : Stores) (status : IngestStatus) :
    Bookkeeping (stores.commitDeletes run.session) (run.stage status stores).1 ∨
      (run.stage status stores).1 = stores := by
  unfold Run.stage
  split
  next => exact Or.inr rfl
  next jobId _ =>
      split
      next => exact Or.inr rfl
      next job hjob => exact Or.inl (.setJob (Or.inl ⟨job, hjob, rfl⟩))

theorem execute_isStage (hstage : command.isStage = true)
    (hexecute : run.execute document stores command = some (after, session)) :
    ∃ status, after = (run.stage status stores).1 := by
  cases command with
  | stageParsing | stageCaptioning _ _ _ | stageIndexing =>
      exact ⟨_, (congrArg Prod.fst (Option.some.inj hexecute)).symm⟩
  | _ => cases hstage

theorem commitDeletes_rowless (hrowless : stores.Rowless documentId) (session : Session) :
    (stores.commitDeletes session).Rowless documentId :=
  ⟨hrowless.document, fun row hrow => hrowless.chunks row (List.mem_of_mem_filter hrow),
    hrowless.jobs⟩

theorem stage_rowless (hrowless : stores.Rowless documentId) (status : IngestStatus) :
    (run.stage status stores).1.Rowless documentId := by
  rcases stage_effect run stores status with hbooks | hsame
  · exact hbooks.rowless (commitDeletes_rowless hrowless run.session)
  · rw [hsame]
    exact hrowless

/-- Without its row a document gets no chunk and no job. -/
theorem execute_rowless (hrowless : stores.Rowless documentId)
    (hexecute : run.execute document stores command = some (after, session)) :
    after.Rowless documentId := by
  cases command with
  | stageParsing | stageCaptioning _ _ _ | stageIndexing =>
      obtain ⟨status, rfl⟩ := execute_isStage rfl hexecute
      exact stage_rowless hrowless status
  | commit =>
      simp only [Run.execute] at hexecute
      split at hexecute
      next => cases hexecute
      next row hrow =>
          cases hexecute
          have hother : run.documentId ≠ documentId := by
            rintro rfl
            cases hrowless.document.symm.trans hrow
          refine Bookkeeping.rowless (Bookkeeping.setDocument hrow) ⟨hrowless.document, ?_,
            hrowless.jobs⟩
          intro written hwritten
          rcases List.mem_append.mp hwritten with hold | hnew
          · exact hrowless.chunks written (List.mem_of_mem_filter hold)
          · obtain ⟨_, _, rfl⟩ := List.mem_map.mp hnew
            exact hother
  | readDocument =>
      simp only [Run.execute] at hexecute
      split_ifs at hexecute
      cases hexecute
      exact hrowless
  | _ => cases hexecute; exact ⟨hrowless.document, hrowless.chunks, hrowless.jobs⟩

theorem stage_objects (status : IngestStatus) :
    (run.stage status stores).1.objects = stores.objects ∧
      (run.stage status stores).1.files = stores.files := by
  rcases stage_effect run stores status with hbooks | hsame
  · exact ⟨hbooks.objects, hbooks.files⟩
  · rw [hsame]
    exact ⟨rfl, rfl⟩

/-- The commands on the objects. -/
theorem execute_objects
    (hexecute : run.execute document stores command = some (after, session)) :
    after = stores.deleteObjects run.documentId run.plan.stuck ∨
    (∃ object, command.puts run.documentId = some object ∧
      after = stores.putObject object) ∨
    after.objects = stores.objects := by
  cases command with
  | deleteObjects => cases hexecute; exact Or.inl rfl
  | putFigure _ _ _ => cases hexecute; exact Or.inr (Or.inl ⟨_, rfl, rfl⟩)
  | putPage _ _ => cases hexecute; exact Or.inr (Or.inl ⟨_, rfl, rfl⟩)
  | stageParsing | stageCaptioning _ _ _ | stageIndexing =>
      obtain ⟨status, rfl⟩ := execute_isStage rfl hexecute
      exact Or.inr (Or.inr (stage_objects status).1)
  | commit =>
      simp only [Run.execute] at hexecute
      split at hexecute
      next => cases hexecute
      next => cases hexecute; exact Or.inr (Or.inr rfl)
  | readDocument =>
      simp only [Run.execute] at hexecute
      split_ifs at hexecute
      cases hexecute
      exact Or.inr (Or.inr rfl)
  | _ => cases hexecute; exact Or.inr (Or.inr rfl)

/-- No command of a run touches the uploaded file. -/
theorem execute_files
    (hexecute : run.execute document stores command = some (after, session)) :
    after.files = stores.files := by
  cases command with
  | stageParsing | stageCaptioning _ _ _ | stageIndexing =>
      obtain ⟨status, rfl⟩ := execute_isStage rfl hexecute
      exact (stage_objects status).2
  | commit =>
      simp only [Run.execute] at hexecute
      split at hexecute
      next => cases hexecute
      next => cases hexecute; rfl
  | readDocument =>
      simp only [Run.execute] at hexecute
      split_ifs at hexecute
      cases hexecute
      rfl
  | _ => cases hexecute; rfl

theorem own_of_ragPoints
    (hsome : (run.ragPoints document).filter (·.documentId = documentId) ≠ []) :
    run.documentId = documentId ∧ run.ragPoints document ≠ [] := by
  obtain ⟨point, hpoint⟩ := List.exists_mem_of_ne_nil _ hsome
  obtain ⟨hmem, hown⟩ := List.mem_filter.mp hpoint
  refine ⟨?_, List.ne_nil_of_mem hmem⟩
  obtain ⟨_, _, rfl⟩ := List.mem_map.mp hmem
  exact of_decide_eq_true hown

theorem own_of_pagePoints
    (hsome : (run.pagePoints document).filter (·.documentId = documentId) ≠ []) :
    run.documentId = documentId ∧ run.pagePoints document ≠ [] := by
  obtain ⟨point, hpoint⟩ := List.exists_mem_of_ne_nil _ hsome
  obtain ⟨hmem, hown⟩ := List.mem_filter.mp hpoint
  refine ⟨?_, List.ne_nil_of_mem hmem⟩
  obtain ⟨page, _, hpage⟩ := List.mem_filterMap.mp hmem
  obtain ⟨id, _, rfl⟩ := Option.map_eq_some_iff.mp hpage
  exact of_decide_eq_true hown

/-- Text points of the document come from an upsert of one of its runs. -/
theorem execute_ragPointsOf
    (hexecute : run.execute document stores command = some (after, session)) :
    after.ragPointsOf documentId ⊆ stores.ragPointsOf documentId ∨
      (command = .upsertPoints ∧ run.documentId = documentId ∧
        run.ragPoints document ≠ []) := by
  rcases Premises.execute_ragPoints hexecute with ⟨_, rfl⟩ | ⟨hupsert, rfl⟩ | ⟨_, _, hsame⟩
  · exact Or.inl (List.Sublist.subset (List.filter_sublist.filter _))
  · by_cases hsome : (run.ragPoints document).filter (·.documentId = documentId) = []
    · left
      rw [Stores.ragPointsOf_upsertRagPoints, hsome, List.append_nil]
      exact List.filter_sublist.subset
    · exact Or.inr ⟨hupsert, own_of_ragPoints hsome⟩
  · rw [Stores.ragPointsOf, Stores.ragPointsOf, hsame]
    exact Or.inl (List.Subset.refl _)

/-- Page points of the document come from an upsert of one of its runs. -/
theorem execute_pagePointsOf
    (hexecute : run.execute document stores command = some (after, session)) :
    after.pagePointsOf documentId ⊆ stores.pagePointsOf documentId ∨
      (command = .upsertPages ∧ run.documentId = documentId ∧
        run.pagePoints document ≠ []) := by
  rcases Premises.execute_pagePoints hexecute with
    ⟨_, rfl⟩ | ⟨hupsert, rfl⟩ | ⟨_, _, hsame⟩
  · exact Or.inl (List.Sublist.subset (List.filter_sublist.filter _))
  · by_cases hsome : (run.pagePoints document).filter (·.documentId = documentId) = []
    · left
      rw [Stores.pagePointsOf_upsertPagePoints, hsome, List.append_nil]
      exact List.filter_sublist.subset
    · exact Or.inr ⟨hupsert, own_of_pagePoints hsome⟩
  · rw [Stores.pagePointsOf, Stores.pagePointsOf, hsame]
    exact Or.inl (List.Subset.refl _)

/-- An object that a command brings is the one it puts. -/
theorem execute_object {object : StoredObject}
    (hexecute : run.execute document stores command = some (after, session))
    (hobject : object ∈ after.objects) :
    object ∈ stores.objects ∨ command.puts run.documentId = some object := by
  rcases execute_objects hexecute with rfl | ⟨written, hputs, rfl⟩ | hsame
  · exact Or.inl (List.mem_of_mem_filter hobject)
  · rcases List.mem_append.mp hobject with hold | hnew
    · exact Or.inl (List.mem_of_mem_filter hold)
    · obtain rfl := List.mem_singleton.mp hnew
      exact Or.inr hputs
  · rw [hsame] at hobject
    exact Or.inl hobject

end Commands

/-! ## Commands that write nothing of the document -/

/-- A step after which there is nothing new of the document, and no row if there
was none. -/
structure Spares (documentId : Uuid) (stores after : Stores) : Prop where
  ragPoints : after.ragPointsOf documentId ⊆ stores.ragPointsOf documentId
  pagePoints : after.pagePointsOf documentId ⊆ stores.pagePointsOf documentId
  objects : after.objectsOf documentId ⊆ stores.objectsOf documentId
  files : documentId ∈ after.files → documentId ∈ stores.files
  rowless : stores.Rowless documentId → after.Rowless documentId

section Spared

variable {documentId other jobId : Uuid} {stores after : Stores} {worker moved : Worker}
variable {outcome : Outcome}

theorem Bookkeeping.spares (hbooks : Bookkeeping stores after) :
    Spares documentId stores after := by
  refine ⟨?_, ?_, ?_, ?_, hbooks.rowless⟩
  · rw [Stores.ragPointsOf, Stores.ragPointsOf, hbooks.ragPoints]
    exact List.Subset.refl _
  · rw [Stores.pagePointsOf, Stores.pagePointsOf, hbooks.pagePoints]
    exact List.Subset.refl _
  · rw [Stores.objectsOf, Stores.objectsOf, hbooks.objects]
    exact List.Subset.refl _
  · rw [hbooks.files]
    exact id

theorem deleteDocumentRow_rowless (hrowless : stores.Rowless documentId) (other : Uuid) :
    (stores.deleteDocumentRow other).Rowless documentId := by
  refine ⟨?_, ?_, ?_⟩
  · by_cases hother : documentId = other
    · rw [hother]
      exact Function.update_self ..
    · exact (Function.update_of_ne hother ..).trans hrowless.document
  · intro row hrow
    exact hrowless.chunks row (List.mem_of_mem_filter hrow)
  · intro jobId job hjob
    exact hrowless.jobs jobId job (Option.filter_eq_some_iff.mp hjob).1

/-- The deletion of the row takes its chunks and jobs along. -/
theorem rowless_deleteDocumentRow (stores : Stores) (documentId : Uuid) :
    (stores.deleteDocumentRow documentId).Rowless documentId := by
  refine ⟨Function.update_self .., ?_, ?_⟩
  · intro row hrow
    exact of_decide_eq_true (List.mem_filter.mp hrow).2
  · intro jobId job hjob
    exact of_decide_eq_true (Option.filter_eq_some_iff.mp hjob).2

/-- A deletion of any document writes nothing. -/
theorem deleteStep_spares {phase next : DeletePhase}
    (hstep : deleteStep other (stores, phase) outcome = some (after, next)) :
    Spares documentId stores after := by
  have hrefl : Spares documentId stores stores := (Bookkeeping.refl stores).spares
  rcases (deleteStep_effect hstep).1 with
    ⟨_, _, rfl⟩ | ⟨_, _, rfl⟩ | ⟨_, _, rfl⟩ | ⟨rfl, _⟩
  · exact { hrefl with
      ragPoints := List.Sublist.subset (List.filter_sublist.filter _)
      rowless := fun hrowless =>
        ⟨hrowless.document, hrowless.chunks, hrowless.jobs⟩ }
  · exact { hrefl with
      files := fun hfile => Finset.mem_of_mem_erase hfile
      rowless := fun hrowless =>
        ⟨hrowless.document, hrowless.chunks, hrowless.jobs⟩ }
  · exact { hrefl with
      rowless := fun hrowless => deleteDocumentRow_rowless hrowless other }
  · exact hrefl

/-- The last command leaves no row. -/
theorem deleteStep_rowless {phase : DeletePhase}
    (hstep : deleteStep documentId (stores, phase) outcome = some (after, .deleted)) :
    after.Rowless documentId := by
  obtain ⟨heffect, hlast⟩ := deleteStep_effect hstep
  obtain ⟨rfl, htook⟩ := hlast rfl
  rcases heffect with ⟨hphase, _⟩ | ⟨hphase, _⟩ | ⟨_, _, rfl⟩ | ⟨_, hnone⟩
  · cases hphase
  · cases hphase
  · exact rowless_deleteDocumentRow stores documentId
  · rcases hnone with ⟨_, _, hother⟩ | hraised
    · exact absurd rfl hother
    · cases htook.symm.trans hraised

/-- So does a request to index it again. -/
theorem reindexStep_spares {phase next : ReindexPhase}
    (hstep : reindexStep other jobId (stores, worker, phase) outcome =
      some (after, moved, next)) : Spares documentId stores after := by
  rcases reindexStep_cases hstep with ⟨_, _, hcommit, _, _⟩ | ⟨_, rfl, _⟩
  · obtain ⟨document, hrow, _, rfl⟩ := commitReindex_ok hcommit
    refine ((Bookkeeping.setDocument hrow).trans (.setJob (Or.inr ?_))).spares
    simp [Stores.setDocument]
  · exact (Bookkeeping.refl after).spares

end Spared

/-- A part of the stores that only such commands of a run of the document fill. -/
structure FilledBy {α : Type} (documentId : Uuid) (part : Stores → List α)
    (writes : Run → Document → Command → Bool) : Prop where
  spared : ∀ {stores after}, Spares documentId stores after → part after ⊆ part stores
  executed : ∀ {run document stores after session command},
    run.execute document stores command = some (after, session) →
    part after ⊆ part stores ∨
      (run.documentId = documentId ∧ writes run document command = true)

theorem ragPointsOf_filledBy (documentId : Uuid) :
    FilledBy documentId (·.ragPointsOf documentId) fun run document command =>
      command = .upsertPoints && run.ragPoints document ≠ [] := by
  refine ⟨Spares.ragPoints, ?_⟩
  intro run document stores after session command hexecute
  rcases execute_ragPointsOf hexecute with hsubset | ⟨hupsert, hown, hsome⟩
  · exact Or.inl hsubset
  · exact Or.inr ⟨hown, by simp [hupsert, hsome]⟩

theorem pagePointsOf_filledBy (documentId : Uuid) :
    FilledBy documentId (·.pagePointsOf documentId) fun run document command =>
      command = .upsertPages && run.pagePoints document ≠ [] := by
  refine ⟨Spares.pagePoints, ?_⟩
  intro run document stores after session command hexecute
  rcases execute_pagePointsOf hexecute with hsubset | ⟨hupsert, hown, hsome⟩
  · exact Or.inl hsubset
  · exact Or.inr ⟨hown, by simp [hupsert, hsome]⟩

theorem object_filledBy {documentId : Uuid} {object : StoredObject}
    (hown : object.documentId = documentId) :
    FilledBy documentId (fun stores => stores.objects.filter (· = object))
      fun _ _ command => command.puts documentId = some object := by
  constructor
  · intro stores after hspares written hwritten
    obtain ⟨hmem, hsame⟩ := List.mem_filter.mp hwritten
    obtain rfl := of_decide_eq_true hsame
    have hstored := hspares.objects (List.mem_filter.mpr ⟨hmem, decide_eq_true hown⟩)
    exact List.mem_filter.mpr ⟨List.mem_of_mem_filter hstored, hsame⟩
  · intro run document stores after session command hexecute
    by_cases hputs : command.puts run.documentId = some object
    · obtain rfl := (Command.documentId_of_puts hputs).symm.trans hown
      exact Or.inr ⟨rfl, decide_eq_true hputs⟩
    · left
      intro written hwritten
      obtain ⟨hmem, hsame⟩ := List.mem_filter.mp hwritten
      obtain rfl := of_decide_eq_true hsame
      exact List.mem_filter.mpr
        ⟨(execute_object hexecute hmem).resolve_right hputs, hsame⟩

end AgenticRag.Ingestion
