import AgenticRag.Ingestion.Consistency
import AgenticRag.Ingestion.Documents
import AgenticRag.Ingestion.Worker

/-!
# Deleting a document while it is indexed

`delete_document` clears the text points once and never touches the page
points; the worker may write either after that, and once the row is gone no
later attempt clears them.  Points of the document are left exactly when some
write of points has no later clear.
-/

namespace AgenticRag.Ingestion

/-- The deletion of one document next to the worker. -/
structure Premises where
  stores : Stores
  worker : Worker
  deletion : DeletePhase := .loading

namespace Premises

inductive Action where
  | delete (outcome : Outcome)
  | worker (action : WorkerAction)

/-- One command of `delete_document` or of the worker. -/
def step (settings : Settings) (documentId : Uuid) (premises : Premises) :
    Action → Option Premises
  | .delete outcome =>
      (deleteStep documentId (premises.stores, premises.deletion) outcome).map
        fun (stores, deletion) => { premises with stores := stores, deletion := deletion }
  | .worker action =>
      (workerStep settings (premises.stores, premises.worker) action).map
        fun (stores, worker) => { premises with stores := stores, worker := worker }

/-- The document exists, and the worker has items of this document only. -/
structure Begins (documentId : Uuid) (premises : Premises) : Prop where
  row : premises.stores.documents documentId ≠ none
  items : premises.worker.For documentId
  loading : premises.deletion = .loading

/-- The deletion and all attempts have finished, and the row is gone. -/
structure Over (documentId : Uuid) (premises : Premises) : Prop where
  deletion : premises.deletion.Finished
  worker : premises.worker.phase = .idle
  queue : premises.worker.queue = []
  row : premises.stores.documents documentId = none

/-! ## Events -/

/-- The command of a run of the worker that takes effect in a step. -/
def executed (premises : Premises) : Action → Option (Run × Document × Command)
  | .worker (.work outcome) =>
      if outcome.takesEffect then
        match premises.worker.phase with
        | .indexing _ run =>
            match run.phase with
            | .running document command => some (run, document, command)
            | _ => none
        | _ => none
      else none
  | _ => none

/-- The deletion executes `delete_by_document`. -/
def Clears (premises : Premises) (action : Action) : Prop :=
  premises.deletion = .clearingPoints ∧
    ∃ outcome, action = .delete outcome ∧ outcome.takesEffect = true

/-- `upsert_points` with at least one point. -/
def UpsertsPoints (premises : Premises) (action : Action) : Prop :=
  ∃ run document, premises.executed action = some (run, document, .upsertPoints) ∧
    run.ragPoints document ≠ []

/-- `QdrantIndex.delete_by_document`, of the deletion or of a run. -/
def ClearsPoints (premises : Premises) (action : Action) : Prop :=
  Clears premises action ∨
    ∃ run document, premises.executed action = some (run, document, .deletePoints)

/-- `upsert_pages` with at least one point. -/
def UpsertsPages (premises : Premises) (action : Action) : Prop :=
  ∃ run document, premises.executed action = some (run, document, .upsertPages) ∧
    run.pagePoints document ≠ []

/-- `PagesIndex.delete_by_document`, which only a run calls. -/
def ClearsPages (premises : Premises) (action : Action) : Prop :=
  ∃ run document, premises.executed action = some (run, document, .clearPages)

/-- Whatever is written of the document is cleared later. -/
structure ClearedLast (settings : Settings) (documentId : Uuid) (start : Premises)
    (actions : List Action) : Prop where
  points : ¬ Transition.Unanswered (step settings documentId) start actions
    UpsertsPoints ClearsPoints
  pages : ¬ Transition.Unanswered (step settings documentId) start actions
    UpsertsPages ClearsPages
  oldPages : start.stores.pagePointsOf documentId = [] ∨
    Transition.Occurs (step settings documentId) start actions ClearsPages

/-! ## What a command does to the points -/

section Commands

variable {run : Run} {document : Document} {stores after : Stores}
variable {session : Session} {command : Command}

theorem stage_pagePoints (run : Run) (stores : Stores) (status : IngestStatus) :
    (run.stage status stores).1.pagePoints = stores.pagePoints := by
  unfold Run.stage
  split
  · rfl
  · split
    · rfl
    · rfl

/-- The two commands on the page points. -/
theorem execute_pagePoints
    (hexecute : run.execute document stores command = some (after, session)) :
    (command = .clearPages ∧ after = stores.deletePagePoints run.documentId) ∨
    (command = .upsertPages ∧
      after = stores.upsertPagePoints (run.pagePoints document)) ∨
    (command ≠ .clearPages ∧ command ≠ .upsertPages ∧
      after.pagePoints = stores.pagePoints) := by
  cases command with
  | clearPages =>
      cases hexecute
      exact Or.inl ⟨rfl, rfl⟩
  | upsertPages =>
      cases hexecute
      exact Or.inr (Or.inl ⟨rfl, rfl⟩)
  | stageParsing | stageCaptioning _ _ _ | stageIndexing =>
      have hpages := stage_pagePoints run stores
      rw [Run.execute, Option.some.injEq] at hexecute
      refine Or.inr (Or.inr ⟨by simp, by simp, ?_⟩)
      rw [← hpages, hexecute]
  | readDocument =>
      simp only [Run.execute] at hexecute
      split_ifs at hexecute
      cases hexecute
      exact Or.inr (Or.inr ⟨by simp, by simp, rfl⟩)
  | commit =>
      simp only [Run.execute] at hexecute
      split at hexecute
      · cases hexecute
      · cases hexecute
        exact Or.inr (Or.inr ⟨by simp, by simp, rfl⟩)
  | ensureBuckets | ensureCollection | deleteRows | deletePoints | deleteObjects | parse
    | putFigure _ _ _ | buildChunks | embed _ | upsertPoints | ensurePages | renderPages
    | putPage _ _ =>
      cases hexecute
      exact Or.inr (Or.inr ⟨by simp, by simp, rfl⟩)

/-- The two commands on the text points. -/
theorem execute_ragPoints
    (hexecute : run.execute document stores command = some (after, session)) :
    (command = .deletePoints ∧ after = stores.deleteRagPoints run.documentId) ∨
    (command = .upsertPoints ∧ after = stores.upsertRagPoints (run.ragPoints document)) ∨
    (command ≠ .deletePoints ∧ command ≠ .upsertPoints ∧
      after.ragPoints = stores.ragPoints) := by
  rcases execute_cases hexecute with
    ⟨rfl, rfl, _⟩ | ⟨rfl, rfl, _⟩ | ⟨rfl, rfl, _⟩ | ⟨rfl, ⟨row, _, rfl⟩, _⟩ |
    ⟨hstage, _, _, hpoints, _⟩ | ⟨_, hdelete, hupsert, _, hneutral⟩
  · exact Or.inr (Or.inr ⟨nofun, nofun, rfl⟩)
  · exact Or.inl ⟨rfl, rfl⟩
  · exact Or.inr (Or.inl ⟨rfl, rfl⟩)
  · exact Or.inr (Or.inr ⟨nofun, nofun, rfl⟩)
  · cases command with
    | stageParsing | stageCaptioning _ _ _ | stageIndexing =>
        exact Or.inr (Or.inr ⟨nofun, nofun, hpoints⟩)
    | _ => cases hstage
  · exact Or.inr (Or.inr ⟨hdelete, hupsert, hneutral.ragPoints⟩)

/-- No command removes the document row. -/
theorem execute_documents {documentId : Uuid}
    (hexecute : run.execute document stores command = some (after, session))
    (hgone : after.documents documentId = none) : stores.documents documentId = none := by
  rcases execute_cases hexecute with
    ⟨_, rfl, _⟩ | ⟨_, rfl, _⟩ | ⟨_, rfl, _⟩ | ⟨_, ⟨row, _, rfl⟩, _⟩ |
    ⟨_, hdocuments, _⟩ | ⟨_, _, _, _, hneutral⟩
  · exact hgone
  · exact hgone
  · exact hgone
  · exact Stores.documents_of_setDocument hgone
  · rwa [hdocuments] at hgone
  · rwa [hneutral.documents] at hgone

end Commands

/-! ## What a step does -/

section Steps

variable {settings : Settings} {stores after : Stores} {worker following : Worker}
variable {premises next : Premises} {documentId : Uuid} {action : Action}

/-- A quiet step leaves the points alone and removes no row. -/
structure Quiet (stores after : Stores) : Prop where
  ragPoints : after.ragPoints = stores.ragPoints
  pagePoints : after.pagePoints = stores.pagePoints
  row : ∀ documentId, after.documents documentId = none →
    stores.documents documentId = none

theorem quiet_setDocument (stores : Stores) (documentId : Uuid) (document : Document) :
    Quiet stores (stores.setDocument documentId document) :=
  ⟨rfl, rfl, fun _ => Stores.documents_of_setDocument⟩

theorem quiet_refl (stores : Stores) : Quiet stores stores := ⟨rfl, rfl, fun _ => id⟩

theorem quiet_mark {run : Run} {document : Document}
    (hmark : run.markProcessing document stores = some after) : Quiet stores after := by
  rcases markProcessing_cases hmark with rfl | ⟨row, rfl⟩
  · exact quiet_refl after
  · exact quiet_setDocument stores _ row

/-- A move of a run executes its command, or is quiet. -/
theorem move_executes {run : Run} {outcome : Outcome} {phase : Phase} {session : Session}
    (hmove : Move settings stores run outcome after phase session) :
    (∃ document command left, run.phase = .running document command ∧
      outcome.takesEffect = true ∧ run.execute document stores command = some (after, left)) ∨
    ((∀ document command, run.phase = .running document command →
      outcome.takesEffect = false) ∧ Quiet stores after) := by
  cases hmove with
  | proceed hphase hexecute _ => exact Or.inl ⟨_, _, _, hphase, rfl, hexecute⟩
  | finish hphase hexecute => exact Or.inl ⟨_, _, _, hphase, rfl, hexecute⟩
  | skipPagesLate hphase hexecute _ => exact Or.inl ⟨_, _, _, hphase, rfl, hexecute⟩
  | failLate hphase hexecute _ => exact Or.inl ⟨_, _, _, hphase, rfl, hexecute⟩
  | load hphase _ =>
      refine Or.inr ⟨fun document command hrunning => ?_, quiet_refl stores⟩
      cases hphase.symm.trans hrunning
  | mark hphase hmark | markLate _ hphase hmark =>
      refine Or.inr ⟨fun document command hrunning => ?_, quiet_mark hmark⟩
      cases hphase.symm.trans hrunning
  | abort message hphase =>
      refine Or.inr ⟨fun document command hrunning => ?_, quiet_refl stores⟩
      rcases hphase with hload | ⟨_, hmark⟩
      · cases hload.symm.trans hrunning
      · cases hmark.symm.trans hrunning
  | @handle _ message _ hphase =>
      refine Or.inr ⟨fun document command hrunning => ?_, ?_⟩
      · cases hphase.symm.trans hrunning
      · rcases markFailed_cases run message stores with hsame | ⟨row, hwritten⟩
        · rw [hsame]
          exact quiet_refl stores
        · rw [hwritten]
          exact quiet_setDocument stores _ row
  | skipPages _ _ | fail _ _ | giveUp _ _ =>
      exact Or.inr ⟨fun _ _ _ => rfl, quiet_refl stores⟩

/-- A step that executes neither. -/
structure Apart (documentId : Uuid) (premises next : Premises) : Prop where
  ragPoints : next.stores.ragPoints = premises.stores.ragPoints
  pagePoints : next.stores.pagePoints = premises.stores.pagePoints
  row : next.stores.documents documentId = none →
    premises.stores.documents documentId = none ∨ premises.deletion.pointsCleared = true
  cleared : next.deletion.pointsCleared = true →
    premises.deletion.pointsCleared = true

/-- A step clears the text points for the deletion, executes a command of a run,
or leaves the points alone. -/
theorem step_cases (hfor : premises.worker.For documentId)
    (hstep : premises.step settings documentId action = some next) :
    (Clears premises action ∧ premises.executed action = none ∧
      next.stores = premises.stores.deleteRagPoints documentId) ∨
    (∃ run document command session,
      premises.executed action = some (run, document, command) ∧
      ¬ Clears premises action ∧ run.documentId = documentId ∧
      next.deletion = premises.deletion ∧
      run.execute document premises.stores command = some (next.stores, session)) ∨
    (¬ Clears premises action ∧ premises.executed action = none ∧
      Apart documentId premises next) := by
  cases action with
  | delete outcome =>
      obtain ⟨⟨reached, deletion⟩, hdelete, rfl⟩ := Option.map_eq_some_iff.mp hstep
      rcases deleteStep_cases hdelete with
        ⟨hphase, heffect, rfl⟩ | ⟨hother, hrag, hpages, hrow, hcleared⟩
      · exact Or.inl ⟨⟨hphase, outcome, rfl, heffect⟩, rfl, rfl⟩
      · refine Or.inr (Or.inr ⟨?_, rfl, hrag, hpages, ?_, hcleared⟩)
        · rintro ⟨hphase, _, hsame, heffect⟩
          cases hsame
          rcases hother with hnot | hnone
          · exact hnot hphase
          · cases heffect.symm.trans hnone
        · intro hgone
          rcases hrow with hsame | hdeleting
          · rw [← hsame]
            exact Or.inl hgone
          · rw [hdeleting]
            exact Or.inr rfl
  | worker action =>
      obtain ⟨⟨reached, moved⟩, hworker, rfl⟩ := Option.map_eq_some_iff.mp hstep
      have hclears : ¬ Clears premises (.worker action) := nofun
      right
      rcases workerStep_cases hworker with
        ⟨item, run, outcome, phase, session, hphase, rfl, hmove, _⟩ | ⟨hnone, hjob⟩
      · have hrun : run.documentId = documentId := by
          have hitems := hfor.phase
          rw [hphase] at hitems
          exact hitems.2
        rcases move_executes hmove with
          ⟨document, command, left, hrunning, heffect, hexecute⟩ | ⟨hsilent, hquiet⟩
        · refine Or.inl ⟨run, document, command, left, ?_, hclears, hrun, rfl, hexecute⟩
          simp only [executed, hphase, hrunning, heffect, if_true]
        · refine Or.inr ⟨hclears, ?_, hquiet.ragPoints, hquiet.pagePoints,
            fun hgone => Or.inl (hquiet.row documentId hgone), id⟩
          simp only [executed, hphase]
          split_ifs with heffect
          · split
            · rename_i document command hrunning
              cases heffect.symm.trans (hsilent document command hrunning)
            · rfl
          · rfl
      · have htracking := hjob.tracking
        refine Or.inr ⟨hclears, ?_, htracking.ragPoints, htracking.pagePoints, ?_, id⟩
        · unfold executed
          split
          · split_ifs
            · split
              · rename_i item run hphase
                exact absurd hphase (hnone item run)
              · rfl
            · rfl
          · rfl
        · intro hgone
          rw [htracking.documents] at hgone
          exact Or.inl hgone

theorem step_for (hfor : premises.worker.For documentId)
    (hstep : premises.step settings documentId action = some next) :
    next.worker.For documentId := by
  cases action with
  | delete outcome =>
      obtain ⟨⟨reached, deletion⟩, _, rfl⟩ := Option.map_eq_some_iff.mp hstep
      exact hfor
  | worker action =>
      obtain ⟨⟨reached, moved⟩, hworker, rfl⟩ := Option.map_eq_some_iff.mp hstep
      exact workerStep_for hfor hworker

/-! ## The text points -/

theorem step_clearsPoints (hfor : premises.worker.For documentId)
    (hstep : premises.step settings documentId action = some next)
    (hclears : ClearsPoints premises action) :
    next.stores.ragPointsOf documentId = [] := by
  rcases step_cases hfor hstep with
    ⟨_, _, hstores⟩ | ⟨run, document, command, session, hexecuted, hnot, rfl, _, hexecute⟩ |
    ⟨hnot, hnone, _⟩
  · rw [hstores]
    exact Stores.ragPointsOf_deleteRagPoints
  · obtain ⟨run', document', hdelete⟩ := hclears.resolve_left hnot
    rw [hexecuted] at hdelete
    cases hdelete
    rw [← (Prod.mk.inj (Option.some.inj hexecute)).1]
    exact Stores.ragPointsOf_deleteRagPoints
  · obtain ⟨run', document', hdelete⟩ := hclears.resolve_left hnot
    rw [hnone] at hdelete
    cases hdelete

theorem step_upsertsPoints (hfor : premises.worker.For documentId)
    (hstep : premises.step settings documentId action = some next)
    (hupserts : UpsertsPoints premises action) :
    next.stores.ragPointsOf documentId ≠ [] := by
  obtain ⟨run', document', hupsert, hnonempty⟩ := hupserts
  rcases step_cases hfor hstep with
    ⟨_, hnone, _⟩ | ⟨run, document, command, session, hexecuted, _, rfl, _, hexecute⟩ |
    ⟨_, hnone, _⟩
  · rw [hnone] at hupsert
    cases hupsert
  · rw [hexecuted] at hupsert
    cases hupsert
    rw [← (Prod.mk.inj (Option.some.inj hexecute)).1, Stores.ragPointsOf_upsertRagPoints, ragPoints_filter]
    exact List.append_ne_nil_of_right_ne_nil _ hnonempty
  · rw [hnone] at hupsert
    cases hupsert

theorem step_keepsPoints (hfor : premises.worker.For documentId)
    (hstep : premises.step settings documentId action = some next)
    (hupserts : ¬ UpsertsPoints premises action)
    (hclears : ¬ ClearsPoints premises action) :
    next.stores.ragPointsOf documentId = premises.stores.ragPointsOf documentId := by
  rcases step_cases hfor hstep with
    ⟨hclear, _⟩ | ⟨run, document, command, session, hexecuted, _, rfl, _, hexecute⟩ |
    ⟨_, _, hapart⟩
  · exact absurd (Or.inl hclear) hclears
  · rcases execute_ragPoints hexecute with ⟨rfl, _⟩ | ⟨rfl, hafter⟩ | ⟨_, _, hpoints⟩
    · exact absurd (Or.inr ⟨run, document, hexecuted⟩) hclears
    · have hempty : run.ragPoints document = [] := by
        by_contra hne
        exact hupserts ⟨run, document, hexecuted, hne⟩
      rw [hafter, hempty]
      simp [Stores.ragPointsOf, Stores.upsertRagPoints]
    · rw [Stores.ragPointsOf, Stores.ragPointsOf, hpoints]
  · rw [Stores.ragPointsOf, Stores.ragPointsOf, hapart.ragPoints]

/-! ## The page points -/

theorem pagePoints_filter (run : Run) (document : Document) :
    (run.pagePoints document).filter (·.documentId = run.documentId) =
      run.pagePoints document := by
  rw [List.filter_eq_self]
  intro point hpoint
  obtain ⟨page, _, hpage⟩ := List.mem_filterMap.mp hpoint
  obtain ⟨id, _, rfl⟩ := Option.map_eq_some_iff.mp hpage
  exact decide_eq_true rfl

theorem step_clearsPages (hfor : premises.worker.For documentId)
    (hstep : premises.step settings documentId action = some next)
    (hclears : ClearsPages premises action) :
    next.stores.pagePointsOf documentId = [] := by
  obtain ⟨run', document', hclear⟩ := hclears
  rcases step_cases hfor hstep with
    ⟨_, hnone, _⟩ | ⟨run, document, command, session, hexecuted, _, rfl, _, hexecute⟩ |
    ⟨_, hnone, _⟩
  · rw [hnone] at hclear
    cases hclear
  · rw [hexecuted] at hclear
    cases hclear
    rw [← (Prod.mk.inj (Option.some.inj hexecute)).1]
    exact Stores.pagePointsOf_deletePagePoints
  · rw [hnone] at hclear
    cases hclear

theorem step_upsertsPages (hfor : premises.worker.For documentId)
    (hstep : premises.step settings documentId action = some next)
    (hupserts : UpsertsPages premises action) :
    next.stores.pagePointsOf documentId ≠ [] := by
  obtain ⟨run', document', hupsert, hnonempty⟩ := hupserts
  rcases step_cases hfor hstep with
    ⟨_, hnone, _⟩ | ⟨run, document, command, session, hexecuted, _, rfl, _, hexecute⟩ |
    ⟨_, hnone, _⟩
  · rw [hnone] at hupsert
    cases hupsert
  · rw [hexecuted] at hupsert
    cases hupsert
    rw [← (Prod.mk.inj (Option.some.inj hexecute)).1, Stores.pagePointsOf_upsertPagePoints, pagePoints_filter]
    exact List.append_ne_nil_of_right_ne_nil _ hnonempty
  · rw [hnone] at hupsert
    cases hupsert

theorem step_keepsPages (hfor : premises.worker.For documentId)
    (hstep : premises.step settings documentId action = some next)
    (hupserts : ¬ UpsertsPages premises action)
    (hclears : ¬ ClearsPages premises action) :
    next.stores.pagePointsOf documentId = premises.stores.pagePointsOf documentId := by
  rcases step_cases hfor hstep with
    ⟨_, _, hstores⟩ | ⟨run, document, command, session, hexecuted, _, rfl, _, hexecute⟩ |
    ⟨_, _, hapart⟩
  · rw [hstores]
    rfl
  · rcases execute_pagePoints hexecute with ⟨rfl, _⟩ | ⟨rfl, hafter⟩ | ⟨_, _, hpoints⟩
    · exact absurd ⟨run, document, hexecuted⟩ hclears
    · have hempty : run.pagePoints document = [] := by
        by_contra hne
        exact hupserts ⟨run, document, hexecuted, hne⟩
      rw [hafter, hempty]
      simp [Stores.pagePointsOf, Stores.upsertPagePoints]
    · rw [Stores.pagePointsOf, Stores.pagePointsOf, hpoints]
  · rw [Stores.pagePointsOf, Stores.pagePointsOf, hapart.pagePoints]

/-! ## The row -/

/-- The deletion is behind its `delete_by_document`, or has removed the row. -/
def Behind (documentId : Uuid) (premises : Premises) : Prop :=
  premises.deletion.pointsCleared = true ∨ premises.stores.documents documentId = none

/-- Only `delete_by_document` brings the deletion behind it, and the row goes later. -/
theorem step_behind (hfor : premises.worker.For documentId)
    (hstep : premises.step settings documentId action = some next)
    (hbehind : Behind documentId next) :
    Behind documentId premises ∨ ClearsPoints premises action := by
  rcases step_cases hfor hstep with
    ⟨hclear, _⟩ | ⟨run, document, command, session, _, _, rfl, hdeletion, hexecute⟩ |
    ⟨_, _, hapart⟩
  · exact Or.inr (Or.inl hclear)
  · left
    rcases hbehind with hcleared | hgone
    · exact Or.inl (hdeletion ▸ hcleared)
    · exact Or.inr (execute_documents hexecute hgone)
  · left
    rcases hbehind with hcleared | hgone
    · exact Or.inl (hapart.cleared hcleared)
    · exact (hapart.row hgone).symm

end Steps

/-! ## What a run does -/

section Runs

variable {settings : Settings} {documentId : Uuid} {start finish : Premises}
variable {actions : List Action}

theorem run_for (hfor : start.worker.For documentId)
    (hrun : Transition.exec (step settings documentId) start actions = some finish) :
    finish.worker.For documentId := by
  apply Transition.exec_invariant (motive := fun premises =>
    premises.worker.For documentId) ?_ hrun hfor
  intro premises action next hbefore hstep
  exact step_for hbefore hstep

/-- Text points are left exactly when some write of them is not cleared. -/
theorem run_ragPoints (hfor : start.worker.For documentId)
    (hrun : Transition.exec (step settings documentId) start actions = some finish) :
    finish.stores.ragPointsOf documentId ≠ [] ↔
      (start.stores.ragPointsOf documentId ≠ [] ∧
        ¬ Transition.Occurs (step settings documentId) start actions ClearsPoints) ∨
      Transition.Unanswered (step settings documentId) start actions
        UpsertsPoints ClearsPoints := by
  apply Transition.holds_iff_unanswered
    (motive := fun premises => premises.stores.ragPointsOf documentId ≠ []) ?_ ?_ ?_ hrun
  · intro past premises action next hpast hstep hupserts
    exact step_upsertsPoints (run_for hfor hpast) hstep hupserts
  · intro past premises action next hpast hstep hclears
    exact not_not_intro (step_clearsPoints (run_for hfor hpast) hstep hclears)
  · intro past premises action next hpast hstep hupserts hclears
    rw [step_keepsPoints (run_for hfor hpast) hstep hupserts hclears]

/-- The same of the page points. -/
theorem run_pagePoints (hfor : start.worker.For documentId)
    (hrun : Transition.exec (step settings documentId) start actions = some finish) :
    finish.stores.pagePointsOf documentId ≠ [] ↔
      (start.stores.pagePointsOf documentId ≠ [] ∧
        ¬ Transition.Occurs (step settings documentId) start actions ClearsPages) ∨
      Transition.Unanswered (step settings documentId) start actions
        UpsertsPages ClearsPages := by
  apply Transition.holds_iff_unanswered
    (motive := fun premises => premises.stores.pagePointsOf documentId ≠ []) ?_ ?_ ?_ hrun
  · intro past premises action next hpast hstep hupserts
    exact step_upsertsPages (run_for hfor hpast) hstep hupserts
  · intro past premises action next hpast hstep hclears
    exact not_not_intro (step_clearsPages (run_for hfor hpast) hstep hclears)
  · intro past premises action next hpast hstep hupserts hclears
    rw [step_keepsPages (run_for hfor hpast) hstep hupserts hclears]

theorem run_behind (hbegins : start.Begins documentId)
    (hrun : Transition.exec (step settings documentId) start actions = some finish) :
    Behind documentId finish →
      Transition.Occurs (step settings documentId) start actions ClearsPoints := by
  apply Transition.exec_induction (motive := fun past premises =>
    Behind documentId premises →
      Transition.Occurs (step settings documentId) start past ClearsPoints) ?_ ?_ hrun
  · rintro (hcleared | hgone)
    · rw [hbegins.loading] at hcleared
      cases hcleared
    · exact absurd hgone hbegins.row
  · intro past premises action next hpast hoccurs hstep hbehind
    rw [Transition.occurs_snoc hpast]
    exact (step_behind (run_for hbegins.items hpast) hstep hbehind).imp_left hoccurs

end Runs

/-- Once the deletion and all attempts are over, no point of the document is
left exactly when everything written of it was cleared later. -/
theorem over_empty_iff {settings : Settings} {documentId : Uuid}
    {start finish : Premises} {actions : List Action} (hbegins : start.Begins documentId)
    (hrun : Transition.exec (step settings documentId) start actions = some finish)
    (hover : finish.Over documentId) :
    (finish.stores.ragPointsOf documentId = [] ∧
        finish.stores.pagePointsOf documentId = []) ↔
      ClearedLast settings documentId start actions := by
  have hcleared := run_behind hbegins hrun (Or.inr hover.row)
  have hpoints := run_ragPoints hbegins.items hrun
  have hpages := run_pagePoints hbegins.items hrun
  constructor
  · rintro ⟨hnoPoints, hnoPages⟩
    have hpoints' := mt hpoints.mpr (not_not_intro hnoPoints)
    have hpages' := mt hpages.mpr (not_not_intro hnoPages)
    rw [not_or] at hpoints' hpages'
    refine ⟨hpoints'.2, hpages'.2, ?_⟩
    by_cases hold : start.stores.pagePointsOf documentId = []
    · exact Or.inl hold
    · exact Or.inr (not_not.mp fun hnone => hpages'.1 ⟨hold, hnone⟩)
  · rintro ⟨hanswered, hpagesAnswered, hold⟩
    constructor
    · by_contra hleft
      rcases hpoints.mp hleft with ⟨_, hnone⟩ | hunanswered
      · exact hnone hcleared
      · exact hanswered hunanswered
    · by_contra hleft
      rcases hpages.mp hleft with ⟨hstart, hnone⟩ | hunanswered
      · exact hold.elim hstart hnone
      · exact hpagesAnswered hunanswered

/-- A new document with one queued item. -/
def newDocument : Premises where
  stores :=
    { documents := fun id =>
        if id = 1 then
          some { collectionId := 7, filename := "haushalt.pdf", fileType := "pdf" }
        else none
      files := {1} }
  worker := { queue := [⟨1, 0, none⟩] }

/-- The run embeds its chunk, the deletion clears, the run upserts; the row is
deleted before the run commits, and the next attempt is dropped. -/
def upsertsLate : List Action :=
  [.worker .pop,
    .worker (.start 50 ⟨[], [(10, ⟨.text, "Der Haushalt", "Der Haushalt", 0, some 1,
      none, none⟩)], 1, [], []⟩ .ok)] ++
  List.replicate 13 (.worker (.work .ok)) ++
  List.replicate 4 (.delete .ok) ++
  [.worker (.work .ok), .delete .ok,
    .worker (.work (.raise "violates foreign key constraint"))] ++
  List.replicate 3 (.worker (.work .ok)) ++
  [.worker .pop, .worker (.start 51 ⟨[], [], 0, [], []⟩ .ok)]

private theorem newDocument_begins : newDocument.Begins 1 := by
  refine ⟨by decide, ⟨trivial, ?_⟩, rfl⟩
  intro item hitem
  rw [List.mem_singleton.mp hitem]

private theorem upsertsLate_run :
    ∃ finish, Transition.exec (step {} 1) newDocument upsertsLate = some finish ∧
      finish.Over 1 ∧ (finish.stores.ragPointsOf 1).length = 1 := by
  have hresult : (Transition.exec (step {} 1) newDocument upsertsLate).map
      (fun finish => (finish.deletion,
        (match finish.worker.phase with | .idle => true | _ => false),
        finish.worker.queue, finish.stores.documents 1,
        (finish.stores.ragPointsOf 1).length)) =
      some (.deleted, true, [], none, 1) := by
    decide +kernel
  obtain ⟨finish, hrun, heq⟩ := Option.map_eq_some_iff.mp hresult
  simp only [Prod.mk.injEq] at heq
  obtain ⟨hdeletion, hidle, hqueue, hrow, hpoints⟩ := heq
  refine ⟨finish, hrun, ⟨?_, ?_, hqueue, hrow⟩, hpoints⟩
  · rw [hdeletion]
    exact trivial
  · split at hidle
    · assumption
    · cases hidle

theorem over_empty_iff_upsertsLate :
    ∃ finish, Transition.exec (step {} 1) newDocument upsertsLate = some finish ∧
      ((finish.stores.ragPointsOf 1 = [] ∧ finish.stores.pagePointsOf 1 = []) ↔
        ClearedLast {} 1 newDocument upsertsLate) := by
  obtain ⟨finish, hrun, hover, _⟩ := upsertsLate_run
  exact ⟨finish, hrun, over_empty_iff newDocument_begins hrun hover⟩

/-- The foreign key fails the commit, but the point is in Qdrant. -/
theorem over_not_empty :
    ¬ ∀ (settings : Settings) (documentId : Uuid) (start finish : Premises)
        (actions : List Action), start.Begins documentId →
      Transition.exec (step settings documentId) start actions = some finish →
      finish.Over documentId →
      finish.stores.ragPointsOf documentId = [] ∧
        finish.stores.pagePointsOf documentId = [] := by
  intro hclaim
  obtain ⟨finish, hrun, hover, hpoints⟩ := upsertsLate_run
  obtain ⟨hempty, _⟩ :=
    hclaim {} 1 newDocument finish upsertsLate newDocument_begins hrun hover
  rw [hempty] at hpoints
  cases hpoints

end Premises

end AgenticRag.Ingestion
