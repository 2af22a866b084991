import AgenticRag.Ingestion.Worker

/-!
# The document service

`delete_document` and `reindex_document` of the API as runs of commands.
-/

namespace AgenticRag.Ingestion

/-- Where `delete_document` stands. -/
inductive DeletePhase where
  | loading
  | clearingPoints
  | invalidating
  | deletingFiles
  | deletingRow
  | deleted
  | failed (message : String)
  deriving DecidableEq

/-- One command of `delete_document`: Qdrant first, then the cached answers, the
files and the row.  `rmtree` ignores its errors: the files may stay, and the
deletion goes on. -/
def deleteStep (documentId : Uuid) (state : Stores × DeletePhase) (outcome : Outcome) :
    Option (Stores × DeletePhase) :=
  let (stores, phase) := state
  match phase, outcome with
  | .loading, .ok =>
      match stores.documents documentId with
      | none => some (stores, .failed "Document not found")
      | some _ => some (stores, .clearingPoints)
  | .clearingPoints, .ok => some (stores.deleteRagPoints documentId, .invalidating)
  | .invalidating, .ok => some (stores, .deletingFiles)
  | .deletingFiles, .ok | .deletingFiles, .late _ =>
      some (stores.deleteFiles documentId, .deletingRow)
  | .deletingFiles, .raise _ => some (stores, .deletingRow)
  | .deletingRow, .ok => some (stores.deleteDocumentRow documentId, .deleted)
  | .loading, .raise message | .loading, .late message | .clearingPoints, .raise message
  | .invalidating, .raise message | .invalidating, .late message
  | .deletingRow, .raise message => some (stores, .failed message)
  | .clearingPoints, .late message => some (stores.deleteRagPoints documentId, .failed message)
  | .deletingRow, .late message =>
      some (stores.deleteDocumentRow documentId, .failed message)
  | .deleted, _ | .failed _, _ => none

/-- `delete_document` has returned or raised. -/
def DeletePhase.Finished : DeletePhase → Prop
  | .deleted | .failed _ => True
  | _ => False

/-- The phases behind `delete_by_document`. -/
def DeletePhase.pointsCleared : DeletePhase → Bool
  | .invalidating | .deletingFiles | .deletingRow | .deleted => true
  | _ => false

section Steps

variable {documentId : Uuid} {stores after : Stores} {phase next : DeletePhase}
variable {outcome : Outcome}

/-- A step of the deletion that does not clear the points. -/
structure Beside (stores after : Stores) (phase next : DeletePhase) : Prop where
  ragPoints : after.ragPoints = stores.ragPoints
  pagePoints : after.pagePoints = stores.pagePoints
  documents : after.documents = stores.documents ∨ phase = .deletingRow
  cleared : next.pointsCleared = true → phase.pointsCleared = true

/-- Everything a step of the deletion can do to the row and the points. -/
theorem deleteStep_cases
    (hstep : deleteStep documentId (stores, phase) outcome = some (after, next)) :
    (phase = .clearingPoints ∧ outcome.takesEffect = true ∧
      after = stores.deleteRagPoints documentId) ∨
    ((phase ≠ .clearingPoints ∨ outcome.takesEffect = false) ∧
      Beside stores after phase next) := by
  cases phase with
  | clearingPoints =>
      cases outcome with
      | ok | late message =>
          cases hstep
          exact Or.inl ⟨rfl, rfl, rfl⟩
      | raise message =>
          cases hstep
          exact Or.inr ⟨Or.inr rfl, rfl, rfl, Or.inl rfl, nofun⟩
  | loading =>
      refine Or.inr ⟨Or.inl nofun, ?_⟩
      cases outcome with
      | ok =>
          simp only [deleteStep] at hstep
          split at hstep
          · cases hstep
            exact ⟨rfl, rfl, Or.inl rfl, nofun⟩
          · cases hstep
            exact ⟨rfl, rfl, Or.inl rfl, nofun⟩
      | raise message | late message =>
          cases hstep
          exact ⟨rfl, rfl, Or.inl rfl, nofun⟩
  | invalidating | deletingFiles =>
      refine Or.inr ⟨Or.inl nofun, ?_⟩
      cases outcome <;> cases hstep <;> exact ⟨rfl, rfl, Or.inl rfl, fun _ => rfl⟩
  | deletingRow =>
      refine Or.inr ⟨Or.inl nofun, ?_⟩
      cases outcome <;> cases hstep <;> exact ⟨rfl, rfl, Or.inr rfl, fun _ => rfl⟩
  | deleted | failed message => cases outcome <;> cases hstep

/-- What a command of the deletion does to the stores, and when the deletion is over. -/
theorem deleteStep_effect
    (hstep : deleteStep documentId (stores, phase) outcome = some (after, next)) :
    ((phase = .clearingPoints ∧ outcome.takesEffect = true ∧
        after = stores.deleteRagPoints documentId) ∨
      (phase = .deletingFiles ∧ outcome.takesEffect = true ∧
        after = stores.deleteFiles documentId) ∨
      (phase = .deletingRow ∧ outcome.takesEffect = true ∧
        after = stores.deleteDocumentRow documentId) ∨
      (after = stores ∧ ((phase ≠ .clearingPoints ∧ phase ≠ .deletingFiles ∧
        phase ≠ .deletingRow) ∨ outcome.takesEffect = false))) ∧
    (next = .deleted → phase = .deletingRow ∧ outcome.takesEffect = true) := by
  cases phase with
  | loading =>
      cases outcome with
      | ok =>
          simp only [deleteStep] at hstep
          split at hstep
          · cases hstep
            exact ⟨Or.inr (Or.inr (Or.inr ⟨rfl, Or.inl ⟨nofun, nofun, nofun⟩⟩)), nofun⟩
          · cases hstep
            exact ⟨Or.inr (Or.inr (Or.inr ⟨rfl, Or.inl ⟨nofun, nofun, nofun⟩⟩)), nofun⟩
      | raise message | late message =>
          cases hstep
          exact ⟨Or.inr (Or.inr (Or.inr ⟨rfl, Or.inl ⟨nofun, nofun, nofun⟩⟩)), nofun⟩
  | clearingPoints =>
      cases outcome with
      | ok | late message =>
          cases hstep
          exact ⟨Or.inl ⟨rfl, rfl, rfl⟩, nofun⟩
      | raise message =>
          cases hstep
          exact ⟨Or.inr (Or.inr (Or.inr ⟨rfl, Or.inr rfl⟩)), nofun⟩
  | invalidating =>
      cases outcome <;> cases hstep <;>
        exact ⟨Or.inr (Or.inr (Or.inr ⟨rfl, Or.inl ⟨nofun, nofun, nofun⟩⟩)), nofun⟩
  | deletingFiles =>
      cases outcome with
      | ok | late message =>
          cases hstep
          exact ⟨Or.inr (Or.inl ⟨rfl, rfl, rfl⟩), nofun⟩
      | raise message =>
          cases hstep
          exact ⟨Or.inr (Or.inr (Or.inr ⟨rfl, Or.inr rfl⟩)), nofun⟩
  | deletingRow =>
      cases outcome with
      | ok | late message =>
          cases hstep
          exact ⟨Or.inr (Or.inr (Or.inl ⟨rfl, rfl, rfl⟩)), fun _ => ⟨rfl, rfl⟩⟩
      | raise message =>
          cases hstep
          exact ⟨Or.inr (Or.inr (Or.inr ⟨rfl, Or.inr rfl⟩)), nofun⟩
  | deleted | failed message => cases outcome <;> cases hstep

end Steps

/-! ## Re-indexing -/

/-- Where `reindex_document` stands. -/
inductive ReindexPhase where
  | loading
  | committing
  | invalidating
  | enqueueing
  | reindexed
  | failed (message : String)
  deriving DecidableEq

/-- The commit of `reindex_document`: the row, and a new job. -/
def Stores.commitReindex (stores : Stores) (documentId jobId : Uuid) : Except String Stores :=
  match stores.documents documentId with
  | none => .error "violates foreign key constraint"
  | some document =>
      if stores.jobs jobId = none then
        .ok
          ((stores.setDocument documentId
              { document with status := .pending, error := none }).setJob jobId
              { documentId := documentId, status := .queued, attempt := 0 })
      else .error "duplicate key value violates unique constraint"

/-- One command of `reindex_document`: the row and a new job, the cached answers,
the queue. -/
def reindexStep (documentId jobId : Uuid) (state : Stores × Worker × ReindexPhase)
    (outcome : Outcome) : Option (Stores × Worker × ReindexPhase) :=
  let (stores, worker, phase) := state
  match phase, outcome with
  | .loading, .ok =>
      match stores.documents documentId with
      | none => some (stores, worker, .failed "Document not found")
      | some _ => some (stores, worker, .committing)
  | .committing, .ok =>
      match stores.commitReindex documentId jobId with
      | .error message => some (stores, worker, .failed message)
      | .ok after => some (after, worker, .invalidating)
  | .invalidating, .ok => some (stores, worker, .enqueueing)
  | .enqueueing, .ok =>
      some (stores,
        { worker with queue := worker.queue ++ [⟨documentId, 0, some jobId⟩] },
        .reindexed)
  | .committing, .late message =>
      match stores.commitReindex documentId jobId with
      | .error refusal => some (stores, worker, .failed refusal)
      | .ok after => some (after, worker, .failed message)
  | .enqueueing, .late message =>
      some (stores,
        { worker with queue := worker.queue ++ [⟨documentId, 0, some jobId⟩] },
        .failed message)
  | .loading, .raise message | .loading, .late message | .committing, .raise message
  | .invalidating, .raise message | .invalidating, .late message
  | .enqueueing, .raise message => some (stores, worker, .failed message)
  | .reindexed, _ | .failed _, _ => none

theorem commitReindex_ok {documentId jobId : Uuid} {stores after : Stores}
    (hcommit : stores.commitReindex documentId jobId = .ok after) :
    ∃ document, stores.documents documentId = some document ∧ stores.jobs jobId = none ∧
      after = (stores.setDocument documentId
        { document with status := .pending, error := none }).setJob jobId
        { documentId := documentId, status := .queued, attempt := 0 } := by
  unfold Stores.commitReindex at hcommit
  cases hdocument : stores.documents documentId with
  | none =>
      rw [hdocument] at hcommit
      cases hcommit
  | some document =>
      rw [hdocument] at hcommit
      dsimp only at hcommit
      split_ifs at hcommit with hfresh
      cases hcommit
      exact ⟨document, rfl, hfresh, rfl⟩

/-- What a command of a re-indexing does to the stores: nothing, or the commit. -/
theorem reindexStep_cases {documentId jobId : Uuid} {stores after : Stores}
    {worker following : Worker} {phase next : ReindexPhase} {outcome : Outcome}
    (hstep : reindexStep documentId jobId (stores, worker, phase) outcome =
      some (after, following, next)) :
    (phase = .committing ∧ outcome.takesEffect = true ∧
      stores.commitReindex documentId jobId = .ok after ∧ next ≠ .committing ∧
        next ≠ .reindexed) ∨
    ((phase ≠ .committing ∨ outcome.takesEffect = false ∨
        stores.jobs jobId ≠ none ∨ stores.documents documentId = none) ∧ after = stores ∧
      (phase = .committing → ∃ message, next = .failed message)) := by
  cases phase with
  | committing =>
      have hrefused : ∀ message, stores.commitReindex documentId jobId = .error message →
          stores.jobs jobId ≠ none ∨ stores.documents documentId = none := by
        intro message herror
        by_contra hneither
        rw [not_or, not_not] at hneither
        obtain ⟨document, hdocument⟩ := Option.ne_none_iff_exists'.mp hneither.2
        simp [Stores.commitReindex, hdocument, hneither.1] at herror
      cases outcome with
      | raise message =>
          cases hstep
          exact Or.inr ⟨Or.inr (Or.inl rfl), rfl, fun _ => ⟨_, rfl⟩⟩
      | ok | late message =>
          cases hcommit : stores.commitReindex documentId jobId with
          | error refusal =>
              simp only [reindexStep, hcommit] at hstep
              cases hstep
              exact Or.inr ⟨Or.inr (Or.inr (hrefused _ hcommit)), rfl, fun _ => ⟨_, rfl⟩⟩
          | ok committed =>
              simp only [reindexStep, hcommit] at hstep
              cases hstep
              exact Or.inl ⟨rfl, rfl, rfl, nofun, nofun⟩
  | loading =>
      refine Or.inr ⟨Or.inl nofun, ?_, nofun⟩
      cases outcome with
      | ok =>
          simp only [reindexStep] at hstep
          split at hstep
          · cases hstep
            rfl
          · cases hstep
            rfl
      | raise message | late message =>
          cases hstep
          rfl
  | invalidating | enqueueing =>
      refine Or.inr ⟨Or.inl nofun, ?_, nofun⟩
      cases outcome <;> cases hstep <;> rfl
  | reindexed | failed message => cases outcome <;> cases hstep

/-- A re-indexing does not go back, and returns behind its push. -/
theorem reindexStep_forward {documentId jobId : Uuid} {stores after : Stores}
    {worker following : Worker} {phase next : ReindexPhase} {outcome : Outcome}
    (hstep : reindexStep documentId jobId (stores, worker, phase) outcome =
      some (after, following, next)) (hloaded : phase ≠ .loading) :
    next ≠ .loading ∧ next ≠ .committing := by
  cases phase with
  | loading => exact absurd rfl hloaded
  | committing =>
      cases outcome with
      | raise message =>
          cases hstep
          exact ⟨nofun, nofun⟩
      | ok | late message =>
          cases hcommit : stores.commitReindex documentId jobId with
          | error refusal =>
              simp only [reindexStep, hcommit] at hstep
              cases hstep
              exact ⟨nofun, nofun⟩
          | ok committed =>
              simp only [reindexStep, hcommit] at hstep
              cases hstep
              exact ⟨nofun, nofun⟩
  | invalidating | enqueueing => cases outcome <;> cases hstep <;> exact ⟨nofun, nofun⟩
  | reindexed | failed message => cases outcome <;> cases hstep

end AgenticRag.Ingestion
