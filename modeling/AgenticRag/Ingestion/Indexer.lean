import AgenticRag.Core.Transition
import AgenticRag.Ingestion.Stores

/-!
# The indexer

`index_document` as a run of commands.  A `Run` knows the command it sends next;
`indexStep` lets that command succeed or raise, before or after its effect.  What
the parser, the chunker and the page renderer make of the file, the ids the run
draws and the objects MinIO does not remove are its `Plan`.
-/

namespace AgenticRag.Ingestion

/-- The results of the pure parts of one run.  A figure is the page of an
element with a crop; a page has a point unless its embedding failed; the removal
of a stuck object fails. -/
structure Plan where
  figures : List (Option ℕ)
  chunks : List (Uuid × ChunkData)
  pageCount : ℕ
  pages : List (ℕ × Option Uuid)
  stuck : List StoredObject := []

/-- The commands of `index_document` inside its `try`.  Loops carry the part
that is still to do. -/
inductive Command where
  | stageParsing
  | readDocument
  | ensureBuckets
  | ensureCollection
  | deleteRows
  | deletePoints
  | deleteObjects
  | parse
  | stageCaptioning (count : ℕ) (page : Option ℕ) (rest : List (Option ℕ))
  | putFigure (count : ℕ) (page : Option ℕ) (rest : List (Option ℕ))
  | buildChunks
  | stageIndexing
  | embed (rest : List (Uuid × ChunkData))
  | upsertPoints
  | ensurePages
  | clearPages
  | renderPages
  | putPage (page : ℕ) (rest : List (ℕ × Option Uuid))
  | upsertPages
  | commit
  deriving DecidableEq

namespace Command

/-- The figure sink is called for every figure; `count` figures are done. -/
def figuresFrom (count : ℕ) : List (Option ℕ) → Command
  | [] => .buildChunks
  | page :: rest => .stageCaptioning (count + 1) page rest

def embedFrom : List (Uuid × ChunkData) → Command
  | [] => .upsertPoints
  | _ :: rest => .embed rest

def pagesFrom : List (ℕ × Option Uuid) → Command
  | [] => .upsertPages
  | (page, _) :: rest => .putPage page rest

/-- The command after a successful one; `none` after the final commit. -/
def next (plan : Plan) (pagePass : Bool) : Command → Option Command
  | .stageParsing => some .readDocument
  | .readDocument => some .ensureBuckets
  | .ensureBuckets => some .ensureCollection
  | .ensureCollection => some .deleteRows
  | .deleteRows => some .deletePoints
  | .deletePoints => some .deleteObjects
  | .deleteObjects => some .parse
  | .parse => some (figuresFrom 0 plan.figures)
  | .stageCaptioning count page rest => some (.putFigure count page rest)
  | .putFigure count _ rest => some (figuresFrom count rest)
  | .buildChunks => some .stageIndexing
  | .stageIndexing => some (embedFrom plan.chunks)
  | .embed rest => some (embedFrom rest)
  | .upsertPoints => some (if pagePass then .ensurePages else .commit)
  | .ensurePages => some .clearPages
  | .clearPages => some .renderPages
  | .renderPages => some (pagesFrom plan.pages)
  | .putPage _ rest => some (pagesFrom rest)
  | .upsertPages => some .commit
  | .commit => none

/-- The best-effort page pass: its exceptions are logged and swallowed. -/
def inPagePass : Command → Bool
  | .ensurePages | .clearPages | .renderPages | .putPage _ _ | .upsertPages => true
  | _ => false

/-- The commands behind `deleteRows`. -/
def rowsDeleted : Command → Bool
  | .stageParsing | .readDocument | .ensureBuckets | .ensureCollection
  | .deleteRows => false
  | _ => true

/-- The commands behind `deletePoints`. -/
def pointsCleared : Command → Bool
  | .deletePoints => false
  | command => command.rowsDeleted

/-- The commands behind `upsertPoints`. -/
def pointsUpserted : Command → Bool
  | .commit => true
  | command => command.inPagePass

end Command

/-- Where a run stands.  `handling` is the `except` block. -/
inductive Phase where
  | loading
  | marking (document : Document)
  | running (document : Document) (command : Command)
  | handling (message : String)
  | returned (count : ℕ)
  | raised (message : String)
  deriving DecidableEq

/-- One call of `index_document`.  `jobId` is the tracked job the stage callback
updates. -/
structure Run where
  documentId : Uuid
  jobId : Option Uuid
  plan : Plan
  phase : Phase := .loading
  session : Session := []

/-- `visual_path == "full"`, a PDF, and a configured ColQwen service. -/
def pagePass (settings : Settings) (document : Document) : Bool :=
  settings.visualPath = .full && document.fileType = "pdf" &&
    settings.colqwenBaseUrl.toList.any (· ≠ '/')

/-- `f"p{el.page or 0}-{n:03d}"` -/
def figureId (page : Option ℕ) (count : ℕ) : String :=
  "p" ++ toString (page.getD 0) ++ "-" ++
    String.ofList ((toString count).toList.leftpad 3 '0')

namespace Run

variable (run : Run)

def chunkRows (document : Document) : List DocumentChunk :=
  run.plan.chunks.map fun (id, chunk) =>
    { id := id
      documentId := run.documentId
      collectionId := document.collectionId
      fileName := document.filename
      fileType := document.fileType
      chunk := chunk }

def ragPoints (document : Document) : List RagPoint :=
  run.plan.chunks.map fun (id, chunk) =>
    { id := id
      documentId := run.documentId
      collectionId := document.collectionId
      chunkType := chunk.chunkType
      pageNumber := chunk.pageNumber
      sectionTitle := chunk.sectionTitle
      fileName := document.filename
      fileType := document.fileType
      content := chunk.normalizedContent
      imageUri := chunk.imageUri }

def pagePoints (document : Document) : List PagePoint :=
  run.plan.pages.filterMap fun (page, id) => id.map fun id =>
    { id := id
      documentId := run.documentId
      collectionId := document.collectionId
      pageNumber := page
      fileName := document.filename
      fileType := document.fileType }

/-- `_stage`: update the tracked job and commit the session; nothing happens
without a job row. -/
def stage (status : IngestStatus) (stores : Stores) : Stores × Session :=
  match run.jobId with
  | none => (stores, run.session)
  | some jobId =>
      match stores.jobs jobId with
      | none => (stores, run.session)
      | some job =>
          ((stores.commitDeletes run.session).setJob jobId
            { job with status := status }, [])

/-- The effect of a command; `none` when it cannot succeed. -/
def execute (document : Document) (stores : Stores) :
    Command → Option (Stores × Session)
  | .stageParsing => some (run.stage .parsing stores)
  | .readDocument =>
      if run.documentId ∈ stores.files then some (stores, run.session) else none
  | .ensureBuckets | .ensureCollection | .parse | .buildChunks | .embed _
  | .ensurePages | .renderPages => some (stores, run.session)
  | .deleteRows => some (stores, run.session ++ stores.chunksOf run.documentId)
  | .deletePoints => some (stores.deleteRagPoints run.documentId, run.session)
  | .deleteObjects =>
      some (stores.deleteObjects run.documentId run.plan.stuck, run.session)
  | .stageCaptioning _ _ _ => some (run.stage .captioning stores)
  | .putFigure count page _ =>
      some (stores.putObject ⟨.figures, run.documentId, figureId page count⟩,
        run.session)
  | .stageIndexing => some (run.stage .indexing stores)
  | .upsertPoints => some (stores.upsertRagPoints (run.ragPoints document), run.session)
  | .clearPages => some (stores.deletePagePoints run.documentId, run.session)
  | .putPage page _ =>
      some (stores.putObject ⟨.pages, run.documentId, toString page⟩, run.session)
  | .upsertPages =>
      some (stores.upsertPagePoints (run.pagePoints document), run.session)
  | .commit =>
      match stores.documents run.documentId with
      | none => none
      | some row =>
          some
            (((stores.commitDeletes run.session).insertChunks
              (run.chunkRows document)).setDocument run.documentId
                { row with
                  status := .indexed
                  pageCount := some run.plan.pageCount }, [])

/-- `doc.status = PROCESSING; doc.error = None; db.commit()`.  Nothing is flushed
when the loaded document has these values already. -/
def markProcessing (document : Document) (stores : Stores) : Option Stores :=
  if document.status = .processing ∧ document.error = none then
    some stores
  else
    (stores.documents run.documentId).map fun row =>
      stores.setDocument run.documentId
        { row with status := .processing, error := none }

/-- The `except` block after its rollback. -/
def markFailed (message : String) (stores : Stores) : Stores :=
  match stores.documents run.documentId with
  | none => stores
  | some row =>
      stores.setDocument run.documentId
        { row with
          status := .failed
          error := some (String.ofList (message.toList.take 2000)) }

end Run

/-- One command of a run, succeeding or raising.  What a command raises in the
`try` is handled after the rollback; what it has done outside the session, or
committed, stays. -/
def indexStep (settings : Settings) (state : Stores × Run) (outcome : Outcome) :
    Option (Stores × Run) :=
  let (stores, run) := state
  match run.phase, outcome with
  | .loading, .ok =>
      match stores.documents run.documentId with
      | none =>
          some (stores, { run with
            phase := .raised ("Document " ++ run.documentId.str ++ " not found") })
      | some document => some (stores, { run with phase := .marking document })
  | .marking document, .ok =>
      match run.markProcessing document stores with
      | none => none
      | some stores =>
          some (stores, { run with phase := .running document .stageParsing })
  | .loading, .raise message | .loading, .late message | .marking _, .raise message =>
      some (stores, { run with phase := .raised message })
  | .marking document, .late message =>
      match run.markProcessing document stores with
      | none => none
      | some stores => some (stores, { run with phase := .raised message })
  | .running document command, .ok =>
      match run.execute document stores command with
      | none => none
      | some (stores, session) =>
          match command.next run.plan (pagePass settings document) with
          | some command =>
              some (stores, { run with
                phase := .running document command, session := session })
          | none =>
              some (stores, { run with
                phase := .returned run.plan.chunks.length, session := session })
  | .running document command, .raise message =>
      if command.inPagePass then
        some (stores, { run with phase := .running document .commit })
      else
        some (stores, { run with phase := .handling message, session := [] })
  | .running document command, .late message =>
      match run.execute document stores command with
      | none => none
      | some (stores, session) =>
          if command.inPagePass then
            some (stores, { run with
              phase := .running document .commit, session := session })
          else
            some (stores, { run with phase := .handling message, session := [] })
  | .handling message, .ok =>
      some (run.markFailed message stores, { run with phase := .raised message })
  | .handling _, .raise failure =>
      some (stores, { run with phase := .raised failure })
  | .handling message, .late failure =>
      some (run.markFailed message stores, { run with phase := .raised failure })
  | .returned _, _ | .raised _, _ => none

/-- `index_document` has returned or raised. -/
def Run.Finished (run : Run) : Prop :=
  match run.phase with
  | .returned _ | .raised _ => True
  | _ => False

/-! ## What a command does -/

namespace Command

/-- The stage callbacks. -/
def isStage : Command → Bool
  | .stageParsing | .stageCaptioning _ _ _ | .stageIndexing => true
  | _ => false

attribute [local simp] figuresFrom embedFrom pagesFrom rowsDeleted pointsCleared
  pointsUpserted inPagePass

/-- What has been done when the next command is reached. -/
theorem next_progress {plan : Plan} {pagePass : Bool} {command following : Command}
    (hnext : command.next plan pagePass = some following) :
    following.rowsDeleted = (command.rowsDeleted || command = .deleteRows) ∧
      following.pointsCleared = (command.pointsCleared || command = .deletePoints) ∧
      following.pointsUpserted =
        (command.pointsUpserted || command = .upsertPoints) := by
  cases command with
  | parse =>
      cases hnext
      cases plan.figures <;> simp
  | putFigure count page rest =>
      cases hnext
      cases rest <;> simp
  | stageIndexing =>
      cases hnext
      cases plan.chunks <;> simp
  | embed rest =>
      cases hnext
      cases rest <;> simp
  | upsertPoints =>
      cases hnext
      cases pagePass <;> simp
  | renderPages =>
      cases hnext
      cases plan.pages <;> simp
  | putPage page rest =>
      cases hnext
      cases rest <;> simp
  | commit => cases hnext
  | stageParsing | readDocument | ensureBuckets | ensureCollection | deleteRows
    | deletePoints | deleteObjects | stageCaptioning _ _ _ | buildChunks
    | ensurePages | clearPages | upsertPages =>
      cases hnext
      simp

/-- Only three commands make progress. -/
theorem next_same {plan : Plan} {pagePass : Bool} {command following : Command}
    (hnext : command.next plan pagePass = some following) (hrows : command ≠ .deleteRows)
    (hpoints : command ≠ .deletePoints) (hupsert : command ≠ .upsertPoints) :
    following.rowsDeleted = command.rowsDeleted ∧
      following.pointsCleared = command.pointsCleared ∧
      following.pointsUpserted = command.pointsUpserted := by
  obtain ⟨hdeleted, hcleared, hupserted⟩ := next_progress hnext
  rw [hdeleted, hcleared, hupserted]
  simp [hrows, hpoints, hupsert]

theorem ne_of_isStage {command : Command} (hstage : command.isStage = true) :
    command ≠ .deleteRows ∧ command ≠ .deletePoints ∧ command ≠ .upsertPoints := by
  refine ⟨?_, ?_, ?_⟩
  · rintro rfl
    cases hstage
  · rintro rfl
    cases hstage
  · rintro rfl
    cases hstage

theorem pointsCleared_of_ne {command : Command} (hne : command ≠ .deletePoints) :
    command.pointsCleared = command.rowsDeleted := by
  cases command with
  | deletePoints => exact absurd rfl hne
  | _ => rfl

/-- The page pass comes after everything else but the final commit. -/
theorem done_of_inPagePass {command : Command} (hpages : command.inPagePass = true) :
    command.rowsDeleted = true ∧ command.pointsCleared = true ∧
      command.pointsUpserted = true := by
  cases command with
  | ensurePages | clearPages | renderPages | putPage _ _ | upsertPages =>
      exact ⟨rfl, rfl, rfl⟩
  | _ => cases hpages

theorem next_eq_none {plan : Plan} {pagePass : Bool} {command : Command} :
    command.next plan pagePass = none ↔ command = .commit := by
  cases command <;> simp [next]

end Command

section Execute

variable {run : Run} {document : Document} {stores after : Stores}
variable {session : Session} {command : Command}

/-- The commands that change neither the rows nor the points nor the session. -/
structure Neutral (run : Run) (stores after : Stores) (session : Session) : Prop where
  documents : after.documents = stores.documents
  chunks : after.chunks = stores.chunks
  ragPoints : after.ragPoints = stores.ragPoints
  session : session = run.session

/-- A stage callback commits the session, or has no job to update. -/
theorem stage_cases (run : Run) (stores : Stores) (status : IngestStatus) :
    ((run.stage status stores).1.documents = stores.documents ∧
      (run.stage status stores).1.chunks = (stores.commitDeletes run.session).chunks ∧
      (run.stage status stores).1.ragPoints = stores.ragPoints ∧
      (run.stage status stores).2 = []) ∨
    run.stage status stores = (stores, run.session) := by
  unfold Run.stage
  cases run.jobId with
  | none => exact Or.inr rfl
  | some jobId =>
      cases hjob : stores.jobs jobId with
      | none => exact Or.inr (by simp only [hjob])
      | some job =>
          left
          simp only [hjob]
          exact ⟨rfl, rfl, rfl, trivial⟩

/-- Everything a successful command can do to rows, points and session. -/
theorem execute_cases
    (hexecute : run.execute document stores command = some (after, session)) :
    (command = .deleteRows ∧ after = stores ∧
      session = run.session ++ stores.chunksOf run.documentId) ∨
    (command = .deletePoints ∧ after = stores.deleteRagPoints run.documentId ∧
      session = run.session) ∨
    (command = .upsertPoints ∧
      after = stores.upsertRagPoints (run.ragPoints document) ∧
      session = run.session) ∨
    (command = .commit ∧ (∃ row, stores.documents run.documentId = some row ∧
      after = ((stores.commitDeletes run.session).insertChunks
        (run.chunkRows document)).setDocument run.documentId
          { row with status := .indexed, pageCount := some run.plan.pageCount }) ∧
      session = []) ∨
    (command.isStage = true ∧ after.documents = stores.documents ∧
      after.chunks = (stores.commitDeletes run.session).chunks ∧
      after.ragPoints = stores.ragPoints ∧ session = []) ∨
    (command ≠ .deleteRows ∧ command ≠ .deletePoints ∧ command ≠ .upsertPoints ∧
      command ≠ .commit ∧ Neutral run stores after session) := by
  have hstage : ∀ status, some (run.stage status stores) = some (after, session) →
      (after.documents = stores.documents ∧
        after.chunks = (stores.commitDeletes run.session).chunks ∧
        after.ragPoints = stores.ragPoints ∧ session = []) ∨
      Neutral run stores after session := by
    intro status heq
    rcases stage_cases run stores status with hcommit | hnone
    · rw [Option.some.inj heq] at hcommit
      exact Or.inl hcommit
    · rw [hnone] at heq
      cases heq
      exact Or.inr ⟨rfl, rfl, rfl, rfl⟩
  cases command with
  | stageParsing | stageCaptioning _ _ _ | stageIndexing =>
      rcases hstage _ hexecute with hcommit | hneutral
      · exact Or.inr (Or.inr (Or.inr (Or.inr (Or.inl ⟨rfl, hcommit⟩))))
      · exact Or.inr (Or.inr (Or.inr (Or.inr (Or.inr
          ⟨nofun, nofun, nofun, nofun, hneutral⟩))))
  | deleteRows =>
      cases hexecute
      exact Or.inl ⟨rfl, rfl, rfl⟩
  | deletePoints =>
      cases hexecute
      exact Or.inr (Or.inl ⟨rfl, rfl, rfl⟩)
  | upsertPoints =>
      cases hexecute
      exact Or.inr (Or.inr (Or.inl ⟨rfl, rfl, rfl⟩))
  | commit =>
      simp only [Run.execute] at hexecute
      split at hexecute
      · cases hexecute
      · rename_i row hrow
        cases hexecute
        exact Or.inr (Or.inr (Or.inr (Or.inl ⟨rfl, ⟨row, hrow, rfl⟩, rfl⟩)))
  | readDocument =>
      simp only [Run.execute] at hexecute
      split_ifs at hexecute
      cases hexecute
      exact Or.inr (Or.inr (Or.inr (Or.inr (Or.inr
        ⟨nofun, nofun, nofun, nofun, rfl, rfl, rfl, rfl⟩))))
  | ensureBuckets | ensureCollection | deleteObjects | parse | putFigure _ _ _
    | buildChunks | embed _ | ensurePages | clearPages | renderPages | putPage _ _
    | upsertPages =>
      cases hexecute
      exact Or.inr (Or.inr (Or.inr (Or.inr (Or.inr
        ⟨nofun, nofun, nofun, nofun, rfl, rfl, rfl, rfl⟩))))

/-- The page pass writes pages and their images only. -/
theorem execute_inPagePass
    (hexecute : run.execute document stores command = some (after, session))
    (hpages : command.inPagePass = true) : Neutral run stores after session := by
  cases command with
  | ensurePages | clearPages | renderPages | putPage _ _ | upsertPages =>
      cases hexecute
      exact ⟨rfl, rfl, rfl, rfl⟩
  | _ => cases hpages

end Execute

/-- Marking the document writes its row or nothing. -/
theorem markProcessing_cases {run : Run} {document : Document} {stores after : Stores}
    (hmark : run.markProcessing document stores = some after) :
    after = stores ∨ ∃ row, after = stores.setDocument run.documentId row := by
  unfold Run.markProcessing at hmark
  split_ifs at hmark
  · cases hmark
    exact Or.inl rfl
  · obtain ⟨row, _, rfl⟩ := Option.map_eq_some_iff.mp hmark
    exact Or.inr ⟨_, rfl⟩

theorem markFailed_cases (run : Run) (message : String) (stores : Stores) :
    run.markFailed message stores = stores ∨
      ∃ row, run.markFailed message stores = stores.setDocument run.documentId row := by
  unfold Run.markFailed
  split
  · exact Or.inl rfl
  · exact Or.inr ⟨_, rfl⟩

theorem markProcessing_kept {run : Run} {document : Document} {stores after : Stores}
    (hmark : run.markProcessing document stores = some after) :
    after.chunks = stores.chunks ∧ after.ragPoints = stores.ragPoints := by
  rcases markProcessing_cases hmark with rfl | ⟨row, rfl⟩
  · exact ⟨rfl, rfl⟩
  · exact ⟨rfl, rfl⟩

theorem markFailed_kept (run : Run) (message : String) (stores : Stores) :
    (run.markFailed message stores).chunks = stores.chunks ∧
      (run.markFailed message stores).ragPoints = stores.ragPoints := by
  rcases markFailed_cases run message stores with hsame | ⟨row, hwritten⟩
  · rw [hsame]
    exact ⟨rfl, rfl⟩
  · rw [hwritten]
    exact ⟨rfl, rfl⟩

/-! ## What a step does -/

/-- The moves of a run between its phases. -/
inductive Move (settings : Settings) (stores : Stores) (run : Run) :
    Outcome → Stores → Phase → Session → Prop where
  | load {document : Document} (hphase : run.phase = .loading)
      (hrow : stores.documents run.documentId = some document) :
      Move settings stores run .ok stores (.marking document) run.session
  | mark {document : Document} {after : Stores}
      (hphase : run.phase = .marking document)
      (hmark : run.markProcessing document stores = some after) :
      Move settings stores run .ok after (.running document .stageParsing) run.session
  | abort {outcome : Outcome} (message : String)
      (hphase : run.phase = .loading ∨ ∃ document, run.phase = .marking document) :
      Move settings stores run outcome stores (.raised message) run.session
  | markLate {document : Document} {after : Stores} (message : String)
      (hphase : run.phase = .marking document)
      (hmark : run.markProcessing document stores = some after) :
      Move settings stores run (.late message) after (.raised message) run.session
  | proceed {document : Document} {command following : Command} {after : Stores}
      {session : Session} (hphase : run.phase = .running document command)
      (hexecute : run.execute document stores command = some (after, session))
      (hnext : command.next run.plan (pagePass settings document) = some following) :
      Move settings stores run .ok after (.running document following) session
  | finish {document : Document} {after : Stores} {session : Session}
      (hphase : run.phase = .running document .commit)
      (hexecute : run.execute document stores .commit = some (after, session)) :
      Move settings stores run .ok after (.returned run.plan.chunks.length) session
  | skipPages {document : Document} {command : Command} {message : String}
      (hphase : run.phase = .running document command)
      (hpages : command.inPagePass = true) :
      Move settings stores run (.raise message) stores (.running document .commit)
        run.session
  | fail {document : Document} {command : Command} {message : String}
      (hphase : run.phase = .running document command)
      (hpages : command.inPagePass = false) :
      Move settings stores run (.raise message) stores (.handling message) []
  | skipPagesLate {document : Document} {command : Command} {message : String}
      {after : Stores} {session : Session} (hphase : run.phase = .running document command)
      (hexecute : run.execute document stores command = some (after, session))
      (hpages : command.inPagePass = true) :
      Move settings stores run (.late message) after (.running document .commit) session
  | failLate {document : Document} {command : Command} {message : String}
      {after : Stores} {session : Session} (hphase : run.phase = .running document command)
      (hexecute : run.execute document stores command = some (after, session))
      (hpages : command.inPagePass = false) :
      Move settings stores run (.late message) after (.handling message) []
  | handle {outcome : Outcome} {message reported : String}
      (hphase : run.phase = .handling message) (heffect : outcome.takesEffect = true) :
      Move settings stores run outcome (run.markFailed message stores) (.raised reported)
        run.session
  | giveUp {message : String} (failure : String)
      (hphase : run.phase = .handling message) :
      Move settings stores run (.raise failure) stores (.raised failure) run.session

/-- A finished run does not move. -/
theorem Move.not_finished {settings : Settings} {stores after : Stores} {run : Run}
    {outcome : Outcome} {phase : Phase} {session : Session}
    (hmove : Move settings stores run outcome after phase session) :
    ¬ run.Finished := by
  cases hmove with
  | abort message hphase =>
      rcases hphase with hload | ⟨_, hmark⟩
      · simp [Run.Finished, hload]
      · simp [Run.Finished, hmark]
  | load hphase | mark hphase | markLate _ hphase | proceed hphase | finish hphase
    | skipPages hphase | fail hphase | skipPagesLate hphase | failLate hphase
    | handle hphase | giveUp _ hphase =>
      simp [Run.Finished, hphase]

/-- Everything a step can do. -/
theorem indexStep_cases {settings : Settings} {stores after : Stores}
    {run following : Run} {outcome : Outcome}
    (hstep : indexStep settings (stores, run) outcome = some (after, following)) :
    ∃ phase session, following = { run with phase := phase, session := session } ∧
      Move settings stores run outcome after phase session := by
  cases hphase : run.phase with
  | loading =>
      cases outcome with
      | ok =>
          cases hrow : stores.documents run.documentId with
          | none =>
              simp only [indexStep, hphase, hrow, Option.some.injEq,
                Prod.mk.injEq] at hstep
              obtain ⟨rfl, rfl⟩ := hstep
              exact ⟨_, _, rfl, .abort _ (Or.inl hphase)⟩
          | some document =>
              simp only [indexStep, hphase, hrow, Option.some.injEq,
                Prod.mk.injEq] at hstep
              obtain ⟨rfl, rfl⟩ := hstep
              exact ⟨_, _, rfl, .load hphase hrow⟩
      | raise message | late message =>
          simp only [indexStep, hphase, Option.some.injEq, Prod.mk.injEq] at hstep
          obtain ⟨rfl, rfl⟩ := hstep
          exact ⟨_, _, rfl, .abort _ (Or.inl hphase)⟩
  | marking document =>
      cases outcome with
      | ok =>
          cases hmark : run.markProcessing document stores with
          | none => simp [indexStep, hphase, hmark] at hstep
          | some marked =>
              simp only [indexStep, hphase, hmark, Option.some.injEq,
                Prod.mk.injEq] at hstep
              obtain ⟨rfl, rfl⟩ := hstep
              exact ⟨_, _, rfl, .mark hphase hmark⟩
      | raise message =>
          simp only [indexStep, hphase, Option.some.injEq, Prod.mk.injEq] at hstep
          obtain ⟨rfl, rfl⟩ := hstep
          exact ⟨_, _, rfl, .abort _ (Or.inr ⟨document, hphase⟩)⟩
      | late message =>
          cases hmark : run.markProcessing document stores with
          | none => simp [indexStep, hphase, hmark] at hstep
          | some marked =>
              simp only [indexStep, hphase, hmark, Option.some.injEq,
                Prod.mk.injEq] at hstep
              obtain ⟨rfl, rfl⟩ := hstep
              exact ⟨_, _, rfl, .markLate message hphase hmark⟩
  | running document command =>
      cases outcome with
      | ok =>
          cases hexecute : run.execute document stores command with
          | none => simp [indexStep, hphase, hexecute] at hstep
          | some result =>
              obtain ⟨middle, session⟩ := result
              cases hnext : command.next run.plan (pagePass settings document) with
              | none =>
                  simp only [indexStep, hphase, hexecute, hnext, Option.some.injEq,
                    Prod.mk.injEq] at hstep
                  obtain ⟨rfl, rfl⟩ := hstep
                  obtain rfl := Command.next_eq_none.mp hnext
                  exact ⟨_, _, rfl, .finish hphase hexecute⟩
              | some next =>
                  simp only [indexStep, hphase, hexecute, hnext, Option.some.injEq,
                    Prod.mk.injEq] at hstep
                  obtain ⟨rfl, rfl⟩ := hstep
                  exact ⟨_, _, rfl, .proceed hphase hexecute hnext⟩
      | raise message =>
          cases hpages : command.inPagePass with
          | true =>
              simp only [indexStep, hphase, hpages, if_true, Option.some.injEq,
                Prod.mk.injEq] at hstep
              obtain ⟨rfl, rfl⟩ := hstep
              exact ⟨_, _, rfl, .skipPages hphase hpages⟩
          | false =>
              simp only [indexStep, hphase, hpages, Bool.false_eq_true, if_false,
                Option.some.injEq, Prod.mk.injEq] at hstep
              obtain ⟨rfl, rfl⟩ := hstep
              exact ⟨_, _, rfl, .fail hphase hpages⟩
      | late message =>
          cases hexecute : run.execute document stores command with
          | none => simp [indexStep, hphase, hexecute] at hstep
          | some result =>
              obtain ⟨middle, session⟩ := result
              cases hpages : command.inPagePass with
              | true =>
                  simp only [indexStep, hphase, hexecute, hpages, if_true, Option.some.injEq,
                    Prod.mk.injEq] at hstep
                  obtain ⟨rfl, rfl⟩ := hstep
                  exact ⟨_, _, rfl, .skipPagesLate hphase hexecute hpages⟩
              | false =>
                  simp only [indexStep, hphase, hexecute, hpages, Bool.false_eq_true, if_false,
                    Option.some.injEq, Prod.mk.injEq] at hstep
                  obtain ⟨rfl, rfl⟩ := hstep
                  exact ⟨_, _, rfl, .failLate hphase hexecute hpages⟩
  | handling message =>
      cases outcome with
      | ok | late failure =>
          simp only [indexStep, hphase, Option.some.injEq, Prod.mk.injEq] at hstep
          obtain ⟨rfl, rfl⟩ := hstep
          exact ⟨_, _, rfl, .handle hphase rfl⟩
      | raise failure =>
          simp only [indexStep, hphase, Option.some.injEq, Prod.mk.injEq] at hstep
          obtain ⟨rfl, rfl⟩ := hstep
          exact ⟨_, _, rfl, .giveUp failure hphase⟩
  | returned count => simp [indexStep, hphase] at hstep
  | raised message => simp [indexStep, hphase] at hstep

end AgenticRag.Ingestion
