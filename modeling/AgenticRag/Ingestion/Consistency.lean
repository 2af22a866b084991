import AgenticRag.Ingestion.Indexer

/-!
# Rows and points after one run of the indexer

A run that is not disturbed keeps the `document_chunks` rows and the
`rag_chunks` points of its document in step unless it fails while the two
stores are apart: behind the Qdrant clear, whose Postgres counterpart the
rollback undoes, or between the Qdrant upsert and the end of the final commit.
A command that raises after its effect counts as done.
-/

namespace AgenticRag.Ingestion

/-- The point ids of a document are its row ids. -/
def Synced (documentId : Uuid) (stores : Stores) : Prop :=
  ∀ id, id ∈ (stores.ragPointsOf documentId).map (·.id) ↔
    id ∈ (stores.chunksOf documentId).map (·.id)

/-- Rows and points of the other documents are the same. -/
def OthersKept (documentId : Uuid) (before after : Stores) : Prop :=
  after.chunks.filter (·.documentId ≠ documentId) =
      before.chunks.filter (·.documentId ≠ documentId) ∧
    after.ragPoints.filter (·.documentId ≠ documentId) =
      before.ragPoints.filter (·.documentId ≠ documentId)

/-- The document is indexed with the returned number of chunks. -/
def IndexedAs (run : Run) (stores : Stores) : Prop :=
  ∀ count, run.phase = .returned count →
    (∃ row, stores.documents run.documentId = some row ∧ row.status = .indexed) ∧
      (stores.chunksOf run.documentId).length = count ∧
      (stores.ragPointsOf run.documentId).length = count

/-- What `index_document` leaves behind. -/
def Consistent (before : Stores) (state : Stores × Run) : Prop :=
  Synced state.2.documentId state.1 ∧ OthersKept state.2.documentId before state.1 ∧
    IndexedAs state.2 state.1

/-- The ids a run draws are new. -/
structure FreshIds (plan : Plan) (stores : Stores) : Prop where
  nodup : (plan.chunks.map Prod.fst).Nodup
  rows : ∀ row ∈ stores.chunks, row.id ∉ plan.chunks.map Prod.fst
  points : ∀ point ∈ stores.ragPoints, point.id ∉ plan.chunks.map Prod.fst

/-- The command is a stage callback of a tracked job, which commits the session. -/
def Run.CommitsSession (run : Run) (stores : Stores) (command : Command) : Prop :=
  command.isStage = true ∧
    ∃ jobId job, run.jobId = some jobId ∧ stores.jobs jobId = some job

/-- A command outside the page pass raises while the stores are apart: the
points are cleared and either the session holds row deletions that the rollback
will undo, or the new points are already written.  A final commit that raises
after its effect has brought them together. -/
def FailsApart (state : Stores × Run) (outcome : Outcome) : Prop :=
  ∃ document command, state.2.phase = .running document command ∧
    command.inPagePass = false ∧
    match outcome with
    | .ok => False
    | .raise _ =>
        command.pointsCleared = true ∧
          (state.2.session ≠ [] ∨
            (command.pointsUpserted = true ∧ state.2.plan.chunks ≠ []))
    | .late _ =>
        command ≠ .commit ∧ (command.pointsCleared = true ∨ command = .deletePoints) ∧
          ((state.2.session ≠ [] ∧ ¬ state.2.CommitsSession state.1 command) ∨
            (command = .upsertPoints ∧ state.2.plan.chunks ≠ []))

section Others

variable {documentId : Uuid} {before middle after : Stores}

theorem OthersKept.refl (stores : Stores) : OthersKept documentId stores stores :=
  ⟨rfl, rfl⟩

theorem OthersKept.trans (hfirst : OthersKept documentId before middle)
    (hsecond : OthersKept documentId middle after) :
    OthersKept documentId before after :=
  ⟨hsecond.1.trans hfirst.1, hsecond.2.trans hfirst.2⟩

theorem OthersKept.of_eq (hchunks : after.chunks = before.chunks)
    (hpoints : after.ragPoints = before.ragPoints) :
    OthersKept documentId before after := by
  constructor
  · rw [hchunks]
  · rw [hpoints]

/-- Committing deletions of the document's own rows. -/
theorem othersKept_commitDeletes {session : Session}
    (hsession : ∀ row ∈ session, row.documentId = documentId) :
    OthersKept documentId before (before.commitDeletes session) := by
  constructor
  · simp only [Stores.commitDeletes, List.filter_filter]
    apply List.filter_congr
    intro row _
    by_cases hrow : row.documentId = documentId
    · simp [hrow]
    · have hnot : row ∉ session := fun hmem => hrow (hsession row hmem)
      simp [hrow, hnot]
  · rfl

theorem othersKept_insertChunks {rows : List DocumentChunk}
    (hrows : ∀ row ∈ rows, row.documentId = documentId) :
    OthersKept documentId before (before.insertChunks rows) := by
  constructor
  · have hnone : rows.filter (·.documentId ≠ documentId) = [] := by
      rw [List.filter_eq_nil_iff]
      intro row hrow
      simpa using hrows row hrow
    simp only [Stores.insertChunks, List.filter_append, hnone, List.append_nil]
  · rfl

theorem othersKept_deleteRagPoints :
    OthersKept documentId before (before.deleteRagPoints documentId) := by
  constructor
  · rfl
  · simp [Stores.deleteRagPoints]

/-- The upserted points replace none of another document. -/
theorem othersKept_upsertRagPoints {points : List RagPoint}
    (hpoints : ∀ point ∈ points, point.documentId = documentId)
    (hfresh : ∀ point ∈ before.ragPoints, point.documentId ≠ documentId →
      point.id ∉ points.map (·.id)) :
    OthersKept documentId before (before.upsertRagPoints points) := by
  constructor
  · rfl
  · have hnone : points.filter (·.documentId ≠ documentId) = [] := by
      rw [List.filter_eq_nil_iff]
      intro point hpoint
      simpa using hpoints point hpoint
    simp only [Stores.upsertRagPoints, List.filter_append, hnone, List.append_nil,
      List.filter_filter]
    apply List.filter_congr
    intro point hpoint
    by_cases hother : point.documentId = documentId
    · simp [hother]
    · have hnew := hfresh point hpoint hother
      simp only [hother, hnew, ne_eq, not_false_eq_true, decide_true, Bool.and_self]

end Others

section OwnRows

variable {run : Run} {document : Document}

theorem mem_chunkRows {row : DocumentChunk} (hrow : row ∈ run.chunkRows document) :
    row.documentId = run.documentId := by
  obtain ⟨chunk, _, rfl⟩ := List.mem_map.mp hrow
  rfl

theorem mem_ragPoints {point : RagPoint} (hpoint : point ∈ run.ragPoints document) :
    point.documentId = run.documentId := by
  obtain ⟨chunk, _, rfl⟩ := List.mem_map.mp hpoint
  rfl

theorem chunkRows_ids : (run.chunkRows document).map (·.id) =
    run.plan.chunks.map Prod.fst := by
  simp [Run.chunkRows, Function.comp_def]

theorem ragPoints_ids : (run.ragPoints document).map (·.id) =
    run.plan.chunks.map Prod.fst := by
  simp [Run.ragPoints, Function.comp_def]

theorem chunkRows_filter : (run.chunkRows document).filter
    (·.documentId = run.documentId) = run.chunkRows document := by
  rw [List.filter_eq_self]
  intro row hrow
  simpa using mem_chunkRows hrow

theorem ragPoints_filter : (run.ragPoints document).filter
    (·.documentId = run.documentId) = run.ragPoints document := by
  rw [List.filter_eq_self]
  intro point hpoint
  simpa using mem_ragPoints hpoint

end OwnRows

/-! ## One run -/

/-- The rows and points of the document before a command of the run. -/
structure Inside (before stores : Stores) (run : Run) (document : Document)
    (command : Command) : Prop where
  rows :
    (command.rowsDeleted = false ∧ stores.chunksOf run.documentId =
        before.chunksOf run.documentId ∧ run.session = []) ∨
    (command.rowsDeleted = true ∧ stores.chunksOf run.documentId =
        before.chunksOf run.documentId ∧
      run.session = before.chunksOf run.documentId) ∨
    (command.pointsCleared = true ∧ stores.chunksOf run.documentId = [] ∧
      run.session = [])
  points : stores.ragPointsOf run.documentId =
    if command.pointsUpserted then run.ragPoints document
    else if command.pointsCleared then []
    else before.ragPointsOf run.documentId

section Preservation

variable {before stores after : Stores} {run : Run} {document : Document}
variable {command following : Command} {session : Session}

theorem Command.rowsDeleted_of_pointsCleared
    (hcleared : command.pointsCleared = true) : command.rowsDeleted = true := by
  cases command <;> simp_all [Command.pointsCleared, Command.rowsDeleted]

theorem Command.pointsCleared_of_pointsUpserted
    (hupserted : command.pointsUpserted = true) : command.pointsCleared = true := by
  cases command <;>
    simp_all [Command.pointsCleared, Command.rowsDeleted, Command.pointsUpserted,
      Command.inPagePass]

/-- The session holds rows of the document only. -/
theorem Inside.session_own (hinside : Inside before stores run document command) :
    ∀ row ∈ run.session, row.documentId = run.documentId := by
  intro row hrow
  rcases hinside.rows with ⟨_, _, hsession⟩ | ⟨_, _, hsession⟩ | ⟨_, _, hsession⟩
  · rw [hsession] at hrow
    cases hrow
  · rw [hsession] at hrow
    exact (Stores.mem_chunksOf.mp hrow).2
  · rw [hsession] at hrow
    cases hrow

/-- A commit leaves no old row behind once the row deletion has been sent. -/
theorem Inside.commit_rows (hinside : Inside before stores run document command)
    (hdeleted : command.rowsDeleted = true) :
    (stores.commitDeletes run.session).chunksOf run.documentId = [] := by
  rw [Stores.chunksOf_commitDeletes]
  rcases hinside.rows with ⟨hnot, _, _⟩ | ⟨_, hrows, hsession⟩ | ⟨_, hrows, hsession⟩
  · rw [hdeleted] at hnot
    cases hnot
  · rw [hrows, hsession, List.filter_eq_nil_iff]
    intro row hrow
    simpa using hrow
  · rw [hrows]
    rfl

private theorem chunksOf_congr {left right : Stores} (documentId : Uuid)
    (hchunks : left.chunks = right.chunks) :
    left.chunksOf documentId = right.chunksOf documentId := by
  rw [Stores.chunksOf, Stores.chunksOf, hchunks]

private theorem ragPointsOf_congr {left right : Stores} (documentId : Uuid)
    (hpoints : left.ragPoints = right.ragPoints) :
    left.ragPointsOf documentId = right.ragPointsOf documentId := by
  rw [Stores.ragPointsOf, Stores.ragPointsOf, hpoints]

/-- A successful command that is not the last one. -/
theorem Inside.proceed (hinside : Inside before stores run document command)
    (hexecute : run.execute document stores command = some (after, session))
    {pagePass : Bool} (hnext : command.next run.plan pagePass = some following)
    {phase : Phase} :
    Inside before after { run with phase := phase, session := session } document
      following := by
  obtain ⟨hdeleted, hcleared, hupserted⟩ := Command.next_progress hnext
  rcases execute_cases hexecute with
    ⟨rfl, rfl, rfl⟩ | ⟨rfl, rfl, rfl⟩ | ⟨rfl, rfl, rfl⟩ | ⟨rfl, _⟩ |
    ⟨hstage, _, hchunks, hpoints, rfl⟩ | ⟨hrows, hpoints', hupsert, _, hneutral⟩
  · -- the rows are deleted in the session only
    have hnone : run.session = [] ∧
        after.chunksOf run.documentId = before.chunksOf run.documentId := by
      rcases hinside.rows with ⟨_, hrows, hsession⟩ | ⟨hnot, _⟩ | ⟨hnot, _⟩
      · exact ⟨hsession, hrows⟩
      · cases hnot
      · cases hnot
    constructor
    · refine Or.inr (Or.inl ⟨by simpa using hdeleted, hnone.2, ?_⟩)
      rw [hnone.1, hnone.2]
      rfl
    · rw [hcleared, hupserted]
      exact hinside.points
  · -- the points go, the rows are still there
    constructor
    · right
      left
      rcases hinside.rows with ⟨hnot, _⟩ | ⟨_, hrows, hsession⟩ | ⟨hnot, _⟩
      · cases hnot
      · exact ⟨by rw [hdeleted]; rfl, hrows, hsession⟩
      · cases hnot
    · rw [hcleared, hupserted]
      exact Stores.ragPointsOf_deleteRagPoints
  · constructor
    · rcases hinside.rows with ⟨hnot, _⟩ | ⟨_, hrows⟩ | ⟨_, hrows⟩
      · cases hnot
      · exact Or.inr (Or.inl ⟨by rw [hdeleted]; rfl, hrows⟩)
      · exact Or.inr (Or.inr ⟨by rw [hcleared]; rfl, hrows⟩)
    · have hempty : stores.ragPointsOf run.documentId = [] := hinside.points
      rw [hupserted]
      simp only [Command.pointsUpserted, Command.inPagePass, decide_true,
        Bool.or_true, if_true]
      rw [Stores.ragPointsOf_upsertRagPoints, hempty, ragPoints_filter]
      rfl
  · cases hnext
  · -- a stage callback commits the session
    have hpoints' : after.ragPointsOf run.documentId =
        stores.ragPointsOf run.documentId := ragPointsOf_congr _ hpoints
    obtain ⟨hrows, hpoints'', hupsert⟩ := Command.ne_of_isStage hstage
    have hsame := Command.next_same hnext hrows hpoints'' hupsert
    constructor
    · have hcommitted : after.chunksOf run.documentId =
          (stores.commitDeletes run.session).chunksOf run.documentId :=
        chunksOf_congr _ hchunks
      by_cases hcommand : command.rowsDeleted = true
      · refine Or.inr (Or.inr ⟨?_, ?_, rfl⟩)
        · rw [hsame.2.1]
          rwa [Command.pointsCleared_of_ne hpoints'']
        · rw [hcommitted]
          exact hinside.commit_rows hcommand
      · left
        rcases hinside.rows with ⟨hno, hrows, hsession⟩ | ⟨hyes, _⟩ | ⟨hyes, _⟩
        · refine ⟨by rw [hsame.1, hno], ?_, rfl⟩
          rw [hcommitted, hsession, ← hrows, Stores.chunksOf_commitDeletes]
          simp
        · exact absurd hyes hcommand
        · exact absurd (Command.rowsDeleted_of_pointsCleared hyes) hcommand
    · rw [hpoints', hsame.2.1, hsame.2.2]
      exact hinside.points
  · have hrows' := chunksOf_congr run.documentId hneutral.chunks
    have hpoints'' := ragPointsOf_congr run.documentId hneutral.ragPoints
    have hsame := Command.next_same hnext hrows hpoints' hupsert
    constructor
    · rw [hsame.1, hsame.2.1, hrows', hneutral.session]
      exact hinside.rows
    · rw [hsame.2.1, hsame.2.2, hpoints'']
      exact hinside.points

/-- What the session holds after a command other than the row deletion. -/
theorem execute_session (hexecute : run.execute document stores command = some (after, session))
    (hrows : command ≠ .deleteRows) (hcommit : command ≠ .commit) :
    session ≠ [] ↔ run.session ≠ [] ∧ ¬ run.CommitsSession stores command := by
  have hstaged : ∀ status, command.isStage = true →
      some (run.stage status stores) = some (after, session) →
      (session ≠ [] ↔ run.session ≠ [] ∧ ¬ run.CommitsSession stores command) := by
    intro status hstage heq
    unfold Run.stage at heq
    cases hown : run.jobId with
    | none =>
        simp only [hown] at heq
        cases heq
        simp [Run.CommitsSession, hown]
    | some jobId =>
        simp only [hown] at heq
        cases hjob : stores.jobs jobId with
        | none =>
            simp only [hjob] at heq
            cases heq
            simp [Run.CommitsSession, hown, hjob]
        | some job =>
            simp only [hjob] at heq
            cases heq
            simp [Run.CommitsSession, hown, hjob, hstage]
  cases command with
  | deleteRows => exact absurd rfl hrows
  | commit => exact absurd rfl hcommit
  | stageParsing => exact hstaged .parsing rfl hexecute
  | stageCaptioning _ _ _ => exact hstaged .captioning rfl hexecute
  | stageIndexing => exact hstaged .indexing rfl hexecute
  | readDocument =>
      simp only [Run.execute] at hexecute
      split_ifs at hexecute
      cases hexecute
      simp [Run.CommitsSession, Command.isStage]
  | ensureBuckets | ensureCollection | deletePoints | deleteObjects | parse
    | putFigure _ _ _ | buildChunks | embed _ | upsertPoints | ensurePages | clearPages
    | renderPages | putPage _ _ | upsertPages =>
      cases hexecute
      simp [Run.CommitsSession, Command.isStage]

theorem execute_othersKept (hfresh : FreshIds run.plan before)
    (hothers : OthersKept run.documentId before stores)
    (hsession : ∀ row ∈ run.session, row.documentId = run.documentId)
    (hexecute : run.execute document stores command = some (after, session)) :
    OthersKept run.documentId before after := by
  apply hothers.trans
  rcases execute_cases hexecute with
    ⟨_, rfl, _⟩ | ⟨_, rfl, _⟩ | ⟨_, rfl, _⟩ | ⟨_, ⟨row, _, rfl⟩, _⟩ |
    ⟨_, _, hchunks, hpoints, _⟩ | ⟨_, _, _, _, hneutral⟩
  · exact OthersKept.refl _
  · exact othersKept_deleteRagPoints
  · apply othersKept_upsertRagPoints (fun point => mem_ragPoints)
    intro point hpoint hother
    rw [ragPoints_ids]
    apply hfresh.points
    have hmem : point ∈ stores.ragPoints.filter (·.documentId ≠ run.documentId) :=
      List.mem_filter.mpr ⟨hpoint, by simpa using hother⟩
    rw [hothers.2] at hmem
    exact (List.mem_filter.mp hmem).1
  · apply (othersKept_commitDeletes hsession).trans
    apply (othersKept_insertChunks fun row => mem_chunkRows).trans
    exact OthersKept.of_eq rfl rfl
  · apply (othersKept_commitDeletes hsession).trans
    exact OthersKept.of_eq hchunks hpoints
  · exact OthersKept.of_eq hneutral.chunks hneutral.ragPoints

/-- The final commit brings rows and points together. -/
theorem Inside.finish (hinside : Inside before stores run document .commit)
    (hexecute : run.execute document stores .commit = some (after, session)) :
    after.chunksOf run.documentId = run.chunkRows document ∧
      after.ragPointsOf run.documentId = run.ragPoints document ∧
      ∃ row, after.documents run.documentId = some row ∧ row.status = .indexed := by
  rcases execute_cases hexecute with
    ⟨habsurd, _⟩ | ⟨habsurd, _⟩ | ⟨habsurd, _⟩ | ⟨_, ⟨row, _, rfl⟩, _⟩ |
    ⟨habsurd, _⟩ | ⟨_, _, _, habsurd, _⟩
  · cases habsurd
  · cases habsurd
  · cases habsurd
  · refine ⟨?_, hinside.points, ?_⟩
    · have hempty : (stores.commitDeletes run.session).chunksOf run.documentId = [] :=
        hinside.commit_rows rfl
      calc
        (((stores.commitDeletes run.session).insertChunks
            (run.chunkRows document)).setDocument run.documentId
              { row with
                status := .indexed
                pageCount := some run.plan.pageCount }).chunksOf run.documentId =
            ((stores.commitDeletes run.session).insertChunks
              (run.chunkRows document)).chunksOf run.documentId := rfl
        _ = (stores.commitDeletes run.session).chunksOf run.documentId ++
              (run.chunkRows document).filter
                (·.documentId = run.documentId) :=
            Stores.chunksOf_insertChunks _
        _ = run.chunkRows document := by
            rw [hempty, chunkRows_filter, List.nil_append]
    · exact ⟨_, Function.update_self _ _ _, rfl⟩
  · cases habsurd
  · exact absurd rfl habsurd

/-- A failed page pass goes on with the final commit. -/
theorem Inside.skipPages (hinside : Inside before stores run document command)
    (hpages : command.inPagePass = true) {phase : Phase} :
    Inside before stores { run with phase := phase } document .commit := by
  have hdone := Command.done_of_inPagePass hpages
  constructor
  · have hrows := hinside.rows
    rw [hdone.1, hdone.2.1] at hrows
    exact hrows
  · have hpoints := hinside.points
    rw [hdone.2.1, hdone.2.2] at hpoints
    exact hpoints

/-- So does one that has taken effect before it raised. -/
theorem Inside.skipPagesLate (hinside : Inside before stores run document command)
    (hpages : command.inPagePass = true)
    (hexecute : run.execute document stores command = some (after, session)) {phase : Phase} :
    Inside before after { run with phase := phase, session := session } document .commit := by
  have hneutral := execute_inPagePass hexecute hpages
  obtain ⟨hrows, hpoints⟩ : Inside before stores { run with phase := phase } document
      .commit := hinside.skipPages hpages
  constructor
  · rw [chunksOf_congr run.documentId hneutral.chunks, hneutral.session]
    exact hrows
  · rw [ragPointsOf_congr run.documentId hneutral.ragPoints]
    exact hpoints

/-- When a command raises, rows and points agree unless the stores are apart. -/
theorem Inside.synced_iff (hsynced : Synced run.documentId before)
    (hfresh : FreshIds run.plan before)
    (hinside : Inside before stores run document command) :
    Synced run.documentId stores ↔
      ¬ (command.pointsCleared = true ∧ (run.session ≠ [] ∨
        (command.pointsUpserted = true ∧ run.plan.chunks ≠ []))) := by
  by_cases hcleared : command.pointsCleared = true
  · have hrows : (stores.chunksOf run.documentId = before.chunksOf run.documentId ∧
        run.session = before.chunksOf run.documentId) ∨
        (stores.chunksOf run.documentId = [] ∧ run.session = []) := by
      rcases hinside.rows with ⟨hnot, _⟩ | ⟨_, hrows⟩ | ⟨_, hrows⟩
      · rw [Command.rowsDeleted_of_pointsCleared hcleared] at hnot
        cases hnot
      · exact Or.inl hrows
      · exact Or.inr hrows
    have hsame : stores.chunksOf run.documentId = run.session := by
      rcases hrows with ⟨hleft, hright⟩ | ⟨hleft, hright⟩ <;> rw [hleft, hright]
    have hold : ∀ row ∈ stores.chunksOf run.documentId,
        row.id ∉ run.plan.chunks.map Prod.fst := by
      intro row hrow
      apply hfresh.rows
      rcases hrows with ⟨hleft, _⟩ | ⟨hleft, _⟩
      · rw [hleft] at hrow
        exact (Stores.mem_chunksOf.mp hrow).1
      · rw [hleft] at hrow
        cases hrow
    have hpoints := hinside.points
    rw [hcleared] at hpoints
    simp only [if_true] at hpoints
    by_cases hwritten : command.pointsUpserted = true ∧ run.plan.chunks ≠ []
    · -- the new points have no rows
      refine iff_of_false ?_ (fun hno => hno ⟨hcleared, Or.inr hwritten⟩)
      intro hsync
      rw [if_pos hwritten.1] at hpoints
      obtain ⟨chunk, hchunk⟩ := List.exists_mem_of_ne_nil _ hwritten.2
      have hid : chunk.1 ∈ (stores.ragPointsOf run.documentId).map (·.id) := by
        rw [hpoints, ragPoints_ids]
        exact List.mem_map_of_mem hchunk
      obtain ⟨row, hrow, heq⟩ := List.mem_map.mp ((hsync chunk.1).mp hid)
      apply hold row hrow
      rw [heq]
      exact List.mem_map_of_mem hchunk
    · have hnone : stores.ragPointsOf run.documentId = [] := by
        rw [hpoints]
        split_ifs with hupserted
        · have hnil : run.plan.chunks = [] := by
            by_contra hne
            exact hwritten ⟨hupserted, hne⟩
          simp [Run.ragPoints, hnil]
        · rfl
      constructor
      · rintro hsync ⟨_, hne | habsurd⟩
        · apply hne
          rw [← hsame]
          apply List.eq_nil_iff_forall_not_mem.mpr
          intro row hrow
          have hid := (hsync row.id).mpr (List.mem_map_of_mem hrow)
          rw [hnone] at hid
          cases hid
        · exact hwritten habsurd
      · intro hno id
        have hsession : run.session = [] := by
          by_contra hne
          exact hno ⟨hcleared, Or.inl hne⟩
        rw [hnone, hsame, hsession]
        rfl
  · -- both stores are still as they were
    have hrows : stores.chunksOf run.documentId =
        before.chunksOf run.documentId := by
      rcases hinside.rows with ⟨_, hrows, _⟩ | ⟨_, hrows, _⟩ | ⟨habsurd, _⟩
      · exact hrows
      · exact hrows
      · exact absurd habsurd hcleared
    have hpoints : stores.ragPointsOf run.documentId =
        before.ragPointsOf run.documentId := by
      have hnot : ¬ command.pointsUpserted = true :=
        fun hyes => hcleared (Command.pointsCleared_of_pointsUpserted hyes)
      have heq := hinside.points
      rwa [if_neg hnot, if_neg hcleared] at heq
    refine iff_of_true ?_ (fun hno => hcleared hno.1)
    intro id
    rw [hrows, hpoints]
    exact hsynced id

end Preservation

/-! ## Whole runs -/

section Runs

variable {settings : Settings} {before : Stores} {run : Run}

/-- Some step of the run failed while the stores were apart. -/
def FailedApart (settings : Settings) (start : Stores × Run)
    (outcomes : List Outcome) : Prop :=
  Transition.Occurs (indexStep settings) start outcomes FailsApart

/-- Where the stores stand in each phase, given whether the run failed apart. -/
def InPhase (before : Stores) (failed : Prop) (state : Stores × Run) : Prop :=
  match state.2.phase with
  | .loading | .marking _ =>
      ¬ failed ∧ state.1.chunksOf state.2.documentId =
          before.chunksOf state.2.documentId ∧
        state.1.ragPointsOf state.2.documentId =
          before.ragPointsOf state.2.documentId ∧
        state.2.session = []
  | .running document command =>
      ¬ failed ∧ Inside before state.1 state.2 document command
  | .handling _ | .raised _ => Synced state.2.documentId state.1 ↔ ¬ failed
  | .returned _ =>
      ¬ failed ∧ Synced state.2.documentId state.1 ∧ IndexedAs state.2 state.1

structure Along (before : Stores) (run : Run) (failed : Prop)
    (state : Stores × Run) : Prop where
  documentId : state.2.documentId = run.documentId
  plan : state.2.plan = run.plan
  others : OthersKept state.2.documentId before state.1
  phase : InPhase before failed state

/-- A failure apart is a raise inside the `try`. -/
private theorem not_failsApart {state : Stores × Run} {outcome : Outcome}
    (hphase : ∀ document command, state.2.phase ≠ .running document command) :
    ¬ FailsApart state outcome := by
  rintro ⟨document, command, habsurd, _⟩
  exact hphase document command habsurd

private theorem not_failsApart_ok {state : Stores × Run} :
    ¬ FailsApart state .ok := by
  rintro ⟨_, _, _, _, habsurd⟩
  exact habsurd

private theorem not_failsApart_inPagePass {state : Stores × Run} {outcome : Outcome}
    {document : Document} {command : Command}
    (hphase : state.2.phase = .running document command)
    (hpages : command.inPagePass = true) : ¬ FailsApart state outcome := by
  rintro ⟨_, _, hrunning, hoff, _⟩
  cases hphase.symm.trans hrunning
  cases hpages.symm.trans hoff

/-- Inside the `try`, whether a raise leaves the stores apart is a matter of the
command it hits. -/
private theorem failsApart_raise_iff {state : Stores × Run} {message : String}
    {document : Document} {command : Command}
    (hphase : state.2.phase = .running document command)
    (hpages : command.inPagePass = false) :
    FailsApart state (.raise message) ↔
      command.pointsCleared = true ∧ (state.2.session ≠ [] ∨
        (command.pointsUpserted = true ∧ state.2.plan.chunks ≠ [])) := by
  constructor
  · rintro ⟨_, _, hrunning, _, hapart⟩
    cases hphase.symm.trans hrunning
    exact hapart
  · intro hapart
    exact ⟨document, command, hphase, hpages, hapart⟩

/-- A raise behind the effect of a command is one at the command after it. -/
private theorem failsApart_late_iff {stores after : Stores} {current : Run}
    {message : String} {document : Document} {command following : Command}
    {session : Session} {pagePass : Bool}
    (hphase : current.phase = .running document command)
    (hpages : command.inPagePass = false)
    (hexecute : current.execute document stores command = some (after, session))
    (hnext : command.next current.plan pagePass = some following) :
    FailsApart (stores, current) (.late message) ↔
      following.pointsCleared = true ∧ (session ≠ [] ∨
        (following.pointsUpserted = true ∧ current.plan.chunks ≠ [])) := by
  obtain ⟨_, hcleared, hupserted⟩ := Command.next_progress hnext
  have hcommit : command ≠ .commit := by
    rintro rfl
    cases hnext
  have hnot : command.pointsUpserted = false := by
    cases command with
    | commit => exact absurd rfl hcommit
    | _ => exact hpages
  have hdone : following.pointsUpserted = true ↔ command = .upsertPoints := by
    simp [hupserted, hnot]
  have hgone : following.pointsCleared = true ↔
      command.pointsCleared = true ∨ command = .deletePoints := by
    simp [hcleared]
  have hsession : (command.pointsCleared = true ∨ command = .deletePoints) →
      (session ≠ [] ↔ current.session ≠ [] ∧ ¬ current.CommitsSession stores command) := by
    intro hreached
    apply execute_session hexecute ?_ hcommit
    rintro rfl
    rcases hreached with habsurd | habsurd <;> cases habsurd
  rw [hgone, hdone]
  constructor
  · rintro ⟨_, _, hrunning, _, _, hreached, hapart⟩
    cases hphase.symm.trans hrunning
    rw [hsession hreached]
    exact ⟨hreached, hapart⟩
  · rintro ⟨hreached, hapart⟩
    rw [hsession hreached] at hapart
    exact ⟨document, command, hphase, hpages, hcommit, hreached, hapart⟩

private theorem not_failsApart_committed {state : Stores × Run} {message : String}
    {document : Document} (hphase : state.2.phase = .running document .commit) :
    ¬ FailsApart state (.late message) := by
  rintro ⟨_, _, hrunning, _, hcommit, _⟩
  cases hphase.symm.trans hrunning
  exact hcommit rfl

private theorem synced_congr {left right : Stores} (documentId : Uuid)
    (hchunks : left.chunks = right.chunks)
    (hpoints : left.ragPoints = right.ragPoints) :
    Synced documentId left ↔ Synced documentId right := by
  simp only [Synced, Stores.chunksOf, Stores.ragPointsOf, hchunks, hpoints]

/-- Before the `try` nothing has been done to rows and points. -/
private theorem InPhase.untouched {failed : Prop} {state : Stores × Run}
    (hin : InPhase before failed state)
    (hphase : state.2.phase = .loading ∨ ∃ document, state.2.phase = .marking document) :
    ¬ failed ∧
      state.1.chunksOf state.2.documentId = before.chunksOf state.2.documentId ∧
      state.1.ragPointsOf state.2.documentId = before.ragPointsOf state.2.documentId := by
  cases hphase with
  | inl hload =>
      rw [InPhase, hload] at hin
      exact ⟨hin.1, hin.2.1, hin.2.2.1⟩
  | inr hmark =>
      obtain ⟨_, hmark⟩ := hmark
      rw [InPhase, hmark] at hin
      exact ⟨hin.1, hin.2.1, hin.2.2.1⟩

private theorem not_running {current : Run}
    (hphase : current.phase = .loading ∨ ∃ document, current.phase = .marking document)
    (document : Document) (command : Command) : current.phase ≠ .running document command := by
  intro hrunning
  rw [hrunning] at hphase
  cases hphase with
  | inl hload => cases hload
  | inr hmark =>
      obtain ⟨_, hmark⟩ := hmark
      cases hmark

private theorem not_running_of_handling {current : Run} {message : String}
    (hphase : current.phase = .handling message) (document : Document)
    (command : Command) : current.phase ≠ .running document command := by
  rw [hphase]
  nofun

/-- Rows and points of one plan have the same ids. -/
private theorem synced_of_plan {stores : Stores} {current : Run} {document : Document}
    (hrows : stores.chunksOf current.documentId = current.chunkRows document)
    (hpoints : stores.ragPointsOf current.documentId = current.ragPoints document) :
    Synced current.documentId stores := by
  intro id
  simp only [hrows, hpoints, chunkRows_ids, ragPoints_ids]

theorem step_along {failed : Prop} {state next : Stores × Run} {outcome : Outcome}
    (hsynced : Synced run.documentId before) (hfresh : FreshIds run.plan before)
    (halong : Along before run failed state)
    (hstep : indexStep settings state outcome = some next) :
    Along before run (failed ∨ FailsApart state outcome) next := by
  obtain ⟨stores, current⟩ := state
  obtain ⟨after, following⟩ := next
  obtain ⟨hdocument, hplan, hothers, hphaseInv⟩ := halong
  simp only at hdocument hplan hothers hphaseInv
  rw [← hdocument] at hsynced
  rw [← hplan] at hfresh
  obtain ⟨phase, session, rfl, hmove⟩ := indexStep_cases hstep
  have hquiet : ¬ FailsApart (stores, current) outcome →
      (failed ∨ FailsApart (stores, current) outcome ↔ failed) :=
    fun hnone => or_iff_left hnone
  cases hmove with
  | load hphase hrow =>
      rw [InPhase, hphase] at hphaseInv
      refine ⟨hdocument, hplan, hothers, ?_⟩
      rw [propext (hquiet not_failsApart_ok)]
      exact hphaseInv
  | @mark document _ hphase hmark =>
      rw [InPhase, hphase] at hphaseInv
      obtain ⟨hclear, hrows, hpoints, hsession⟩ := hphaseInv
      obtain ⟨hsameRows, hsamePoints⟩ := markProcessing_kept hmark
      refine ⟨hdocument, hplan, hothers.trans (OthersKept.of_eq hsameRows hsamePoints), ?_⟩
      rw [propext (hquiet not_failsApart_ok)]
      exact ⟨hclear, Or.inl ⟨rfl, (chunksOf_congr _ hsameRows).trans hrows, hsession⟩,
        (ragPointsOf_congr _ hsamePoints).trans hpoints⟩
  | abort message hphase =>
      have hnone : ¬ FailsApart (stores, current) outcome := not_failsApart (not_running hphase)
      obtain ⟨hclear, hrows, hpoints⟩ := InPhase.untouched hphaseInv hphase
      refine ⟨hdocument, hplan, hothers, ?_⟩
      rw [propext (hquiet hnone)]
      refine iff_of_true ?_ hclear
      intro id
      simp only [hrows, hpoints]
      exact hsynced id
  | @markLate document _ message hphase hmark =>
      rw [InPhase, hphase] at hphaseInv
      obtain ⟨hclear, hrows, hpoints, _⟩ := hphaseInv
      obtain ⟨hsameRows, hsamePoints⟩ := markProcessing_kept hmark
      refine ⟨hdocument, hplan, hothers.trans (OthersKept.of_eq hsameRows hsamePoints), ?_⟩
      rw [propext (hquiet (not_failsApart (not_running (Or.inr ⟨document, hphase⟩))))]
      refine iff_of_true ?_ hclear
      intro id
      simp only [chunksOf_congr _ hsameRows, ragPointsOf_congr _ hsamePoints, hrows, hpoints]
      exact hsynced id
  | proceed hphase hexecute hnext =>
      rw [InPhase, hphase] at hphaseInv
      obtain ⟨hclear, hinside⟩ := hphaseInv
      have hkept := execute_othersKept hfresh hothers hinside.session_own hexecute
      refine ⟨hdocument, hplan, hkept, ?_⟩
      · rw [propext (hquiet not_failsApart_ok)]
        exact ⟨hclear, hinside.proceed hexecute hnext⟩
  | finish hphase hexecute =>
      rw [InPhase, hphase] at hphaseInv
      obtain ⟨hclear, hinside⟩ := hphaseInv
      obtain ⟨hrows, hpoints, hindexed⟩ := hinside.finish hexecute
      have hkept := execute_othersKept hfresh hothers hinside.session_own hexecute
      refine ⟨hdocument, hplan, hkept, ?_⟩
      · rw [propext (hquiet not_failsApart_ok)]
        refine ⟨hclear, synced_of_plan hrows hpoints, ?_⟩
        intro count hcount
        cases hcount
        refine ⟨hindexed, ?_, ?_⟩
        · simp only [hrows, Run.chunkRows, List.length_map]
        · simp only [hpoints, Run.ragPoints, List.length_map]
  | @skipPages document command message hphase hpages =>
      rw [InPhase, hphase] at hphaseInv
      obtain ⟨hclear, hinside⟩ := hphaseInv
      refine ⟨hdocument, hplan, hothers, ?_⟩
      rw [propext (hquiet (not_failsApart_inPagePass hphase hpages))]
      exact ⟨hclear, hinside.skipPages hpages⟩
  | @fail document command message hphase hpages =>
      rw [InPhase, hphase] at hphaseInv
      obtain ⟨hclear, hinside⟩ := hphaseInv
      refine ⟨hdocument, hplan, hothers, ?_⟩
      have hapart : FailsApart (stores, current) (.raise message) ↔ _ :=
        failsApart_raise_iff hphase hpages
      rw [propext (or_iff_right hclear), hapart]
      exact hinside.synced_iff hsynced hfresh
  | @skipPagesLate document command message _ _ hphase hexecute hpages =>
      rw [InPhase, hphase] at hphaseInv
      obtain ⟨hclear, hinside⟩ := hphaseInv
      have hkept := execute_othersKept hfresh hothers hinside.session_own hexecute
      refine ⟨hdocument, hplan, hkept, ?_⟩
      rw [propext (hquiet (not_failsApart_inPagePass hphase hpages))]
      exact ⟨hclear, hinside.skipPagesLate hpages hexecute⟩
  | @failLate document command message _ session hphase hexecute hpages =>
      rw [InPhase, hphase] at hphaseInv
      obtain ⟨hclear, hinside⟩ := hphaseInv
      have hkept := execute_othersKept hfresh hothers hinside.session_own hexecute
      refine ⟨hdocument, hplan, hkept, ?_⟩
      cases hnext : command.next current.plan (pagePass settings document) with
      | none =>
          -- the final commit has had its effect
          obtain rfl := Command.next_eq_none.mp hnext
          obtain ⟨hrows, hpoints, _⟩ := hinside.finish hexecute
          rw [propext (hquiet (not_failsApart_committed hphase))]
          exact iff_of_true (synced_of_plan hrows hpoints) hclear
      | some following =>
          have hreached : Inside before after { current with session := session } document
              following := hinside.proceed hexecute hnext
          have hiff := @Inside.synced_iff before after { current with session := session }
            document following hsynced hfresh hreached
          have hapart : FailsApart (stores, current) (.late message) ↔ _ :=
            failsApart_late_iff hphase hpages hexecute hnext
          rw [propext (or_iff_right hclear), hapart]
          exact hiff
  | @handle outcome message reported hphase heffect =>
      rw [InPhase, hphase] at hphaseInv
      obtain ⟨hchunks, hpoints⟩ := markFailed_kept current message stores
      refine ⟨hdocument, hplan, hothers.trans (OthersKept.of_eq hchunks hpoints), ?_⟩
      rw [propext (hquiet (not_failsApart (not_running_of_handling hphase)))]
      exact (synced_congr _ hchunks hpoints).trans hphaseInv
  | giveUp failure hphase =>
      rw [InPhase, hphase] at hphaseInv
      refine ⟨hdocument, hplan, hothers, ?_⟩
      rw [propext (hquiet (not_failsApart (not_running_of_handling hphase)))]
      exact hphaseInv

theorem run_along (hstart : run.phase = .loading) (hsession : run.session = [])
    (hsynced : Synced run.documentId before) (hfresh : FreshIds run.plan before)
    {outcomes : List Outcome} {state : Stores × Run}
    (hrun : Transition.exec (indexStep settings) (before, run) outcomes = some state) :
    Along before run (FailedApart settings (before, run) outcomes) state := by
  refine Transition.exec_induction
    (motive := fun past state =>
      Along before run (FailedApart settings (before, run) past) state) ?_ ?_ hrun
  · refine ⟨rfl, rfl, OthersKept.refl _, ?_⟩
    rw [InPhase, hstart]
    exact ⟨Transition.not_occurs_nil _ _ _, rfl, rfl, hsession⟩
  · intro past state outcome next hpast halong hstep
    rw [FailedApart, propext (Transition.occurs_snoc hpast)]
    exact step_along hsynced hfresh halong hstep

/-- A finished run leaves rows and points in step, the other documents alone and
a returned document indexed, exactly when it did not fail while the two stores
were apart. -/
theorem finished_consistent_iff (hstart : run.phase = .loading)
    (hsession : run.session = []) (hsynced : Synced run.documentId before)
    (hfresh : FreshIds run.plan before) {outcomes : List Outcome}
    {state : Stores × Run}
    (hrun : Transition.exec (indexStep settings) (before, run) outcomes = some state)
    (hfinished : state.2.Finished) :
    Consistent before state ↔ ¬ FailedApart settings (before, run) outcomes := by
  have halong := run_along hstart hsession hsynced hfresh hrun
  have hphase := halong.phase
  cases hcase : state.2.phase with
  | returned count =>
      rw [InPhase, hcase] at hphase
      exact iff_of_true ⟨hphase.2.1, halong.others, hphase.2.2⟩ hphase.1
  | raised message =>
      rw [InPhase, hcase] at hphase
      have hiff : Synced state.2.documentId state.1 ↔
          ¬ FailedApart settings (before, run) outcomes := hphase
      rw [← hiff]
      refine ⟨fun hconsistent => hconsistent.1, fun hsync => ?_⟩
      refine ⟨hsync, halong.others, ?_⟩
      intro count hcount
      rw [hcase] at hcount
      cases hcount
  | loading | marking _ | running _ _ | handling _ =>
      rw [Run.Finished, hcase] at hfinished
      exact hfinished.elim

end Runs

/-! ## A parser failure on re-indexing -/

/-- Document 1, indexed with one chunk, and the job of its re-indexing. -/
def indexedOnce : Stores where
  documents := fun id =>
    if id = 1 then some { collectionId := 7, filename := "satzung.pdf", fileType := "pdf" }
    else none
  chunks := [⟨10, 1, 7, "satzung.pdf", "pdf",
    ⟨.text, "Die Satzung", "Die Satzung", 0, some 1, none, none⟩⟩]
  jobs := fun id => if id = 5 then some ⟨1, .queued, 0, none⟩ else none
  files := {1}
  ragPoints := [⟨10, 1, 7, .text, some 1, none, "satzung.pdf", "pdf", "Die Satzung", none⟩]

def reindexing : Run where
  documentId := 1
  jobId := some 5
  plan :=
    { figures := []
      chunks := [(11, ⟨.text, "Die Satzung", "Die Satzung", 0, some 1, none, none⟩)]
      pageCount := 1
      pages := [] }

/-- Everything succeeds up to the parser, which raises. -/
def parserRaises : List Outcome :=
  List.replicate 9 .ok ++ [.raise "corrupt file", .ok]

private theorem parserRaises_run :
    ∃ state, Transition.exec (indexStep {}) (indexedOnce, reindexing) parserRaises =
        some state ∧ state.2.Finished ∧ ¬ Synced state.2.documentId state.1 := by
  have hresult : (Transition.exec (indexStep {}) (indexedOnce, reindexing)
      parserRaises).map (fun state => (state.2.phase,
        (state.1.chunksOf state.2.documentId).map (·.id),
        (state.1.ragPointsOf state.2.documentId).map (·.id))) =
      some (.raised "corrupt file", [10], []) := by
    decide +kernel
  obtain ⟨state, hrun, heq⟩ := Option.map_eq_some_iff.mp hresult
  simp only [Prod.mk.injEq] at heq
  refine ⟨state, hrun, ?_, ?_⟩
  · rw [Run.Finished, heq.1]
    trivial
  · intro hsync
    have hmem := (hsync 10).mpr (by rw [heq.2.1]; exact List.mem_singleton_self _)
    rw [heq.2.2] at hmem
    cases hmem

private theorem indexedOnce_synced : Synced reindexing.documentId indexedOnce := by
  intro id
  exact Iff.rfl

private theorem reindexing_fresh : FreshIds reindexing.plan indexedOnce := by
  constructor <;> decide

theorem finished_consistent_iff_parserRaises :
    ∃ state, Consistent indexedOnce state ↔
      ¬ FailedApart {} (indexedOnce, reindexing) parserRaises := by
  obtain ⟨state, hrun, hfinished, _⟩ := parserRaises_run
  exact ⟨state, finished_consistent_iff rfl rfl indexedOnce_synced reindexing_fresh
    hrun hfinished⟩

/-- The rollback keeps the old row, and the Qdrant clear stays. -/
theorem finished_not_consistent :
    ¬ ∀ (settings : Settings) (before : Stores) (run : Run) (outcomes : List Outcome)
        (state : Stores × Run),
      run.phase = .loading → run.session = [] → Synced run.documentId before →
      FreshIds run.plan before →
      Transition.exec (indexStep settings) (before, run) outcomes = some state →
      state.2.Finished → Consistent before state := by
  intro hclaim
  obtain ⟨state, hrun, hfinished, hapart⟩ := parserRaises_run
  exact hapart (hclaim _ _ _ _ state rfl rfl indexedOnce_synced reindexing_fresh hrun
    hfinished).1

end AgenticRag.Ingestion
