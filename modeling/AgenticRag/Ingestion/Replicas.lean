import AgenticRag.Ingestion.Consistency
import Mathlib.Data.Fintype.Basic

/-!
# Concurrent runs for one document

Worker replicas that index the same document share the stores and nothing else.
Every run clears before it writes, but a row deletion sees only the rows that
are committed when it runs.  The document ends up with the rows of one run
exactly when some run deletes the rows after all the others have returned.
-/

namespace AgenticRag.Ingestion

/-- `size` runs of `index_document` and the stores they share. -/
structure Fleet (size : ℕ) where
  stores : Stores
  runs : Fin size → Run

namespace Fleet

variable {size : ℕ}

/-- One command of one run. -/
def step (settings : Settings) (fleet : Fleet size) (action : Fin size × Outcome) :
    Option (Fleet size) :=
  (indexStep settings (fleet.stores, fleet.runs action.1) action.2).map
    fun (stores, run) => ⟨stores, Function.update fleet.runs action.1 run⟩

def Returned (run : Run) : Prop :=
  ∃ count, run.phase = .returned count

def Failed (run : Run) : Prop :=
  ∃ message, run.phase = .handling message ∨ run.phase = .raised message

/-- The run has not sent its row deletion. -/
def BeforeDelete (run : Run) : Prop :=
  match run.phase with
  | .loading | .marking _ => True
  | .running _ command => command.rowsDeleted = false
  | _ => False

/-- A run sends its row deletion after all the others have returned. -/
def DeletesLast (fleet : Fleet size) (action : Fin size × Outcome) : Prop :=
  action.2 = .ok ∧
    (∃ document, (fleet.runs action.1).phase = .running document .deleteRows) ∧
    ∀ other, other ≠ action.1 → Returned (fleet.runs other)

/-- Rows and points of the document are those of one run. -/
structure OfRun (stores : Stores) (run : Run) : Prop where
  rows : ((stores.chunksOf run.documentId).map (·.id)).Perm
    (run.plan.chunks.map Prod.fst)
  indices : ((stores.chunksOf run.documentId).map (·.chunk.chunkIndex)).Perm
    (List.range run.plan.chunks.length)
  points : ((stores.ragPointsOf run.documentId).map (·.id)).Perm
    (run.plan.chunks.map Prod.fst)

/-- The runs of one document: it is cut into the same number of chunks every
time, and all ids are new. -/
structure Begins (documentId : Uuid) (count : ℕ) (fleet : Fleet size) : Prop where
  documentId : ∀ index, (fleet.runs index).documentId = documentId
  loading : ∀ index, (fleet.runs index).phase = .loading
  session : ∀ index, (fleet.runs index).session = []
  chunkIndices : ∀ index,
    (fleet.runs index).plan.chunks.map (·.2.chunkIndex) = List.range count
  fresh : ∀ index, ∀ row ∈ fleet.stores.chunks,
    row.id ∉ (fleet.runs index).plan.chunks.map Prod.fst
  distinct : ∀ first second, first ≠ second →
    ∀ id ∈ (fleet.runs first).plan.chunks.map Prod.fst,
      id ∉ (fleet.runs second).plan.chunks.map Prod.fst

/-! ## What a step does to the rows -/

def newIds (run : Run) : List Uuid :=
  run.plan.chunks.map Prod.fst

/-- The rows and the session of the moving run before and after a step. -/
inductive RowMove (run : Run) (before after : Stores) (phase : Phase)
    (session : Session) : Prop where
  | quiet (hchunks : after.chunks = before.chunks) (hsession : session = run.session)
      (hphase : BeforeDelete { run with phase := phase } ↔ BeforeDelete run)
      (hreturned : ∀ count, phase ≠ .returned count)
  | deleteRows (document : Document)
      (hrunning : run.phase = .running document .deleteRows)
      (hchunks : after.chunks = before.chunks)
      (hsession : session = run.session ++ before.chunksOf run.documentId)
      (hphase : phase = .running document .deletePoints)
  | stage (hchunks : after.chunks = (before.commitDeletes run.session).chunks)
      (hsession : session = [])
      (hphase : BeforeDelete { run with phase := phase } ↔ BeforeDelete run)
      (hreturned : ∀ count, phase ≠ .returned count)
  | finish (document : Document) (hrunning : run.phase = .running document .commit)
      (hchunks : after.chunks = (before.commitDeletes run.session).chunks ++
        run.chunkRows document)
      (hsession : session = []) (hphase : phase = .returned run.plan.chunks.length)
  | fail (hchunks : after.chunks = before.chunks)
      (hsession : session = run.session ∨ session = [])
      (hfailed : Failed { run with phase := phase, session := session })
  | failLate (rows : List DocumentChunk) (hrows : ∀ row ∈ rows, row.id ∈ newIds run)
      (hchunks : after.chunks = (before.commitDeletes run.session).chunks ++ rows)
      (hsession : session = [])
      (hfailed : Failed { run with phase := phase, session := session })

theorem chunkRows_id {run : Run} {document : Document} {row : DocumentChunk}
    (hrow : row ∈ run.chunkRows document) : row.id ∈ newIds run := by
  obtain ⟨chunk, hchunk, rfl⟩ := List.mem_map.mp hrow
  exact List.mem_map_of_mem hchunk

/-- What a command that raises after its effect has done to the rows. -/
theorem executed_rows {before after : Stores} {run : Run} {document : Document}
    {command : Command} {session : Session} {message : String}
    (hexecute : run.execute document before command = some (after, session)) :
    RowMove run before after (.handling message) [] := by
  have hfailed : Failed { run with phase := .handling message, session := [] } :=
    ⟨message, Or.inl rfl⟩
  rcases execute_cases hexecute with
    ⟨_, rfl, _⟩ | ⟨_, rfl, _⟩ | ⟨_, rfl, _⟩ | ⟨_, ⟨row, _, rfl⟩, _⟩ |
    ⟨_, _, hchunks, _⟩ | ⟨_, _, _, _, hneutral⟩
  · exact .fail rfl (Or.inr rfl) hfailed
  · exact .fail rfl (Or.inr rfl) hfailed
  · exact .fail rfl (Or.inr rfl) hfailed
  · exact .failLate (run.chunkRows document) (fun _ => chunkRows_id) rfl rfl hfailed
  · exact .failLate [] nofun (by rw [hchunks, List.append_nil]) rfl hfailed
  · exact .fail hneutral.chunks (Or.inr rfl) hfailed

theorem move_rows {settings : Settings} {before after : Stores} {run : Run}
    {outcome : Outcome} {phase : Phase} {session : Session}
    (hmove : Move settings before run outcome after phase session) :
    RowMove run before after phase session := by
  cases hmove with
  | load hphase hrow =>
      refine .quiet rfl rfl ?_ nofun
      simp [BeforeDelete, hphase]
  | mark hphase hmark =>
      refine .quiet (markProcessing_kept hmark).1 rfl ?_ nofun
      simp [BeforeDelete, hphase, Command.rowsDeleted]
  | abort message hphase => exact .fail rfl (Or.inl rfl) ⟨message, Or.inr rfl⟩
  | @proceed document command following _ _ hphase hexecute hnext =>
      obtain ⟨hdeleted, _, _⟩ := Command.next_progress hnext
      have hside : command ≠ .deleteRows →
          (BeforeDelete { run with phase := .running document following } ↔
            BeforeDelete run) := by
        intro hne
        have hsame : following.rowsDeleted = command.rowsDeleted := by
          rw [hdeleted]
          simp [hne]
        simp only [BeforeDelete, hphase, hsame]
      rcases execute_cases hexecute with
        ⟨rfl, rfl, rfl⟩ | ⟨rfl, rfl, rfl⟩ | ⟨rfl, rfl, rfl⟩ | ⟨rfl, _⟩ |
        ⟨hstage, _, hchunks, _, rfl⟩ | ⟨hrows, _, _, _, hneutral⟩
      · cases hnext
        exact .deleteRows document hphase rfl rfl rfl
      · exact .quiet rfl rfl (hside nofun) nofun
      · exact .quiet rfl rfl (hside nofun) nofun
      · cases hnext
      · apply RowMove.stage hchunks rfl
        · apply hside
          rintro rfl
          cases hstage
        · nofun
      · exact .quiet hneutral.chunks hneutral.session (hside hrows) nofun
  | @finish document _ _ hphase hexecute =>
      rcases execute_cases hexecute with
        ⟨habsurd, _⟩ | ⟨habsurd, _⟩ | ⟨habsurd, _⟩ | ⟨_, ⟨row, _, rfl⟩, rfl⟩ |
        ⟨habsurd, _⟩ | ⟨_, _, _, habsurd, _⟩
      · cases habsurd
      · cases habsurd
      · cases habsurd
      · exact .finish document hphase rfl rfl rfl
      · cases habsurd
      · exact absurd rfl habsurd
  | @skipPages document command message hphase hpages =>
      refine .quiet rfl rfl ?_ nofun
      simp only [BeforeDelete, hphase]
      rw [(Command.done_of_inPagePass hpages).1]
      rfl
  | fail hphase hpages => exact .fail rfl (Or.inr rfl) ⟨_, Or.inl rfl⟩
  | markLate message hphase hmark =>
      exact .fail (markProcessing_kept hmark).1 (Or.inl rfl) ⟨message, Or.inr rfl⟩
  | @skipPagesLate document command _ _ _ hphase hexecute hpages =>
      have hneutral := execute_inPagePass hexecute hpages
      refine .quiet hneutral.chunks hneutral.session ?_ nofun
      simp only [BeforeDelete, hphase]
      rw [(Command.done_of_inPagePass hpages).1]
      rfl
  | failLate hphase hexecute hpages => exact executed_rows hexecute
  | handle hphase =>
      exact .fail (markFailed_kept _ _ before).1 (Or.inl rfl) ⟨_, Or.inr rfl⟩
  | giveUp failure hphase => exact .fail rfl (Or.inl rfl) ⟨_, Or.inr rfl⟩

section Moves

variable {settings : Settings} {before after : Stores} {run : Run}
variable {outcome : Outcome} {phase : Phase} {session : Session}

/-- A failed run stays failed. -/
theorem move_failed
    (hmove : Move settings before run outcome after phase session)
    (hfailed : Failed run) : Failed { run with phase := phase, session := session } := by
  obtain ⟨message, hhandling | hraised⟩ := hfailed
  · cases hmove with
    | handle _ | giveUp _ _ | abort _ _ | markLate _ _ => exact ⟨_, Or.inr rfl⟩
    | load hphase | mark hphase | proceed hphase | finish hphase | skipPages hphase
      | fail hphase | skipPagesLate hphase | failLate hphase =>
        cases hhandling.symm.trans hphase
  · exact absurd (by simp [Run.Finished, hraised]) hmove.not_finished

/-- The row deletion succeeds or fails the run. -/
theorem move_deleteRows {document : Document}
    (hmove : Move settings before run outcome after phase session)
    (hphase : run.phase = .running document .deleteRows) :
    (outcome = .ok ∧ phase = .running document .deletePoints) ∨
      Failed { run with phase := phase, session := session } := by
  cases hmove with
  | proceed hrunning _ hnext =>
      rw [hphase] at hrunning
      cases hrunning
      cases hnext
      exact Or.inl ⟨rfl, rfl⟩
  | fail _ _ | failLate _ _ _ => exact Or.inr ⟨_, Or.inl rfl⟩
  | skipPages hrunning hpages | skipPagesLate hrunning _ hpages =>
      rw [hphase] at hrunning
      cases hrunning
      cases hpages
  | load hother | mark hother | markLate _ hother | finish hother | handle hother
    | giveUp _ hother =>
      cases hphase.symm.trans hother
  | abort _ hother =>
      rcases hother with hload | ⟨_, hmark⟩
      · cases hphase.symm.trans hload
      · cases hphase.symm.trans hmark

/-- Before its row deletion a run stays there or fails. -/
theorem RowMove.beforeDelete (hrows : RowMove run before after phase session)
    (hbefore : BeforeDelete run)
    (hkept : ∀ document, run.phase ≠ .running document .deleteRows) :
    BeforeDelete { run with phase := phase, session := session } ∨
      Failed { run with phase := phase, session := session } := by
  cases hrows with
  | quiet _ _ hphase _ => exact Or.inl (hphase.mpr hbefore)
  | stage _ _ hphase _ => exact Or.inl (hphase.mpr hbefore)
  | deleteRows document hrunning _ _ _ => exact absurd hrunning (hkept document)
  | finish document hrunning _ _ _ =>
      rw [BeforeDelete, hrunning] at hbefore
      cases hbefore
  | fail _ _ hfailed | failLate _ _ _ _ hfailed => exact Or.inr hfailed

end Moves

/-- Everything a step of the fleet can do. -/
theorem step_cases {settings : Settings} {fleet next : Fleet size}
    {action : Fin size × Outcome} (hstep : fleet.step settings action = some next) :
    ∃ phase session, Move settings fleet.stores (fleet.runs action.1) action.2
        next.stores phase session ∧
      next.runs = Function.update fleet.runs action.1
        { fleet.runs action.1 with phase := phase, session := session } := by
  obtain ⟨⟨stores, run⟩, hresult, rfl⟩ := Option.map_eq_some_iff.mp hstep
  obtain ⟨phase, session, rfl, hmove⟩ := indexStep_cases hresult
  exact ⟨phase, session, hmove, rfl⟩

/-! ## Rows that are not written yet -/

/-- No committed row and no session has the id. -/
def Absent (fleet : Fleet size) (id : Uuid) : Prop :=
  (∀ row ∈ fleet.stores.chunks, row.id ≠ id) ∧
    ∀ index, ∀ row ∈ (fleet.runs index).session, row.id ≠ id

structure Tracked (documentId : Uuid) (start fleet : Fleet size) : Prop where
  documentId : ∀ index, (fleet.runs index).documentId = documentId
  plan : ∀ index, (fleet.runs index).plan = (start.runs index).plan
  session : ∀ index, BeforeDelete (fleet.runs index) →
    (fleet.runs index).session = []
  unwritten : ∀ index, ¬ Returned (fleet.runs index) → ¬ Failed (fleet.runs index) →
    ∀ id ∈ newIds (start.runs index), fleet.Absent id

section Steps

variable {settings : Settings} {documentId : Uuid} {count : ℕ}
variable {start fleet next : Fleet size} {action : Fin size × Outcome}

theorem mem_commitDeletes {stores : Stores} {session : Session}
    {row : DocumentChunk} :
    row ∈ (stores.commitDeletes session).chunks ↔
      row ∈ stores.chunks ∧ row ∉ session := by
  simp [Stores.commitDeletes]

/-- A run that has not deleted its rows has nothing in its session. -/
theorem RowMove.session_nil {run : Run} {before after : Stores} {phase : Phase}
    {session : Session} (hrows : RowMove run before after phase session)
    (hnil : BeforeDelete run → run.session = [])
    (hbefore : BeforeDelete { run with phase := phase, session := session }) : session = [] := by
  cases hrows with
  | quiet _ hsession hphase _ =>
      rw [hsession]
      exact hnil (hphase.mp hbefore)
  | deleteRows document _ _ _ hphase =>
      rw [hphase] at hbefore
      cases hbefore
  | stage _ hsession _ _ => exact hsession
  | finish _ _ _ hsession _ => exact hsession
  | fail _ _ hfailed | failLate _ _ _ _ hfailed =>
      obtain ⟨message, hhandling | hraised⟩ := hfailed
      · rw [BeforeDelete, hhandling] at hbefore
        exact hbefore.elim
      · rw [BeforeDelete, hraised] at hbefore
        exact hbefore.elim

/-- An absent id stays absent, unless the moving run ends with a row of that id. -/
theorem step_absent {moving : Fin size} {phase : Phase} {session : Session} {id : Uuid}
    (hrows : RowMove (fleet.runs moving) fleet.stores next.stores phase session)
    (hruns : next.runs = Function.update fleet.runs moving
      { fleet.runs moving with phase := phase, session := session })
    (hends : Returned { fleet.runs moving with phase := phase, session := session } ∨
      Failed { fleet.runs moving with phase := phase, session := session } →
        id ∉ newIds (fleet.runs moving))
    (habsent : fleet.Absent id) : next.Absent id := by
  obtain ⟨hchunks, hsessions⟩ := habsent
  have hshrink : ∀ row ∈ (fleet.stores.commitDeletes
      (fleet.runs moving).session).chunks, row.id ≠ id := by
    intro row hrow
    exact hchunks row (mem_commitDeletes.mp hrow).1
  have hkeep : (∀ row ∈ session, row.id ≠ id) →
      ∀ other, ∀ row ∈ (next.runs other).session, row.id ≠ id := by
    intro hsession other row hrow
    rw [hruns] at hrow
    by_cases hmoving : other = moving
    · rw [hmoving, Function.update_self] at hrow
      exact hsession row hrow
    · rw [Function.update_of_ne hmoving] at hrow
      exact hsessions other row hrow
  cases hrows with
  | quiet hsame hsession _ _ =>
      refine ⟨by rwa [hsame], hkeep ?_⟩
      rw [hsession]
      exact hsessions moving
  | deleteRows document _ hsame hsession _ =>
      refine ⟨by rwa [hsame], hkeep ?_⟩
      rw [hsession]
      intro row hrow
      rcases List.mem_append.mp hrow with hold | hnew
      · exact hsessions moving row hold
      · exact hchunks row (Stores.mem_chunksOf.mp hnew).1
  | stage hsame hsession _ _ =>
      refine ⟨by rwa [hsame], hkeep ?_⟩
      simp [hsession]
  | finish document _ hsame hsession hphase =>
      refine ⟨?_, hkeep (by simp [hsession])⟩
      intro row hrow
      rw [hsame] at hrow
      rcases List.mem_append.mp hrow with hold | hnew
      · exact hshrink row hold
      · rintro rfl
        exact hends (Or.inl ⟨_, hphase⟩) (chunkRows_id hnew)
  | fail hsame hsession _ =>
      refine ⟨by rwa [hsame], hkeep ?_⟩
      rcases hsession with hkept | hempty
      · rw [hkept]
        exact hsessions moving
      · simp [hempty]
  | failLate rows hnew hsame hsession hfailed =>
      refine ⟨?_, hkeep (by simp [hsession])⟩
      intro row hrow
      rw [hsame] at hrow
      rcases List.mem_append.mp hrow with hold | hwritten
      · exact hshrink row hold
      · rintro rfl
        exact hends (Or.inr hfailed) (hnew row hwritten)

theorem step_tracked (hbegins : Begins documentId count start)
    (htracked : Tracked documentId start fleet)
    (hstep : fleet.step settings action = some next) :
    Tracked documentId start next := by
  obtain ⟨moving, outcome⟩ := action
  obtain ⟨phase, session, hmove, hruns⟩ := step_cases hstep
  have hself : next.runs moving =
      { fleet.runs moving with phase := phase, session := session } := by
    rw [hruns, Function.update_self]
  have hother : ∀ index, index ≠ moving → next.runs index = fleet.runs index := by
    intro index hne
    rw [hruns, Function.update_of_ne hne]
  have hrows := move_rows hmove
  constructor
  · intro index
    by_cases hindex : index = moving
    · rw [hindex, hself]
      exact htracked.documentId moving
    · rw [hother index hindex]
      exact htracked.documentId index
  · intro index
    by_cases hindex : index = moving
    · rw [hindex, hself]
      exact htracked.plan moving
    · rw [hother index hindex]
      exact htracked.plan index
  · intro index hbefore
    by_cases hindex : index = moving
    · rw [hindex, hself] at hbefore ⊢
      exact hrows.session_nil (htracked.session moving) hbefore
    · rw [hother index hindex] at hbefore ⊢
      exact htracked.session index hbefore
  · intro index hnot hunfailed id hid
    have hnotBefore : ¬ Returned (fleet.runs index) := by
      by_cases hindex : index = moving
      · rintro ⟨total, hreturned⟩
        rw [hindex] at hreturned
        exact hmove.not_finished (by simp [Run.Finished, hreturned])
      · rwa [hother index hindex] at hnot
    have hunfailedBefore : ¬ Failed (fleet.runs index) := by
      by_cases hindex : index = moving
      · intro hfailed
        rw [hindex] at hfailed
        apply hunfailed
        rw [hindex, hself]
        exact move_failed hmove hfailed
      · rwa [hother index hindex] at hunfailed
    apply step_absent hrows hruns ?_
      (htracked.unwritten index hnotBefore hunfailedBefore id hid)
    intro hended
    -- the rows of the moving run have other ids
    have hindex : index ≠ moving := by
      rintro rfl
      rw [hself] at hnot hunfailed
      exact hended.elim hnot hunfailed
    rw [newIds, htracked.plan moving]
    exact hbegins.distinct index moving hindex id hid

/-! ## Overlapping runs -/

/-- The rows of a run that has returned are there, and no session deletes them. -/
def Safe (documentId : Uuid) (start fleet : Fleet size) (index : Fin size) : Prop :=
  Returned (fleet.runs index) →
    ∀ id ∈ newIds (start.runs index),
      (∃ row ∈ fleet.stores.chunksOf documentId, row.id = id) ∧
        ∀ other, ∀ row ∈ (fleet.runs other).session, row.id ≠ id

/-- Two runs are safe, unless a run deletes last, has failed, or none has deleted
the rows yet. -/
def Overlap (documentId : Uuid) (start fleet : Fleet size) (last : Prop) : Prop :=
  last ∨ (∃ index, Failed (fleet.runs index)) ∨
    (∀ index, BeforeDelete (fleet.runs index)) ∨
    ∃ first second, first ≠ second ∧ Safe documentId start fleet first ∧
      Safe documentId start fleet second

private theorem safe_of_not_returned {index : Fin size}
    (hnot : ¬ Returned (fleet.runs index)) : Safe documentId start fleet index :=
  fun hreturned => absurd hreturned hnot

/-- A committed deletion does not touch the rows of a safe run. -/
private theorem safe_commit {moving : Fin size} {id : Uuid}
    (hrow : ∃ row ∈ fleet.stores.chunksOf documentId, row.id = id)
    (hsession : ∀ row ∈ (fleet.runs moving).session, row.id ≠ id) :
    ∃ row ∈ (fleet.stores.commitDeletes (fleet.runs moving).session).chunks,
      row.documentId = documentId ∧ row.id = id := by
  obtain ⟨row, hmem, hid⟩ := hrow
  obtain ⟨hchunk, hdocument⟩ := Stores.mem_chunksOf.mp hmem
  refine ⟨row, mem_commitDeletes.mpr ⟨hchunk, ?_⟩, hdocument, hid⟩
  intro hdeleted
  exact hsession row hdeleted hid

/-- Every step but a row deletion keeps the rows of a safe run. -/
theorem safe_step (htracked : Tracked documentId start fleet)
    {moving : Fin size} {phase : Phase} {session : Session}
    (hrows : RowMove (fleet.runs moving) fleet.stores next.stores phase session)
    (hruns : next.runs = Function.update fleet.runs moving
      { fleet.runs moving with phase := phase, session := session })
    (hmoves : ¬ (fleet.runs moving).Finished)
    (hkept : ∀ document, (fleet.runs moving).phase ≠ .running document .deleteRows)
    {index : Fin size} (hsafe : Safe documentId start fleet index) :
    Safe documentId start next index := by
  have hself : next.runs moving =
      { fleet.runs moving with phase := phase, session := session } := by
    rw [hruns, Function.update_self]
  have hother : ∀ index, index ≠ moving → next.runs index = fleet.runs index := by
    intro index hne
    rw [hruns, Function.update_of_ne hne]
  have hsessions : ∀ id, (∀ other, ∀ row ∈ (fleet.runs other).session, row.id ≠ id) →
      (session = (fleet.runs moving).session ∨ session = []) →
      ∀ other, ∀ row ∈ (next.runs other).session, row.id ≠ id := by
    intro id hall hsession other row hrow
    by_cases hmoving : other = moving
    · rw [hmoving, hself] at hrow
      rcases hsession with hsame | hempty
      · rw [hsame] at hrow
        exact hall moving row hrow
      · rw [hempty] at hrow
        cases hrow
    · rw [hother other hmoving] at hrow
      exact hall other row hrow
  have hsame : next.stores.chunks = fleet.stores.chunks →
      ∀ id, (∃ row ∈ fleet.stores.chunksOf documentId, row.id = id) →
        ∃ row ∈ next.stores.chunksOf documentId, row.id = id := by
    rintro heq id ⟨row, hrow, hid⟩
    exact ⟨row, by rwa [Stores.chunksOf, heq], hid⟩
  intro hreturned id hid
  by_cases hindex : index = moving
  · -- the moving run returns with this step
    subst hindex
    obtain ⟨total, hreturned⟩ := hreturned
    rw [hself] at hreturned
    have hnot : ¬ Returned (fleet.runs index) := by
      rintro ⟨_, hdone⟩
      exact hmoves (by simp [Run.Finished, hdone])
    cases hrows with
    | quiet _ _ _ hphase => exact absurd hreturned (hphase total)
    | stage _ _ _ hphase => exact absurd hreturned (hphase total)
    | deleteRows document hrunning _ _ _ => exact absurd hrunning (hkept document)
    | fail _ _ hfailed | failLate _ _ _ _ hfailed =>
        obtain ⟨message, hhandling | hraised⟩ := hfailed
        · cases hreturned.symm.trans hhandling
        · cases hreturned.symm.trans hraised
    | finish document hrunning hchunks hsession _ =>
        have hunfailed : ¬ Failed (fleet.runs index) := by
          rintro ⟨_, hhandling | hraised⟩
          · cases hrunning.symm.trans hhandling
          · cases hrunning.symm.trans hraised
        constructor
        · have hmember : id ∈ ((fleet.runs index).chunkRows document).map (·.id) := by
            rw [chunkRows_ids, htracked.plan index]
            exact hid
          obtain ⟨row, hrow, heq⟩ := List.mem_map.mp hmember
          refine ⟨row, ?_, heq⟩
          rw [Stores.mem_chunksOf, hchunks, ← htracked.documentId index]
          exact ⟨List.mem_append_right _ hrow, mem_chunkRows hrow⟩
        · exact hsessions id (htracked.unwritten index hnot hunfailed id hid).2
            (Or.inr hsession)
  · rw [hother index hindex] at hreturned
    obtain ⟨hrow, hall⟩ := hsafe hreturned id hid
    cases hrows with
    | quiet hchunks hsession _ _ =>
        exact ⟨hsame hchunks id hrow, hsessions id hall (Or.inl hsession)⟩
    | deleteRows document hrunning _ _ _ => exact absurd hrunning (hkept document)
    | fail hchunks hsession _ => exact ⟨hsame hchunks id hrow, hsessions id hall hsession⟩
    | stage hchunks hsession _ _ =>
        refine ⟨?_, hsessions id hall (Or.inr hsession)⟩
        obtain ⟨row, hmem, hdocument, heq⟩ := safe_commit hrow (hall moving)
        refine ⟨row, Stores.mem_chunksOf.mpr ⟨?_, hdocument⟩, heq⟩
        rwa [hchunks]
    | finish _ _ hchunks hsession _ | failLate _ _ hchunks hsession _ =>
        refine ⟨?_, hsessions id hall (Or.inr hsession)⟩
        obtain ⟨row, hmem, hdocument, heq⟩ := safe_commit hrow (hall moving)
        refine ⟨row, Stores.mem_chunksOf.mpr ⟨?_, hdocument⟩, heq⟩
        rw [hchunks]
        exact List.mem_append_left _ hmem

theorem step_overlap {last : Prop} (htracked : Tracked documentId start fleet)
    (hoverlap : Overlap documentId start fleet last)
    (hstep : fleet.step settings action = some next) :
    Overlap documentId start next (last ∨ DeletesLast fleet action) := by
  obtain ⟨moving, outcome⟩ := action
  obtain ⟨phase, session, hmove, hruns⟩ := step_cases hstep
  have hself : next.runs moving =
      { fleet.runs moving with phase := phase, session := session } := by
    rw [hruns, Function.update_self]
  have hother : ∀ index, index ≠ moving → next.runs index = fleet.runs index := by
    intro index hne
    rw [hruns, Function.update_of_ne hne]
  have hrows := move_rows hmove
  have hfails : Failed { fleet.runs moving with phase := phase, session := session } →
      ∃ index, Failed (next.runs index) := by
    intro hfailed
    exact ⟨moving, by rwa [hself]⟩
  rcases hoverlap with hlast | ⟨index, hfailed⟩ | hcases
  · exact Or.inl (Or.inl hlast)
  · refine Or.inr (Or.inl ?_)
    by_cases hindex : index = moving
    · rw [hindex] at hfailed
      exact hfails (move_failed hmove hfailed)
    · exact ⟨index, by rwa [hother index hindex]⟩
  by_cases hdeletes : ∃ document,
      (fleet.runs moving).phase = .running document .deleteRows
  · obtain ⟨document, hrunning⟩ := hdeletes
    rcases move_deleteRows hmove hrunning with ⟨hok, hphase⟩ | hfailed
    · by_cases hall : ∀ other, other ≠ moving → Returned (fleet.runs other)
      · exact Or.inl (Or.inr ⟨hok, ⟨document, hrunning⟩, hall⟩)
      · -- the deleting run and one that has not returned are both safe
        push Not at hall
        obtain ⟨other, hne, hnot⟩ := hall
        refine Or.inr (Or.inr (Or.inr ⟨moving, other, Ne.symm hne, ?_, ?_⟩))
        · apply safe_of_not_returned
          rintro ⟨_, hreturned⟩
          rw [hself, hphase] at hreturned
          cases hreturned
        · apply safe_of_not_returned
          rwa [hother other hne]
    · exact Or.inr (Or.inl (hfails hfailed))
  · push Not at hdeletes
    rcases hcases with hbefore | ⟨first, second, hne, hfirst, hsecond⟩
    · rcases hrows.beforeDelete (hbefore moving) hdeletes with hstill | hfailed
      · refine Or.inr (Or.inr (Or.inl fun index => ?_))
        by_cases hindex : index = moving
        · rwa [hindex, hself]
        · rw [hother index hindex]
          exact hbefore index
      · exact Or.inr (Or.inl (hfails hfailed))
    · refine Or.inr (Or.inr (Or.inr ⟨first, second, hne, ?_, ?_⟩))
      · exact safe_step htracked hrows hruns hmove.not_finished hdeletes hfirst
      · exact safe_step htracked hrows hruns hmove.not_finished hdeletes hsecond

/-! ## The run that deletes last -/

/-- All other runs have returned, and the run has taken over the rows. -/
def Solo (fleet : Fleet size) (index : Fin size) : Prop :=
  (∀ other, other ≠ index → Returned (fleet.runs other)) ∧
    match (fleet.runs index).phase with
    | .loading | .marking _ => False
    | .running document command =>
        ∃ before, Inside before fleet.stores (fleet.runs index) document command
    | .handling _ | .raised _ => True
    | .returned _ => ∃ document,
        fleet.stores.chunksOf (fleet.runs index).documentId =
            (fleet.runs index).chunkRows document ∧
          fleet.stores.ragPointsOf (fleet.runs index).documentId =
            (fleet.runs index).ragPoints document

private theorem solo_others {moving : Fin size} {run : Run}
    (hruns : next.runs = Function.update fleet.runs moving run)
    (hothers : ∀ other, other ≠ moving → Returned (fleet.runs other)) :
    ∀ other, other ≠ moving → Returned (next.runs other) := by
  intro other hne
  rw [hruns, Function.update_of_ne hne]
  exact hothers other hne

theorem deletesLast_solo (htracked : Tracked documentId start fleet)
    (hlast : DeletesLast fleet action)
    (hstep : fleet.step settings action = some next) : next.Solo action.1 := by
  obtain ⟨moving, outcome⟩ := action
  obtain ⟨after, runs⟩ := next
  obtain ⟨hok, ⟨document, hrunning⟩, hothers⟩ := hlast
  obtain ⟨phase, session, hmove, hruns⟩ := step_cases hstep
  simp only at hmove hruns
  refine ⟨solo_others hruns hothers, ?_⟩
  have hempty : (fleet.runs moving).session = [] := by
    apply htracked.session
    rw [BeforeDelete, hrunning]
    rfl
  have hinside : Inside fleet.stores fleet.stores (fleet.runs moving) document
      .deleteRows :=
    ⟨Or.inl ⟨rfl, rfl, hempty⟩, rfl⟩
  simp only [hruns, Function.update_self]
  cases hmove with
  | proceed hphase hexecute hnext =>
      rw [hrunning] at hphase
      cases hphase
      exact ⟨fleet.stores, hinside.proceed hexecute hnext⟩
  | load hphase | mark hphase | finish hphase | handle hphase =>
      cases hrunning.symm.trans hphase
  | skipPages _ _ | fail _ _ | giveUp _ _ | markLate _ _ | skipPagesLate _ _ _
    | failLate _ _ _ => cases hok
  | abort _ hphase =>
      rcases hphase with hload | ⟨_, hmark⟩
      · cases hrunning.symm.trans hload
      · cases hrunning.symm.trans hmark

theorem solo_step {index : Fin size} (hsolo : fleet.Solo index)
    (hstep : fleet.step settings action = some next) : next.Solo index := by
  obtain ⟨moving, outcome⟩ := action
  obtain ⟨after, runs⟩ := next
  obtain ⟨phase, session, hmove, hruns⟩ := step_cases hstep
  simp only at hmove hruns
  obtain ⟨hothers, hphaseInv⟩ := hsolo
  have hmoving : moving = index := by
    by_contra hne
    obtain ⟨total, hreturned⟩ := hothers moving hne
    exact hmove.not_finished (by simp [Run.Finished, hreturned])
  subst hmoving
  refine ⟨solo_others hruns hothers, ?_⟩
  simp only [hruns, Function.update_self]
  cases hmove with
  | load hphase | mark hphase =>
      rw [hphase] at hphaseInv
      exact hphaseInv.elim
  | abort _ hphase | markLate _ _ | fail _ _ | failLate _ _ _ | handle _ | giveUp _ _ =>
      trivial
  | proceed hphase hexecute hnext =>
      rw [hphase] at hphaseInv
      obtain ⟨before, hinside⟩ := hphaseInv
      exact ⟨before, hinside.proceed hexecute hnext⟩
  | @finish document _ _ hphase hexecute =>
      rw [hphase] at hphaseInv
      obtain ⟨before, hinside⟩ := hphaseInv
      obtain ⟨hrows, hpoints, _⟩ := hinside.finish hexecute
      exact ⟨document, hrows, hpoints⟩
  | skipPages hphase hpages =>
      rw [hphase] at hphaseInv
      obtain ⟨before, hinside⟩ := hphaseInv
      exact ⟨before, hinside.skipPages hpages⟩
  | skipPagesLate hphase hexecute hpages =>
      rw [hphase] at hphaseInv
      obtain ⟨before, hinside⟩ := hphaseInv
      exact ⟨before, hinside.skipPagesLate hpages hexecute⟩

/-! ## Documents without chunks -/

/-- What a run has left of the rows and points when no run writes any. -/
structure Emptied (fleet : Fleet size) (index : Fin size) : Prop where
  running : ∀ document command,
    (fleet.runs index).phase = .running document command →
      (command.rowsDeleted = true →
        ∀ row ∈ fleet.stores.chunksOf (fleet.runs index).documentId,
          row ∈ (fleet.runs index).session) ∧
      (command.pointsCleared = true →
        fleet.stores.ragPointsOf (fleet.runs index).documentId = [])
  returned : ∀ total, (fleet.runs index).phase = .returned total →
    fleet.stores.chunksOf (fleet.runs index).documentId = [] ∧
      fleet.stores.ragPointsOf (fleet.runs index).documentId = []

/-- Rows and points of the document only become fewer. -/
def Shrinks (documentId : Uuid) (before after : Stores) : Prop :=
  (∀ row ∈ after.chunksOf documentId, row ∈ before.chunksOf documentId) ∧
    (before.ragPointsOf documentId = [] → after.ragPointsOf documentId = [])

private theorem shrinks_of_eq {before after : Stores}
    (hchunks : after.chunks = before.chunks)
    (hpoints : after.ragPoints = before.ragPoints) :
    Shrinks documentId before after := by
  constructor
  · intro row hrow
    rwa [Stores.chunksOf, hchunks] at hrow
  · intro hempty
    rwa [Stores.ragPointsOf, hpoints]

private theorem shrinks_commit {before after : Stores} {session : Session}
    (hchunks : after.chunks = (before.commitDeletes session).chunks)
    (hpoints : after.ragPoints = before.ragPoints) :
    Shrinks documentId before after := by
  constructor
  · intro row hrow
    rw [Stores.mem_chunksOf, hchunks] at hrow
    exact Stores.mem_chunksOf.mpr ⟨(mem_commitDeletes.mp hrow.1).1, hrow.2⟩
  · intro hempty
    rwa [Stores.ragPointsOf, hpoints]

theorem move_shrinks {before after : Stores} {run : Run} {outcome : Outcome}
    {phase : Phase} {session : Session} (hnil : run.plan.chunks = [])
    (hmove : Move settings before run outcome after phase session) :
    Shrinks run.documentId before after := by
  have hrows : ∀ document, run.chunkRows document = [] := by
    intro document
    simp [Run.chunkRows, hnil]
  have hexecute : ∀ {document command} {written : Session},
      run.execute document before command = some (after, written) →
        Shrinks run.documentId before after := by
    intro document command written hexecute
    rcases execute_cases hexecute with
      ⟨_, rfl, _⟩ | ⟨_, rfl, _⟩ | ⟨_, rfl, _⟩ | ⟨_, ⟨row, _, rfl⟩, _⟩ |
      ⟨_, _, hchunks, hpoints, _⟩ | ⟨_, _, _, _, hneutral⟩
    · exact shrinks_of_eq rfl rfl
    · exact ⟨fun row hrow => hrow, fun _ => Stores.ragPointsOf_deleteRagPoints⟩
    · refine ⟨fun row hrow => hrow, fun hempty => ?_⟩
      rw [Stores.ragPointsOf_upsertRagPoints, hempty]
      simp [Run.ragPoints, hnil]
    · refine @shrinks_commit _ before _ run.session ?_ rfl
      simp only [Stores.setDocument, Stores.insertChunks, hrows document,
        List.append_nil]
    · exact shrinks_commit hchunks hpoints
    · exact shrinks_of_eq hneutral.chunks hneutral.ragPoints
  cases hmove with
  | proceed _ hdone _ | finish _ hdone | skipPagesLate _ hdone _ | failLate _ hdone _ =>
      exact hexecute hdone
  | handle _ =>
      exact shrinks_of_eq (markFailed_kept _ _ before).1 (markFailed_kept _ _ before).2
  | mark _ hmark | markLate _ _ hmark =>
      exact shrinks_of_eq (markProcessing_kept hmark).1 (markProcessing_kept hmark).2
  | load _ _ | abort _ _ | skipPages _ _ | fail _ _ | giveUp _ _ =>
      exact shrinks_of_eq rfl rfl

/-- The rows of the moving run itself. -/
theorem move_emptied {before after : Stores} {run : Run} {outcome : Outcome}
    {phase : Phase} {session : Session} (hnil : run.plan.chunks = [])
    (hmove : Move settings before run outcome after phase session)
    (hemptied : ∀ document command, run.phase = .running document command →
      (command.rowsDeleted = true →
        ∀ row ∈ before.chunksOf run.documentId, row ∈ run.session) ∧
      (command.pointsCleared = true → before.ragPointsOf run.documentId = [])) :
    (∀ document command, phase = .running document command →
      (command.rowsDeleted = true →
        ∀ row ∈ after.chunksOf run.documentId, row ∈ session) ∧
      (command.pointsCleared = true → after.ragPointsOf run.documentId = [])) ∧
    (∀ total, phase = .returned total →
      after.chunksOf run.documentId = [] ∧ after.ragPointsOf run.documentId = []) := by
  have hshrinks := move_shrinks hnil hmove
  have hcommitted : ∀ {chunks : List DocumentChunk},
      (∀ row ∈ before.chunksOf run.documentId, row ∈ run.session) →
      chunks = (before.commitDeletes run.session).chunks →
      chunks.filter (·.documentId = run.documentId) = [] := by
    rintro chunks hall rfl
    rw [List.filter_eq_nil_iff]
    intro row hrow hdocument
    obtain ⟨hchunk, hnot⟩ := mem_commitDeletes.mp hrow
    apply hnot
    exact hall row (Stores.mem_chunksOf.mpr ⟨hchunk, of_decide_eq_true hdocument⟩)
  cases hmove with
  | load _ _ | abort _ _ | markLate _ _ | fail _ _ | failLate _ _ _ | handle _
    | giveUp _ _ => exact ⟨by simp, by simp⟩
  | mark _ _ =>
      refine ⟨?_, by simp⟩
      rintro _ _ ⟨⟩
      simp [Command.rowsDeleted, Command.pointsCleared]
  | @proceed document command following _ _ hphase hexecute hnext =>
      refine ⟨?_, by simp⟩
      rintro _ _ ⟨⟩
      obtain ⟨hrows, hpoints⟩ := hemptied document command hphase
      obtain ⟨hdeleted, hcleared, _⟩ := Command.next_progress hnext
      rcases execute_cases hexecute with
        ⟨rfl, rfl, rfl⟩ | ⟨rfl, rfl, rfl⟩ | ⟨rfl, rfl, rfl⟩ | ⟨rfl, _⟩ |
        ⟨hstage, _, hchunks, hragPoints, rfl⟩ | ⟨hne, hne', hne'', _, hneutral⟩
      · refine ⟨fun _ row hrow => List.mem_append_right _ hrow, ?_⟩
        rw [hcleared]
        simp [Command.pointsCleared, Command.rowsDeleted]
      · exact ⟨fun _ => hrows rfl, fun _ => Stores.ragPointsOf_deleteRagPoints⟩
      · exact ⟨fun _ => hrows rfl, fun _ => hshrinks.2 (hpoints rfl)⟩
      · cases hnext
      · obtain ⟨hne, hne', hne''⟩ := Command.ne_of_isStage hstage
        have hsame := Command.next_same hnext hne hne' hne''
        rw [hsame.1, hsame.2.1]
        refine ⟨fun hgone row hrow => ?_, fun hgone => hshrinks.2 (hpoints hgone)⟩
        have hnone := hcommitted (hrows hgone) hchunks
        rw [Stores.chunksOf, hnone] at hrow
        cases hrow
      · have hsame := Command.next_same hnext hne hne' hne''
        rw [hsame.1, hsame.2.1, hneutral.session]
        exact ⟨fun hgone row hrow => hrows hgone row (hshrinks.1 row hrow),
          fun hgone => hshrinks.2 (hpoints hgone)⟩
  | @finish document _ _ hphase hexecute =>
      refine ⟨by simp, ?_⟩
      rintro _ ⟨⟩
      obtain ⟨hrows, hpoints⟩ := hemptied document .commit hphase
      refine ⟨?_, hshrinks.2 (hpoints rfl)⟩
      have hnorows : run.chunkRows document = [] := by
        simp [Run.chunkRows, hnil]
      rcases execute_cases hexecute with
        ⟨habsurd, _⟩ | ⟨habsurd, _⟩ | ⟨habsurd, _⟩ | ⟨_, ⟨row, _, rfl⟩, _⟩ |
        ⟨habsurd, _⟩ | ⟨_, _, _, habsurd, _⟩
      · cases habsurd
      · cases habsurd
      · cases habsurd
      · apply hcommitted (hrows rfl)
        simp [Stores.setDocument, Stores.insertChunks, hnorows]
      · cases habsurd
      · exact absurd rfl habsurd
  | @skipPages document command _ hphase hpages =>
      refine ⟨?_, by simp⟩
      rintro _ _ ⟨⟩
      obtain ⟨hrows, hpoints⟩ := hemptied document command hphase
      obtain ⟨hdeleted, hcleared, _⟩ := Command.done_of_inPagePass hpages
      exact ⟨fun _ => hrows hdeleted, fun _ => hpoints hcleared⟩
  | @skipPagesLate document command _ _ _ hphase hexecute hpages =>
      refine ⟨?_, by simp⟩
      rintro _ _ ⟨⟩
      obtain ⟨hrows, hpoints⟩ := hemptied document command hphase
      obtain ⟨hdeleted, hcleared, _⟩ := Command.done_of_inPagePass hpages
      rw [(execute_inPagePass hexecute hpages).session]
      exact ⟨fun _ row hrow => hrows hdeleted row (hshrinks.1 row hrow),
        fun _ => hshrinks.2 (hpoints hcleared)⟩

theorem step_emptied (htracked : Tracked documentId start fleet)
    (hnil : ∀ index, (start.runs index).plan.chunks = [])
    (hemptied : ∀ index, fleet.Emptied index)
    (hstep : fleet.step settings action = some next) :
    ∀ index, next.Emptied index := by
  obtain ⟨moving, outcome⟩ := action
  obtain ⟨after, runs⟩ := next
  obtain ⟨phase, session, hmove, hruns⟩ := step_cases hstep
  simp only at hmove hruns
  have hplan : (fleet.runs moving).plan.chunks = [] := by
    rw [htracked.plan moving, hnil]
  have hshrinks := move_shrinks hplan hmove
  have hmoved := move_emptied hplan hmove (hemptied moving).running
  intro index
  by_cases hindex : index = moving
  · subst hindex
    constructor
    · intro document command hphase
      simp only [hruns, Function.update_self] at hphase ⊢
      exact hmoved.1 document command hphase
    · intro total hphase
      simp only [hruns, Function.update_self] at hphase ⊢
      exact hmoved.2 total hphase
  · obtain ⟨hrunning, hreturned⟩ := hemptied index
    rw [htracked.documentId moving, ← htracked.documentId index] at hshrinks
    have hsame : runs index = fleet.runs index := by
      rw [hruns, Function.update_of_ne hindex]
    constructor
    · intro document command hphase
      simp only [hsame] at hphase ⊢
      obtain ⟨hrows, hpoints⟩ := hrunning document command hphase
      exact ⟨fun hdone row hrow => hrows hdone row (hshrinks.1 row hrow),
        fun hdone => hshrinks.2 (hpoints hdone)⟩
    · intro total hphase
      simp only [hsame] at hphase ⊢
      obtain ⟨hrows, hpoints⟩ := hreturned total hphase
      refine ⟨List.eq_nil_iff_forall_not_mem.mpr fun row hrow => ?_,
        hshrinks.2 hpoints⟩
      have hold := hshrinks.1 row hrow
      rw [hrows] at hold
      cases hold

end Steps

/-! ## Runs of the fleet -/

section Runs

variable {settings : Settings} {documentId : Uuid} {count : ℕ}
variable {start finish : Fleet size} {actions : List (Fin size × Outcome)}

theorem Begins.chunks_length (hbegins : Begins documentId count start)
    (index : Fin size) : (start.runs index).plan.chunks.length = count := by
  have hlength := congrArg List.length (hbegins.chunkIndices index)
  simpa using hlength

theorem run_tracked (hbegins : Begins documentId count start)
    (hrun : Transition.exec (step settings) start actions = some finish) :
    Tracked documentId start finish := by
  apply Transition.exec_invariant
    (fun _ _ _ htracked hstep => step_tracked hbegins htracked hstep) hrun
  constructor
  · exact hbegins.documentId
  · intro index
    rfl
  · intro index _
    exact hbegins.session index
  · intro index _ _ id hid
    constructor
    · rintro row hrow rfl
      exact hbegins.fresh index row hrow hid
    · intro other row hrow
      rw [hbegins.session other] at hrow
      cases hrow

theorem run_overlap (hbegins : Begins documentId count start)
    (hrun : Transition.exec (step settings) start actions = some finish) :
    Overlap documentId start finish
      (Transition.Occurs (step settings) start actions DeletesLast) := by
  refine Transition.exec_induction
    (motive := fun past fleet => Overlap documentId start fleet
      (Transition.Occurs (step settings) start past DeletesLast)) ?_ ?_ hrun
  · refine Or.inr (Or.inr (Or.inl fun index => ?_))
    rw [BeforeDelete, hbegins.loading index]
    trivial
  · intro past fleet action next hpast hoverlap hstep
    rw [propext (Transition.occurs_snoc hpast)]
    exact step_overlap (run_tracked hbegins hpast) hoverlap hstep

theorem run_solo (hbegins : Begins documentId count start)
    (hrun : Transition.exec (step settings) start actions = some finish) :
    Transition.Occurs (step settings) start actions DeletesLast →
      ∃ index, finish.Solo index := by
  refine Transition.exec_induction
    (motive := fun past fleet => Transition.Occurs (step settings) start past
      DeletesLast → ∃ index, fleet.Solo index) ?_ ?_ hrun
  · intro hoccurs
    exact absurd hoccurs (Transition.not_occurs_nil _ _ _)
  · intro past fleet action next hpast ih hstep hoccurs
    rcases (Transition.occurs_snoc hpast).mp hoccurs with hold | hlast
    · obtain ⟨index, hsolo⟩ := ih hold
      exact ⟨index, solo_step hsolo hstep⟩
    · exact ⟨action.1, deletesLast_solo (run_tracked hbegins hpast) hlast hstep⟩

theorem run_emptied (hbegins : Begins documentId 0 start)
    (hrun : Transition.exec (step settings) start actions = some finish) :
    ∀ index, finish.Emptied index := by
  have hnil : ∀ index, (start.runs index).plan.chunks = [] := by
    intro index
    exact List.eq_nil_iff_length_eq_zero.mpr (hbegins.chunks_length index)
  refine Transition.exec_induction
    (motive := fun _ fleet => ∀ index, fleet.Emptied index) ?_ ?_ hrun
  · intro index
    constructor
    · intro document command hphase
      rw [hbegins.loading index] at hphase
      cases hphase
    · intro total hphase
      rw [hbegins.loading index] at hphase
      cases hphase
  · intro past fleet action next hpast hemptied hstep
    exact step_emptied (run_tracked hbegins hpast) hnil hemptied hstep

/-- The rows and points a run wrote make the document that of a single run. -/
private theorem ofRun_of_written {stores : Stores} {run : Run} {document : Document}
    (hindices : run.plan.chunks.map (·.2.chunkIndex) =
      List.range run.plan.chunks.length)
    (hrows : stores.chunksOf run.documentId = run.chunkRows document)
    (hpoints : stores.ragPointsOf run.documentId = run.ragPoints document) :
    OfRun stores run := by
  constructor
  · rw [hrows, chunkRows_ids]
  · rw [hrows, ← hindices]
    simp [Run.chunkRows, Function.comp_def]
  · rw [hpoints, ragPoints_ids]

/-- When all runs have returned, the document has the rows and points of a
single run exactly when it has no chunks or some run deleted the rows after all
the others had returned. -/
theorem returned_ofRun_iff (hsize : 0 < size) (hbegins : Begins documentId count start)
    (hrun : Transition.exec (step settings) start actions = some finish)
    (hreturned : ∀ index, Returned (finish.runs index)) :
    (∃ index, OfRun finish.stores (finish.runs index)) ↔
      count = 0 ∨ Transition.Occurs (step settings) start actions DeletesLast := by
  have htracked := run_tracked hbegins hrun
  have hindices : ∀ index,
      (finish.runs index).plan.chunks.map (·.2.chunkIndex) =
        List.range (finish.runs index).plan.chunks.length := by
    intro index
    rw [htracked.plan index, hbegins.chunks_length index]
    exact hbegins.chunkIndices index
  constructor
  · rintro ⟨single, hsingle⟩
    by_cases hzero : count = 0
    · exact Or.inl hzero
    rcases run_overlap hbegins hrun with
      hlast | ⟨index, message, hfailed⟩ | hbefore | ⟨first, second, hne, hfirst, hsecond⟩
    · exact Or.inr hlast
    · obtain ⟨total, hphase⟩ := hreturned index
      rcases hfailed with hhandling | hraised
      · cases hphase.symm.trans hhandling
      · cases hphase.symm.trans hraised
    · obtain ⟨total, hphase⟩ := hreturned ⟨0, hsize⟩
      have hearly := hbefore ⟨0, hsize⟩
      rw [BeforeDelete, hphase] at hearly
      exact hearly.elim
    · -- both runs would be the single one
      have heq : ∀ index, Safe documentId start finish index → index = single := by
        intro index hsafe
        by_contra hother
        have hne : (start.runs index).plan.chunks ≠ [] := by
          intro hnil
          apply hzero
          rw [← hbegins.chunks_length index, hnil]
          rfl
        obtain ⟨chunk, hchunk⟩ := List.exists_mem_of_ne_nil _ hne
        have hid : chunk.1 ∈ newIds (start.runs index) := List.mem_map_of_mem hchunk
        obtain ⟨⟨row, hrow, hrowId⟩, _⟩ := hsafe (hreturned index) chunk.1 hid
        apply hbegins.distinct index single hother chunk.1 hid
        rw [← htracked.plan single]
        apply hsingle.rows.mem_iff.mp
        rw [htracked.documentId single, ← hrowId]
        exact List.mem_map_of_mem hrow
      exact absurd ((heq first hfirst).trans (heq second hsecond).symm) hne
  · rintro (rfl | hlast)
    · -- without chunks there is nothing to duplicate
      have hemptied := run_emptied hbegins hrun ⟨0, hsize⟩
      obtain ⟨total, hphase⟩ := hreturned ⟨0, hsize⟩
      obtain ⟨hrows, hpoints⟩ := hemptied.returned total hphase
      have hnil : (finish.runs ⟨0, hsize⟩).plan.chunks = [] := by
        rw [htracked.plan]
        exact List.eq_nil_iff_length_eq_zero.mpr (hbegins.chunks_length _)
      refine ⟨⟨0, hsize⟩, ?_, ?_, ?_⟩
      · rw [hrows, hnil]
        exact List.Perm.refl _
      · rw [hrows, hnil]
        exact List.Perm.refl _
      · rw [hpoints, hnil]
        exact List.Perm.refl _
    · obtain ⟨index, _, hphaseInv⟩ := run_solo hbegins hrun hlast
      obtain ⟨total, hphase⟩ := hreturned index
      rw [hphase] at hphaseInv
      obtain ⟨document, hrows, hpoints⟩ := hphaseInv
      exact ⟨index, ofRun_of_written (hindices index) hrows hpoints⟩

end Runs

/-! ## Two replicas -/

/-- A new document and two queued runs of it. -/
def twoReplicas : Fleet 2 where
  stores :=
    { documents := fun id =>
        if id = 1 then
          some { collectionId := 7, filename := "satzung.pdf", fileType := "pdf" }
        else none
      files := {1} }
  runs := fun index =>
    { documentId := 1
      jobId := none
      plan := ⟨[], [(if index = 0 then 10 else 11,
        ⟨.text, "Die Satzung", "Die Satzung", 0, some 1, none, none⟩)], 1, [], []⟩ }

/-- The second run starts and returns after the first one has cleared. -/
def overlappingRuns : List (Fin 2 × Outcome) :=
  List.replicate 8 (0, .ok) ++ List.replicate 15 (1, .ok) ++ List.replicate 7 (0, .ok)

private theorem twoReplicas_begins : Begins 1 1 twoReplicas := by
  constructor <;> decide

private theorem overlappingRuns_run :
    ∃ finish, Transition.exec (step {}) twoReplicas overlappingRuns = some finish ∧
      (∀ index, Returned (finish.runs index)) ∧
      (∀ index, (finish.runs index).documentId = 1 ∧
        (finish.runs index).plan.chunks.length = 1) ∧
      (finish.stores.chunksOf 1).length = 2 := by
  have hresult : (Transition.exec (step {}) twoReplicas overlappingRuns).map
      (fun finish => (((finish.runs 0).phase, (finish.runs 1).phase),
        ((finish.runs 0).documentId, (finish.runs 1).documentId),
        ((finish.runs 0).plan.chunks.length, (finish.runs 1).plan.chunks.length),
        (finish.stores.chunksOf 1).length)) =
      some ((.returned 1, .returned 1), (1, 1), (1, 1), 2) := by
    decide +kernel
  obtain ⟨finish, hrun, heq⟩ := Option.map_eq_some_iff.mp hresult
  simp only [Prod.mk.injEq] at heq
  obtain ⟨⟨hzero, hone⟩, ⟨hfirst, hsecond⟩, ⟨hcount, hcount'⟩, hrows⟩ := heq
  refine ⟨finish, hrun, ?_, ?_, hrows⟩
  · intro index
    match index with
    | 0 => exact ⟨1, hzero⟩
    | 1 => exact ⟨1, hone⟩
  · intro index
    match index with
    | 0 => exact ⟨hfirst, hcount⟩
    | 1 => exact ⟨hsecond, hcount'⟩

theorem returned_ofRun_iff_overlapping :
    ∃ finish, Transition.exec (step {}) twoReplicas overlappingRuns = some finish ∧
      ((∃ index, OfRun finish.stores (finish.runs index)) ↔
        1 = 0 ∨ Transition.Occurs (step {}) twoReplicas overlappingRuns DeletesLast) := by
  obtain ⟨finish, hrun, hreturned, _⟩ := overlappingRuns_run
  exact ⟨finish, hrun,
    returned_ofRun_iff (by decide) twoReplicas_begins hrun hreturned⟩

/-- Both runs cleared an empty store, and both wrote their chunk. -/
theorem returned_not_ofRun :
    ¬ ∀ (settings : Settings) (size : ℕ) (documentId : Uuid) (count : ℕ)
        (start finish : Fleet size) (actions : List (Fin size × Outcome)),
      0 < size → Begins documentId count start →
      Transition.exec (step settings) start actions = some finish →
      (∀ index, Returned (finish.runs index)) →
      ∃ index, OfRun finish.stores (finish.runs index) := by
  intro hclaim
  obtain ⟨finish, hrun, hreturned, hruns, hrows⟩ := overlappingRuns_run
  obtain ⟨index, hsingle⟩ :=
    hclaim {} 2 1 1 twoReplicas finish overlappingRuns (by decide) twoReplicas_begins
      hrun hreturned
  have hlength := hsingle.rows.length_eq
  rw [(hruns index).1, List.length_map, List.length_map, hrows,
    (hruns index).2] at hlength
  cases hlength

end Fleet

end AgenticRag.Ingestion
