import AgenticRag.Access.Documents
import AgenticRag.Core.Transition
import AgenticRag.Ingestion.Documents

/-!
# Who may change a document

`create_document`, `reindex_document` and `delete_document`: the access check, and then
the commands one by one.  Each command may raise, before or after it has taken effect,
and what the commands before it have done stays.
-/

namespace AgenticRag.Access

open AgenticRag.Ingestion (DeletePhase Document IngestJob Outcome ReindexPhase Stores Worker
  deleteStep reindexStep)

/-! ## The commands of an upload -/

/-- The commands of `create_document` behind the duplicate check. -/
inductive UploadStep where
  | insert
  | saveDocument
  | recordAudit
  | createJob
  | commit
  | refresh
  | enqueue
  deriving DecidableEq

def uploadSteps : List UploadStep :=
  [.insert, .saveDocument, .recordAudit, .createJob, .commit, .refresh, .enqueue]

/-- The command behind this one. -/
def UploadStep.next : UploadStep → Option UploadStep
  | .insert => some .saveDocument
  | .saveDocument => some .recordAudit
  | .recordAudit => some .createJob
  | .createJob => some .commit
  | .commit => some .refresh
  | .refresh => some .enqueue
  | .enqueue => none

/-- A request with the rows its session has added and not committed. -/
structure Upload where
  stores : Stores
  worker : Worker
  document : Option Document := none
  job : Option IngestJob := none

/-- What one command of `create_document` does. -/
def UploadStep.perform (documentId jobId : Uuid) (document : Document) (upload : Upload) :
    UploadStep → Upload
  | .insert => { upload with document := some document }
  | .saveDocument =>
      { upload with
        stores := { upload.stores with
          files := Insert.insert documentId upload.stores.files } }
  | .createJob =>
      { upload with job := some { documentId := documentId, status := .queued, attempt := 0 } }
  | .commit =>
      let stores := upload.document.elim upload.stores (upload.stores.setDocument documentId)
      { stores := upload.job.elim stores (stores.setJob jobId), worker := upload.worker }
  | .enqueue =>
      { upload with
        worker := { upload.worker with
          queue := upload.worker.queue ++ [⟨documentId, 0, some jobId⟩] } }
  | .recordAudit | .refresh => upload

/-! ## The three operations -/

/-- What an operation returns. -/
inductive DocumentReply where
  | created (documentId : Uuid) (duplicate : Bool)
  | reindexed (documentId : Uuid)
  | deleted
  deriving DecidableEq

/-- Where a call stands. -/
inductive CallPhase where
  | entering
  | uploading (documentId jobId : Uuid) (document : Document) (step : UploadStep)
  | reindexing (documentId jobId : Uuid) (phase : ReindexPhase)
  | deleting (documentId : Uuid) (phase : DeletePhase)
  | returned (reply : DocumentReply)
  | raised (error : HttpError)
  deriving DecidableEq

structure Call extends Upload where
  phase : CallPhase := .entering

/-- A re-indexing whose last command is done has returned. -/
def CallPhase.ofReindex (documentId jobId : Uuid) : ReindexPhase → CallPhase
  | .reindexed => .returned (.reindexed documentId)
  | .failed message => .raised ⟨500, message⟩
  | phase => .reindexing documentId jobId phase

def CallPhase.ofDelete (documentId : Uuid) : DeletePhase → CallPhase
  | .deleted => .returned .deleted
  | .failed message => .raised ⟨500, message⟩
  | phase => .deleting documentId phase

namespace Library

variable (library : Library) (user : User)

/-- What `create_document` makes of an uploaded file. -/
structure Intake (Bytes : Type) where
  safeFilename : String → String
  detect : String → Bytes → Except String String
  contentHash : Bytes → String

/-- The row with this content in this collection. -/
def existing (collectionId : Uuid) (digest : String) : Option Uuid :=
  library.documentIds.find? fun documentId =>
    library.contentHash documentId = digest &&
      (library.stores.documents documentId).any (·.collectionId = collectionId)

/-- `create_document` up to its first write. -/
def createDocument {Bytes : Type} (intake : Intake Bytes) (collectionId : Uuid)
    (filename : String) (data : Bytes) (documentId jobId : Uuid) : CallPhase :=
  if library.canAccessCollection user collectionId then
    let filename := intake.safeFilename filename
    match intake.detect filename data with
    | .error message => .raised ⟨415, message⟩
    | .ok fileType =>
        match library.existing collectionId (intake.contentHash data) with
        | some duplicate => .returned (.created duplicate true)
        | none =>
            .uploading documentId jobId
              { collectionId := collectionId, filename := filename, fileType := fileType } .insert
  else .raised ⟨404, "Collection not found"⟩

/-- `reindex_document` up to its first write. -/
def reindexDocument (documentId jobId : Uuid) : CallPhase :=
  match library.getAccessible user documentId with
  | .error error => .raised error
  | .ok _ => .reindexing documentId jobId .committing

/-- `delete_document` up to its first write. -/
def deleteDocument (documentId : Uuid) : CallPhase :=
  match library.getAccessible user documentId with
  | .error error => .raised error
  | .ok _ => .deleting documentId .clearingPoints

/-- A call of one of the three, with the ids it draws. -/
inductive Mutation (Bytes : Type) where
  | create (collectionId : Uuid) (filename : String) (data : Bytes) (documentId jobId : Uuid)
  | reindex (documentId jobId : Uuid)
  | delete (documentId : Uuid)
  deriving DecidableEq

/-- The collection whose documents the call changes. -/
def target {Bytes : Type} : Mutation Bytes → Option Uuid
  | .create collectionId _ _ _ _ => some collectionId
  | .reindex documentId _ | .delete documentId =>
      (library.stores.documents documentId).map (·.collectionId)

/-- The checks of a call. -/
def enter {Bytes : Type} (intake : Intake Bytes) : Mutation Bytes → CallPhase
  | .create collectionId filename data documentId jobId =>
      library.createDocument user intake collectionId filename data documentId jobId
  | .reindex documentId jobId => library.reindexDocument user documentId jobId
  | .delete documentId => library.deleteDocument user documentId

/-- The constraint that the command violates. -/
def violation (stores : Stores) (documentId jobId : Uuid) (document : Document) :
    UploadStep → Option String
  | .insert =>
      if stores.documents documentId ≠ none then
        some "duplicate key value violates unique constraint"
      else if library.collections.any (·.id = document.collectionId) then none
      else some "violates foreign key constraint"
  | .createJob =>
      if stores.jobs jobId = none then none
      else some "duplicate key value violates unique constraint"
  | _ => none

/-- One command of `create_document`. -/
def uploadStep (call : Call) (documentId jobId : Uuid) (document : Document) (step : UploadStep)
    (outcome : Outcome) : Call :=
  match library.violation call.stores documentId jobId document step, outcome with
  | some message, _ | none, .raise message => { call with phase := .raised ⟨500, message⟩ }
  | none, .late message =>
      { toUpload := step.perform documentId jobId document call.toUpload
        phase := .raised ⟨500, message⟩ }
  | none, .ok =>
      { toUpload := step.perform documentId jobId document call.toUpload
        phase :=
          match step.next with
          | some next => .uploading documentId jobId document next
          | none => .returned (.created documentId false) }

/-- One command of a call.  The queries of its checks count as one: they change
nothing. -/
def callStep {Bytes : Type} (intake : Intake Bytes) (mutation : Mutation Bytes) (call : Call)
    (outcome : Outcome) : Option Call :=
  match call.phase with
  | .entering =>
      match outcome with
      | .ok => some { call with phase := library.enter user intake mutation }
      | .raise message | .late message => some { call with phase := .raised ⟨500, message⟩ }
  | .uploading documentId jobId document step =>
      some (library.uploadStep call documentId jobId document step outcome)
  | .reindexing documentId jobId phase =>
      (reindexStep documentId jobId (call.stores, call.worker, phase) outcome).map
        fun (stores, worker, next) =>
          { call with
            stores := stores
            worker := worker
            phase := .ofReindex documentId jobId next }
  | .deleting documentId phase =>
      (deleteStep documentId (call.stores, phase) outcome).map fun (stores, next) =>
        { call with stores := stores, phase := .ofDelete documentId next }
  | .returned _ | .raised _ => none

/-- A call that begins. -/
def begin (worker : Worker) : Call :=
  { stores := library.stores, worker := worker }

end Library

/-! ## What a call must not do -/

/-- The stores keep the same of a document. -/
structure SameData (documentId : Uuid) (stores after : Stores) : Prop where
  row : after.documents documentId = stores.documents documentId
  chunks : after.chunksOf documentId = stores.chunksOf documentId
  jobs : ∀ jobId job, job.documentId = documentId →
    (after.jobs jobId = some job ↔ stores.jobs jobId = some job)
  file : documentId ∈ after.files ↔ documentId ∈ stores.files
  ragPoints : after.ragPointsOf documentId = stores.ragPointsOf documentId
  pagePoints : after.pagePointsOf documentId = stores.pagePointsOf documentId
  objects : after.objects.filter (·.documentId = documentId) =
    stores.objects.filter (·.documentId = documentId)

namespace Library

variable {Bytes : Type} (library : Library) (user : User)

/-- The call has returned only to an entitled user, and what it has left of every document
of a collection the user is not entitled to is what there was. -/
structure Lawful (mutation : Mutation Bytes) (finish : Call) : Prop where
  succeeded : ∀ reply, finish.phase = .returned reply →
    ∃ collectionId, library.target mutation = some collectionId ∧
      library.Entitled user collectionId
  untouched : ∀ documentId document, library.stores.documents documentId = some document →
    ¬ library.Entitled user document.collectionId →
      SameData documentId library.stores finish.stores

/-- The command takes effect on what is stored of the document: it removes points, a file or
the row, or commits a new job; or it is the last one of an upload. -/
def Acts (intake : Intake Bytes) (mutation : Mutation Bytes) (call : Call) (outcome : Outcome) :
    Prop :=
  match call.phase with
  | .entering => outcome = .ok ∧ ∃ reply, library.enter user intake mutation = .returned reply
  | .uploading _ _ _ step => step = .enqueue ∧ outcome = .ok
  | .reindexing _ jobId phase =>
      phase = .committing ∧ outcome.takesEffect = true ∧ library.stores.jobs jobId = none
  | .deleting documentId phase =>
      outcome.takesEffect = true ∧
        ((phase = .clearingPoints ∧ library.stores.ragPointsOf documentId ≠ []) ∨
          (phase = .deletingFiles ∧ documentId ∈ library.stores.files) ∨ phase = .deletingRow)
  | .returned _ | .raised _ => False

end Library

/-! ## The data of one document -/

section Data

variable {stores middle after : Stores} {documentId other jobId : Uuid}

theorem SameData.refl (documentId : Uuid) (stores : Stores) : SameData documentId stores stores :=
  ⟨rfl, rfl, fun _ _ _ => Iff.rfl, Iff.rfl, rfl, rfl, rfl⟩

theorem SameData.trans (hfirst : SameData documentId stores middle)
    (hsecond : SameData documentId middle after) : SameData documentId stores after where
  row := hsecond.row.trans hfirst.row
  chunks := hsecond.chunks.trans hfirst.chunks
  jobs jobId job hjob := (hsecond.jobs jobId job hjob).trans (hfirst.jobs jobId job hjob)
  file := hsecond.file.trans hfirst.file
  ragPoints := hsecond.ragPoints.trans hfirst.ragPoints
  pagePoints := hsecond.pagePoints.trans hfirst.pagePoints
  objects := hsecond.objects.trans hfirst.objects

theorem sameData_files {files : Finset Uuid}
    (hfile : documentId ∈ files ↔ documentId ∈ stores.files) :
    SameData documentId stores { stores with files := files } :=
  ⟨rfl, rfl, fun _ _ _ => Iff.rfl, hfile, rfl, rfl, rfl⟩

theorem sameData_setDocument {document : Document} (hother : documentId ≠ other) :
    SameData documentId stores (stores.setDocument other document) :=
  ⟨Function.update_of_ne hother _ _, rfl, fun _ _ _ => Iff.rfl, Iff.rfl, rfl, rfl, rfl⟩

/-- A new job of another document. -/
theorem sameData_setJob {job : IngestJob} (hfresh : stores.jobs jobId = none)
    (hother : documentId ≠ job.documentId) :
    SameData documentId stores (stores.setJob jobId job) := by
  refine ⟨rfl, rfl, ?_, Iff.rfl, rfl, rfl, rfl⟩
  intro someId found hfound
  by_cases hsame : someId = jobId
  · rw [hsame, hfresh]
    apply iff_of_false
    · intro hset
      have hjob : job = found := by simpa [Stores.setJob] using hset
      exact hother (by rw [hjob, hfound])
    · nofun
  · simp [Stores.setJob, Function.update_of_ne hsame]

theorem sameData_deleteRagPoints
    (hspared : documentId = other → stores.ragPointsOf documentId = []) :
    SameData documentId stores (stores.deleteRagPoints other) := by
  refine ⟨rfl, rfl, fun _ _ _ => Iff.rfl, Iff.rfl, ?_, rfl, rfl⟩
  by_cases hsame : documentId = other
  · rw [hspared hsame, hsame, Stores.ragPointsOf_deleteRagPoints]
  · simp only [Stores.ragPointsOf, Stores.deleteRagPoints, List.filter_filter]
    apply List.filter_congr
    intro point _
    by_cases hpoint : point.documentId = documentId
    · simp [hpoint, hsame]
    · simp [hpoint]

theorem sameData_deleteFiles (hspared : documentId = other → documentId ∉ stores.files) :
    SameData documentId stores (stores.deleteFiles other) := by
  apply sameData_files
  rw [Finset.mem_erase]
  exact and_iff_right_of_imp fun hfile hsame => hspared hsame hfile

theorem sameData_deleteDocumentRow (hother : documentId ≠ other) :
    SameData documentId stores (stores.deleteDocumentRow other) := by
  refine ⟨Function.update_of_ne hother _ _, ?_, ?_, Iff.rfl, rfl, rfl, rfl⟩
  · simp only [Stores.chunksOf, Stores.deleteDocumentRow, List.filter_filter]
    apply List.filter_congr
    intro row _
    by_cases hrow : row.documentId = documentId
    · simp [hrow, hother]
    · simp [hrow]
  · intro someId job hjob
    simp [Stores.deleteDocumentRow, Option.filter_eq_some_iff, hjob, hother]

end Data

/-! ## What a call does -/

section Calls

variable {Bytes : Type} {library : Library} {user : User} {intake : Library.Intake Bytes}
variable {mutation : Library.Mutation Bytes} {worker : Worker} {call next finish : Call}
variable {outcome : Outcome} {outcomes : List Outcome} {documentId : Uuid}

/-- The stored document that a call changes. -/
def Library.Mutation.document : Library.Mutation Bytes → Option Uuid
  | .create _ _ _ _ _ => none
  | .reindex documentId _ | .delete documentId => some documentId

/-- The access check has passed for the collection of a stored document. -/
def Library.Accessible (library : Library) (user : User) (documentId : Uuid) : Prop :=
  ∃ document, library.stores.documents documentId = some document ∧
    library.canAccessCollection user document.collectionId = true

/-- What is known of a call in each of its phases. -/
def Library.Admits (library : Library) (user : User) (mutation : Library.Mutation Bytes)
    (upload : Upload) : CallPhase → Prop
  | .entering => upload.stores = library.stores ∧ upload.job = none
  | .uploading documentId jobId document step =>
      ((∃ filename data,
          mutation = .create document.collectionId filename data documentId jobId) ∧
        library.canAccessCollection user document.collectionId = true) ∧
      (step = .insert → upload.stores = library.stores) ∧
      (step ≠ .insert → library.stores.documents documentId = none) ∧
      (step = .commit → upload.stores.jobs jobId = none) ∧
      ∀ job, upload.job = some job → job.documentId = documentId
  | .reindexing documentId jobId phase =>
      mutation = .reindex documentId jobId ∧ library.Accessible user documentId ∧
        phase ≠ .loading ∧ (phase = .committing → upload.stores = library.stores)
  | .deleting documentId _ =>
      mutation = .delete documentId ∧ library.Accessible user documentId
  | .returned _ =>
      ∃ collectionId, library.target mutation = some collectionId ∧
        library.canAccessCollection user collectionId = true
  | .raised _ => True

theorem Library.Accessible.target (haccessible : library.Accessible user documentId)
    (htarget : library.target mutation =
      (library.stores.documents documentId).map (·.collectionId)) :
    ∃ collectionId, library.target mutation = some collectionId ∧
      library.canAccessCollection user collectionId = true := by
  obtain ⟨document, hdocument, haccess⟩ := haccessible
  exact ⟨document.collectionId, by rw [htarget, hdocument, Option.map_some], haccess⟩

/-- The checks let in who has access. -/
theorem admits_enter {upload : Upload} (hstores : upload.stores = library.stores)
    (hjob : upload.job = none) :
    library.Admits user mutation upload (library.enter user intake mutation) := by
  cases mutation with
  | create collectionId filename data documentId jobId =>
      simp only [Library.enter, Library.createDocument]
      split_ifs with haccess
      · cases intake.detect (intake.safeFilename filename) data with
        | error message => trivial
        | ok fileType =>
            cases library.existing collectionId (intake.contentHash data) with
            | some duplicate => exact ⟨collectionId, rfl, haccess⟩
            | none =>
                refine ⟨⟨⟨filename, data, rfl⟩, haccess⟩, fun _ => hstores,
                  fun hnot => absurd rfl hnot, nofun, ?_⟩
                intro job hsome
                rw [hjob] at hsome
                cases hsome
      · trivial
  | reindex documentId jobId =>
      simp only [Library.enter, Library.reindexDocument]
      cases hfound : library.getAccessible user documentId with
      | error failure => trivial
      | ok document =>
          exact ⟨rfl, ⟨document, getAccessible_ok.mp hfound⟩, nofun, fun _ => hstores⟩
  | delete documentId =>
      simp only [Library.enter, Library.deleteDocument]
      cases hfound : library.getAccessible user documentId with
      | error failure => trivial
      | ok document => exact ⟨rfl, document, getAccessible_ok.mp hfound⟩

theorem admits_upload {jobId : Uuid} {document : Document} {step : UploadStep}
    (hadmits : library.Admits user mutation call.toUpload
      (.uploading documentId jobId document step)) :
    library.Admits user mutation
      (library.uploadStep call documentId jobId document step outcome).toUpload
      (library.uploadStep call documentId jobId document step outcome).phase := by
  obtain ⟨⟨⟨filename, data, rfl⟩, haccess⟩, hstores, hnew, hfresh, hjob⟩ := hadmits
  unfold Library.uploadStep
  split
  · trivial
  · trivial
  · trivial
  · rename_i hviolation
    cases step with
    | insert =>
        have hnone : library.stores.documents documentId = none := by
          rw [← hstores rfl]
          by_contra hrow
          simp [Library.violation, hrow] at hviolation
        exact ⟨⟨⟨filename, data, rfl⟩, haccess⟩, nofun, fun _ => hnone, nofun, hjob⟩
    | saveDocument | recordAudit | refresh =>
        exact ⟨⟨⟨filename, data, rfl⟩, haccess⟩, nofun, fun _ => hnew nofun, nofun, hjob⟩
    | createJob =>
        have hnone : call.stores.jobs jobId = none := by
          by_contra hrow
          simp [Library.violation, hrow] at hviolation
        refine ⟨⟨⟨filename, data, rfl⟩, haccess⟩, nofun, fun _ => hnew nofun, fun _ => hnone, ?_⟩
        intro job hsome
        cases hsome
        rfl
    | commit =>
        exact ⟨⟨⟨filename, data, rfl⟩, haccess⟩, nofun, fun _ => hnew nofun, nofun, nofun⟩
    | enqueue => exact ⟨document.collectionId, rfl, haccess⟩

theorem admits_step (hadmits : library.Admits user mutation call.toUpload call.phase)
    (hstep : library.callStep user intake mutation call outcome = some next) :
    library.Admits user mutation next.toUpload next.phase := by
  unfold Library.callStep at hstep
  cases hphase : call.phase with
  | entering =>
      rw [hphase] at hadmits
      simp only [hphase] at hstep
      cases outcome with
      | ok =>
          cases hstep
          exact admits_enter hadmits.1 hadmits.2
      | raise message | late message =>
          cases hstep
          trivial
  | uploading documentId jobId document step =>
      rw [hphase] at hadmits
      simp only [hphase] at hstep
      cases hstep
      exact admits_upload hadmits
  | reindexing documentId jobId phase =>
      rw [hphase] at hadmits
      simp only [hphase] at hstep
      obtain ⟨rfl, haccessible, hloaded, _⟩ := hadmits
      obtain ⟨⟨stores, queued, following⟩, hreindex, rfl⟩ := Option.map_eq_some_iff.mp hstep
      obtain ⟨hloading, hcommitting⟩ := Ingestion.reindexStep_forward hreindex hloaded
      cases following with
      | loading => exact absurd rfl hloading
      | committing => exact absurd rfl hcommitting
      | invalidating | enqueueing => exact ⟨rfl, haccessible, nofun, nofun⟩
      | reindexed => exact haccessible.target rfl
      | failed message => trivial
  | deleting documentId phase =>
      rw [hphase] at hadmits
      simp only [hphase] at hstep
      obtain ⟨rfl, haccessible⟩ := hadmits
      obtain ⟨⟨stores, following⟩, _, rfl⟩ := Option.map_eq_some_iff.mp hstep
      cases following with
      | loading | clearingPoints | invalidating | deletingFiles | deletingRow =>
          exact ⟨rfl, haccessible⟩
      | deleted => exact haccessible.target rfl
      | failed message => trivial
  | returned reply | raised failure =>
      simp only [hphase] at hstep
      cases hstep

theorem admits_run
    (hrun : Transition.exec (library.callStep user intake mutation) (library.begin worker)
      outcomes = some finish) :
    library.Admits user mutation finish.toUpload finish.phase := by
  have hstart : library.Admits user mutation (library.begin worker).toUpload
      (library.begin worker).phase := ⟨rfl, rfl⟩
  exact Transition.exec_invariant
    (motive := fun call => library.Admits user mutation call.toUpload call.phase)
    (fun _ _ _ => admits_step) hrun hstart

/-! ## What stays -/

/-- The commands of an upload are about its new document. -/
theorem sameData_perform {row : Document} {upload : Upload} {newId jobId : Uuid}
    (step : UploadStep) (hother : step ≠ .insert → documentId ≠ newId)
    (hfresh : step = .commit → upload.stores.jobs jobId = none)
    (hjob : ∀ job, upload.job = some job → job.documentId = newId) :
    SameData documentId upload.stores (step.perform newId jobId row upload).stores := by
  cases step with
  | insert | recordAudit | createJob | refresh | enqueue => exact SameData.refl _ _
  | saveDocument =>
      apply sameData_files
      rw [Finset.mem_insert, or_iff_right (hother nofun)]
  | commit =>
      have hrow : SameData documentId upload.stores
          (upload.document.elim upload.stores (upload.stores.setDocument newId)) := by
        cases upload.document with
        | none => exact SameData.refl _ _
        | some added => exact sameData_setDocument (hother nofun)
      have hjobs : (upload.document.elim upload.stores
          (upload.stores.setDocument newId)).jobs jobId = none := by
        cases upload.document with
        | none => exact hfresh rfl
        | some added => exact hfresh rfl
      refine hrow.trans ?_
      cases hadded : upload.job with
      | none =>
          simp only [UploadStep.perform, hadded]
          exact SameData.refl _ _
      | some job =>
          simp only [UploadStep.perform, hadded]
          refine sameData_setJob hjobs ?_
          rw [hjob job hadded]
          exact hother nofun

/-- A command spares every stored document but the one it acts on. -/
theorem sameData_step {document : Document}
    (hdocument : library.stores.documents documentId = some document)
    (hadmits : library.Admits user mutation call.toUpload call.phase)
    (hsame : SameData documentId library.stores call.stores)
    (hstep : library.callStep user intake mutation call outcome = some next)
    (hspared : ¬ (mutation.document = some documentId ∧
      library.Acts user intake mutation call outcome)) :
    SameData documentId library.stores next.stores := by
  unfold Library.callStep at hstep
  unfold Library.Acts at hspared
  cases hphase : call.phase with
  | entering =>
      simp only [hphase] at hstep
      cases outcome <;> cases hstep <;> exact hsame
  | uploading newId jobId row step =>
      rw [hphase] at hadmits
      simp only [hphase] at hstep
      cases hstep
      obtain ⟨_, _, hnew, hfresh, hjob⟩ := hadmits
      have hother : step ≠ .insert → documentId ≠ newId := by
        rintro hstep rfl
        rw [hnew hstep] at hdocument
        cases hdocument
      have hperform : SameData documentId library.stores
          (step.perform newId jobId row call.toUpload).stores :=
        hsame.trans (sameData_perform step hother hfresh hjob)
      unfold Library.uploadStep
      split
      · exact hsame
      · exact hsame
      · exact hperform
      · exact hperform
  | reindexing reindexed jobId phase =>
      rw [hphase] at hadmits
      simp only [hphase] at hstep hspared
      obtain ⟨rfl, _, _, hstores⟩ := hadmits
      obtain ⟨⟨stores, queued, following⟩, hreindex, rfl⟩ := Option.map_eq_some_iff.mp hstep
      rcases Ingestion.reindexStep_cases hreindex with ⟨hcommitting, heffect, hcommit, _⟩ |
        ⟨_, hkept, _⟩
      · obtain ⟨row, _, hfresh, hafter⟩ := Ingestion.commitReindex_ok hcommit
        have hother : documentId ≠ reindexed := by
          rintro rfl
          refine hspared ⟨rfl, hcommitting, heffect, ?_⟩
          rw [← hstores hcommitting]
          exact hfresh
        refine hsame.trans ?_
        rw [hafter]
        exact (sameData_setDocument hother).trans (sameData_setJob hfresh hother)
      · rw [hkept]
        exact hsame
  | deleting deleted phase =>
      rw [hphase] at hadmits
      simp only [hphase] at hstep hspared
      obtain ⟨rfl, _⟩ := hadmits
      obtain ⟨⟨stores, following⟩, hdelete, rfl⟩ := Option.map_eq_some_iff.mp hstep
      refine hsame.trans ?_
      rcases (Ingestion.deleteStep_effect hdelete).1 with ⟨hclearing, heffect, hafter⟩ |
        ⟨hfiles, heffect, hafter⟩ | ⟨hrow, heffect, hafter⟩ | ⟨hafter, _⟩
      · rw [hafter]
        apply sameData_deleteRagPoints
        rintro rfl
        rw [hsame.ragPoints]
        by_contra hpoints
        exact hspared ⟨rfl, heffect, Or.inl ⟨hclearing, hpoints⟩⟩
      · rw [hafter]
        apply sameData_deleteFiles
        rintro rfl hfile
        exact hspared ⟨rfl, heffect, Or.inr (Or.inl ⟨hfiles, hsame.file.mp hfile⟩)⟩
      · rw [hafter]
        apply sameData_deleteDocumentRow
        rintro rfl
        exact hspared ⟨rfl, heffect, Or.inr (Or.inr hrow)⟩
      · rw [hafter]
        exact SameData.refl _ _
  | returned reply | raised failure =>
      simp only [hphase] at hstep
      cases hstep

/-- Without a command that acts no call returns. -/
theorem pending_step (hadmits : library.Admits user mutation call.toUpload call.phase)
    (hpending : (∀ reply, call.phase ≠ .returned reply) ∧
      ∀ documentId jobId phase, call.phase = .reindexing documentId jobId phase →
        phase = .committing)
    (hstep : library.callStep user intake mutation call outcome = some next)
    (hnone : ¬ library.Acts user intake mutation call outcome) :
    (∀ reply, next.phase ≠ .returned reply) ∧
      ∀ documentId jobId phase, next.phase = .reindexing documentId jobId phase →
        phase = .committing := by
  unfold Library.callStep at hstep
  unfold Library.Acts at hnone
  cases hphase : call.phase with
  | entering =>
      simp only [hphase] at hstep hnone
      cases outcome with
      | raise message | late message =>
          cases hstep
          exact ⟨nofun, nofun⟩
      | ok =>
          cases hstep
          refine ⟨fun reply hreply => hnone ⟨rfl, reply, hreply⟩, ?_⟩
          intro documentId jobId phase hreindexing
          cases mutation with
          | create collectionId filename data newId newJob =>
              simp only [Library.enter, Library.createDocument] at hreindexing
              split_ifs at hreindexing
              revert hreindexing
              cases intake.detect (intake.safeFilename filename) data with
              | error message => nofun
              | ok fileType =>
                  cases library.existing collectionId (intake.contentHash data) with
                  | some duplicate => nofun
                  | none => nofun
          | reindex reindexed newJob =>
              simp only [Library.enter, Library.reindexDocument] at hreindexing
              split at hreindexing
              · cases hreindexing
              · cases hreindexing
                rfl
          | delete deleted =>
              simp only [Library.enter, Library.deleteDocument] at hreindexing
              split at hreindexing
              · cases hreindexing
              · cases hreindexing
  | uploading newId jobId row step =>
      simp only [hphase] at hstep hnone
      cases hstep
      unfold Library.uploadStep
      split
      · exact ⟨nofun, nofun⟩
      · exact ⟨nofun, nofun⟩
      · exact ⟨nofun, nofun⟩
      · cases step with
        | enqueue => exact absurd ⟨rfl, rfl⟩ hnone
        | insert | saveDocument | recordAudit | createJob | commit | refresh =>
            exact ⟨nofun, nofun⟩
  | reindexing reindexed jobId phase =>
      obtain rfl := hpending.2 _ _ _ hphase
      rw [hphase] at hadmits
      simp only [hphase] at hstep hnone
      obtain ⟨rfl, _, _, hstores⟩ := hadmits
      obtain ⟨⟨stores, queued, following⟩, hreindex, rfl⟩ := Option.map_eq_some_iff.mp hstep
      rcases Ingestion.reindexStep_cases hreindex with ⟨_, heffect, hcommit, _⟩ |
        ⟨_, _, hfailed⟩
      · obtain ⟨row, _, hfresh, _⟩ := Ingestion.commitReindex_ok hcommit
        rw [hstores rfl] at hfresh
        exact absurd ⟨trivial, heffect, hfresh⟩ hnone
      · obtain ⟨message, rfl⟩ := hfailed rfl
        exact ⟨nofun, nofun⟩
  | deleting deleted phase =>
      simp only [hphase] at hstep hnone
      obtain ⟨⟨stores, following⟩, hdelete, rfl⟩ := Option.map_eq_some_iff.mp hstep
      cases following with
      | deleted =>
          obtain ⟨hrow, heffect⟩ := (Ingestion.deleteStep_effect hdelete).2 rfl
          exact absurd ⟨heffect, Or.inr (Or.inr hrow)⟩ hnone
      | loading | clearingPoints | invalidating | deletingFiles | deletingRow =>
          exact ⟨nofun, nofun⟩
      | failed message => exact ⟨nofun, nofun⟩
  | returned reply | raised failure =>
      simp only [hphase] at hstep
      cases hstep

/-- Points, the file or the row of a document are gone. -/
def Library.Removed (library : Library) (documentId : Uuid) (stores : Stores) : Prop :=
  (library.stores.ragPointsOf documentId ≠ [] ∧ stores.ragPointsOf documentId = []) ∨
    (documentId ∈ library.stores.files ∧ documentId ∉ stores.files) ∨
      (library.stores.documents documentId ≠ none ∧ stores.documents documentId = none)

/-- A call that has returned, or has changed its document. -/
inductive Library.Acted (library : Library) (mutation : Library.Mutation Bytes) (call : Call) :
    Prop where
  | returned (reply : DocumentReply) (hphase : call.phase = .returned reply)
  | deleted (documentId : Uuid) (hmutation : mutation = .delete documentId)
      (hremoved : library.Removed documentId call.stores)
  | reindexed (documentId jobId : Uuid) (hmutation : mutation = .reindex documentId jobId)
      (job : IngestJob) (hfresh : library.stores.jobs jobId = none)
      (hjob : call.stores.jobs jobId = some job) (hdocument : job.documentId = documentId)

theorem not_removed_start : ¬ library.Removed documentId library.stores := by
  rintro (⟨hpoints, hnone⟩ | ⟨hfile, hnone⟩ | ⟨hrow, hnone⟩)
  · exact hpoints hnone
  · exact hnone hfile
  · exact hrow hnone

/-- What a deletion has removed stays away. -/
theorem removed_deleteStep {stores after : Stores} {phase following : DeletePhase}
    (hremoved : library.Removed documentId stores)
    (hdelete : deleteStep documentId (stores, phase) outcome = some (after, following)) :
    library.Removed documentId after := by
  rcases (Ingestion.deleteStep_effect hdelete).1 with ⟨_, _, rfl⟩ | ⟨_, _, rfl⟩ | ⟨_, _, rfl⟩ |
    ⟨rfl, _⟩
  · rcases hremoved with ⟨hpoints, _⟩ | hrest
    · exact Or.inl ⟨hpoints, Stores.ragPointsOf_deleteRagPoints⟩
    · exact Or.inr hrest
  · rcases hremoved with hpoints | ⟨hfile, _⟩ | hrow
    · exact Or.inl hpoints
    · exact Or.inr (Or.inl ⟨hfile, Finset.notMem_erase _ _⟩)
    · exact Or.inr (Or.inr hrow)
  · rcases hremoved with hpoints | hfile | ⟨hrow, _⟩
    · exact Or.inl hpoints
    · exact Or.inr (Or.inl hfile)
    · exact Or.inr (Or.inr ⟨hrow, Function.update_self _ _ _⟩)
  · exact hremoved

theorem Library.Acted.step (hadmits : library.Admits user mutation call.toUpload call.phase)
    (hacted : library.Acted mutation call)
    (hstep : library.callStep user intake mutation call outcome = some next) :
    library.Acted mutation next := by
  unfold Library.callStep at hstep
  cases hphase : call.phase with
  | entering =>
      rw [hphase] at hadmits
      cases hacted with
      | returned reply hreturned => cases hphase.symm.trans hreturned
      | deleted documentId hmutation hremoved =>
          rw [hadmits.1] at hremoved
          exact absurd hremoved not_removed_start
      | reindexed documentId jobId hmutation job hfresh hjob hdocument =>
          rw [hadmits.1, hfresh] at hjob
          cases hjob
  | uploading newId jobId row step =>
      rw [hphase] at hadmits
      obtain ⟨⟨⟨filename, data, rfl⟩, _⟩, _⟩ := hadmits
      cases hacted with
      | returned reply hreturned => cases hphase.symm.trans hreturned
      | deleted documentId hmutation => cases hmutation
      | reindexed documentId jobId hmutation => cases hmutation
  | reindexing reindexed jobId phase =>
      rw [hphase] at hadmits
      simp only [hphase] at hstep
      obtain ⟨rfl, _⟩ := hadmits
      obtain ⟨⟨stores, queued, following⟩, hreindex, rfl⟩ := Option.map_eq_some_iff.mp hstep
      cases hacted with
      | returned reply hreturned => cases hphase.symm.trans hreturned
      | deleted documentId hmutation => cases hmutation
      | reindexed documentId newJob hmutation job hfresh hjob hdocument =>
          obtain ⟨rfl, rfl⟩ := Library.Mutation.reindex.inj hmutation
          refine .reindexed reindexed jobId rfl job hfresh ?_ hdocument
          rcases Ingestion.reindexStep_cases hreindex with ⟨_, _, hcommit, _⟩ | ⟨_, hkept, _⟩
          · obtain ⟨row, _, hnone, _⟩ := Ingestion.commitReindex_ok hcommit
            cases hjob.symm.trans hnone
          · rw [hkept]
            exact hjob
  | deleting deleted phase =>
      rw [hphase] at hadmits
      simp only [hphase] at hstep
      obtain ⟨rfl, _⟩ := hadmits
      obtain ⟨⟨stores, following⟩, hdelete, rfl⟩ := Option.map_eq_some_iff.mp hstep
      cases hacted with
      | returned reply hreturned => cases hphase.symm.trans hreturned
      | deleted documentId hmutation hremoved =>
          obtain rfl := Library.Mutation.delete.inj hmutation
          exact .deleted deleted rfl (removed_deleteStep hremoved hdelete)
      | reindexed documentId jobId hmutation => cases hmutation
  | returned reply | raised failure =>
      simp only [hphase] at hstep
      cases hstep

/-- A command that acts does so with access, and its effect shows. -/
theorem acted_of_acts (hadmits : library.Admits user mutation call.toUpload call.phase)
    (hstep : library.callStep user intake mutation call outcome = some next)
    (hacts : library.Acts user intake mutation call outcome) :
    (∃ collectionId, library.target mutation = some collectionId ∧
      library.canAccessCollection user collectionId = true) ∧ library.Acted mutation next := by
  have hnext := admits_step hadmits hstep
  unfold Library.callStep at hstep
  unfold Library.Acts at hacts
  cases hphase : call.phase with
  | entering =>
      simp only [hphase] at hstep hacts
      obtain ⟨rfl, reply, hreply⟩ := hacts
      cases hstep
      dsimp only at hnext
      rw [hreply] at hnext
      exact ⟨hnext, .returned reply hreply⟩
  | uploading newId jobId row step =>
      rw [hphase] at hadmits
      simp only [hphase] at hstep hacts
      obtain ⟨rfl, rfl⟩ := hacts
      obtain ⟨⟨⟨filename, data, rfl⟩, haccess⟩, _⟩ := hadmits
      cases hstep
      exact ⟨⟨row.collectionId, rfl, haccess⟩, .returned (.created newId false) rfl⟩
  | reindexing reindexed jobId phase =>
      rw [hphase] at hadmits
      simp only [hphase] at hstep hacts
      obtain ⟨rfl, haccessible, _, hstores⟩ := hadmits
      obtain ⟨rfl, heffect, hfresh⟩ := hacts
      obtain ⟨⟨stores, queued, following⟩, hreindex, rfl⟩ := Option.map_eq_some_iff.mp hstep
      refine ⟨haccessible.target rfl, ?_⟩
      rcases Ingestion.reindexStep_cases hreindex with ⟨_, _, hcommit, _⟩ | ⟨hnot, _⟩
      · obtain ⟨row, _, _, hafter⟩ := Ingestion.commitReindex_ok hcommit
        refine .reindexed reindexed jobId rfl
          { documentId := reindexed, status := .queued, attempt := 0 } hfresh ?_ rfl
        rw [hafter]
        exact Function.update_self _ _ _
      · obtain ⟨document, hdocument, _⟩ := haccessible
        rw [hstores rfl, hfresh, hdocument, heffect] at hnot
        simp at hnot
  | deleting deleted phase =>
      rw [hphase] at hadmits
      simp only [hphase] at hstep hacts
      obtain ⟨rfl, haccessible⟩ := hadmits
      obtain ⟨heffect, hcommand⟩ := hacts
      obtain ⟨⟨stores, following⟩, hdelete, rfl⟩ := Option.map_eq_some_iff.mp hstep
      refine ⟨haccessible.target rfl, .deleted deleted rfl ?_⟩
      obtain ⟨document, hdocument, _⟩ := haccessible
      have hrow : library.stores.documents deleted ≠ none := by
        rw [hdocument]
        exact Option.some_ne_none _
      rcases hcommand with ⟨rfl, hpoints⟩ | ⟨rfl, hfile⟩ | rfl
      · rcases (Ingestion.deleteStep_effect hdelete).1 with ⟨_, _, rfl⟩ | ⟨hother, _⟩ |
          ⟨hother, _⟩ | ⟨_, hnot⟩
        · exact Or.inl ⟨hpoints, Stores.ragPointsOf_deleteRagPoints⟩
        · cases hother
        · cases hother
        · simp [heffect] at hnot
      · rcases (Ingestion.deleteStep_effect hdelete).1 with ⟨hother, _⟩ | ⟨_, _, rfl⟩ |
          ⟨hother, _⟩ | ⟨_, hnot⟩
        · cases hother
        · exact Or.inr (Or.inl ⟨hfile, Finset.notMem_erase _ _⟩)
        · cases hother
        · simp [heffect] at hnot
      · rcases (Ingestion.deleteStep_effect hdelete).1 with ⟨hother, _⟩ | ⟨hother, _⟩ |
          ⟨_, _, rfl⟩ | ⟨_, hnot⟩
        · cases hother
        · cases hother
        · exact Or.inr (Or.inr ⟨hrow, Function.update_self _ _ _⟩)
        · simp [heffect] at hnot
  | returned reply | raised failure =>
      simp only [hphase] at hacts

/-! ## Which calls are lawful -/

/-- What a run spares: everything, unless one of its commands acts on the document. -/
theorem sameData_run {document : Document}
    (hdocument : library.stores.documents documentId = some document)
    (hrun : Transition.exec (library.callStep user intake mutation) (library.begin worker)
      outcomes = some finish)
    (hspared : ¬ (mutation.document = some documentId ∧
      Transition.Occurs (library.callStep user intake mutation) (library.begin worker) outcomes
        (library.Acts user intake mutation))) :
    SameData documentId library.stores finish.stores := by
  have hnone : ¬ Transition.Occurs (library.callStep user intake mutation)
      (library.begin worker) outcomes (fun call outcome =>
        mutation.document = some documentId ∧ library.Acts user intake mutation call outcome) := by
    rintro ⟨before, outcome, after, call, hsplit, hbefore, hown, hacts⟩
    exact hspared ⟨hown, before, outcome, after, call, hsplit, hbefore, hacts⟩
  apply Transition.exec_unless
    (motive := fun call : Call => SameData documentId library.stores call.stores)
    (SameData.refl _ _) ?_ hrun hnone
  intro past call outcome next hpast hsame hstep hspares
  exact sameData_step hdocument (admits_run hpast) hsame hstep hspares

/-- Once a command acts, the call has access, and returns or leaves its mark. -/
theorem acted_run
    (hrun : Transition.exec (library.callStep user intake mutation) (library.begin worker)
      outcomes = some finish)
    (hoccurs : Transition.Occurs (library.callStep user intake mutation) (library.begin worker)
      outcomes (library.Acts user intake mutation)) :
    (∃ collectionId, library.target mutation = some collectionId ∧
      library.canAccessCollection user collectionId = true) ∧ library.Acted mutation finish := by
  obtain ⟨before, outcome, after, call, rfl, hbefore, hacts⟩ := hoccurs
  obtain ⟨reached, hreached, hrest⟩ := Transition.exec_append_eq_some_iff.mp hrun
  cases hbefore.symm.trans hreached
  obtain ⟨next, hstep, hlater⟩ := Transition.exec_cons_eq_some_iff.mp hrest
  have hadmits := admits_run hbefore
  obtain ⟨haccess, hacted⟩ := acted_of_acts hadmits hstep hacts
  have hlast := Transition.exec_invariant
    (motive := fun call : Call => library.Admits user mutation call.toUpload call.phase ∧
      library.Acted mutation call)
    (fun _ _ _ hreached hnext =>
      ⟨admits_step hreached.1 hnext, hreached.2.step hreached.1 hnext⟩)
    hlater ⟨admits_step hadmits hstep, hacted⟩
  exact ⟨haccess, hlast.2⟩

/-- A call that has acted on a collection is lawful for the entitled only. -/
theorem Library.Acted.not_lawful {collectionId : Uuid} (hacted : library.Acted mutation finish)
    (htarget : library.target mutation = some collectionId)
    (hentitled : ¬ library.Entitled user collectionId) :
    ¬ library.Lawful user mutation finish := by
  intro hlawful
  cases hacted with
  | returned reply hphase =>
      obtain ⟨other, hother, hallowed⟩ := hlawful.succeeded reply hphase
      cases htarget.symm.trans hother
      exact hentitled hallowed
  | deleted documentId hmutation hremoved =>
      subst hmutation
      obtain ⟨document, hdocument, rfl⟩ := Option.map_eq_some_iff.mp htarget
      have hsame := hlawful.untouched documentId document hdocument hentitled
      rcases hremoved with ⟨hpoints, hnone⟩ | ⟨hfile, hnone⟩ | ⟨hrow, hnone⟩
      · exact hpoints (hsame.ragPoints.symm.trans hnone)
      · exact hnone (hsame.file.mpr hfile)
      · exact hrow (hsame.row.symm.trans hnone)
  | reindexed documentId jobId hmutation job hfresh hjob hown =>
      subst hmutation
      obtain ⟨document, hdocument, rfl⟩ := Option.map_eq_some_iff.mp htarget
      have hsame := hlawful.untouched documentId document hdocument hentitled
      cases hfresh.symm.trans ((hsame.jobs jobId job hown).mp hjob)

/-- A call returns to the entitled only and changes no document of the others, unless READ
permissions alone let the user in and one of its commands acts. -/
theorem call_lawful_iff
    (hrun : Transition.exec (library.callStep user intake mutation) (library.begin worker)
      outcomes = some finish) :
    library.Lawful user mutation finish ↔
      ¬ ((∃ collectionId, library.target mutation = some collectionId ∧
          library.ReadOnly user collectionId) ∧
        Transition.Occurs (library.callStep user intake mutation) (library.begin worker) outcomes
          (library.Acts user intake mutation)) := by
  constructor
  · rintro hlawful ⟨⟨collectionId, htarget, hreadOnly⟩, hoccurs⟩
    exact (acted_run hrun hoccurs).2.not_lawful htarget hreadOnly.1 hlawful
  · intro hnone
    by_cases hoccurs : Transition.Occurs (library.callStep user intake mutation)
        (library.begin worker) outcomes (library.Acts user intake mutation)
    · obtain ⟨⟨collectionId, htarget, haccess⟩, _⟩ := acted_run hrun hoccurs
      have hentitled : library.Entitled user collectionId :=
        (canAccessCollection_iff_entitled.mp haccess).resolve_right fun hreadOnly =>
          hnone ⟨⟨collectionId, htarget, hreadOnly⟩, hoccurs⟩
      refine ⟨fun reply _ => ⟨collectionId, htarget, hentitled⟩, ?_⟩
      intro documentId document hdocument hforeign
      refine sameData_run hdocument hrun fun hacts => hforeign ?_
      obtain ⟨hown, _⟩ := hacts
      cases mutation with
      | create => cases hown
      | reindex | delete =>
          cases hown
          rw [Library.target, hdocument] at htarget
          cases htarget
          exact hentitled
    · have hstart : (∀ reply, (library.begin worker).phase ≠ .returned reply) ∧
          ∀ documentId jobId phase,
            (library.begin worker).phase = .reindexing documentId jobId phase →
              phase = .committing := ⟨fun _ => CallPhase.noConfusion, fun _ _ _ =>
                CallPhase.noConfusion⟩
      have hpending := Transition.exec_unless
        (motive := fun call : Call => (∀ reply, call.phase ≠ .returned reply) ∧
          ∀ documentId jobId phase, call.phase = .reindexing documentId jobId phase →
            phase = .committing)
        hstart
        (fun _ _ _ _ hpast hpending hstep hnot =>
          pending_step (admits_run hpast) hpending hstep hnot) hrun hoccurs
      refine ⟨fun reply hreply => absurd hreply (hpending.1 reply), ?_⟩
      intro documentId document hdocument _
      exact sameData_run hdocument hrun fun hacts => hoccurs hacts.2

end Calls

/-! ## A READ permission -/

/-- A document of another department with one point, and a user with a READ permission on
its collection. -/
def planning : Library where
  collections := [{ id := 7, departmentId := some 3 }]
  grants := [⟨⟨.user, 5, .collection, 7⟩, .read⟩]
  stores :=
    { documents := fun id =>
        if id = 1 then
          some { collectionId := 7, filename := "bebauungsplan.pdf", fileType := "pdf" }
        else none
      files := {1}
      ragPoints := [⟨9, 1, 7, .text, none, none, "bebauungsplan.pdf", "pdf", "Baufenster", none⟩] }
  documentIds := [1]
  listed := by simp
  foreign := by simp +contextual [ite_eq_iff]

def sampleIntake : Library.Intake String where
  safeFilename filename := filename
  detect _ _ := .ok "pdf"
  contentHash data := data

theorem planning_readOnly : planning.ReadOnly reader 7 := by
  refine ⟨?_, _, ⟨List.mem_singleton.mpr rfl, rfl, rfl, by decide⟩, rfl⟩
  rintro (hadmin | ⟨_, _, _, departmentId, hdepartment, _⟩ | ⟨grant, hholds, hlevel⟩)
  · cases hadmin
  · cases hdepartment
  · obtain rfl := List.mem_singleton.mp hholds.1
    rcases hlevel with hwrite | hadmin
    · cases hwrite
    · cases hadmin

/-- The invalidation behind the points raises. -/
theorem call_lawful_iff_interrupted :
    ∃ finish, Transition.exec (planning.callStep reader sampleIntake (.delete 1))
        (planning.begin {}) [.ok, .ok, .raise "redis is down"] = some finish ∧
      finish.phase = .raised ⟨500, "redis is down"⟩ ∧
      (planning.Lawful reader (.delete 1 : Library.Mutation String) finish ↔
        ¬ ((∃ collectionId, planning.target (.delete 1 : Library.Mutation String) =
              some collectionId ∧ planning.ReadOnly reader collectionId) ∧
          Transition.Occurs (planning.callStep reader sampleIntake (.delete 1))
            (planning.begin {}) [.ok, .ok, .raise "redis is down"]
            (planning.Acts reader sampleIntake (.delete 1)))) :=
  ⟨_, rfl, rfl, call_lawful_iff rfl⟩

/-- The reader deletes the document. -/
theorem call_not_lawful :
    ∃ finish, Transition.exec (planning.callStep reader sampleIntake (.delete 1))
        (planning.begin {}) (List.replicate 5 .ok) = some finish ∧
      finish.phase = .returned .deleted ∧ planning.ReadOnly reader 7 ∧
      planning.target (.delete 1 : Library.Mutation String) = some 7 ∧
      finish.stores.documents 1 = none ∧
      ¬ planning.Lawful reader (.delete 1 : Library.Mutation String) finish := by
  refine ⟨_, rfl, rfl, planning_readOnly, rfl, rfl, ?_⟩
  exact (Library.Acted.returned .deleted rfl).not_lawful rfl planning_readOnly.1

end AgenticRag.Access
