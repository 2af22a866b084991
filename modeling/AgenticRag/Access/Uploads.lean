import AgenticRag.Access.Mutations
import AgenticRag.Ingestion.Custody

/-!
# Uploads that are interrupted

`create_document` as the sequence of its commands.  Any of them may raise, before or
after it has taken effect: the rows become visible at the commit, the payload reaches
the queue by a command of its own.  A later upload of the same bytes finds the row.
-/

namespace AgenticRag.Access

open AgenticRag.Ingestion (Dispatch DispatchAction DispatchMove Document QueueItem dispatchStep
  dispatchStep_moves)

/-- A command raises; `done` when it has taken effect before. -/
structure Fault where
  step : UploadStep
  done : Bool
  message : String
  deriving DecidableEq

/-- The commands that take effect. -/
def performed : Option Fault → List UploadStep
  | none => uploadSteps
  | some fault =>
      uploadSteps.takeWhile (· ≠ fault.step) ++ if fault.done then [fault.step] else []

/-- The rows behind the upload route; `documentIds` lists the documents with their
content hashes. -/
structure Catalogue where
  dispatch : Dispatch := {}
  documentIds : List Uuid := []
  contentHash : Uuid → String := fun _ => ""

namespace Catalogue

variable (catalogue : Catalogue)

/-- The row with this content in this collection. -/
def existing (collectionId : Uuid) (digest : String) : Option Uuid :=
  catalogue.documentIds.find? fun documentId =>
    catalogue.contentHash documentId = digest &&
      (catalogue.dispatch.stores.documents documentId).any (·.collectionId = collectionId)

/-- The commands that take effect, one after the other; the session is closed without
another commit. -/
def insertDocument (documentId jobId : Uuid) (document : Document) (digest : String)
    (fault : Option Fault) : Catalogue :=
  let dispatch := catalogue.dispatch
  let upload := (performed fault).foldl (UploadStep.perform documentId jobId document)
    { stores := dispatch.stores, worker := dispatch.worker }
  let catalogue :=
    { catalogue with
      dispatch := { dispatch with stores := upload.stores, worker := upload.worker } }
  if .commit ∈ performed fault then
    { catalogue with
      documentIds := catalogue.documentIds ++ [documentId]
      contentHash := Function.update catalogue.contentHash documentId digest }
  else catalogue

section

variable {Bytes : Type} (canAccess : User → Uuid → Bool) (intake : Library.Intake Bytes)

/-- `create_document`: what it leaves behind, and the id of the document with whether it
is a duplicate. -/
def createDocument (user : User) (collectionId : Uuid) (filename : String) (data : Bytes)
    (documentId jobId : Uuid) (fault : Option Fault) :
    Catalogue × Except HttpError (Uuid × Bool) :=
  if canAccess user collectionId then
    let filename := intake.safeFilename filename
    match intake.detect filename data with
    | .error message => (catalogue, .error ⟨415, message⟩)
    | .ok fileType =>
        match catalogue.existing collectionId (intake.contentHash data) with
        | some duplicate => (catalogue, .ok (duplicate, true))
        | none =>
            (catalogue.insertDocument documentId jobId
              { collectionId := collectionId, filename := filename, fileType := fileType }
              (intake.contentHash data) fault,
            match fault with
            | none => .ok (documentId, false)
            | some fault => .error ⟨500, fault.message⟩)
  else (catalogue, .error ⟨404, "Collection not found"⟩)

/-- Nothing stops the upload before its first command. -/
def Admits (user : User) (collectionId : Uuid) (filename : String) (data : Bytes) : Prop :=
  canAccess user collectionId = true ∧
    (∃ fileType, intake.detect (intake.safeFilename filename) data = .ok fileType) ∧
      catalogue.existing collectionId (intake.contentHash data) = none

end

end Catalogue

/-- An upload, a re-index request that raises between its commit and its push, or anything
else that happens to the queue. -/
inductive CatalogueAction (Bytes : Type) where
  | create (user : User) (collectionId : Uuid) (filename : String) (data : Bytes)
      (documentId jobId : Uuid) (fault : Option Fault)
  | interrupt (item : QueueItem)
  | other (action : DispatchAction)

/-- The actions that are not uploads: all payloads come from requests. -/
def isOther : DispatchAction → Bool
  | .upload _ _ _ _ _ | .enqueue _ => false
  | .load _ | .reindex _ _ _ | .push _ | .work _ | .requeueDlq _ _ | .drain _ => true

section

variable {Bytes : Type} (canAccess : User → Uuid → Bool) (intake : Library.Intake Bytes)
variable (settings : Settings)

/-- One upload with the ids it draws, or one step of the system. -/
def catalogueStep (state : Catalogue) : CatalogueAction Bytes → Option Catalogue
  | .create user collectionId filename data documentId jobId fault =>
      if state.dispatch.stores.documents documentId = none ∧
          state.dispatch.stores.jobs jobId = none then
        some (state.createDocument canAccess intake user collectionId filename data documentId
          jobId fault).1
      else none
  | .interrupt item =>
      if item ∈ state.dispatch.announced then
        some { state with dispatch := state.dispatch.forget item }
      else none
  | .other action =>
      if isOther action then
        (dispatchStep settings state.dispatch action).map fun dispatch =>
          { state with dispatch := dispatch }
      else none

/-- The upload of the document raises after its commit has taken effect and before its
push has. -/
def Strands (documentId : Uuid) (state : Catalogue) : CatalogueAction Bytes → Prop
  | .create user collectionId filename data newId _ fault =>
      newId = documentId ∧ state.Admits canAccess intake user collectionId filename data ∧
        .commit ∈ performed fault ∧ .enqueue ∉ performed fault
  | .interrupt _ | .other _ => False

/-- A re-index request for the document pushes its payload. -/
def Pushes (documentId : Uuid) (_ : Catalogue) : CatalogueAction Bytes → Prop
  | .other (.push item) => item.documentId = documentId
  | _ => False

/-- A re-index request for the document commits. -/
def Reindexes (documentId : Uuid) (_ : Catalogue) : CatalogueAction Bytes → Prop
  | .other (.reindex reindexed _ _) => reindexed = documentId
  | _ => False

end

/-! ## What an upload leaves behind -/

section Uploads

variable {Bytes : Type} {canAccess : User → Uuid → Bool} {intake : Library.Intake Bytes}
variable {settings : Settings} {state next : Catalogue} {user : User} {collectionId : Uuid}
variable {filename : String} {data : Bytes} {documentId jobId : Uuid} {fault : Option Fault}

/-- The payload of the first attempt. -/
def firstPayload (documentId jobId : Uuid) : QueueItem :=
  ⟨documentId, 0, some jobId⟩

/-- Without its commit an upload leaves no row; with it the rows are there, and the
payload if the push has taken effect. -/
theorem insertDocument_cases (fileType digest : String) :
    let inserted := state.insertDocument documentId jobId
      { collectionId := collectionId, filename := filename, fileType := fileType } digest fault
    (.commit ∉ performed fault ∧ ∃ files, inserted = { state with
      dispatch := { state.dispatch with stores := { state.dispatch.stores with files := files } } }) ∨
    (.commit ∈ performed fault ∧ .enqueue ∉ performed fault ∧ inserted.dispatch =
      state.dispatch.store documentId jobId collectionId filename fileType) ∨
    (.enqueue ∈ performed fault ∧ inserted.dispatch =
      (state.dispatch.store documentId jobId collectionId filename fileType).push
        (firstPayload documentId jobId)) := by
  rcases fault with _ | ⟨step, done, message⟩
  · exact Or.inr (Or.inr ⟨by decide, rfl⟩)
  · have hany : ∀ other, performed (some ⟨step, done, message⟩) =
        performed (some ⟨step, done, other⟩) := fun _ => rfl
    rw [hany ""]
    cases step with
    | insert | saveDocument | recordAudit | createJob =>
        cases done with
        | false => exact Or.inl ⟨by decide, _, rfl⟩
        | true => exact Or.inl ⟨by decide, _, rfl⟩
    | commit =>
        cases done with
        | false => exact Or.inl ⟨by decide, _, rfl⟩
        | true => exact Or.inr (Or.inl ⟨by decide, by decide, rfl⟩)
    | refresh =>
        cases done with
        | false => exact Or.inr (Or.inl ⟨by decide, by decide, rfl⟩)
        | true => exact Or.inr (Or.inl ⟨by decide, by decide, rfl⟩)
    | enqueue =>
        cases done with
        | false => exact Or.inr (Or.inl ⟨by decide, by decide, rfl⟩)
        | true => exact Or.inr (Or.inr ⟨by decide, rfl⟩)

/-- What an upload does to the queue and its rows: nothing but write the file, or
store the rows and push the payload, or store the rows alone, which strands the
document. -/
theorem catalogueStep_create
    (hstep : catalogueStep canAccess intake settings state
      (.create user collectionId filename data documentId jobId fault) = some next) :
    state.dispatch.stores.documents documentId = none ∧
      state.dispatch.stores.jobs jobId = none ∧
      ((¬ Strands canAccess intake documentId state
            (.create user collectionId filename data documentId jobId fault) ∧
          ∃ files, next.dispatch = { state.dispatch with
            stores := { state.dispatch.stores with files := files } }) ∨
        (Strands canAccess intake documentId state
            (.create user collectionId filename data documentId jobId fault) ∧
          ∃ name fileType, next.dispatch =
            state.dispatch.store documentId jobId collectionId name fileType) ∨
        (¬ Strands canAccess intake documentId state
            (.create user collectionId filename data documentId jobId fault) ∧
          ∃ name fileType, next.dispatch =
            (state.dispatch.store documentId jobId collectionId name fileType).push
              (firstPayload documentId jobId))) := by
  simp only [catalogueStep] at hstep
  split_ifs at hstep with hfresh
  cases hstep
  refine ⟨hfresh.1, hfresh.2, ?_⟩
  unfold Catalogue.createDocument Strands
  split_ifs with haccess
  · dsimp only
    split
    · rename_i message hdetect
      refine Or.inl ⟨fun hstrands => ?_, _, rfl⟩
      obtain ⟨fileType, hok⟩ := hstrands.2.1.2.1
      rw [hdetect] at hok
      cases hok
    · rename_i fileType hdetect
      split
      · rename_i duplicate hduplicate
        refine Or.inl ⟨fun hstrands => ?_, _, rfl⟩
        rw [hstrands.2.1.2.2] at hduplicate
        cases hduplicate
      · rename_i hnew
        have hadmits : state.Admits canAccess intake user collectionId filename data :=
          ⟨haccess, ⟨fileType, hdetect⟩, hnew⟩
        rcases @insertDocument_cases state collectionId (intake.safeFilename filename) documentId
          jobId fault fileType (intake.contentHash data) with ⟨hcommit, files, hinsert⟩ |
            ⟨hcommit, henqueue, hinsert⟩ | ⟨henqueue, hinsert⟩
        · exact Or.inl ⟨fun hstrands => hcommit hstrands.2.2.1, files, by rw [hinsert]⟩
        · exact Or.inr (Or.inl ⟨⟨rfl, hadmits, hcommit, henqueue⟩, _, fileType, hinsert⟩)
        · exact Or.inr (Or.inr ⟨fun hstrands => hstrands.2.2.2 henqueue, _, fileType, hinsert⟩)
  · exact Or.inl ⟨fun hstrands => haccess hstrands.2.1.1, _, rfl⟩

/-- The queue and its rows are in order. -/
structure Catalogue.Sound (state : Catalogue) : Prop where
  tracked : state.dispatch.Tracked
  owned : state.dispatch.Owned

theorem firstPayload_owned (stores : Ingestion.Stores) (collectionId : Uuid)
    (name fileType : String) : (firstPayload documentId jobId).Owned
      (stores.createDocument documentId jobId collectionId name fileType) :=
  ⟨jobId, _, rfl, Function.update_self _ _ _, rfl⟩

theorem Catalogue.Sound.create (hsound : state.Sound)
    (hstep : catalogueStep canAccess intake settings state
      (.create user collectionId filename data documentId jobId fault) = some next) :
    next.Sound := by
  obtain ⟨hdocument, hjob, ⟨_, files, hnext⟩ | ⟨_, name, fileType, hnext⟩ |
    ⟨_, name, fileType, hnext⟩⟩ := catalogueStep_create hstep
  · obtain ⟨tracked, owned⟩ := hsound
    constructor
    · rw [hnext]
      exact ⟨tracked.documents, tracked.phase.mono fun _ _ hrow => hrow⟩
    · rw [hnext]
      exact ⟨owned.queue, owned.held, owned.letters, owned.announced, owned.popped, owned.own,
        owned.foreign⟩
  · constructor
    · rw [hnext]
      exact hsound.tracked.store hjob
    · rw [hnext]
      exact hsound.owned.store hjob
  · constructor
    · rw [hnext]
      exact (hsound.tracked.store hjob).push (Ingestion.setDocument_ne_none (Or.inr rfl))
    · rw [hnext]
      exact (hsound.owned.store hjob).push (firstPayload_owned _ _ _ _)

/-- A step that is no upload is a step of the queue. -/
theorem catalogueStep_other {action : DispatchAction}
    (hstep : catalogueStep canAccess intake settings state (.other action) = some next) :
    DispatchMove settings state.dispatch action next.dispatch ∧
      (∀ item, action ≠ .enqueue item) ∧
        (∀ documentId, action.Supplies documentId →
          Reindexes documentId state (.other action : CatalogueAction Bytes)) ∧
        ∀ documentId, action.Delivers documentId ↔
          Pushes documentId state (.other action : CatalogueAction Bytes) := by
  simp only [catalogueStep] at hstep
  split_ifs at hstep with hother
  obtain ⟨dispatch, hdispatch, rfl⟩ := Option.map_eq_some_iff.mp hstep
  refine ⟨dispatchStep_moves hdispatch, ?_, ?_, ?_⟩
  · rintro item rfl
    cases hother
  · intro documentId hsupplies
    cases action with
    | reindex => exact hsupplies
    | upload | enqueue => cases hother
    | load | push | work | requeueDlq | drain => cases hsupplies
  · intro documentId
    cases action with
    | upload | enqueue => cases hother
    | push | reindex | load | work | requeueDlq | drain => exact Iff.rfl

theorem catalogueStep_interrupt {item : QueueItem}
    (hstep : catalogueStep canAccess intake settings state
      (.interrupt item : CatalogueAction Bytes) = some next) :
    next.dispatch = state.dispatch.forget item := by
  simp only [catalogueStep] at hstep
  split_ifs at hstep
  cases hstep
  rfl

theorem Catalogue.Sound.step {action : CatalogueAction Bytes} (hsound : state.Sound)
    (hstep : catalogueStep canAccess intake settings state action = some next) :
    next.Sound := by
  cases action with
  | create => exact hsound.create hstep
  | interrupt item =>
      constructor
      · rw [catalogueStep_interrupt hstep]
        exact hsound.tracked.forget
      · rw [catalogueStep_interrupt hstep]
        exact hsound.owned.forget
  | other action =>
      obtain ⟨hmove, hknown, _⟩ := catalogueStep_other hstep
      exact ⟨hmove.tracked hsound.tracked, hmove.owned hsound.tracked hsound.owned hknown⟩

/-- The document exists, and no ingest job of it is queued, running or finished. -/
def Stranded (documentId : Uuid) (state : Catalogue) : Prop :=
  state.dispatch.stores.documents documentId ≠ none ∧ ¬ state.dispatch.HasJob documentId

theorem stranded_of_strands {action : CatalogueAction Bytes} (hsound : state.Sound)
    (hstep : catalogueStep canAccess intake settings state action = some next)
    (hstrands : Strands canAccess intake documentId state action) : Stranded documentId next := by
  cases action with
  | interrupt item => cases hstrands
  | other action => cases hstrands
  | create user collectionId filename data newId jobId fault =>
      obtain rfl := hstrands.1
      obtain ⟨hdocument, hjob, ⟨hnot, _⟩ | ⟨_, name, fileType, hnext⟩ | ⟨hnot, _⟩⟩ :=
        catalogueStep_create hstep
      · exact absurd hstrands hnot
      · unfold Stranded
        rw [hnext, Ingestion.hasJob_store hjob]
        exact ⟨Ingestion.setDocument_ne_none (Or.inr rfl),
          Ingestion.not_hasJob hsound.tracked hsound.owned hdocument⟩
      · exact absurd hstrands hnot

theorem not_stranded_of_pushes {action : CatalogueAction Bytes} (hsound : state.Sound)
    (hstep : catalogueStep canAccess intake settings state action = some next)
    (hpushes : Pushes documentId state action) : ¬ Stranded documentId next := by
  cases action with
  | create => cases hpushes
  | interrupt item => cases hpushes
  | other action =>
      obtain ⟨hmove, _, _, hdelivers⟩ := catalogueStep_other hstep
      exact fun hstranded => hstranded.2 ((hmove.hasJob_iff hsound.owned documentId).mpr
        (Or.inr ((hdelivers documentId).mpr hpushes)))

/-- Any other step leaves the document as it is. -/
theorem stranded_iff {action : CatalogueAction Bytes} (hsound : state.Sound)
    (hstep : catalogueStep canAccess intake settings state action = some next)
    (hstrands : ¬ Strands canAccess intake documentId state action)
    (hpushes : ¬ Pushes documentId state action) :
    Stranded documentId next ↔ Stranded documentId state := by
  cases action with
  | create user collectionId filename data newId jobId fault =>
      obtain ⟨hdocument, hjob, ⟨_, files, hnext⟩ | ⟨hown, name, fileType, hnext⟩ |
        ⟨_, name, fileType, hnext⟩⟩ := catalogueStep_create hstep
      · unfold Stranded
        rw [hnext]
        exact Iff.rfl
      · have hother : documentId ≠ newId := by
          rintro rfl
          exact hstrands hown
        unfold Stranded
        rw [hnext, Ingestion.hasJob_store hjob, Ingestion.store_documents hother]
      · unfold Stranded
        rw [hnext, Ingestion.hasJob_push, Ingestion.hasJob_store hjob]
        by_cases hsame : documentId = newId
        · rw [hsame]
          exact iff_of_false (fun hstranded => hstranded.2 (Or.inr rfl))
            (fun hstranded => hstranded.1 hdocument)
        · have hpayload : (firstPayload newId jobId).documentId ≠ documentId := Ne.symm hsame
          have hdocuments : ((state.dispatch.store newId jobId collectionId name fileType).push
              (firstPayload newId jobId)).stores.documents documentId =
                state.dispatch.stores.documents documentId := Ingestion.store_documents hsame
          rw [or_iff_left hpayload, hdocuments]
  | interrupt item =>
      unfold Stranded
      rw [catalogueStep_interrupt hstep]
      exact Iff.rfl
  | other action =>
      obtain ⟨hmove, _, hreindex, hdelivers⟩ := catalogueStep_other hstep
      have hjob := hmove.hasJob_iff hsound.owned documentId
      rw [hdelivers, or_iff_left hpushes] at hjob
      unfold Stranded
      rw [hjob]
      apply and_congr_left'
      by_cases hknown : state.dispatch.stores.documents documentId ≠ none
      · exact iff_of_true (hmove.documents hsound.tracked.phase (Or.inl hknown)) hknown
      · rw [not_not] at hknown
        have hmentions : ¬ state.dispatch.Mentions documentId := fun hmentions =>
          hsound.tracked.documents documentId hmentions hknown
        have hsupplies : ¬ action.Supplies documentId := by
          intro hsupplies
          have hreindexes := hreindex documentId hsupplies
          cases action with
          | reindex reindexed =>
              obtain rfl : reindexed = documentId := hsupplies
              exact hmove.reindexed_row hknown
          | upload | load | push | enqueue | work | requeueDlq | drain => cases hreindexes
        rw [hmove.document_kept hsound.tracked hmentions hsupplies]

/-! ## Later uploads -/

theorem catalogue_sound {actions : List (CatalogueAction Bytes)}
    (hrun : Transition.exec (catalogueStep canAccess intake settings) {} actions = some state) :
    state.Sound :=
  Transition.exec_invariant (fun _ _ _ hsound hstep => Catalogue.Sound.step hsound hstep) hrun
    ⟨Ingestion.tracked_empty {}, Ingestion.owned_empty⟩

/-- A document is without a job exactly when an upload has stranded it and no re-index
request has pushed its payload since. -/
theorem stranded_iff_unanswered {actions : List (CatalogueAction Bytes)}
    (hrun : Transition.exec (catalogueStep canAccess intake settings) {} actions = some state) :
    Stranded documentId state ↔
      Transition.Unanswered (catalogueStep canAccess intake settings) {} actions
        (Strands canAccess intake documentId) (Pushes documentId) := by
  have hiff := Transition.holds_iff_unanswered (motive := Stranded documentId)
    (fun _ _ _ _ hpast hstep hstrands =>
      stranded_of_strands (catalogue_sound hpast) hstep hstrands)
    (fun _ _ _ _ hpast hstep hpushes =>
      not_stranded_of_pushes (catalogue_sound hpast) hstep hpushes)
    (fun _ _ _ _ hpast hstep hstrands hpushes =>
      stranded_iff (catalogue_sound hpast) hstep hstrands hpushes) hrun
  have hempty : ¬ Stranded documentId {} := fun hstranded => hstranded.1 rfl
  exact hiff.trans (or_iff_right fun hstart => hempty hstart.1)

/-- No payload of the document exists, and without a re-index request none comes up: its
row stays as it is. -/
theorem forgotten_step {action : CatalogueAction Bytes} (hsound : state.Sound)
    (hrow : state.dispatch.stores.documents documentId ≠ none)
    (hmentions : ¬ state.dispatch.Mentions documentId)
    (hstep : catalogueStep canAccess intake settings state action = some next)
    (hreindexes : ¬ Reindexes documentId state action) :
    ¬ next.dispatch.Mentions documentId ∧
      next.dispatch.stores.documents documentId =
        state.dispatch.stores.documents documentId := by
  cases action with
  | create user collectionId filename data newId jobId fault =>
      obtain ⟨hdocument, hjob, heffect⟩ := catalogueStep_create hstep
      have hother : documentId ≠ newId := by
        rintro rfl
        exact hrow hdocument
      rcases heffect with ⟨_, files, hnext⟩ | ⟨_, name, fileType, hnext⟩ |
        ⟨_, name, fileType, hnext⟩
      · rw [hnext]
        exact ⟨hmentions, rfl⟩
      · rw [hnext]
        exact ⟨hmentions, Ingestion.store_documents hother⟩
      · rw [hnext]
        refine ⟨?_, Ingestion.store_documents hother⟩
        rintro (hworker | hrest)
        · rcases Ingestion.mentions_push.mp hworker with hold | hsame
          · exact hmentions (Or.inl hold)
          · exact hother hsame.symm
        · exact hmentions (Or.inr hrest)
  | interrupt item =>
      rw [catalogueStep_interrupt hstep]
      refine ⟨?_, rfl⟩
      rintro (hworker | ⟨found, hfound, hsame⟩ | hpopped)
      · exact hmentions (Or.inl hworker)
      · exact hmentions (Or.inr (Or.inl ⟨found, List.mem_of_mem_erase hfound, hsame⟩))
      · exact hmentions (Or.inr (Or.inr hpopped))
  | other action =>
      obtain ⟨hmove, _, hreindex, _⟩ := catalogueStep_other hstep
      have hsupplies : ¬ action.Supplies documentId := fun hsupplies =>
        hreindexes (hreindex documentId hsupplies)
      exact ⟨fun hnext => (hmove.mentions hnext).elim hmentions hsupplies,
        hmove.document_kept hsound.tracked hmentions hsupplies⟩

theorem forgotten_stays {actions : List (CatalogueAction Bytes)} (hsound : state.Sound)
    (hrow : state.dispatch.stores.documents documentId ≠ none)
    (hmentions : ¬ state.dispatch.Mentions documentId)
    (hrun : Transition.exec (catalogueStep canAccess intake settings) state actions = some next)
    (hnone : ¬ Transition.Occurs (catalogueStep canAccess intake settings) state actions
      (Reindexes documentId)) :
    next.dispatch.stores.documents documentId =
      state.dispatch.stores.documents documentId := by
  have hkept := Transition.exec_unless
    (motive := fun reached : Catalogue => reached.Sound ∧
      ¬ reached.dispatch.Mentions documentId ∧
      reached.dispatch.stores.documents documentId = state.dispatch.stores.documents documentId)
    ⟨hsound, hmentions, rfl⟩ ?_ hrun hnone
  · exact hkept.2.2
  · rintro past reached action following _ ⟨hsound, hmentions, hsame⟩ hstep hreindexes
    obtain ⟨hkept, hrowKept⟩ :=
      forgotten_step hsound (by rw [hsame]; exact hrow) hmentions hstep hreindexes
    exact ⟨hsound.step hstep, hkept, hrowKept.trans hsame⟩

/-- A duplicate is a document of the catalogue. -/
theorem createDocument_duplicate {duplicate : Uuid}
    (hlater : (state.createDocument canAccess intake user collectionId filename data documentId
      jobId fault).2 = .ok (duplicate, true)) :
    state.dispatch.stores.documents duplicate ≠ none := by
  unfold Catalogue.createDocument at hlater
  split_ifs at hlater
  · dsimp only at hlater
    split at hlater
    · cases hlater
    · split at hlater
      · rename_i found hfound
        cases hlater
        have hrow := List.find?_some hfound
        rw [Bool.and_eq_true] at hrow
        obtain ⟨document, hdocument, _⟩ := (Option.any_eq_true _ _).mp hrow.2
        rw [hdocument]
        exact Option.some_ne_none document
      · split at hlater
        · cases hlater
        · cases hlater

/-- A later upload that finds a document finds one with a queued, running or finished
job, unless the upload that stored it raised after its commit had taken effect and
before its push had, and no re-index request has pushed its payload since. -/
theorem createDocument_duplicate_iff {actions : List (CatalogueAction Bytes)} {duplicate : Uuid}
    (hrun : Transition.exec (catalogueStep canAccess intake settings) {} actions = some state)
    (hlater : (state.createDocument canAccess intake user collectionId filename data documentId
      jobId fault).2 = .ok (duplicate, true)) :
    state.dispatch.HasJob duplicate ↔
      ¬ Transition.Unanswered (catalogueStep canAccess intake settings) {} actions
        (Strands canAccess intake duplicate) (Pushes duplicate) := by
  rw [← stranded_iff_unanswered hrun]
  have hrow := createDocument_duplicate hlater
  constructor
  · intro hjob hstranded
    exact hstranded.2 hjob
  · intro hnot
    by_contra hnone
    exact hnot ⟨hrow, hnone⟩

/-- The upload whose push raises. -/
def sampleInterrupted : CatalogueAction String :=
  .create ⟨1, .user, none⟩ 3 "handbook.pdf" "content" 7 1
    (some ⟨.enqueue, false, "redis is down"⟩)

/-- A first re-index request raises between its commit and its push, a second one pushes. -/
def sampleHelped : List (CatalogueAction String) :=
  [sampleInterrupted, .other (.load 7),
    .other (.reindex 7 2 { collectionId := 3, filename := "handbook.pdf", fileType := "pdf" }),
    .interrupt ⟨7, 0, some 2⟩, .other (.load 7),
    .other (.reindex 7 5 { collectionId := 3, filename := "handbook.pdf", fileType := "pdf" }),
    .other (.push ⟨7, 0, some 5⟩)]

theorem createDocument_duplicate_iff_helped :
    ∃ finish, Transition.exec (catalogueStep (fun _ _ => true) sampleIntake {}) {}
        sampleHelped = some finish ∧
      (finish.dispatch.HasJob 7 ↔
        ¬ Transition.Unanswered (catalogueStep (fun _ _ => true) sampleIntake {}) {}
          sampleHelped (Strands (fun _ _ => true) sampleIntake 7) (Pushes 7)) := by
  have hrun : ∃ finish, Transition.exec (catalogueStep (fun _ _ => true) sampleIntake {}) {}
        sampleHelped = some finish ∧
      (finish.createDocument (fun _ _ => true) sampleIntake ⟨1, .user, none⟩ 3 "handbook.pdf"
        "content" 8 4 none).2 = .ok (7, true) := ⟨_, rfl, rfl⟩
  obtain ⟨finish, hrun, hlater⟩ := hrun
  exact ⟨finish, hrun, createDocument_duplicate_iff hrun hlater⟩

/-- The upload fails, and the next upload of the file calls it a duplicate: of a document
that stays pending until somebody asks for it. -/
theorem createDocument_duplicate_unqueued :
    ∃ finish, Transition.exec (catalogueStep (fun _ _ => true) sampleIntake {}) {}
        [sampleInterrupted] = some finish ∧
      (({} : Catalogue).createDocument (fun _ _ => true) sampleIntake ⟨1, .user, none⟩ 3
          "handbook.pdf" "content" 7 1 (some ⟨.enqueue, false, "redis is down"⟩)).2 =
        .error ⟨500, "redis is down"⟩ ∧
      (finish.createDocument (fun _ _ => true) sampleIntake ⟨1, .user, none⟩ 3 "handbook.pdf"
          "content" 8 4 none).2 = .ok (7, true) ∧
      ¬ finish.dispatch.HasJob 7 ∧
        ∀ actions later, Transition.exec (catalogueStep (fun _ _ => true) sampleIntake {}) finish
            actions = some later →
          ¬ Transition.Occurs (catalogueStep (fun _ _ => true) sampleIntake {}) finish actions
            (Reindexes 7) →
          later.dispatch.stores.documents 7 =
            some { collectionId := 3, filename := "handbook.pdf", fileType := "pdf" } := by
  have hsound : ({} : Catalogue).Sound := ⟨Ingestion.tracked_empty {}, Ingestion.owned_empty⟩
  have hstrands : Strands (fun _ _ => true) sampleIntake 7 {} sampleInterrupted :=
    ⟨rfl, ⟨rfl, ⟨"pdf", rfl⟩, rfl⟩, by decide, by decide⟩
  have hrun : ∃ finish, catalogueStep (fun _ _ => true) sampleIntake {} {} sampleInterrupted =
        some finish ∧
      (finish.createDocument (fun _ _ => true) sampleIntake ⟨1, .user, none⟩ 3 "handbook.pdf"
        "content" 8 4 none).2 = .ok (7, true) ∧ finish.dispatch.announced = [] ∧
      finish.dispatch.stores.documents 7 =
        some { collectionId := 3, filename := "handbook.pdf", fileType := "pdf" } :=
    ⟨_, rfl, rfl, rfl, rfl⟩
  obtain ⟨finish, hstep, hduplicate, hannounced, hrow⟩ := hrun
  have hstranded := stranded_of_strands hsound hstep hstrands
  have hmentions : ¬ finish.dispatch.Mentions 7 := by
    rintro (hworker | ⟨item, hitem, _⟩ | hpopped)
    · exact hstranded.2 (Or.inl (Or.inl hworker))
    · rw [hannounced] at hitem
      cases hitem
    · exact hstranded.2 (Or.inl (Or.inr hpopped))
  refine ⟨finish, by rw [Transition.exec_cons, hstep]; rfl, rfl, hduplicate, hstranded.2, ?_⟩
  intro actions later hlater hnone
  rw [forgotten_stays (hsound.step hstep) hstranded.1 hmentions hlater hnone, hrow]

end Uploads

end AgenticRag.Access
