import AgenticRag.Access.Documents
import AgenticRag.Graph.State

/-!
# Who may read a document

The document routes, the media routes and the history of a session decide with
`can_access_collection` or with the set behind it; `can_access_document`, which
also looks at permissions on the document itself, is not called.
-/

namespace AgenticRag.Access

open AgenticRag.Ingestion (Bucket Document IngestJob StoredObject)

/-- A row of `chat_messages`. -/
structure ChatMessage where
  role : Role
  content : String
  citations : Option (List Citation)
  deriving DecidableEq

/-- A row of `chat_sessions` with its messages, oldest first. -/
structure ChatSession where
  userId : Uuid
  messages : List ChatMessage
  deriving DecidableEq

/-- A citation as the history shows it. -/
inductive VisibleCitation where
  | full (citation : Citation)
  | revoked (marker : Option ℕ)
  deriving DecidableEq

/-- A message as the history shows it. -/
structure ChatMessageOut where
  role : Role
  content : String
  citations : Option (List VisibleCitation)
  deriving DecidableEq

/-- `_FIGURE_ID.match`; its `$` also matches in front of a final line feed. -/
def isFigureId (figureId : String) : Bool :=
  let chars := figureId.toList
  let body := if chars.getLast? = some '\n' then chars.dropLast else chars
  body ≠ [] && body.length ≤ 128 &&
    body.all fun char => char.isAlphanum || char = '_' || char = '-'

/-- `_png_response` -/
def pngResponse {Png : Type} (objectStore : StoredObject → Option Png)
    (object : StoredObject) : Except HttpError Png :=
  match objectStore object with
  | none => .error ⟨404, "Not found"⟩
  | some png => .ok png

namespace Library

variable (library : Library) (user : User)

/-! ## The read paths -/

/-- The rows of the collections, newest first. -/
def documentsIn (collectionIds : Finset Uuid) : List Uuid :=
  library.documentIds.filter fun documentId =>
    (library.stores.documents documentId).any (·.collectionId ∈ collectionIds)

/-- `list_documents` -/
def listDocuments (collectionId : Option Uuid) : Except HttpError (List Uuid) :=
  let allowed := library.tables.accessibleCollectionIds user
  if allowed = ∅ then .ok []
  else
    match collectionId with
    | none => .ok (library.documentsIn allowed)
    | some collectionId =>
        if collectionId ∉ allowed then .error ⟨404, "Collection not found"⟩
        else .ok (library.documentsIn {collectionId})

/-- `get_document` -/
def getDocument (documentId : Uuid) : Except HttpError Document :=
  library.getAccessible user documentId

/-- `ingest_status`, with the latest job of each document. -/
def ingestStatus (latestJob : Uuid → Option IngestJob) (documentId : Uuid) :
    Except HttpError (Option IngestJob) :=
  (library.getAccessible user documentId).map fun _ => latestJob documentId

/-- `_authorized_document` -/
def authorizedDocument (documentId : Uuid) : Except HttpError Document :=
  match library.stores.documents documentId with
  | none => .error ⟨404, "Not found"⟩
  | some document =>
      if library.canAccessCollection user document.collectionId then .ok document
      else .error ⟨404, "Not found"⟩

/-- `page_image` -/
def pageImage {Png : Type} (objectStore : StoredObject → Option Png) (documentId : Uuid)
    (pageNo : ℤ) : Except HttpError Png := do
  let _ ← library.authorizedDocument user documentId
  if pageNo < 1 then .error ⟨404, "Not found"⟩
  else pngResponse objectStore ⟨.pages, documentId, toString pageNo⟩

/-- `figure_image` -/
def figureImage {Png : Type} (objectStore : StoredObject → Option Png) (documentId : Uuid)
    (figureId : String) : Except HttpError Png := do
  let _ ← library.authorizedDocument user documentId
  if isFigureId figureId then pngResponse objectStore ⟨.figures, documentId, figureId⟩
  else .error ⟨404, "Not found"⟩

/-- `_readable_document_ids` -/
def readableDocumentIds (messages : List ChatMessage) : List Uuid :=
  let cited := messages.flatMap fun message =>
    (message.citations.getD []).map (·.documentId)
  let allowed := library.tables.accessibleCollectionIds user
  if cited = [] ∨ allowed = ∅ then []
  else (library.documentsIn allowed).filter (· ∈ cited)

end Library

/-- `_visible_citations` on one citation. -/
def visibleCitation (readable : List Uuid) (citation : Citation) : VisibleCitation :=
  if citation.documentId ∈ readable then .full citation else .revoked citation.marker

/-- `get_session` -/
def Library.getSession (library : Library) (user : User) (session : Option ChatSession) :
    Except HttpError (List ChatMessageOut) :=
  match session with
  | none => .error ⟨404, "Session not found"⟩
  | some session =>
      if session.userId ≠ user.id then .error ⟨404, "Session not found"⟩
      else
        let readable := library.readableDocumentIds user session.messages
        .ok (session.messages.map fun message =>
          { role := message.role
            content := message.content
            citations := message.citations.map (·.map (visibleCitation readable)) })

/-! ## One decision -/

namespace Library

variable (library : Library) (user : User) (documentId : Uuid)

/-- A permission on the document itself that the user holds, personally or through
the department. -/
def HoldsDocument (grant : Grant) : Prop :=
  grant ∈ library.grants ∧ grant.resourceType = .document ∧
    grant.resourceId = documentId ∧
    (grant.principalType, grant.principalId) ∈ Tables.principals user

/-- Every read path shows the document exactly when `decision` holds. -/
structure Decides (collectionId : Uuid) (decision : Prop) : Prop where
  listed : (∃ listing, library.listDocuments user none = .ok listing ∧
    documentId ∈ listing) ↔ decision
  listedIn : (∃ listing, library.listDocuments user (some collectionId) = .ok listing ∧
    documentId ∈ listing) ↔ decision
  detail : Succeeds (library.getDocument user documentId) ↔ decision
  status : ∀ latestJob, Succeeds (library.ingestStatus user latestJob documentId) ↔ decision
  page : ∀ (Png : Type) (objectStore : StoredObject → Option Png) (pageNo : ℤ), 1 ≤ pageNo →
    objectStore ⟨.pages, documentId, toString pageNo⟩ ≠ none →
    (Succeeds (library.pageImage user objectStore documentId pageNo) ↔ decision)
  figure : ∀ (Png : Type) (objectStore : StoredObject → Option Png) (figureId : String),
    isFigureId figureId = true → objectStore ⟨.figures, documentId, figureId⟩ ≠ none →
    (Succeeds (library.figureImage user objectStore documentId figureId) ↔ decision)
  history : ∀ session : ChatSession, session.userId = user.id →
    ∀ message ∈ session.messages, ∀ citations, message.citations = some citations →
    ∀ citation ∈ citations, citation.documentId = documentId →
    ((∃ shown, library.getSession user (some session) = .ok shown ∧
      ∃ out ∈ shown, ∃ visible, out.citations = some visible ∧
        .full citation ∈ visible) ↔ decision)

end Library

section Paths

variable {library : Library} {user : User} {documentId : Uuid} {document : Document}

/-- Access to a document is access to its collection or a permission on it. -/
theorem canAccessDocument_iff :
    library.canAccessDocument user documentId document = true ↔
      library.canAccessCollection user document.collectionId = true ∨
        ∃ grant, library.HoldsDocument user documentId grant := by
  have hgrants : ((Tables.principals user).any fun principal =>
      library.grants.any fun grant =>
        grant.resourceType = .document && grant.resourceId = documentId &&
          grant.principalType = principal.1 && grant.principalId = principal.2) = true ↔
      ∃ grant, library.HoldsDocument user documentId grant := by
    simp only [List.any_eq_true, Bool.and_eq_true, decide_eq_true_eq]
    constructor
    · rintro ⟨⟨_, _⟩, hprincipal, grant, hgrant, ⟨⟨hresource, hdocument⟩, rfl⟩, rfl⟩
      exact ⟨grant, hgrant, hresource, hdocument, hprincipal⟩
    · rintro ⟨grant, hgrant, hresource, hdocument, hprincipal⟩
      exact ⟨_, hprincipal, grant, hgrant, ⟨⟨hresource, hdocument⟩, rfl⟩, rfl⟩
  change (_ || _ || (Tables.principals user).any fun principal =>
    library.grants.any fun grant => _) = true ↔ _
  rw [Bool.or_eq_true, Bool.or_eq_true, hgrants]
  apply or_congr_left
  constructor
  · rintro (hadmin | haccess)
    · exact canAccessCollection_iff.mpr (Or.inl (of_decide_eq_true hadmin))
    · exact haccess
  · exact Or.inr

/-- For a collection with documents, `can_access_collection` is membership in the
accessible set. -/
theorem mem_accessible_iff (hdocument : library.stores.documents documentId = some document) :
    document.collectionId ∈ library.tables.accessibleCollectionIds user ↔
      library.canAccessCollection user document.collectionId = true := by
  unfold Library.canAccessCollection
  by_cases hadmin : user.role = .admin
  · obtain ⟨collection, hcollection, hid⟩ := library.foreign documentId document hdocument
    have hmem : document.collectionId ∈ library.tables.accessibleCollectionIds user := by
      rw [Tables.accessibleCollectionIds, if_pos hadmin, List.mem_toFinset, ← hid]
      exact List.mem_map_of_mem hcollection
    simp [hadmin, hmem]
  · simp [hadmin]

theorem mem_documentsIn (hdocument : library.stores.documents documentId = some document)
    {collectionIds : Finset Uuid} :
    documentId ∈ library.documentsIn collectionIds ↔
      document.collectionId ∈ collectionIds := by
  have hlisted : documentId ∈ library.documentIds := by
    rw [library.listed, hdocument]
    exact Option.some_ne_none document
  simp [Library.documentsIn, hlisted, hdocument]

theorem succeeds_getAccessible
    (hdocument : library.stores.documents documentId = some document) :
    Succeeds (library.getAccessible user documentId) ↔
      library.canAccessCollection user document.collectionId = true := by
  constructor
  · rintro ⟨found, hok⟩
    obtain ⟨hfound, haccess⟩ := getAccessible_ok.mp hok
    cases hdocument.symm.trans hfound
    exact haccess
  · intro haccess
    exact ⟨document, getAccessible_ok.mpr ⟨hdocument, haccess⟩⟩

/-- What stands behind `_authorized_document` runs for an accessible collection. -/
theorem succeeds_authorized (hdocument : library.stores.documents documentId = some document)
    {Png : Type} {serve : Except HttpError Png} (hserve : Succeeds serve) :
    Succeeds (library.authorizedDocument user documentId >>= fun _ => serve) ↔
      library.canAccessCollection user document.collectionId = true := by
  unfold Library.authorizedDocument
  rw [hdocument]
  by_cases haccess : library.canAccessCollection user document.collectionId = true
  · simp only [haccess, if_true, iff_true]
    exact hserve
  · simp only [haccess, if_false, iff_false, Bool.false_eq_true]
    rintro ⟨_, hok⟩
    cases hok

theorem succeeds_pngResponse {Png : Type} {objectStore : StoredObject → Option Png}
    {object : StoredObject} (hobject : objectStore object ≠ none) :
    Succeeds (pngResponse objectStore object) := by
  obtain ⟨png, hpng⟩ := Option.ne_none_iff_exists'.mp hobject
  exact ⟨png, by rw [pngResponse, hpng]⟩

theorem listed_iff (hdocument : library.stores.documents documentId = some document) :
    (∃ listing, library.listDocuments user none = .ok listing ∧ documentId ∈ listing) ↔
      library.canAccessCollection user document.collectionId = true := by
  rw [← mem_accessible_iff hdocument, Library.listDocuments]
  by_cases hempty : library.tables.accessibleCollectionIds user = ∅
  · simp [hempty]
  · simp [hempty, mem_documentsIn hdocument]

theorem listedIn_iff (hdocument : library.stores.documents documentId = some document) :
    (∃ listing, library.listDocuments user (some document.collectionId) = .ok listing ∧
        documentId ∈ listing) ↔
      library.canAccessCollection user document.collectionId = true := by
  rw [← mem_accessible_iff hdocument, Library.listDocuments]
  by_cases hempty : library.tables.accessibleCollectionIds user = ∅
  · simp [hempty]
  · by_cases hmem : document.collectionId ∈ library.tables.accessibleCollectionIds user
    · simp [hempty, hmem, mem_documentsIn hdocument]
    · simp [hempty, hmem]

/-- The history keeps the citations of the accessible collections. -/
theorem mem_readableDocumentIds
    (hdocument : library.stores.documents documentId = some document)
    {messages : List ChatMessage} {message : ChatMessage} (hmessage : message ∈ messages)
    {citations : List Citation} (hcitations : message.citations = some citations)
    {citation : Citation} (hcitation : citation ∈ citations)
    (hcited : citation.documentId = documentId) :
    documentId ∈ library.readableDocumentIds user messages ↔
      library.canAccessCollection user document.collectionId = true := by
  have hmem : documentId ∈ messages.flatMap fun message =>
      (message.citations.getD []).map (·.documentId) := by
    apply List.mem_flatMap.mpr
    refine ⟨message, hmessage, ?_⟩
    rw [hcitations, ← hcited]
    exact List.mem_map_of_mem hcitation
  rw [← mem_accessible_iff hdocument, Library.readableDocumentIds]
  by_cases hempty : library.tables.accessibleCollectionIds user = ∅
  · simp [hempty]
  · rw [if_neg (not_or.mpr ⟨List.ne_nil_of_mem hmem, hempty⟩), List.mem_filter,
      mem_documentsIn hdocument, decide_eq_true_eq]
    exact and_iff_left hmem

theorem history_iff (hdocument : library.stores.documents documentId = some document)
    {session : ChatSession} (howner : session.userId = user.id)
    {message : ChatMessage} (hmessage : message ∈ session.messages)
    {citations : List Citation} (hcitations : message.citations = some citations)
    {citation : Citation} (hcitation : citation ∈ citations)
    (hcited : citation.documentId = documentId) :
    (∃ shown, library.getSession user (some session) = .ok shown ∧
        ∃ out ∈ shown, ∃ visible, out.citations = some visible ∧
          .full citation ∈ visible) ↔
      library.canAccessCollection user document.collectionId = true := by
  rw [← mem_readableDocumentIds hdocument hmessage hcitations hcitation hcited]
  rw [Library.getSession, if_neg (not_not.mpr howner)]
  constructor
  · rintro ⟨_, hshown, out, hout, visible, hvisible, hfull⟩
    cases hshown
    obtain ⟨other, _, rfl⟩ := List.mem_map.mp hout
    obtain ⟨cited, _, rfl⟩ := Option.map_eq_some_iff.mp hvisible
    obtain ⟨found, _, hfound⟩ := List.mem_map.mp hfull
    unfold visibleCitation at hfound
    split_ifs at hfound with hreadable
    cases hfound
    rw [← hcited]
    exact hreadable
  · intro hreadable
    refine ⟨_, rfl, _, List.mem_map_of_mem hmessage,
      citations.map (visibleCitation (library.readableDocumentIds user session.messages)),
      ?_, ?_⟩
    · rw [hcitations]
      rfl
    · apply List.mem_map.mpr
      refine ⟨citation, hcitation, ?_⟩
      rw [visibleCitation, if_pos (hcited ▸ hreadable)]

/-- Every read path decides with the collection of the document. -/
theorem decides_collection (user : User)
    (hdocument : library.stores.documents documentId = some document) :
    library.Decides user documentId document.collectionId
      (library.canAccessCollection user document.collectionId = true) where
  listed := listed_iff hdocument
  listedIn := listedIn_iff hdocument
  detail := succeeds_getAccessible hdocument
  status latestJob := (succeeds_map _).trans (succeeds_getAccessible hdocument)
  page Png objectStore pageNo hpageNo hobject := by
    rw [Library.pageImage, if_neg (not_lt.mpr hpageNo)]
    exact succeeds_authorized hdocument (succeeds_pngResponse hobject)
  figure Png objectStore figureId hfigureId hobject := by
    rw [Library.figureImage, if_pos hfigureId]
    exact succeeds_authorized hdocument (succeeds_pngResponse hobject)
  history session howner message hmessage citations hcitations citation hcitation hcited :=
    history_iff hdocument howner hmessage hcitations hcitation hcited

/-- The read paths agree with `can_access_document` unless a permission on the
document itself is all that lets the user in. -/
theorem decides_document_iff
    (hdocument : library.stores.documents documentId = some document) :
    library.Decides user documentId document.collectionId
        (library.canAccessDocument user documentId document = true) ↔
      library.canAccessCollection user document.collectionId = true ∨
        ¬ ∃ grant, library.HoldsDocument user documentId grant := by
  have hpaths := decides_collection user hdocument
  constructor
  · intro hdecides
    have hsame := hpaths.detail.symm.trans hdecides.detail
    rw [canAccessDocument_iff] at hsame
    by_contra hneither
    rw [not_or, not_not] at hneither
    exact hneither.1 (hsame.mpr (Or.inr hneither.2))
  · intro hcondition
    have hsame : library.canAccessDocument user documentId document = true ↔
        library.canAccessCollection user document.collectionId = true := by
      rw [canAccessDocument_iff]
      constructor
      · rintro (haccess | hgrant)
        · exact haccess
        · exact hcondition.resolve_right (not_not.mpr hgrant)
      · exact Or.inl
    rw [hsame]
    exact hpaths

end Paths

/-! ## A permission on a document -/

/-- The user with id 5 has a permission on a document of another department. -/
def leasing : Library where
  collections := [{ id := 7, departmentId := some 3 }]
  grants := [⟨⟨.user, 5, .document, 1⟩, .read⟩]
  stores :=
    { documents := fun id =>
        if id = 1 then
          some { collectionId := 7, filename := "pachtvertrag.pdf", fileType := "pdf" }
        else none
      files := {1} }
  documentIds := [1]
  listed := by simp
  foreign := by simp +contextual [ite_eq_iff]

theorem decides_document_iff_leasing :
    ∃ document, leasing.stores.documents 1 = some document ∧
      (leasing.Decides reader 1 document.collectionId
          (leasing.canAccessDocument reader 1 document = true) ↔
        leasing.canAccessCollection reader document.collectionId = true ∨
          ¬ ∃ grant, leasing.HoldsDocument reader 1 grant) :=
  ⟨_, rfl, decides_document_iff rfl⟩

/-- `get_document` refuses the document, which the user can access. -/
theorem not_decides_document :
    ¬ ∀ (library : Library) (user : User) (documentId : Uuid) (document : Document),
      library.stores.documents documentId = some document →
      library.Decides user documentId document.collectionId
        (library.canAccessDocument user documentId document = true) := by
  intro hclaim
  have hdecides := hclaim leasing reader 1 _ rfl
  obtain ⟨document, hok⟩ := hdecides.detail.mpr (by decide)
  rcases canAccessCollection_iff.mp (getAccessible_ok.mp hok).2 with
    hadmin | ⟨_, _, _, departmentId, hdepartment, _⟩ | ⟨grant, hgrant, hresource, _⟩
  · cases hadmin
  · cases hdepartment
  · obtain rfl := List.mem_singleton.mp hgrant
    cases hresource

end AgenticRag.Access
