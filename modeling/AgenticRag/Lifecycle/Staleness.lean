import AgenticRag.Cache.Isolation
import AgenticRag.Lifecycle.Deployment

/-!
# Answers from replaced chunks

`delete_document` and `reindex_document` read the tag set of the document once.
A turn that has retrieved the old chunks and adds its entry to the set later is
not seen: its answer stays in the cache after the operation.  If every such turn
is in time, no lookup finds an answer from the old chunks any more.
-/

namespace AgenticRag.Lifecycle

open AgenticRag.Graph AgenticRag.Cache AgenticRag.Ingestion AgenticRag.Assembler

namespace Deployment

variable {V : Type}

/-! ## Events -/

/-- The request executes a node that replaces its chunks. -/
def Retrieves (request : ℕ) (deployment : Deployment V) : Event V → Prop
  | .chat (.node moving _ _) => moving = request ∧
      ∃ current ∈ deployment.service.requests request,
        current.turn.node = some .retriever ∨ current.turn.node = some .metadataLookup
  | _ => False

instance (request : ℕ) (deployment : Deployment V) :
    ∀ event, Decidable (Retrieves request deployment event)
  | .chat (.node _ _ _) => inferInstanceAs (Decidable (_ ∧ _))
  | .chat (.grant _) | .chat (.revoke _) | .chat (.begin _ _ _ _ _)
  | .chat (.store _ _ _) | .chat (.cache _) | .worker _ | .invalidate _ | .handle _ =>
      isFalse id

/-- The last retrieval of the request took place in a state that counts as
before the operation. -/
def RetrievedBefore (settings : Settings) (backend : Backend V) (documentId : Uuid)
    (before : Deployment V → Prop) (start : Deployment V) (events : List (Event V))
    (request : ℕ) : Prop :=
  Transition.Unanswered (step settings backend documentId) start events
    (fun deployment event => Retrieves request deployment event ∧ before deployment)
    (Retrieves request)

/-- The operation has not sent a command. -/
def Unbegun (deployment : Deployment V) : Prop :=
  deployment.handler.waiting = true

instance (deployment : Deployment V) : Decidable (Unbegun deployment) :=
  inferInstanceAs (Decidable (_ = _))

instance (settings : Settings) (backend : Backend V) (documentId : Uuid)
    (start : Deployment V) (events : List (Event V)) (request : ℕ) :
    Decidable (RetrievedBefore settings backend documentId Unbegun start events request) :=
  inferInstanceAs (Decidable (Transition.Unanswered _ _ _ _ _))

/-- The operation has read the tag set of the document. -/
def HasRead (documentId : Uuid) (deployment : Deployment V) : Prop :=
  ∃ caller ∈ deployment.evictor,
    deployment.service.cache.process caller ≠ .evicting (.doc documentId)

/-- An answer from the document comes too late for the operation: its entry is
not in the tag set when the operation reads the set, or its store call begins
after that. -/
def Late (documentId : Uuid) (request : ℕ) (deployment : Deployment V) :
    Event V → Prop
  | .chat (.cache (.proceed caller)) => deployment.evictor = some caller ∧
      deployment.service.cache.process caller = .evicting (.doc documentId) ∧
      ∃ point ∈ (deployment.service.cache.process request).point,
        Tag.doc documentId ∈ point.payload.tags ∧
        point.id ∉ deployment.service.cache.store.members (.doc documentId)
  | .chat (.store storing _ _) => storing = request ∧ HasRead documentId deployment ∧
      ∃ current ∈ deployment.service.requests request,
        documentId ∈ (Nodes.storeCall current.turn.state).sourceDocumentIds
  | _ => False

/-- The entry of the request has been written and removed again. -/
def Gone (request : ℕ) (deployment : Deployment V) : Prop :=
  ∃ point pending, deployment.service.cache.process request = .tagging point pending ∧
    point ∉ deployment.service.cache.store.points

/-- An answer from the document is late, and its entry is or will be there. -/
def Escapes (documentId : Uuid) (request : ℕ) (deployment : Deployment V)
    (event : Event V) : Prop :=
  Late documentId request deployment event ∧ ¬ Gone request deployment

instance [DecidableEq V] (documentId : Uuid) (deployment : Deployment V) :
    Decidable (HasRead documentId deployment) :=
  inferInstanceAs (Decidable (∃ caller ∈ deployment.evictor, _))

instance [DecidableEq V] (documentId : Uuid) (request : ℕ) (deployment : Deployment V) :
    ∀ event, Decidable (Late documentId request deployment event)
  | .chat (.cache (.proceed _)) => inferInstanceAs (Decidable (_ ∧ _ ∧ _))
  | .chat (.store _ _ _) => inferInstanceAs (Decidable (_ ∧ _ ∧ _))
  | .chat (.cache (.invoke _ _)) | .chat (.grant _) | .chat (.revoke _)
  | .chat (.begin _ _ _ _ _) | .chat (.node _ _ _) | .worker _ | .invalidate _
  | .handle _ => isFalse id

instance [DecidableEq V] (request : ℕ) (deployment : Deployment V) :
    Decidable (Gone request deployment) :=
  match hprocess : deployment.service.cache.process request with
  | .tagging point _ =>
      decidable_of_iff (point ∉ deployment.service.cache.store.points)
        (by simp [Gone, hprocess])
  | .absent | .ensuring _ | .storing _ | .evicting _ | .deleting _ _ | .dropping _
  | .checking _ | .counting _ | .sweeping _ | .discarding _ | .returned =>
      isFalse (by simp [Gone, hprocess])

instance [DecidableEq V] (documentId : Uuid) (request : ℕ) (deployment : Deployment V)
    (event : Event V) : Decidable (Escapes documentId request deployment event) :=
  inferInstanceAs (Decidable (_ ∧ ¬ _))

/-- The entry was stored by the request, and its answer was generated from a
chunk of the document. -/
structure AnsweredFrom (settings : Settings) (documentId : Uuid)
    (service : Chat.Service V) (request : ℕ) (point : Point V) : Prop where
  stored : (service.cache.process request).point = some point
  generated : ∃ current generation chunk, service.requests request = some current ∧
    lastGeneration current.turn.log = some generation ∧
    chunk ∈ (Nodes.assembled settings generation.services
      generation.before).packedChunks ∧
    chunk.documentId = documentId

/-! ## What a step does -/

section Steps

variable {settings : Settings} {backend : Backend V} {documentId : Uuid}
variable {deployment next : Deployment V} {event : Event V} {request : ℕ}

/-- A step moves the cache, leaving the evictor alone, or makes the invalidating
call. -/
theorem step_cases (hstep : deployment.step settings backend documentId event = some next) :
    (next.service.cache = deployment.service.cache ∧ next.evictor = deployment.evictor) ∨
    (∃ action, event = .chat (.cache action) ∧ next.evictor = deployment.evictor ∧
      deployment.service.cache.step action = some next.service.cache ∧
      ∀ caller point, action ≠ .invoke caller (.store point)) ∨
    (∃ storing now entryId current, event = .chat (.store storing now entryId) ∧
      next.evictor = deployment.evictor ∧
      deployment.service.requests storing = some current ∧
      deployment.service.cache.step (.invoke storing (.store (entry backend now entryId
        (Nodes.storeCall current.turn.state)))) = some next.service.cache) ∨
    (deployment.evictor = none ∧ deployment.handler.invalidating = true ∧
      ∃ caller, next.evictor = some caller ∧
        next.service.cache.process caller = .evicting (.doc documentId)) := by
  cases event with
  | worker action =>
      obtain ⟨_, _, rfl⟩ := Option.map_eq_some_iff.mp hstep
      exact Or.inl ⟨rfl, rfl⟩
  | handle outcome =>
      simp only [step] at hstep
      split_ifs at hstep
      obtain ⟨_, _, rfl⟩ := Option.map_eq_some_iff.mp hstep
      exact Or.inl ⟨rfl, rfl⟩
  | chat event =>
      obtain ⟨service, hservice, rfl⟩ := Option.map_eq_some_iff.mp hstep
      rcases Chat.Service.step_cache hservice with
        hsame | ⟨action, haction, hcache, hnone⟩ |
          ⟨storing, now, entryId, current, hstore, hcurrent, hcache⟩
      · exact Or.inl ⟨hsame, rfl⟩
      · cases event with
        | cache sent =>
            cases haction
            exact Or.inr (Or.inl ⟨action, rfl, rfl, hcache, hnone⟩)
        | _ => cases haction
      · cases event with
        | store _ _ _ =>
            cases hstore
            exact Or.inr (Or.inr (Or.inl ⟨storing, now, entryId, current, rfl, rfl,
              hcurrent, hcache⟩))
        | _ => cases hstore
  | invalidate caller =>
      simp only [step] at hstep
      split_ifs at hstep with henabled
      obtain ⟨service, hservice, rfl⟩ := Option.map_eq_some_iff.mp hstep
      obtain ⟨_, cache, hcache, rfl⟩ := Chat.Service.cache_cases hservice
      rcases Machine.step_cases hcache with
        ⟨_, _, haction, _, _, _, hprocess, _⟩ | ⟨_, _, haction, _⟩
      · cases haction
        refine Or.inr (Or.inr (Or.inr ⟨henabled.2, henabled.1, caller, rfl, ?_⟩))
        dsimp only
        rw [hprocess, Function.update_self]
        rfl
      · cases haction

/-- Only its own command ends the reading phase of an eviction. -/
theorem proceed_of_evicting {machine after : Machine V} {action : Cache.Action V}
    {caller : ℕ} {tag : Tag} (hstep : machine.step action = some after)
    (hbefore : machine.process caller = .evicting tag)
    (hafter : after.process caller ≠ .evicting tag) : action = .proceed caller := by
  rcases Machine.step_cases hstep with
    ⟨moving, _, rfl, habsent, _, _, hprocess, _⟩ | ⟨moving, _, rfl, _, hprocess, _⟩
  · have hother : caller ≠ moving := by
      rintro rfl
      rw [habsent] at hbefore
      cases hbefore
    rw [hprocess, Function.update_of_ne hother] at hafter
    exact absurd hbefore hafter
  · by_cases hmoving : caller = moving
    · rw [hmoving]
    · rw [hprocess, Function.update_of_ne hmoving] at hafter
      exact absurd hbefore hafter

/-- Once the set is read, the entry of the request is gone or about to go. -/
def Answered (documentId : Uuid) (request : ℕ) (deployment : Deployment V) : Prop :=
  ∀ caller, deployment.evictor = some caller →
    deployment.service.cache.process caller ≠ .evicting (.doc documentId) →
    Machine.Swept (.doc documentId) caller request deployment.service.cache

/-- The entry of a store call has the tags of its source documents. -/
theorem entry_doc_tag {now : ℚ} {entryId : Uuid} {call : StoreCall} :
    Tag.doc documentId ∈ (entry backend now entryId call).payload.tags ↔
      documentId ∈ call.sourceDocumentIds := by
  rw [Payload.doc_mem_tags]
  exact SortedSet.mem_ascending

theorem step_answered (hnamed : Machine.WellNamed deployment.service.cache)
    (howned : Machine.Owned deployment.service.cache)
    (hanswered : Answered documentId request deployment)
    (hstep : deployment.step settings backend documentId event = some next)
    (htimely : ¬ Escapes documentId request deployment event) :
    Answered documentId request next := by
  intro caller hevictor hread
  rcases step_cases hstep with
    ⟨hsame, hkept⟩ | ⟨action, rfl, hkept, hcache, hnone⟩ |
      ⟨storing, now, entryId, current, rfl, hkept, hcurrent, hcache⟩ |
      ⟨_, _, other, hother, hevicting⟩
  · rw [hkept] at hevictor
    rw [hsame] at hread ⊢
    exact hanswered caller hevictor hread
  · rw [hkept] at hevictor
    by_cases hbefore :
        deployment.service.cache.process caller = .evicting (.doc documentId)
    · -- this command is the `SMEMBERS` of the operation
      obtain rfl := proceed_of_evicting hcache hbefore hread
      apply Machine.read_swept hnamed howned hbefore ?_ hcache
      intro point hpoint htag
      by_contra hmissing
      rw [not_or] at hmissing
      refine htimely ⟨⟨hevictor, hbefore, point, hpoint, htag, hmissing.1⟩, ?_⟩
      rintro ⟨written, pending, htagging, hgone⟩
      rw [htagging] at hpoint
      cases hpoint
      exact hmissing.2 ⟨⟨pending, htagging⟩, hgone⟩
    · apply Machine.step_swept hnamed (hanswered caller hevictor hbefore) hcache
      intro point hinvoked
      exact absurd hinvoked (hnone request point)
  · rw [hkept] at hevictor
    have hbefore :
        deployment.service.cache.process caller ≠ .evicting (.doc documentId) := by
      intro hevicting
      cases proceed_of_evicting hcache hevicting hread
    apply Machine.step_swept hnamed (hanswered caller hevictor hbefore) hcache
    intro point hinvoked htag
    cases hinvoked
    refine htimely ⟨⟨rfl, ⟨caller, hevictor, hbefore⟩, current, hcurrent,
      entry_doc_tag.mp htag⟩, ?_⟩
    rintro ⟨written, pending, htagging, _⟩
    rcases Machine.step_cases hcache with ⟨_, _, haction, habsent, _⟩ | ⟨_, _, haction, _⟩
    · cases haction
      cases htagging.symm.trans habsent
    · cases haction
  · rw [hother] at hevictor
    cases hevictor
    exact absurd hevicting hread

/-- A call that has returned stays so. -/
theorem returned_step {machine after : Machine V} {action : Cache.Action V} {caller : ℕ}
    (hstep : machine.step action = some after)
    (hreturned : machine.process caller = .returned) : after.process caller = .returned := by
  rcases Machine.step_cases hstep with
    ⟨moving, _, rfl, habsent, _, _, hprocess, _⟩ |
      ⟨moving, _, rfl, hadvance, hprocess, _⟩
  · have hother : caller ≠ moving := by
      rintro rfl
      rw [habsent] at hreturned
      cases hreturned
    rw [hprocess, Function.update_of_ne hother, hreturned]
  · have hother : caller ≠ moving := by
      rintro rfl
      rw [hreturned] at hadvance
      cases hadvance
    rw [hprocess, Function.update_of_ne hother, hreturned]

theorem evicted_iff : deployment.evicted = true ↔
    ∃ caller, deployment.evictor = some caller ∧
      deployment.service.cache.process caller = .returned := by
  unfold evicted
  cases deployment.evictor with
  | none => simp
  | some caller => simp [Process.isReturned_iff]

/-- When the invalidation has returned, the entry of the request is gone. -/
theorem Answered.gone (hanswered : Answered documentId request deployment)
    (hevicted : deployment.evicted = true) {point : Point V}
    (hpoint : (deployment.service.cache.process request).point = some point)
    (htag : Tag.doc documentId ∈ point.payload.tags) :
    point ∉ deployment.service.cache.store.points := by
  obtain ⟨caller, hevictor, hreturned⟩ := evicted_iff.mp hevicted
  have hread : deployment.service.cache.process caller ≠ .evicting (.doc documentId) := by
    rw [hreturned]
    nofun
  exact (hanswered caller hevictor hread).gone hreturned hpoint htag

theorem step_evicted (hevicted : deployment.evicted = true)
    (hstep : deployment.step settings backend documentId event = some next) :
    next.evicted = true := by
  obtain ⟨caller, hevictor, hreturned⟩ := evicted_iff.mp hevicted
  rw [evicted_iff]
  rcases step_cases hstep with
    ⟨hsame, hkept⟩ | ⟨action, _, hkept, hcache, _⟩ | ⟨_, _, _, _, _, hkept, _, hcache⟩ |
      ⟨hnone, _⟩
  · exact ⟨caller, hkept.trans hevictor, hsame ▸ hreturned⟩
  · exact ⟨caller, hkept.trans hevictor, returned_step hcache hreturned⟩
  · exact ⟨caller, hkept.trans hevictor, returned_step hcache hreturned⟩
  · rw [hnone] at hevictor
    cases hevictor

/-- The call goes on only when its invalidation has returned. -/
theorem step_invalidated
    (hinvalidated : deployment.handler.invalidated = true → deployment.evicted = true)
    (hstep : deployment.step settings backend documentId event = some next)
    (hnext : next.handler.invalidated = true) : next.evicted = true := by
  have hbefore : deployment.evicted = true := by
    cases event with
    | chat event =>
        obtain ⟨_, _, rfl⟩ := Option.map_eq_some_iff.mp hstep
        exact hinvalidated hnext
    | worker action =>
        obtain ⟨_, _, rfl⟩ := Option.map_eq_some_iff.mp hstep
        exact hinvalidated hnext
    | invalidate caller =>
        simp only [step] at hstep
        split_ifs at hstep
        obtain ⟨_, _, rfl⟩ := Option.map_eq_some_iff.mp hstep
        exact hinvalidated hnext
    | handle outcome =>
        simp only [step] at hstep
        split_ifs at hstep with hguard
        obtain ⟨_, hadvance, rfl⟩ := Option.map_eq_some_iff.mp hstep
        rcases Handler.advance_invalidated hadvance hnext with hold | ⟨hwaiting, hok⟩
        · exact hinvalidated hold
        · by_contra hnot
          exact hguard ⟨hwaiting, hok, by simpa using hnot⟩
  exact step_evicted hbefore hstep

end Steps

/-! ## What a run does -/

section Runs

variable {settings : Settings} {backend : Backend V} {documentId : Uuid}
variable {tables : Access.Tables} {stores : Stores} {worker : Worker} {handler : Handler}
variable {events : List (Event V)} {deployment : Deployment V} {request : ℕ}

/-- The service of a run is a run of the service. -/
theorem run_service
    (hrun : run settings backend documentId (opening tables stores worker handler) events =
      some deployment) :
    ∃ past, Chat.Service.run settings backend tables past = some deployment.service :=
  Transition.exec_project Deployment.service (fun _ _ _ => step_service) hrun

theorem run_evicted (hwaiting : handler.waiting = true)
    (hrun : run settings backend documentId (opening tables stores worker handler) events =
      some deployment)
    (hinvalidated : deployment.handler.invalidated = true) : deployment.evicted = true := by
  revert hinvalidated
  apply Transition.exec_invariant (motive := fun deployment : Deployment V =>
    deployment.handler.invalidated = true → deployment.evicted = true) ?_ hrun
  · intro hinvalidated
    cases handler with
    | delete phase =>
        cases phase with
        | loading => cases hinvalidated
        | _ => cases hwaiting
    | reindex jobId phase =>
        cases phase with
        | loading => cases hinvalidated
        | _ => cases hwaiting
  · intro before event after hbefore hstep
    exact step_invalidated hbefore hstep

theorem run_answered
    (hrun : run settings backend documentId (opening tables stores worker handler) events =
      some deployment)
    (htimely : ¬ Transition.Occurs (step settings backend documentId)
      (opening tables stores worker handler) events (Escapes documentId request)) :
    Answered documentId request deployment := by
  apply Transition.exec_unless (motive := Answered documentId request) ?_ ?_ hrun htimely
  · intro caller hevictor
    cases hevictor
  · intro past before event after hpast hanswered hstep htimely
    obtain ⟨_, hservice⟩ := run_service hpast
    obtain ⟨_, hcache⟩ := Chat.Service.run_cache hservice
    exact step_answered (Machine.run_wellNamed hcache) (Machine.run_owned hcache)
      hanswered hstep htimely

/-- The entry of such an answer is tagged with the document. -/
theorem AnsweredFrom.tagged {service : Chat.Service V} {past : List (Chat.Event V)}
    {point : Point V} (hrun : Chat.Service.run settings backend tables past = some service)
    (hanswered : AnsweredFrom settings documentId service request point) :
    Tag.doc documentId ∈ point.payload.tags := by
  obtain ⟨hpoint, current, generation, chunk, hcurrent, hlast, hchunk, rfl⟩ := hanswered
  obtain ⟨storing, now, entryId, hstoring, _, rfl⟩ :=
    Chat.Service.run_attributed hrun request point hpoint
  obtain ⟨backing, source, hbacking, _, hsource, hfrom⟩ :=
    Chat.Service.run_backed hrun request _ hpoint
  cases hcurrent.symm.trans hstoring
  cases hcurrent.symm.trans hbacking
  cases hlast.symm.trans hsource
  rw [entry_doc_tag]
  exact (packedChunks_tagged hfrom chunk hchunk).1

end Runs

/-! ## After the operation -/

/-- No lookup reports an answer generated from chunks of the document that were
retrieved before the operation. -/
def LookupsCurrent (settings : Settings) (backend : Backend V) (documentId : Uuid)
    (before : Deployment V → Prop) (start : Deployment V) (events : List (Event V))
    (deployment : Deployment V) : Prop :=
  ∀ now allowed query hit,
    (lookup settings backend now allowed query
      { store := deployment.service.cache.store }).1 = some hit →
    ∃ scored, served settings backend now allowed query
        deployment.service.cache.store = some scored ∧ hit = toHit scored ∧
      ∀ request, AnsweredFrom settings documentId deployment.service request scored.point →
        ¬ RetrievedBefore settings backend documentId before start events request

/-- If every turn that retrieved before the operation is in time for it, no
answer from the old chunks is found once the operation has returned.  What counts as
before the operation is left open. -/
theorem returned_lookupsCurrent {settings : Settings} {backend : Backend V}
    {documentId : Uuid} {tables : Access.Tables} {stores : Stores} {worker : Worker}
    {handler : Handler} {events : List (Event V)} {deployment : Deployment V}
    (before : Deployment V → Prop) (hwaiting : handler.waiting = true)
    (hrun : run settings backend documentId (opening tables stores worker handler) events =
      some deployment)
    (hreturned : deployment.handler.returned = true)
    (htimely : ∀ request, RetrievedBefore settings backend documentId before
        (opening tables stores worker handler) events request →
      ¬ Transition.Occurs (step settings backend documentId)
        (opening tables stores worker handler) events (Late documentId request)) :
    LookupsCurrent settings backend documentId before
      (opening tables stores worker handler) events deployment := by
  intro now allowed query hit hhit
  obtain ⟨scored, hserved, hsame⟩ := lookup_eq_served hhit
  refine ⟨scored, hserved, hsame, ?_⟩
  intro request hanswered hretrieved
  obtain ⟨_, hservice⟩ := run_service hrun
  have hevicted : deployment.evicted = true :=
    run_evicted hwaiting hrun (Handler.invalidated_of_returned hreturned)
  have hswept : Answered documentId request deployment :=
    run_answered hrun fun hescapes =>
      htimely request hretrieved (hescapes.mono fun _ _ => And.left)
  exact hswept.gone hevicted hanswered.stored (hanswered.tagged hservice)
    (served_mem hserved).2.1

/-! ## A turn in flight -/

/-- The only point of a document. -/
def feePoint : RagPoint where
  id := 11
  documentId := 1
  collectionId := 7
  chunkType := .text
  pageNumber := some 1
  sectionTitle := none
  fileName := "gebuehren.txt"
  fileType := "txt"
  content := "Die Gebühr beträgt 20 Euro."
  imageUri := none

/-- An indexed document. -/
def feeStores : Stores where
  documents := fun id =>
    if id = 1 then
      some { collectionId := 7, filename := "gebuehren.txt", fileType := "txt",
             status := .indexed }
    else none
  files := {1}
  ragPoints := [feePoint]

/-- A user with a permission for collection 7. -/
def feeReader : Access.Tables where
  users := fun id => if id = 1 then some { id := 1, role := .user } else none
  collections := [{ id := 7 }]
  permissions := [⟨.user, 1, .collection, 7⟩]

def feeOpening : Deployment String :=
  opening feeReader feeStores {} (.delete .loading)

/-- A question that is answered from the document. -/
def feeTurn : List (Event String) :=
  .chat (.begin 0 1 101 "Wie hoch ist die Gebühr?" "request") ::
    List.replicate 8 (.chat (.node 0 { Chat.Service.answeringServices 7 with
      search := fun _ _ => .ok [toRetrieved feePoint 1] } 0))

/-- The commands of the store call of that turn. -/
def feeStore : List (Event String) :=
  .chat (.store 0 0 20) :: List.replicate 4 (.chat (.cache (.proceed 0)))

/-- The deletion of the document; its invalidation sends so many commands. -/
def feeDeletion (commands : ℕ) : List (Event String) :=
  [.handle .ok, .handle .ok, .invalidate 90] ++
  List.replicate commands (.chat (.cache (.proceed 90))) ++
  List.replicate 3 (.handle .ok)

/-- What is checked at the end of a run. -/
def feeOver (deployment : Deployment String) : Bool :=
  deployment.handler.returned &&
    (match deployment.worker.phase with | .idle => true | _ => false) &&
    deployment.worker.queue = []

/-- The served entry, and whether a chunk of the document is among the context
blocks of the generation behind it. -/
def feeServed (deployment : Deployment String) : Option (Bool × Bool) := do
  let scored ← served {} exactBackend 0 {7} "Wie hoch ist die Gebühr?"
    deployment.service.cache.store
  let current ← deployment.service.requests 0
  let generation ← lastGeneration current.turn.log
  let hit ← (lookup {} exactBackend 0 {7} "Wie hoch ist die Gebühr?"
    { store := deployment.service.cache.store }).1
  pure (hit = toHit scored && (deployment.service.cache.process 0).point = some scored.point,
    (Nodes.assembled {} generation.services generation.before).packedChunks.any
      (·.documentId = 1))

private theorem feeOver_over {deployment : Deployment String}
    (hover : feeOver deployment = true) : deployment.Over := by
  simp only [feeOver, Bool.and_eq_true, decide_eq_true_eq] at hover
  obtain ⟨⟨hreturned, hidle⟩, hqueue⟩ := hover
  refine ⟨hreturned, ?_, hqueue⟩
  split at hidle
  · assumption
  · cases hidle

/-- Only requests that retrieve can have retrieved. -/
private theorem feeTurn_requests {events : List (Event String)} {request : ℕ}
    (hevents : ∀ event ∈ events, ∀ moving services now,
      event = .chat (.node moving services now) → moving = 0)
    (hretrieved : RetrievedBefore {} exactBackend 1 Unbegun feeOpening events request) :
    request = 0 := by
  obtain ⟨_, event, _, _, _, rfl, _, _, ⟨hretrieves, _⟩, _⟩ := hretrieved
  cases event with
  | chat event =>
      cases event with
      | node moving services now =>
          rw [← hretrieves.1]
          exact hevents _ (by simp) moving services now rfl
      | _ => cases hretrieves
  | _ => cases hretrieves

theorem returned_lookupsCurrent_inTime :
    ∃ deployment, run {} exactBackend 1 feeOpening (feeTurn ++ feeStore ++ feeDeletion 3) =
        some deployment ∧
      LookupsCurrent {} exactBackend 1 Unbegun feeOpening
        (feeTurn ++ feeStore ++ feeDeletion 3) deployment := by
  have hresult : (run {} exactBackend 1 feeOpening
      (feeTurn ++ feeStore ++ feeDeletion 3)).map feeOver = some true := by
    decide +kernel
  obtain ⟨deployment, hrun, hover⟩ := Option.map_eq_some_iff.mp hresult
  refine ⟨deployment, hrun,
    returned_lookupsCurrent Unbegun rfl hrun (feeOver_over hover).returned ?_⟩
  intro request hretrieved
  have hzero : request = 0 := by
    apply feeTurn_requests ?_ hretrieved
    intro event hevent moving services now hnode
    subst hnode
    simp [feeTurn, feeStore, feeDeletion] at hevent
    exact hevent.1
  subst hzero
  decide +kernel

/-- The turn stores after the deletion has read the empty tag set, and the next
lookup finds the answer from the deleted document. -/
theorem over_not_lookupsCurrent :
    ¬ ∀ (settings : Settings) (backend : Backend String) (documentId : Uuid)
        (tables : Access.Tables) (stores : Stores) (worker : Worker) (handler : Handler)
        (events : List (Event String)) (deployment : Deployment String),
      handler.waiting = true →
      run settings backend documentId (opening tables stores worker handler) events =
        some deployment →
      deployment.Over →
      LookupsCurrent settings backend documentId Unbegun
        (opening tables stores worker handler) events deployment := by
  intro hclaim
  have hresult : (run {} exactBackend 1 feeOpening
      (feeTurn ++ feeDeletion 1 ++ feeStore)).map
        (fun deployment => (feeOver deployment, feeServed deployment)) =
      some (true, some (true, true)) := by
    decide +kernel
  obtain ⟨deployment, hrun, heq⟩ := Option.map_eq_some_iff.mp hresult
  obtain ⟨hover, hfound⟩ := Prod.mk.inj heq
  simp only [feeServed, Option.bind_eq_bind, Option.bind_eq_some_iff, Option.pure_def,
    Option.some.injEq, Prod.mk.injEq, Bool.and_eq_true, decide_eq_true_eq,
    List.any_eq_true] at hfound
  obtain ⟨scored, hserved, current, hcurrent, generation, hlast, hit, hhit,
    ⟨_, hstored⟩, chunk, hchunk, hdocument⟩ := hfound
  obtain ⟨other, hother, _, hcurrentOnly⟩ :=
    hclaim {} exactBackend 1 feeReader feeStores {} (.delete .loading) _ deployment rfl hrun
      (feeOver_over hover) 0 {7} "Wie hoch ist die Gebühr?" hit hhit
  cases hserved.symm.trans hother
  apply hcurrentOnly 0 ⟨hstored, current, generation, chunk, hcurrent, hlast, hchunk,
    hdocument⟩
  decide +kernel

end Deployment

end AgenticRag.Lifecycle
