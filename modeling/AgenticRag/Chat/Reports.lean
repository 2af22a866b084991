import AgenticRag.Chat.Thread
import AgenticRag.Graph.Carried

/-!
# What a turn reports about itself

The audit detail of a generation, the payload of the evaluation queue and the
page images of the model call are read from keys that a node writes only on some
paths.  On the other paths they still hold what an earlier turn of the thread
retrieved.
-/

namespace AgenticRag.Chat

open AgenticRag.Graph AgenticRag.Assembler

/-- The detail of a generation in the audit log. -/
structure AuditDetail where
  requestId : String
  route : Option String
  cacheHit : Bool
  insufficient : Bool
  streamed : Bool
  query : String
  retrievedDocumentIds : List Uuid
  answerSha256 : String
  deriving DecidableEq

/-- `sorted({c["document_id"] for c in chunks})` -/
def documentIdsOf (chunks : List Chunk) : List Uuid :=
  SortedSet.ascending (chunks.map (·.documentId)).toFinset

/-- `_generation_audit_detail` -/
def generationAuditDetail (sha256 : String → String) (result : GraphState)
    (requestId : String) (streamed : Bool) : AuditDetail where
  requestId := requestId
  route := result.route
  cacheHit := GraphState.flag result.cacheHit
  insufficient := GraphState.flag result.insufficient
  streamed := streamed
  query := result.queryText
  retrievedDocumentIds := documentIdsOf result.chunkList
  answerSha256 := sha256 result.answerText

theorem documentIdsOf_eq_nil_iff {chunks : List Chunk} :
    documentIdsOf chunks = [] ↔ chunks = [] := by
  rw [List.eq_nil_iff_forall_not_mem]
  simp only [documentIdsOf, SortedSet.mem_ascending, List.mem_toFinset]
  rw [← List.eq_nil_iff_forall_not_mem, List.map_eq_nil_iff]

/-! ## Evidence of the turn itself -/

/-- There is no route, or a node of the log wrote it. -/
def OwnRoute (log : List Execution) (route : Option String) : Prop :=
  route = none ∨ ∃ execution ∈ log, ∃ written,
    execution.update.route = some written ∧ route = some written

/-- Nothing is reported, or it is what is reported of chunks that a node of the
log wrote. -/
def OwnChunks {α : Type} (log : List Execution) (report : List Chunk → List α)
    (reported : List α) : Prop :=
  reported = [] ∨ ∃ execution ∈ log, ∃ chunks,
    execution.update.chunks = some chunks ∧ reported = report chunks

def contextsOf (chunks : List Chunk) : List String :=
  chunks.map (·.content)

/-- Everything the turn reports, and everything it shows to the model, was
produced by its own nodes. -/
structure OwnEvidence (settings : Settings) (sha256 : String → String)
    (input : TurnInput) (final : Turn) : Prop where
  audit : ∀ streamed,
    let detail := generationAuditDetail sha256 final.state input.requestId streamed
    OwnRoute final.log detail.route ∧
      OwnChunks final.log documentIdsOf detail.retrievedDocumentIds
  evaluation : ∀ execution ∈ final.log, ∀ payload success,
    Effect.enqueued payload success ∈ execution.effects →
      OwnRoute final.log payload.route ∧
        OwnChunks final.log contextsOf payload.contexts ∧
        OwnChunks final.log documentIdsOf payload.retrievedDocumentIds
  images : ∀ past generation rest, final.log = past ++ generation :: rest →
    generation.node = .generator → ∀ hit ∈ shownPages settings generation,
      ∃ execution ∈ past, ∃ hits, execution.update.pageHits = some hits ∧ hit ∈ hits

/-- The turn wrote the keys it reports, or found nothing under them. -/
structure FreshEvidence (settings : Settings) (persisted : GraphState)
    (input : TurnInput) (final : Turn) : Prop where
  route : .router ∈ final.visited ∨ persisted.route = none
  chunks : .retriever ∈ final.visited ∨ .metadataLookup ∈ final.visited ∨
    persisted.chunkList = []
  images : ∀ past generation rest, final.log = past ++ generation :: rest →
    generation.node = .generator →
      (∃ execution ∈ past, execution.node = .retriever) ∨
        loadedPages generation.services.objectStore input.allowedCollectionIds.toFinset
          (Nodes.imageLimit settings) persisted.pageHitList = []

section Turn

variable {settings : Settings} {persisted : GraphState} {input : TurnInput}
variable {services : List Services} {final : Turn}

theorem mem_visited {node : Node} :
    node ∈ final.visited ↔ ∃ execution ∈ final.log, execution.node = node := by
  simp [Turn.visited]

/-- The evaluation queue is the last node of a turn. -/
theorem evalQueue_last (hrun : run settings persisted input services = some final) :
    ∀ past execution rest, final.log = past ++ execution :: rest →
      execution.node = .evalQueue → rest = [] ∧ final.node = none := by
  apply run_induction (motive := fun turn : Turn =>
    ∀ past (execution : Execution) rest, turn.log = past ++ execution :: rest →
      execution.node = .evalQueue → rest = [] ∧ turn.node = none) ?_ ?_ hrun
  · intro past execution rest hsplit
    simp [start] at hsplit
  · intro before services after ih hstep past execution rest hsplit hnode
    obtain ⟨node, update, effects, hbefore, _, hafter, _, hlog⟩ := step_cases hstep
    rw [hlog] at hsplit
    rcases Transition.split_snoc hsplit with ⟨_, rfl, rfl⟩ | ⟨front, hfront, _⟩
    · rw [show node = .evalQueue from hnode] at hafter
      exact ⟨rfl, hafter⟩
    · have hended := (ih past execution front hfront hnode).2
      rw [hbefore] at hended
      cases hended

/-- What the evaluation queue reports is read from the final state. -/
theorem enqueued_reports (hrun : run settings persisted input services = some final)
    {execution : Execution} (hmem : execution ∈ final.log) {payload : EvalPayload}
    {success : Bool} (heffect : Effect.enqueued payload success ∈ execution.effects) :
    payload.route = final.state.route ∧
      payload.contexts = contextsOf final.state.chunkList ∧
      payload.retrievedDocumentIds = documentIdsOf final.state.chunkList := by
  obtain ⟨past, rest, hsplit⟩ := List.append_of_mem hmem
  have hran := (run_logged hrun execution hmem).ran
  obtain ⟨hnode, hpayload⟩ := runNode_enqueued hran heffect
  obtain ⟨rfl, _⟩ := evalQueue_last hrun past execution rest hsplit hnode
  have hkeys := runNode_evidence hran
  have hroute : final.state.route = execution.before.route :=
    run_carried_last .route rfl hrun hsplit (hkeys.1.mpr (by simp [hnode]))
  have hchunks : final.state.chunks = execution.before.chunks :=
    run_carried_last .chunks rfl hrun hsplit (hkeys.2.1.mpr (by simp [hnode]))
  rw [hpayload, hroute, GraphState.chunkList, hchunks]
  exact ⟨rfl, rfl, rfl⟩

/-- The route is the turn's own exactly when the router ran or there was none. -/
theorem ownRoute_iff (hrun : run settings persisted input services = some final) :
    OwnRoute final.log final.state.route ↔
      .router ∈ final.visited ∨ persisted.route = none := by
  have hcarried : final.state.route = (Key.route.lastWritten final.log).or persisted.route :=
    run_carried .route rfl hrun
  constructor
  · rintro (hnone | ⟨execution, hmem, written, hwritten, _⟩)
    · rw [hnone] at hcarried
      exact Or.inr (Option.or_eq_none_iff.mp hcarried.symm).2
    · left
      by_contra hskipped
      have hother : execution.node ≠ .router := fun hnode =>
        hskipped (mem_visited.mpr ⟨execution, hmem, hnode⟩)
      rw [(runNode_evidence (run_logged hrun execution hmem).ran).1.mpr hother] at hwritten
      cases hwritten
  · intro hfresh
    cases hlast : Key.route.lastWritten final.log with
    | some written =>
        obtain ⟨execution, hmem, hwritten⟩ := Key.exists_of_lastWritten hlast
        rw [hlast, Option.some_or] at hcarried
        exact Or.inr ⟨execution, hmem, written, hwritten, hcarried⟩
    | none =>
        left
        rcases hfresh with hrouter | hnone
        · obtain ⟨execution, hmem, hnode⟩ := mem_visited.mp hrouter
          have hunwritten := Key.lastWritten_eq_none_iff.mp hlast execution hmem
          exact absurd hnode
            ((runNode_evidence (run_logged hrun execution hmem).ran).1.mp hunwritten)
        · rw [hcarried, hlast, hnone, Option.none_or]

/-- A report on the chunks is the turn's own when a node wrote them or there were
none. -/
theorem ownChunks_of_fresh {α : Type} (report : List Chunk → List α)
    (hempty : report [] = []) (hrun : run settings persisted input services = some final)
    (hfresh : .retriever ∈ final.visited ∨ .metadataLookup ∈ final.visited ∨
      persisted.chunkList = []) :
    OwnChunks final.log report (report final.state.chunkList) := by
  have hcarried : final.state.chunks =
      (Key.chunks.lastWritten final.log).or persisted.chunks :=
    run_carried .chunks rfl hrun
  cases hlast : Key.chunks.lastWritten final.log with
  | some chunks =>
      obtain ⟨execution, hmem, hwritten⟩ := Key.exists_of_lastWritten hlast
      rw [hlast, Option.some_or] at hcarried
      refine Or.inr ⟨execution, hmem, chunks, hwritten, ?_⟩
      rw [GraphState.chunkList, hcarried, Option.getD_some]
  | none =>
      have hunwritten : ∀ node, node = .retriever ∨ node = .metadataLookup →
          node ∉ final.visited := by
        intro node hwriter hvisited
        obtain ⟨execution, hmem, rfl⟩ := mem_visited.mp hvisited
        have hkept := Key.lastWritten_eq_none_iff.mp hlast execution hmem
        have hskipped :=
          (runNode_evidence (run_logged hrun execution hmem).ran).2.1.mp hkept
        rcases hwriter with hnode | hnode
        · exact hskipped.1 hnode
        · exact hskipped.2 hnode
      have hnone : persisted.chunkList = [] := by
        rcases hfresh with hretriever | hmetadata | hnone
        · exact absurd hretriever (hunwritten _ (Or.inl rfl))
        · exact absurd hmetadata (hunwritten _ (Or.inr rfl))
        · exact hnone
      left
      rw [hlast, Option.none_or] at hcarried
      rw [GraphState.chunkList, hcarried, ← GraphState.chunkList, hnone, hempty]

theorem fresh_of_ownDocuments (hrun : run settings persisted input services = some final)
    (hown : OwnChunks final.log documentIdsOf (documentIdsOf final.state.chunkList)) :
    .retriever ∈ final.visited ∨ .metadataLookup ∈ final.visited ∨
      persisted.chunkList = [] := by
  have hcarried : final.state.chunks =
      (Key.chunks.lastWritten final.log).or persisted.chunks :=
    run_carried .chunks rfl hrun
  cases hlast : Key.chunks.lastWritten final.log with
  | some chunks =>
      obtain ⟨execution, hmem, hwritten⟩ := Key.exists_of_lastWritten hlast
      have hkeys := (runNode_evidence (run_logged hrun execution hmem).ran).2.1
      by_cases hretriever : execution.node = .retriever
      · exact Or.inl (mem_visited.mpr ⟨execution, hmem, hretriever⟩)
      · by_cases hmetadata : execution.node = .metadataLookup
        · exact Or.inr (Or.inl (mem_visited.mpr ⟨execution, hmem, hmetadata⟩))
        · have hkept : Key.chunks.get execution.update = none :=
            hkeys.mpr ⟨hretriever, hmetadata⟩
          rw [hkept] at hwritten
          cases hwritten
  | none =>
      right; right
      rcases hown with hnone | ⟨execution, hmem, chunks, hwritten, _⟩
      · rw [documentIdsOf_eq_nil_iff, GraphState.chunkList, hcarried, hlast,
          Option.none_or] at hnone
        exact hnone
      · have hkept := Key.lastWritten_eq_none_iff.mp hlast execution hmem
        rw [show execution.update.chunks = none from hkept] at hwritten
        cases hwritten

/-- The pages a generator execution shows are those of the last retrieval of the
turn, or of the thread when there was none before it. -/
theorem shown_own_iff (hrun : run settings persisted input services = some final)
    {past rest : List Execution} {generation : Execution}
    (hsplit : final.log = past ++ generation :: rest) :
    (∀ hit ∈ shownPages settings generation, ∃ execution ∈ past, ∃ hits,
        execution.update.pageHits = some hits ∧ hit ∈ hits) ↔
      (∃ execution ∈ past, execution.node = .retriever) ∨
        loadedPages generation.services.objectStore input.allowedCollectionIds.toFinset
          (Nodes.imageLimit settings) persisted.pageHitList = [] := by
  have hlogged : ∀ execution ∈ past, LoggedOk settings input execution := by
    intro execution hmem
    exact run_logged hrun execution (by rw [hsplit]; exact List.mem_append_left _ hmem)
  have hallowed : generation.before.allowed = input.allowedCollectionIds.toFinset := by
    have hscope := (run_logged hrun generation (by rw [hsplit]; simp)).allowedCollectionIds
    rw [GraphState.allowed, hscope, Option.getD_some]
  have hcarried : generation.before.pageHits =
      (Key.pageHits.lastWritten past).or persisted.pageHits :=
    run_carried_before .pageHits rfl hrun past generation rest hsplit
  rw [shownPages, hallowed]
  cases hlast : Key.pageHits.lastWritten past with
  | some hits =>
      obtain ⟨execution, hmem, hwritten⟩ := Key.exists_of_lastWritten hlast
      rw [hlast, Option.some_or] at hcarried
      have hpages : generation.before.pageHitList = hits := by
        rw [GraphState.pageHitList, hcarried, Option.getD_some]
      constructor
      · intro _
        left
        by_contra hnone
        have hkept : Key.pageHits.get execution.update = none :=
          (runNode_evidence (hlogged execution hmem).ran).2.2.mpr
            fun hnode => hnone ⟨execution, hmem, hnode⟩
        rw [hkept] at hwritten
        cases hwritten
      · intro _ hit hhit
        rw [hpages] at hhit
        exact ⟨execution, hmem, hits, hwritten, (mem_loadedPages_scope hhit).1⟩
  | none =>
      have hkept := Key.lastWritten_eq_none_iff.mp hlast
      rw [hlast, Option.none_or] at hcarried
      have hpages : generation.before.pageHitList = persisted.pageHitList := by
        rw [GraphState.pageHitList, hcarried, GraphState.pageHitList]
      rw [hpages, List.eq_nil_iff_forall_not_mem]
      constructor
      · intro hown
        right
        intro hit hhit
        obtain ⟨execution, hmem, hits, hwritten, _⟩ := hown hit hhit
        rw [show execution.update.pageHits = none from hkept execution hmem] at hwritten
        cases hwritten
      · rintro (⟨execution, hmem, hnode⟩ | hnone) hit hhit
        · exact absurd hnode
            ((runNode_evidence (hlogged execution hmem).ran).2.2.mp (hkept execution hmem))
        · exact absurd hhit (hnone hit)

end Turn

/-- On whatever an earlier turn of the thread left, a turn reports and shows only
evidence of its own exactly when it wrote the keys it reports or found nothing
under them. -/
theorem turn_ownEvidence_iff {settings : Settings} {sha256 : String → String}
    {persisted : GraphState} {input : TurnInput} {services : List Services}
    {final : Turn} (hrun : run settings persisted input services = some final) :
    OwnEvidence settings sha256 input final ↔
      FreshEvidence settings persisted input final := by
  constructor
  · intro hown
    obtain ⟨hroute, hdocuments⟩ := hown.audit false
    constructor
    · exact (ownRoute_iff hrun).mp hroute
    · exact fresh_of_ownDocuments hrun hdocuments
    · intro past generation rest hsplit hgenerator
      exact (shown_own_iff hrun hsplit).mp
        (hown.images past generation rest hsplit hgenerator)
  · intro hfresh
    have hroute := (ownRoute_iff hrun).mpr hfresh.route
    have hdocuments := ownChunks_of_fresh documentIdsOf rfl hrun hfresh.chunks
    have hcontexts := ownChunks_of_fresh contextsOf rfl hrun hfresh.chunks
    constructor
    · intro streamed
      exact ⟨hroute, hdocuments⟩
    · intro execution hmem payload success heffect
      obtain ⟨hpayloadRoute, hpayloadContexts, hpayloadDocuments⟩ :=
        enqueued_reports hrun hmem heffect
      rw [hpayloadRoute, hpayloadContexts, hpayloadDocuments]
      exact ⟨hroute, hcontexts, hdocuments⟩
    · intro past generation rest hsplit hgenerator
      exact (shown_own_iff hrun hsplit).mpr
        (hfresh.images past generation rest hsplit hgenerator)

/-! ## A cached answer after a search -/

/-- The cache has an answer from document 3. -/
def cachedServices : Services :=
  { emptyServices with
    cacheLookup := fun _ _ =>
      .ok (some ⟨"Das Rathaus ist bis 16 Uhr offen.", "Öffnungszeiten", 1, {7}, {3}, []⟩) }

def openingHours : TurnInput :=
  ⟨"Wann ist das Rathaus offen?", [7], "second"⟩

/-- The visual question, run to its end. -/
def afterVisual : List (TurnInput × List Services) :=
  [(visualQuestion, List.replicate 10 visualServices)]

theorem turn_ownEvidence_iff_cached :
    ∃ thread final, history visualSettings afterVisual = some thread ∧
      (OwnEvidence visualSettings id openingHours final ↔
        FreshEvidence visualSettings thread.state openingHours final) := by
  have hsecond : ((history visualSettings afterVisual).bind fun thread =>
      (run visualSettings thread.state openingHours
        (List.replicate 3 cachedServices)).map fun _ => ()) = some () := by
    decide +kernel
  obtain ⟨thread, hthread, hturn⟩ := Option.bind_eq_some_iff.mp hsecond
  obtain ⟨final, hrun, _⟩ := Option.map_eq_some_iff.mp hturn
  exact ⟨thread, final, hthread, turn_ownEvidence_iff hrun⟩

/-- The answer comes from the cache and from document 3; the audit detail says
that it was found on the visual route in document 1. -/
theorem cached_not_ownEvidence :
    ¬ ∀ (settings : Settings) (sha256 : String → String)
        (requests : List (TurnInput × List Services)) (thread : Thread)
        (input : TurnInput) (services : List Services) (final : Turn),
      history settings requests = some thread →
      run settings thread.state input services = some final → final.Completed →
      OwnEvidence settings sha256 input final := by
  intro hclaim
  have hsecond : ((history visualSettings afterVisual).bind fun thread =>
      (run visualSettings thread.state openingHours (List.replicate 3 cachedServices)).map
        fun final => (final.node, final.visited, thread.state.route)) =
      some (none, [.inputGuard, .semanticCache, .evalQueue], some "visual") := by
    decide +kernel
  obtain ⟨thread, hthread, hturn⟩ := Option.bind_eq_some_iff.mp hsecond
  obtain ⟨final, hrun, hfinal⟩ := Option.map_eq_some_iff.mp hturn
  simp only [Prod.mk.injEq] at hfinal
  obtain ⟨hnode, hvisited, hroute⟩ := hfinal
  have hown := hclaim visualSettings id afterVisual thread openingHours _ final hthread
    hrun hnode
  rcases (ownRoute_iff hrun).mp (hown.audit false).1 with hrouter | hnone
  · rw [hvisited] at hrouter
    simp at hrouter
  · rw [hroute] at hnone
    cases hnone

end AgenticRag.Chat
