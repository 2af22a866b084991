import AgenticRag.Graph.Builder

/-!
# What each node can do

One specification per node that calls a fallible service, and from them the
frame of a node execution: which keys its update can contain.  Later proofs cite
these and never unfold a node.
-/

namespace AgenticRag.Graph

open AgenticRag.Assembler AgenticRag.Citations AgenticRag.PyString

theorem ok_of_bind {α β : Type} {result : Except Failure α}
    {follow : α → Except Failure β} {value : β}
    (h : (result >>= follow) = .ok value) :
    ∃ intermediate, result = .ok intermediate ∧ follow intermediate = .ok value := by
  cases result with
  | error failure => cases h
  | ok intermediate => exact ⟨intermediate, rfl, h⟩

theorem ok_of_quiet {value update : GraphState} {effects : List Effect}
    (h : (Except.ok (quiet value) : NodeResult) = .ok (update, effects)) :
    update = value ∧ effects = [] := by
  cases h
  exact ⟨rfl, rfl⟩

theorem ok_of_map_quiet {result : Except Failure GraphState}
    {update : GraphState} {effects : List Effect}
    (h : result.map quiet = .ok (update, effects)) :
    result = .ok update ∧ effects = [] := by
  cases result with
  | error failure => cases h
  | ok value =>
      cases h
      exact ⟨rfl, rfl⟩

section Specs

variable {settings : Settings} {services : Services} {state update : GraphState}
variable {effects : List Effect}

/-- The update of a cache hit. -/
def hitUpdate (state : GraphState) (hit : CacheHit) : GraphState where
  iterations := some (Nodes.bump state)
  cacheHit := some true
  answer := some hit.answer
  citations := some (if hit.citations = [] then
      (SortedSet.ascending hit.documentIds).map
        fun document => ({ documentId := document } : Citation)
    else hit.citations)
  messages := [⟨.assistant, hit.answer⟩]

theorem semanticCache_ok (h : Nodes.semanticCache services state = .ok update) :
    (∃ hit, state.allowed ≠ ∅ ∧
      services.cacheLookup state.allowed state.queryText = .ok (some hit) ∧
      update = hitUpdate state hit) ∨
    update = { iterations := some (Nodes.bump state), cacheHit := some false } := by
  unfold Nodes.semanticCache at h
  obtain ⟨hit, hlookup, h⟩ := ok_of_bind h
  cases hit with
  | none =>
      cases h
      exact Or.inr rfl
  | some hit =>
      cases h
      left
      rw [Nodes.callIf] at hlookup
      split_ifs at hlookup with hscope
      · exact ⟨hit, hscope, hlookup, rfl⟩
      · cases hlookup

theorem planner_ok (h : Nodes.planner services state = .ok update) :
    ∃ steps, update = { iterations := some (Nodes.bump state), plan := some steps } := by
  obtain ⟨steps, _, h⟩ := ok_of_bind h
  cases h
  exact ⟨steps, rfl⟩

theorem retriever_ok (h : Nodes.retriever services state = .ok update) :
    ∃ chunks pageHits, update =
      { iterations := some (Nodes.bump state)
        pageHits := some pageHits
        chunks := some chunks } := by
  unfold Nodes.retriever at h
  obtain ⟨chunks, _, h⟩ := ok_of_bind h
  obtain ⟨pageHits, _, h⟩ := ok_of_bind h
  cases h
  exact ⟨_, pageHits, rfl⟩

theorem retrievalGrader_ok (h : Nodes.retrievalGrader services state = .ok update) :
    ∃ ok, update =
      { iterations := some (Nodes.bump state), relevanceOk := some ok } := by
  obtain ⟨ok, _, h⟩ := ok_of_bind h
  cases h
  exact ⟨ok, rfl⟩

theorem rewrite_ok (h : Nodes.rewrite services state = .ok update) :
    ∃ rewritten, update =
      { iterations := some (Nodes.bump state)
        retrievalRetries := some (state.retrievalRetries.getD 0 + 1)
        rewrittenQuery := some rewritten } := by
  obtain ⟨rewritten, _, h⟩ := ok_of_bind h
  cases h
  exact ⟨rewritten, rfl⟩

theorem generator_ok
    (h : Nodes.generator settings services state = .ok (update, effects)) :
    ∃ generation,
      services.generate (Nodes.generateCall settings services state) =
        .ok generation ∧
      Readable (normalizeMarkers generation.text) ∧
      effects =
        [.generated (Nodes.generateCall settings services state) generation] ∧
      update =
        { iterations := some (Nodes.bump state)
          answer := some (normalizeMarkers generation.text)
          citations := some (recordsOf (normalizeMarkers generation.text)
            (Nodes.assembled settings services state).packedChunks)
          contextTokens := some (Nodes.assembled settings services state).tokenCount
          contextImages :=
            some (Nodes.assembled settings services state).images.length } := by
  unfold Nodes.generator at h
  obtain ⟨generation, hgenerate, h⟩ := ok_of_bind h
  obtain ⟨citations, hcitations, h⟩ := ok_of_bind h
  obtain ⟨hreadable, hrecords⟩ := extractCitations_eq_ok_iff.mp hcitations
  cases h
  exact ⟨generation, hgenerate, hreadable, rfl, by rw [hrecords]⟩

theorem hallucinationGrader_ok
    (h : Nodes.hallucinationGrader settings services state = .ok update) :
    ∃ grounded, update =
      { iterations := some (Nodes.bump state), grounded := some grounded } := by
  unfold Nodes.hallucinationGrader at h
  obtain ⟨grounded, _, h⟩ := ok_of_bind h
  cases h
  exact ⟨grounded, rfl⟩

end Specs

/-! ## Frames -/

/-- What the update of a node leaves alone.  The request keys are the caller's,
`insufficient` is never cleared, and the evidence is written by the two
retrieving nodes only. -/
structure Frame (node : Node) (state update : GraphState) : Prop where
  query : update.query = none
  allowedCollectionIds : update.allowedCollectionIds = none
  requestId : update.requestId = none
  insufficient : update.insufficient =
    if node = .insufficientAnswer ∨
        (node = .inputGuard ∧ isBlank state.queryText = true) then some true
    else none
  chunks : node ≠ .metadataLookup → node ≠ .retriever → update.chunks = none
  pageHits : node ≠ .retriever → update.pageHits = none
  answer : node ≠ .inputGuard → node ≠ .semanticCache → node ≠ .generator →
    node ≠ .insufficientAnswer → update.answer = none
  messages : node ≠ .inputGuard → node ≠ .semanticCache →
    node ≠ .insufficientAnswer → node ≠ .finalizeAnswer → update.messages = []

theorem runNode_frame {settings : Settings} {services : Services} {node : Node}
    {state update : GraphState} {effects : List Effect}
    (h : runNode settings services node state = .ok (update, effects)) :
    Frame node state update := by
  cases node with
  | inputGuard =>
      obtain ⟨hupdate, _⟩ := ok_of_quiet h
      subst hupdate
      by_cases hblank : isBlank state.queryText = true <;>
        constructor <;> simp [Nodes.inputGuard, hblank]
  | semanticCache =>
      obtain ⟨h, _⟩ := ok_of_map_quiet h
      rcases semanticCache_ok h with ⟨hit, _, _, rfl⟩ | rfl <;>
        constructor <;> simp [hitUpdate]
  | router =>
      obtain ⟨hupdate, _⟩ := ok_of_quiet h
      subst hupdate
      constructor <;> simp [Nodes.router]
  | metadataLookup =>
      obtain ⟨hupdate, _⟩ := ok_of_quiet h
      subst hupdate
      constructor <;> simp [Nodes.metadataLookup]
  | planner =>
      obtain ⟨h, _⟩ := ok_of_map_quiet h
      obtain ⟨_, rfl⟩ := planner_ok h
      constructor <;> simp
  | retriever =>
      obtain ⟨h, _⟩ := ok_of_map_quiet h
      obtain ⟨_, _, rfl⟩ := retriever_ok h
      constructor <;> simp
  | retrievalGrader =>
      obtain ⟨h, _⟩ := ok_of_map_quiet h
      obtain ⟨_, rfl⟩ := retrievalGrader_ok h
      constructor <;> simp
  | rewrite =>
      obtain ⟨h, _⟩ := ok_of_map_quiet h
      obtain ⟨_, rfl⟩ := rewrite_ok h
      constructor <;> simp
  | generator =>
      obtain ⟨_, _, _, _, rfl⟩ := generator_ok h
      constructor <;> simp
  | hallucinationGrader =>
      obtain ⟨h, _⟩ := ok_of_map_quiet h
      obtain ⟨_, rfl⟩ := hallucinationGrader_ok h
      constructor <;> simp
  | retryGeneration =>
      obtain ⟨hupdate, _⟩ := ok_of_quiet h
      subst hupdate
      constructor <;> simp [Nodes.retryGeneration]
  | finalizeAnswer =>
      obtain ⟨hupdate, _⟩ := ok_of_quiet h
      subst hupdate
      constructor <;> simp [Nodes.finalizeAnswer]
  | cacheWriter =>
      cases h
      constructor <;> simp
  | insufficientAnswer =>
      obtain ⟨hupdate, _⟩ := ok_of_quiet h
      subst hupdate
      constructor <;> simp [Nodes.insufficient]
  | evalQueue =>
      cases h
      constructor <;> simp

/-- Only `cache_writer` stores, and it stores what the state holds. -/
theorem runNode_stored {settings : Settings} {services : Services} {node : Node}
    {state update : GraphState} {effects : List Effect} {call : StoreCall}
    {success : Bool}
    (h : runNode settings services node state = .ok (update, effects))
    (hmem : Effect.stored call success ∈ effects) :
    node = .cacheWriter ∧ call = Nodes.storeCall state ∧
      success = succeeded (services.cacheStore call) := by
  cases node with
  | cacheWriter =>
      cases h
      split_ifs at hmem
      · simp only [List.mem_singleton, Effect.stored.injEq] at hmem
        obtain ⟨rfl, rfl⟩ := hmem
        exact ⟨rfl, rfl, rfl⟩
      · simp at hmem
  | generator =>
      obtain ⟨_, _, _, rfl, _⟩ := generator_ok h
      simp at hmem
  | evalQueue =>
      cases h
      split_ifs at hmem <;> simp at hmem
  | inputGuard | router | metadataLookup | retryGeneration | finalizeAnswer
    | insufficientAnswer =>
      obtain ⟨_, rfl⟩ := ok_of_quiet h
      simp at hmem
  | semanticCache | planner | retriever | retrievalGrader | rewrite
    | hallucinationGrader =>
      obtain ⟨_, rfl⟩ := ok_of_map_quiet h
      simp at hmem

/-- Only `eval_queue` enqueues, and it reports what the state holds. -/
theorem runNode_enqueued {settings : Settings} {services : Services} {node : Node}
    {state update : GraphState} {effects : List Effect} {payload : EvalPayload}
    {success : Bool}
    (h : runNode settings services node state = .ok (update, effects))
    (hmem : Effect.enqueued payload success ∈ effects) :
    node = .evalQueue ∧ payload = Nodes.evalPayload state := by
  cases node with
  | evalQueue =>
      cases h
      split_ifs at hmem
      · simp only [List.mem_singleton, Effect.enqueued.injEq] at hmem
        exact ⟨rfl, hmem.1⟩
      · simp at hmem
  | generator =>
      obtain ⟨_, _, _, rfl, _⟩ := generator_ok h
      simp at hmem
  | cacheWriter =>
      cases h
      split_ifs at hmem <;> simp at hmem
  | inputGuard | router | metadataLookup | retryGeneration | finalizeAnswer
    | insufficientAnswer =>
      obtain ⟨_, rfl⟩ := ok_of_quiet h
      simp at hmem
  | semanticCache | planner | retriever | retrievalGrader | rewrite
    | hallucinationGrader =>
      obtain ⟨_, rfl⟩ := ok_of_map_quiet h
      simp at hmem

/-- The cache writer and the nodes behind it only count. -/
theorem runNode_closing {settings : Settings} {services : Services} {node : Node}
    {state update : GraphState} {effects : List Effect}
    (hclosing : node = .cacheWriter ∨ node = .evalQueue)
    (h : runNode settings services node state = .ok (update, effects)) :
    update = { iterations := some (Nodes.bump state) } := by
  rcases hclosing with rfl | rfl
  · cases h
    rfl
  · cases h
    rfl

/-- No node writes the keys of the request. -/
theorem run_request {settings : Settings} {persisted : GraphState} {input : TurnInput}
    {services : List Services} {turn : Turn}
    (hrun : run settings persisted input services = some turn) :
    turn.state.query = some input.query ∧
      turn.state.allowedCollectionIds = some input.allowedCollectionIds := by
  apply run_induction (motive := fun turn => turn.state.query = some input.query ∧
    turn.state.allowedCollectionIds = some input.allowedCollectionIds) ?_ ?_ hrun
  · exact ⟨rfl, rfl⟩
  · intro before services after hkept hstep
    obtain ⟨node, update, effects, _, hnode, _, hstate, _⟩ := step_cases hstep
    have hframe := runNode_frame hnode
    rw [hstate]
    simp [GraphState.merge, hframe.query, hframe.allowedCollectionIds, hkept]

/-- A logged execution: its node ran on its own state in the scope of the
request. -/
structure LoggedOk (settings : Settings) (input : TurnInput) (execution : Execution) :
    Prop where
  ran : runNode settings execution.services execution.node execution.before =
    .ok (execution.update, execution.effects)
  query : execution.before.query = some input.query
  allowedCollectionIds :
    execution.before.allowedCollectionIds = some input.allowedCollectionIds

theorem run_logged {settings : Settings} {persisted : GraphState} {input : TurnInput}
    {services : List Services} {turn : Turn}
    (hrun : run settings persisted input services = some turn) :
    ∀ execution ∈ turn.log, LoggedOk settings input execution := by
  intro execution hmem
  obtain ⟨past, rest, hsplit⟩ := List.append_of_mem hmem
  refine run_each (motive := fun _ execution => LoggedOk settings input execution) ?_ hrun
    past execution rest hsplit
  intro done before services node update effects hdone _ hnode
  obtain ⟨hquery, hallowed⟩ := run_request hdone
  exact ⟨hnode, hquery, hallowed⟩

end AgenticRag.Graph
