import AgenticRag.Chat.Retrieval
import AgenticRag.Graph.Replies
import AgenticRag.Graph.Stream

/-!
# Turns under failing services

Any call to a service may raise during any node execution.  The clients of the
language model and the handlers of the nodes turn most failures into defaults; this
module says which calls reach a node as an exception, and that a turn in which no
such call raises ends with an answer.
-/

namespace AgenticRag.Chat

open AgenticRag.Citations AgenticRag.Clients AgenticRag.Graph AgenticRag.PyString
open AgenticRag.GraphState (flag)

/-! ## Calls that raise -/

def Failed {α : Type} (result : Except Failure α) : Prop :=
  ∃ failure, result = .error failure

@[simp]
theorem not_failed_ok {α : Type} (value : α) : ¬ Failed (Except.ok value) := by
  rintro ⟨failure, hfailure⟩
  cases hfailure

theorem failed_error {α : Type} (failure : Failure) :
    Failed (.error failure : Except Failure α) :=
  ⟨failure, rfl⟩

theorem failed_or_ok {α : Type} (result : Except Failure α) :
    Failed result ∨ ∃ value, result = .ok value := by
  cases result with
  | error failure => exact Or.inl (failed_error failure)
  | ok value => exact Or.inr ⟨value, rfl⟩

/-- A sequence of calls raises at the first or behind it. -/
theorem failed_bind_iff {α β : Type} {result : Except Failure α}
    {follow : α → Except Failure β} :
    Failed (result >>= follow) ↔
      Failed result ∨ ∃ value, result = .ok value ∧ Failed (follow value) := by
  cases result with
  | error failure =>
      constructor
      · intro _
        exact Or.inl (failed_error failure)
      · intro _
        exact failed_error failure
  | ok value =>
      constructor
      · intro hfollow
        exact Or.inr ⟨value, rfl, hfollow⟩
      · rintro (hfailed | ⟨other, hother, hfollow⟩)
        · exact absurd hfailed (not_failed_ok value)
        · cases hother
          exact hfollow

theorem failed_map_iff {α β : Type} {result : Except Failure α} {f : α → β} :
    Failed (result.map f) ↔ Failed result := by
  cases result with
  | error failure => exact iff_of_true (failed_error failure) (failed_error failure)
  | ok value => exact iff_of_false (not_failed_ok (f value)) (not_failed_ok value)

/-- A step that is skipped under a condition. -/
theorem failed_skip_iff {α : Type} {condition : Prop} [Decidable condition] {value : α}
    {rest : Except Failure α} :
    Failed (if condition then .ok value else rest) ↔ ¬ condition ∧ Failed rest := by
  split_ifs with hcondition
  · simp [hcondition]
  · simp [hcondition]

/-- A question to the database whether to go on. -/
theorem failed_asked_iff {α : Type} {asked : Except Failure Bool} {value : α}
    {rest : Except Failure α} :
    Failed (asked >>= fun present => if present = false then .ok value else rest) ↔
      Failed asked ∨ asked = .ok true ∧ Failed rest := by
  simp only [failed_bind_iff, failed_skip_iff, Bool.not_eq_false]
  constructor
  · rintro (hasked | ⟨present, hpresent, rfl, hrest⟩)
    · exact Or.inl hasked
    · exact Or.inr ⟨hpresent, hrest⟩
  · rintro (hasked | ⟨hpresent, hrest⟩)
    · exact Or.inl hasked
    · exact Or.inr ⟨true, hpresent, rfl, hrest⟩

theorem failed_callIf_iff {α : Type} {condition : Prop} [Decidable condition]
    {default : α} {call : Except Failure α} :
    Failed (Nodes.callIf condition default call) ↔ condition ∧ Failed call := by
  unfold Nodes.callIf
  split_ifs with hcondition
  · simp [hcondition]
  · simp [hcondition]

section Calls

variable {V : Type} (config : Config) (backends : Backends V)

/-- A call of `SemanticCache.lookup` raises. -/
def LookupRaises (allowed : Finset Uuid) (query : String) : Prop :=
  isBlank query = false ∧
    (Failed (backends.collectionExists .cache) ∨
      backends.collectionExists .cache = .ok true ∧
        (Failed (backends.embedDense query) ∨
          ∃ dense, backends.embedDense query = .ok dense ∧
            Failed (backends.queryCache dense
              (Cache.scopeHash config.sha256 allowed))))

/-- The reranker raises, or it returns fewer scores than it was given texts. -/
def RerankRaises (query : String) (points : List FoundPoint) : Prop :=
  Failed (backends.rerank query (points.map (·.content))) ∨
    ∃ scores, backends.rerank query (points.map (·.content)) = .ok scores ∧
      scores.length < points.length

/-- A call of `Retriever.search` behind `collection_exists` raises. -/
def QueryRaises (allowed : Finset Uuid) (query : String) : Prop :=
  Failed (backends.embedDense query) ∨
    ∃ dense, backends.embedDense query = .ok dense ∧
      (Failed (backends.embedSparse query) ∨
        ∃ sparse, backends.embedSparse query = .ok sparse ∧
          (Failed (backends.queryChunks dense sparse allowed config.retrievalTopK) ∨
            ∃ points,
              backends.queryChunks dense sparse allowed config.retrievalTopK = .ok points ∧
                points ≠ [] ∧ RerankRaises backends query points))

/-- A call of `Retriever.search` raises. -/
def SearchRaises (allowed : Finset Uuid) (query : String) : Prop :=
  isBlank query = false ∧
    (Failed (backends.collectionExists .docs) ∨
      backends.collectionExists .docs = .ok true ∧
        QueryRaises config backends allowed query)

/-- The one call of `VisualRetriever.search` outside its handlers raises. -/
def PagesRaise (query : String) : Prop :=
  isBlank query = false ∧ colqwenEnabled config.settings = true ∧
    Failed (backends.collectionExists .pages)

/-- `int` raises on a marker of the generated answer. -/
def CitationsRaise (state : GraphState) : Prop :=
  ¬ Readable (normalizeMarkers (generate config backends
    (Nodes.generateCall config.settings (servicesOf config backends) state)).text)

/-- A call that the node makes raises and no handler stands around it. -/
def NodeRaises (node : Node) (state : GraphState) : Prop :=
  match node with
  | .semanticCache =>
      state.allowed ≠ ∅ ∧ LookupRaises config backends state.allowed state.queryText
  | .planner => ∃ value,
      OpenAILLM.Replied config (backends.chat { prompt := .planner, user := state.queryText })
        "steps" value ∧ ¬ OpenAILLM.Iterable value
  | .retriever =>
      state.allowed ≠ ∅ ∧
        (SearchRaises config backends state.allowed (Nodes.retrievalQuery state) ∨
          state.intent = some "visual" ∧
            PagesRaise config backends (Nodes.retrievalQuery state))
  | .generator => CitationsRaise config backends state
  | .inputGuard | .router | .metadataLookup | .retrievalGrader | .rewrite
    | .hallucinationGrader | .retryGeneration | .finalizeAnswer | .cacheWriter
    | .insufficientAnswer | .evalQueue => False

variable {config : Config} {backends : Backends V} {allowed : Finset Uuid} {query : String}

theorem cacheLookup_failed_iff :
    Failed (cacheLookup config backends allowed query) ↔
      LookupRaises config backends allowed query := by
  unfold cacheLookup LookupRaises
  rw [failed_skip_iff, failed_asked_iff, failed_bind_iff, Bool.not_eq_true]
  simp only [failed_bind_iff, not_failed_ok, and_false, exists_false, or_false]

theorem reranked_failed_iff {points : List FoundPoint} {scores : List ℚ} :
    Failed (reranked config points scores) ↔ scores.length < points.length := by
  unfold reranked
  split_ifs with hshort
  · simp [hshort, failed_error]
  · simp [hshort]

theorem search_failed_iff :
    Failed (search config backends allowed query) ↔
      allowed ≠ ∅ ∧ SearchRaises config backends allowed query := by
  unfold search SearchRaises QueryRaises RerankRaises
  rw [failed_skip_iff, failed_asked_iff, not_or, Bool.not_eq_true, and_assoc]
  simp only [failed_bind_iff, failed_skip_iff, reranked_failed_iff, ne_eq]

theorem searchPages_failed_iff :
    Failed (searchPages config backends allowed query) ↔
      allowed ≠ ∅ ∧ PagesRaise config backends query := by
  unfold searchPages PagesRaise
  rw [failed_skip_iff, failed_skip_iff, failed_asked_iff, not_or, Bool.not_eq_true,
    Bool.not_eq_false, and_assoc]
  simp only [not_failed_ok, and_false, or_false, ne_eq]

theorem extractCitations_failed_iff {answer : String} {chunks : List Chunk} :
    Failed (extractCitations answer chunks) ↔ ¬ Readable answer :=
  extractCitations_raises_iff answer chunks

theorem plan_failed_iff :
    Failed (plan config backends query) ↔
      ∃ value, OpenAILLM.Replied config
        (backends.chat { prompt := .planner, user := query }) "steps" value ∧
          ¬ OpenAILLM.Iterable value := by
  have hserves : plan config backends query = OpenAILLM.plan config
      (backends.chat { prompt := .planner, user := query }) query :=
    (OpenAILLM.servicesOf_serves config backends).plan query
  rw [hserves]
  rcases failed_or_ok (OpenAILLM.plan config
    (backends.chat { prompt := .planner, user := query }) query) with hfailed | ⟨steps, hsteps⟩
  · refine iff_of_true hfailed ?_
    by_contra hnone
    push Not at hnone
    obtain ⟨steps, hsteps, _⟩ := OpenAILLM.plan_length_iff.mpr hnone
    rw [hsteps] at hfailed
    exact not_failed_ok steps hfailed
  · refine iff_of_false ?_ ?_
    · rw [hsteps]
      exact not_failed_ok steps
    · rintro ⟨value, hreplied, hnot⟩
      exact hnot (OpenAILLM.iterable_of_plan hsteps value hreplied)

/-- A raising search hides what the page search would have done. -/
theorem retriever_failed_iff {state : GraphState} :
    Failed (Nodes.retriever (servicesOf config backends) state) ↔
      NodeRaises config backends .retriever state := by
  have hpages : ∀ chunks : List RetrievedChunk,
      Failed (do
        let pageHits ← Nodes.callIf (state.intent = some "visual" ∧ state.allowed ≠ ∅) []
          (searchPages config backends state.allowed (Nodes.retrievalQuery state))
        pure
          ({ iterations := some (Nodes.bump state)
             pageHits := some pageHits
             chunks := some (chunks.map RetrievedChunk.toChunk) } : GraphState)) ↔
        state.allowed ≠ ∅ ∧ state.intent = some "visual" ∧
          PagesRaise config backends (Nodes.retrievalQuery state) := by
    intro chunks
    rw [failed_bind_iff, failed_callIf_iff, searchPages_failed_iff]
    simp only [pure, Except.pure, not_failed_ok, and_false, exists_false, or_false]
    tauto
  rw [Nodes.retriever, failed_bind_iff, failed_callIf_iff]
  simp only [servicesOf, search_failed_iff, hpages, NodeRaises]
  constructor
  · rintro (⟨hallowed, _, hsearch⟩ | ⟨_, _, hallowed, hvisual⟩)
    · exact ⟨hallowed, Or.inl hsearch⟩
    · exact ⟨hallowed, Or.inr hvisual⟩
  · rintro ⟨hallowed, hsearch | hvisual⟩
    · exact Or.inl ⟨hallowed, hallowed, hsearch⟩
    · rw [Nodes.callIf, if_pos hallowed]
      rcases failed_or_ok (search config backends state.allowed
        (Nodes.retrievalQuery state)) with hfailed | ⟨chunks, hchunks⟩
      · exact Or.inl ⟨hallowed, search_failed_iff.mp hfailed⟩
      · exact Or.inr ⟨chunks, hchunks, hallowed, hvisual⟩

/-- A node raises exactly when one of the calls does that no handler stands around. -/
theorem runNode_failed_iff {node : Node} {state : GraphState} :
    Failed (runNode config.settings (servicesOf config backends) node state) ↔
      NodeRaises config backends node state := by
  cases node with
  | semanticCache =>
      simp only [runNode, failed_map_iff, Nodes.semanticCache, failed_bind_iff,
        failed_callIf_iff, NodeRaises, servicesOf, cacheLookup_failed_iff]
      constructor
      · rintro (hlookup | ⟨hit, _, hanswer⟩)
        · exact hlookup
        · cases hit <;> exact absurd hanswer (not_failed_ok _)
      · exact Or.inl
  | planner =>
      simp only [runNode, failed_map_iff, Nodes.planner, failed_bind_iff, NodeRaises,
        servicesOf, plan_failed_iff, pure, Except.pure, not_failed_ok, and_false,
        exists_false, or_false]
  | retriever => rw [runNode, failed_map_iff, retriever_failed_iff]
  | retrievalGrader =>
      simp only [runNode, failed_map_iff, Nodes.retrievalGrader, failed_bind_iff,
        failed_callIf_iff, NodeRaises, servicesOf, pure, Except.pure, not_failed_ok,
        and_false, exists_false, or_false]
  | hallucinationGrader =>
      simp only [runNode, failed_map_iff, Nodes.hallucinationGrader, failed_bind_iff,
        failed_callIf_iff, NodeRaises, servicesOf, pure, Except.pure, not_failed_ok,
        and_false, exists_false, or_false]
  | generator =>
      simp only [runNode, Nodes.generator, failed_bind_iff, NodeRaises, CitationsRaise,
        servicesOf, extractCitations_failed_iff, pure, Except.pure, not_failed_ok, and_false,
        exists_false, or_false, false_or, Except.ok.injEq, exists_eq_left']
  | inputGuard | router | metadataLookup | rewrite | retryGeneration | finalizeAnswer
    | cacheWriter | insufficientAnswer | evalQueue => exact iff_of_false (not_failed_ok _) id

end Calls

/-! ## The answer of a turn -/

section Turn

variable {settings : Settings} {persisted : GraphState} {input : TurnInput}

/-- The nodes in front of which an answer is in the state. -/
def HoldsAnswer (node : Node) : Prop :=
  node = .hallucinationGrader ∨ node = .retryGeneration ∨ node = .finalizeAnswer ∨
    node = .cacheWriter ∨ node = .evalQueue

/-- Where an answer has to be in the state: with the flag set, and from the first
generation to the end. -/
structure Answering (node : Option Node) (state : GraphState) : Prop where
  flagged : flag state.insufficient = true → state.answer.isSome = true
  held : ∀ current, node = some current → HoldsAnswer current → state.answer.isSome = true
  ended : node = none → state.answer.isSome = true

/-- The updates that bring an answer. -/
theorem runNode_brings {services : Services} {node : Node} {state update : GraphState}
    {effects : List Effect}
    (hrun : runNode settings services node state = .ok (update, effects)) :
    (update.insufficient = some true → update.answer.isSome = true) ∧
      (node = .generator ∨ node = .insufficientAnswer → update.answer.isSome = true) ∧
      (node = .semanticCache → update.cacheHit = some true ∧ update.answer.isSome = true ∨
        update.cacheHit = some false) := by
  cases node with
  | inputGuard =>
      obtain ⟨rfl, _⟩ := ok_of_quiet hrun
      by_cases hblank : isBlank state.queryText = true <;>
        simp [Nodes.inputGuard, hblank]
  | semanticCache =>
      obtain ⟨hok, _⟩ := ok_of_map_quiet hrun
      rcases semanticCache_ok hok with ⟨hit, _, _, rfl⟩ | rfl
      · simp [hitUpdate]
      · simp
  | generator =>
      obtain ⟨generation, _, _, _, rfl⟩ := generator_ok hrun
      simp
  | insufficientAnswer =>
      obtain ⟨rfl, _⟩ := ok_of_quiet hrun
      simp [Nodes.insufficient]
  | router | metadataLookup | planner | retriever | retrievalGrader | rewrite
    | hallucinationGrader | retryGeneration | finalizeAnswer | cacheWriter | evalQueue =>
      have hquiet := (runNode_frame hrun).insufficient
      simp only [reduceCtorEq, false_and, or_self, if_false] at hquiet
      simp [hquiet]

theorem runNode_answering {services : Services} {node : Node} {state update : GraphState}
    {effects : List Effect} (hanswering : Answering (some node) state)
    (hrun : runNode settings services node state = .ok (update, effects)) :
    Answering (next settings node (state.merge update)) (state.merge update) := by
  obtain ⟨hset, hwritten, hcached⟩ := runNode_brings hrun
  have hnew : update.answer.isSome = true → (state.merge update).answer.isSome = true := by
    intro hsome
    rw [GraphState.merge, Option.isSome_or, hsome, Bool.true_or]
  have hkeep : state.answer.isSome = true → (state.merge update).answer.isSome = true := by
    intro hsome
    rw [GraphState.merge, Option.isSome_or, hsome, Bool.or_true]
  have hflagged : flag (state.merge update).insufficient = true →
      (state.merge update).answer.isSome = true := by
    intro hflag
    rw [GraphState.merge, flag_or] at hflag
    cases hinsufficient : update.insufficient with
    | none =>
        rw [hinsufficient, Option.getD_none] at hflag
        exact hkeep (hanswering.flagged hflag)
    | some value =>
        rw [hinsufficient, Option.getD_some] at hflag
        exact hnew (hset (hflag ▸ hinsufficient))
  refine ⟨hflagged, ?_, ?_⟩
  · intro target htarget hholds
    cases node with
    | inputGuard =>
        simp only [next, afterInput, Option.some.injEq] at htarget
        split_ifs at htarget with hflag
        · exact hflagged hflag
        · subst htarget
          simp [HoldsAnswer] at hholds
    | semanticCache =>
        simp only [next, afterCache, Option.some.injEq] at htarget
        split_ifs at htarget with hhit
        · rcases hcached rfl with ⟨_, hsome⟩ | hmiss
          · exact hnew hsome
          · simp [GraphState.merge, hmiss, flag] at hhit
        · subst htarget
          simp [HoldsAnswer] at hholds
    | generator => exact hnew (hwritten (Or.inl rfl))
    | insufficientAnswer => exact hnew (hwritten (Or.inr rfl))
    | hallucinationGrader | retryGeneration | finalizeAnswer | cacheWriter | evalQueue =>
        exact hkeep (hanswering.held _ rfl (by simp [HoldsAnswer]))
    | router | metadataLookup | planner | retriever | retrievalGrader | rewrite =>
        cases next_edge htarget <;> simp [HoldsAnswer] at hholds
  · intro hended
    obtain rfl := next_none hended
    exact hkeep (hanswering.held _ rfl (by simp [HoldsAnswer]))

theorem run_answering {services : List Services} {turn : Turn}
    (hpersisted : flag persisted.insufficient = true → persisted.answer.isSome = true)
    (hrun : run settings persisted input services = some turn) :
    Answering turn.node turn.state := by
  apply run_induction (motive := fun turn => Answering turn.node turn.state) ?_ ?_ hrun
  · refine ⟨hpersisted, ?_, ?_⟩
    · intro current hcurrent hholds
      cases hcurrent
      simp [HoldsAnswer] at hholds
    · intro hended
      cases hended
  · intro before services after hanswering hstep
    obtain ⟨node, update, effects, hnode, hran, hnext, hstate, _⟩ := step_cases hstep
    rw [hnext, hstate]
    exact runNode_answering (hnode ▸ hanswering) hran

/-- In every saved state the flag comes with an answer. -/
theorem attempts_answer {requests : List (TurnInput × List Services)} {thread : Thread}
    (hhistory : attempts settings requests = some thread)
    (hflag : flag thread.state.insufficient = true) : thread.state.answer.isSome = true := by
  revert hflag
  apply Transition.exec_invariant (motive := fun thread : Thread =>
    flag thread.state.insufficient = true → thread.state.answer.isSome = true) ?_ hhistory
  · intro hflag
    cases hflag
  · intro before request after hbefore hattempt
    obtain ⟨final, hrun, rfl⟩ := Option.map_eq_some_iff.mp hattempt
    exact (run_answering hbefore hrun).flagged

/-! ## A turn without a collection -/

/-- The nodes that work on an answer of the model. -/
def WorksOnAnswer (node : Node) : Prop :=
  node = .generator ∨ node = .hallucinationGrader ∨ node = .retryGeneration ∨
    node = .finalizeAnswer ∨ node = .cacheWriter

/-- A turn of a user without collections: nothing is found, nothing is generated, and
it closes as insufficient. -/
structure Unsupplied (node : Option Node) (state : GraphState) : Prop where
  unworked : ∀ current, node = some current → ¬ WorksOnAnswer current
  graded : node = some .retrievalGrader → state.chunkList = []
  closing : node = some .evalQueue ∨ node = none → flag state.insufficient = true

/-- Without a collection the retriever finds nothing and asks nobody. -/
theorem retriever_unsupplied {services : Services} {state : GraphState}
    (hallowed : state.allowed = ∅) :
    Nodes.retriever services state =
      .ok { iterations := some (Nodes.bump state), pageHits := some [], chunks := some [] } := by
  simp only [Nodes.retriever, Nodes.callIf, hallowed, ne_eq, not_true, and_false, if_false]
  rfl

/-- Nothing found is not graded. -/
theorem retrievalGrader_unsupplied {services : Services} {state : GraphState}
    (hchunks : state.chunkList = []) :
    Nodes.retrievalGrader services state =
      .ok { iterations := some (Nodes.bump state), relevanceOk := some false } := by
  simp only [Nodes.retrievalGrader, Nodes.callIf, hchunks, ne_eq, not_true, if_false]
  rfl

/-- The nodes that only search. -/
theorem unsupplied_searching {node : Node} {state : GraphState}
    (hnode : node = .semanticCache ∨ node = .router ∨ node = .planner ∨
      node = .metadataLookup ∨ node = .retriever ∨ node = .rewrite ∨
      node = .insufficientAnswer) : Unsupplied (some node) state := by
  rcases hnode with rfl | rfl | rfl | rfl | rfl | rfl | rfl <;>
    exact ⟨by simp [WorksOnAnswer], by simp, by simp⟩

theorem runNode_unsupplied {services : Services} {node : Node} {state update : GraphState}
    {effects : List Effect} (hallowed : state.allowed = ∅)
    (hunsupplied : Unsupplied (some node) state)
    (hrun : runNode settings services node state = .ok (update, effects)) :
    Unsupplied (next settings node (state.merge update)) (state.merge update) := by
  have hunworked := hunsupplied.unworked node rfl
  cases node with
  | inputGuard =>
      rw [next, afterInput]
      split_ifs with hflag
      · exact ⟨by simp [WorksOnAnswer], by simp, fun _ => hflag⟩
      · exact unsupplied_searching (by simp)
  | semanticCache =>
      obtain ⟨hok, _⟩ := ok_of_map_quiet hrun
      rcases semanticCache_ok hok with ⟨_, hscope, _⟩ | rfl
      · exact absurd hallowed hscope
      · exact unsupplied_searching (Or.inr (Or.inl rfl))
  | router =>
      rw [next, afterRouter]
      split_ifs
      · exact unsupplied_searching (by simp)
      · split <;> exact unsupplied_searching (by simp)
  | metadataLookup =>
      obtain ⟨rfl, _⟩ := ok_of_quiet hrun
      have hchunks : (state.merge (Nodes.metadataLookup services state)).chunkList = [] := by
        simp [GraphState.merge, GraphState.chunkList, Nodes.metadataLookup, hallowed]
      rw [next, afterMetadata, if_pos hchunks]
      split_ifs <;> exact unsupplied_searching (by simp)
  | retriever =>
      obtain ⟨hok, _⟩ := ok_of_map_quiet hrun
      rw [retriever_unsupplied hallowed] at hok
      cases hok
      exact ⟨by simp [next, WorksOnAnswer], fun _ => rfl, by simp [next]⟩
  | retrievalGrader =>
      obtain ⟨hok, _⟩ := ok_of_map_quiet hrun
      have hchunks := hunsupplied.graded rfl
      rw [retrievalGrader_unsupplied hchunks] at hok
      cases hok
      rw [next, afterGrade]
      split_ifs with hover hrelevant hretry hfound
      · exact unsupplied_searching (by simp)
      · cases hrelevant
      · exact unsupplied_searching (by simp)
      · exact unsupplied_searching (by simp)
      · exact absurd hchunks hfound
  | planner | rewrite => exact unsupplied_searching (by simp)
  | insufficientAnswer =>
      obtain ⟨rfl, _⟩ := ok_of_quiet hrun
      exact ⟨by simp [next, WorksOnAnswer], by simp [next], fun _ => rfl⟩
  | evalQueue =>
      have hquiet := (runNode_frame hrun).insufficient
      simp only [reduceCtorEq, false_and, or_self, if_false] at hquiet
      refine ⟨by simp [next], by simp [next], fun _ => ?_⟩
      rw [GraphState.merge, hquiet, Option.none_or]
      exact hunsupplied.closing (Or.inl rfl)
  | generator | hallucinationGrader | retryGeneration | finalizeAnswer | cacheWriter =>
      exact absurd (by simp [WorksOnAnswer]) hunworked

/-- A turn of a user without collections closes as insufficient. -/
theorem run_unsupplied {services : List Services} {turn : Turn}
    (hallowed : input.allowedCollectionIds = [])
    (hrun : run settings persisted input services = some turn) :
    Unsupplied turn.node turn.state := by
  apply Transition.exec_induction
    (motive := fun _ turn => Unsupplied turn.node turn.state) ?_ ?_ hrun
  · exact ⟨by simp [start, WorksOnAnswer], by simp [start], by simp [start]⟩
  · intro past before services after hpast hunsupplied hstep
    obtain ⟨node, update, effects, hnode, hran, hnext, hstate, _⟩ := step_cases hstep
    have hscope : before.state.allowed = ∅ := by
      rw [GraphState.allowed, (run_request hpast).2, hallowed]
      rfl
    rw [hnext, hstate]
    exact runNode_unsupplied hscope (hnode ▸ hunsupplied) hran

end Turn

/-! ## Answered turns -/

section Answered

variable {V : Type} (config : Config)

/-- Every call to Qdrant raises. -/
structure QdrantDown (backends : Backends V) : Prop where
  collectionExists : ∀ collection, Failed (backends.collectionExists collection)
  queryCache : ∀ dense scope, Failed (backends.queryCache dense scope)
  queryChunks : ∀ dense sparse allowed limit,
    Failed (backends.queryChunks dense sparse allowed limit)
  queryPages : ∀ multivector allowed limit,
    Failed (backends.queryPages multivector allowed limit)

/-- The turn under the given behaviour of the services, so many executions of it. -/
def runUnder (persisted : GraphState) (input : TurnInput) (backends : ℕ → Backends V)
    (count : ℕ) : Option Turn :=
  run config.settings persisted input
    ((List.range count).map fun index => servicesOf config (backends index))

/-- The turn reaches `END` with an answer, as insufficient when Qdrant was down. -/
def EndsAnswered (persisted : GraphState) (input : TurnInput) (backends : ℕ → Backends V) :
    Prop :=
  ∃ count turn, runUnder config persisted input backends count = some turn ∧
    turn.Completed ∧ turn.state.answer.isSome = true ∧
      ((∀ index < count, QdrantDown (backends index)) →
        flag turn.state.insufficient = true)

/-- The node the turn is about to execute makes a call that raises and has no handler. -/
def CallRaises (backends : Backends V) (turn : Turn) : Prop :=
  ∃ node, turn.node = some node ∧ NodeRaises config backends node turn.state

variable {config} {persisted : GraphState} {input : TurnInput} {backends : ℕ → Backends V}
variable {count : ℕ} {turn : Turn}

theorem callRaises_iff {backends : Backends V} :
    CallRaises config backends turn ↔
      Raises config.settings turn (servicesOf config backends) := by
  constructor
  · rintro ⟨node, hnode, hraises⟩
    obtain ⟨failure, hfailure⟩ := runNode_failed_iff.mpr hraises
    exact ⟨node, failure, hnode, hfailure⟩
  · rintro ⟨node, failure, hnode, hfailure⟩
    exact ⟨node, hnode, runNode_failed_iff.mp ⟨failure, hfailure⟩⟩

/-- A turn that completes has not raised. -/
theorem completed_not_raises (hrun : runUnder config persisted input backends count = some turn)
    (hcompleted : turn.Completed) {other : ℕ} {stopped : Turn}
    (hother : runUnder config persisted input backends other = some stopped) :
    ¬ CallRaises config (backends other) stopped := by
  intro hraises
  let services : ℕ → Services := fun index => servicesOf config (backends index)
  have hstopped : step config.settings stopped (services other) = none :=
    @step_of_raises config.settings services other stopped (callRaises_iff.mp hraises)
  rw [runUnder] at hrun hother
  rcases Nat.lt_trichotomy other count with hbefore | hsame | hbehind
  · obtain ⟨following, hfollowing⟩ := run_later hbefore hother hrun
    rw [hstopped] at hfollowing
    cases hfollowing
  · obtain ⟨node, hnode, _⟩ := hraises
    rw [hsame, hrun, Option.some.injEq] at hother
    rw [← hother, show turn.node = none from hcompleted] at hnode
    cases hnode
  · obtain ⟨following, hfollowing⟩ := run_later hbehind hrun hother
    rw [@step_of_completed config.settings services count turn hcompleted] at hfollowing
    cases hfollowing

/-- The first execution of a turn is the guard. -/
theorem runUnder_one (hrun : runUnder config persisted input backends count = some turn)
    (hcount : 0 < count) :
    ∃ first, runUnder config persisted input backends 1 = some first ∧
      first.node = some (secondNode persisted input) := by
  let services : ℕ → Services := fun index => servicesOf config (backends index)
  obtain ⟨first, hfirst⟩ := @run_later config.settings persisted input services 0 count
    (start persisted input) turn hcount rfl hrun
  have hone : runUnder config persisted input backends 1 = some first :=
    Transition.exec_cons_eq_some_iff.mpr ⟨first, hfirst, rfl⟩
  have hlength : first.visited.length = 1 := by
    rw [Turn.visited, List.length_map, run_length hone]
    rfl
  refine ⟨first, hone, ?_⟩
  rcases run_begins hone with rfl | ⟨_, hnode⟩ | ⟨rest, hrest⟩
  · cases hlength
  · exact hnode
  · rw [hrest] at hlength
    cases hlength

/-- With Qdrant down the cache of a user with collections raises. -/
theorem down_raises (hrun : runUnder config persisted input backends count = some turn)
    (hnode : turn.node = some .semanticCache) (hquery : isBlank input.query = false)
    (hallowed : input.allowedCollectionIds ≠ []) (hdown : QdrantDown (backends count)) :
    CallRaises config (backends count) turn := by
  obtain ⟨hkept, hscope⟩ := run_request hrun
  refine ⟨.semanticCache, hnode, ?_, ?_, Or.inl (hdown.collectionExists .cache)⟩
  · rw [GraphState.allowed, hscope]
    simpa [List.toFinset_eq_empty_iff] using hallowed
  · rw [GraphState.queryText, hkept]
    exact hquery

/-- With Qdrant down a turn that completes closes as insufficient. -/
theorem completed_insufficient
    (hrun : runUnder config persisted input backends count = some turn)
    (hcompleted : turn.Completed) (hdown : ∀ index < count, QdrantDown (backends index)) :
    flag turn.state.insufficient = true := by
  obtain ⟨rest, hvisited⟩ := completed_begins hrun hcompleted
  by_cases hallowed : input.allowedCollectionIds = []
  · exact (run_unsupplied hallowed hrun).closing (Or.inr hcompleted)
  by_cases hguard : flag persisted.insufficient = true ∨ isBlank input.query = true
  · apply (run_flag hrun).mpr
    rcases hguard with hflag | hblank
    · exact Or.inl hflag
    · exact Or.inr (Or.inr ⟨hblank, by simp [hvisited]⟩)
  · -- the cache would have been asked, and have raised
    have hlength : rest.length + 2 = count := by
      have hlength := run_length hrun
      rw [← List.length_map (f := (·.node)), ← Turn.visited, hvisited] at hlength
      simpa using hlength
    obtain ⟨first, hone, hnode⟩ := runUnder_one hrun (by omega)
    rw [secondNode, if_neg hguard] at hnode
    have hquery : isBlank input.query = false := by
      simpa using (not_or.mp hguard).2
    exact absurd (down_raises hone hnode hquery hallowed (hdown 1 (by omega)))
      (completed_not_raises hrun hcompleted hone)

/-- A turn ends with an answer, as insufficient when Qdrant is down, exactly when none
of its node executions makes a call that raises and has no handler around it. -/
theorem turn_endsAnswered_iff {requests : List (TurnInput × List Services)}
    {thread : Thread} (hhistory : attempts config.settings requests = some thread)
    (input : TurnInput) (backends : ℕ → Backends V) :
    EndsAnswered config thread.state input backends ↔
      ∀ count turn, runUnder config thread.state input backends count = some turn →
        ¬ CallRaises config (backends count) turn := by
  constructor
  · rintro ⟨count, turn, hrun, hcompleted, _⟩ other stopped hother
    exact completed_not_raises hrun hcompleted hother
  · intro hquiet
    obtain ⟨count, turn, hrun, hend, _⟩ := run_ends config.settings thread.state input
      fun index => servicesOf config (backends index)
    have hcompleted : turn.Completed := by
      rcases hend with hcompleted | hraises
      · exact hcompleted
      · exact absurd (callRaises_iff.mpr hraises) (hquiet count turn hrun)
    have hanswering := run_answering (attempts_answer hhistory) hrun
    exact ⟨count, turn, hrun, hcompleted, hanswering.ended hcompleted,
      completed_insufficient hrun hcompleted⟩

end Answered

/-! ## Qdrant down -/

/-- Everything but the vector database answers. -/
def withoutQdrant : Backends Unit where
  now := 0
  chat _ := .ok "{}"
  chatStream _ := { deltas := ["Um neun Uhr."] }
  embedDense _ := .ok ()
  embedSparse _ := .ok ()
  rerank _ texts := .ok (texts.map fun _ => 1)
  collectionExists _ := .error "ResponseHandlingException"
  queryCache _ _ := .error "ResponseHandlingException"
  queryChunks _ _ _ _ := .error "ResponseHandlingException"
  embedQuery _ := .ok ()
  queryPages _ _ _ := .error "ResponseHandlingException"
  selectDocuments _ _ := .ok []
  loadImage _ := none
  cacheStore _ := .error "ResponseHandlingException"
  rpush _ := .ok ()

theorem withoutQdrant_down : QdrantDown withoutQdrant where
  collectionExists _ := failed_error _
  queryCache _ _ := failed_error _
  queryChunks _ _ _ _ := failed_error _
  queryPages _ _ _ := failed_error _

def plainConfig : Config where
  sha256 := id
  loads _ := some (.object [])
  str := Json.str

def askedWithCollection : TurnInput where
  query := "Wann ist das Rathaus offen?"
  allowedCollectionIds := [7]
  requestId := "request"

theorem turn_endsAnswered_iff_down :
    EndsAnswered plainConfig {} askedWithCollection (fun _ => withoutQdrant) ↔
      ∀ count turn,
        runUnder plainConfig {} askedWithCollection (fun _ => withoutQdrant) count =
          some turn →
        ¬ CallRaises plainConfig withoutQdrant turn :=
  @turn_endsAnswered_iff Unit plainConfig [] {} rfl askedWithCollection
    fun _ => withoutQdrant

/-- The first call of the cache is `collection_exists`, and it raises. -/
theorem turn_not_endsAnswered :
    ¬ ∀ (config : Config) (requests : List (TurnInput × List Services)) (thread : Thread)
        (input : TurnInput) (backends : ℕ → Backends Unit),
      attempts config.settings requests = some thread →
        EndsAnswered config thread.state input backends := by
  intro hclaim
  obtain ⟨count, turn, hrun, hcompleted, _⟩ :=
    hclaim plainConfig [] {} askedWithCollection (fun _ => withoutQdrant) rfl
  have hcount : 0 < count := by
    apply Nat.pos_of_ne_zero
    rintro rfl
    cases hrun
    cases hcompleted
  obtain ⟨first, hone, hnode⟩ := runUnder_one hrun hcount
  have hquery : isBlank askedWithCollection.query = false := by decide
  have hsecond : secondNode {} askedWithCollection = .semanticCache := by
    simp [secondNode, hquery, flag]
  exact completed_not_raises hrun hcompleted hone
    (down_raises hone (hsecond ▸ hnode) hquery (by simp [askedWithCollection])
      withoutQdrant_down)

end AgenticRag.Chat
