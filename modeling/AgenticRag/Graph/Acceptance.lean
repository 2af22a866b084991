import AgenticRag.Graph.Evidence

/-!
# What a turn stores

A store call comes at the end of one fixed sequence of executions: generator,
hallucination grader, `finalize_answer`, `cache_writer`.  So what is stored is
the last generated answer, accepted by the grader that ran on it.  A turn that
executes the insufficient node has stored nothing and ends with the fixed text.
-/

namespace AgenticRag.Graph

open GraphState (flag)

/-- The log of a store call: the generation it stores, its grading, and the end
of the answer, with nothing in between. -/
structure Accepted (settings : Settings) (input : TurnInput) (log : List Execution)
    (call : StoreCall) : Prop where
  trail : ∃ earlier generation grading finalizing result,
    log = earlier ++ [generation, grading, finalizing] ∧
    generation.node = .generator ∧ grading.node = .hallucinationGrader ∧
    finalizing.node = .finalizeAnswer ∧
    generation.effects = [.generated
      (Nodes.generateCall settings generation.services generation.before) result] ∧
    call.answer = Citations.normalizeMarkers result.text ∧
    grading.before = generation.before.merge generation.update ∧
    grading.update.grounded = some true ∧
    (∀ document, document ∈ call.sourceDocumentIds ↔
      ∃ chunk ∈ generation.before.chunkList, chunk.documentId = document) ∧
    ∀ collection, collection ∈ call.sourceCollectionIds ↔
      ∃ chunk ∈ generation.before.chunkList, chunk.collectionId = collection
  query : call.query = input.query
  scope : call.requesterScope = some input.allowedCollectionIds.toFinset

/-- The execution makes the store call, whatever becomes of it. -/
def Stores (execution : Execution) (call : StoreCall) : Prop :=
  ∃ success, Effect.stored call success ∈ execution.effects

/-- The executions that lead to a store call, as far as the turn has come. -/
structure Trail (turn : Turn) : Prop where
  grading : turn.node = some .hallucinationGrader → ∃ earlier generation,
    turn.log = earlier ++ [generation] ∧ generation.node = .generator ∧
      turn.state = generation.before.merge generation.update
  finalizing : turn.node = some .finalizeAnswer → ∃ earlier generation grading,
    turn.log = earlier ++ [generation, grading] ∧ generation.node = .generator ∧
      grading.node = .hallucinationGrader ∧
      grading.before = generation.before.merge generation.update ∧
      grading.update.grounded = some true
  writing : turn.node = some .cacheWriter → ∃ earlier generation grading finalizing,
    turn.log = earlier ++ [generation, grading, finalizing] ∧
      generation.node = .generator ∧ grading.node = .hallucinationGrader ∧
      finalizing.node = .finalizeAnswer ∧
      grading.before = generation.before.merge generation.update ∧
      grading.update.grounded = some true

section Steps

variable {settings : Settings} {before after : Turn} {services : Services}

theorem step_trail (htrail : Trail before)
    (hstep : step settings before services = some after) : Trail after := by
  obtain ⟨node, update, effects, hnode, hrun, hnext, hstate, hlog⟩ := step_cases hstep
  constructor
  · intro htarget
    cases next_edge (hnext.symm.trans htarget) with
    | generated => exact ⟨before.log, _, hlog, rfl, hstate⟩
  · intro htarget
    cases next_edge (hnext.symm.trans htarget) with
    | grounded _ hgrounded =>
        obtain ⟨earlier, generation, hpast, hgenerator, hsame⟩ := htrail.grading hnode
        obtain ⟨hok, _⟩ := ok_of_map_quiet hrun
        obtain ⟨grounded, hupdate⟩ := hallucinationGrader_ok hok
        rw [hupdate] at hgrounded
        have htrue : grounded = true := hgrounded
        refine ⟨earlier, generation, ⟨.hallucinationGrader, services, before.state, update,
          effects⟩, ?_, hgenerator, rfl, hsame, ?_⟩
        · rw [hlog, hpast, List.append_assoc]
          rfl
        · rw [hupdate, htrue]
  · intro htarget
    cases next_edge (hnext.symm.trans htarget) with
    | finalized =>
        obtain ⟨earlier, generation, grading, hpast, hgenerator, hgrader, hrest⟩ :=
          htrail.finalizing hnode
        refine ⟨earlier, generation, grading, ⟨_, services, before.state, update, effects⟩,
          ?_, hgenerator, hgrader, rfl, hrest⟩
        rw [hlog, hpast, List.append_assoc]
        rfl

theorem run_trail {persisted : GraphState} {input : TurnInput}
    {services : List Services} {turn : Turn}
    (hrun : run settings persisted input services = some turn) : Trail turn := by
  apply run_induction (motive := Trail) ?_ ?_ hrun
  · exact ⟨nofun, nofun, nofun⟩
  · intro before services after htrail hstep
    exact step_trail htrail hstep

end Steps

/-! ## The store call -/

section Calls

variable {settings : Settings} {persisted : GraphState} {input : TurnInput}
variable {services : List Services} {turn : Turn}

/-- What the cache writer of a turn may store is accepted. -/
theorem writer_accepted (hrun : run settings persisted input services = some turn)
    (hnode : turn.node = some .cacheWriter) :
    Accepted settings input turn.log (Nodes.storeCall turn.state) := by
  obtain ⟨earlier, generation, grading, finalizing, hlog, hgenerator, hgrader, hfinalize,
    hgraded, hgrounded⟩ := (run_trail hrun).writing hnode
  obtain ⟨source, hlast, ⟨_, result, heffects, hanswer⟩, hfrom⟩ :=
    (run_sourced hrun).current _ hnode rfl
  have hsource : source = generation := by
    rw [hlog, lastGeneration, List.foldl_append] at hlast
    simp only [List.foldl_cons, List.foldl_nil, noteGeneration, hgenerator, hgrader,
      hfinalize, reduceCtorEq, if_true, if_false] at hlast
    exact (Option.some.inj hlast).symm
  subst hsource
  obtain ⟨hquery, hallowed⟩ := run_request hrun
  constructor
  · refine ⟨earlier, source, grading, finalizing, result, hlog, hgenerator, hgrader,
      hfinalize, heffects, ?_, hgraded, hgrounded, ?_, ?_⟩
    · rw [Nodes.storeCall, GraphState.answerText, hfrom.answer, hanswer]
      rfl
    · intro document
      exact mem_sourceDocumentIds hfrom
    · intro collection
      exact mem_sourceCollectionIds hfrom
  · rw [Nodes.storeCall, GraphState.queryText, hquery]
    rfl
  · rw [Nodes.storeCall, GraphState.allowed, hallowed]
    rfl

theorem run_accepted (hrun : run settings persisted input services = some turn) :
    ∀ past execution rest call, turn.log = past ++ execution :: rest →
      Stores execution call → Accepted settings input past call := by
  intro past execution rest call hsplit
  refine run_each (motive := fun past execution =>
    ∀ call, Stores execution call → Accepted settings input past call) ?_ hrun
    past execution rest hsplit call
  intro done before services node update effects hdone hnode hresult call hstores
  obtain ⟨success, hmem⟩ := hstores
  obtain ⟨rfl, rfl, _⟩ := runNode_stored hresult hmem
  exact writer_accepted hdone hnode

/-! ## The insufficient node -/

/-- A turn that has stored something, or executed the insufficient node, only has
the evaluation queue ahead. -/
structure Settled (turn : Turn) : Prop where
  stored : (∃ execution ∈ turn.log, ∃ call, Stores execution call) →
    turn.node = some .evalQueue ∨ turn.node = none
  insufficient : .insufficientAnswer ∈ turn.visited →
    (turn.node = some .evalQueue ∨ turn.node = none) ∧
      (∀ execution ∈ turn.log, ∀ call, ¬ Stores execution call) ∧
      turn.state.answer = some insufficientAnswerText ∧ turn.state.citations = some []

/-- The evaluation queue stores nothing and keeps the answer. -/
theorem step_evalQueue {before after : Turn} {services : Services}
    (hnode : before.node = some .evalQueue)
    (hstep : step settings before services = some after) :
    after.node = none ∧ after.state.answer = before.state.answer ∧
      after.state.citations = before.state.citations ∧
      ∃ execution, after.log = before.log ++ [execution] ∧
        execution.node = .evalQueue ∧ ∀ call, ¬ Stores execution call := by
  obtain ⟨node, update, effects, hnode', hrun, hnext, hstate, hlog⟩ := step_cases hstep
  cases hnode.symm.trans hnode'
  rw [hnext, hstate, runNode_closing (Or.inr rfl) hrun]
  refine ⟨rfl, rfl, rfl, _, hlog, rfl, ?_⟩
  rintro call ⟨success, hmem⟩
  cases (runNode_stored hrun hmem).1

theorem step_settled {before after : Turn} {services : Services} (hsettled : Settled before)
    (hstep : step settings before services = some after) : Settled after := by
  by_cases hqueue : before.node = some .evalQueue
  · obtain ⟨hended, hanswer, hcitations, execution, hlog, hvisited, hnone⟩ :=
      step_evalQueue hqueue hstep
    constructor
    · intro _
      exact Or.inr hended
    · intro hmem
      rw [Turn.visited, hlog, List.map_append, List.mem_append] at hmem
      rcases hmem with hold | hnew
      · obtain ⟨_, hclean, htext, hempty⟩ := hsettled.insufficient hold
        refine ⟨Or.inr hended, ?_, hanswer.trans htext, hcitations.trans hempty⟩
        intro other hother
        rw [hlog] at hother
        rcases List.mem_append.mp hother with hpast | hlast
        · exact hclean other hpast
        · rw [List.mem_singleton.mp hlast]
          exact hnone
      · simp [hvisited] at hnew
  · obtain ⟨node, update, effects, hnode, hrun, hnext, hstate, hlog⟩ := step_cases hstep
    have hopen : ¬ (before.node = some .evalQueue ∨ before.node = none) := by
      rintro (heval | hended)
      · exact hqueue heval
      · rw [hended] at hnode
        cases hnode
    have hclean : ∀ execution ∈ before.log, ∀ call, ¬ Stores execution call := by
      intro execution hmem call hstores
      exact hopen (hsettled.stored ⟨execution, hmem, call, hstores⟩)
    have hvisited : .insufficientAnswer ∉ before.visited := by
      intro hmem
      exact hopen (hsettled.insufficient hmem).1
    constructor
    · rintro ⟨execution, hmem, call, success, hstored⟩
      rw [hlog] at hmem
      rcases List.mem_append.mp hmem with hpast | hlast
      · exact absurd ⟨success, hstored⟩ (hclean execution hpast call)
      · rw [List.mem_singleton.mp hlast] at hstored
        obtain ⟨rfl, _⟩ := runNode_stored hrun hstored
        exact Or.inl hnext
    · intro hmem
      rw [Turn.visited, hlog, List.map_append, List.mem_append] at hmem
      obtain rfl : node = .insufficientAnswer := by
        rcases hmem with hold | hnew
        · exact absurd hold hvisited
        · exact (List.mem_singleton.mp hnew).symm
      cases hrun
      rw [hstate]
      refine ⟨Or.inl hnext, ?_, rfl, rfl⟩
      intro execution hexecution call hstores
      rw [hlog] at hexecution
      rcases List.mem_append.mp hexecution with hpast | hlast
      · exact hclean execution hpast call hstores
      · rw [List.mem_singleton.mp hlast] at hstores
        obtain ⟨success, hstored⟩ := hstores
        cases hstored

theorem run_settled (hrun : run settings persisted input services = some turn) :
    Settled turn := by
  apply run_induction (motive := Settled) ?_ ?_ hrun
  · constructor
    · rintro ⟨execution, hmem, _⟩
      cases hmem
    · intro hmem
      cases hmem
  · intro before services after hsettled hstep
    exact step_settled hsettled hstep

/-- Whatever a turn asks the cache to store is the accepted answer of its last
generation, under its own question and scope and with the sources of that
generation; a turn that executes the insufficient node stores nothing. -/
theorem run_stores (hrun : run settings persisted input services = some turn) :
    (∀ past execution rest call, turn.log = past ++ execution :: rest →
      Stores execution call → Accepted settings input past call) ∧
    (.insufficientAnswer ∈ turn.visited →
      (∀ execution ∈ turn.log, ∀ call, ¬ Stores execution call) ∧
        turn.state.answer = some insufficientAnswerText ∧
        turn.state.citations = some []) := by
  constructor
  · exact run_accepted hrun
  · intro hvisited
    exact ((run_settled hrun).insufficient hvisited).2

end Calls

theorem run_stores_visual :
    ∃ turn, (∀ past execution rest call, (turn : Turn).log = past ++ execution :: rest →
      Stores execution call → Accepted visualSettings visualQuestion past call) ∧
    (.insufficientAnswer ∈ turn.visited →
      (∀ execution ∈ turn.log, ∀ call, ¬ Stores execution call) ∧
        turn.state.answer = some insufficientAnswerText ∧
        turn.state.citations = some []) := by
  obtain ⟨turn, hrun⟩ : ∃ turn, run visualSettings {} visualQuestion
      (List.replicate 10 visualServices) = some turn :=
    Option.isSome_iff_exists.mp (by decide +kernel)
  exact ⟨turn, run_stores hrun⟩

end AgenticRag.Graph
