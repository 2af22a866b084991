import AgenticRag.Graph.NodeSpecs

/-!
# The length of a turn

The iteration cap is read by four of the routing functions, the retry limits by
two, and the two loops pass each of them.  Two bounds on the executions up to a
node, one from the cap and one from the retry counters, follow every edge; at
`END` they bound the whole turn.
-/

namespace AgenticRag.Graph

open GraphState (flag)

/-- `recursion_limit` of the API. -/
def recursionLimit (settings : Settings) : ℕ :=
  settings.maxGraphIterations * 3 + 10

/-! ## Counters -/

section Counters

variable {settings : Settings} {services : Services} {node : Node}
variable {state update : GraphState} {effects : List Effect}

/-- What a node does to the three counters. -/
structure Counted (node : Node) (state update : GraphState) : Prop where
  iterations : (state.merge update).iterations = some (state.iterations.getD 0 + 1)
  retrieval : (state.merge update).retrievalRetries.getD 0 =
    state.retrievalRetries.getD 0 + if node = .rewrite then 1 else 0
  generation : (state.merge update).generationRetries.getD 0 =
    state.generationRetries.getD 0 + if node = .retryGeneration then 1 else 0

/-- A node that only bumps `iterations`. -/
theorem Counted.of_bump (hiterations : update.iterations = some (Nodes.bump state))
    (hretrieval : update.retrievalRetries = none)
    (hgeneration : update.generationRetries = none)
    (hrewrite : node ≠ .rewrite) (hretry : node ≠ .retryGeneration) :
    Counted node state update := by
  constructor
  · simp [GraphState.merge, hiterations, Nodes.bump]
  · simp [GraphState.merge, hretrieval, hrewrite]
  · simp [GraphState.merge, hgeneration, hretry]

theorem runNode_counted
    (h : runNode settings services node state = .ok (update, effects)) :
    Counted node state update := by
  cases node with
  | inputGuard =>
      obtain ⟨hupdate, _⟩ := ok_of_quiet h
      subst hupdate
      by_cases hblank : PyString.isBlank state.queryText = true <;>
        constructor <;> simp [Nodes.inputGuard, hblank, GraphState.merge, Nodes.bump]
  | rewrite =>
      obtain ⟨h, _⟩ := ok_of_map_quiet h
      obtain ⟨_, rfl⟩ := rewrite_ok h
      constructor <;> simp [GraphState.merge, Nodes.bump]
  | retryGeneration =>
      cases h
      constructor <;> simp [Nodes.retryGeneration, GraphState.merge, Nodes.bump]
  | semanticCache =>
      obtain ⟨h, _⟩ := ok_of_map_quiet h
      rcases semanticCache_ok h with ⟨hit, _, _, rfl⟩ | rfl
      · exact .of_bump rfl rfl rfl (by decide) (by decide)
      · exact .of_bump rfl rfl rfl (by decide) (by decide)
  | planner =>
      obtain ⟨h, _⟩ := ok_of_map_quiet h
      obtain ⟨_, rfl⟩ := planner_ok h
      exact .of_bump rfl rfl rfl (by decide) (by decide)
  | retriever =>
      obtain ⟨h, _⟩ := ok_of_map_quiet h
      obtain ⟨_, _, rfl⟩ := retriever_ok h
      exact .of_bump rfl rfl rfl (by decide) (by decide)
  | retrievalGrader =>
      obtain ⟨h, _⟩ := ok_of_map_quiet h
      obtain ⟨_, rfl⟩ := retrievalGrader_ok h
      exact .of_bump rfl rfl rfl (by decide) (by decide)
  | generator =>
      obtain ⟨_, _, _, _, rfl⟩ := generator_ok h
      exact .of_bump rfl rfl rfl (by decide) (by decide)
  | hallucinationGrader =>
      obtain ⟨h, _⟩ := ok_of_map_quiet h
      obtain ⟨_, rfl⟩ := hallucinationGrader_ok h
      exact .of_bump rfl rfl rfl (by decide) (by decide)
  | router | metadataLookup | finalizeAnswer | cacheWriter | insufficientAnswer
    | evalQueue =>
      cases h
      exact .of_bump rfl rfl rfl (by decide) (by decide)

end Counters

/-! ## Two bounds -/

/-- The executions up to and including a node, as the iteration cap bounds them:
a node behind a routing function that reads the cap is executed below it. -/
def capThrough (settings : Settings) : Node → ℕ
  | .inputGuard => 1
  | .semanticCache => 2
  | .router => 3
  | .planner | .metadataLookup | .rewrite | .retryGeneration | .finalizeAnswer =>
      settings.maxGraphIterations
  | .retriever | .generator | .cacheWriter => settings.maxGraphIterations + 1
  | .retrievalGrader | .hallucinationGrader => settings.maxGraphIterations + 2
  | .insufficientAnswer => max (settings.maxGraphIterations + 3) 4
  | .evalQueue => max (settings.maxGraphIterations + 4) 5

/-- The same as the retry counters bound them: each retry adds three. -/
def pathThrough (retrievals generations : ℕ) : Node → ℕ
  | .inputGuard => 1
  | .semanticCache => 2
  | .router => 3
  | .planner | .metadataLookup => 4
  | .retriever => 5 + 3 * retrievals
  | .retrievalGrader => 6 + 3 * retrievals
  | .rewrite => 7 + 3 * retrievals
  | .generator => 7 + 3 * retrievals + 3 * generations
  | .hallucinationGrader => 8 + 3 * retrievals + 3 * generations
  | .retryGeneration | .finalizeAnswer | .insufficientAnswer =>
      9 + 3 * retrievals + 3 * generations
  | .cacheWriter => 10 + 3 * retrievals + 3 * generations
  | .evalQueue => 11 + 3 * retrievals + 3 * generations

/-- The bound behind a node, in the counters behind it. -/
def pathAfter (retrievals generations : ℕ) : Node → ℕ
  | .rewrite => 4 + 3 * retrievals
  | .retryGeneration => 6 + 3 * retrievals + 3 * generations
  | node => pathThrough retrievals generations node

theorem pathAfter_eq (retrievals generations : ℕ) (node : Node) :
    pathAfter (retrievals + if node = .rewrite then 1 else 0)
        (generations + if node = .retryGeneration then 1 else 0) node =
      pathThrough retrievals generations node := by
  cases node with
  | rewrite =>
      simp only [pathAfter, pathThrough, if_true]
      omega
  | retryGeneration =>
      simp only [pathAfter, pathThrough, if_true, reduceCtorEq, if_false]
      omega
  | _ => rfl

section Edges

variable {settings : Settings} {node target : Node} {state : GraphState}

/-- Every edge keeps the bound of the cap. -/
theorem next_cap (hnext : next settings node state = some target)
    (hcap : state.iterations.getD 0 ≤ capThrough settings node) :
    state.iterations.getD 0 + 1 ≤ capThrough settings target := by
  cases next_edge hnext with
  | exhausted hgate =>
      rcases hgate with rfl | rfl | rfl | rfl <;> simp only [capThrough] at * <;> omega
  | planning hbelow | asking hbelow | searching hbelow | unlisted hbelow | listed hbelow
    | graded hbelow | rewriting hbelow _ | grounded hbelow _ | retrying hbelow _ =>
      simp only [BelowCap, capThrough] at *
      omega
  | stopped | passed | hit | missed | planned | retrieved | rewritten | generated
    | retried | finalized | written | abstained =>
      simp only [capThrough] at *
      omega

/-- Every edge keeps the bound of the retry counters. -/
theorem next_path {count retrievals generations : ℕ}
    (hnext : next settings node state = some target)
    (hpath : count ≤ pathAfter retrievals generations node) :
    count + 1 ≤ pathThrough retrievals generations target := by
  cases next_edge hnext with
  | exhausted hgate =>
      rcases hgate with rfl | rfl | rfl | rfl <;>
        simp only [pathAfter, pathThrough] at * <;> omega
  | _ =>
      simp only [pathAfter, pathThrough] at *
      omega

/-- A retry is entered below its limit. -/
theorem next_rewrite (hnext : next settings node state = some .rewrite) :
    state.retrievalRetries.getD 0 < settings.maxRetrievalRetries := by
  cases next_edge hnext with
  | rewriting _ hretry => exact hretry

theorem next_retryGeneration (hnext : next settings node state = some .retryGeneration) :
    state.generationRetries.getD 0 < settings.maxGenerationRetries := by
  cases next_edge hnext with
  | retrying _ hretry => exact hretry

end Edges

/-! ## The bounds along a turn -/

/-- The counters of a turn agree with its length, and both bounds hold at the
node it is about to execute. -/
structure WithinBudget (settings : Settings) (turn : Turn) : Prop where
  iterations : turn.state.iterations = some turn.log.length
  retrieval : turn.state.retrievalRetries.getD 0 ≤ settings.maxRetrievalRetries
  generation : turn.state.generationRetries.getD 0 ≤ settings.maxGenerationRetries
  rewrite : turn.node = some .rewrite →
    turn.state.retrievalRetries.getD 0 < settings.maxRetrievalRetries
  retry : turn.node = some .retryGeneration →
    turn.state.generationRetries.getD 0 < settings.maxGenerationRetries
  cap : ∀ node, turn.node = some node → turn.log.length + 1 ≤ capThrough settings node
  path : ∀ node, turn.node = some node → turn.log.length + 1 ≤
    pathThrough (turn.state.retrievalRetries.getD 0)
      (turn.state.generationRetries.getD 0) node
  ended : turn.node = none →
    turn.log.length ≤ capThrough settings .evalQueue ∧
    turn.log.length ≤ pathThrough (turn.state.retrievalRetries.getD 0)
      (turn.state.generationRetries.getD 0) .evalQueue

/-- Only the evaluation queue ends a turn. -/
theorem next_none {settings : Settings} {node : Node} {state : GraphState}
    (hnext : next settings node state = none) : node = .evalQueue := by
  cases node with
  | evalQueue => rfl
  | _ => cases hnext

theorem step_withinBudget {settings : Settings} {before after : Turn}
    {services : Services} (hwithin : WithinBudget settings before)
    (hstep : step settings before services = some after) :
    WithinBudget settings after := by
  obtain ⟨node, update, effects, hnode, hrun, hnext, hstate, hlog⟩ := step_cases hstep
  obtain ⟨hiterations, hretrieval, hgeneration⟩ := runNode_counted hrun
  rw [hwithin.iterations, Option.getD_some, ← hstate] at hiterations
  rw [← hstate] at hretrieval hgeneration hnext
  have hlength : after.log.length = before.log.length + 1 := by
    rw [hlog, List.length_append]
    rfl
  have hcount : after.state.iterations.getD 0 = after.log.length := by
    rw [hiterations, hlength]
    rfl
  have hcap : after.state.iterations.getD 0 ≤ capThrough settings node := by
    rw [hcount, hlength]
    exact hwithin.cap node hnode
  have hpath : after.log.length ≤ pathAfter (after.state.retrievalRetries.getD 0)
      (after.state.generationRetries.getD 0) node := by
    rw [hretrieval, hgeneration, pathAfter_eq, hlength]
    exact hwithin.path node hnode
  constructor
  · rw [hiterations, hlength]
  · rw [hretrieval]
    split_ifs with hrewrite
    · exact hwithin.rewrite (hrewrite ▸ hnode)
    · exact hwithin.retrieval
  · rw [hgeneration]
    split_ifs with hretry
    · exact hwithin.retry (hretry ▸ hnode)
    · exact hwithin.generation
  · intro htarget
    exact next_rewrite (hnext.symm.trans htarget)
  · intro htarget
    exact next_retryGeneration (hnext.symm.trans htarget)
  · intro target htarget
    rw [← hcount]
    exact next_cap (hnext.symm.trans htarget) hcap
  · intro target htarget
    exact next_path (hnext.symm.trans htarget) hpath
  · intro hended
    obtain rfl := next_none (hnext.symm.trans hended)
    exact ⟨hcount ▸ hcap, hpath⟩

theorem run_withinBudget {settings : Settings} {persisted : GraphState}
    {input : TurnInput} {services : List Services} {turn : Turn}
    (hrun : run settings persisted input services = some turn) :
    WithinBudget settings turn := by
  apply run_induction (motive := WithinBudget settings) ?_ ?_ hrun
  · constructor
    · rfl
    · exact Nat.zero_le _
    · exact Nat.zero_le _
    · nofun
    · nofun
    · intro node hnode
      cases hnode
      exact Nat.le_refl _
    · intro node hnode
      cases hnode
      exact Nat.le_refl _
    · nofun
  · intro before services after hwithin hstep
    exact step_withinBudget hwithin hstep

/-! ## The end of a turn -/

/-- A node execution raises. -/
def Raises (settings : Settings) (turn : Turn) (services : Services) : Prop :=
  ∃ node failure, turn.node = some node ∧
    runNode settings services node turn.state = .error failure

theorem step_eq_none {settings : Settings} {turn : Turn} {services : Services}
    (hstep : step settings turn services = none) :
    turn.Completed ∨ Raises settings turn services := by
  unfold step at hstep
  cases hnode : turn.node with
  | none => exact Or.inl hnode
  | some node =>
      cases hresult : runNode settings services node turn.state with
      | error failure => exact Or.inr ⟨node, failure, hnode, hresult⟩
      | ok result => simp [hnode, hresult] at hstep

section Length

variable {settings : Settings} {persisted : GraphState} {input : TurnInput}

/-- The log has one entry for each node execution. -/
theorem run_length {services : List Services} {turn : Turn}
    (hrun : run settings persisted input services = some turn) :
    turn.log.length = services.length := by
  apply Transition.exec_induction
    (motive := fun past turn => turn.log.length = past.length) rfl ?_ hrun
  intro past before services after _ hlength hstep
  obtain ⟨_, _, _, _, _, _, _, hlog⟩ := step_cases hstep
  rw [hlog, List.length_append, List.length_append, hlength]
  rfl

/-- No node is executed past either bound, however the services behave. -/
theorem run_length_le {services : List Services} {turn : Turn}
    (hrun : run settings persisted input services = some turn) :
    services.length ≤ min (max (settings.maxGraphIterations + 4) 5)
      (11 + 3 * settings.maxRetrievalRetries + 3 * settings.maxGenerationRetries) := by
  have hwithin := run_withinBudget hrun
  have hretrieval := hwithin.retrieval
  have hgeneration := hwithin.generation
  have hbounds : turn.log.length ≤ capThrough settings .evalQueue ∧
      turn.log.length ≤ pathThrough (turn.state.retrievalRetries.getD 0)
        (turn.state.generationRetries.getD 0) .evalQueue := by
    cases hnode : turn.node with
    | none => exact hwithin.ended hnode
    | some node =>
        have hcap := hwithin.cap node hnode
        have hpath := hwithin.path node hnode
        cases node <;> simp only [capThrough, pathThrough] at * <;> omega
  simp only [capThrough, pathThrough] at hbounds
  rw [← run_length hrun]
  omega

/-- What holds at first and not for ever stops holding somewhere. -/
theorem exists_last {motive : ℕ → Prop} {bound : ℕ} (hfirst : motive 0)
    (hbound : ∀ count, motive count → count ≤ bound) :
    ∃ count, motive count ∧ ¬ motive (count + 1) := by
  by_contra hnever
  push Not at hnever
  have hall : ∀ count, motive count := by
    intro count
    induction count with
    | zero => exact hfirst
    | succ count ih => exact hnever count ih
  have hpast := hbound (bound + 1) (hall (bound + 1))
  omega

/-- Under any behaviour of the services a turn ends, within both bounds. -/
theorem run_ends (settings : Settings) (persisted : GraphState) (input : TurnInput)
    (services : ℕ → Services) :
    ∃ count turn,
      run settings persisted input ((List.range count).map services) = some turn ∧
      (turn.Completed ∨ Raises settings turn (services count)) ∧
      count ≤ min (max (settings.maxGraphIterations + 4) 5)
        (11 + 3 * settings.maxRetrievalRetries + 3 * settings.maxGenerationRetries) := by
  have hlength : ∀ count turn,
      run settings persisted input ((List.range count).map services) = some turn →
      count ≤ min (max (settings.maxGraphIterations + 4) 5)
        (11 + 3 * settings.maxRetrievalRetries + 3 * settings.maxGenerationRetries) := by
    intro count turn hrun
    simpa using run_length_le hrun
  obtain ⟨count, ⟨turn, hrun⟩, hlast⟩ := exists_last
    (motive := fun count => ∃ turn,
      run settings persisted input ((List.range count).map services) = some turn)
    ⟨start persisted input, rfl⟩ (fun count ⟨turn, hrun⟩ => hlength count turn hrun)
  have hstuck : step settings turn (services count) = none := by
    rw [Option.eq_none_iff_forall_not_mem]
    intro following hfollowing
    apply hlast
    refine ⟨following, ?_⟩
    rw [List.range_succ, List.map_append]
    exact Transition.exec_snoc_eq_some_iff.mpr ⟨turn, hrun, hfollowing⟩
  exact ⟨count, turn, hrun, step_eq_none hstuck, hlength count turn hrun⟩

/-- The bound on the iterations is below the recursion limit. -/
theorem bound_lt_recursionLimit {settings : Settings} {count : ℕ}
    (hcount : count ≤ min (max (settings.maxGraphIterations + 4) 5)
      (11 + 3 * settings.maxRetrievalRetries + 3 * settings.maxGenerationRetries)) :
    count < recursionLimit settings := by
  simp only [recursionLimit]
  omega

end Length

end AgenticRag.Graph
