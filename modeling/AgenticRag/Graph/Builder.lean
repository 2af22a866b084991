import AgenticRag.Core.Transition
import AgenticRag.Graph.Nodes

/-!
# The agent graph

Nodes, edges and routing of `build_graph`, and the run of one turn.  A turn is a
run of `step`: its actions are the behaviours of the services during the node
executions, so that every schedule of services is one possible turn.  The
checkpointer saves the state after each node, so a turn that stops early, by an
exception, leaves the state of its last completed node.
-/

namespace AgenticRag

inductive Node where
  | inputGuard
  | semanticCache
  | router
  | metadataLookup
  | planner
  | retriever
  | retrievalGrader
  | rewrite
  | generator
  | hallucinationGrader
  | retryGeneration
  | finalizeAnswer
  | cacheWriter
  | insufficientAnswer
  | evalQueue
  deriving DecidableEq

namespace Graph

open GraphState (flag)

/-! ## Routing -/

/-- `_over_budget` -/
def overBudget (settings : Settings) (state : GraphState) : Bool :=
  settings.maxGraphIterations ≤ state.iterations.getD 0

def afterInput (state : GraphState) : Node :=
  if flag state.insufficient then .evalQueue else .semanticCache

def afterCache (state : GraphState) : Node :=
  if flag state.cacheHit then .evalQueue else .router

def afterRouter (settings : Settings) (state : GraphState) : Node :=
  if overBudget settings state then .insufficientAnswer
  else
    match state.intent.getD "text" with
    | "multi_doc" => .planner
    | "metadata" => .metadataLookup
    | _ => .retriever

def afterMetadata (settings : Settings) (state : GraphState) : Node :=
  if overBudget settings state then .insufficientAnswer
  else if state.chunkList = [] then .retriever else .generator

def afterGrade (settings : Settings) (state : GraphState) : Node :=
  if overBudget settings state then .insufficientAnswer
  else if flag state.relevanceOk then .generator
  else if state.retrievalRetries.getD 0 < settings.maxRetrievalRetries then .rewrite
  else if state.chunkList = [] then .insufficientAnswer else .generator

def afterHalluc (settings : Settings) (state : GraphState) : Node :=
  if overBudget settings state then .insufficientAnswer
  else if flag state.grounded then .finalizeAnswer
  else if state.generationRetries.getD 0 < settings.maxGenerationRetries then
    .retryGeneration
  else .insufficientAnswer

/-- The edges of the compiled graph; `none` is `END`. -/
def next (settings : Settings) (node : Node) (state : GraphState) : Option Node :=
  match node with
  | .inputGuard => some (afterInput state)
  | .semanticCache => some (afterCache state)
  | .router => some (afterRouter settings state)
  | .metadataLookup => some (afterMetadata settings state)
  | .planner => some .retriever
  | .retriever => some .retrievalGrader
  | .retrievalGrader => some (afterGrade settings state)
  | .rewrite => some .retriever
  | .generator => some .hallucinationGrader
  | .hallucinationGrader => some (afterHalluc settings state)
  | .retryGeneration => some .generator
  | .finalizeAnswer => some .cacheWriter
  | .cacheWriter => some .evalQueue
  | .insufficientAnswer => some .evalQueue
  | .evalQueue => none

/-! ## Execution -/

/-- A node without calls to the outside. -/
def quiet (update : GraphState) : GraphState × List Effect :=
  (update, [])

def runNode (settings : Settings) (services : Services) (node : Node)
    (state : GraphState) : NodeResult :=
  match node with
  | .inputGuard => .ok (quiet (Nodes.inputGuard state))
  | .semanticCache => (Nodes.semanticCache services state).map quiet
  | .router => .ok (quiet (Nodes.router services state))
  | .metadataLookup => .ok (quiet (Nodes.metadataLookup services state))
  | .planner => (Nodes.planner services state).map quiet
  | .retriever => (Nodes.retriever services state).map quiet
  | .retrievalGrader => (Nodes.retrievalGrader services state).map quiet
  | .rewrite => (Nodes.rewrite services state).map quiet
  | .generator => Nodes.generator settings services state
  | .hallucinationGrader =>
      (Nodes.hallucinationGrader settings services state).map quiet
  | .retryGeneration => .ok (quiet (Nodes.retryGeneration state))
  | .finalizeAnswer => .ok (quiet (Nodes.finalizeAnswer state))
  | .cacheWriter => .ok (Nodes.cacheWriter services state)
  | .insufficientAnswer => .ok (quiet (Nodes.insufficient state))
  | .evalQueue => .ok (Nodes.evalQueue settings services state)

/-- One completed node execution. -/
structure Execution where
  node : Node
  services : Services
  before : GraphState
  update : GraphState
  effects : List Effect

/-- A turn in progress: the node to execute next, `none` after `END`, the
state, and the executions so far. -/
structure Turn where
  node : Option Node
  state : GraphState
  log : List Execution

/-- Execute the next node; not enabled after `END` and when the node raises. -/
def step (settings : Settings) (turn : Turn) (services : Services) : Option Turn :=
  match turn.node with
  | none => none
  | some node =>
      match runNode settings services node turn.state with
      | .error _ => none
      | .ok (update, effects) =>
          let state := turn.state.merge update
          some
            { node := next settings node state
              state := state
              log := turn.log ++ [⟨node, services, turn.state, update, effects⟩] }

/-- The input `/chat` passes to the graph. -/
structure TurnInput where
  query : String
  allowedCollectionIds : List Uuid
  requestId : String

/-- `initial`: the keys the caller seeds. -/
def initialUpdate (input : TurnInput) : GraphState where
  messages := [⟨.user, input.query⟩]
  query := some input.query
  allowedCollectionIds := some input.allowedCollectionIds
  requestId := some input.requestId
  iterations := some 0
  retrievalRetries := some 0
  generationRetries := some 0

/-- `START`: the input is merged into the persisted state of the thread. -/
def start (persisted : GraphState) (input : TurnInput) : Turn where
  node := some .inputGuard
  state := persisted.merge (initialUpdate input)
  log := []

/-- The run of a turn under the given services. -/
def run (settings : Settings) (persisted : GraphState) (input : TurnInput)
    (services : List Services) : Option Turn :=
  Transition.exec (step settings) (start persisted input) services

def Turn.visited (turn : Turn) : List Node :=
  turn.log.map (·.node)

/-- The turn ran to `END`. -/
def Turn.Completed (turn : Turn) : Prop :=
  turn.node = none

/-! ## What one step does -/

/-- Everything a step can do. -/
theorem step_cases {settings : Settings} {turn following : Turn}
    {services : Services} (hstep : step settings turn services = some following) :
    ∃ node update effects, turn.node = some node ∧
      runNode settings services node turn.state = .ok (update, effects) ∧
      following.node = next settings node (turn.state.merge update) ∧
      following.state = turn.state.merge update ∧
      following.log =
        turn.log ++ [⟨node, services, turn.state, update, effects⟩] := by
  unfold step at hstep
  cases hnode : turn.node with
  | none => simp [hnode] at hstep
  | some node =>
      cases hresult : runNode settings services node turn.state with
      | error failure => simp [hnode, hresult] at hstep
      | ok result =>
          obtain ⟨update, effects⟩ := result
          simp only [hnode, hresult, Option.some.injEq] at hstep
          subst hstep
          exact ⟨node, update, effects, rfl, hresult, rfl, rfl, rfl⟩

/-- The iterations are below the cap. -/
def BelowCap (settings : Settings) (state : GraphState) : Prop :=
  state.iterations.getD 0 < settings.maxGraphIterations

/-- The edges of the graph with what their routing functions have checked. -/
inductive Edge (settings : Settings) (state : GraphState) : Node → Node → Prop where
  | stopped : Edge settings state .inputGuard .evalQueue
  | passed : Edge settings state .inputGuard .semanticCache
  | hit : Edge settings state .semanticCache .evalQueue
  | missed : Edge settings state .semanticCache .router
  | exhausted {node : Node}
      (hgate : node = .router ∨ node = .metadataLookup ∨ node = .retrievalGrader ∨
        node = .hallucinationGrader) :
      Edge settings state node .insufficientAnswer
  | planning (hbelow : BelowCap settings state) : Edge settings state .router .planner
  | asking (hbelow : BelowCap settings state) :
      Edge settings state .router .metadataLookup
  | searching (hbelow : BelowCap settings state) : Edge settings state .router .retriever
  | unlisted (hbelow : BelowCap settings state) :
      Edge settings state .metadataLookup .retriever
  | listed (hbelow : BelowCap settings state) :
      Edge settings state .metadataLookup .generator
  | planned : Edge settings state .planner .retriever
  | retrieved : Edge settings state .retriever .retrievalGrader
  | graded (hbelow : BelowCap settings state) :
      Edge settings state .retrievalGrader .generator
  | rewriting (hbelow : BelowCap settings state)
      (hretry : state.retrievalRetries.getD 0 < settings.maxRetrievalRetries) :
      Edge settings state .retrievalGrader .rewrite
  | rewritten : Edge settings state .rewrite .retriever
  | generated : Edge settings state .generator .hallucinationGrader
  | grounded (hbelow : BelowCap settings state)
      (hgrounded : flag state.grounded = true) :
      Edge settings state .hallucinationGrader .finalizeAnswer
  | retrying (hbelow : BelowCap settings state)
      (hretry : state.generationRetries.getD 0 < settings.maxGenerationRetries) :
      Edge settings state .hallucinationGrader .retryGeneration
  | retried : Edge settings state .retryGeneration .generator
  | finalized : Edge settings state .finalizeAnswer .cacheWriter
  | written : Edge settings state .cacheWriter .evalQueue
  | abstained : Edge settings state .insufficientAnswer .evalQueue

theorem not_overBudget {settings : Settings} {state : GraphState}
    (hover : ¬ overBudget settings state = true) : BelowCap settings state := by
  simpa [overBudget, BelowCap] using hover

/-- The routing functions follow the edges. -/
theorem next_edge {settings : Settings} {node target : Node} {state : GraphState}
    (hnext : next settings node state = some target) : Edge settings state node target := by
  cases node with
  | evalQueue => cases hnext
  | inputGuard =>
      simp only [next, afterInput, Option.some.injEq] at hnext
      split_ifs at hnext
      · exact hnext ▸ .stopped
      · exact hnext ▸ .passed
  | semanticCache =>
      simp only [next, afterCache, Option.some.injEq] at hnext
      split_ifs at hnext
      · exact hnext ▸ .hit
      · exact hnext ▸ .missed
  | router =>
      simp only [next, afterRouter, Option.some.injEq] at hnext
      split_ifs at hnext with hover
      · exact hnext ▸ .exhausted (Or.inl rfl)
      · split at hnext
        · exact hnext ▸ .planning (not_overBudget hover)
        · exact hnext ▸ .asking (not_overBudget hover)
        · exact hnext ▸ .searching (not_overBudget hover)
  | metadataLookup =>
      simp only [next, afterMetadata, Option.some.injEq] at hnext
      split_ifs at hnext with hover
      · exact hnext ▸ .exhausted (Or.inr (Or.inl rfl))
      · exact hnext ▸ .unlisted (not_overBudget hover)
      · exact hnext ▸ .listed (not_overBudget hover)
  | retrievalGrader =>
      simp only [next, afterGrade, Option.some.injEq] at hnext
      split_ifs at hnext with hover _ hretry
      · exact hnext ▸ .exhausted (Or.inr (Or.inr (Or.inl rfl)))
      · exact hnext ▸ .graded (not_overBudget hover)
      · exact hnext ▸ .rewriting (not_overBudget hover) hretry
      · exact hnext ▸ .exhausted (Or.inr (Or.inr (Or.inl rfl)))
      · exact hnext ▸ .graded (not_overBudget hover)
  | hallucinationGrader =>
      simp only [next, afterHalluc, Option.some.injEq] at hnext
      split_ifs at hnext with hover hgrounded hretry
      · exact hnext ▸ .exhausted (Or.inr (Or.inr (Or.inr rfl)))
      · exact hnext ▸ .grounded (not_overBudget hover) hgrounded
      · exact hnext ▸ .retrying (not_overBudget hover) hretry
      · exact hnext ▸ .exhausted (Or.inr (Or.inr (Or.inr rfl)))
  | planner =>
      cases hnext
      exact .planned
  | retriever =>
      cases hnext
      exact .retrieved
  | rewrite =>
      cases hnext
      exact .rewritten
  | generator =>
      cases hnext
      exact .generated
  | retryGeneration =>
      cases hnext
      exact .retried
  | finalizeAnswer =>
      cases hnext
      exact .finalized
  | cacheWriter =>
      cases hnext
      exact .written
  | insufficientAnswer =>
      cases hnext
      exact .abstained

/-- A property of turns holds along a run when it holds at the start and every
node execution preserves it. -/
theorem run_induction {settings : Settings} {persisted : GraphState}
    {input : TurnInput} {motive : Turn → Prop}
    (hstart : motive (start persisted input))
    (hstep : ∀ turn services following, motive turn →
      step settings turn services = some following → motive following)
    {services : List Services} {turn : Turn}
    (hrun : run settings persisted input services = some turn) : motive turn :=
  Transition.exec_invariant hstep hrun hstart

/-- What the turn before a step says of the execution that the step logs is said of
every execution of the log by what was logged before it. -/
theorem run_each {settings : Settings} {persisted : GraphState} {input : TurnInput}
    {motive : List Execution → Execution → Prop}
    (hstep : ∀ done before services node update effects,
      run settings persisted input done = some before → before.node = some node →
      runNode settings services node before.state = .ok (update, effects) →
      motive before.log ⟨node, services, before.state, update, effects⟩)
    {services : List Services} {turn : Turn}
    (hrun : run settings persisted input services = some turn) :
    ∀ past execution rest, turn.log = past ++ execution :: rest → motive past execution := by
  apply Transition.exec_induction (motive := fun _ (turn : Turn) =>
    ∀ past execution rest, turn.log = past ++ execution :: rest → motive past execution)
    ?_ ?_ hrun
  · intro past execution rest hsplit
    simp [start] at hsplit
  · intro done before services after hdone ih hnext past execution rest hsplit
    obtain ⟨node, update, effects, hnode, hresult, _, _, hlog⟩ := step_cases hnext
    rw [hlog] at hsplit
    rcases Transition.split_snoc hsplit with ⟨rfl, rfl, _⟩ | ⟨front, hfront, _⟩
    · exact hstep done before services node update effects hdone hnode hresult
    · exact ih past execution front hfront

end Graph

end AgenticRag
