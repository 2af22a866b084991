import AgenticRag.Graph.Budget

/-!
# The stream of a graph run

`graph.stream` with the modes `custom` and `values` yields the state after the
input, then for every node the tokens that the node writes and the state after
it.  It ends at `END`, or with the exception of a node or of the recursion limit; the
tokens that a node wrote before its exception are out by then.
-/

namespace AgenticRag.Graph

/-- An item of `graph.stream(initial, config, stream_mode=["custom", "values"])`. -/
inductive StreamItem where
  | custom (token : String)
  | values (state : GraphState)

/-- The tokens that one execution writes to the stream. -/
def writtenTokens (effects : List Effect) : List String :=
  effects.flatMap fun effect =>
    match effect with
    | .generated _ result => result.tokens
    | _ => []

/-- The items of one node: its tokens, and the state after it. -/
def itemsOf (effects : List Effect) (state : GraphState) : List StreamItem :=
  (writtenTokens effects).map .custom ++ [.values state]

/-- The generation of a generator that raises behind it, at the citations. -/
def unreturned (settings : Settings) (services : Services) (node : Option Node)
    (state : GraphState) : Option Generation :=
  match node with
  | some .generator => (services.generate (Nodes.generateCall settings services state)).toOption
  | _ => none

/-- The tokens that a node wrote before it raised. -/
def tokensBefore (settings : Settings) (services : Services) (node : Option Node)
    (state : GraphState) : List String :=
  (unreturned settings services node state).toList.flatMap (·.tokens)

/-- What the stream yields, and the exception it ends with. -/
structure GraphStream where
  items : List StreamItem
  raised : Option Failure

/-- The stream from a node on, with the number of nodes that may still run.  The
limit is checked before the end of the graph is. -/
def streamFrom (settings : Settings) (services : ℕ → Services) :
    ℕ → ℕ → Option Node → GraphState → GraphStream
  | 0, _, _, _ => ⟨[], some "GraphRecursionError"⟩
  | _ + 1, _, none, _ => ⟨[], none⟩
  | limit + 1, count, some node, state =>
      match runNode settings (services count) node state with
      | .error failure =>
          ⟨(tokensBefore settings (services count) (some node) state).map .custom, some failure⟩
      | .ok (update, effects) =>
          let following := state.merge update
          let rest := streamFrom settings services limit (count + 1)
            (next settings node following) following
          ⟨itemsOf effects following ++ rest.items, rest.raised⟩

/-- `graph.stream` -/
def graphStream (settings : Settings) (persisted : GraphState) (input : TurnInput)
    (services : ℕ → Services) : GraphStream :=
  let first := start persisted input
  let rest := streamFrom settings services (recursionLimit settings) 0 first.node first.state
  ⟨.values first.state :: rest.items, rest.raised⟩

/-- The items of a logged execution. -/
def Execution.items (execution : Execution) : List StreamItem :=
  itemsOf execution.effects (execution.before.merge execution.update)

section Spec

variable {settings : Settings} {services : ℕ → Services}

/-- While nodes run, the stream yields the items of the log. -/
theorem streamFrom_exec {turn final : Turn} {count index : ℕ}
    (hexec : Transition.exec (step settings) turn
      ((List.range' index count).map services) = some final) (limit : ℕ) :
    ∃ executions, final.log = turn.log ++ executions ∧
      streamFrom settings services (limit + count) index turn.node turn.state =
        ⟨executions.flatMap Execution.items ++
            (streamFrom settings services limit (index + count) final.node
              final.state).items,
          (streamFrom settings services limit (index + count) final.node
            final.state).raised⟩ := by
  induction count generalizing turn index with
  | zero =>
      cases hexec
      exact ⟨[], by simp, rfl⟩
  | succ count ih =>
      rw [List.range'_succ, List.map_cons] at hexec
      obtain ⟨middle, hmiddle, hrest⟩ := Transition.exec_cons_eq_some_iff.mp hexec
      obtain ⟨node, update, effects, hnode, hran, hnext, hstate, hlog⟩ := step_cases hmiddle
      obtain ⟨executions, hfinal, hstream⟩ := ih hrest
      refine ⟨⟨node, services index, turn.state, update, effects⟩ :: executions, ?_, ?_⟩
      · rw [hfinal, hlog, List.append_assoc]
        rfl
      · rw [hnext, hstate, Nat.add_assoc, Nat.add_comm 1 count] at hstream
        rw [hnode, ← Nat.add_assoc, streamFrom, hran]
        simp only [hstream, List.flatMap_cons, Execution.items, List.append_assoc]

end Spec

/-- The run behind a stream: its items are those of the log and the tokens of a node that
raises, and it ends with the exception of a node or without one. -/
structure Streams (settings : Settings) (persisted : GraphState) (input : TurnInput)
    (services : ℕ → Services) (stream : GraphStream) (count : ℕ) (turn : Turn) : Prop where
  ran : run settings persisted input ((List.range count).map services) = some turn
  items : stream.items =
    .values (start persisted input).state :: (turn.log.flatMap Execution.items ++
      (tokensBefore settings (services count) turn.node turn.state).map .custom)
  ended : (stream.raised = none ∧ turn.Completed) ∨
    (stream.raised.isSome = true ∧ Raises settings turn (services count))

theorem graphStream_run (settings : Settings) (persisted : GraphState)
    (input : TurnInput) (services : ℕ → Services) :
    ∃ count turn, Streams settings persisted input services
      (graphStream settings persisted input services) count turn := by
  obtain ⟨count, turn, hrun, hend, hcount⟩ := run_ends settings persisted input services
  obtain ⟨limit, hlimit⟩ : ∃ limit, recursionLimit settings = limit + 1 + count :=
    ⟨recursionLimit settings - count - 1, by
      have hbelow := bound_lt_recursionLimit hcount
      omega⟩
  have hexec := hrun
  rw [run, List.range_eq_range'] at hexec
  obtain ⟨executions, hlog, hstream⟩ := streamFrom_exec hexec (limit + 1)
  have hfresh : (start persisted input).log = [] := rfl
  rw [hfresh, List.nil_append] at hlog
  refine ⟨count, turn, hrun, ?_, ?_⟩
  · rw [graphStream, hlimit, hstream, hlog]
    rcases hend with hcompleted | ⟨node, failure, hnode, hran⟩
    · rw [show turn.node = none from hcompleted, streamFrom]
      rfl
    · rw [hnode, streamFrom, Nat.zero_add, hran]
  · rw [graphStream, hlimit, hstream]
    rcases hend with hcompleted | ⟨node, failure, hnode, hran⟩
    · left
      rw [show turn.node = none from hcompleted, streamFrom]
      exact ⟨rfl, hcompleted⟩
    · right
      rw [hnode, streamFrom, Nat.zero_add, hran]
      exact ⟨rfl, node, failure, hnode, hran⟩

/-! ## The final state -/

/-- The state of the last `values` item; `{}` before the first one. -/
def lastValues (items : List StreamItem) : GraphState :=
  items.foldl (fun final item =>
    match item with
    | .values state => state
    | .custom _ => final) {}

theorem lastValues_custom (items : List StreamItem) (tokens : List String) :
    lastValues (items ++ tokens.map .custom) = lastValues items := by
  induction tokens using List.reverseRecOn with
  | nil => rw [List.map_nil, List.append_nil]
  | append_singleton earlier token ih =>
      rw [List.map_append, List.map_singleton, ← List.append_assoc, lastValues,
        List.foldl_append]
      exact ih

theorem lastValues_itemsOf (items : List StreamItem) (effects : List Effect)
    (state : GraphState) : lastValues (items ++ itemsOf effects state) = state := by
  rw [lastValues, itemsOf, ← List.append_assoc, List.foldl_append]
  rfl

section Final

variable {settings : Settings} {persisted : GraphState} {input : TurnInput}
variable {services : ℕ → Services} {stream : GraphStream} {count : ℕ} {turn : Turn}

/-- The last state of a stream is the state its run reached. -/
theorem Streams.lastValues (hstreams :
    Streams settings persisted input services stream count turn) :
    Graph.lastValues stream.items = turn.state := by
  rw [hstreams.items, ← List.cons_append, lastValues_custom]
  apply run_induction (motive := fun turn : Turn => Graph.lastValues
    (.values (start persisted input).state :: turn.log.flatMap Execution.items) =
      turn.state) ?_ ?_ hstreams.ran
  · rfl
  · intro before services after _ hstep
    obtain ⟨node, update, effects, _, _, _, hstate, hlog⟩ := step_cases hstep
    rw [hlog, List.flatMap_append, List.flatMap_singleton, ← List.cons_append,
      Execution.items, lastValues_itemsOf, hstate]

/-- Some node execution of the turn raises. -/
def RunRaises (settings : Settings) (persisted : GraphState) (input : TurnInput)
    (services : ℕ → Services) : Prop :=
  ∃ count turn, run settings persisted input ((List.range count).map services) =
    some turn ∧ Raises settings turn (services count)

/-- A turn that goes on has executed a node. -/
theorem run_later {count later : ℕ} {turn after : Turn} (hlater : count < later)
    (hrun : run settings persisted input ((List.range count).map services) = some turn)
    (hafter : run settings persisted input ((List.range later).map services) = some after) :
    ∃ following, step settings turn (services count) = some following := by
  obtain ⟨rest, rfl⟩ : ∃ rest, later = count + 1 + rest := ⟨later - count - 1, by omega⟩
  rw [run, List.range_add, List.map_append, List.range_succ, List.map_append] at hafter
  obtain ⟨following, hfollowing, _⟩ := Transition.exec_append_eq_some_iff.mp hafter
  obtain ⟨middle, hmiddle, hstep⟩ := Transition.exec_snoc_eq_some_iff.mp hfollowing
  rw [← run, hrun] at hmiddle
  cases hmiddle
  exact ⟨following, hstep⟩

theorem step_of_raises (hraises : Raises settings turn (services count)) :
    step settings turn (services count) = none := by
  obtain ⟨node, failure, hnode, hran⟩ := hraises
  simp [step, hnode, hran]

theorem step_of_completed (hcompleted : turn.Completed) :
    step settings turn (services count) = none := by
  rw [step, show turn.node = none from hcompleted]

/-- Behind the run of a stream no node executes. -/
theorem Streams.stopped (hstreams :
    Streams settings persisted input services stream count turn) :
    step settings turn (services count) = none := by
  rcases hstreams.ended with ⟨_, hcompleted⟩ | ⟨_, hraises⟩
  · exact step_of_completed hcompleted
  · exact step_of_raises hraises

/-- The stream ends with an exception exactly when a node raises. -/
theorem Streams.raised_iff (hstreams :
    Streams settings persisted input services stream count turn) :
    stream.raised.isSome = true ↔ RunRaises settings persisted input services := by
  rcases hstreams.ended with ⟨hnone, hcompleted⟩ | ⟨hsome, hraises⟩
  · rw [hnone]
    constructor
    · intro hsome
      cases hsome
    · rintro ⟨other, turn', hrun, hraises⟩
      rcases Nat.lt_trichotomy count other with hlt | rfl | hgt
      · obtain ⟨following, hstep⟩ := run_later hlt hstreams.ran hrun
        rw [step_of_completed hcompleted] at hstep
        cases hstep
      · rw [hstreams.ran] at hrun
        cases hrun
        obtain ⟨node, failure, hnode, _⟩ := hraises
        rw [show turn.node = none from hcompleted] at hnode
        cases hnode
      · obtain ⟨following, hstep⟩ := run_later hgt hrun hstreams.ran
        rw [step_of_raises hraises] at hstep
        cases hstep
  · exact iff_of_true hsome ⟨count, turn, hstreams.ran, hraises⟩

end Final

end AgenticRag.Graph
