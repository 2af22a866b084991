import AgenticRag.Graph.Acceptance

/-!
# Values that outlive a turn

The checkpointer persists every key, and a node that does not write a key leaves
the value of an earlier turn in place.  A key without a reducer holds what the
last execution of the turn wrote under it, or what the thread held before.
-/

namespace AgenticRag.Graph

/-- A key without a reducer: an update replaces its value or leaves it alone. -/
structure Key (β : Type) where
  get : GraphState → Option β
  get_merge : ∀ state update : GraphState,
    get (state.merge update) = (get update).or (get state)

namespace Key

def route : Key String :=
  ⟨fun state => state.route, fun _ _ => rfl⟩

def chunks : Key (List Chunk) :=
  ⟨fun state => state.chunks, fun _ _ => rfl⟩

def pageHits : Key (List PageHit) :=
  ⟨fun state => state.pageHits, fun _ _ => rfl⟩

variable {β : Type} (key : Key β)

/-- The value that a log wrote last. -/
def lastWritten (log : List Execution) : Option β :=
  log.foldl (fun earlier execution => (key.get execution.update).or earlier) none

theorem lastWritten_snoc (log : List Execution) (execution : Execution) :
    key.lastWritten (log ++ [execution]) =
      (key.get execution.update).or (key.lastWritten log) := by
  simp [lastWritten]

variable {key}

/-- A value that was written last was written by an execution. -/
theorem exists_of_lastWritten {log : List Execution} {value : β}
    (hlast : key.lastWritten log = some value) :
    ∃ execution ∈ log, key.get execution.update = some value := by
  induction log using List.reverseRecOn with
  | nil => cases hlast
  | append_singleton log execution ih =>
      rw [lastWritten_snoc] at hlast
      rcases Option.or_eq_some_iff.mp hlast with hnew | ⟨_, hold⟩
      · exact ⟨execution, by simp, hnew⟩
      · obtain ⟨earlier, hmem, hvalue⟩ := ih hold
        exact ⟨earlier, List.mem_append_left _ hmem, hvalue⟩

theorem lastWritten_eq_none_iff {log : List Execution} :
    key.lastWritten log = none ↔
      ∀ execution ∈ log, key.get execution.update = none := by
  induction log using List.reverseRecOn with
  | nil => simp [lastWritten]
  | append_singleton log execution ih =>
      rw [lastWritten_snoc, Option.or_eq_none_iff, ih]
      simp only [List.mem_append, List.mem_singleton]
      constructor
      · rintro ⟨hnew, hold⟩ other (hmem | rfl)
        · exact hold other hmem
        · exact hnew
      · intro hall
        exact ⟨hall execution (Or.inr rfl), fun other hmem => hall other (Or.inl hmem)⟩

end Key

section Run

variable {settings : Settings} {persisted : GraphState} {input : TurnInput}
variable {services : List Services} {turn : Turn} {β : Type} (key : Key β)

/-- A key that the caller does not seed has the value of the last execution that
wrote it, or the persisted one. -/
theorem run_carried (hseed : key.get (initialUpdate input) = none)
    (hrun : run settings persisted input services = some turn) :
    key.get turn.state = (key.lastWritten turn.log).or (key.get persisted) := by
  apply run_induction (motive := fun turn =>
    key.get turn.state = (key.lastWritten turn.log).or (key.get persisted)) ?_ ?_ hrun
  · rw [start, key.get_merge, hseed]
    rfl
  · intro before services after ih hstep
    obtain ⟨node, update, effects, _, _, _, hstate, hlog⟩ := step_cases hstep
    rw [hstate, hlog, key.get_merge, Key.lastWritten_snoc, ih, Option.or_assoc]

/-- The same for the state that an execution of the turn started from. -/
theorem run_carried_before (hseed : key.get (initialUpdate input) = none)
    (hrun : run settings persisted input services = some turn) :
    ∀ past execution rest, turn.log = past ++ execution :: rest →
      key.get execution.before = (key.lastWritten past).or (key.get persisted) := by
  refine run_each (motive := fun past execution =>
    key.get execution.before = (key.lastWritten past).or (key.get persisted)) ?_ hrun
  intro done before services node update effects hdone _ _
  exact run_carried key hseed hdone

/-- The last execution leaves a key that it does not write. -/
theorem run_carried_last (hseed : key.get (initialUpdate input) = none)
    (hrun : run settings persisted input services = some turn)
    {past : List Execution} {execution : Execution}
    (hsplit : turn.log = past ++ [execution])
    (hnone : key.get execution.update = none) :
    key.get turn.state = key.get execution.before := by
  rw [run_carried key hseed hrun, run_carried_before key hseed hrun past execution [] hsplit, hsplit,
    Key.lastWritten_snoc, hnone, Option.none_or]

end Run

/-- Which nodes write the keys that describe the evidence. -/
theorem runNode_evidence {settings : Settings} {services : Services} {node : Node}
    {state update : GraphState} {effects : List Effect}
    (h : runNode settings services node state = .ok (update, effects)) :
    (update.route = none ↔ node ≠ .router) ∧
      (update.chunks = none ↔ node ≠ .retriever ∧ node ≠ .metadataLookup) ∧
      (update.pageHits = none ↔ node ≠ .retriever) := by
  cases node with
  | inputGuard =>
      obtain ⟨rfl, _⟩ := ok_of_quiet h
      by_cases hblank : PyString.isBlank state.queryText = true <;>
        simp [Nodes.inputGuard, hblank]
  | semanticCache =>
      obtain ⟨h, _⟩ := ok_of_map_quiet h
      rcases semanticCache_ok h with ⟨hit, _, _, rfl⟩ | rfl <;> simp [hitUpdate]
  | router | metadataLookup | retryGeneration | finalizeAnswer | insufficientAnswer =>
      obtain ⟨rfl, _⟩ := ok_of_quiet h
      simp [Nodes.router, Nodes.metadataLookup, Nodes.retryGeneration,
        Nodes.finalizeAnswer, Nodes.insufficient]
  | planner =>
      obtain ⟨h, _⟩ := ok_of_map_quiet h
      obtain ⟨_, rfl⟩ := planner_ok h
      simp
  | retriever =>
      obtain ⟨h, _⟩ := ok_of_map_quiet h
      obtain ⟨_, _, rfl⟩ := retriever_ok h
      simp
  | retrievalGrader =>
      obtain ⟨h, _⟩ := ok_of_map_quiet h
      obtain ⟨_, rfl⟩ := retrievalGrader_ok h
      simp
  | rewrite =>
      obtain ⟨h, _⟩ := ok_of_map_quiet h
      obtain ⟨_, rfl⟩ := rewrite_ok h
      simp
  | generator =>
      obtain ⟨_, _, _, _, rfl⟩ := generator_ok h
      simp
  | hallucinationGrader =>
      obtain ⟨h, _⟩ := ok_of_map_quiet h
      obtain ⟨_, rfl⟩ := hallucinationGrader_ok h
      simp
  | cacheWriter | evalQueue =>
      cases h
      simp

end AgenticRag.Graph
