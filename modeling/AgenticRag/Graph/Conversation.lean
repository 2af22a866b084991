import AgenticRag.Graph.Evidence

/-!
# The messages of a turn

Until it answers, a turn sees the messages its thread had and the question.  A
node that adds a message leads to the cache writer or to the evaluation queue.
-/

namespace AgenticRag.Graph

open GraphState (flag)

/-- The nodes that run after an answer is fixed. -/
def closing : Node → Bool
  | .cacheWriter | .evalQueue => true
  | _ => false

/-- The messages a turn starts with. -/
def asked (persisted : GraphState) (input : TurnInput) : List Message :=
  persisted.messages ++ [⟨.user, input.query⟩]

section Step

variable {settings : Settings} {services : Services} {node target : Node}
variable {state update : GraphState} {effects : List Effect}

theorem inputGuard_messages
    (hrun : runNode settings services .inputGuard state = .ok (update, effects))
    (hnext : next settings .inputGuard (state.merge update) = some target)
    (hearly : closing target = false) : update.messages = [] := by
  obtain ⟨rfl, _⟩ := ok_of_quiet hrun
  by_cases hblank : PyString.isBlank state.queryText = true
  · simp only [next, afterInput, Option.some.injEq] at hnext
    rw [if_pos (by simp [Nodes.inputGuard, hblank, GraphState.merge, flag])] at hnext
    subst hnext
    cases hearly
  · simp [Nodes.inputGuard, hblank]

theorem semanticCache_messages
    (hrun : runNode settings services .semanticCache state = .ok (update, effects))
    (hnext : next settings .semanticCache (state.merge update) = some target)
    (hearly : closing target = false) : update.messages = [] := by
  obtain ⟨hok, _⟩ := ok_of_map_quiet hrun
  rcases semanticCache_ok hok with ⟨hit, _, _, rfl⟩ | rfl
  · have hflag : flag (state.merge (hitUpdate state hit)).cacheHit = true := rfl
    simp only [next, afterCache, Option.some.injEq] at hnext
    rw [if_pos hflag] at hnext
    subst hnext
    cases hearly
  · rfl

/-- A node on the way to the answer adds no message. -/
theorem early_messages
    (hrun : runNode settings services node state = .ok (update, effects))
    (hnext : next settings node (state.merge update) = some target)
    (hearly : closing target = false) : update.messages = [] := by
  cases node with
  | inputGuard => exact inputGuard_messages hrun hnext hearly
  | semanticCache => exact semanticCache_messages hrun hnext hearly
  | insufficientAnswer | finalizeAnswer =>
      cases hnext
      cases hearly
  | router | metadataLookup | planner | retriever | retrievalGrader | rewrite | generator
    | hallucinationGrader | retryGeneration | cacheWriter | evalQueue =>
      exact (runNode_frame hrun).messages nofun nofun nofun nofun

/-- A closing node leads to closing nodes only. -/
theorem next_closing (hnext : next settings node state = some target)
    (hearly : closing target = false) : closing node = false := by
  cases node with
  | cacheWriter =>
      cases hnext
      cases hearly
  | evalQueue => cases hnext
  | _ => rfl

end Step

/-- The messages along a turn. -/
structure Asking (messages : List Message) (turn : Turn) : Prop where
  early : ∀ node, turn.node = some node → closing node = false →
    turn.state.messages = messages
  generation : ∀ generation, lastGeneration turn.log = some generation →
    generation.before.messages = messages
  kept : messages <+: turn.state.messages

theorem asking_step {settings : Settings} {messages : List Message}
    {before after : Turn} {services : Services} (hasking : Asking messages before)
    (hstep : step settings before services = some after) : Asking messages after := by
  obtain ⟨node, update, effects, hnode, hrun, hnext, hstate, hlog⟩ := step_cases hstep
  constructor
  · intro target htarget hearly
    rw [hnext] at htarget
    rw [hstate, GraphState.merge, early_messages hrun htarget hearly, List.append_nil]
    exact hasking.early node hnode (next_closing htarget hearly)
  · intro generation hlast
    rw [hlog, lastGeneration_snoc, noteGeneration] at hlast
    split_ifs at hlast with hgenerator
    · cases hlast
      exact hasking.early node hnode (by rw [show node = .generator from hgenerator]; rfl)
    · exact hasking.generation generation hlast
  · rw [hstate]
    exact hasking.kept.trans (List.prefix_append _ _)

theorem run_asking {settings : Settings} {persisted : GraphState} {input : TurnInput}
    {services : List Services} {turn : Turn}
    (hrun : run settings persisted input services = some turn) :
    Asking (asked persisted input) turn := by
  apply run_induction (motive := Asking (asked persisted input)) ?_ ?_ hrun
  · constructor
    · intro node _ _
      rfl
    · intro generation hlast
      cases hlast
    · exact List.prefix_refl _
  · intro before services after hasking hstep
    exact asking_step hasking hstep

end AgenticRag.Graph
