import AgenticRag.Chat.SharedAnswers
import AgenticRag.Chat.Thread
import AgenticRag.Graph.Conversation

/-!
# The first retrieval of a turn

The retriever prefers the rewritten query of the state to the question.  The
caller does not seed that key, so the first retrieval of a turn still finds what
an earlier turn of the thread rewrote.
-/

namespace AgenticRag.Chat

open AgenticRag.Graph AgenticRag.FollowUp

/-- The text the first retriever execution of a turn searches for. -/
def firstRetrievalQuery (turn : Turn) : Option String :=
  (turn.log.find? fun execution => execution.node = .retriever).map fun execution =>
    Nodes.retrievalQuery execution.before

/-- What the last rewrite of a log returned, or what was there before. -/
def noteRewrite (text : String) (execution : Execution) : String :=
  if execution.node = .rewrite then execution.update.rewrittenQuery.getD "" else text

/-- What the last rewrite in the turns of a thread returned. -/
def lastRewrite (turns : List TurnRecord) : String :=
  turns.foldl (fun text record => record.final.log.foldl noteRewrite text) ""

/-- One request on the thread, run to `END` or to a node that raises. -/
def attempt (settings : Settings) (thread : Thread)
    (request : TurnInput × List Services) : Option Thread :=
  (run settings thread.state request.1 request.2).map fun final =>
    { state := final.state
      turns := thread.turns ++ [⟨request.1, final⟩] }

/-- The thread after any history of turns. -/
def attempts (settings : Settings) (requests : List (TurnInput × List Services)) :
    Option Thread :=
  Transition.exec (attempt settings) {} requests

/-- The question as it is searched for without a rewrite. -/
def searchedAsAsked (thread : Thread) (input : TurnInput) : String :=
  contextualize (asked thread.state input) input.query

/-! ## The rewritten query -/

/-- Only `rewrite` writes the key. -/
theorem runNode_rewrittenQuery {settings : Settings} {services : Services} {node : Node}
    {state update : GraphState} {effects : List Effect}
    (hrun : runNode settings services node state = .ok (update, effects))
    (hother : node ≠ .rewrite) : update.rewrittenQuery = none := by
  cases node with
  | rewrite => exact absurd rfl hother
  | inputGuard =>
      obtain ⟨hupdate, _⟩ := ok_of_quiet hrun
      subst hupdate
      by_cases hblank : PyString.isBlank state.queryText = true <;>
        simp [Nodes.inputGuard, hblank]
  | semanticCache =>
      obtain ⟨hok, _⟩ := ok_of_map_quiet hrun
      rcases semanticCache_ok hok with ⟨hit, _, _, rfl⟩ | rfl
      · rfl
      · rfl
  | planner =>
      obtain ⟨hok, _⟩ := ok_of_map_quiet hrun
      obtain ⟨_, rfl⟩ := planner_ok hok
      rfl
  | retriever =>
      obtain ⟨hok, _⟩ := ok_of_map_quiet hrun
      obtain ⟨_, _, rfl⟩ := retriever_ok hok
      rfl
  | retrievalGrader =>
      obtain ⟨hok, _⟩ := ok_of_map_quiet hrun
      obtain ⟨_, rfl⟩ := retrievalGrader_ok hok
      rfl
  | generator =>
      obtain ⟨_, _, _, _, rfl⟩ := generator_ok hrun
      rfl
  | hallucinationGrader =>
      obtain ⟨hok, _⟩ := ok_of_map_quiet hrun
      obtain ⟨_, rfl⟩ := hallucinationGrader_ok hok
      rfl
  | router | metadataLookup | retryGeneration | finalizeAnswer | cacheWriter
    | insufficientAnswer | evalQueue =>
      cases hrun
      rfl

section Turn

variable {settings : Settings} {persisted : GraphState} {input : TurnInput}
variable {services : List Services} {turn : Turn}

/-- The key after part of a turn. -/
theorem run_rewrittenQuery (hrun : run settings persisted input services = some turn) :
    turn.state.rewrittenQuery.getD "" =
      turn.log.foldl noteRewrite (persisted.rewrittenQuery.getD "") := by
  apply run_induction (motive := fun turn => turn.state.rewrittenQuery.getD "" =
    turn.log.foldl noteRewrite (persisted.rewrittenQuery.getD "")) ?_ ?_ hrun
  · rfl
  · intro before services after hkey hstep
    obtain ⟨node, update, effects, _, hnode, _, hstate, hlog⟩ := step_cases hstep
    rw [hlog, List.foldl_append, ← hkey, hstate]
    simp only [List.foldl_cons, List.foldl_nil, noteRewrite, GraphState.merge]
    split_ifs with hrewrite
    · subst hrewrite
      obtain ⟨hok, _⟩ := ok_of_map_quiet hnode
      obtain ⟨rewritten, rfl⟩ := rewrite_ok hok
      rfl
    · rw [runNode_rewrittenQuery hnode hrewrite, Option.none_or]

/-- Up to its first retrieval a turn is not graded and rewrites nothing; what the
first retrieval reads is what the turn began with. -/
structure Searching (persisted : GraphState) (input : TurnInput) (turn : Turn) :
    Prop where
  before : .retriever ∉ turn.visited → turn.node ≠ some .retrievalGrader ∧
    turn.node ≠ some .rewrite ∧ turn.state.rewrittenQuery = persisted.rewrittenQuery
  first : ∀ execution,
    (turn.log.find? fun execution => execution.node = .retriever) = some execution →
    execution.before.rewrittenQuery = persisted.rewrittenQuery ∧
      execution.before.messages = asked persisted input ∧
      execution.before.query = some input.query

theorem step_searching {before after : Turn} {services : Services}
    (hsearching : Searching persisted input before)
    (hasking : Asking (asked persisted input) before)
    (hquery : before.state.query = some input.query)
    (hstep : step settings before services = some after) :
    Searching persisted input after := by
  obtain ⟨node, update, effects, hnode, hrun, hnext, hstate, hlog⟩ := step_cases hstep
  have hvisited : after.visited = before.visited ++ [node] := by
    simp [Turn.visited, hlog]
  constructor
  · intro hnever
    rw [hvisited, List.mem_append, not_or, List.mem_singleton] at hnever
    obtain ⟨hgrader, hrewrite, hkey⟩ := hsearching.before hnever.1
    refine ⟨?_, ?_, ?_⟩
    · intro htarget
      cases next_edge (hnext.symm.trans htarget) with
      | retrieved => exact hnever.2 rfl
    · intro htarget
      cases next_edge (hnext.symm.trans htarget) with
      | rewriting _ _ => exact hgrader hnode
    · have hother : node ≠ .rewrite := by
        rintro rfl
        exact hrewrite hnode
      rw [hstate, GraphState.merge, runNode_rewrittenQuery hrun hother, Option.none_or, hkey]
  · intro execution hfirst
    rw [hlog, List.find?_append] at hfirst
    cases hpast : before.log.find? fun execution => execution.node = .retriever with
    | some earlier =>
        rw [hpast, Option.some_or] at hfirst
        cases hfirst
        exact hsearching.first _ hpast
    | none =>
        rw [hpast, Option.none_or] at hfirst
        have hnever : .retriever ∉ before.visited := by
          intro hmem
          obtain ⟨earlier, hearlier, hretriever⟩ := List.mem_map.mp hmem
          have hnone := List.find?_eq_none.mp hpast earlier hearlier
          simp [hretriever] at hnone
        simp only [List.find?_singleton] at hfirst
        split_ifs at hfirst with hretriever
        cases hfirst
        have hearly : node = .retriever := by simpa using hretriever
        refine ⟨(hsearching.before hnever).2.2, ?_, hquery⟩
        exact hasking.early node hnode (by rw [hearly]; rfl)

theorem run_searching (hrun : run settings persisted input services = some turn) :
    Searching persisted input turn := by
  apply Transition.exec_induction
    (motive := fun _ turn => Searching persisted input turn) ?_ ?_ hrun
  · constructor
    · intro _
      exact ⟨nofun, nofun, rfl⟩
    · intro execution hfirst
      cases hfirst
  · intro past before services after hpast hsearching hstep
    exact step_searching hsearching (run_asking hpast) (run_request hpast).1 hstep

/-- The first retrieval searches for the persisted rewrite, if there is one. -/
theorem firstRetrievalQuery_eq (hrun : run settings persisted input services = some turn)
    {query : String} (hfirst : firstRetrievalQuery turn = some query) :
    query = if persisted.rewrittenQuery.getD "" = "" then
        contextualize (asked persisted input) input.query
      else persisted.rewrittenQuery.getD "" := by
  obtain ⟨execution, hexecution, rfl⟩ := Option.map_eq_some_iff.mp hfirst
  obtain ⟨hkey, hmessages, hquery⟩ := (run_searching hrun).first execution hexecution
  rw [Nodes.retrievalQuery, GraphState.queryText, hkey, hmessages, hquery]
  rfl

end Turn

/-! ## The history of a thread -/

section History

variable {settings : Settings} {requests : List (TurnInput × List Services)}
variable {thread : Thread}

theorem attempts_rewrittenQuery (hhistory : attempts settings requests = some thread) :
    thread.state.rewrittenQuery.getD "" = lastRewrite thread.turns := by
  apply Transition.exec_invariant (motive := fun thread : Thread =>
    thread.state.rewrittenQuery.getD "" = lastRewrite thread.turns) ?_ hhistory rfl
  intro before request after hkey hstep
  obtain ⟨final, hrun, rfl⟩ := Option.map_eq_some_iff.mp hstep
  rw [lastRewrite, List.foldl_append, ← lastRewrite, ← hkey]
  exact run_rewrittenQuery hrun

/-- The first retrieval of a turn is for the question as asked exactly when no
earlier turn of the thread left a rewrite, or only one that says the same. -/
theorem firstRetrieval_asAsked_iff (hhistory : attempts settings requests = some thread)
    {input : TurnInput} {services : List Services} {turn : Turn} {query : String}
    (hrun : run settings thread.state input services = some turn)
    (hfirst : firstRetrievalQuery turn = some query) :
    query = searchedAsAsked thread input ↔
      lastRewrite thread.turns = "" ∨
        lastRewrite thread.turns = searchedAsAsked thread input := by
  have hquery := firstRetrievalQuery_eq hrun hfirst
  rw [attempts_rewrittenQuery hhistory] at hquery
  rw [hquery, searchedAsAsked]
  split_ifs with hnone
  · exact iff_of_true rfl (Or.inl hnone)
  · simp [hnone]

end History

/-! ## A rewrite that outlives its turn -/

/-- Services whose chunks are never graded relevant. -/
def irrelevantServices : Services :=
  { Service.answeringServices 7 with
    gradeRelevance := fun _ _ => .ok false
    rewriteQuery := fun _ => .ok "Hessentag Termin" }

/-- A turn that rewrites twice and is answered, and the next question. -/
def rewrittenHistory : List (TurnInput × List Services) :=
  [(⟨"Wann ist der Hessentag dieses Jahr geplant?", [7], "request"⟩,
    List.replicate 16 irrelevantServices)]

def nextQuestion : TurnInput :=
  ⟨"Wann ist das Rathaus wieder geöffnet?", [7], "request"⟩

private theorem rewrittenHistory_run :
    ∃ thread turn, attempts {} rewrittenHistory = some thread ∧
      run {} thread.state nextQuestion (List.replicate 4 irrelevantServices) = some turn ∧
      firstRetrievalQuery turn = some "Hessentag Termin" ∧
      searchedAsAsked thread nextQuestion = "Wann ist das Rathaus wieder geöffnet?" := by
  have hresult : ((attempts {} rewrittenHistory).bind fun thread =>
      (run {} thread.state nextQuestion (List.replicate 4 irrelevantServices)).map
        fun turn => (firstRetrievalQuery turn, searchedAsAsked thread nextQuestion)) =
      some (some "Hessentag Termin", "Wann ist das Rathaus wieder geöffnet?") := by
    decide +kernel
  obtain ⟨thread, hhistory, hturn⟩ := Option.bind_eq_some_iff.mp hresult
  obtain ⟨turn, hrun, heq⟩ := Option.map_eq_some_iff.mp hturn
  obtain ⟨hfirst, hasked⟩ := Prod.mk.inj heq
  exact ⟨thread, turn, hhistory, hrun, hfirst, hasked⟩

theorem firstRetrieval_asAsked_iff_rewritten :
    ∃ thread, attempts {} rewrittenHistory = some thread ∧
      ("Hessentag Termin" = searchedAsAsked thread nextQuestion ↔
        lastRewrite thread.turns = "" ∨
          lastRewrite thread.turns = searchedAsAsked thread nextQuestion) := by
  obtain ⟨thread, turn, hhistory, hrun, hfirst, _⟩ := rewrittenHistory_run
  exact ⟨thread, hhistory, firstRetrieval_asAsked_iff hhistory hrun hfirst⟩

/-- The second question is self-contained and is searched for with the rewrite
of the first one. -/
theorem firstRetrieval_not_asAsked :
    ¬ ∀ (settings : Settings) (requests : List (TurnInput × List Services))
        (thread : Thread) (input : TurnInput) (services : List Services) (turn : Turn)
        (query : String), attempts settings requests = some thread →
      run settings thread.state input services = some turn →
      firstRetrievalQuery turn = some query → query = searchedAsAsked thread input := by
  intro hclaim
  obtain ⟨thread, turn, hhistory, hrun, hfirst, hasked⟩ := rewrittenHistory_run
  have hsame := hclaim {} rewrittenHistory thread nextQuestion _ turn _ hhistory hrun hfirst
  rw [hasked] at hsame
  exact absurd hsame (by decide)

end AgenticRag.Chat
