import AgenticRag.Graph.NodeSpecs

/-!
# The turns of a chat thread

`/chat` runs one turn per request on the persisted state of its thread.  The
caller seeds the request keys and the counters only, so every other key keeps
its value from the previous turn.  This module follows the `insufficient` flag
through a turn and through the history of a thread.
-/

namespace AgenticRag.Chat

open AgenticRag.Graph AgenticRag.PyString
open AgenticRag.GraphState (flag)

/-- A completed turn: its input and the state and log it ended with. -/
structure TurnRecord where
  input : TurnInput
  final : Turn

/-- The persisted state of a thread and its completed turns, oldest first. -/
structure Thread where
  state : GraphState := {}
  turns : List TurnRecord := []

/-- One request on the thread, run to `END`. -/
def chatTurn (settings : Settings) (thread : Thread)
    (request : TurnInput × List Services) : Option Thread :=
  (run settings thread.state request.1 request.2).bind fun final =>
    if final.node = none then
      some
        { state := final.state
          turns := thread.turns ++ [⟨request.1, final⟩] }
    else none

/-- The thread after a history of completed turns. -/
def history (settings : Settings) (requests : List (TurnInput × List Services)) :
    Option Thread :=
  Transition.exec (chatTurn settings) {} requests

/-- The turn left `input_guard` to `semantic_cache`. -/
def Processed (final : Turn) : Prop :=
  ∃ rest, final.visited = .inputGuard :: .semanticCache :: rest

/-- What the response reports as `insufficient` was decided in this turn. -/
def InsufficientOwn (final : Turn) : Prop :=
  flag final.state.insufficient = true → .insufficientAnswer ∈ final.visited

/-- A turn that sets the flag: a blank question or the insufficient node. -/
def SetsInsufficient (record : TurnRecord) : Prop :=
  isBlank record.input.query = true ∨ .insufficientAnswer ∈ record.final.visited

theorem flag_or (update value : Option Bool) :
    flag (update.or value) = update.getD (flag value) := by
  cases update <;> rfl

section Turn

variable {settings : Settings} {persisted : GraphState} {input : TurnInput}
variable {services : List Services} {turn : Turn}

/-- The flag after part of a turn. -/
def FlagOf (persisted : GraphState) (input : TurnInput) (turn : Turn) : Prop :=
  flag turn.state.insufficient = true ↔
    flag persisted.insufficient = true ∨ .insufficientAnswer ∈ turn.visited ∨
      (isBlank input.query = true ∧ .inputGuard ∈ turn.visited)

theorem step_flag {before after : Turn} {services : Services}
    (hquery : before.state.query = some input.query) (hflag : FlagOf persisted input before)
    (hstep : step settings before services = some after) : FlagOf persisted input after := by
  obtain ⟨node, update, effects, _, hnode, _, hstate, hlog⟩ := step_cases hstep
  have hframe := runNode_frame hnode
  have htext : before.state.queryText = input.query := by
    simp [GraphState.queryText, hquery]
  have hvisited : after.visited = before.visited ++ [node] := by
    simp [Turn.visited, hlog]
  rw [FlagOf, hstate, hvisited]
  simp only [GraphState.merge, flag_or, hframe.insufficient, htext]
  simp only [FlagOf] at hflag
  by_cases hsets : node = .insufficientAnswer ∨
      (node = .inputGuard ∧ isBlank input.query = true)
  · rw [if_pos hsets]
    rcases hsets with rfl | ⟨rfl, hblank⟩ <;> simp_all
  · rw [if_neg hsets, Option.getD_none, hflag]
    simp only [not_or, not_and] at hsets
    have hne : Node.insufficientAnswer ≠ node := fun h => hsets.1 h.symm
    constructor
    · rintro (h | h | ⟨hblank, h⟩) <;> simp_all
    · rintro (h | h | ⟨hblank, h⟩)
      · exact Or.inl h
      · simp only [List.mem_append, List.mem_singleton, hne, or_false] at h
        exact Or.inr (Or.inl h)
      · simp only [List.mem_append, List.mem_singleton] at h
        rcases h with h | h
        · exact Or.inr (Or.inr ⟨hblank, h⟩)
        · exact absurd hblank (hsets.2 h.symm)

theorem run_flag (hrun : run settings persisted input services = some turn) :
    FlagOf persisted input turn := by
  apply Transition.exec_induction (motive := fun _ turn => FlagOf persisted input turn)
    ?_ ?_ hrun
  · simp [FlagOf, start, GraphState.merge, initialUpdate, Turn.visited]
  · intro past before services after hpast hflag hstep
    exact step_flag (run_request hpast).1 hflag hstep

/-- The second node of a turn, decided by `_after_input`. -/
def secondNode (persisted : GraphState) (input : TurnInput) : Node :=
  if flag persisted.insufficient = true ∨ isBlank input.query = true then .evalQueue
  else .semanticCache

/-- How a turn begins. -/
def Begins (persisted : GraphState) (input : TurnInput) (turn : Turn) : Prop :=
  turn = start persisted input ∨
    (turn.visited = [.inputGuard] ∧
      turn.node = some (secondNode persisted input)) ∨
    ∃ rest, turn.visited = .inputGuard :: secondNode persisted input :: rest

theorem run_begins (hrun : run settings persisted input services = some turn) :
    Begins persisted input turn := by
  refine run_induction (motive := Begins persisted input) (Or.inl rfl) ?_ hrun
  rintro before services after hbegins hstep
  obtain ⟨node, update, effects, hnext, hnode, hafter, _, hlog⟩ := step_cases hstep
  have hvisited : after.visited = before.visited ++ [node] := by
    simp [Turn.visited, hlog]
  rcases hbegins with rfl | ⟨hfirst, hsecond⟩ | ⟨rest, hrest⟩
  · -- the first node is the guard, and its edge reads the merged flag
    have hguard : node = .inputGuard := by
      simpa [start] using hnext.symm
    subst hguard
    refine Or.inr (Or.inl ⟨hvisited, ?_⟩)
    have htext : (start persisted input).state.queryText = input.query := rfl
    have hkeep : flag (start persisted input).state.insufficient =
        flag persisted.insufficient := rfl
    rw [hafter, next, afterInput]
    simp only [GraphState.merge, flag_or, (runNode_frame hnode).insufficient, htext,
      hkeep, secondNode]
    by_cases hblank : isBlank input.query = true <;> simp [hblank]
  · refine Or.inr (Or.inr ⟨[], ?_⟩)
    have hnodeEq : node = secondNode persisted input := by
      rw [hsecond] at hnext
      exact (Option.some.inj hnext).symm
    rw [hvisited, hfirst, hnodeEq]
    rfl
  · exact Or.inr (Or.inr ⟨rest ++ [node], by rw [hvisited, hrest]; rfl⟩)

/-- A completed turn has visited the guard and the node behind it. -/
theorem completed_begins
    (hrun : run settings persisted input services = some turn)
    (hcompleted : turn.Completed) :
    ∃ rest, turn.visited = .inputGuard :: secondNode persisted input :: rest := by
  rcases run_begins hrun with rfl | ⟨_, hnode⟩ | hrest
  · cases hcompleted
  · rw [Turn.Completed, hnode] at hcompleted
    cases hcompleted
  · exact hrest

/-- One turn: with a non-blank question it behaves exactly when the persisted
flag is not set. -/
theorem turn_own_iff_not_flag
    (hrun : run settings persisted input services = some turn)
    (hcompleted : turn.Completed) (hquery : isBlank input.query = false) :
    (Processed turn ∧ InsufficientOwn turn) ↔
      flag persisted.insufficient = false := by
  obtain ⟨rest, hvisited⟩ := completed_begins hrun hcompleted
  constructor
  · rintro ⟨⟨tail, hprocessed⟩, _⟩
    by_contra hset
    have hset' : flag persisted.insufficient = true := by simpa using hset
    rw [hvisited, secondNode, if_pos (Or.inl hset')] at hprocessed
    simp at hprocessed
  · intro hclear
    have hsecond : secondNode persisted input = .semanticCache := by
      simp [secondNode, hclear, hquery]
    rw [hsecond] at hvisited
    refine ⟨⟨rest, hvisited⟩, fun hflag => ?_⟩
    have hcause := (run_flag hrun).mp hflag
    simpa [hclear, hquery] using hcause

end Turn

section History

variable {settings : Settings} {requests : List (TurnInput × List Services)}
variable {thread : Thread}

theorem chatTurn_cases {before after : Thread}
    {request : TurnInput × List Services}
    (hstep : chatTurn settings before request = some after) :
    ∃ final, run settings before.state request.1 request.2 = some final ∧
      final.Completed ∧ after.state = final.state ∧
      after.turns = before.turns ++ [⟨request.1, final⟩] := by
  obtain ⟨final, hrun, hfinal⟩ := Option.bind_eq_some_iff.mp hstep
  split_ifs at hfinal with hcompleted
  cases hfinal
  exact ⟨final, hrun, hcompleted, rfl, rfl⟩

/-- The persisted flag is set exactly when some turn of the history set it: no
node and no caller ever clears it. -/
theorem history_flag (hhistory : history settings requests = some thread) :
    flag thread.state.insufficient = true ↔
      ∃ record ∈ thread.turns, SetsInsufficient record := by
  refine Transition.exec_invariant
    (motive := fun thread : Thread => flag thread.state.insufficient = true ↔
      ∃ record ∈ thread.turns, SetsInsufficient record)
    ?_ hhistory (by simp [flag])
  intro before request after hflag hstep
  obtain ⟨final, hrun, hcompleted, hstate, hturns⟩ := chatTurn_cases hstep
  obtain ⟨rest, hvisited⟩ := completed_begins hrun hcompleted
  have hguard : Node.inputGuard ∈ final.visited := by simp [hvisited]
  have hturn := run_flag hrun
  rw [FlagOf, hflag] at hturn
  rw [hstate, hturn, hturns]
  simp only [List.mem_append, List.mem_singleton, or_and_right, exists_or,
    exists_eq_left, SetsInsufficient, hguard, and_true]
  exact or_congr_right or_comm

/-- A turn with a non-blank question is processed, and reports `insufficient`
only for itself, exactly when no earlier turn of its thread was blank or ended
in the insufficient node. -/
theorem turn_own_iff_history_clear
    (hhistory : history settings requests = some thread)
    {input : TurnInput} {services : List Services} {final : Turn}
    (hrun : run settings thread.state input services = some final)
    (hcompleted : final.Completed) (hquery : isBlank input.query = false) :
    (Processed final ∧ InsufficientOwn final) ↔
      ∀ record ∈ thread.turns, ¬ SetsInsufficient record := by
  rw [turn_own_iff_not_flag hrun hcompleted hquery]
  have hflag := history_flag hhistory
  constructor
  · intro hclear record hrecord hsets
    rw [hflag.mpr ⟨record, hrecord, hsets⟩] at hclear
    cases hclear
  · intro hnone
    by_contra hset
    obtain ⟨record, hrecord, hsets⟩ := hflag.mp (by simpa using hset)
    exact hnone record hrecord hsets

end History

/-! ## A user without collections -/

/-- Services that find nothing and whose model writes nothing. -/
def emptyServices : Services where
  cacheLookup _ _ := .ok none
  routeIntent _ := .ok none
  lookupDocuments _ _ := .ok []
  plan query := .ok [query]
  search _ _ := .ok []
  searchPages _ _ := .ok []
  gradeRelevance _ _ := .ok false
  rewriteQuery query := .ok query
  objectStore _ := none
  generate _ := .ok ⟨"", []⟩
  gradeGrounded _ _ := .ok false
  cacheStore _ := .ok ()
  rpush _ := .ok ()

def askWithoutCollections (query : String) : TurnInput :=
  ⟨query, [], "request"⟩

theorem turn_own_iff_history_clear_second :
    ∃ thread final, (Processed final ∧ InsufficientOwn final) ↔
      ∀ record ∈ (thread : Thread).turns, ¬ SetsInsufficient record := by
  let requests :=
    [(askWithoutCollections "Wer leitet das Bauamt?",
      List.replicate 13 emptyServices)]
  let input := askWithoutCollections "Wann ist das Rathaus offen?"
  obtain ⟨thread, hthread⟩ : ∃ thread, history {} requests = some thread :=
    Option.isSome_iff_exists.mp (by decide)
  have hsecond : ((history {} requests).bind fun thread =>
      (run {} thread.state input (List.replicate 2 emptyServices)).map
        (·.node)) = some none := by
    decide
  rw [hthread, Option.bind_some] at hsecond
  obtain ⟨final, hrun, hnode⟩ := Option.map_eq_some_iff.mp hsecond
  exact ⟨thread, final,
    turn_own_iff_history_clear hthread hrun hnode (by decide)⟩

/-- The first turn exhausts its retrieval retries and ends in the insufficient
node; the guard sends the next question straight to the evaluation queue. -/
theorem second_turn_not_processed :
    ¬ ∀ (settings : Settings) (requests : List (TurnInput × List Services))
        (thread : Thread) (input : TurnInput) (services : List Services)
        (final : Turn),
      history settings requests = some thread →
      run settings thread.state input services = some final →
      final.Completed → isBlank input.query = false →
      Processed final ∧ InsufficientOwn final := by
  intro hclaim
  let requests :=
    [(askWithoutCollections "Wer leitet das Bauamt?",
      List.replicate 13 emptyServices)]
  let input := askWithoutCollections "Wann ist das Rathaus offen?"
  obtain ⟨thread, hthread⟩ : ∃ thread, history {} requests = some thread :=
    Option.isSome_iff_exists.mp (by decide)
  have hsecond : ((history {} requests).bind fun thread =>
      (run {} thread.state input (List.replicate 2 emptyServices)).map
        fun final => (final.node, final.visited)) =
      some (none, [.inputGuard, .evalQueue]) := by
    decide
  rw [hthread, Option.bind_some] at hsecond
  obtain ⟨final, hrun, hfinal⟩ := Option.map_eq_some_iff.mp hsecond
  obtain ⟨hnode, hvisited⟩ := Prod.mk.inj hfinal
  obtain ⟨⟨rest, hprocessed⟩, _⟩ :=
    hclaim {} requests thread input _ final hthread hrun hnode (by decide)
  rw [hvisited] at hprocessed
  simp at hprocessed

end AgenticRag.Chat
