import AgenticRag.Chat.Endpoints
import AgenticRag.Graph.Markers

/-!
# The tokens of a streaming turn

The tokens of a generation reach the client before the answer is graded, and a
turn may generate more than once.  This module compares what the client received
with the answer the turn ends with.
-/

namespace AgenticRag.Chat

open AgenticRag.Graph AgenticRag.PyString AgenticRag.Citations
open AgenticRag.GraphState (flag)

/-! ## The model client -/

/-- What the backend sends for one streaming completion: the content of its
chunks, `""` for a chunk without one, and whether it raises in the end. -/
structure Delivery where
  deltas : List String
  failed : Bool

/-- `OpenAILLM.generate` with a token callback: every delta is handed on at once,
and a failure on the way makes the answer empty. -/
def OpenAILLM.generate (delivery : Delivery) : Generation :=
  let parts := delivery.deltas.filter fun delta => delta ≠ ""
  { text := if delivery.failed then "" else strip (String.join parts)
    tokens := parts }

/-- The services of a node execution with this client in front of the backend. -/
def withClient (services : Services) (backend : GenerateCall → Delivery) : Services :=
  { services with generate := fun call => .ok (OpenAILLM.generate (backend call)) }

/-! ## What the client received -/

def tokenText : ServerEvent → Option String
  | .token text => some text
  | _ => none

/-- The concatenation of the token events. -/
def receivedText (events : List ServerEvent) : String :=
  String.join (events.filterMap tokenText)

/-- Nothing for a cache hit and for an insufficient turn; otherwise the answer,
up to markers and the whitespace around it. -/
def TokensMatch (events : List ServerEvent) (response : TurnResponse) : Prop :=
  if response.cacheHit = true ∨ response.insufficient = true then receivedText events = ""
  else strip (normalizeMarkers (receivedText events)) = strip response.answer

/-- The generations of a log. -/
def generationsOf (log : List Execution) : List Generation :=
  log.flatMap fun execution => execution.effects.filterMap fun effect =>
    match effect with
    | .generated _ result => some result
    | _ => none

def tokensOf (generations : List Generation) : List String :=
  generations.flatMap (·.tokens)

/-- The last generation ended well, and all earlier ones streamed whitespace or
were swallowed by a marker.  Without a generation the thread had no answer. -/
def StreamedOnce (persisted : GraphState) (generations : List Generation) : Prop :=
  match generations.getLast? with
  | none => strip persisted.answerText = ""
  | some last =>
      last.text = strip (String.join last.tokens) ∧
        ((∀ token ∈ tokensOf generations.dropLast, isBlank token = true) ∨
          Swallowed (String.join (tokensOf generations.dropLast)).toList
            (String.join last.tokens).toList)

/-- The generations that streamed in a turn: those of the log, and one of a generator that
raised behind it. -/
def streamedOf (settings : Settings) (services : Services) (turn : Turn) : List Generation :=
  generationsOf turn.log ++ (unreturned settings services turn.node turn.state).toList

/-- The turn in front of a generator execution, one that raises included, and what the
backend sends to it. -/
def Delivered (settings : Settings) (persisted : GraphState) (input : TurnInput)
    (services : ℕ → Services) (backend : ℕ → GenerateCall → Delivery) (delivery : Delivery) :
    Prop :=
  ∃ index turn, run settings persisted input ((List.range index).map services) = some turn ∧
    turn.node = some .generator ∧
    delivery = backend index (Nodes.generateCall settings (services index) turn.state)

/-- The condition on a turn.  In a hit or an insufficient turn no generation is sent a text,
however it is graded.  In any other turn the answer is streamed once; behind a generator that
raises it is the one from before. -/
def StreamsAnswer (settings : Settings) (persisted : GraphState) (input : TurnInput)
    (services : ℕ → Services) (backend : ℕ → GenerateCall → Delivery) (count : ℕ)
    (turn : Turn) : Prop :=
  if flag turn.state.cacheHit = true ∨ flag turn.state.insufficient = true then
    ∀ delivery, Delivered settings persisted input services backend delivery →
      ∀ delta ∈ delivery.deltas, delta = ""
  else
    match unreturned settings (services count) turn.node turn.state with
    | none => StreamedOnce persisted (generationsOf turn.log)
    | some last =>
        strip (normalizeMarkers (String.join (tokensOf (generationsOf turn.log ++ [last])))) =
          strip turn.state.answerText

theorem generationsOf_snoc (log : List Execution) (execution : Execution) :
    generationsOf (log ++ [execution]) =
      generationsOf log ++ execution.effects.filterMap fun effect =>
        match effect with
        | .generated _ result => some result
        | _ => none := by
  simp [generationsOf]

/-! ## The answer of a turn -/

/-- A node other than the generator answers only by ending the turn. -/
theorem runNode_answer {settings : Settings} {services : Services} {node : Node}
    {state update : GraphState} {effects : List Effect}
    (h : runNode settings services node state = .ok (update, effects))
    (hother : node ≠ .generator) (hanswer : update.answer ≠ none) :
    update.insufficient = some true ∨
      (node = .semanticCache ∧ update.cacheHit = some true) := by
  have hframe := runNode_frame h
  by_cases hcache : node = .semanticCache
  · subst hcache
    obtain ⟨h, _⟩ := ok_of_map_quiet h
    rcases semanticCache_ok h with ⟨hit, _, _, rfl⟩ | rfl
    · exact Or.inr ⟨rfl, rfl⟩
    · exact absurd rfl hanswer
  · left
    rw [hframe.insufficient]
    apply if_pos
    by_contra hneither
    rw [not_or, not_and] at hneither
    apply hanswer
    by_cases hguard : node = .inputGuard
    · subst hguard
      obtain ⟨hupdate, _⟩ := ok_of_quiet h
      rw [hupdate]
      simp [Nodes.inputGuard, hneither.2 rfl]
    · exact hframe.answer hguard hcache hother hneither.1

theorem runNode_generations {settings : Settings} {services : Services} {node : Node}
    {state update : GraphState} {effects : List Effect}
    (h : runNode settings services node state = .ok (update, effects)) :
    (node ≠ .generator ∧ ∀ call result, Effect.generated call result ∉ effects) ∨
      ∃ result, node = .generator ∧
        effects = [.generated (Nodes.generateCall settings services state) result] ∧
        services.generate (Nodes.generateCall settings services state) = .ok result ∧
        update.answer = some (normalizeMarkers result.text) := by
  by_cases hnode : node = .generator
  · subst hnode
    obtain ⟨result, hresult, _, heffects, hupdate⟩ := generator_ok h
    exact Or.inr ⟨result, rfl, heffects, hresult, by rw [hupdate]⟩
  · left
    refine ⟨hnode, ?_⟩
    intro call result hmem
    cases node with
    | generator => exact hnode rfl
    | cacheWriter =>
        cases h
        split_ifs at hmem <;> simp at hmem
    | evalQueue =>
        cases h
        split_ifs at hmem <;> simp at hmem
    | inputGuard | router | metadataLookup | retryGeneration | finalizeAnswer
      | insufficientAnswer =>
        obtain ⟨_, rfl⟩ := ok_of_quiet h
        simp at hmem
    | semanticCache | planner | retriever | retrievalGrader | rewrite
      | hallucinationGrader =>
        obtain ⟨_, rfl⟩ := ok_of_map_quiet h
        simp at hmem

/-- A node other than the generator wrote the answer. -/
def AnsweredElsewhere (log : List Execution) : Prop :=
  ∃ execution ∈ log, execution.node ≠ .generator ∧ execution.update.answer ≠ none

/-- Where the answer of the state comes from. -/
structure AnswerFrom (persisted : GraphState) (turn : Turn) : Prop where
  generated : ¬ AnsweredElsewhere turn.log → turn.state.answer =
    ((generationsOf turn.log).getLast?.map fun last => normalizeMarkers last.text).or
      persisted.answer
  elsewhere : AnsweredElsewhere turn.log → flag turn.state.insufficient = true ∨
    (flag turn.state.cacheHit = true ∧ (turn.node = none ∨ turn.node = some .evalQueue))

section Turn

variable {settings : Settings} {persisted : GraphState} {input : TurnInput}

theorem answerFrom_step {before after : Turn} {services : Services}
    (hfrom : AnswerFrom persisted before)
    (hstep : step settings before services = some after) : AnswerFrom persisted after := by
  obtain ⟨node, update, effects, hnode, hrun, hnext, hstate, hlog⟩ := step_cases hstep
  constructor
  · intro hgenerated
    have hbefore : ¬ AnsweredElsewhere before.log := by
      rintro ⟨execution, hmem, hother⟩
      exact hgenerated ⟨execution, by rw [hlog]; exact List.mem_append_left _ hmem, hother⟩
    have hold := hfrom.generated hbefore
    rw [hstate, hlog, generationsOf_snoc]
    rcases runNode_generations hrun with ⟨hother, hnone⟩ | ⟨result, _, rfl, _, hanswer⟩
    · have hkept : update.answer = none := by
        by_contra hanswer
        exact hgenerated ⟨⟨node, services, before.state, update, effects⟩,
          by rw [hlog]; simp, hother, hanswer⟩
      have hsilent : effects.filterMap (fun effect =>
          match effect with
          | .generated _ result => some result
          | _ => none) = ([] : List Generation) := by
        rw [List.filterMap_eq_nil_iff]
        intro effect heffect
        cases effect with
        | generated call result => exact absurd heffect (hnone call result)
        | stored _ _ => rfl
        | enqueued _ _ => rfl
      rw [hsilent, List.append_nil, ← hold, GraphState.merge, hkept, Option.none_or]
    · simp [GraphState.merge, hanswer]
  · rintro ⟨execution, hmem, hother, hanswer⟩
    rw [hlog] at hmem
    have hframe := runNode_frame hrun
    rcases List.mem_append.mp hmem with hold | hnew
    · rcases hfrom.elsewhere ⟨execution, hold, hother, hanswer⟩ with hset | ⟨hhit, hended⟩
      · left
        rw [hstate, GraphState.merge, flag_or, hframe.insufficient, hset]
        split_ifs <;> rfl
      · -- after a hit only the evaluation queue is left
        right
        obtain rfl : node = .evalQueue := by
          rcases hended with hended | hended
          · rw [hnode] at hended
            cases hended
          · rw [hnode] at hended
            exact Option.some.inj hended
        rw [hnext]
        refine ⟨?_, Or.inl rfl⟩
        rw [hstate, GraphState.merge, flag_or, runNode_closing (Or.inr rfl) hrun, hhit]
        rfl
    · cases List.mem_singleton.mp hnew
      rcases runNode_answer hrun hother hanswer with hset | ⟨rfl, hhit⟩
      · left
        rw [hstate, GraphState.merge, flag_or, hset]
        rfl
      · right
        have hflag : flag after.state.cacheHit = true := by
          rw [hstate, GraphState.merge, flag_or, hhit]
          rfl
        refine ⟨hflag, Or.inr ?_⟩
        rw [hnext, next, ← hstate, afterCache, if_pos hflag]

theorem run_answerFrom {services : List Services} {turn : Turn}
    (hrun : run settings persisted input services = some turn) :
    AnswerFrom persisted turn := by
  apply run_induction (motive := AnswerFrom persisted) ?_ ?_ hrun
  · constructor
    · intro _
      rfl
    · rintro ⟨execution, hmem, _⟩
      cases hmem
  · intro before services after hfrom hstep
    exact answerFrom_step hfrom hstep

/-- A turn that is neither a hit nor insufficient has the answer of its last
generation. -/
theorem run_generated {services : List Services} {turn : Turn}
    (hrun : run settings persisted input services = some turn)
    (hplain : ¬ (flag turn.state.cacheHit = true ∨ flag turn.state.insufficient = true)) :
    turn.state.answer =
      ((generationsOf turn.log).getLast?.map fun last => normalizeMarkers last.text).or
        persisted.answer := by
  have hfrom := run_answerFrom hrun
  apply hfrom.generated
  intro helsewhere
  rcases hfrom.elsewhere helsewhere with hset | ⟨hhit, _⟩
  · exact hplain (Or.inr hset)
  · exact hplain (Or.inl hhit)

end Turn

/-! ## Tokens and answer -/

theorem strip_normalizeMarkers_inj {left right : String} :
    strip (normalizeMarkers left) = strip (normalizeMarkers right) ↔
      stripWhere isSpace (substituteNative 0 left.toList) =
        stripWhere isSpace (substituteNative 0 right.toList) := by
  simp only [strip, normalizeMarkers, String.toList_ofList, String.ofList_inj]

theorem strip_eq_empty_iff {text : String} :
    strip text = "" ↔ ∀ char ∈ text.toList, isSpace char = true := by
  rw [← isBlank_iff, isBlank, beq_iff_eq]

theorem forall_join {parts : List String} :
    (∀ char ∈ (String.join parts).toList, isSpace char = true) ↔
      ∀ part ∈ parts, isBlank part = true := by
  simp only [String.toList_join, List.mem_flatMap, isBlank_iff]
  constructor
  · intro hall part hpart char hchar
    exact hall char ⟨part, hpart, hchar⟩
  · rintro hall char ⟨part, hpart, hchar⟩
    exact hall part hpart char hchar

/-- The client answers with the text it streamed, or with nothing. -/
theorem generate_text (delivery : Delivery) :
    (OpenAILLM.generate delivery).text =
        strip (String.join (OpenAILLM.generate delivery).tokens) ∨
      (OpenAILLM.generate delivery).text = "" := by
  cases hfailed : delivery.failed with
  | false => exact Or.inl (by simp [OpenAILLM.generate, hfailed])
  | true => exact Or.inr (by simp [OpenAILLM.generate, hfailed])

/-- The text of several generations is the answer of the last one exactly when
that one ended well and the others do not show. -/
theorem tokens_answer_iff {earlier : List String} {last : Generation}
    (hlast : last.text = strip (String.join last.tokens) ∨ last.text = "") :
    strip (normalizeMarkers (String.join (earlier ++ last.tokens))) =
        strip (normalizeMarkers last.text) ↔
      last.text = strip (String.join last.tokens) ∧
        ((∀ token ∈ earlier, isBlank token = true) ∨
          Swallowed (String.join earlier).toList (String.join last.tokens).toList) := by
  have hjoin : (String.join (earlier ++ last.tokens)).toList =
      (String.join earlier).toList ++ (String.join last.tokens).toList := by
    rw [String.join_append, String.toList_append]
  rw [strip_normalizeMarkers_inj, hjoin]
  by_cases hwhole : last.text = strip (String.join last.tokens)
  · have htext : last.text.toList = stripWhere isSpace (String.join last.tokens).toList := by
      rw [hwhole, strip, String.toList_ofList]
    rw [htext, strip_normalize_strip, strip_normalize_append_iff, forall_join]
    exact (and_iff_right hwhole).symm
  · -- the failed generation left an empty answer behind its tokens
    have hempty := hlast.resolve_left hwhole
    apply iff_of_false _ (fun hcond => hwhole hcond.1)
    intro heq
    rw [hempty, String.toList_empty, substituteNative] at heq
    have hblank := blank_of_normalize_blank ((stripWhere_eq_nil_iff isSpace _).mp heq)
    apply hwhole
    rw [hempty, eq_comm, strip_eq_empty_iff]
    intro char hchar
    exact hblank char (List.mem_append_right _ hchar)

theorem writtenTokens_eq (log : List Execution) :
    log.flatMap (fun execution => writtenTokens execution.effects) =
      tokensOf (generationsOf log) := by
  rw [tokensOf, generationsOf, List.flatMap_assoc]
  apply List.flatMap_congr
  intro execution _
  induction execution.effects with
  | nil => rfl
  | cons effect effects ih =>
      cases effect with
      | generated call result => simpa [writtenTokens] using ih
      | stored call success => simpa [writtenTokens] using ih
      | enqueued payload success => simpa [writtenTokens] using ih

/-- The client receives the tokens of all generations that streamed in the turn. -/
theorem receivedText_chatStream {sha256 : String → String} {requestId : String}
    {settings : Settings} {persisted : GraphState} {input : TurnInput}
    {services : ℕ → Services} {stream : GraphStream} {count : ℕ} {turn : Turn}
    (hstreams : Streams settings persisted input services stream count turn) :
    receivedText (chatStream sha256 requestId stream).2 =
      String.join (tokensOf (streamedOf settings (services count) turn)) := by
  have hitems : ∀ log : List Execution,
      ((log.flatMap Execution.items).filterMap tokenEvent).filterMap tokenText =
        log.flatMap fun execution => writtenTokens execution.effects := by
    intro log
    induction log with
    | nil => rfl
    | cons execution log ih =>
        have hown : (execution.items.filterMap tokenEvent).filterMap tokenText =
            writtenTokens execution.effects := by
          rw [Execution.items, itemsOf, List.filterMap_append, List.filterMap_append]
          simp [List.filterMap_map, tokenEvent, tokenText, Function.comp_def]
        rw [List.flatMap_cons, List.filterMap_append, List.filterMap_append, ih, hown,
          List.flatMap_cons]
  have hbefore : ∀ tokens : List String,
      ((tokens.map StreamItem.custom).filterMap tokenEvent).filterMap tokenText = tokens := by
    intro tokens
    simp [List.filterMap_map, tokenEvent, tokenText, Function.comp_def]
  have hend : ∀ response, (stream.raised.toList.map ServerEvent.error ++
      [ServerEvent.done response]).filterMap tokenText = [] := by
    intro response
    cases stream.raised <;> rfl
  rw [receivedText, chatStream, List.append_assoc, List.filterMap_append, hend,
    List.append_nil, hstreams.items, streamedOf, tokensOf, List.flatMap_append, ← tokensOf,
    ← writtenTokens_eq, ← hitems, ← tokensBefore,
    ← hbefore (tokensBefore settings (services count) turn.node turn.state),
    ← List.filterMap_append, ← List.filterMap_append, hbefore]
  rfl

section Stream

variable {settings : Settings} {persisted : GraphState} {input : TurnInput}
variable {services : ℕ → Services} {backend : ℕ → GenerateCall → Delivery}
variable {count : ℕ} {turn : Turn}

/-- The generations of the log are those of the generator executions before. -/
theorem mem_generationsOf_iff (hrun : run settings persisted input ((List.range count).map
      fun index => withClient (services index) (backend index)) = some turn)
    {generation : Generation} :
    generation ∈ generationsOf turn.log ↔
      ∃ index < count, ∃ before, run settings persisted input ((List.range index).map
          fun index => withClient (services index) (backend index)) = some before ∧
        before.node = some .generator ∧
        generation = OpenAILLM.generate (backend index (Nodes.generateCall settings
          (withClient (services index) (backend index)) before.state)) := by
  induction count generalizing turn with
  | zero =>
      cases hrun
      constructor
      · intro hnone
        cases hnone
      · rintro ⟨index, hindex, _⟩
        cases hindex
  | succ count ih =>
      rw [List.range_succ, List.map_append, List.map_singleton] at hrun
      obtain ⟨middle, hmiddle, hstep⟩ := Transition.exec_snoc_eq_some_iff.mp hrun
      obtain ⟨node, update, effects, hnode, hran, _, _, hlog⟩ := step_cases hstep
      rw [hlog, generationsOf_snoc, List.mem_append, ih hmiddle]
      have hlast : generation ∈ effects.filterMap (fun effect =>
          match effect with
          | .generated _ result => some result
          | _ => none) ↔ middle.node = some .generator ∧
            generation = OpenAILLM.generate (backend count (Nodes.generateCall settings
              (withClient (services count) (backend count)) middle.state)) := by
        rw [hnode, Option.some.injEq]
        rcases runNode_generations hran with ⟨hother, hnone⟩ | ⟨result, rfl, rfl, hcall, _⟩
        · refine iff_of_false (fun hmem => ?_) fun hboth => hother hboth.1
          obtain ⟨effect, heffect, hresult⟩ := List.mem_filterMap.mp hmem
          cases effect with
          | generated call result => exact hnone call result heffect
          | stored call success => cases hresult
          | enqueued payload success => cases hresult
        · cases hcall
          simp
      rw [hlast]
      constructor
      · rintro (⟨index, hindex, hbefore⟩ | hmiddleLast)
        · exact ⟨index, Nat.lt_succ_of_lt hindex, hbefore⟩
        · exact ⟨count, Nat.lt_succ_self count, middle, hmiddle, hmiddleLast⟩
      · rintro ⟨index, hindex, before, hbefore, hlastBefore⟩
        rcases Nat.lt_succ_iff_lt_or_eq.mp hindex with hless | rfl
        · exact Or.inl ⟨index, hless, before, hbefore, hlastBefore⟩
        · rw [run, hmiddle, Option.some.injEq] at hbefore
          rw [hbefore]
          exact Or.inr hlastBefore

/-- The generations that streamed are those of the deliveries, through the client. -/
theorem mem_streamedOf_iff {stream : GraphStream}
    (hstreams : Streams settings persisted input
      (fun index => withClient (services index) (backend index)) stream count turn)
    {generation : Generation} :
    generation ∈ streamedOf settings (withClient (services count) (backend count)) turn ↔
      ∃ delivery, Delivered settings persisted input
          (fun index => withClient (services index) (backend index)) backend delivery ∧
        generation = OpenAILLM.generate delivery := by
  have hran := hstreams.ran
  rw [streamedOf, List.mem_append, mem_generationsOf_iff hran, Option.mem_toList]
  constructor
  · rintro (⟨index, _, before, hbefore, hnode, hgeneration⟩ | hlast)
    · exact ⟨_, ⟨index, before, hbefore, hnode, rfl⟩, hgeneration⟩
    · cases hnode : turn.node with
      | none =>
          rw [hnode] at hlast
          cases hlast
      | some node =>
          rw [hnode] at hlast
          cases node with
          | generator =>
              cases hlast
              exact ⟨_, ⟨count, turn, hran, hnode, rfl⟩, rfl⟩
          | _ => cases hlast
  · rintro ⟨delivery, ⟨index, before, hbefore, hnode, rfl⟩, rfl⟩
    rcases Nat.lt_trichotomy index count with hless | rfl | hlater
    · exact Or.inl ⟨index, hless, before, hbefore, hnode, rfl⟩
    · rw [hran, Option.some.injEq] at hbefore
      rw [hbefore, hnode]
      exact Or.inr rfl
    · obtain ⟨following, hfollowing⟩ := run_later hlater hran hbefore
      cases hstreams.stopped.symm.trans hfollowing

theorem generate_tokens_eq_nil_iff (delivery : Delivery) :
    (OpenAILLM.generate delivery).tokens = [] ↔ ∀ delta ∈ delivery.deltas, delta = "" := by
  simp [OpenAILLM.generate]


theorem tokens_ne_empty (delivery : Delivery) :
    ∀ token ∈ (OpenAILLM.generate delivery).tokens, token ≠ "" := by
  intro token htoken
  simpa using (List.mem_filter.mp htoken).2

/-- Nothing is received when no generation streamed a token. -/
theorem join_tokens_eq_empty_iff {generations : List Generation}
    (hclient : ∀ generation ∈ generations, ∃ delivery,
      generation = OpenAILLM.generate delivery) :
    String.join (tokensOf generations) = "" ↔
      ∀ generation ∈ generations, generation.tokens = [] := by
  rw [← String.toList_eq_nil_iff, String.toList_join, List.flatMap_eq_nil_iff, tokensOf]
  simp only [List.mem_flatMap, String.toList_eq_nil_iff]
  constructor
  · intro hempty generation hmem
    obtain ⟨delivery, rfl⟩ := hclient generation hmem
    rw [List.eq_nil_iff_forall_not_mem]
    intro token htoken
    exact tokens_ne_empty delivery token htoken (hempty token ⟨_, hmem, htoken⟩)
  · rintro hnone token ⟨generation, hmem, htoken⟩
    rw [hnone generation hmem] at htoken
    cases htoken

/-- The received text matches the answer of a turn with the given generations. -/
theorem received_answer_iff
    (hclient : ∀ generation ∈ generationsOf turn.log, ∃ delivery,
      generation = OpenAILLM.generate delivery)
    (hanswer : turn.state.answer = ((generationsOf turn.log).getLast?.map fun last =>
      normalizeMarkers last.text).or persisted.answer) :
    strip (normalizeMarkers (String.join (tokensOf (generationsOf turn.log)))) =
        strip turn.state.answerText ↔
      StreamedOnce persisted (generationsOf turn.log) := by
  rw [GraphState.answerText, hanswer]
  generalize generationsOf turn.log = generations at hclient
  rcases List.eq_nil_or_concat generations with rfl | ⟨earlier, last, rfl⟩
  · exact eq_comm
  · rw [List.concat_eq_append] at hclient ⊢
    obtain ⟨delivery, hdelivery⟩ := hclient last (by simp)
    have htokens : tokensOf (earlier ++ [last]) = tokensOf earlier ++ last.tokens := by
      simp [tokensOf]
    have hend : last.text = strip (String.join last.tokens) ∨ last.text = "" := by
      rw [hdelivery]
      exact generate_text delivery
    rw [StreamedOnce, List.getLast?_concat, List.dropLast_concat, htokens]
    exact tokens_answer_iff hend

end Stream

/-- For every behaviour of the graders and of the backend, what the client
receives matches the end of the turn exactly when a hit or an insufficient turn
was sent nothing and any other turn streamed its answer only. -/
theorem stream_tokensMatch_iff (settings : Settings) (sha256 : String → String)
    (persisted : GraphState) (input : TurnInput) (services : ℕ → Services)
    (backend : ℕ → GenerateCall → Delivery) :
    let clients := fun index => withClient (services index) (backend index)
    let stream := graphStream settings persisted input clients
    ∃ count turn, Streams settings persisted input clients stream count turn ∧
      (TokensMatch (chatStream sha256 input.requestId stream).2
          (turnResponse (lastValues stream.items)) ↔
        StreamsAnswer settings persisted input clients backend count turn) := by
  intro clients stream
  obtain ⟨count, turn, hstreams⟩ := graphStream_run settings persisted input clients
  have hmem := @mem_streamedOf_iff _ _ _ services backend _ _ _ hstreams
  have hclient : ∀ generation ∈ streamedOf settings (clients count) turn, ∃ delivery,
      generation = OpenAILLM.generate delivery := by
    intro generation hgeneration
    obtain ⟨delivery, _, hdelivery⟩ := hmem.mp hgeneration
    exact ⟨delivery, hdelivery⟩
  refine ⟨count, turn, hstreams, ?_⟩
  rw [TokensMatch, receivedText_chatStream hstreams, hstreams.lastValues, StreamsAnswer]
  by_cases hplain : flag turn.state.cacheHit = true ∨ flag turn.state.insufficient = true
  · rw [if_pos hplain, turnResponse, if_pos hplain, join_tokens_eq_empty_iff hclient]
    constructor
    · intro hnone delivery hdelivered
      exact (generate_tokens_eq_nil_iff delivery).mp
        (hnone _ (hmem.mpr ⟨delivery, hdelivered, rfl⟩))
    · intro hempty generation hgeneration
      obtain ⟨delivery, hdelivered, rfl⟩ := hmem.mp hgeneration
      exact (generate_tokens_eq_nil_iff delivery).mpr (hempty delivery hdelivered)
  · rw [if_neg hplain, turnResponse, if_neg hplain, streamedOf]
    have hlogged : ∀ generation ∈ generationsOf turn.log, ∃ delivery,
        generation = OpenAILLM.generate delivery := by
      intro generation hgeneration
      exact hclient generation (List.mem_append_left _ hgeneration)
    cases unreturned settings (clients count) turn.node turn.state with
    | none =>
        rw [Option.toList_none, List.append_nil]
        exact received_answer_iff hlogged (run_generated hstreams.ran hplain)
    | some last => rfl

instance (events : List ServerEvent) (response : TurnResponse) :
    Decidable (TokensMatch events response) :=
  inferInstanceAs (Decidable (ite _ _ _))

/-! ## A rejected answer -/

/-- The grader of the visual question accepts no answer. -/
def rejecting : Services :=
  { visualServices with gradeGrounded := fun _ _ => .ok false }

def answerInParts : Delivery :=
  ⟨["", "Der Plan zeigt ", "acht Stellplätze【1†L3】."], false⟩

/-- The turn ends as insufficient, and the client has the rejected answer twice. -/
theorem stream_not_tokensMatch :
    ¬ ∀ (settings : Settings) (sha256 : String → String) (persisted : GraphState)
        (input : TurnInput) (services : ℕ → Services)
        (backend : ℕ → GenerateCall → Delivery),
      let stream := graphStream settings persisted input fun index =>
        withClient (services index) (backend index)
      TokensMatch (chatStream sha256 input.requestId stream).2
        (turnResponse (lastValues stream.items)) := by
  intro hclaim
  have hmatch := hclaim visualSettings id {} visualQuestion (fun _ => rejecting)
    fun _ _ => answerInParts
  have hnot : ¬ TokensMatch
      (chatStream id visualQuestion.requestId (graphStream visualSettings {} visualQuestion
        fun _ => withClient rejecting fun _ => answerInParts)).2
      (turnResponse (lastValues (graphStream visualSettings {} visualQuestion
        fun _ => withClient rejecting fun _ => answerInParts).items)) := by
    decide +kernel
  exact hnot hmatch

end AgenticRag.Chat
