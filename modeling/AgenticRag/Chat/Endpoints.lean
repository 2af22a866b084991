import AgenticRag.Chat.Reports
import AgenticRag.Graph.Stream

/-!
# The two chat endpoints

`POST /chat` waits for the result of the graph, `POST /chat/stream` forwards the
stream of the graph and takes its last state for the result.  Up to the call of
the graph both are the same code, so the model begins there.
-/

namespace AgenticRag.Chat

open AgenticRag.Graph

/-- The row of the assistant in `chat_messages`. -/
structure AssistantMessage where
  content : String
  citations : Option (List Citation)
  deriving DecidableEq

/-- What the client is told about the final state. -/
structure TurnResponse where
  answer : String
  citations : List Citation
  route : Option String
  cacheHit : Bool
  insufficient : Bool
  deriving DecidableEq

/-- What an endpoint commits after the run of the graph. -/
structure Committed where
  message : Option AssistantMessage := none
  audit : Option AuditDetail := none
  deriving DecidableEq

inductive ChatError where
  | timedOut
  | internal
  deriving DecidableEq

/-- The events of the stream response. -/
inductive ServerEvent where
  | token (text : String)
  | error (detail : String)
  | done (response : TurnResponse)
  deriving DecidableEq

/-- `result.get("citations") or None` -/
def citationsOrNone (result : GraphState) : Option (List Citation) :=
  match result.citations with
  | none | some [] => none
  | some citations => some citations

def assistantMessage (result : GraphState) : AssistantMessage where
  content := result.answerText
  citations := citationsOrNone result

def turnResponse (result : GraphState) : TurnResponse where
  answer := result.answerText
  citations := result.citations.getD []
  route := result.route
  cacheHit := GraphState.flag result.cacheHit
  insufficient := GraphState.flag result.insufficient

def commit (sha256 : String → String) (result : GraphState) (requestId : String)
    (streamed : Bool) : Committed where
  message := some (assistantMessage result)
  audit := some (generationAuditDetail sha256 result requestId streamed)

/-- `graph.invoke`: the last state of the stream, or its exception. -/
def invoke (stream : GraphStream) : Except Failure GraphState :=
  match stream.raised with
  | some failure => .error failure
  | none => .ok (lastValues stream.items)

/-- `chat`; `inTime` says whether the thread of the graph ends before
`max_request_duration_s`. -/
def chat (sha256 : String → String) (requestId : String) (inTime : Bool)
    (stream : GraphStream) : Committed × Except ChatError TurnResponse :=
  if inTime then
    match invoke stream with
    | .error _ => ({}, .error .internal)
    | .ok result => (commit sha256 result requestId false, .ok (turnResponse result))
  else ({}, .error .timedOut)

/-- The event for an item of the graph stream; the states are kept back. -/
def tokenEvent : StreamItem → Option ServerEvent
  | .custom token => some (.token token)
  | .values _ => none

/-- `chat_stream`: an exception of the graph becomes an event, and the code
behind the loop runs in any case. -/
def chatStream (sha256 : String → String) (requestId : String)
    (stream : GraphStream) : Committed × List ServerEvent :=
  let finalState := lastValues stream.items
  (commit sha256 finalState requestId true,
    stream.items.filterMap tokenEvent ++ stream.raised.toList.map .error ++
      [.done (turnResponse finalState)])

/-- The response of the `done` event. -/
def doneResponse (events : List ServerEvent) : Option TurnResponse :=
  events.findSome? fun event =>
    match event with
    | .done response => some response
    | _ => none

/-- An audit detail without the flag that tells the endpoints apart. -/
def withoutStreamed (detail : AuditDetail) : AuditDetail :=
  { detail with streamed := false }

/-- Both endpoints commit the same and report the same, and nothing after an
exception. -/
structure Agree (stream : GraphStream)
    (answered : Committed × Except ChatError TurnResponse)
    (streamed : Committed × List ServerEvent) : Prop where
  message : answered.1.message = streamed.1.message
  audit : answered.1.audit.map withoutStreamed = streamed.1.audit.map withoutStreamed
  response : answered.2.toOption = doneResponse streamed.2
  raised : stream.raised.isSome = true → answered.1 = {} ∧ streamed.1 = {}

section Agreement

variable {sha256 : String → String} {requestId : String} {inTime : Bool}
variable {stream : GraphStream}

theorem doneResponse_chatStream :
    doneResponse (chatStream sha256 requestId stream).2 =
      some (turnResponse (lastValues stream.items)) := by
  have htokens : (stream.items.filterMap tokenEvent).findSome? (fun event =>
      match event with
      | .done response => some response
      | _ => none) = (none : Option TurnResponse) := by
    rw [List.findSome?_eq_none_iff]
    intro event hevent
    obtain ⟨item, _, hitem⟩ := List.mem_filterMap.mp hevent
    cases item with
    | custom token =>
        cases hitem
        rfl
    | values state => cases hitem
  rw [chatStream, doneResponse, List.findSome?_append, List.findSome?_append, htokens]
  cases stream.raised <;> rfl

/-- On one graph run the endpoints agree exactly when the run does not raise and
ends in time. -/
theorem agree_iff :
    Agree stream (chat sha256 requestId inTime stream) (chatStream sha256 requestId stream) ↔
      stream.raised.isSome = false ∧ inTime = true := by
  constructor
  · intro hagree
    have hmessage := hagree.message
    simp only [chat, chatStream, commit, invoke] at hmessage
    cases inTime with
    | false => simp at hmessage
    | true =>
        cases hraised : stream.raised with
        | some failure => simp [hraised] at hmessage
        | none => exact ⟨rfl, rfl⟩
  · rintro ⟨hraised, rfl⟩
    have hnone : stream.raised = none := by simpa using hraised
    have hchat : chat sha256 requestId true stream =
        (commit sha256 (lastValues stream.items) requestId false,
          .ok (turnResponse (lastValues stream.items))) := by
      simp [chat, invoke, hnone]
    rw [hchat]
    constructor
    · rfl
    · rfl
    · rw [doneResponse_chatStream]
      rfl
    · intro hsome
      rw [hnone] at hsome
      cases hsome

end Agreement

/-- On every state of the thread and under every behaviour of the services, the
endpoints agree exactly when no node raises and the run ends in time. -/
theorem endpoints_agree_iff (settings : Settings) (sha256 : String → String)
    (persisted : GraphState) (input : TurnInput) (services : ℕ → Services)
    (inTime : Bool) :
    let stream := graphStream settings persisted input services
    Agree stream (chat sha256 input.requestId inTime stream)
        (chatStream sha256 input.requestId stream) ↔
      ¬ RunRaises settings persisted input services ∧ inTime = true := by
  intro stream
  obtain ⟨count, turn, hstreams⟩ := graphStream_run settings persisted input services
  rw [agree_iff, ← hstreams.raised_iff, Bool.not_eq_true]

/-! ## A search that fails -/

/-- The text search of the retriever raises. -/
def failingSearch : Services :=
  { emptyServices with search := fun _ _ => .error "qdrant unreachable" }

/-- `/chat` fails without a trace; `/chat/stream` commits an empty answer and
reports it as done. -/
theorem endpoints_not_agree :
    ¬ ∀ (settings : Settings) (sha256 : String → String) (persisted : GraphState)
        (input : TurnInput) (services : ℕ → Services) (inTime : Bool),
      Agree (graphStream settings persisted input services)
        (chat sha256 input.requestId inTime (graphStream settings persisted input services))
        (chatStream sha256 input.requestId
          (graphStream settings persisted input services)) := by
  intro hclaim
  have hagree := hclaim {} id {} openingHours (fun _ => failingSearch) true
  have hraised : (graphStream {} {} openingHours fun _ => failingSearch).raised =
      some "qdrant unreachable" := by
    decide +kernel
  have hboth := hagree.raised (by rw [hraised]; rfl)
  cases hboth.2

end AgenticRag.Chat
