import AgenticRag.Client.Markdown
import AgenticRag.Core.Transition
import AgenticRag.Graph.State

/-!
# The desk

The thread that the chat page shows, for any order in which its clicks and the responses
to them arrive.  A newer action has a newer number, and a response compares the number it
was asked under with the newest one.  A click runs in the latest render; what it does after
an `await` still reads the state of that render.
-/

namespace AgenticRag.ChatApp

open AgenticRag.Client (Text trim)
open Transition

variable {κ : Type}

/-! ## Data -/

structure Msg (κ : Type) where
  role : Role
  content : Text
  citations : Option (List κ) := none
  messageId : Option Uuid := none
  feedback : Option Text := none
  insufficient : Option Bool := none
  stopped : Bool := false
  deriving DecidableEq

/-- The payload of a done event. -/
structure Done (κ : Type) where
  sessionId : Uuid
  messageId : Uuid
  answer : Text
  citations : List κ
  insufficient : Bool

/-- An entry of the history. -/
structure SessionInfo where
  id : Uuid
  title : Option Text
  deriving DecidableEq

/-- A run of `ask` that has sent its question. -/
structure Ask where
  my : ℕ
  question : Text
  sessionAtSend : Option Uuid
  acc : Text := []
  /-- its done event has arrived -/
  answered : Bool := false
  /-- `chatStream` has returned -/
  ended : Bool := false
  deriving DecidableEq

def Ask.receive (token : Text) (ask : Ask) : Ask :=
  { ask with acc := ask.acc ++ token }

def Ask.answer (ask : Ask) : Ask :=
  { ask with answered := true }

def Ask.close (ask : Ask) : Ask :=
  { ask with ended := true }

/-- A run of `openSession` that awaits the session. -/
structure Opening where
  my : ℕ
  id : Uuid
  deriving DecidableEq

/-- A run of `deleteSession`, with `sid` and `busy` of the render it was clicked in. -/
structure Deletion where
  target : Uuid
  sid : Option Uuid
  busy : Bool
  deriving DecidableEq

structure Desk (κ : Type) where
  sessions : List SessionInfo := []
  sid : Option Uuid := none
  messages : List (Msg κ) := []
  loadingSession : Bool := false
  busy : Bool := false
  streaming : Text := []
  error : Text := []
  reqId : ℕ := 0
  asks : List Ask := []
  openings : List Opening := []
  deletions : List Deletion := []

inductive Event (κ : Type) where
  | openSession (id : Uuid)
  /-- the response to an `openSession` -/
  | opened (my : ℕ) (result : Except Text (List (Msg κ)))
  | newQuestion
  | deleteSession (target : Uuid)
  /-- the response to a `deleteSession` -/
  | deleted (deletion : Deletion) (result : Except Text Unit)
  | ask (text : Text)
  | onToken (my : ℕ) (token : Text)
  | onDone (my : ℕ) (payload : Done κ)
  /-- `onError`; none is an `AbortError` -/
  | onError (my : ℕ) (message : Option Text)
  /-- `chatStream` returns -/
  | ended (my : ℕ)
  | stop
  /-- a response to `loadSessions` -/
  | listed (result : Except Text (List SessionInfo))

/-- What the server may answer: the messages of a session, and the done event for a question
in a session or a new one. -/
structure Server (κ : Type) where
  stored : Uuid → List (Msg κ) → Bool
  answers : Option Uuid → Text → Done κ → Bool

namespace Desk

variable (desk : Desk κ)

def abortStream : Desk κ :=
  { desk with reqId := desk.reqId + 1, busy := false, streaming := [] }

/-- `openSession` up to its `await` -/
def openSession (id : Uuid) : Desk κ :=
  let idle := if desk.busy then desk.abortStream else desk
  { idle with
    error := []
    sid := some id
    messages := []
    loadingSession := true
    reqId := idle.reqId + 1
    openings := idle.openings ++ [⟨idle.reqId + 1, id⟩] }

/-- `openSession` from its `await` on -/
def opened (my : ℕ) (result : Except Text (List (Msg κ))) : Desk κ :=
  let waiting := { desk with openings := desk.openings.filter (·.my ≠ my) }
  if desk.reqId = my then
    match result with
    | .ok messages => { waiting with messages := messages, loadingSession := false }
    | .error message => { waiting with error := message, loadingSession := false }
  else waiting

/-- `newQuestion` of a render with this `busy` -/
def newQuestion (busy : Bool) : Desk κ :=
  let idle := if busy then desk.abortStream else desk
  { idle with
    reqId := idle.reqId + 1
    sid := none
    messages := []
    error := []
    loadingSession := false }

/-- `deleteSession` up to its `await`s -/
def deleteSession (target : Uuid) : Desk κ :=
  { desk with deletions := desk.deletions ++ [⟨target, desk.sid, desk.busy⟩] }

/-- The session disappears from the history. -/
def unlist (deletion : Deletion) : Desk κ :=
  { desk with
    sessions := desk.sessions.filter (·.id ≠ deletion.target)
    deletions := desk.deletions.erase deletion }

/-- `deleteSession` from its `await`s on -/
def deleted (deletion : Deletion) (result : Except Text Unit) : Desk κ :=
  match result with
  | .error message =>
      { desk with error := message, deletions := desk.deletions.erase deletion }
  | .ok () =>
      if deletion.sid = some deletion.target then
        (desk.unlist deletion).newQuestion deletion.busy
      else desk.unlist deletion

def newAsk (question : Text) : Ask where
  my := desk.reqId + 1
  question := question
  sessionAtSend := desk.sid

/-- `ask` up to its `await` -/
def ask (text : Text) : Desk κ :=
  let question := trim text
  if question = [] ∨ desk.busy = true then desk
  else
    { desk with
      reqId := desk.reqId + 1
      error := []
      busy := true
      streaming := []
      messages := desk.messages ++ [{ role := .user, content := question }]
      asks := desk.asks ++ [desk.newAsk question] }

/-- The run of `ask` with this number goes on. -/
def updateAsk (my : ℕ) (change : Ask → Ask) : Desk κ :=
  { desk with asks := desk.asks.map fun ask => if ask.my = my then change ask else ask }

def onToken (ask : Ask) (token : Text) : Desk κ :=
  if desk.reqId = ask.my then
    { desk.updateAsk ask.my (Ask.receive token) with streaming := ask.acc ++ token }
  else desk

/-- The message of an answer; `p.answer || acc`. -/
def answerOf (payload : Done κ) (acc : Text) : Msg κ where
  role := .assistant
  content := if payload.answer = [] then acc else payload.answer
  citations := some payload.citations
  messageId := some payload.messageId
  insufficient := some payload.insufficient

def onDone (ask : Ask) (payload : Done κ) : Desk κ :=
  let answered := desk.updateAsk ask.my Ask.answer
  if desk.reqId = ask.my then
    { answered with
      messages := desk.messages ++ [answerOf payload ask.acc]
      streaming := []
      busy := false
      sid := if ask.sessionAtSend = none then some payload.sessionId else desk.sid }
  else answered

def onError (ask : Ask) (message : Option Text) : Desk κ :=
  match message with
  | none => desk
  | some text =>
      if desk.reqId = ask.my then
        { desk with error := text, streaming := [], busy := false }
      else desk

def stop : Desk κ :=
  { desk.abortStream with
    messages := desk.messages ++
      [{ role := .assistant, content := desk.streaming, stopped := true }] }

/-- The run of `ask` that may still be called back. -/
def running? (my : ℕ) : Option Ask :=
  desk.asks.find? fun ask => ask.my = my && !ask.ended

end Desk

/-- An event, where it can happen. -/
def step (server : Server κ) (desk : Desk κ) : Event κ → Option (Desk κ)
  | .openSession id => some (desk.openSession id)
  | .opened my result =>
      match desk.openings.find? (fun opening => opening.my = my) with
      | none => none
      | some opening =>
          match result with
          | .error _ => some (desk.opened my result)
          | .ok messages =>
              if server.stored opening.id messages then some (desk.opened my result) else none
  | .newQuestion => some (desk.newQuestion desk.busy)
  | .deleteSession target => some (desk.deleteSession target)
  | .deleted deletion result =>
      if deletion ∈ desk.deletions then some (desk.deleted deletion result) else none
  | .ask text => some (desk.ask text)
  | .onToken my token => (desk.running? my).map fun ask => desk.onToken ask token
  | .onDone my payload =>
      match desk.running? my with
      | none => none
      | some ask =>
          if ask.answered = false ∧ server.answers ask.sessionAtSend ask.question payload = true
          then some (desk.onDone ask payload)
          else none
  | .onError my message => (desk.running? my).map fun ask => desk.onError ask message
  | .ended my => (desk.running? my).map fun _ => desk.updateAsk my Ask.close
  | .stop => if desk.busy then some desk.stop else none
  | .listed result =>
      match result with
      | .error message => some { desk with error := message }
      | .ok sessions => some { desk with sessions := sessions }

/-! ## Numbers -/

/-- No run has a number that is still to come, and no number is of two kinds of run.  While
a session is opened nothing is streamed. -/
structure Numbered (desk : Desk κ) : Prop where
  asks : ∀ ask ∈ desk.asks, ask.my ≤ desk.reqId
  openings : ∀ opening ∈ desk.openings, opening.my ≤ desk.reqId
  apart : ∀ ask ∈ desk.asks, ∀ opening ∈ desk.openings, ask.my ≠ opening.my
  idle : ∀ opening ∈ desk.openings, opening.my = desk.reqId → desk.busy = false

section

variable (desk : Desk κ) (id : Uuid)

@[simp]
theorem openSession_messages : (desk.openSession id).messages = [] := by
  unfold Desk.openSession
  cases desk.busy <;> rfl

@[simp]
theorem openSession_sid : (desk.openSession id).sid = some id := by
  unfold Desk.openSession
  cases desk.busy <;> rfl

@[simp]
theorem openSession_asks : (desk.openSession id).asks = desk.asks := by
  unfold Desk.openSession
  cases desk.busy <;> rfl

theorem openSession_openings : (desk.openSession id).openings =
    desk.openings ++ [⟨(desk.openSession id).reqId, id⟩] := by
  unfold Desk.openSession
  cases desk.busy <;> rfl

@[simp]
theorem openSession_busy : (desk.openSession id).busy = false := by
  unfold Desk.openSession
  cases hdesk : desk.busy with
  | true => rfl
  | false => exact hdesk

theorem openSession_reqId : desk.reqId < (desk.openSession id).reqId := by
  unfold Desk.openSession
  cases desk.busy <;> simp [Desk.abortStream]

end

/-- The runs of `ask` keep their numbers when one of them goes on. -/
theorem mem_updateAsk {desk : Desk κ} {my : ℕ} {ask : Ask} (change : Ask → Ask)
    (hmy : ∀ ask, (change ask).my = ask.my) (hask : ask ∈ (desk.updateAsk my change).asks) :
    ∃ old ∈ desk.asks, old.my = ask.my := by
  obtain ⟨old, hold, rfl⟩ := List.mem_map.mp hask
  refine ⟨old, hold, ?_⟩
  split
  · exact (hmy old).symm
  · rfl

namespace Numbered

variable {desk next : Desk κ}

/-- A newer number, and no new run. -/
theorem renew (hnumbered : Numbered desk) (hasks : next.asks = desk.asks)
    (hopenings : next.openings = desk.openings) (hreqId : desk.reqId < next.reqId) :
    Numbered next := by
  constructor
  · rw [hasks]
    intro ask hask
    exact (hnumbered.asks ask hask).trans hreqId.le
  · rw [hopenings]
    intro opening hopening
    exact (hnumbered.openings opening hopening).trans hreqId.le
  · rw [hasks, hopenings]
    exact hnumbered.apart
  · rw [hopenings]
    intro opening hopening hmy
    have hold := hnumbered.openings opening hopening
    omega

/-- The runs go on under their numbers, and nothing begins to stream. -/
theorem keep (hnumbered : Numbered desk) (hreqId : next.reqId = desk.reqId)
    (hasks : ∀ ask ∈ next.asks, ∃ old ∈ desk.asks, old.my = ask.my)
    (hopenings : next.openings ⊆ desk.openings) (hbusy : desk.busy = false → next.busy = false) :
    Numbered next := by
  constructor
  · intro ask hask
    obtain ⟨old, hold, hmy⟩ := hasks ask hask
    rw [hreqId, ← hmy]
    exact hnumbered.asks old hold
  · intro opening hopening
    rw [hreqId]
    exact hnumbered.openings opening (hopenings hopening)
  · intro ask hask opening hopening
    obtain ⟨old, hold, hmy⟩ := hasks ask hask
    rw [← hmy]
    exact hnumbered.apart old hold opening (hopenings hopening)
  · intro opening hopening hmy
    rw [hreqId] at hmy
    exact hbusy (hnumbered.idle opening (hopenings hopening) hmy)

theorem newQuestion (hnumbered : Numbered desk) (busy : Bool) :
    Numbered (desk.newQuestion busy) := by
  cases busy with
  | true => exact hnumbered.renew rfl rfl (by simp [Desk.newQuestion, Desk.abortStream])
  | false => exact hnumbered.renew rfl rfl (by simp [Desk.newQuestion])

theorem openSession (hnumbered : Numbered desk) (id : Uuid) :
    Numbered (desk.openSession id) := by
  have hasks := openSession_asks desk id
  have hopenings := openSession_openings desk id
  have hreqId := openSession_reqId desk id
  have hnew : ∀ opening ∈ (desk.openSession id).openings,
      opening ∈ desk.openings ∨ opening.my = (desk.openSession id).reqId := by
    intro opening hopening
    rw [hopenings, List.mem_append, List.mem_singleton] at hopening
    rcases hopening with hold | hlast
    · exact Or.inl hold
    · exact Or.inr (congrArg Opening.my hlast)
  constructor
  · rw [hasks]
    intro ask hask
    exact (hnumbered.asks ask hask).trans hreqId.le
  · intro opening hopening
    rcases hnew opening hopening with hold | hlast
    · exact (hnumbered.openings opening hold).trans hreqId.le
    · exact hlast.le
  · rw [hasks]
    intro ask hask opening hopening
    rcases hnew opening hopening with hold | hlast
    · exact hnumbered.apart ask hask opening hold
    · have hold := hnumbered.asks ask hask
      omega
  · intro _ _ _
    exact openSession_busy desk id

theorem ask (hnumbered : Numbered desk) (text : Text) : Numbered (desk.ask text) := by
  unfold Desk.ask
  dsimp only
  split
  next => exact hnumbered
  next =>
      have hnew : ∀ {ask : Ask}, ask ∈ desk.asks ++ [desk.newAsk (trim text)] →
          ask ∈ desk.asks ∨ ask.my = desk.reqId + 1 := by
        intro ask hask
        rw [List.mem_append, List.mem_singleton] at hask
        rcases hask with hold | hlast
        · exact Or.inl hold
        · exact Or.inr (congrArg Ask.my hlast)
      constructor
      · intro ask hask
        rcases hnew hask with hold | hlast
        · exact (hnumbered.asks ask hold).trans (Nat.le_succ _)
        · exact hlast.le
      · intro opening hopening
        exact (hnumbered.openings opening hopening).trans (Nat.le_succ _)
      · intro ask hask opening hopening
        have hbound := hnumbered.openings opening hopening
        rcases hnew hask with hold | hlast
        · exact hnumbered.apart ask hold opening hopening
        · omega
      · intro opening hopening hmy
        have hbound := hnumbered.openings opening hopening
        dsimp only at hmy
        omega

theorem updateAsk (hnumbered : Numbered desk) (my : ℕ) (change : Ask → Ask)
    (hmy : ∀ ask, (change ask).my = ask.my) : Numbered (desk.updateAsk my change) :=
  hnumbered.keep rfl (fun _ hask => mem_updateAsk change hmy hask) (List.Subset.refl _) fun hbusy => hbusy

theorem onToken (hnumbered : Numbered desk) (ask : Ask) (token : Text) :
    Numbered (desk.onToken ask token) := by
  unfold Desk.onToken
  split
  next =>
      refine hnumbered.keep rfl ?_ (List.Subset.refl _) fun hbusy => hbusy
      intro found hfound
      exact mem_updateAsk (Ask.receive token) (fun _ => rfl) hfound
  next => exact hnumbered

theorem onDone (hnumbered : Numbered desk) (ask : Ask) (payload : Done κ) :
    Numbered (desk.onDone ask payload) := by
  unfold Desk.onDone
  dsimp only
  split
  next =>
      refine hnumbered.keep rfl ?_ (List.Subset.refl _) fun _ => rfl
      intro found hfound
      exact mem_updateAsk Ask.answer (fun _ => rfl) hfound
  next => exact hnumbered.updateAsk ask.my Ask.answer fun _ => rfl

theorem onError (hnumbered : Numbered desk) (ask : Ask) (message : Option Text) :
    Numbered (desk.onError ask message) := by
  unfold Desk.onError
  split
  next => exact hnumbered
  next =>
      split
      next =>
          refine hnumbered.keep rfl ?_ (List.Subset.refl _) fun _ => rfl
          intro found hfound
          exact ⟨found, hfound, rfl⟩
      next => exact hnumbered

theorem opened (hnumbered : Numbered desk) (my : ℕ) (result : Except Text (List (Msg κ))) :
    Numbered (desk.opened my result) := by
  have hkeep : ∀ {next : Desk κ}, next.reqId = desk.reqId → next.asks = desk.asks →
      next.openings = desk.openings.filter (·.my ≠ my) → next.busy = desk.busy →
      Numbered next := by
    intro next hreqId hasks hopenings hbusy
    apply hnumbered.keep hreqId
    · rw [hasks]
      intro ask hask
      exact ⟨ask, hask, rfl⟩
    · rw [hopenings]
      exact fun opening hopening => List.mem_of_mem_filter hopening
    · rw [hbusy]
      exact id
  unfold Desk.opened
  dsimp only
  split
  next => cases result <;> exact hkeep rfl rfl rfl rfl
  next => exact hkeep rfl rfl rfl rfl

theorem unlist (hnumbered : Numbered desk) (deletion : Deletion) :
    Numbered (desk.unlist deletion) :=
  ⟨hnumbered.asks, hnumbered.openings, hnumbered.apart, hnumbered.idle⟩

theorem deleted (hnumbered : Numbered desk) (deletion : Deletion) (result : Except Text Unit) :
    Numbered (desk.deleted deletion result) := by
  unfold Desk.deleted
  cases result with
  | error message =>
      exact ⟨hnumbered.asks, hnumbered.openings, hnumbered.apart, hnumbered.idle⟩
  | ok _ =>
      dsimp only
      split
      next => exact (hnumbered.unlist deletion).newQuestion deletion.busy
      next => exact hnumbered.unlist deletion

end Numbered

section

variable {server : Server κ} {desk next : Desk κ}

/-- A run that is called back is one of the runs, with this number and not ended. -/
theorem running?_spec {my : ℕ} {ask : Ask} (hrunning : desk.running? my = some ask) :
    ask ∈ desk.asks ∧ ask.my = my ∧ ask.ended = false := by
  have hfound := List.find?_some hrunning
  rw [Bool.and_eq_true, decide_eq_true_eq, Bool.not_eq_true'] at hfound
  exact ⟨List.mem_of_find?_eq_some hrunning, hfound⟩

theorem step_opened {my : ℕ} {result : Except Text (List (Msg κ))}
    (hstep : step server desk (.opened my result) = some next) :
    ∃ opening ∈ desk.openings, opening.my = my ∧ next = desk.opened my result ∧
      ∀ messages, result = .ok messages → server.stored opening.id messages = true := by
  simp only [step] at hstep
  split at hstep
  next => cases hstep
  next opening hopening =>
      have hmy := List.find?_some hopening
      refine ⟨opening, List.mem_of_find?_eq_some hopening, of_decide_eq_true hmy, ?_⟩
      cases result with
      | error message =>
          cases hstep
          exact ⟨rfl, fun _ hok => by cases hok⟩
      | ok messages =>
          dsimp only at hstep
          split at hstep
          next hstored =>
              cases hstep
              refine ⟨rfl, ?_⟩
              intro _ hok
              cases hok
              exact hstored
          next => cases hstep

theorem step_deleted {deletion : Deletion} {result : Except Text Unit}
    (hstep : step server desk (.deleted deletion result) = some next) :
    deletion ∈ desk.deletions ∧ next = desk.deleted deletion result := by
  simp only [step] at hstep
  split at hstep
  next hmem =>
      cases hstep
      exact ⟨hmem, rfl⟩
  next => cases hstep

theorem step_onDone {my : ℕ} {payload : Done κ}
    (hstep : step server desk (.onDone my payload) = some next) :
    ∃ ask, desk.running? my = some ask ∧ ask.answered = false ∧
      server.answers ask.sessionAtSend ask.question payload = true ∧
      next = desk.onDone ask payload := by
  simp only [step] at hstep
  split at hstep
  next => cases hstep
  next ask hask =>
      split at hstep
      next hanswers =>
          cases hstep
          exact ⟨ask, hask, hanswers.1, hanswers.2, rfl⟩
      next => cases hstep

theorem step_stop (hstep : step server desk .stop = some next) :
    desk.busy = true ∧ next = desk.stop := by
  simp only [step] at hstep
  split at hstep
  next hbusy =>
      cases hstep
      exact ⟨hbusy, rfl⟩
  next => cases hstep

theorem step_numbered {event : Event κ} (hnumbered : Numbered desk)
    (hstep : step server desk event = some next) : Numbered next := by
  cases event with
  | openSession id =>
      cases hstep
      exact hnumbered.openSession id
  | opened my result =>
      obtain ⟨_, _, _, rfl, _⟩ := step_opened hstep
      exact hnumbered.opened my result
  | newQuestion =>
      cases hstep
      exact hnumbered.newQuestion desk.busy
  | deleteSession target =>
      cases hstep
      exact ⟨hnumbered.asks, hnumbered.openings, hnumbered.apart, hnumbered.idle⟩
  | deleted deletion result =>
      obtain ⟨_, rfl⟩ := step_deleted hstep
      exact hnumbered.deleted deletion result
  | ask text =>
      cases hstep
      exact hnumbered.ask text
  | onToken my token =>
      obtain ⟨ask, _, rfl⟩ := Option.map_eq_some_iff.mp hstep
      exact hnumbered.onToken ask token
  | onDone my payload =>
      obtain ⟨ask, _, _, _, rfl⟩ := step_onDone hstep
      exact hnumbered.onDone ask payload
  | onError my message =>
      obtain ⟨ask, _, rfl⟩ := Option.map_eq_some_iff.mp hstep
      exact hnumbered.onError ask message
  | ended my =>
      obtain ⟨_, _, rfl⟩ := Option.map_eq_some_iff.mp hstep
      exact hnumbered.updateAsk my Ask.close fun _ => rfl
  | stop =>
      obtain ⟨_, rfl⟩ := step_stop hstep
      exact hnumbered.renew rfl rfl (Nat.lt_succ_self _)
  | listed result =>
      cases result <;> cases hstep <;>
        exact ⟨hnumbered.asks, hnumbered.openings, hnumbered.apart, hnumbered.idle⟩

theorem numbered_of_run {events : List (Event κ)}
    (hrun : exec (step server) {} events = some desk) : Numbered desk := by
  apply exec_invariant ?_ hrun
  · constructor <;> intro _ hmem <;> cases hmem
  · intro state event next hnumbered hstep
    exact step_numbered hnumbered hstep

end

/-- A server with one session and one answer. -/
def sampleServer : Server Unit where
  stored id messages := id = 8 && messages = []
  answers session question payload :=
    session.getD 7 = 7 && payload.sessionId = 7 && question = "Wie oft?".toList

def sampleDone : Done Unit where
  sessionId := 7
  messageId := 5
  answer := "Einmal in der Woche.".toList
  citations := []
  insufficient := false

/-- A question, its answer, and the deletion of the session while the next question runs. -/
def sampleEvents : List (Event Unit) :=
  [.ask " Wie oft?".toList, .onToken 1 "Einmal".toList, .onDone 1 sampleDone, .ended 1,
    .deleteSession 7, .ask "Wie oft?".toList, .deleted ⟨7, some 7, false⟩ (.ok ())]

theorem sample_runs : ∃ desk, exec (step sampleServer) {} sampleEvents = some desk :=
  Option.isSome_iff_exists.mp (by decide +kernel)

end AgenticRag.ChatApp
