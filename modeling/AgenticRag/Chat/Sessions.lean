import AgenticRag.Access.Reopening
import AgenticRag.Core.Keyed
import AgenticRag.Core.Transition

/-!
# The chat sessions of all users

The tables of the chat endpoints and every operation on them.  A turn commits the question
when it begins and the answer when the graph has ended, and the operations of all users
come in any order in between.
-/

namespace AgenticRag.Sessions

open AgenticRag.Access (Library HttpError)
open AgenticRag.History

/-! ## Tables -/

/-- A row of `message_feedback`. -/
structure FeedbackRow where
  messageId : Uuid
  userId : Uuid
  rating : String
  reason : Option String
  deriving DecidableEq

/-- A turn whose graph runs. -/
structure PendingTurn where
  id : Uuid
  userId : Uuid
  sessionId : Uuid
  deriving DecidableEq

/-- The identifiers an event draws for new rows, and for a turn. -/
structure Draw where
  userId : Uuid
  session : Uuid
  message : Uuid
  turn : Uuid
  deriving DecidableEq

@[ext]
structure Store where
  sessions : List SessionRow := []
  messages : List StoredMessage := []
  feedback : List FeedbackRow := []
  turns : List PendingTurn := []
  /-- the identifiers drawn so far -/
  drawn : List Draw := []

/-! ## Requests -/

inductive Request where
  | createSession (title : Option String)
  | listSessions
  | getSession (sessionId : Uuid)
  | deleteSession (sessionId : Uuid)
  /-- `chat` and `chat_stream` up to the start of the graph -/
  | ask (sessionId : Option Uuid) (message : String)
  /-- what they do with the final state of the graph -/
  | complete (turn : Uuid) (answer : String) (citations : Option (List Record))
  /-- the graph fails, or runs out of time -/
  | giveUp (turn : Uuid) (timedOut : Bool)
  | rate (messageId : Uuid) (rating : String) (reason : Option String)

structure Event where
  user : Access.User
  /-- the documents and grants at the time of the request -/
  library : Library
  draw : Draw
  now : ℚ
  request : Request

inductive Reply where
  | session (row : SessionRow)
  | sessions (rows : List SessionRow)
  | detail (detail : SessionDetail)
  | started (turn sessionId : Uuid)
  | answered (sessionId messageId : Uuid)
  | noContent

namespace Store

variable (store : Store)

/-- `db.get(ChatSession, session_id)` -/
def session? (sessionId : Uuid) : Option SessionRow :=
  store.sessions.find? fun row => row.id = sessionId

/-- `db.get(ChatMessage, message_id)` -/
def message? (messageId : Uuid) : Option StoredMessage :=
  store.messages.find? fun row => row.id = messageId

def turn? (turn : Uuid) : Option PendingTurn :=
  store.turns.find? fun row => row.id = turn

/-- The tables as `get_session` reads them. -/
def conversations : Conversations where
  sessions := store.session?
  messages := store.messages
  ratings := store.feedback.map fun row => ⟨row.userId, row.messageId, row.rating⟩
  keyed _ _ hsession := (Keyed.find?_spec hsession).2

/-- The sessions of a user, the newest first. -/
def listSessions (userId : Uuid) : List SessionRow :=
  (store.sessions.filter (·.userId = userId)).insertionSort
    fun left right => right.createdAt ≤ left.createdAt

/-- `DELETE FROM chat_sessions`, with what the foreign keys cascade to. -/
def deleteSession (sessionId : Uuid) : Store :=
  { store with
    sessions := store.sessions.filter (·.id ≠ sessionId)
    messages := store.messages.filter (·.sessionId ≠ sessionId)
    feedback := store.feedback.filter fun row =>
      store.messages.all fun message =>
        message.id ≠ row.messageId || message.sessionId ≠ sessionId }

/-- The upsert of `message_feedback`. -/
def upsert (row : FeedbackRow) : Store :=
  if store.feedback.any fun old => old.messageId = row.messageId && old.userId = row.userId then
    { store with
      feedback := store.feedback.map fun old =>
        if old.messageId = row.messageId && old.userId = row.userId then row else old }
  else { store with feedback := store.feedback ++ [row] }

def insertSession (row : SessionRow) : Store :=
  { store with sessions := store.sessions ++ [row] }

def insertMessage (row : StoredMessage) : Store :=
  { store with messages := store.messages ++ [row] }

def endTurn (turn : Uuid) : Store :=
  { store with turns := store.turns.filter (·.id ≠ turn) }

/-- The question is committed and the graph starts. -/
def beginTurn (event : Event) (sessionId : Uuid) (message : String) : Store :=
  { store.insertMessage
      { id := event.draw.message, sessionId := sessionId, role := .user, content := message,
        createdAt := event.now, citations := none } with
    turns := store.turns ++
      [{ id := event.draw.turn, userId := event.user.id, sessionId := sessionId }] }

/-- `message_feedback` up to the upsert. -/
def ratable (userId messageId : Uuid) : Except HttpError Unit :=
  match store.message? messageId with
  | none => .error ⟨404, "Message not found"⟩
  | some message =>
      match store.session? message.sessionId with
      | none => .error ⟨404, "Message not found"⟩
      | some session =>
          if session.userId ≠ userId then .error ⟨404, "Message not found"⟩
          else if message.role ≠ .assistant then
            .error ⟨400, "Feedback applies to assistant messages"⟩
          else .ok ()

end Store

/-- `body.message[:80]` -/
def titleOf (message : String) : String :=
  String.ofList (message.toList.take 80)

/-- The row of a new session. -/
def newSession (event : Event) (title : Option String) : SessionRow where
  id := event.draw.session
  userId := event.user.id
  title := title
  createdAt := event.now

/-- What a request writes, and its response. -/
def handle (store : Store) (event : Event) : Store × Except HttpError Reply :=
  match event.request with
  | .createSession title =>
      (store.insertSession (newSession event title), .ok (.session (newSession event title)))
  | .listSessions => (store, .ok (.sessions (store.listSessions event.user.id)))
  | .getSession sessionId =>
      (store, (store.conversations.getSession event.library event.user sessionId).map .detail)
  | .deleteSession sessionId =>
      match store.conversations.ownedSession event.user sessionId with
      | .error error => (store, .error error)
      | .ok _ => (store.deleteSession sessionId, .ok .noContent)
  | .ask (some sessionId) message =>
      match store.conversations.ownedSession event.user sessionId with
      | .error error => (store, .error error)
      | .ok _ =>
          (store.beginTurn event sessionId message, .ok (.started event.draw.turn sessionId))
  | .ask none message =>
      ((store.insertSession (newSession event (titleOf message))).beginTurn event
          event.draw.session message,
        .ok (.started event.draw.turn event.draw.session))
  | .complete turn answer citations =>
      match (store.turn? turn).filter (·.userId = event.user.id) with
      | none => (store, .error serverError)
      | some pending =>
          match store.session? pending.sessionId with
          -- The foreign key of the message: the session has been deleted.
          | none => (store.endTurn turn, .error serverError)
          | some _ =>
              ((store.endTurn turn).insertMessage
                  { id := event.draw.message, sessionId := pending.sessionId, role := .assistant,
                    content := answer, createdAt := event.now, citations := citations },
                .ok (.answered pending.sessionId event.draw.message))
  | .giveUp turn timedOut =>
      match (store.turn? turn).filter (·.userId = event.user.id) with
      | none => (store, .error serverError)
      | some _ =>
          (store.endTurn turn,
            .error (if timedOut then ⟨504, "Request timed out"⟩ else serverError))
  | .rate messageId rating reason =>
      match store.ratable event.user.id messageId with
      | .error error => (store, .error error)
      | .ok () =>
          (store.upsert ⟨messageId, event.user.id, rating, reason⟩, .ok .noContent)

/-- No row and no turn has had one of these identifiers. -/
def Fresh (store : Store) (event : Event) : Prop :=
  event.draw.userId = event.user.id ∧ ∀ old ∈ store.drawn,
    old.session ≠ event.draw.session ∧ old.message ≠ event.draw.message ∧
      old.turn ≠ event.draw.turn

instance (store : Store) (event : Event) : Decidable (Fresh store event) :=
  inferInstanceAs (Decidable (_ ∧ ∀ old ∈ store.drawn, _))

def Store.record (store : Store) (draw : Draw) : Store :=
  { store with drawn := store.drawn ++ [draw] }

def step (store : Store) (event : Event) : Option Store :=
  if Fresh store event then some (handle (store.record event.draw) event).1 else none

/-! ## Consistent tables -/

/-- Keys are unique, every row belongs to rows that exist, and what a user has rated or
asked stands in sessions of this user. -/
structure Sound (store : Store) : Prop where
  draws : ∀ first ∈ store.drawn, ∀ second ∈ store.drawn,
    first.session = second.session → first.userId = second.userId
  sessions : ∀ row ∈ store.sessions, ∃ draw ∈ store.drawn,
    draw.session = row.id ∧ draw.userId = row.userId
  sessionIds : Keyed.Unique store.sessions SessionRow.id
  messages : ∀ row ∈ store.messages, ∃ session ∈ store.sessions, session.id = row.sessionId
  messageDraws : ∀ row ∈ store.messages, ∃ draw ∈ store.drawn, draw.message = row.id
  messageIds : Keyed.Unique store.messages StoredMessage.id
  feedback : ∀ row ∈ store.feedback, ∃ message ∈ store.messages, message.id = row.messageId ∧
    ∃ session ∈ store.sessions, session.id = message.sessionId ∧ session.userId = row.userId
  rated : Keyed.Unique store.feedback fun row => (row.messageId, row.userId)
  turns : ∀ turn ∈ store.turns, ∃ draw ∈ store.drawn,
    draw.session = turn.sessionId ∧ draw.userId = turn.userId
  turnDraws : ∀ turn ∈ store.turns, ∃ draw ∈ store.drawn, draw.turn = turn.id
  turnIds : Keyed.Unique store.turns PendingTurn.id

namespace Sound

variable {store : Store}

/-- Identifiers that have not been drawn belong to no row and no turn. -/
theorem fresh {event : Event} (hsound : Sound store) (hfresh : Fresh store event) :
    (∀ row ∈ store.sessions, row.id ≠ event.draw.session) ∧
      (∀ row ∈ store.messages, row.id ≠ event.draw.message) ∧
      ∀ turn ∈ store.turns, turn.id ≠ event.draw.turn := by
  refine ⟨?_, ?_, ?_⟩
  · intro row hrow hid
    obtain ⟨draw, hdraw, hsession, _⟩ := hsound.sessions row hrow
    exact (hfresh.2 draw hdraw).1 (hsession.trans hid)
  · intro row hrow hid
    obtain ⟨draw, hdraw, hmessage⟩ := hsound.messageDraws row hrow
    exact (hfresh.2 draw hdraw).2.1 (hmessage.trans hid)
  · intro turn hturn hid
    obtain ⟨draw, hdraw, hdrawn⟩ := hsound.turnDraws turn hturn
    exact (hfresh.2 draw hdraw).2.2 (hdrawn.trans hid)

theorem record {event : Event} (hsound : Sound store) (hfresh : Fresh store event) :
    Sound (store.record event.draw) := by
  have hkeep : ∀ {motive : Draw → Prop}, (∃ draw ∈ store.drawn, motive draw) →
      ∃ draw ∈ store.drawn ++ [event.draw], motive draw := by
    rintro motive ⟨draw, hdraw, hmotive⟩
    exact ⟨draw, List.mem_append_left _ hdraw, hmotive⟩
  refine ⟨?_, fun row hrow => hkeep (hsound.sessions row hrow), hsound.sessionIds,
    hsound.messages, fun row hrow => hkeep (hsound.messageDraws row hrow), hsound.messageIds,
    hsound.feedback, hsound.rated, fun turn hturn => hkeep (hsound.turns turn hturn),
    fun turn hturn => hkeep (hsound.turnDraws turn hturn), hsound.turnIds⟩
  intro first hfirst second hsecond hsame
  rcases List.mem_append.mp hfirst with hold | hnew <;>
    rcases List.mem_append.mp hsecond with hold' | hnew'
  · exact hsound.draws first hold second hold' hsame
  · rw [List.mem_singleton.mp hnew'] at hsame
    exact absurd hsame (hfresh.2 first hold).1
  · rw [List.mem_singleton.mp hnew] at hsame
    exact absurd hsame.symm (hfresh.2 second hold').1
  · rw [List.mem_singleton.mp hnew, List.mem_singleton.mp hnew']

/-- A row with a new key. -/
theorem unique_concat {α κ : Type*} {rows : List α} {key : α → κ} {row : α}
    (hunique : Keyed.Unique rows key) (hnew : ∀ old ∈ rows, key old ≠ key row) :
    Keyed.Unique (rows ++ [row]) key := by
  intro first hfirst second hsecond hsame
  rcases List.mem_append.mp hfirst with hold | hlast <;>
    rcases List.mem_append.mp hsecond with hold' | hlast'
  · exact hunique first hold second hold' hsame
  · rw [List.mem_singleton.mp hlast'] at hsame
    exact absurd hsame (hnew first hold)
  · rw [List.mem_singleton.mp hlast] at hsame
    exact absurd hsame.symm (hnew second hold')
  · rw [List.mem_singleton.mp hlast, List.mem_singleton.mp hlast']

theorem unique_filter {α κ : Type*} {rows : List α} {key : α → κ} {keep : α → Bool}
    (hunique : Keyed.Unique rows key) : Keyed.Unique (rows.filter keep) key := by
  intro first hfirst second hsecond
  exact hunique first (List.mem_of_mem_filter hfirst) second (List.mem_of_mem_filter hsecond)

theorem insertSession {row : SessionRow} (hsound : Sound store)
    (hdraw : ∃ draw ∈ store.drawn, draw.session = row.id ∧ draw.userId = row.userId)
    (hnew : ∀ old ∈ store.sessions, old.id ≠ row.id) : Sound (store.insertSession row) := by
  have hkeep : ∀ {motive : SessionRow → Prop}, (∃ session ∈ store.sessions, motive session) →
      ∃ session ∈ store.sessions ++ [row], motive session := by
    rintro motive ⟨session, hsession, hmotive⟩
    exact ⟨session, List.mem_append_left _ hsession, hmotive⟩
  refine ⟨hsound.draws, ?_, unique_concat hsound.sessionIds hnew,
    fun message hmessage => hkeep (hsound.messages message hmessage), hsound.messageDraws,
    hsound.messageIds, ?_, hsound.rated, hsound.turns, hsound.turnDraws, hsound.turnIds⟩
  · intro session hsession
    rcases List.mem_append.mp hsession with hold | hlast
    · exact hsound.sessions session hold
    · rw [List.mem_singleton.mp hlast]
      exact hdraw
  · intro feedback hfeedback
    obtain ⟨message, hmessage, hid, hsession⟩ := hsound.feedback feedback hfeedback
    exact ⟨message, hmessage, hid, hkeep hsession⟩

theorem insertMessage {row : StoredMessage} (hsound : Sound store)
    (hsession : ∃ session ∈ store.sessions, session.id = row.sessionId)
    (hdraw : ∃ draw ∈ store.drawn, draw.message = row.id)
    (hnew : ∀ old ∈ store.messages, old.id ≠ row.id) : Sound (store.insertMessage row) := by
  refine ⟨hsound.draws, hsound.sessions, hsound.sessionIds, ?_, ?_,
    unique_concat hsound.messageIds hnew, ?_, hsound.rated, hsound.turns, hsound.turnDraws,
    hsound.turnIds⟩
  · intro message hmessage
    rcases List.mem_append.mp hmessage with hold | hlast
    · exact hsound.messages message hold
    · rw [List.mem_singleton.mp hlast]
      exact hsession
  · intro message hmessage
    rcases List.mem_append.mp hmessage with hold | hlast
    · exact hsound.messageDraws message hold
    · rw [List.mem_singleton.mp hlast]
      exact hdraw
  · intro feedback hfeedback
    obtain ⟨message, hmessage, hrest⟩ := hsound.feedback feedback hfeedback
    exact ⟨message, List.mem_append_left _ hmessage, hrest⟩

theorem insertTurn {turn : PendingTurn} (hsound : Sound store)
    (hdraw : ∃ draw ∈ store.drawn, draw.session = turn.sessionId ∧ draw.userId = turn.userId)
    (hturn : ∃ draw ∈ store.drawn, draw.turn = turn.id)
    (hnew : ∀ old ∈ store.turns, old.id ≠ turn.id) :
    Sound { store with turns := store.turns ++ [turn] } := by
  refine ⟨hsound.draws, hsound.sessions, hsound.sessionIds, hsound.messages,
    hsound.messageDraws, hsound.messageIds, hsound.feedback, hsound.rated, ?_, ?_,
    unique_concat hsound.turnIds hnew⟩
  · intro pending hpending
    rcases List.mem_append.mp hpending with hold | hlast
    · exact hsound.turns pending hold
    · rw [List.mem_singleton.mp hlast]
      exact hdraw
  · intro pending hpending
    rcases List.mem_append.mp hpending with hold | hlast
    · exact hsound.turnDraws pending hold
    · rw [List.mem_singleton.mp hlast]
      exact hturn

theorem endTurn (hsound : Sound store) (turn : Uuid) : Sound (store.endTurn turn) :=
  ⟨hsound.draws, hsound.sessions, hsound.sessionIds, hsound.messages, hsound.messageDraws,
    hsound.messageIds, hsound.feedback, hsound.rated,
    fun pending hpending => hsound.turns pending (List.mem_of_mem_filter hpending),
    fun pending hpending => hsound.turnDraws pending (List.mem_of_mem_filter hpending),
    unique_filter hsound.turnIds⟩

theorem deleteSession (hsound : Sound store) (sessionId : Uuid) :
    Sound (store.deleteSession sessionId) := by
  refine ⟨hsound.draws,
    fun row hrow => hsound.sessions row (List.mem_of_mem_filter hrow),
    unique_filter hsound.sessionIds, ?_,
    fun row hrow => hsound.messageDraws row (List.mem_of_mem_filter hrow),
    unique_filter hsound.messageIds, ?_, unique_filter hsound.rated, hsound.turns,
    hsound.turnDraws, hsound.turnIds⟩
  · intro row hrow
    obtain ⟨hmem, hother⟩ := List.mem_filter.mp hrow
    obtain ⟨session, hsession, hid⟩ := hsound.messages row hmem
    refine ⟨session, List.mem_filter.mpr ⟨hsession, ?_⟩, hid⟩
    rw [hid]
    exact hother
  · intro row hrow
    obtain ⟨hmem, hall⟩ := List.mem_filter.mp hrow
    obtain ⟨message, hmessage, hid, session, hsession, hof, howner⟩ := hsound.feedback row hmem
    have hother : message.sessionId ≠ sessionId := by
      have hkept := List.all_eq_true.mp hall message hmessage
      simpa [hid] using hkept
    refine ⟨message, List.mem_filter.mpr ⟨hmessage, decide_eq_true hother⟩, hid, session,
      List.mem_filter.mpr ⟨hsession, ?_⟩, hof, howner⟩
    rw [hof]
    exact decide_eq_true hother

theorem upsert {row : FeedbackRow} (hsound : Sound store)
    (hrow : ∃ message ∈ store.messages, message.id = row.messageId ∧
      ∃ session ∈ store.sessions, session.id = message.sessionId ∧
        session.userId = row.userId) : Sound (store.upsert row) := by
  rw [Store.upsert]
  split
  next =>
      refine ⟨hsound.draws, hsound.sessions, hsound.sessionIds, hsound.messages,
        hsound.messageDraws, hsound.messageIds, ?_, ?_, hsound.turns, hsound.turnDraws,
        hsound.turnIds⟩
      · intro found hfound
        obtain ⟨old, hold, rfl⟩ := List.mem_map.mp hfound
        split
        next => exact hrow
        next => exact hsound.feedback old hold
      · have hkey : ∀ old : FeedbackRow,
            ((fun old => if old.messageId = row.messageId && old.userId = row.userId then row
              else old) old).messageId = old.messageId ∧
            ((fun old => if old.messageId = row.messageId && old.userId = row.userId then row
              else old) old).userId = old.userId := by
          intro old
          dsimp only
          split
          next hsame =>
              rw [Bool.and_eq_true, decide_eq_true_eq, decide_eq_true_eq] at hsame
              exact ⟨hsame.1.symm, hsame.2.symm⟩
          next => exact ⟨rfl, rfl⟩
        intro first hfirst second hsecond hsame
        obtain ⟨old, hold, rfl⟩ := List.mem_map.mp hfirst
        obtain ⟨old', hold', rfl⟩ := List.mem_map.mp hsecond
        rw [Prod.mk.injEq] at hsame
        have holdSame : (old.messageId, old.userId) = (old'.messageId, old'.userId) := by
          rw [← (hkey old).1, ← (hkey old).2, ← (hkey old').1, ← (hkey old').2]
          exact Prod.ext hsame.1 hsame.2
        rw [hsound.rated old hold old' hold' holdSame]
  next hnone =>
      refine ⟨hsound.draws, hsound.sessions, hsound.sessionIds, hsound.messages,
        hsound.messageDraws, hsound.messageIds, ?_, unique_concat hsound.rated ?_, hsound.turns,
        hsound.turnDraws, hsound.turnIds⟩
      · intro found hfound
        rcases List.mem_append.mp hfound with hold | hlast
        · exact hsound.feedback found hold
        · rw [List.mem_singleton.mp hlast]
          exact hrow
      · intro old hold hsame
        rw [Prod.mk.injEq] at hsame
        apply hnone
        rw [List.any_eq_true]
        exact ⟨old, hold, by simp [hsame.1, hsame.2]⟩

theorem insertSession_new {event : Event} (hsound : Sound store)
    (hdraw : event.draw ∈ store.drawn) (huser : event.draw.userId = event.user.id)
    (hnew : ∀ old ∈ store.sessions, old.id ≠ event.draw.session) (title : Option String) :
    Sound (store.insertSession (newSession event title)) :=
  hsound.insertSession ⟨event.draw, hdraw, rfl, huser⟩ hnew

/-- A question in a session of its user. -/
theorem beginTurn {event : Event} {session : SessionRow} (hsound : Sound store)
    (hdraw : event.draw ∈ store.drawn)
    (hmessages : ∀ old ∈ store.messages, old.id ≠ event.draw.message)
    (hturns : ∀ old ∈ store.turns, old.id ≠ event.draw.turn)
    (hsession : session ∈ store.sessions) (howner : session.userId = event.user.id)
    (message : String) : Sound (store.beginTurn event session.id message) := by
  have hasked : Sound (store.insertMessage
      { id := event.draw.message, sessionId := session.id, role := .user, content := message,
        createdAt := event.now, citations := none }) :=
    hsound.insertMessage ⟨session, hsession, rfl⟩ ⟨event.draw, hdraw, rfl⟩ hmessages
  apply hasked.insertTurn
  · obtain ⟨draw, hmem, hid, huser⟩ := hsound.sessions session hsession
    exact ⟨draw, hmem, hid, huser.trans howner⟩
  · exact ⟨event.draw, hdraw, rfl⟩
  · exact hturns

end Sound

theorem Store.turn?_spec {store : Store} {turn userId : Uuid} {pending : PendingTurn}
    (hpending : (store.turn? turn).filter (·.userId = userId) = some pending) :
    pending ∈ store.turns ∧ pending.id = turn ∧ pending.userId = userId := by
  obtain ⟨hfind, hkeep⟩ := Option.filter_eq_some_iff.mp hpending
  obtain ⟨hmem, hid⟩ := Keyed.find?_spec hfind
  exact ⟨hmem, hid, of_decide_eq_true hkeep⟩

/-- A user rates the answers of their own sessions. -/
theorem Store.ratable_spec {store : Store} {userId messageId : Uuid}
    (hratable : store.ratable userId messageId = .ok ()) :
    ∃ message ∈ store.messages, message.id = messageId ∧
      ∃ session ∈ store.sessions, session.id = message.sessionId ∧ session.userId = userId := by
  unfold Store.ratable at hratable
  split at hratable
  next => cases hratable
  next message hmessage =>
      obtain ⟨hmem, hid⟩ := Keyed.find?_spec hmessage
      split at hratable
      next => cases hratable
      next session hsession =>
          obtain ⟨hsessionMem, hsessionId⟩ := Keyed.find?_spec hsession
          split at hratable
          next => cases hratable
          next howner =>
              exact ⟨message, hmem, hid, session, hsessionMem, hsessionId,
                not_ne_iff.mp howner⟩

/-- The session exists and belongs to the user. -/
def Store.owns (store : Store) (userId sessionId : Uuid) : Bool :=
  (store.session? sessionId).any (·.userId = userId)

/-- The part of the tables that concerns one user. -/
def Store.of (store : Store) (userId : Uuid) : Store where
  sessions := store.sessions.filter (·.userId = userId)
  messages := store.messages.filter fun row => store.owns userId row.sessionId
  feedback := store.feedback.filter (·.userId = userId)
  turns := store.turns.filter (·.userId = userId)
  drawn := store.drawn.filter (·.userId = userId)

namespace Store

variable {store : Store} {userId : Uuid}

/-! ### Reading -/

theorem session?_of (hsound : Sound store) (sessionId : Uuid) :
    (store.of userId).session? sessionId =
      (store.session? sessionId).filter (·.userId = userId) :=
  Keyed.find?_filter hsound.sessionIds (fun row => row.userId = userId) sessionId

theorem message?_of (hsound : Sound store) (messageId : Uuid) :
    (store.of userId).message? messageId =
      (store.message? messageId).filter fun row => store.owns userId row.sessionId :=
  Keyed.find?_filter hsound.messageIds (fun row => store.owns userId row.sessionId) messageId

theorem turn?_of (hsound : Sound store) (turn : Uuid) :
    (store.of userId).turn? turn = (store.turn? turn).filter (·.userId = userId) :=
  Keyed.find?_filter hsound.turnIds (fun row => row.userId = userId) turn

/-- The check of an owner. -/
theorem ownedSession_of (hsound : Sound store) (user : Access.User) (sessionId : Uuid) :
    (store.of user.id).conversations.ownedSession user sessionId =
      store.conversations.ownedSession user sessionId := by
  unfold Conversations.ownedSession
  simp only [conversations, session?_of hsound]
  cases store.session? sessionId with
  | none => rfl
  | some row => by_cases hrow : row.userId = user.id <;> simp [hrow, Option.filter]

theorem ownedSession_spec {user : Access.User} {sessionId : Uuid} {row : SessionRow}
    (howned : store.conversations.ownedSession user sessionId = .ok row) :
    store.session? sessionId = some row ∧ row.id = sessionId ∧ row.userId = user.id := by
  unfold Conversations.ownedSession at howned
  simp only [conversations] at howned
  split at howned
  next => cases howned
  next found hfound =>
      split at howned
      next howner =>
          cases howned
          exact ⟨hfound, (Keyed.find?_spec hfound).2, howner⟩
      next => cases howned

theorem listSessions_of (store : Store) (userId : Uuid) :
    (store.of userId).listSessions userId = store.listSessions userId := by
  rw [listSessions, listSessions, of, List.filter_filter]
  simp only [Bool.and_self]

/-- A session that a user owns has the same history among the user's rows. -/
theorem history_of {sessionId : Uuid} (howns : store.owns userId sessionId = true) :
    (store.of userId).conversations.history sessionId =
      store.conversations.history sessionId := by
  have hfilter : ((store.of userId).messages.filter (·.sessionId = sessionId)) =
      store.messages.filter (·.sessionId = sessionId) := by
    rw [of, List.filter_filter]
    apply List.filter_congr
    intro row _
    by_cases hrow : row.sessionId = sessionId
    · rw [hrow, howns, Bool.and_true]
    · simp [hrow]
  rw [Conversations.history, Conversations.history]
  exact congrArg (List.insertionSort fun left right : StoredMessage =>
    left.createdAt ≤ right.createdAt) hfilter

theorem feedback_of (store : Store) (user : Access.User) (messageId : Uuid) :
    (store.of user.id).conversations.feedback user messageId =
      store.conversations.feedback user messageId := by
  unfold Conversations.feedback
  simp only [conversations, of, List.find?_map, List.find?_filter, Option.map_map]
  congr 2
  funext row
  by_cases hrow : row.userId = user.id <;> simp [hrow]

theorem ratable_of (hsound : Sound store) (messageId : Uuid) :
    (store.of userId).ratable userId messageId = store.ratable userId messageId := by
  unfold ratable
  rw [message?_of hsound]
  cases hmessage : store.message? messageId with
  | none => rfl
  | some message =>
      cases howns : store.owns userId message.sessionId with
      | true =>
          have hkept : (some message).filter (fun row => store.owns userId row.sessionId) =
              some message := Option.filter_some_pos howns
          have hany := howns
          rw [owns, Option.any_eq_true] at hany
          obtain ⟨session, hsession, howner⟩ := hany
          have hmine : (some session).filter (fun row => row.userId = userId) = some session :=
            Option.filter_some_pos howner
          simp only [hkept, session?_of hsound, hsession, hmine]
      | false =>
          have hkept : (some message).filter (fun row => store.owns userId row.sessionId) =
              none := Option.filter_some_neg (by rw [howns])
          simp only [hkept]
          cases hsession : store.session? message.sessionId with
          | none => rfl
          | some session =>
              rw [owns, hsession] at howns
              have hother : session.userId ≠ userId := of_decide_eq_false howns
              simp [hother]

theorem getSession_of (hsound : Sound store) (library : Library) (user : Access.User)
    (sessionId : Uuid) :
    (store.of user.id).conversations.getSession library user sessionId =
      store.conversations.getSession library user sessionId := by
  unfold Conversations.getSession
  rw [ownedSession_of hsound]
  cases howned : store.conversations.ownedSession user sessionId with
  | error error => rfl
  | ok row =>
      obtain ⟨hrow, hid, howner⟩ := ownedSession_spec howned
      have howns : store.owns user.id row.id = true := by
        rw [owns, hid, hrow]
        exact decide_eq_true howner
      have hout : (store.of user.id).conversations.messageOut user =
          store.conversations.messageOut user := by
        funext message citations
        simp only [Conversations.messageOut, feedback_of]
      simp only [bind, Except.bind, history_of howns, hout]

/-! ### Writing -/

/-- The user of a turn is the owner of its session. -/
theorem turn_owner {pending : PendingTurn} (hsound : Sound store)
    (hpending : pending ∈ store.turns) {row : SessionRow}
    (hsession : store.session? pending.sessionId = some row) :
    row.userId = pending.userId := by
  obtain ⟨hmem, hid⟩ := Keyed.find?_spec hsession
  obtain ⟨asked, hasked, haskedId, haskedUser⟩ := hsound.turns pending hpending
  obtain ⟨opened, hopened, hopenedId, hopenedUser⟩ := hsound.sessions row hmem
  have hsame : opened.session = asked.session := hopenedId.trans (hid.trans haskedId.symm)
  rw [← hopenedUser, ← haskedUser]
  exact hsound.draws opened hopened asked hasked hsame

/-- The session of a message is found. -/
theorem session?_message (hsound : Sound store) {message : StoredMessage}
    (hmessage : message ∈ store.messages) :
    ∃ session ∈ store.sessions, session.id = message.sessionId ∧
      store.session? message.sessionId = some session := by
  obtain ⟨session, hsession, hid⟩ := hsound.messages message hmessage
  exact ⟨session, hsession, hid, Keyed.find?_eq_some hsound.sessionIds hsession hid⟩

theorem owns_iff (hsound : Sound store) {session : SessionRow}
    (hsession : session ∈ store.sessions) :
    store.owns userId session.id = true ↔ session.userId = userId := by
  have hfind : store.session? session.id = some session :=
    Keyed.find?_eq_some hsound.sessionIds hsession rfl
  rw [owns, hfind]
  exact decide_eq_true_iff

theorem of_record (store : Store) (userId : Uuid) (draw : Draw) :
    (store.record draw).of userId =
      if draw.userId = userId then (store.of userId).record draw else store.of userId := by
  have howns : (store.record draw).owns userId = store.owns userId := rfl
  by_cases hdraw : draw.userId = userId
  · rw [if_pos hdraw]
    simp only [of, howns]
    simp [record, hdraw]
  · rw [if_neg hdraw]
    simp only [of, howns]
    simp [record, hdraw]

theorem of_insertSession (hsound : Sound store) (row : SessionRow) :
    (store.insertSession row).of userId =
      if row.userId = userId then (store.of userId).insertSession row
      else store.of userId := by
  have hmessages : (store.messages.filter fun message =>
        (store.insertSession row).owns userId message.sessionId) =
      store.messages.filter fun message => store.owns userId message.sessionId := by
    apply List.filter_congr
    intro message hmessage
    obtain ⟨session, _, _, hfind⟩ := session?_message hsound hmessage
    rw [session?] at hfind
    rw [owns, owns, session?, session?, insertSession, List.find?_append, hfind]
    rfl
  have hkept : (store.insertSession row).messages = store.messages := rfl
  by_cases hrow : row.userId = userId
  · rw [if_pos hrow]
    simp only [of, hkept, hmessages]
    simp [insertSession, hrow]
  · rw [if_neg hrow]
    simp only [of, hkept, hmessages]
    simp [insertSession, hrow]

theorem of_newSession (hsound : Sound store) (event : Event) (title : Option String) :
    (store.insertSession (newSession event title)).of userId =
      if event.user.id = userId then
        (store.of userId).insertSession (newSession event title)
      else store.of userId :=
  of_insertSession hsound (newSession event title)

/-- A new session belongs to the user who opens it. -/
theorem owns_newSession (userId : Uuid) {event : Event}
    (hnew : ∀ old ∈ store.sessions, old.id ≠ event.draw.session) (title : Option String) :
    (store.insertSession (newSession event title)).owns userId event.draw.session =
      decide (event.user.id = userId) := by
  have hnone : store.sessions.find? (fun row => row.id = event.draw.session) = none := by
    rw [List.find?_eq_none]
    intro old hold hid
    exact hnew old hold (of_decide_eq_true hid)
  rw [owns, session?, insertSession, List.find?_append, hnone]
  simp [newSession]

theorem of_insertMessage (store : Store) (userId : Uuid) (row : StoredMessage) :
    (store.insertMessage row).of userId =
      if store.owns userId row.sessionId then (store.of userId).insertMessage row
      else store.of userId := by
  have howns : (store.insertMessage row).owns userId = store.owns userId := rfl
  cases hrow : store.owns userId row.sessionId with
  | true =>
      simp only [of, howns]
      simp [insertMessage, hrow]
  | false =>
      simp only [of, howns]
      simp [insertMessage, hrow]

theorem of_beginTurn (store : Store) {event : Event} {sessionId : Uuid} (message : String)
    (howner : store.owns userId sessionId = decide (event.user.id = userId)) :
    (store.beginTurn event sessionId message).of userId =
      if event.user.id = userId then (store.of userId).beginTurn event sessionId message
      else store.of userId := by
  have howns : (store.beginTurn event sessionId message).owns userId = store.owns userId := rfl
  by_cases huser : event.user.id = userId
  · rw [if_pos huser]
    simp only [of, howns]
    simp [beginTurn, insertMessage, howner, huser]
  · rw [if_neg huser]
    simp only [of, howns]
    simp [beginTurn, insertMessage, howner, huser]

theorem of_endTurn (userId : Uuid) (hsound : Sound store) {pending : PendingTurn}
    (hpending : pending ∈ store.turns) :
    (store.endTurn pending.id).of userId =
      if pending.userId = userId then (store.of userId).endTurn pending.id
      else store.of userId := by
  have howns : (store.endTurn pending.id).owns userId = store.owns userId := rfl
  by_cases huser : pending.userId = userId
  · rw [if_pos huser]
    simp only [of, howns]
    simp only [endTurn]
    congr 1
    rw [List.filter_filter, List.filter_filter]
    apply List.filter_congr
    intro turn _
    exact Bool.and_comm _ _
  · rw [if_neg huser]
    simp only [of, howns]
    simp only [endTurn]
    congr 1
    rw [List.filter_filter]
    apply List.filter_congr
    intro turn hturn
    by_cases hmine : turn.userId = userId
    · have hother : turn.id ≠ pending.id := by
        intro hid
        rw [hsound.turnIds turn hturn pending hpending hid] at hmine
        exact huser hmine
      simp [hmine, hother]
    · simp [hmine]

/-- The messages that remain keep their sessions. -/
theorem owns_deleteSession {sessionId other : Uuid} (hother : other ≠ sessionId) :
    (store.deleteSession sessionId).owns userId other = store.owns userId other := by
  rw [owns, owns, session?, session?, deleteSession, List.find?_filter]
  congr 2
  funext row
  by_cases hrow : row.id = other
  · simp [hrow, hother]
  · simp [hrow]

/-- A rated message is one of a session of the user who has rated it. -/
theorem feedback_owns (hsound : Sound store) {row : FeedbackRow} (hrow : row ∈ store.feedback)
    {message : StoredMessage} (hmessage : message ∈ store.messages)
    (hid : message.id = row.messageId) : store.owns row.userId message.sessionId = true := by
  obtain ⟨found, hfound, hfoundId, session, hsession, hof, howner⟩ := hsound.feedback row hrow
  rw [hsound.messageIds message hmessage found hfound (hid.trans hfoundId.symm), ← hof,
    owns_iff hsound hsession]
  exact howner

/-- The messages of a user after a session has been deleted. -/
theorem of_deleteSession_messages (store : Store) (userId sessionId : Uuid) :
    ((store.deleteSession sessionId).of userId).messages =
      ((store.of userId).deleteSession sessionId).messages := by
  change ((store.messages.filter (·.sessionId ≠ sessionId)).filter fun row =>
      (store.deleteSession sessionId).owns userId row.sessionId) =
    (store.messages.filter fun row => store.owns userId row.sessionId).filter
      (·.sessionId ≠ sessionId)
  rw [List.filter_filter, List.filter_filter]
  apply List.filter_congr
  intro row _
  by_cases hrow : row.sessionId = sessionId
  · simp [hrow]
  · rw [owns_deleteSession hrow, Bool.and_comm]

theorem of_deleteSession_feedback (hsound : Sound store) (userId sessionId : Uuid) :
    ((store.deleteSession sessionId).of userId).feedback =
      ((store.of userId).deleteSession sessionId).feedback := by
  change (store.feedback.filter fun row => store.messages.all fun message =>
      message.id ≠ row.messageId || message.sessionId ≠ sessionId).filter (·.userId = userId) =
    (store.feedback.filter (·.userId = userId)).filter fun row =>
      (store.messages.filter fun message => store.owns userId message.sessionId).all
        fun message => message.id ≠ row.messageId || message.sessionId ≠ sessionId
  rw [List.filter_filter, List.filter_filter]
  apply List.filter_congr
  intro row hrow
  by_cases huser : row.userId = userId
  · have hall : (store.messages.all fun message =>
          message.id ≠ row.messageId || message.sessionId ≠ sessionId) =
        ((store.messages.filter fun message => store.owns userId message.sessionId).all
          fun message => message.id ≠ row.messageId || message.sessionId ≠ sessionId) := by
      rw [Bool.eq_iff_iff, List.all_eq_true, List.all_eq_true]
      refine ⟨fun hall message hmem => hall message (List.mem_of_mem_filter hmem), ?_⟩
      intro hall message hmem
      by_cases hid : message.id = row.messageId
      · apply hall message (List.mem_filter.mpr ⟨hmem, ?_⟩)
        rw [← huser]
        exact feedback_owns hsound hrow hmem hid
      · simp [hid]
    rw [hall, Bool.and_comm]
  · simp [huser]

/-- To delete a session deletes it among the rows of every user. -/
theorem of_deleteSession (hsound : Sound store) (sessionId : Uuid) :
    (store.deleteSession sessionId).of userId = (store.of userId).deleteSession sessionId := by
  have hsessions : ((store.deleteSession sessionId).of userId).sessions =
      ((store.of userId).deleteSession sessionId).sessions := by
    change (store.sessions.filter (·.id ≠ sessionId)).filter (·.userId = userId) =
      (store.sessions.filter (·.userId = userId)).filter (·.id ≠ sessionId)
    rw [List.filter_filter, List.filter_filter]
    apply List.filter_congr
    intro row _
    exact Bool.and_comm _ _
  have hmessages := of_deleteSession_messages store userId sessionId
  have hfeedback := of_deleteSession_feedback hsound userId sessionId
  rw [Store.ext_iff]
  exact ⟨hsessions, hmessages, hfeedback, rfl, rfl⟩

/-- Where no row belongs to the session, there is nothing to delete. -/
theorem deleteSession_absent {sessionId : Uuid}
    (hsessions : ∀ row ∈ store.sessions, row.id ≠ sessionId)
    (hmessages : ∀ row ∈ store.messages, row.sessionId ≠ sessionId) :
    store.deleteSession sessionId = store := by
  rw [Store.ext_iff]
  refine ⟨?_, ?_, ?_, rfl, rfl⟩
  · rw [deleteSession, List.filter_eq_self]
    intro row hrow
    exact decide_eq_true (hsessions row hrow)
  · rw [deleteSession, List.filter_eq_self]
    intro row hrow
    exact decide_eq_true (hmessages row hrow)
  · rw [deleteSession, List.filter_eq_self]
    intro row _
    rw [List.all_eq_true]
    intro message hmessage
    simp [hmessages message hmessage]

theorem of_deleteSession_other (hsound : Sound store) {sessionId : Uuid} {session : SessionRow}
    (hfind : store.session? sessionId = some session) (hother : session.userId ≠ userId) :
    (store.deleteSession sessionId).of userId = store.of userId := by
  obtain ⟨hsession, hid⟩ := Keyed.find?_spec hfind
  rw [of_deleteSession hsound, deleteSession_absent]
  · intro row hrow hsame
    obtain ⟨hmem, hmine⟩ := List.mem_filter.mp hrow
    rw [hsound.sessionIds row hmem session hsession (hsame.trans hid.symm)] at hmine
    exact hother (of_decide_eq_true hmine)
  · intro row hrow hsame
    have hmine := (List.mem_filter.mp hrow).2
    rw [hsame, ← hid, owns_iff hsound hsession] at hmine
    exact hother hmine

theorem of_upsert_own (store : Store) (row : FeedbackRow) :
    (store.upsert row).of row.userId = (store.of row.userId).upsert row := by
  have hany : ((store.of row.userId).feedback.any fun old =>
        old.messageId = row.messageId && old.userId = row.userId) =
      store.feedback.any fun old =>
        old.messageId = row.messageId && old.userId = row.userId := by
    rw [of, List.any_filter]
    congr 1
    funext old
    by_cases huser : old.userId = row.userId <;> simp [huser]
  rw [upsert, upsert, hany]
  split
  next =>
      have hmap : (store.feedback.map fun old =>
            if old.messageId = row.messageId && old.userId = row.userId then row else old).filter
              (·.userId = row.userId) =
          (store.feedback.filter (·.userId = row.userId)).map fun old =>
            if old.messageId = row.messageId && old.userId = row.userId then row else old := by
        rw [List.filter_map]
        congr 1
        apply List.filter_congr
        intro old _
        by_cases huser : old.userId = row.userId
        · simp only [Function.comp_apply, huser]
          split <;> simp [huser]
        · simp [huser]
      simp only [of, hmap]
      rfl
  next =>
      simp only [of, List.filter_append]
      simp [owns, session?]

theorem of_upsert_other (store : Store) {row : FeedbackRow} (hother : row.userId ≠ userId) :
    (store.upsert row).of userId = store.of userId := by
  unfold upsert
  split
  next =>
      have hmap : (store.feedback.map fun old =>
            if old.messageId = row.messageId && old.userId = row.userId then row else old).filter
              (·.userId = userId) = store.feedback.filter (·.userId = userId) := by
        induction store.feedback with
        | nil => rfl
        | cons old rest ih =>
            rw [List.map_cons, List.filter_cons, List.filter_cons, ih]
            by_cases hsame : old.messageId = row.messageId ∧ old.userId = row.userId
            · simp [hsame, hother]
            · simp [hsame]
      simp only [of, hmap]
      rfl
  next =>
      simp only [of, List.filter_append]
      simp [owns, session?, hother]

end Store

/-! ## Runs -/

section

variable {store : Store} {event : Event}

theorem handle_sound (hsound : Sound store) (hdraw : event.draw ∈ store.drawn)
    (huser : event.draw.userId = event.user.id)
    (hsessions : ∀ old ∈ store.sessions, old.id ≠ event.draw.session)
    (hmessages : ∀ old ∈ store.messages, old.id ≠ event.draw.message)
    (hturns : ∀ old ∈ store.turns, old.id ≠ event.draw.turn) :
    Sound (handle store event).1 := by
  unfold handle
  split
  next title _ => exact hsound.insertSession_new hdraw huser hsessions title
  next => exact hsound
  next => exact hsound
  next sessionId _ =>
      split
      next => exact hsound
      next => exact hsound.deleteSession sessionId
  next sessionId message _ =>
      split
      next => exact hsound
      next session howned =>
          obtain ⟨hfind, rfl, howner⟩ := Store.ownedSession_spec howned
          exact hsound.beginTurn hdraw hmessages hturns (Keyed.find?_spec hfind).1 howner message
  next message _ =>
      have hopened := hsound.insertSession_new hdraw huser hsessions (some (titleOf message))
      have hsession : newSession event (titleOf message) ∈
          (store.insertSession (newSession event (titleOf message))).sessions :=
        List.mem_append_right _ (List.mem_singleton_self _)
      exact hopened.beginTurn hdraw hmessages hturns hsession rfl message
  next turn answer citations _ =>
      split
      next => exact hsound
      next pending hpending =>
          split
          next => exact hsound.endTurn turn
          next session hsession =>
              obtain ⟨hmem, hid⟩ := Keyed.find?_spec hsession
              exact (hsound.endTurn turn).insertMessage ⟨session, hmem, hid⟩
                ⟨event.draw, hdraw, rfl⟩ hmessages
  next turn _ _ =>
      split
      next => exact hsound
      next => exact hsound.endTurn turn
  next messageId rating reason _ =>
      split
      next => exact hsound
      next hratable => exact hsound.upsert (Store.ratable_spec hratable)

theorem step_sound {next : Store} (hsound : Sound store)
    (hstep : step store event = some next) : Sound next := by
  unfold step at hstep
  split at hstep
  next hfresh =>
      cases hstep
      obtain ⟨hsessions, hmessages, hturns⟩ := hsound.fresh hfresh
      exact handle_sound (hsound.record hfresh)
        (List.mem_append_right _ (List.mem_singleton_self _)) hfresh.1 hsessions hmessages hturns
  next => cases hstep

theorem sound_empty : Sound {} := by
  refine ⟨?_, ?_, ?_, ?_, ?_, ?_, ?_, ?_, ?_, ?_, ?_⟩ <;> intro row hrow <;> cases hrow

theorem run_sound {events : List Event} {finish : Store}
    (hrun : Transition.exec step {} events = some finish) : Sound finish := by
  apply Transition.exec_invariant ?_ hrun sound_empty
  intro state event next hsound hstep
  exact step_sound hsound hstep

/-! ### One user and the others -/

/-- What a user's request does to the tables it does to the user's part of them, with the
same response. -/
theorem handle_own {userId : Uuid} (hsound : Sound store)
    (hsessions : ∀ old ∈ store.sessions, old.id ≠ event.draw.session)
    (huser : event.user.id = userId) :
    handle (store.of userId) event =
      ((handle store event).1.of userId, (handle store event).2) := by
  subst huser
  unfold handle
  cases hrequest : event.request with
  | createSession title =>
      simp only [Store.of_newSession hsound, if_pos]
  | listSessions => simp only [Store.listSessions_of]
  | getSession sessionId => simp only [Store.getSession_of hsound]
  | deleteSession sessionId =>
      simp only [Store.ownedSession_of hsound]
      cases store.conversations.ownedSession event.user sessionId with
      | error error => rfl
      | ok session => simp only [Store.of_deleteSession hsound]
  | ask chosen message =>
      cases chosen with
      | none =>
          have howner := Store.owns_newSession event.user.id hsessions
            (some (titleOf message))
          simp only [Store.of_beginTurn _ message howner, Store.of_newSession hsound, if_pos]
      | some sessionId =>
          simp only [Store.ownedSession_of hsound]
          cases howned : store.conversations.ownedSession event.user sessionId with
          | error error => rfl
          | ok session =>
              obtain ⟨hfind, hid, hmine⟩ := Store.ownedSession_spec howned
              have howner : store.owns event.user.id sessionId =
                  decide (event.user.id = event.user.id) := by
                rw [Store.owns, hfind, decide_eq_true rfl]
                exact decide_eq_true hmine
              simp only [Store.of_beginTurn store message howner, if_pos]
  | complete turn answer citations =>
      simp only [Store.turn?_of hsound, Option.filter_filter, Bool.and_self]
      cases hpending : (store.turn? turn).filter (·.userId = event.user.id) with
      | none => rfl
      | some pending =>
          obtain ⟨hmem, rfl, hmine⟩ := Store.turn?_spec hpending
          simp only [Store.session?_of hsound]
          cases hsession : store.session? pending.sessionId with
          | none => simp [Store.of_endTurn event.user.id hsound hmem, hmine]
          | some session =>
              have howner := (Store.turn_owner hsound hmem hsession).trans hmine
              have howns : (store.endTurn pending.id).owns event.user.id pending.sessionId =
                  true := by
                rw [Store.owns]
                change (store.session? pending.sessionId).any _ = true
                rw [hsession]
                exact decide_eq_true howner
              have hkept : (some session).filter (fun row => row.userId = event.user.id) =
                  some session := Option.filter_some_pos (decide_eq_true howner)
              simp [hkept, Store.of_insertMessage, howns, Store.of_endTurn event.user.id hsound hmem, hmine]
  | giveUp turn timedOut =>
      simp only [Store.turn?_of hsound, Option.filter_filter, Bool.and_self]
      cases hpending : (store.turn? turn).filter (·.userId = event.user.id) with
      | none => rfl
      | some pending =>
          obtain ⟨hmem, rfl, hmine⟩ := Store.turn?_spec hpending
          simp [Store.of_endTurn event.user.id hsound hmem, hmine]
  | rate messageId rating reason =>
      simp only [Store.ratable_of hsound]
      cases store.ratable event.user.id messageId with
      | error error => rfl
      | ok _ =>
          have hrow := Store.of_upsert_own store ⟨messageId, event.user.id, rating, reason⟩
          simp only [hrow]

/-- A request of another user leaves a user's part of the tables alone. -/
theorem handle_other {userId : Uuid} (hsound : Sound store)
    (hsessions : ∀ old ∈ store.sessions, old.id ≠ event.draw.session)
    (huser : event.user.id ≠ userId) :
    (handle store event).1.of userId = store.of userId := by
  have hforeign : ∀ {owner : Uuid}, owner = event.user.id → owner ≠ userId := by
    intro owner howner hmine
    exact huser (howner.symm.trans hmine)
  unfold handle
  cases hrequest : event.request with
  | createSession title => simp only [Store.of_newSession hsound, if_neg huser]
  | listSessions => rfl
  | getSession sessionId => rfl
  | deleteSession sessionId =>
      cases howned : store.conversations.ownedSession event.user sessionId with
      | error error => simp only [howned]
      | ok session =>
          obtain ⟨hfind, _, howner⟩ := Store.ownedSession_spec howned
          simp only [howned]
          exact Store.of_deleteSession_other hsound hfind (hforeign howner)
  | ask chosen message =>
      cases chosen with
      | none =>
          have howner := Store.owns_newSession userId hsessions
            (some (titleOf message))
          simp only [Store.of_beginTurn _ message howner, Store.of_newSession hsound,
            if_neg huser]
      | some sessionId =>
          cases howned : store.conversations.ownedSession event.user sessionId with
          | error error => simp only [howned]
          | ok session =>
              obtain ⟨hfind, _, hother⟩ := Store.ownedSession_spec howned
              have howner : store.owns userId sessionId = decide (event.user.id = userId) := by
                rw [Store.owns, hfind, decide_eq_false huser]
                exact decide_eq_false (hforeign hother)
              simp only [howned, Store.of_beginTurn store message howner, if_neg huser]
  | complete turn answer citations =>
      cases hpending : (store.turn? turn).filter (·.userId = event.user.id) with
      | none => simp only [hpending]
      | some pending =>
          obtain ⟨hmem, rfl, hasked⟩ := Store.turn?_spec hpending
          have hturns := Store.of_endTurn userId hsound hmem
          rw [if_neg (hforeign hasked)] at hturns
          cases hsession : store.session? pending.sessionId with
          | none => simp only [hpending, hsession, hturns]
          | some session =>
              have howner := (Store.turn_owner hsound hmem hsession).trans hasked
              have howns : (store.endTurn pending.id).owns userId pending.sessionId = false := by
                rw [Store.owns]
                change (store.session? pending.sessionId).any _ = false
                rw [hsession]
                exact decide_eq_false (hforeign howner)
              simp [hpending, hsession, Store.of_insertMessage, howns, hturns]
  | giveUp turn timedOut =>
      cases hpending : (store.turn? turn).filter (·.userId = event.user.id) with
      | none => simp only [hpending]
      | some pending =>
          obtain ⟨hmem, rfl, hasked⟩ := Store.turn?_spec hpending
          simp only [hpending, Store.of_endTurn userId hsound hmem, if_neg (hforeign hasked)]
  | rate messageId rating reason =>
      cases hratable : store.ratable event.user.id messageId with
      | error error => simp only [hratable]
      | ok _ =>
          simp only [hratable]
          exact Store.of_upsert_other store huser

/-- What a fresh event is answered. -/
def respond (store : Store) (event : Event) : Except HttpError Reply :=
  (handle (store.record event.draw) event).2

theorem step_own {userId : Uuid} {next : Store} (hsound : Sound store)
    (huser : event.user.id = userId) (hstep : step store event = some next) :
    step (store.of userId) event = some (next.of userId) ∧
      respond (store.of userId) event = respond store event := by
  unfold step at hstep
  split at hstep
  next hfresh =>
      cases hstep
      obtain ⟨hsessions, _, _⟩ := hsound.fresh hfresh
      have hown := handle_own (hsound.record hfresh) hsessions huser
      rw [Store.of_record, if_pos (hfresh.1.trans huser)] at hown
      have hfreshOf : Fresh (store.of userId) event :=
        ⟨hfresh.1, fun old hold => hfresh.2 old (List.mem_of_mem_filter hold)⟩
      rw [step, if_pos hfreshOf, respond, respond, hown]
      exact ⟨rfl, rfl⟩
  next => cases hstep

theorem step_other {userId : Uuid} {next : Store} (hsound : Sound store)
    (huser : event.user.id ≠ userId) (hstep : step store event = some next) :
    next.of userId = store.of userId := by
  unfold step at hstep
  split at hstep
  next hfresh =>
      cases hstep
      obtain ⟨hsessions, _, _⟩ := hsound.fresh hfresh
      rw [handle_other (hsound.record hfresh) hsessions huser, Store.of_record,
        if_neg fun hmine => huser (hfresh.1.symm.trans hmine)]
  next => cases hstep

/-- What a user sees and writes is as if the others had never used the service: the user's
own requests alone lead to the user's part of the tables, and each is answered in it as in
the whole. -/
theorem run_private {events : List Event} {finish : Store}
    (hrun : Transition.exec step {} events = some finish) (userId : Uuid) :
    Transition.exec step {} (events.filter (·.user.id = userId)) = some (finish.of userId) ∧
      ∀ event, event.user.id = userId → Fresh finish event →
        respond (finish.of userId) event = respond finish event := by
  constructor
  · refine Transition.exec_filter (motive := Sound) (·.of userId) (·.user.id = userId) ?_ ?_ ?_
      sound_empty hrun
    · intro state action next hsound hstep
      exact step_sound hsound hstep
    · intro state action next hsound hmine hstep
      exact (step_own hsound (of_decide_eq_true hmine) hstep).1
    · intro state action next hsound hother hstep
      exact step_other hsound (of_decide_eq_false hother) hstep
  · intro event huser hfresh
    have hstep : step finish event = some (handle (finish.record event.draw) event).1 := by
      rw [step, if_pos hfresh]
    exact (step_own (run_sound hrun) huser hstep).2

end

def noDocuments : Library where
  listed documentId := by simp
  foreign documentId document hdocument := by cases hdocument

/-- A question of the first user, answered and rated, between the requests of the second. -/
def sampleEvents : List Event :=
  [⟨⟨1, .user, none⟩, noDocuments, ⟨1, 11, 21, 31⟩, 0, .ask none "How often is the belt checked?"⟩,
    ⟨⟨2, .user, none⟩, noDocuments, ⟨2, 12, 22, 32⟩, 1, .ask none "Who checks the belt?"⟩,
    ⟨⟨1, .user, none⟩, noDocuments, ⟨1, 13, 23, 33⟩, 2, .complete 31 "Weekly." none⟩,
    ⟨⟨2, .user, none⟩, noDocuments, ⟨2, 14, 24, 34⟩, 3, .rate 23 "down" none⟩,
    ⟨⟨1, .user, none⟩, noDocuments, ⟨1, 15, 25, 35⟩, 4, .rate 23 "down" (some "vague")⟩,
    ⟨⟨1, .user, none⟩, noDocuments, ⟨1, 16, 26, 36⟩, 5, .rate 23 "up" none⟩,
    ⟨⟨2, .user, none⟩, noDocuments, ⟨2, 17, 27, 37⟩, 6, .deleteSession 12⟩]

theorem sample_runs : ∃ finish, Transition.exec step {} sampleEvents = some finish :=
  Option.isSome_iff_exists.mp (by decide +kernel)

theorem run_private_sample :
    ∃ finish, Transition.exec step {} sampleEvents = some finish ∧
      Transition.exec step {} (sampleEvents.filter (·.user.id = 2)) = some (finish.of 2) := by
  obtain ⟨finish, hrun⟩ := sample_runs
  exact ⟨finish, hrun, (run_private hrun 2).1⟩

end AgenticRag.Sessions
