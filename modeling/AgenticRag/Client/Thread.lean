import AgenticRag.Client.Desk

/-!
# What the thread shows

The messages of the thread as questions with their answers, and why an answer never comes
under the question of another run or into the thread of another session.
-/

namespace AgenticRag.ChatApp

open AgenticRag.Client (Text trim)
open Transition

variable {κ : Type}

/-! ## Turns -/

/-- A question and its answer, where there are any. -/
structure Turn (κ : Type) where
  q : Option (Msg κ)
  a : Option (Msg κ)

/-- One round of the loop in `turns`. -/
def addTurn (out : List (Turn κ)) (message : Msg κ) : List (Turn κ) :=
  if message.role = .user then out ++ [⟨some message, none⟩]
  else
    match out.getLast? with
    | some ⟨question, none⟩ => out.dropLast ++ [⟨question, some message⟩]
    | some ⟨_, some _⟩ | none => out ++ [⟨none, some message⟩]

/-- `turns` -/
def turns (messages : List (Msg κ)) : List (Turn κ) :=
  messages.foldl addTurn []

theorem turns_concat (messages : List (Msg κ)) (message : Msg κ) :
    turns (messages ++ [message]) = addTurn (turns messages) message := by
  rw [turns, List.foldl_append]
  rfl

theorem addTurn_user (out : List (Turn κ)) {message : Msg κ} (hrole : message.role = .user) :
    addTurn out message = out ++ [⟨some message, none⟩] :=
  if_pos hrole

/-- An answer goes to the question that waits for it. -/
theorem addTurn_waiting (front : List (Turn κ)) (question : Option (Msg κ)) {message : Msg κ}
    (hrole : message.role = .assistant) :
    addTurn (front ++ [⟨question, none⟩]) message = front ++ [⟨question, some message⟩] := by
  have hnot : message.role ≠ .user := by
    rw [hrole]
    decide
  rw [addTurn, if_neg hnot, List.getLast?_concat]
  simp

theorem mem_addTurn {out : List (Turn κ)} {message : Msg κ} {turn : Turn κ}
    (hrole : message.role = .assistant) (hturn : turn ∈ addTurn out message) :
    turn ∈ out ∨ turn.a = some message := by
  have hnot : message.role ≠ .user := by
    rw [hrole]
    decide
  rw [addTurn, if_neg hnot] at hturn
  split at hturn
  next =>
      rcases List.mem_append.mp hturn with hold | hnew
      · exact Or.inl (List.mem_of_mem_dropLast hold)
      · rw [List.mem_singleton.mp hnew]
        exact Or.inr rfl
  next =>
      rcases List.mem_append.mp hturn with hold | hnew
      · exact Or.inl hold
      · rw [List.mem_singleton.mp hnew]
        exact Or.inr rfl
  next =>
      rcases List.mem_append.mp hturn with hold | hnew
      · exact Or.inl hold
      · rw [List.mem_singleton.mp hnew]
        exact Or.inr rfl

section

variable (belongs : Uuid → Text → Msg κ → Prop)

/-- A complete answer of the turn is one to its question in this session. -/
def Fits (sid : Option Uuid) (turn : Turn κ) : Prop :=
  ∀ question answer, turn.q = some question → turn.a = some answer → answer.stopped = false →
    ∃ session, sid = some session ∧ belongs session question.content answer

/-- The server keeps questions and answers of a session together. -/
structure Faithful (server : Server κ) : Prop where
  stored : ∀ id messages, server.stored id messages = true →
    ∀ turn ∈ turns messages, Fits belongs (some id) turn
  answers : ∀ session question payload acc, server.answers session question payload = true →
    belongs (session.getD payload.sessionId) question (Desk.answerOf payload acc)

/-- Every answer that is shown fits; the question of the newest run is the last one shown,
in the session it was asked in; the session that is opened is the one that is named. -/
structure Shown (desk : Desk κ) : Prop where
  turns : ∀ turn ∈ turns desk.messages, Fits belongs desk.sid turn
  awaited : ∀ ask ∈ desk.asks, ask.my = desk.reqId → ask.answered = false →
    desk.sid = ask.sessionAtSend ∧ ∃ front question,
      ChatApp.turns desk.messages = front ++ [⟨some question, none⟩] ∧
        question.content = ask.question
  opening : ∀ opening ∈ desk.openings, opening.my = desk.reqId → desk.sid = some opening.id

end

section

variable {belongs : Uuid → Text → Msg κ → Prop} {server : Server κ} {desk next : Desk κ}

theorem fits_open (sid : Option Uuid) (question : Option (Msg κ)) :
    Fits belongs sid ⟨question, none⟩ := by
  intro _ _ _ hanswer
  cases hanswer

namespace Shown

/-- The thread stays, and the runs go on without a done event. -/
theorem keep (hshown : Shown belongs desk) (hmessages : next.messages = desk.messages)
    (hsid : next.sid = desk.sid) (hreqId : next.reqId = desk.reqId)
    (hopenings : next.openings ⊆ desk.openings)
    (hasks : ∀ ask ∈ next.asks, ask.my = desk.reqId → ask.answered = false →
      ∃ old ∈ desk.asks, old.my = ask.my ∧ old.answered = false ∧
        old.sessionAtSend = ask.sessionAtSend ∧ old.question = ask.question) :
    Shown belongs next := by
  constructor
  · rw [hmessages, hsid]
    exact hshown.turns
  · rw [hmessages, hsid, hreqId]
    intro ask hask hmy hopen
    obtain ⟨old, hold, holdMy, holdOpen, hsession, hquestion⟩ := hasks ask hask hmy hopen
    rw [← hsession, ← hquestion]
    exact hshown.awaited old hold (holdMy.trans hmy) holdOpen
  · rw [hsid, hreqId]
    intro opening hopening
    exact hshown.opening opening (hopenings hopening)

/-- With a newer number no run is awaited. -/
theorem renew (hnumbered : Numbered desk) (hasks : next.asks = desk.asks)
    (hopenings : next.openings = desk.openings) (hreqId : desk.reqId < next.reqId)
    (hturns : ∀ turn ∈ ChatApp.turns next.messages, Fits belongs next.sid turn) :
    Shown belongs next := by
  constructor
  · exact hturns
  · rw [hasks]
    intro ask hask hmy
    have hbound := hnumbered.asks ask hask
    omega
  · rw [hopenings]
    intro opening hopening hmy
    have hbound := hnumbered.openings opening hopening
    omega

theorem newQuestion (hnumbered : Numbered desk) (busy : Bool) :
    Shown belongs (desk.newQuestion busy) := by
  cases busy with
  | true =>
      refine renew hnumbered rfl rfl (by simp [Desk.newQuestion, Desk.abortStream]) ?_
      intro turn hturn
      cases hturn
  | false =>
      refine renew hnumbered rfl rfl (by simp [Desk.newQuestion]) ?_
      intro turn hturn
      cases hturn

theorem openSession (hnumbered : Numbered desk) (id : Uuid) :
    Shown belongs (desk.openSession id) := by
  constructor
  · rw [openSession_messages]
    intro turn hturn
    cases hturn
  · rw [openSession_asks]
    intro ask hask hmy
    have hbound := hnumbered.asks ask hask
    have hlater := openSession_reqId desk id
    omega
  · rw [openSession_openings, openSession_sid]
    intro opening hopening hmy
    rcases List.mem_append.mp hopening with hold | hnew
    · have hbound := hnumbered.openings opening hold
      have hlater := openSession_reqId desk id
      omega
    · rw [List.mem_singleton.mp hnew]

theorem opened (hshown : Shown belongs desk) (hnumbered : Numbered desk)
    (hfaithful : Faithful belongs server) {opening : Opening} (hopening : opening ∈ desk.openings)
    {result : Except Text (List (Msg κ))}
    (hstored : ∀ messages, result = .ok messages → server.stored opening.id messages = true) :
    Shown belongs (desk.opened opening.my result) := by
  have hsubset : desk.openings.filter (·.my ≠ opening.my) ⊆ desk.openings :=
    fun found hfound => List.mem_of_mem_filter hfound
  have hsame : ∀ ask ∈ desk.asks, ask.my = desk.reqId → ask.answered = false →
      ∃ old ∈ desk.asks, old.my = ask.my ∧ old.answered = false ∧
        old.sessionAtSend = ask.sessionAtSend ∧ old.question = ask.question :=
    fun ask hask _ hopen => ⟨ask, hask, rfl, hopen, rfl, rfl⟩
  unfold Desk.opened
  dsimp only
  split
  next hcurrent =>
      cases result with
      | error message => exact hshown.keep rfl rfl rfl hsubset hsame
      | ok messages =>
          have hsid := hshown.opening opening hopening hcurrent.symm
          refine ⟨?_, ?_, fun found hfound => hshown.opening found (hsubset hfound)⟩
          · dsimp only
            rw [hsid]
            exact hfaithful.stored opening.id messages (hstored messages rfl)
          · intro ask hask hmy
            exact absurd (hmy.trans hcurrent) (hnumbered.apart ask hask opening hopening)
  next => exact hshown.keep rfl rfl rfl hsubset hsame

theorem ask (hshown : Shown belongs desk) (hnumbered : Numbered desk) (text : Text) :
    Shown belongs (desk.ask text) := by
  unfold Desk.ask
  dsimp only
  split
  next => exact hshown
  next =>
      have hturns : ChatApp.turns (desk.messages ++ [{ role := .user, content := trim text }]) =
          ChatApp.turns desk.messages ++
            [⟨some { role := .user, content := trim text }, none⟩] := by
        rw [turns_concat]
        exact addTurn_user _ rfl
      constructor
      · dsimp only
        rw [hturns]
        intro turn hturn
        rcases List.mem_append.mp hturn with hold | hnew
        · exact hshown.turns turn hold
        · rw [List.mem_singleton.mp hnew]
          exact fits_open desk.sid _
      · intro ask hask hmy hopen
        rcases List.mem_append.mp hask with hold | hnew
        · have hbound := hnumbered.asks ask hold
          dsimp only at hmy
          omega
        · rw [List.mem_singleton.mp hnew]
          exact ⟨rfl, _, _, hturns, rfl⟩
      · intro opening hopening hmy
        have hbound := hnumbered.openings opening hopening
        dsimp only at hmy
        omega

/-- A run goes on under its question and its session. -/
theorem updateAsk (hshown : Shown belongs desk) (my : ℕ) (change : Ask → Ask)
    (hmy : ∀ ask, (change ask).my = ask.my)
    (hanswered : ∀ ask, (change ask).answered = ask.answered)
    (hsession : ∀ ask, (change ask).sessionAtSend = ask.sessionAtSend)
    (hquestion : ∀ ask, (change ask).question = ask.question)
    (hmessages : next.messages = desk.messages) (hsid : next.sid = desk.sid)
    (hreqId : next.reqId = desk.reqId) (hopenings : next.openings = desk.openings)
    (hasks : next.asks = (desk.updateAsk my change).asks) : Shown belongs next := by
  apply hshown.keep hmessages hsid hreqId
  · rw [hopenings]
    exact List.Subset.refl _
  · rw [hasks]
    intro ask hask hcurrent hopen
    obtain ⟨old, hold, rfl⟩ := List.mem_map.mp hask
    split at hcurrent
    next hsame =>
        rw [if_pos hsame] at hopen ⊢
        rw [hmy] at hcurrent
        rw [hanswered] at hopen
        exact ⟨old, hold, (hmy old).symm, hopen, (hsession old).symm, (hquestion old).symm⟩
    next hother =>
        rw [if_neg hother] at hopen ⊢
        exact ⟨old, hold, rfl, hopen, rfl, rfl⟩

theorem onDone (hshown : Shown belongs desk) (hnumbered : Numbered desk)
    (hfaithful : Faithful belongs server) {ask : Ask} {payload : Done κ} (hask : ask ∈ desk.asks)
    (hopen : ask.answered = false)
    (hanswers : server.answers ask.sessionAtSend ask.question payload = true) :
    Shown belongs (desk.onDone ask payload) := by
  unfold Desk.onDone
  dsimp only
  split
  next hcurrent =>
      obtain ⟨hsid, front, question, hturns, hquestion⟩ :=
        hshown.awaited ask hask hcurrent.symm hopen
      have hfinal : (if ask.sessionAtSend = none then some payload.sessionId else desk.sid) =
          some (ask.sessionAtSend.getD payload.sessionId) := by
        cases hsession : ask.sessionAtSend with
        | none => rfl
        | some session =>
            rw [hsid, hsession]
            rfl
      constructor
      · dsimp only
        rw [hfinal, turns_concat, hturns, addTurn_waiting front (some question) rfl]
        intro turn hturn
        rcases List.mem_append.mp hturn with hold | hnew
        · intro asked answer hasked hanswer hstopped
          have hmem : turn ∈ ChatApp.turns desk.messages := by
            rw [hturns]
            exact List.mem_append_left _ hold
          obtain ⟨session, hsession, hbelongs⟩ :=
            hshown.turns turn hmem asked answer hasked hanswer hstopped
          rw [hsid] at hsession
          rw [hsession]
          exact ⟨session, rfl, hbelongs⟩
        · rw [List.mem_singleton.mp hnew]
          intro asked answer hasked hanswer _
          cases hasked
          cases hanswer
          rw [hquestion]
          exact ⟨_, rfl, hfaithful.answers ask.sessionAtSend ask.question payload ask.acc hanswers⟩
      · intro found hfound hmy hfoundOpen
        obtain ⟨old, hold, rfl⟩ := List.mem_map.mp hfound
        split at hfoundOpen
        next => cases hfoundOpen
        next hother =>
            rw [if_neg hother] at hmy
            exact absurd (hmy.trans hcurrent) hother
      · intro opening hopening hmy
        exact absurd (hcurrent.symm.trans hmy.symm) (hnumbered.apart ask hask opening hopening)
  next hstale =>
      have hother : ∀ found ∈ (desk.updateAsk ask.my Ask.answer).asks,
          found.my = desk.reqId → found.answered = false → found ∈ desk.asks := by
        intro found hfound hmy _
        obtain ⟨old, hold, rfl⟩ := List.mem_map.mp hfound
        split at hmy
        next hsame => exact absurd (hmy.symm.trans hsame) hstale
        next hdiffers =>
            rw [if_neg hdiffers]
            exact hold
      refine hshown.keep rfl rfl rfl (List.Subset.refl _) ?_
      intro found hfound hmy hfoundOpen
      exact ⟨found, hother found hfound hmy hfoundOpen, rfl, hfoundOpen, rfl, rfl⟩

theorem stop (hshown : Shown belongs desk) (hnumbered : Numbered desk) :
    Shown belongs desk.stop := by
  refine renew hnumbered rfl rfl (Nat.lt_succ_self _) ?_
  intro turn hturn
  rw [Desk.stop, turns_concat] at hturn
  rcases mem_addTurn rfl hturn with hold | hstopped
  · exact hshown.turns turn hold
  · intro _ answer _ hanswer hcomplete
    rw [hstopped] at hanswer
    cases hanswer
    cases hcomplete

end Shown

theorem step_shown {event : Event κ} (hfaithful : Faithful belongs server)
    (hnumbered : Numbered desk) (hshown : Shown belongs desk)
    (hstep : step server desk event = some next) : Shown belongs next := by
  cases event with
  | openSession id =>
      cases hstep
      exact Shown.openSession hnumbered id
  | opened my result =>
      obtain ⟨opening, hopening, rfl, rfl, hstored⟩ := step_opened hstep
      exact hshown.opened hnumbered hfaithful hopening hstored
  | newQuestion =>
      cases hstep
      exact Shown.newQuestion hnumbered desk.busy
  | deleteSession target =>
      cases hstep
      exact ⟨hshown.turns, hshown.awaited, hshown.opening⟩
  | deleted deletion result =>
      obtain ⟨_, rfl⟩ := step_deleted hstep
      unfold Desk.deleted
      cases result with
      | error message => exact ⟨hshown.turns, hshown.awaited, hshown.opening⟩
      | ok _ =>
          dsimp only
          split
          next => exact Shown.newQuestion (hnumbered.unlist deletion) deletion.busy
          next => exact ⟨hshown.turns, hshown.awaited, hshown.opening⟩
  | ask text =>
      cases hstep
      exact hshown.ask hnumbered text
  | onToken my token =>
      obtain ⟨ask, _, rfl⟩ := Option.map_eq_some_iff.mp hstep
      unfold Desk.onToken
      split
      next =>
          exact hshown.updateAsk ask.my (Ask.receive token) (fun _ => rfl)
            (fun _ => rfl) (fun _ => rfl) (fun _ => rfl) rfl rfl rfl rfl rfl
      next => exact hshown
  | onDone my payload =>
      obtain ⟨ask, hrunning, hopen, hanswers, rfl⟩ := step_onDone hstep
      exact hshown.onDone hnumbered hfaithful (running?_spec hrunning).1 hopen hanswers
  | onError my message =>
      obtain ⟨ask, _, rfl⟩ := Option.map_eq_some_iff.mp hstep
      unfold Desk.onError
      split
      next => exact hshown
      next =>
          split
          next => exact ⟨hshown.turns, hshown.awaited, hshown.opening⟩
          next => exact hshown
  | ended my =>
      obtain ⟨_, _, rfl⟩ := Option.map_eq_some_iff.mp hstep
      exact hshown.updateAsk my Ask.close (fun _ => rfl) (fun _ => rfl)
        (fun _ => rfl) (fun _ => rfl) rfl rfl rfl rfl rfl
  | stop =>
      obtain ⟨_, rfl⟩ := step_stop hstep
      exact hshown.stop hnumbered
  | listed result =>
      cases result <;> cases hstep <;> exact ⟨hshown.turns, hshown.awaited, hshown.opening⟩

/-- However clicks and responses interleave, every complete answer that is shown is one to
the question above it, in the session that the thread names. -/
theorem run_shown {events : List (Event κ)} (hfaithful : Faithful belongs server)
    (hrun : exec (step server) {} events = some desk) :
    ∀ turn ∈ turns desk.messages, Fits belongs desk.sid turn := by
  have hstart : Numbered ({} : Desk κ) ∧ Shown belongs ({} : Desk κ) := by
    refine ⟨?_, ?_⟩ <;> constructor <;> intro _ hmem <;> cases hmem
  have hfinish := exec_invariant (motive := fun state => Numbered state ∧ Shown belongs state)
    ?_ hrun hstart
  · exact hfinish.2.turns
  · rintro state event next ⟨hnumbered, hshown⟩ hstep
    exact ⟨step_numbered hnumbered hstep, step_shown hfaithful hnumbered hshown hstep⟩

end

theorem sampleServer_faithful :
    Faithful (fun session question _ => session = 7 ∧ question = "Wie oft?".toList)
      sampleServer := by
  constructor
  · intro id messages hstored turn hturn
    simp only [sampleServer, Bool.and_eq_true, decide_eq_true_eq] at hstored
    rw [hstored.2] at hturn
    cases hturn
  · intro session question payload acc hanswers
    simp only [sampleServer, Bool.and_eq_true, decide_eq_true_eq] at hanswers
    obtain ⟨⟨hsession, hpayload⟩, hquestion⟩ := hanswers
    rw [hpayload]
    exact ⟨hsession, hquestion⟩

theorem run_shown_sample :
    ∃ desk, exec (step sampleServer) {} sampleEvents = some desk ∧
      ∀ turn ∈ turns desk.messages,
        Fits (fun session question _ => session = 7 ∧ question = "Wie oft?".toList)
          desk.sid turn := by
  obtain ⟨desk, hrun⟩ := sample_runs
  exact ⟨desk, hrun, run_shown sampleServer_faithful hrun⟩

end AgenticRag.ChatApp
