import AgenticRag.Chat.Sessions

/-!
# Deleted sessions and the ratings that are shown

A session that has been deleted never comes back, also where a turn was running in it.
The rating that a session shows for an answer is the last one its owner has given.
-/

namespace AgenticRag.Sessions

open AgenticRag.Access (HttpError)
open AgenticRag.History

namespace Request

def deleted : Request → Option Uuid
  | .deleteSession sessionId => some sessionId
  | _ => none

def rated (messageId : Uuid) : Request → Option String
  | .rate id rating _ => if id = messageId then some rating else none
  | _ => none

end Request

section

variable {store : Store} {event : Event}

/-! ## Deleted sessions -/

/-- The sessions after an event are old ones or the one it opens. -/
theorem mem_handle_sessions {row : SessionRow} (hrow : row ∈ (handle store event).1.sessions) :
    row ∈ store.sessions ∨ row.id = event.draw.session := by
  have hopened : ∀ title, row ∈ store.sessions ++ [newSession event title] →
      row ∈ store.sessions ∨ row.id = event.draw.session := by
    intro title hmem
    rcases List.mem_append.mp hmem with hold | hnew
    · exact Or.inl hold
    · rw [List.mem_singleton.mp hnew]
      exact Or.inr rfl
  unfold handle at hrow
  split at hrow
  next title _ => exact hopened title hrow
  next => exact Or.inl hrow
  next => exact Or.inl hrow
  next sessionId _ =>
      split at hrow
      next => exact Or.inl hrow
      next => exact Or.inl (List.mem_of_mem_filter hrow)
  next sessionId message _ => split at hrow <;> exact Or.inl hrow
  next message _ => exact hopened (some (titleOf message)) hrow
  next turn answer citations _ =>
      split at hrow
      next => exact Or.inl hrow
      next => split at hrow <;> exact Or.inl hrow
  next turn timedOut _ => split at hrow <;> exact Or.inl hrow
  next messageId rating reason _ =>
      split at hrow
      next => exact Or.inl hrow
      next =>
          dsimp only [Store.upsert] at hrow
          split at hrow <;> exact Or.inl hrow

theorem handle_drawn (store : Store) (event : Event) :
    (handle store event).1.drawn = store.drawn := by
  unfold handle
  split
  next => rfl
  next => rfl
  next => rfl
  next => split <;> rfl
  next => split <;> rfl
  next => rfl
  next =>
      split
      next => rfl
      next => split <;> rfl
  next => split <;> rfl
  next =>
      split
      next => rfl
      next =>
          dsimp only [Store.upsert]
          split <;> rfl

/-- The identifier was drawn for a session that does not exist any more. -/
structure Gone (sessionId : Uuid) (store : Store) : Prop where
  drawn : ∃ draw ∈ store.drawn, draw.session = sessionId
  sessions : ∀ row ∈ store.sessions, row.id ≠ sessionId

theorem step_gone {sessionId : Uuid} {next : Store} (hgone : Gone sessionId store)
    (hstep : step store event = some next) : Gone sessionId next := by
  unfold step at hstep
  split at hstep
  next hfresh =>
      cases hstep
      obtain ⟨draw, hdraw, hdrawn⟩ := hgone.drawn
      constructor
      · rw [handle_drawn]
        exact ⟨draw, List.mem_append_left _ hdraw, hdrawn⟩
      · intro row hrow hid
        rcases mem_handle_sessions hrow with hold | hnew
        · exact hgone.sessions row hold hid
        · exact (hfresh.2 draw hdraw).1 (hdrawn.trans (hid.symm.trans hnew))
  next => cases hstep

/-- The event deletes the session. -/
def Deletes (sessionId : Uuid) (store : Store) (event : Event) : Prop :=
  event.request.deleted = some sessionId ∧ (respond store event).isOk = true

instance (sessionId : Uuid) (store : Store) (event : Event) :
    Decidable (Deletes sessionId store event) :=
  inferInstanceAs (Decidable (_ ∧ _))

/-- Whoever deletes a session owns it. -/
theorem Deletes.spec {sessionId : Uuid} (hdeletes : Deletes sessionId store event) :
    (∃ row, store.session? sessionId = some row ∧ row.userId = event.user.id) ∧
      (handle (store.record event.draw) event).1 =
        (store.record event.draw).deleteSession sessionId := by
  obtain ⟨hrequest, hok⟩ := hdeletes
  obtain ⟨user, library, draw, now, request⟩ := event
  cases request <;> cases hrequest
  cases howned : (store.record draw).conversations.ownedSession user sessionId with
  | error error =>
      simp only [respond, handle, howned] at hok
      cases hok
  | ok row =>
      obtain ⟨hfind, _, howner⟩ := Store.ownedSession_spec howned
      refine ⟨⟨row, hfind, howner⟩, ?_⟩
      simp only [handle, howned]

theorem step_eq_handle {next : Store} (hstep : step store event = some next) :
    Fresh store event ∧ next = (handle (store.record event.draw) event).1 := by
  unfold step at hstep
  split at hstep
  next hfresh =>
      cases hstep
      exact ⟨hfresh, rfl⟩
  next => cases hstep

theorem Deletes.gone {sessionId : Uuid} {next : Store} (hsound : Sound store)
    (hdeletes : Deletes sessionId store event) (hstep : step store event = some next) :
    Gone sessionId next := by
  obtain ⟨⟨row, hfind, _⟩, hhandle⟩ := hdeletes.spec
  obtain ⟨_, rfl⟩ := step_eq_handle hstep
  obtain ⟨hrow, hid⟩ := Keyed.find?_spec hfind
  obtain ⟨draw, hdraw, hdrawn, _⟩ := hsound.sessions row hrow
  constructor
  · rw [handle_drawn]
    exact ⟨draw, List.mem_append_left _ hdraw, hdrawn.trans hid⟩
  · rw [hhandle]
    intro kept hkept
    exact of_decide_eq_true (List.mem_filter.mp hkept).2

/-- A deleted session is gone for good from the tables: nobody finds it, no row of its messages
and ratings is left, and none is stored for a turn that was running in it. -/
theorem run_deleted {events : List Event} {finish : Store} {sessionId : Uuid}
    (hrun : Transition.exec step {} events = some finish)
    (hdeleted : Transition.Occurs step {} events (Deletes sessionId)) :
    (∀ user, finish.conversations.ownedSession user sessionId =
        .error ⟨404, "Session not found"⟩) ∧
      (∀ message ∈ finish.messages, message.sessionId ≠ sessionId) ∧
      (∀ row ∈ finish.feedback, ∃ message ∈ finish.messages,
        message.id = row.messageId ∧ message.sessionId ≠ sessionId) ∧
      ∀ event pending answer citations, finish.turn? pending.id = some pending →
        pending.sessionId = sessionId → event.request = .complete pending.id answer citations →
        (handle finish event).1.messages = finish.messages ∧
          (handle finish event).2 = .error serverError := by
  have hsound := run_sound hrun
  have hgone : Gone sessionId finish := by
    obtain ⟨before, event, after, state, rfl, hbefore, hdeletes⟩ := hdeleted
    obtain ⟨middle, hmiddle, hrest⟩ := Transition.exec_append_eq_some_iff.mp hrun
    rw [hbefore] at hmiddle
    cases hmiddle
    obtain ⟨next, hstep, hafter⟩ := Transition.exec_cons_eq_some_iff.mp hrest
    apply Transition.exec_invariant ?_ hafter (hdeletes.gone (run_sound hbefore) hstep)
    intro state event next hgone hstep
    exact step_gone hgone hstep
  have hnone : finish.session? sessionId = none := by
    rw [Store.session?, List.find?_eq_none]
    intro row hrow hid
    exact hgone.sessions row hrow (of_decide_eq_true hid)
  have hmessages : ∀ message ∈ finish.messages, message.sessionId ≠ sessionId := by
    intro message hmessage hid
    obtain ⟨session, hsession, hof⟩ := hsound.messages message hmessage
    exact hgone.sessions session hsession (hof.trans hid)
  refine ⟨?_, hmessages, ?_, ?_⟩
  · intro user
    simp only [Conversations.ownedSession, Store.conversations, hnone]
  · intro row hrow
    obtain ⟨message, hmessage, hid, _⟩ := hsound.feedback row hrow
    exact ⟨message, hmessage, hid, hmessages message hmessage⟩
  · intro event pending answer citations hturn hof hrequest
    unfold handle
    rw [hrequest]
    dsimp only
    rw [hturn]
    cases hfilter : (some pending).filter (fun turn => turn.userId = event.user.id) with
    | none => exact ⟨rfl, rfl⟩
    | some found =>
        obtain ⟨hfound, _⟩ := Option.filter_eq_some_iff.mp hfilter
        cases hfound
        dsimp only
        rw [hof, hnone]
        exact ⟨rfl, rfl⟩

theorem run_deleted_sample :
    ∃ finish, Transition.exec step {} sampleEvents = some finish ∧
      ∀ message ∈ finish.messages, message.sessionId ≠ 12 := by
  obtain ⟨finish, hrun⟩ := sample_runs
  have hdeleted : Transition.Occurs step {} sampleEvents (Deletes 12) := by decide +kernel
  exact ⟨finish, hrun, (run_deleted hrun hdeleted).2.1⟩

/-! ## Ratings -/

/-- The table holds this rating of the user for the message. -/
def Rated (userId messageId : Uuid) (rating : String) (store : Store) : Prop :=
  ∃ row ∈ store.feedback,
    row.userId = userId ∧ row.messageId = messageId ∧ row.rating = rating

/-- A session shows its owner the rating that the table holds. -/
theorem feedback_eq_some_iff (hsound : Sound store) (user : Access.User) (messageId : Uuid)
    (rating : String) :
    store.conversations.feedback user messageId = some rating ↔
      Rated user.id messageId rating store := by
  rw [Conversations.feedback, Store.conversations, Option.map_eq_some_iff]
  constructor
  · rintro ⟨found, hfind, hrating⟩
    have hkey := List.find?_some hfind
    obtain ⟨row, hrow, rfl⟩ := List.mem_map.mp (List.mem_of_find?_eq_some hfind)
    rw [Bool.and_eq_true, decide_eq_true_eq, decide_eq_true_eq] at hkey
    exact ⟨row, hrow, hkey.1, hkey.2, hrating⟩
  · rintro ⟨row, hrow, huser, hmessage, hrating⟩
    have hfound : ∃ found, (store.feedback.map fun row : FeedbackRow =>
        (⟨row.userId, row.messageId, row.rating⟩ : Rating)).find? (fun row =>
          row.userId = user.id && row.messageId = messageId) = some found := by
      rw [← Option.isSome_iff_exists, List.find?_isSome]
      exact ⟨_, List.mem_map_of_mem hrow, by simp [huser, hmessage]⟩
    obtain ⟨found, hfind⟩ := hfound
    have hkey := List.find?_some hfind
    obtain ⟨other, hother, rfl⟩ := List.mem_map.mp (List.mem_of_find?_eq_some hfind)
    rw [Bool.and_eq_true, decide_eq_true_eq, decide_eq_true_eq] at hkey
    have hsame : other = row := hsound.rated other hother row hrow
      (Prod.ext (hkey.2.trans hmessage.symm) (hkey.1.trans huser.symm))
    exact ⟨_, hfind, by rw [hsame, hrating]⟩

theorem rated_upsert (row : FeedbackRow) (userId messageId : Uuid) (rating : String) :
    Rated userId messageId rating (store.upsert row) ↔
      if row.userId = userId ∧ row.messageId = messageId then row.rating = rating
      else Rated userId messageId rating store := by
  by_cases hkey : row.userId = userId ∧ row.messageId = messageId
  · obtain ⟨rfl, rfl⟩ := hkey
    rw [if_pos ⟨rfl, rfl⟩]
    unfold Store.upsert
    split
    next hany =>
        constructor
        · rintro ⟨found, hfound, huser, hmessage, hrating⟩
          obtain ⟨old, hold, rfl⟩ := List.mem_map.mp hfound
          split at hrating
          next => exact hrating
          next hother =>
              rw [if_neg hother] at huser hmessage
              simp [huser, hmessage] at hother
        · intro hrating
          obtain ⟨old, hold, hsame⟩ := List.any_eq_true.mp hany
          exact ⟨row, List.mem_map.mpr ⟨old, hold, if_pos hsame⟩, rfl, rfl, hrating⟩
    next hnone =>
        constructor
        · rintro ⟨found, hfound, huser, hmessage, hrating⟩
          rcases List.mem_append.mp hfound with hold | hnew
          · refine absurd (List.any_eq_true.mpr ⟨found, hold, ?_⟩) hnone
            simp [huser, hmessage]
          · rw [← List.mem_singleton.mp hnew]
            exact hrating
        · intro hrating
          exact ⟨row, List.mem_append_right _ (List.mem_singleton_self _), rfl, rfl, hrating⟩
  · rw [if_neg hkey]
    unfold Store.upsert
    split
    next =>
        constructor
        · rintro ⟨found, hfound, huser, hmessage, hrating⟩
          obtain ⟨old, hold, rfl⟩ := List.mem_map.mp hfound
          split at huser
          next hsame =>
              rw [if_pos hsame] at hmessage
              exact absurd ⟨huser, hmessage⟩ hkey
          next hother =>
              rw [if_neg hother] at hmessage hrating
              exact ⟨old, hold, huser, hmessage, hrating⟩
        · rintro ⟨old, hold, rfl, rfl, hrating⟩
          refine ⟨old, List.mem_map.mpr ⟨old, hold, if_neg ?_⟩, rfl, rfl, hrating⟩
          rw [Bool.and_eq_true, decide_eq_true_eq, decide_eq_true_eq]
          rintro ⟨hmessage, huser⟩
          exact hkey ⟨huser.symm, hmessage.symm⟩
    next =>
        constructor
        · rintro ⟨found, hfound, huser, hmessage, hrating⟩
          rcases List.mem_append.mp hfound with hold | hnew
          · exact ⟨found, hold, huser, hmessage, hrating⟩
          · rw [List.mem_singleton.mp hnew] at huser hmessage
            exact absurd ⟨huser, hmessage⟩ hkey
        · rintro ⟨old, hold, hrest⟩
          exact ⟨old, List.mem_append_left _ hold, hrest⟩

theorem rated_deleteSession (sessionId userId messageId : Uuid) (rating : String) :
    Rated userId messageId rating (store.deleteSession sessionId) ↔
      Rated userId messageId rating store ∧
        ∀ message ∈ store.messages, message.id = messageId → message.sessionId ≠ sessionId := by
  constructor
  · rintro ⟨row, hrow, huser, hmessage, hrating⟩
    obtain ⟨hmem, hall⟩ := List.mem_filter.mp hrow
    refine ⟨⟨row, hmem, huser, hmessage, hrating⟩, ?_⟩
    intro message hin hid
    have hkept := List.all_eq_true.mp hall message hin
    simpa [hid, hmessage] using hkept
  · rintro ⟨⟨row, hrow, huser, hmessage, hrating⟩, hall⟩
    refine ⟨row, List.mem_filter.mpr ⟨hrow, ?_⟩, huser, hmessage, hrating⟩
    rw [List.all_eq_true]
    intro message hin
    by_cases hid : message.id = row.messageId
    · simp [hall message hin (hid.trans hmessage)]
    · simp [hid]

/-- The event rates the message. -/
def Rates (userId messageId : Uuid) (rating : String) (store : Store) (event : Event) : Prop :=
  event.user.id = userId ∧ event.request.rated messageId = some rating ∧
    (respond store event).isOk = true

/-- The event replaces the rating by another one, or deletes the session of the message. -/
def Overrides (userId messageId : Uuid) (rating : String) (store : Store) (event : Event) :
    Prop :=
  (∃ other, other ≠ rating ∧ Rates userId messageId other store event) ∨
    ∃ sessionId, Deletes sessionId store event ∧
      ∃ message ∈ store.messages, message.id = messageId ∧ message.sessionId = sessionId

/-- Only an accepted rating and an accepted deletion change the ratings. -/
theorem handle_feedback (store : Store) (event : Event) :
    (handle store event).1.feedback =
      match event.request, (handle store event).2 with
      | .rate messageId rating reason, .ok _ =>
          (store.upsert ⟨messageId, event.user.id, rating, reason⟩).feedback
      | .deleteSession sessionId, .ok _ => (store.deleteSession sessionId).feedback
      | _, _ => store.feedback := by
  unfold handle
  cases event.request with
  | createSession title => rfl
  | listSessions => rfl
  | getSession sessionId => rfl
  | deleteSession sessionId =>
      dsimp only
      cases store.conversations.ownedSession event.user sessionId <;> rfl
  | ask chosen message =>
      cases chosen with
      | none => rfl
      | some sessionId =>
          dsimp only
          cases store.conversations.ownedSession event.user sessionId <;> rfl
  | complete turn answer citations =>
      dsimp only
      split
      next => rfl
      next => split <;> rfl
  | giveUp turn timedOut =>
      dsimp only
      split <;> rfl
  | rate messageId rating reason =>
      dsimp only
      cases store.ratable event.user.id messageId <;> rfl

theorem upsert_record (store : Store) (draw : Draw) (row : FeedbackRow) :
    (store.record draw).upsert row = (store.upsert row).record draw := by
  cases hany : store.feedback.any (fun old =>
      old.messageId = row.messageId && old.userId = row.userId) with
  | true => simp only [Store.upsert, Store.record, hany, if_true]
  | false => simp only [Store.upsert, Store.record, hany, Bool.false_eq_true, if_false]

/-- A rating afterwards, by the request and its response. -/
theorem rated_handle (store : Store) (event : Event) (userId messageId : Uuid)
    (rating : String) :
    Rated userId messageId rating (handle (store.record event.draw) event).1 ↔
      match event.request, respond store event with
      | .rate id other reason, .ok _ =>
          Rated userId messageId rating (store.upsert ⟨id, event.user.id, other, reason⟩)
      | .deleteSession sessionId, .ok _ =>
          Rated userId messageId rating (store.deleteSession sessionId)
      | _, _ => Rated userId messageId rating store := by
  have hfeedback := handle_feedback (store.record event.draw) event
  change _ = match event.request, respond store event with
    | .rate _ _ _, .ok _ => _
    | .deleteSession _, .ok _ => _
    | _, _ => _ at hfeedback
  rw [Rated, hfeedback]
  split
  next id other reason _ _ _ =>
      rw [upsert_record, Rated]
      rfl
  next => rfl
  next => rfl

/-- What one event does to a rating. -/
theorem step_rated {userId messageId : Uuid} {rating : String} {next : Store}
    (hstep : step store event = some next) :
    (Rates userId messageId rating store event → Rated userId messageId rating next) ∧
      (Overrides userId messageId rating store event → ¬ Rated userId messageId rating next) ∧
      (¬ Rates userId messageId rating store event →
        ¬ Overrides userId messageId rating store event →
        (Rated userId messageId rating next ↔ Rated userId messageId rating store)) := by
  obtain ⟨_, rfl⟩ := step_eq_handle hstep
  rw [rated_handle]
  cases hresponse : respond store event with
  | error error =>
      have hrates : ∀ other, ¬ Rates userId messageId other store event := by
        rintro other ⟨_, _, hok⟩
        rw [hresponse] at hok
        cases hok
      have hdeletes : ∀ sessionId, ¬ Deletes sessionId store event := by
        rintro sessionId ⟨_, hok⟩
        rw [hresponse] at hok
        cases hok
      simp only [Overrides, hrates, hdeletes]
      cases event.request <;> simp
  | ok reply =>
      have hok : (respond store event).isOk = true := by
        rw [hresponse]
        rfl
      simp only [Overrides, Rates, Deletes, hok, and_true]
      cases event.request with
      | rate id other reason =>
          simp only [Request.rated, Request.deleted, rated_upsert]
          by_cases hkey : event.user.id = userId ∧ id = messageId
          · obtain ⟨rfl, rfl⟩ := hkey
            simp only [and_self, if_true, true_and, Option.some.injEq]
            refine ⟨fun hsame => hsame, ?_, ?_⟩
            · rintro (⟨last, hlast, rfl⟩ | ⟨_, hdeleted, _⟩)
              · exact hlast
              · cases hdeleted
            · intro hother hnone
              exact absurd (Or.inl ⟨other, hother, rfl⟩) hnone
          · have hnot : ∀ given, ¬ (event.user.id = userId ∧
                (if id = messageId then some other else none) = some given) := by
              rintro given ⟨huser, hgiven⟩
              split at hgiven
              next hid => exact hkey ⟨huser, hid⟩
              next => cases hgiven
            rw [if_neg hkey]
            refine ⟨fun hrates => absurd hrates (hnot rating), ?_, fun _ _ => Iff.rfl⟩
            rintro (⟨last, _, hlast⟩ | ⟨_, hdeleted, _⟩)
            · exact absurd hlast (hnot last)
            · cases hdeleted
      | deleteSession sessionId =>
          simp only [Request.rated, Request.deleted, rated_deleteSession]
          refine ⟨?_, ?_, ?_⟩
          · rintro ⟨_, hrated⟩
            cases hrated
          · rintro (⟨_, _, _, hrated⟩ | ⟨other, hother, message, hmessage, hid, hof⟩) ⟨_, hkept⟩
            · cases hrated
            · cases hother
              exact hkept message hmessage hid hof
          · intro _ hnone
            constructor
            · exact And.left
            · intro hrated
              refine ⟨hrated, ?_⟩
              intro message hmessage hid hof
              exact hnone (Or.inr ⟨sessionId, rfl, message, hmessage, hid, hof⟩)
      | createSession | listSessions | getSession | ask | complete | giveUp =>
          simp [Request.rated, Request.deleted]

/-- The rating that a session shows its owner for a message is the one the owner has given
last, unless the session has been deleted since. -/
theorem run_rating_iff {events : List Event} {finish : Store}
    (hrun : Transition.exec step {} events = some finish) (user : Access.User)
    (messageId : Uuid) (rating : String) :
    finish.conversations.feedback user messageId = some rating ↔
      Transition.Unanswered step {} events (Rates user.id messageId rating)
        (Overrides user.id messageId rating) := by
  have hlast : Rated user.id messageId rating finish ↔
      (Rated user.id messageId rating {} ∧
          ¬ Transition.Occurs step {} events (Overrides user.id messageId rating)) ∨
        Transition.Unanswered step {} events (Rates user.id messageId rating)
          (Overrides user.id messageId rating) := by
    refine Transition.holds_iff_unanswered ?_ ?_ ?_ hrun
    · intro past state event next _ hstep hrates
      exact (step_rated hstep).1 hrates
    · intro past state event next _ hstep hoverrides
      exact (step_rated hstep).2.1 hoverrides
    · intro past state event next _ hstep hrates hoverrides
      exact (step_rated hstep).2.2 hrates hoverrides
  have hempty : ¬ Rated user.id messageId rating {} := by
    rintro ⟨row, hrow, _⟩
    cases hrow
  rw [feedback_eq_some_iff (run_sound hrun), hlast]
  simp only [hempty, false_and, false_or]

end

theorem run_rating_iff_sample :
    ∃ finish, Transition.exec step {} sampleEvents = some finish ∧
      (finish.conversations.feedback ⟨1, .user, none⟩ 23 = some "up" ↔
        Transition.Unanswered step {} sampleEvents (Rates 1 23 "up") (Overrides 1 23 "up")) := by
  obtain ⟨finish, hrun⟩ := sample_runs
  exact ⟨finish, hrun, run_rating_iff hrun ⟨1, .user, none⟩ 23 "up"⟩

end AgenticRag.Sessions
