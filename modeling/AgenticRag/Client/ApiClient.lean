import AgenticRag.Client.Markdown
import AgenticRag.Core.Positions
import AgenticRag.Core.Transition

/-!
# The session of the page

`authFetch` and `refreshTokens` of the client for any number of calls at once.  The
page runs a call until it awaits the network or a promise; one step is what the event
loop runs between two of these points.  Access tokens are opaque to the page.
-/

namespace AgenticRag.ApiClient

open AgenticRag.Client (Text)
open AgenticRag.Positions

variable {T : Type*}

/-- The functions of `api` that change the access token, and all the others. -/
inductive Caller where
  | login
  | logout
  | plain (path : Text)
  deriving DecidableEq

def Caller.path : Caller → Text
  | .login => "/auth/login".toList
  | .logout => "/auth/logout".toList
  | .plain path => path

/-- The argument `retry` of the first `authFetch`. -/
def Caller.retry : Caller → Bool
  | .logout => false
  | _ => true

/-- `path.startsWith("/auth/")` -/
def Caller.isAuth (caller : Caller) : Bool :=
  "/auth/".toList.isPrefixOf caller.path

/-- A 401 makes this caller refresh. -/
def Caller.refreshes (caller : Caller) : Bool :=
  caller.retry && !caller.isAuth

/-- The status and the JSON body, of which only the `access_token` is read; none where
there is no such body. -/
structure Response (T : Type*) where
  status : ℕ
  body : Option (Option T) := none
  deriving DecidableEq

/-- `res.ok` -/
def Response.ok (response : Response T) : Bool :=
  200 ≤ response.status ∧ response.status < 300

/-- What `authFetch` throws: the `AbortError`, or `ApiError` with status 0. -/
inductive Failure where
  | aborted
  | unreachable
  deriving DecidableEq

/-- Where a call stands. -/
inductive Phase (T : Type*) where
  /-- its `fetch` -/
  | fetching (bearer : Option T) (retry : Bool)
  /-- `await refreshTokens()`, with the response that was a 401 -/
  | awaiting (refresh : ℕ) (response : Response T)
  /-- `authFetch` has returned or thrown, and its caller goes on -/
  | returned (outcome : Except Failure (Response T))
  | done (outcome : Except Failure (Response T))
  deriving DecidableEq

/-- Where a run of the function in `refreshTokens` stands. -/
inductive Refresh where
  /-- its `fetch` -/
  | sent
  /-- it has returned, and `finally` is to come -/
  | answered (ok : Bool)
  | settled (ok : Bool)
  deriving DecidableEq

/-- What leaves the page. -/
inductive Output (T : Type*) where
  | fetch (call : ℕ) (bearer : Option T)
  | refresh
  /-- `AUTH_EXPIRED` -/
  | expired (call : ℕ)
  deriving DecidableEq

structure Page (T : Type*) where
  accessToken : Option T := none
  /-- the promise `refreshing`, as the run it is of -/
  refreshing : Option ℕ := none
  refreshes : List Refresh := []
  calls : List (Caller × Phase T) := []
  outputs : List (Output T) := []

inductive Event (T : Type*) where
  | call (caller : Caller)
  | restore
  | respond (index : ℕ) (response : Response T)
  | reject (index : ℕ) (failure : Failure)
  /-- the function in `refreshTokens` goes on; none where its `fetch` raises -/
  | answer (refresh : ℕ) (response : Option (Response T))
  | settle (refresh : ℕ)
  | resume (index : ℕ)
  | finish (index : ℕ)

/-- The event ends the `fetch` of a refresh. -/
def Event.isAnswer : Event T → Bool
  | .answer .. => true
  | _ => false

namespace Page

def setAccess (page : Page T) (token : Option T) : Page T :=
  { page with accessToken := token }

def clearTokens (page : Page T) : Page T :=
  { page with accessToken := none }

/-- `refreshTokens`: the run whose promise is returned. -/
def refreshTokens (page : Page T) : Page T × ℕ :=
  match page.refreshing with
  | some refresh => (page, refresh)
  | none =>
      ({ page with
          refreshing := some page.refreshes.length
          refreshes := page.refreshes ++ [.sent]
          outputs := page.outputs ++ [.refresh] },
        page.refreshes.length)

def expire (page : Page T) (index : ℕ) : Page T :=
  { page.clearTokens with outputs := page.outputs ++ [.expired index] }

/-- The call moves on. -/
def move (page : Page T) (index : ℕ) (caller : Caller) (phase : Phase T) : Page T :=
  { page with calls := page.calls.set index (caller, phase) }

/-- The first lines of `authFetch`, up to its `fetch`. -/
def send (page : Page T) (index : ℕ) : Page T :=
  { page with outputs := page.outputs ++ [.fetch index page.accessToken] }

/-- `authFetch` from the end of its `fetch`. -/
def onResponse (page : Page T) (index : ℕ) (caller : Caller) (retry : Bool)
    (response : Response T) : Page T :=
  if response.status = 401 ∧ retry ∧ ¬ caller.isAuth then
    page.refreshTokens.1.move index caller (.awaiting page.refreshTokens.2 response)
  else page.move index caller (.returned (.ok response))

/-- `authFetch` from the end of `await refreshTokens()`. -/
def onRefreshed (page : Page T) (index : ℕ) (caller : Caller) (response : Response T) :
    Bool → Page T
  | true => (page.send index).move index caller (.fetching page.accessToken false)
  | false => (page.expire index).move index caller (.returned (.ok response))

/-- What `login` and `logout` do with the outcome of their request. -/
def onOutcome (page : Page T) : Caller → Except Failure (Response T) → Page T
  | .login, .ok response =>
      if response.ok ∧ response.status ≠ 204 then response.body.elim page page.setAccess
      else page
  | .logout, _ => page.clearTokens
  | _, _ => page

/-- The run of `refreshTokens` from the end of its `fetch`. -/
def onAnswer (page : Page T) (refresh : ℕ) (response : Option (Response T)) : Page T :=
  let renewed := (response.filter (·.ok)).bind (·.body)
  { renewed.elim page page.setAccess with
    refreshes := page.refreshes.set refresh (.answered renewed.isSome) }

def step (page : Page T) : Event T → Option (Page T)
  | .call caller =>
      let sent := page.send page.calls.length
      some { sent with
        calls := page.calls ++ [(caller, .fetching page.accessToken caller.retry)] }
  | .restore => some page.refreshTokens.1
  | .respond index response =>
      match page.calls[index]? with
      | some (caller, .fetching _ retry) => some (page.onResponse index caller retry response)
      | _ => none
  | .reject index failure =>
      match page.calls[index]? with
      | some (caller, .fetching ..) => some (page.move index caller (.returned (.error failure)))
      | _ => none
  | .answer refresh response =>
      match page.refreshes[refresh]? with
      | some .sent => some (page.onAnswer refresh response)
      | _ => none
  | .settle refresh =>
      match page.refreshes[refresh]? with
      | some (.answered ok) =>
          some { page with
            refreshing := none
            refreshes := page.refreshes.set refresh (.settled ok) }
      | _ => none
  | .resume index =>
      match page.calls[index]? with
      | some (caller, .awaiting refresh response) =>
          match page.refreshes[refresh]? with
          | some (.settled ok) => some (page.onRefreshed index caller response ok)
          | _ => none
      | _ => none
  | .finish index =>
      match page.calls[index]? with
      | some (caller, .returned outcome) =>
          some ((page.onOutcome caller outcome).move index caller (.done outcome))
      | _ => none

/-! ## What a step does -/

inductive Steps (page : Page T) : Event T → Page T → Prop where
  | calls (caller : Caller) :
      Steps page (.call caller)
        { page.send page.calls.length with
          calls := page.calls ++ [(caller, .fetching page.accessToken caller.retry)] }
  | restores : Steps page .restore page.refreshTokens.1
  | refreshes (index : ℕ) (caller : Caller) (bearer : Option T) (response : Response T)
      (hcall : page.calls[index]? = some (caller, .fetching bearer true))
      (hstatus : response.status = 401) (hauth : caller.isAuth = false) :
      Steps page (.respond index response)
        (page.refreshTokens.1.move index caller (.awaiting page.refreshTokens.2 response))
  | returns (index : ℕ) (caller : Caller) (bearer : Option T) (retry : Bool)
      (response : Response T)
      (hcall : page.calls[index]? = some (caller, .fetching bearer retry))
      (hfinal : response.status = 401 → retry = true → caller.isAuth = true) :
      Steps page (.respond index response) (page.move index caller (.returned (.ok response)))
  | rejects (index : ℕ) (caller : Caller) (bearer : Option T) (retry : Bool)
      (failure : Failure)
      (hcall : page.calls[index]? = some (caller, .fetching bearer retry)) :
      Steps page (.reject index failure)
        (page.move index caller (.returned (.error failure)))
  | answers (refresh : ℕ) (response : Option (Response T))
      (hsent : page.refreshes[refresh]? = some .sent) :
      Steps page (.answer refresh response) (page.onAnswer refresh response)
  | settles (refresh : ℕ) (ok : Bool)
      (hanswered : page.refreshes[refresh]? = some (.answered ok)) :
      Steps page (.settle refresh)
        { page with
          refreshing := none
          refreshes := page.refreshes.set refresh (.settled ok) }
  | resumes (index : ℕ) (caller : Caller) (refresh : ℕ) (response : Response T) (ok : Bool)
      (hcall : page.calls[index]? = some (caller, .awaiting refresh response))
      (hsettled : page.refreshes[refresh]? = some (.settled ok)) :
      Steps page (.resume index) (page.onRefreshed index caller response ok)
  | finishes (index : ℕ) (caller : Caller) (outcome : Except Failure (Response T))
      (hcall : page.calls[index]? = some (caller, .returned outcome)) :
      Steps page (.finish index)
        ((page.onOutcome caller outcome).move index caller (.done outcome))

theorem step_cases {page next : Page T} {event : Event T}
    (hstep : page.step event = some next) : page.Steps event next := by
  cases event with
  | call caller =>
      cases hstep
      exact .calls caller
  | restore =>
      cases hstep
      exact .restores
  | respond index response =>
      rw [step] at hstep
      split at hstep
      next caller bearer retry hcall =>
          cases hstep
          rw [onResponse]
          split
          next hrefresh =>
              obtain ⟨hstatus, hretry, hauth⟩ := hrefresh
              rw [hretry] at hcall
              exact .refreshes index caller bearer response hcall hstatus
                (Bool.eq_false_iff.mpr hauth)
          next hfinal =>
              apply Steps.returns index caller bearer retry response hcall
              intro hstatus hretry
              by_contra hauth
              exact hfinal ⟨hstatus, hretry, hauth⟩
      next => cases hstep
  | reject index failure =>
      rw [step] at hstep
      split at hstep
      next caller bearer retry hcall =>
          cases hstep
          exact .rejects index caller bearer retry failure hcall
      next => cases hstep
  | answer refresh response =>
      rw [step] at hstep
      split at hstep
      next hsent =>
          cases hstep
          exact .answers refresh response hsent
      next => cases hstep
  | settle refresh =>
      rw [step] at hstep
      split at hstep
      next ok hanswered =>
          cases hstep
          exact .settles refresh ok hanswered
      next => cases hstep
  | resume index =>
      rw [step] at hstep
      split at hstep
      next caller refresh response hcall =>
          split at hstep
          next ok hsettled =>
              cases hstep
              exact .resumes index caller refresh response ok hcall hsettled
          next => cases hstep
      next => cases hstep
  | finish index =>
      rw [step] at hstep
      split at hstep
      next caller outcome hcall =>
          cases hstep
          exact .finishes index caller outcome hcall
      next => cases hstep

/-! ## One refresh at a time -/

end Page

/-- Its promise is pending. -/
def Refresh.isPending : Refresh → Bool
  | .settled _ => false
  | _ => true

namespace Page

/-- The outcome of a request changes the access token, and nothing else. -/
theorem onOutcome_eq (page : Page T) (caller : Caller)
    (outcome : Except Failure (Response T)) :
    ∃ token, page.onOutcome caller outcome = { page with accessToken := token } := by
  unfold onOutcome
  split
  next response =>
      split
      next =>
          cases response.body with
          | none => exact ⟨page.accessToken, rfl⟩
          | some token => exact ⟨token, rfl⟩
      next => exact ⟨page.accessToken, rfl⟩
  next => exact ⟨none, rfl⟩
  next => exact ⟨page.accessToken, rfl⟩

theorem onAnswer_eq (page : Page T) (refresh : ℕ) (response : Option (Response T)) :
    ∃ token ok, page.onAnswer refresh response =
      { page with
        accessToken := token
        refreshes := page.refreshes.set refresh (.answered ok) } := by
  unfold onAnswer
  cases (response.filter (·.ok)).bind (·.body) with
  | none => exact ⟨page.accessToken, false, rfl⟩
  | some token => exact ⟨token, true, rfl⟩

/-- The promise of this run of `refreshTokens` is pending. -/
def IsPending (page : Page T) (refresh : ℕ) : Prop :=
  ∃ state, page.refreshes[refresh]? = some state ∧ state.isPending = true

/-- The promise `refreshing` is that of the only run that is pending. -/
structure SingleFlight (page : Page T) : Prop where
  kept : ∀ refresh state, page.refreshes[refresh]? = some state → state.isPending = true →
    page.refreshing = some refresh
  pending : ∀ refresh, page.refreshing = some refresh → page.IsPending refresh
  awaited : ∀ (index : ℕ) (caller : Caller) (refresh : ℕ) (response : Response T),
    page.calls[index]? = some (caller, .awaiting refresh response) →
    refresh < page.refreshes.length

/-- Only a call that begins to wait changes what is awaited. -/
theorem SingleFlight.of_refreshes {page next : Page T} (hflight : page.SingleFlight)
    (hrefreshing : next.refreshing = page.refreshing)
    (hrefreshes : next.refreshes = page.refreshes)
    (hcalls : ∀ (index : ℕ) (caller : Caller) (refresh : ℕ) (response : Response T),
      next.calls[index]? = some (caller, .awaiting refresh response) →
      refresh < page.refreshes.length) : next.SingleFlight := by
  constructor
  · intro refresh state hstate hpending
    rw [hrefreshing]
    rw [hrefreshes] at hstate
    exact hflight.kept refresh state hstate hpending
  · intro refresh hkept
    rw [IsPending, hrefreshes]
    rw [hrefreshing] at hkept
    exact hflight.pending refresh hkept
  · intro index caller refresh response hcall
    rw [hrefreshes]
    exact hcalls index caller refresh response hcall

/-- The run whose promise a call is given is there, and is the pending one. -/
theorem refreshTokens_flight {page : Page T} (hflight : page.SingleFlight) :
    page.refreshTokens.1.SingleFlight ∧
      page.refreshTokens.1.refreshing = some page.refreshTokens.2 ∧
      page.refreshTokens.1.calls = page.calls := by
  rw [refreshTokens]
  split
  next refresh hkept => exact ⟨hflight, hkept, rfl⟩
  next hnone =>
      refine ⟨⟨?_, ?_, ?_⟩, rfl, rfl⟩
      · intro refresh state hstate hpending
        rcases getElem?_concat_iff.mp hstate with hold | ⟨hplace, _⟩
        · have hkept := hflight.kept refresh state hold hpending
          rw [hnone] at hkept
          cases hkept
        · rw [hplace]
      · intro refresh hkept
        cases hkept
        exact ⟨.sent, getElem?_concat_iff.mpr (.inr ⟨rfl, rfl⟩), rfl⟩
      · intro index caller refresh response hcall
        have hbelow := hflight.awaited index caller refresh response hcall
        rw [List.length_append]
        exact Nat.lt_add_right _ hbelow

/-- A run that goes on from one state to another that is pending as well. -/
theorem SingleFlight.answer {page : Page T} {refresh : ℕ} {token : Option T} {ok : Bool}
    (hflight : page.SingleFlight) (hsent : page.refreshes[refresh]? = some .sent) :
    ({ page with
        accessToken := token
        refreshes := page.refreshes.set refresh (.answered ok) } : Page T).SingleFlight := by
  have hkept := hflight.kept refresh .sent hsent rfl
  constructor
  · intro other state hstate hpending
    rcases getElem?_set_cases hsent hstate with ⟨hsame, _⟩ | ⟨_, hold⟩
    · rw [hsame]
      exact hkept
    · exact hflight.kept other state hold hpending
  · intro other hother
    have hsame : refresh = other := Option.some.inj (hkept.symm.trans hother)
    rw [← hsame]
    exact ⟨.answered ok, List.getElem?_set_self (List.getElem?_eq_some_iff.mp hsent).1, rfl⟩
  · intro index caller other response hcall
    rw [List.length_set]
    exact hflight.awaited index caller other response hcall

theorem SingleFlight.settle {page : Page T} {refresh : ℕ} {ok : Bool}
    (hflight : page.SingleFlight)
    (hanswered : page.refreshes[refresh]? = some (.answered ok)) :
    ({ page with
        refreshing := none
        refreshes := page.refreshes.set refresh (.settled ok) } : Page T).SingleFlight := by
  have hkept := hflight.kept refresh (.answered ok) hanswered rfl
  constructor
  · intro other state hstate hpending
    rcases getElem?_set_cases hanswered hstate with ⟨_, hsettled⟩ | ⟨hother, hold⟩
    · rw [← hsettled] at hpending
      cases hpending
    · have hsame := hflight.kept other state hold hpending
      rw [hkept] at hsame
      exact absurd (Option.some.inj hsame).symm hother
  · intro other hother
    cases hother
  · intro index caller other response hcall
    rw [List.length_set]
    exact hflight.awaited index caller other response hcall

/-- What the calls await after one of them has moved on. -/
theorem SingleFlight.move {page : Page T} {index : ℕ} {caller : Caller}
    {old : Caller × Phase T} {phase : Phase T} (hflight : page.SingleFlight)
    (hcall : page.calls[index]? = some old)
    (hphase : ∀ refresh response, phase = .awaiting refresh response →
      refresh < page.refreshes.length) : (page.move index caller phase).SingleFlight := by
  refine hflight.of_refreshes rfl rfl ?_
  intro other waiting refresh response hother
  rcases getElem?_set_cases hcall hother with ⟨_, hsame⟩ | ⟨_, hold⟩
  · exact hphase refresh response (Prod.mk.inj hsame).2
  · exact hflight.awaited other waiting refresh response hold

theorem step_singleFlight {page next : Page T} {event : Event T}
    (hflight : page.SingleFlight) (hstep : page.step event = some next) :
    next.SingleFlight := by
  cases step_cases hstep with
  | calls caller =>
      refine hflight.of_refreshes rfl rfl ?_
      intro index waiting refresh response hcall
      rcases getElem?_concat_iff.mp hcall with hold | ⟨_, hnew⟩
      · exact hflight.awaited index waiting refresh response hold
      · cases hnew
  | restores => exact (refreshTokens_flight hflight).1
  | refreshes index caller bearer response hcall =>
      obtain ⟨hjoined, hkept, hcalls⟩ := refreshTokens_flight hflight
      rw [← hcalls] at hcall
      apply hjoined.move hcall
      intro refresh waiting hwaiting
      cases hwaiting
      obtain ⟨state, hstate, _⟩ := hjoined.pending _ hkept
      exact (List.getElem?_eq_some_iff.mp hstate).1
  | returns index caller bearer retry response hcall =>
      apply hflight.move hcall
      intro refresh waiting hwaiting
      cases hwaiting
  | rejects index caller bearer retry failure hcall =>
      apply hflight.move hcall
      intro refresh waiting hwaiting
      cases hwaiting
  | answers refresh response hsent =>
      obtain ⟨token, ok, hanswer⟩ := page.onAnswer_eq refresh response
      rw [hanswer]
      exact hflight.answer hsent
  | settles refresh ok hanswered => exact hflight.settle hanswered
  | resumes index caller refresh response ok hcall hsettled =>
      cases ok with
      | true =>
          have hsend : (page.send index).SingleFlight :=
            hflight.of_refreshes rfl rfl hflight.awaited
          apply hsend.move hcall
          intro other waiting hwaiting
          cases hwaiting
      | false =>
          have hexpire : (page.expire index).SingleFlight :=
            hflight.of_refreshes rfl rfl hflight.awaited
          apply hexpire.move hcall
          intro other waiting hwaiting
          cases hwaiting
  | finishes index caller outcome hcall =>
      obtain ⟨token, houtcome⟩ := page.onOutcome_eq caller outcome
      rw [houtcome]
      have hchanged : ({ page with accessToken := token } : Page T).SingleFlight :=
        hflight.of_refreshes rfl rfl hflight.awaited
      apply hchanged.move hcall
      intro other waiting hwaiting
      cases hwaiting

/-- What a step does to the runs of `refreshTokens`: it begins at most one, and a `fetch`
comes to its end by its answer only. -/
theorem step_refreshes {page next : Page T} {event : Event T}
    (hstep : page.step event = some next) :
    (next.refreshes.length = page.refreshes.length ∨
        next.refreshes[page.refreshes.length]? = some .sent) ∧
      ∀ refresh, page.refreshes[refresh]? = some .sent →
        (∀ response, event ≠ .answer refresh response) →
        next.refreshes[refresh]? = some .sent := by
  have hjoined : (page.refreshTokens.1.refreshes.length = page.refreshes.length ∨
        page.refreshTokens.1.refreshes[page.refreshes.length]? = some .sent) ∧
      ∀ refresh : ℕ, page.refreshes[refresh]? = some .sent →
        page.refreshTokens.1.refreshes[refresh]? = some .sent := by
    rw [refreshTokens]
    split
    next => exact ⟨Or.inl rfl, fun _ hsent => hsent⟩
    next =>
        constructor
        · exact Or.inr (getElem?_concat_iff.mpr (.inr ⟨rfl, rfl⟩))
        · intro refresh hsent
          exact getElem?_concat_iff.mpr (.inl hsent)
  cases step_cases hstep with
  | calls caller => exact ⟨Or.inl rfl, fun _ hsent _ => hsent⟩
  | restores => exact ⟨hjoined.1, fun refresh hsent _ => hjoined.2 refresh hsent⟩
  | refreshes index caller bearer response hcall =>
      exact ⟨hjoined.1, fun refresh hsent _ => hjoined.2 refresh hsent⟩
  | returns index caller bearer retry response hcall =>
      exact ⟨Or.inl rfl, fun _ hsent _ => hsent⟩
  | rejects index caller bearer retry failure hcall =>
      exact ⟨Or.inl rfl, fun _ hsent _ => hsent⟩
  | answers answered response hsent =>
      obtain ⟨token, ok, hanswer⟩ := page.onAnswer_eq answered response
      rw [hanswer]
      refine ⟨Or.inl (List.length_set ..), fun refresh hfound hother => ?_⟩
      have hne : answered ≠ refresh := by
        rintro rfl
        exact hother response rfl
      exact (List.getElem?_set_ne hne).trans hfound
  | settles settled ok hanswered =>
      refine ⟨Or.inl (List.length_set ..), fun refresh hfound _ => ?_⟩
      have hne : settled ≠ refresh := by
        rintro rfl
        rw [hanswered] at hfound
        cases hfound
      exact (List.getElem?_set_ne hne).trans hfound
  | resumes index caller refresh response ok hcall hsettled =>
      cases ok <;> exact ⟨Or.inl rfl, fun _ hsent _ => hsent⟩
  | finishes index caller outcome hcall =>
      obtain ⟨token, houtcome⟩ := page.onOutcome_eq caller outcome
      rw [houtcome]
      exact ⟨Or.inl rfl, fun _ hsent _ => hsent⟩

theorem run_flight {page : Page T} {events : List (Event T)}
    (hrun : Transition.exec step {} events = some page) : page.SingleFlight := by
  apply Transition.exec_invariant (motive := SingleFlight) ?_ hrun
  · constructor <;> simp
  · intro state event next hinv hnext
    exact step_singleFlight hinv hnext

/-- However the calls of the page interleave, at most one refresh is pending; a call that
waits for one either waits for that one or can go on. -/
theorem run_singleFlight {page : Page T} {events : List (Event T)}
    (hrun : Transition.exec step {} events = some page) :
    (∀ first second, page.IsPending first → page.IsPending second → first = second) ∧
    ∀ (index : ℕ) (caller : Caller) (refresh : ℕ) (response : Response T),
      page.calls[index]? = some (caller, .awaiting refresh response) →
      page.refreshing = some refresh ∨ (page.step (.resume index)).isSome = true := by
  have hflight := run_flight hrun
  constructor
  · intro first second ⟨state, hstate, hpending⟩ ⟨other, hother, hpendingOther⟩
    have hfirst := hflight.kept first state hstate hpending
    have hsecond := hflight.kept second other hother hpendingOther
    exact Option.some.inj (hfirst.symm.trans hsecond)
  · intro index caller refresh response hcall
    have hbelow := hflight.awaited index caller refresh response hcall
    have hstate := List.getElem?_eq_getElem hbelow
    cases hcase : page.refreshes[refresh] with
    | sent =>
        rw [hcase] at hstate
        exact Or.inl (hflight.kept refresh .sent hstate rfl)
    | answered ok =>
        rw [hcase] at hstate
        exact Or.inl (hflight.kept refresh (.answered ok) hstate rfl)
    | settled ok =>
        rw [hcase] at hstate
        right
        simp only [step, hcall, hstate, Option.isSome_some]

/-- The list of documents and that of the chats are requested with an access token that
has expired. -/
def sampleEvents : List (Event ℕ) :=
  [.call (.plain "/documents".toList), .call (.plain "/chat/sessions".toList),
    .respond 0 ⟨401, none⟩, .respond 1 ⟨401, none⟩, .answer 0 (some ⟨200, some (some 7)⟩),
    .settle 0, .resume 1, .resume 0, .respond 0 ⟨200, none⟩, .finish 0]

theorem sample_runs : ∃ page, Transition.exec step {} sampleEvents = some page :=
  Option.isSome_iff_exists.mp (by decide +kernel)

/-- While the refresh is under way both lists wait for it. -/
theorem run_singleFlight_joined :
    ∃ page, Transition.exec step {} (sampleEvents.take 4) = some page ∧
      (page.refreshing = some 0 ∨ (page.step (.resume 1)).isSome = true) := by
  obtain ⟨page, hrun⟩ : ∃ page, Transition.exec step {} (sampleEvents.take 4) = some page :=
    Option.isSome_iff_exists.mp (by decide +kernel)
  have hcalls : ((Transition.exec step {} (sampleEvents.take 4)).bind fun page =>
      page.calls[1]?) = some (.plain "/chat/sessions".toList, .awaiting 0 ⟨401, none⟩) := by
    decide +kernel
  rw [hrun] at hcalls
  exact ⟨page, hrun, (run_singleFlight hrun).2 1 _ 0 _ hcalls⟩

end Page

/-! ## Every call comes to an end -/

/-- A bound on the steps the call still takes, with those of the refresh it may begin. -/
def Phase.weight : Phase T → ℕ
  | .fetching _ true => 6
  | .awaiting .. => 3
  | .fetching _ false => 2
  | .returned _ => 1
  | .done _ => 0

def Refresh.weight : Refresh → ℕ
  | .sent => 2
  | .answered _ => 1
  | .settled _ => 0

def Event.isCall : Event T → Bool
  | .call _ => true
  | _ => false

def Event.isRestore : Event T → Bool
  | .restore => true
  | _ => false

namespace Page

def weight (page : Page T) : ℕ :=
  (page.calls.map fun entry => entry.2.weight).sum + (page.refreshes.map Refresh.weight).sum

theorem weight_move {page : Page T} {index : ℕ} {old : Caller × Phase T} (caller : Caller)
    (phase : Phase T) (hcall : page.calls[index]? = some old) :
    (page.move index caller phase).weight + old.2.weight = page.weight + phase.weight := by
  have hsum := sum_map_set (fun entry => entry.2.weight) (caller, phase) hcall
  simp only [weight, move] at hsum ⊢
  omega

theorem weight_refreshTokens (page : Page T) :
    page.refreshTokens.1.weight ≤ page.weight + 2 := by
  rw [refreshTokens]
  split
  next => exact Nat.le_add_right _ _
  next =>
      simp only [weight, List.map_append, List.map_cons, List.map_nil, List.sum_append,
        List.sum_cons, List.sum_nil, Refresh.weight]
      omega

/-- A step that begins nothing uses up some of the weight. -/
theorem step_weight {page next : Page T} {event : Event T}
    (hstep : page.step event = some next) :
    next.weight + 1 ≤
      page.weight + (if event.isCall then 7 else 0) + (if event.isRestore then 3 else 0) := by
  cases step_cases hstep with
  | calls caller =>
      have hphase : (Phase.fetching page.accessToken caller.retry).weight ≤ 6 := by
        cases caller <;> simp only [Caller.retry, Phase.weight] <;> omega
      simp only [weight, send, Event.isCall, Event.isRestore, List.map_append, List.map_cons,
        List.map_nil, List.sum_append, List.sum_cons, List.sum_nil]
      simp only [if_true, Bool.false_eq_true, if_false]
      omega
  | restores =>
      have hjoined := page.weight_refreshTokens
      simp only [Event.isCall, Event.isRestore, if_true, Bool.false_eq_true, if_false]
      omega
  | refreshes index caller bearer response hcall =>
      have hjoined := page.weight_refreshTokens
      have hcalls : page.refreshTokens.1.calls = page.calls := by
        rw [refreshTokens]
        split <;> rfl
      rw [← hcalls] at hcall
      have hmove := weight_move caller (.awaiting page.refreshTokens.2 response) hcall
      simp only [Phase.weight] at hmove
      omega
  | returns index caller bearer retry response hcall =>
      have hmove := weight_move caller (.returned (.ok response)) hcall
      cases retry <;> simp only [Phase.weight] at hmove <;> omega
  | rejects index caller bearer retry failure hcall =>
      have hmove := weight_move caller (.returned (.error failure)) hcall
      cases retry <;> simp only [Phase.weight] at hmove <;> omega
  | answers refresh response hsent =>
      obtain ⟨token, ok, hanswer⟩ := page.onAnswer_eq refresh response
      have hsum := sum_map_set Refresh.weight (.answered ok) hsent
      rw [hanswer]
      simp only [weight, Refresh.weight] at hsum ⊢
      omega
  | settles refresh ok hanswered =>
      have hsum := sum_map_set Refresh.weight (.settled ok) hanswered
      simp only [weight, Refresh.weight] at hsum ⊢
      omega
  | resumes index caller refresh response ok hcall hsettled =>
      cases ok with
      | true =>
          have hsent : (page.send index).calls[index]? = some (caller, .awaiting refresh response) :=
            hcall
          have hmove := weight_move caller (.fetching page.accessToken false) hsent
          have hsame : (page.send index).weight = page.weight := rfl
          simp only [Phase.weight] at hmove
          simp only [onRefreshed]
          omega
      | false =>
          have hexpired :
              (page.expire index).calls[index]? = some (caller, .awaiting refresh response) :=
            hcall
          have hmove := weight_move caller (.returned (.ok response)) hexpired
          have hsame : (page.expire index).weight = page.weight := rfl
          simp only [Phase.weight] at hmove
          simp only [onRefreshed]
          omega
  | finishes index caller outcome hcall =>
      obtain ⟨token, houtcome⟩ := page.onOutcome_eq caller outcome
      have hchanged : ({ page with accessToken := token } : Page T).calls[index]? =
          some (caller, .returned outcome) := hcall
      have hmove := weight_move caller (.done outcome) hchanged
      have hsame : ({ page with accessToken := token } : Page T).weight = page.weight := rfl
      rw [houtcome]
      simp only [Phase.weight] at hmove
      omega

theorem run_weight {page : Page T} {events : List (Event T)}
    (hrun : Transition.exec step {} events = some page) :
    page.weight + events.length ≤
      7 * events.countP (·.isCall) + 3 * events.countP (·.isRestore) := by
  apply Transition.exec_induction (motive := fun past state =>
    state.weight + past.length ≤
      7 * past.countP (·.isCall) + 3 * past.countP (·.isRestore)) ?_ ?_ hrun
  · exact Nat.le_refl 0
  · intro past state event next _ ih hnext
    have hweight := step_weight hnext
    simp only [List.countP_append, List.countP_singleton, List.length_append,
      List.length_singleton]
    split_ifs at hweight ⊢ <;> omega

/-- Nothing of what was begun is left to do. -/
def AtRest (page : Page T) : Prop :=
  (∀ entry ∈ page.calls, ∃ outcome, entry.2 = .done outcome) ∧
    ∀ refresh ∈ page.refreshes, ∃ ok, refresh = .settled ok

/-- A step that is not the beginning of a call or of a refresh. -/
def CanGoOn (page : Page T) : Prop :=
  ∃ event, event.isCall = false ∧ event.isRestore = false ∧ (page.step event).isSome = true

/-- A run that has not settled can do so. -/
theorem canGoOn_of_refresh {page : Page T} {refresh : ℕ} {state : Refresh}
    (hstate : page.refreshes[refresh]? = some state) (hopen : ∀ ok, state ≠ .settled ok) :
    page.CanGoOn := by
  cases state with
  | sent => exact ⟨.answer refresh none, rfl, rfl, by simp [step, hstate]⟩
  | answered ok => exact ⟨.settle refresh, rfl, rfl, by simp [step, hstate]⟩
  | settled ok => exact absurd rfl (hopen ok)

/-- A call that is not done can go on, or the refresh it waits for can. -/
theorem canGoOn_of_call {page : Page T} {index : ℕ} {caller : Caller} {phase : Phase T}
    (hflight : page.SingleFlight) (hcall : page.calls[index]? = some (caller, phase))
    (hopen : ∀ outcome, phase ≠ .done outcome) : page.CanGoOn := by
  cases phase with
  | fetching bearer retry =>
      exact ⟨.reject index .unreachable, rfl, rfl, by simp [step, hcall]⟩
  | awaiting refresh response =>
      have hbelow := hflight.awaited index caller refresh response hcall
      have hstate := List.getElem?_eq_getElem hbelow
      by_cases hsettled : ∃ ok, page.refreshes[refresh] = .settled ok
      · obtain ⟨ok, hok⟩ := hsettled
        rw [hok] at hstate
        exact ⟨.resume index, rfl, rfl, by simp [step, hcall, hstate]⟩
      · exact canGoOn_of_refresh hstate (not_exists.mp hsettled)
  | returned outcome => exact ⟨.finish index, rfl, rfl, by simp [step, hcall]⟩
  | done outcome => exact absurd rfl (hopen outcome)

/-- Whatever the network answers and in whatever order the page goes on, a run takes at
most seven steps for each call and three for each attempt to resume a session; and as long
as a call or a refresh is not finished, a further step is possible. -/
theorem run_terminates {page : Page T} {events : List (Event T)}
    (hrun : Transition.exec step {} events = some page) :
    events.length ≤ 7 * events.countP (·.isCall) + 3 * events.countP (·.isRestore) ∧
      (page.AtRest ∨ page.CanGoOn) := by
  constructor
  · have hweight := run_weight hrun
    omega
  · by_contra hneither
    obtain ⟨hbusy, hstuck⟩ := not_or.mp hneither
    apply hbusy
    constructor
    · rintro ⟨caller, phase⟩ hentry
      obtain ⟨index, hcall⟩ := List.mem_iff_getElem?.mp hentry
      by_contra hopen
      exact hstuck (canGoOn_of_call (run_flight hrun) hcall (not_exists.mp hopen))
    · intro refresh hrefresh
      obtain ⟨index, hstate⟩ := List.mem_iff_getElem?.mp hrefresh
      by_contra hopen
      exact hstuck (canGoOn_of_refresh hstate (not_exists.mp hopen))

theorem run_terminates_sample :
    ∃ page, Transition.exec step {} sampleEvents = some page ∧
      sampleEvents.length ≤ 7 * sampleEvents.countP (·.isCall) +
        3 * sampleEvents.countP (·.isRestore) ∧
      (page.AtRest ∨ page.CanGoOn) := by
  obtain ⟨page, hrun⟩ := sample_runs
  exact ⟨page, hrun, run_terminates hrun⟩

end Page

/-! ## What a call sends -/

def Output.isFetch (index : ℕ) : Output T → Bool
  | .fetch call _ => call = index
  | _ => false

def Output.isExpiry (index : ℕ) : Output T → Bool
  | .expired call => call = index
  | _ => false

/-- The outcome is a 401. -/
def Unauthorized : Except Failure (Response T) → Prop
  | .ok response => response.status = 401
  | .error _ => False

namespace Page

/-- How many requests the call has sent. -/
def fetches (page : Page T) (index : ℕ) : ℕ :=
  page.outputs.countP (·.isFetch index)

/-- How often the call has made the app show the sign-in. -/
def expiries (page : Page T) (index : ℕ) : ℕ :=
  page.outputs.countP (·.isExpiry index)

@[simp]
theorem fetches_send (page : Page T) (sender index : ℕ) :
    (page.send sender).fetches index = page.fetches index + if sender = index then 1 else 0 := by
  simp [fetches, send, List.countP_append, List.countP_singleton, Output.isFetch]

@[simp]
theorem expiries_send (page : Page T) (sender index : ℕ) :
    (page.send sender).expiries index = page.expiries index := by
  simp [expiries, send, List.countP_append, Output.isExpiry]

@[simp]
theorem fetches_expire (page : Page T) (sender index : ℕ) :
    (page.expire sender).fetches index = page.fetches index := by
  simp [fetches, expire, clearTokens, List.countP_append, Output.isFetch]

@[simp]
theorem expiries_expire (page : Page T) (sender index : ℕ) :
    (page.expire sender).expiries index =
      page.expiries index + if sender = index then 1 else 0 := by
  simp [expiries, expire, clearTokens, List.countP_append, List.countP_singleton,
    Output.isExpiry]

/-- The answer to a refresh carries an access token. -/
def Brings (response : Option (Response T)) : Prop :=
  ∃ answer token, response = some answer ∧ answer.ok = true ∧ answer.body = some token

/-- This refresh has settled: well if its answer carried a token, and else not. -/
def Refreshed (page : Page T) (events : List (Event T)) (refresh : ℕ) (ok : Bool) : Prop :=
  page.refreshes[refresh]? = some (.settled ok) ∧
    ∃ response, .answer refresh response ∈ events ∧ (ok = true ↔ Brings response)

/-- With this answer the call began to wait for the refresh that is pending then. -/
def Waited (events : List (Event T)) (index refresh : ℕ) (response : Response T) : Prop :=
  ∃ past page caller, past ++ [.respond index response] <+: events ∧
    Transition.exec step {} (past ++ [.respond index response]) = some page ∧
    page.refreshing = some refresh ∧
    page.calls[index]? = some (caller, .awaiting refresh response)

/-- The outcome is what a `fetch` of the call came to. -/
def Came (events : List (Event T)) (index : ℕ) : Except Failure (Response T) → Prop
  | .ok response => .respond index response ∈ events
  | .error failure => .reject index failure ∈ events

/-- The request was sent once, and the call has waited for no refresh. -/
def SentOnce (page : Page T) (events : List (Event T)) (index : ℕ) : Prop :=
  page.fetches index = 1 ∧ page.expiries index = 0 ∧
    ∀ refresh response, ¬ Waited events index refresh response

/-- The first answer to the call was a 401, the refresh it waited for succeeded, and the
request was repeated. -/
def Repeated (page : Page T) (events : List (Event T)) (index : ℕ) (caller : Caller) : Prop :=
  page.fetches index = 2 ∧ page.expiries index = 0 ∧ caller.refreshes = true ∧
    ∃ refresh response, Waited events index refresh response ∧ response.status = 401 ∧
      page.Refreshed events refresh true

/-- The first answer to the call was a 401, the refresh it waited for failed, and the 401 is
the outcome. -/
def Expired (page : Page T) (events : List (Event T)) (index : ℕ) (caller : Caller)
    (outcome : Except Failure (Response T)) : Prop :=
  page.fetches index = 1 ∧ page.expiries index = 1 ∧ caller.refreshes = true ∧
    ∃ refresh response, Waited events index refresh response ∧ response.status = 401 ∧
      outcome = .ok response ∧ page.Refreshed events refresh false

/-- What a call that has come to its outcome has sent and signalled. -/
def Concluded (page : Page T) (events : List (Event T)) (index : ℕ) (caller : Caller)
    (outcome : Except Failure (Response T)) : Prop :=
  Came events index outcome ∧
    (page.SentOnce events index ∧ (Unauthorized outcome → caller.refreshes = false) ∨
      page.Repeated events index caller ∨ page.Expired events index caller outcome)

/-- What a call has sent and signalled, phase by phase. -/
def Accounted (page : Page T) (events : List (Event T)) (index : ℕ) (caller : Caller) :
    Phase T → Prop
  | .fetching _ retry =>
      page.SentOnce events index ∧ retry = caller.retry ∨
        retry = false ∧ page.Repeated events index caller
  | .awaiting refresh response =>
      page.fetches index = 1 ∧ page.expiries index = 0 ∧ caller.refreshes = true ∧
        Waited events index refresh response ∧ response.status = 401
  | .returned outcome | .done outcome => page.Concluded events index caller outcome

/-- Every call is accounted for, and no other call has sent anything. -/
structure Audited (page : Page T) (events : List (Event T)) : Prop where
  accounted : ∀ index caller phase, page.calls[index]? = some (caller, phase) →
    page.Accounted events index caller phase
  silent : ∀ index, page.calls.length ≤ index →
    page.fetches index = 0 ∧ page.expiries index = 0 ∧
      ∀ refresh response, ¬ Waited events index refresh response

end Page

/-! ### What a refresh came to -/

def Refresh.outcome : Refresh → Option Bool
  | .sent => none
  | .answered ok | .settled ok => some ok

namespace Page

theorem isSome_renewed (response : Option (Response T)) :
    ((response.filter (·.ok)).bind (·.body)).isSome = true ↔ Brings response := by
  rw [Option.isSome_iff_exists]
  constructor
  · intro ⟨token, hrenewed⟩
    obtain ⟨answer, hfilter, hbody⟩ := Option.bind_eq_some_iff.mp hrenewed
    obtain ⟨hanswer, hok⟩ := Option.filter_eq_some_iff.mp hfilter
    exact ⟨answer, token, hanswer, hok, hbody⟩
  · intro ⟨answer, token, hanswer, hok, hbody⟩
    refine ⟨token, Option.bind_eq_some_iff.mpr ⟨answer, ?_, hbody⟩⟩
    exact Option.filter_eq_some_iff.mpr ⟨hanswer, hok⟩

/-- The answer of every refresh that is not under way is among the events. -/
def Told (page : Page T) (events : List (Event T)) : Prop :=
  ∀ (refresh : ℕ) (state : Refresh) (ok : Bool), page.refreshes[refresh]? = some state →
    state.outcome = some ok →
    ∃ response, .answer refresh response ∈ events ∧ (ok = true ↔ Brings response)

/-- No refresh has come to anything by this step. -/
theorem Told.snoc {page next : Page T} {past : List (Event T)} (event : Event T)
    (htold : page.Told past)
    (hkept : ∀ (refresh : ℕ) (state : Refresh), next.refreshes[refresh]? = some state →
      state = .sent ∨ page.refreshes[refresh]? = some state) : next.Told (past ++ [event]) := by
  intro refresh state ok hstate houtcome
  rcases hkept refresh state hstate with hsent | hold
  · rw [hsent] at houtcome
    cases houtcome
  · obtain ⟨response, hmem, hbrings⟩ := htold refresh state ok hold houtcome
    exact ⟨response, List.mem_append_left _ hmem, hbrings⟩

theorem refreshTokens_refreshes (page : Page T) (refresh : ℕ) (state : Refresh)
    (hstate : page.refreshTokens.1.refreshes[refresh]? = some state) :
    state = .sent ∨ page.refreshes[refresh]? = some state := by
  rw [refreshTokens] at hstate
  split at hstate
  next => exact Or.inr hstate
  next =>
      rcases getElem?_concat_iff.mp hstate with hold | ⟨_, hnew⟩
      · exact Or.inr hold
      · exact Or.inl hnew.symm

theorem step_told {page next : Page T} {past : List (Event T)} {event : Event T}
    (htold : page.Told past) (hstep : page.step event = some next) :
    next.Told (past ++ [event]) := by
  cases step_cases hstep with
  | calls caller => exact htold.snoc _ fun _ _ hstate => Or.inr hstate
  | restores => exact htold.snoc _ page.refreshTokens_refreshes
  | refreshes index caller bearer response hcall =>
      exact htold.snoc _ page.refreshTokens_refreshes
  | returns index caller bearer retry response hcall =>
      exact htold.snoc _ fun _ _ hstate => Or.inr hstate
  | rejects index caller bearer retry failure hcall =>
      exact htold.snoc _ fun _ _ hstate => Or.inr hstate
  | answers answered response hsent =>
      intro refresh state ok hstate houtcome
      rcases getElem?_set_cases hsent hstate with ⟨hplace, hnew⟩ | ⟨_, hold⟩
      · rw [← hnew] at houtcome
        cases houtcome
        rw [hplace]
        exact ⟨response, by simp, isSome_renewed response⟩
      · obtain ⟨told, hmem, hbrings⟩ := htold refresh state ok hold houtcome
        exact ⟨told, List.mem_append_left _ hmem, hbrings⟩
  | settles settled ok hanswered =>
      intro refresh state found hstate houtcome
      rcases getElem?_set_cases hanswered hstate with ⟨hplace, hnew⟩ | ⟨_, hold⟩
      · rw [← hnew] at houtcome
        rw [hplace]
        obtain ⟨told, hmem, hbrings⟩ := htold settled (.answered ok) found hanswered houtcome
        exact ⟨told, List.mem_append_left _ hmem, hbrings⟩
      · obtain ⟨told, hmem, hbrings⟩ := htold refresh state found hold houtcome
        exact ⟨told, List.mem_append_left _ hmem, hbrings⟩
  | resumes index caller refresh response ok hcall hsettled =>
      cases ok <;> exact htold.snoc _ fun _ _ hstate => Or.inr hstate
  | finishes index caller outcome hcall =>
      obtain ⟨token, houtcome⟩ := page.onOutcome_eq caller outcome
      rw [houtcome]
      exact htold.snoc _ fun _ _ hstate => Or.inr hstate

theorem run_told {page : Page T} {events : List (Event T)}
    (hrun : Transition.exec step {} events = some page) : page.Told events := by
  apply Transition.exec_induction (motive := fun past state => state.Told past) ?_ ?_ hrun
  · intro refresh state ok hstate
    simp at hstate
  · intro past state event next _ htold hnext
    exact step_told htold hnext

/-- A refresh that has settled stays so. -/
theorem step_settled {page next : Page T} {event : Event T} {refresh : ℕ} {ok : Bool}
    (hstep : page.step event = some next)
    (hsettled : page.refreshes[refresh]? = some (.settled ok)) :
    next.refreshes[refresh]? = some (.settled ok) := by
  have hjoined : page.refreshTokens.1.refreshes[refresh]? = some (.settled ok) := by
    rw [refreshTokens]
    split
    next => exact hsettled
    next => exact getElem?_concat_iff.mpr (.inl hsettled)
  -- A run that goes on is not this one.
  have hset (other : ℕ) (old state : Refresh) (hold : page.refreshes[other]? = some old)
      (hpending : old.isPending = true) :
      (page.refreshes.set other state)[refresh]? = some (.settled ok) := by
    have hne : other ≠ refresh := by
      rintro rfl
      rw [hsettled] at hold
      cases hold
      cases hpending
    exact (List.getElem?_set_ne hne).trans hsettled
  cases step_cases hstep with
  | calls caller => exact hsettled
  | restores => exact hjoined
  | refreshes index caller bearer response hcall => exact hjoined
  | returns index caller bearer retry response hcall => exact hsettled
  | rejects index caller bearer retry failure hcall => exact hsettled
  | answers answered response hsent => exact hset answered .sent _ hsent rfl
  | settles settled found hanswered => exact hset settled (.answered found) _ hanswered rfl
  | resumes index caller awaited response found hcall hawaited =>
      cases found <;> exact hsettled
  | finishes index caller outcome hcall =>
      obtain ⟨token, houtcome⟩ := page.onOutcome_eq caller outcome
      rw [houtcome]
      exact hsettled

/-! ### One step of the accounts -/

theorem Refreshed.snoc {page next : Page T} {past : List (Event T)} {event : Event T}
    {refresh : ℕ} {ok : Bool} (hrefreshed : page.Refreshed past refresh ok)
    (hstep : page.step event = some next) : next.Refreshed (past ++ [event]) refresh ok := by
  obtain ⟨hsettled, response, hmem, hbrings⟩ := hrefreshed
  exact ⟨step_settled hstep hsettled, response, List.mem_append_left _ hmem, hbrings⟩

theorem Came.snoc {past : List (Event T)} {index : ℕ} {outcome : Except Failure (Response T)}
    (hcame : Came past index outcome) (event : Event T) :
    Came (past ++ [event]) index outcome := by
  cases outcome with
  | ok response => exact List.mem_append_left _ hcame
  | error failure => exact List.mem_append_left _ hcame

theorem Waited.snoc {past : List (Event T)} {index refresh : ℕ} {response : Response T}
    (hwaited : Waited past index refresh response) (event : Event T) :
    Waited (past ++ [event]) index refresh response := by
  obtain ⟨before, page, caller, hprefix, hbefore⟩ := hwaited
  exact ⟨before, page, caller, hprefix.trans (List.prefix_append _ _), hbefore⟩

/-- A step after which the call awaits nothing is not the one it began to wait with. -/
theorem waited_of_snoc {page next : Page T} {past : List (Event T)} {event : Event T}
    {index refresh : ℕ} {response : Response T}
    (hpast : Transition.exec step {} past = some page) (hstep : page.step event = some next)
    (hother : event = .respond index response → ∀ caller,
      next.calls[index]? ≠ some (caller, .awaiting refresh response))
    (hwaited : Waited (past ++ [event]) index refresh response) :
    Waited past index refresh response := by
  obtain ⟨before, found, caller, hprefix, hbefore, hpending, hcall⟩ := hwaited
  rcases List.prefix_concat_iff.mp hprefix with hall | hearlier
  · obtain ⟨hsame, hlast⟩ := List.append_inj' hall rfl
    cases hlast
    rw [hsame, Transition.exec_snoc_eq_some_iff] at hbefore
    obtain ⟨middle, hmiddle, hnext⟩ := hbefore
    rw [hpast] at hmiddle
    cases hmiddle
    rw [hstep] at hnext
    cases hnext
    exact absurd hcall (hother rfl caller)
  · exact ⟨before, found, caller, hearlier, hbefore, hpending, hcall⟩

/-- By this step the call has sent and signalled nothing, and has not begun to wait. -/
structure SameFor (page : Page T) (past : List (Event T)) (event : Event T) (next : Page T)
    (index : ℕ) : Prop where
  fetches : next.fetches index = page.fetches index
  expiries : next.expiries index = page.expiries index
  waited : ∀ refresh response, Waited (past ++ [event]) index refresh response →
    Waited past index refresh response

/-- A place where no call has begun stays silent. -/
theorem SameFor.silent {page next : Page T} {past : List (Event T)} {event : Event T}
    {index : ℕ} (hsame : page.SameFor past event next index)
    (hsilent : page.fetches index = 0 ∧ page.expiries index = 0 ∧
      ∀ refresh response, ¬ Waited past index refresh response) :
    next.fetches index = 0 ∧ next.expiries index = 0 ∧
      ∀ refresh response, ¬ Waited (past ++ [event]) index refresh response := by
  obtain ⟨hfetches, hexpiries, hnone⟩ := hsilent
  refine ⟨hsame.fetches.trans hfetches, hsame.expiries.trans hexpiries, ?_⟩
  intro refresh response hwaited
  exact hnone refresh response (hsame.waited refresh response hwaited)

theorem SentOnce.snoc {page next : Page T} {past : List (Event T)} {event : Event T} {index : ℕ}
    (hsame : page.SameFor past event next index) (honce : page.SentOnce past index) :
    next.SentOnce (past ++ [event]) index := by
  obtain ⟨hfetches, hexpiries, hnone⟩ := honce
  refine ⟨hsame.fetches.trans hfetches, hsame.expiries.trans hexpiries, ?_⟩
  intro refresh response hwaited
  exact hnone refresh response (hsame.waited refresh response hwaited)

theorem Repeated.snoc {page next : Page T} {past : List (Event T)} {event : Event T} {index : ℕ}
    {caller : Caller} (hsame : page.SameFor past event next index)
    (hstep : page.step event = some next) (hrepeated : page.Repeated past index caller) :
    next.Repeated (past ++ [event]) index caller := by
  obtain ⟨hfetches, hexpiries, hcaller, refresh, response, hwaited, h401, hok⟩ := hrepeated
  exact ⟨hsame.fetches.trans hfetches, hsame.expiries.trans hexpiries, hcaller, refresh,
    response, hwaited.snoc event, h401, hok.snoc hstep⟩

theorem Concluded.snoc {page next : Page T} {past : List (Event T)} {event : Event T}
    {index : ℕ} {caller : Caller} {outcome : Except Failure (Response T)}
    (hsame : page.SameFor past event next index) (hstep : page.step event = some next)
    (hconcluded : page.Concluded past index caller outcome) :
    next.Concluded (past ++ [event]) index caller outcome := by
  obtain ⟨hcame, ⟨honce, hfinal⟩ | hrepeated | hexpired⟩ := hconcluded
  · exact ⟨hcame.snoc event, Or.inl ⟨honce.snoc hsame, hfinal⟩⟩
  · exact ⟨hcame.snoc event, Or.inr (Or.inl (hrepeated.snoc hsame hstep))⟩
  · obtain ⟨hfetches, hexpiries, hcaller, refresh, response, hwaited, h401, hreturned, hfailed⟩ :=
      hexpired
    exact ⟨hcame.snoc event, Or.inr (Or.inr ⟨hsame.fetches.trans hfetches,
      hsame.expiries.trans hexpiries, hcaller, refresh, response, hwaited.snoc event, h401,
      hreturned, hfailed.snoc hstep⟩)⟩

theorem Accounted.snoc {page next : Page T} {past : List (Event T)} {event : Event T}
    {index : ℕ} {caller : Caller} {phase : Phase T} (hsame : page.SameFor past event next index)
    (hstep : page.step event = some next) (haccounted : page.Accounted past index caller phase) :
    next.Accounted (past ++ [event]) index caller phase := by
  cases phase with
  | fetching bearer retry =>
      rcases haccounted with ⟨honce, hretry⟩ | ⟨hretry, hrepeated⟩
      · exact Or.inl ⟨honce.snoc hsame, hretry⟩
      · exact Or.inr ⟨hretry, hrepeated.snoc hsame hstep⟩
  | awaiting refresh response =>
      obtain ⟨hfetches, hexpiries, hcaller, hwaited, h401⟩ := haccounted
      exact ⟨hsame.fetches.trans hfetches, hsame.expiries.trans hexpiries, hcaller,
        hwaited.snoc event, h401⟩
  | returned outcome => exact Concluded.snoc hsame hstep haccounted
  | done outcome => exact Concluded.snoc hsame hstep haccounted

/-- The calls stay as they are, and what they have sent. -/
theorem Audited.of_same {page next : Page T} {past : List (Event T)} {event : Event T}
    (haudited : page.Audited past) (hstep : page.step event = some next)
    (hcalls : next.calls = page.calls)
    (hsame : ∀ index, page.SameFor past event next index) : next.Audited (past ++ [event]) := by
  constructor
  · intro index caller phase hcall
    rw [hcalls] at hcall
    exact (haudited.accounted index caller phase hcall).snoc (hsame index) hstep
  · intro index hbeyond
    rw [hcalls] at hbeyond
    exact (hsame index).silent (haudited.silent index hbeyond)

/-- One call moves on, and only it sends something. -/
theorem Audited.of_set {page next : Page T} {past : List (Event T)} {event : Event T}
    {index : ℕ} {caller : Caller} {old : Caller × Phase T} {phase : Phase T}
    (haudited : page.Audited past) (hstep : page.step event = some next)
    (hcall : page.calls[index]? = some old)
    (hcalls : next.calls = page.calls.set index (caller, phase))
    (hsame : ∀ other, other ≠ index → page.SameFor past event next other)
    (hphase : next.Accounted (past ++ [event]) index caller phase) :
    next.Audited (past ++ [event]) := by
  constructor
  · intro other waiting found hother
    rw [hcalls] at hother
    rcases getElem?_set_cases hcall hother with ⟨hplace, hentry⟩ | ⟨hne, hold⟩
    · cases hentry
      rw [hplace]
      exact hphase
    · exact (haudited.accounted other waiting found hold).snoc (hsame other hne) hstep
  · intro other hbeyond
    rw [hcalls, List.length_set] at hbeyond
    have hne : other ≠ index := by
      have hbelow := (List.getElem?_eq_some_iff.mp hcall).1
      omega
    exact (hsame other hne).silent (haudited.silent other hbeyond)

theorem refreshTokens_sends (page : Page T) :
    page.refreshTokens.1.calls = page.calls ∧
      (∀ index, page.refreshTokens.1.fetches index = page.fetches index) ∧
      ∀ index, page.refreshTokens.1.expiries index = page.expiries index := by
  rw [refreshTokens]
  split
  next => exact ⟨rfl, fun index => rfl, fun index => rfl⟩
  next =>
      refine ⟨rfl, fun index => ?_, fun index => ?_⟩
      · simp [fetches, Output.isFetch]
      · simp [expiries, Output.isExpiry]

section Steps

variable {page : Page T} {past : List (Event T)} {index : ℕ} {caller : Caller}

/-- Only an answer to a call makes it wait. -/
theorem waited_of_other {next : Page T} {event : Event T}
    (hpast : Transition.exec step {} past = some page) (hstep : page.step event = some next)
    (hother : ∀ response, event ≠ .respond index response) (refresh : ℕ) (response : Response T)
    (hwaited : Waited (past ++ [event]) index refresh response) :
    Waited past index refresh response :=
  waited_of_snoc hpast hstep (fun hevent => absurd hevent (hother response)) hwaited

/-- A call begins. -/
theorem Audited.call (hpast : Transition.exec step {} past = some page)
    (haudited : page.Audited past) :
    ({ page.send page.calls.length with
      calls := page.calls ++ [(caller, .fetching page.accessToken caller.retry)] } :
        Page T).Audited (past ++ [.call caller]) := by
  have hstep : page.step (.call caller) = some { page.send page.calls.length with
      calls := page.calls ++ [(caller, .fetching page.accessToken caller.retry)] } := rfl
  have hsame (other : ℕ) (hne : other ≠ page.calls.length) :
      page.SameFor past (.call caller)
        { page.send page.calls.length with
          calls := page.calls ++ [(caller, .fetching page.accessToken caller.retry)] } other := by
    constructor
    · exact (page.fetches_send _ _).trans (by rw [if_neg (Ne.symm hne), Nat.add_zero])
    · exact page.expiries_send _ _
    · exact waited_of_other hpast hstep nofun
  constructor
  · intro other waiting phase hcall
    rcases getElem?_concat_iff.mp hcall with hold | ⟨hplace, hnew⟩
    · have hne : other ≠ page.calls.length :=
        Nat.ne_of_lt (List.getElem?_eq_some_iff.mp hold).1
      exact (haudited.accounted other waiting phase hold).snoc (hsame other hne) hstep
    · cases hnew
      subst hplace
      obtain ⟨hfetches, hexpiries, hnone⟩ := haudited.silent page.calls.length (Nat.le_refl _)
      refine Or.inl ⟨⟨?_, ?_, ?_⟩, rfl⟩
      · exact (page.fetches_send _ _).trans (by rw [if_pos rfl, hfetches])
      · exact (page.expiries_send _ _).trans hexpiries
      · intro refresh response hwaited
        exact hnone refresh response
          (waited_of_other hpast hstep nofun refresh response hwaited)
  · intro other hbeyond
    rw [List.length_append, List.length_singleton] at hbeyond
    have hne : other ≠ page.calls.length := Nat.ne_of_gt hbeyond
    exact (hsame other hne).silent (haudited.silent other (Nat.le_of_succ_le hbeyond))

/-- The first answer to a call is a 401, and it waits for the refresh that is pending. -/
theorem Audited.wait {bearer : Option T} {response : Response T}
    (hpast : Transition.exec step {} past = some page) (haudited : page.Audited past)
    (hstep : page.step (.respond index response) =
      some (page.refreshTokens.1.move index caller (.awaiting page.refreshTokens.2 response)))
    (hcall : page.calls[index]? = some (caller, .fetching bearer true))
    (hstatus : response.status = 401) (hauth : caller.isAuth = false) :
    (page.refreshTokens.1.move index caller
      (.awaiting page.refreshTokens.2 response)).Audited (past ++ [.respond index response]) := by
  obtain ⟨hcalls, hfetches, hexpiries⟩ := page.refreshTokens_sends
  obtain ⟨_, hpending, _⟩ := refreshTokens_flight (run_flight hpast)
  have hnew : (page.refreshTokens.1.move index caller
      (.awaiting page.refreshTokens.2 response)).calls[index]? =
        some (caller, .awaiting page.refreshTokens.2 response) := by
    rw [move, hcalls]
    exact List.getElem?_set_self (List.getElem?_eq_some_iff.mp hcall).1
  refine haudited.of_set hstep hcall (by rw [move, hcalls]) (fun other hne => ?_) ?_
  · refine ⟨hfetches other, hexpiries other, waited_of_other hpast hstep ?_⟩
    rintro given hevent
    cases hevent
    exact hne rfl
  · rcases haudited.accounted index caller _ hcall with ⟨honce, hretry⟩ | ⟨hretry, _⟩
    · refine ⟨(hfetches index).trans honce.1, (hexpiries index).trans honce.2.1, ?_, ?_, hstatus⟩
      · rw [Caller.refreshes, ← hretry, hauth]
        rfl
      · exact ⟨past, _, caller, List.prefix_refl _,
          Transition.exec_snoc_eq_some_iff.mpr ⟨page, hpast, hstep⟩, hpending, hnew⟩
    · cases hretry

/-- A `fetch` of a call comes to the outcome of the call. -/
theorem Audited.conclude {bearer : Option T} {retry : Bool} {event : Event T}
    {outcome : Except Failure (Response T)}
    (hpast : Transition.exec step {} past = some page) (haudited : page.Audited past)
    (hstep : page.step event = some (page.move index caller (.returned outcome)))
    (hcall : page.calls[index]? = some (caller, .fetching bearer retry))
    (hevent : ∀ other response, event = .respond other response → other = index)
    (hcame : Came (past ++ [event]) index outcome)
    (hfinal : Unauthorized outcome → retry = true → caller.isAuth = true) :
    (page.move index caller (.returned outcome)).Audited (past ++ [event]) := by
  have hnew : (page.move index caller (.returned outcome)).calls[index]? =
      some (caller, .returned outcome) :=
    List.getElem?_set_self (List.getElem?_eq_some_iff.mp hcall).1
  have hsame (other : ℕ) :
      page.SameFor past event (page.move index caller (.returned outcome)) other := by
    refine ⟨rfl, rfl, fun refresh response => waited_of_snoc hpast hstep ?_⟩
    intro hrespond waiting hawaiting
    rw [hevent other response hrespond, hnew] at hawaiting
    cases hawaiting
  refine haudited.of_set hstep hcall rfl (fun other _ => hsame other) ?_
  rcases haudited.accounted index caller _ hcall with ⟨honce, hretry⟩ | ⟨_, hrepeated⟩
  · refine ⟨hcame, Or.inl ⟨honce.snoc (hsame index), fun h401 => ?_⟩⟩
    rw [Caller.refreshes, ← hretry]
    cases retry with
    | false => rfl
    | true => rw [hfinal h401 rfl]; rfl
  · exact ⟨hcame, Or.inr (Or.inl (hrepeated.snoc (hsame index) hstep))⟩

/-- The refresh a call has waited for has settled. -/
theorem Audited.resume {refresh : ℕ} {response : Response T} {ok : Bool}
    (hpast : Transition.exec step {} past = some page) (haudited : page.Audited past)
    (hstep : page.step (.resume index) = some (page.onRefreshed index caller response ok))
    (hcall : page.calls[index]? = some (caller, .awaiting refresh response))
    (hsettled : page.refreshes[refresh]? = some (.settled ok)) :
    (page.onRefreshed index caller response ok).Audited (past ++ [.resume index]) := by
  obtain ⟨hone, hnone, hcaller, hwaited, h401⟩ := haudited.accounted index caller _ hcall
  obtain ⟨told, htold, hbrings⟩ := run_told hpast refresh _ ok hsettled rfl
  have hwaitedStill := hwaited.snoc (.resume index)
  have htoldStill := List.mem_append_left [.resume index] htold
  have hwaits (other : ℕ) : ∀ refresh response,
      Waited (past ++ [.resume index]) other refresh response →
        Waited past other refresh response :=
    waited_of_other hpast hstep nofun
  cases ok with
  | true =>
      refine haudited.of_set hstep hcall rfl (fun other hne => ⟨?_, ?_, hwaits other⟩) ?_
      · exact (page.fetches_send _ _).trans (by rw [if_neg (Ne.symm hne), Nat.add_zero])
      · exact page.expiries_send _ _
      · refine Or.inr ⟨rfl, ?_, ?_, hcaller, refresh, response, hwaitedStill, h401, hsettled,
          told, htoldStill, hbrings⟩
        · exact (page.fetches_send _ _).trans (by rw [if_pos rfl, hone])
        · exact (page.expiries_send _ _).trans hnone
  | false =>
      refine haudited.of_set hstep hcall rfl (fun other hne => ⟨?_, ?_, hwaits other⟩) ?_
      · exact page.fetches_expire _ _
      · exact (page.expiries_expire _ _).trans (by rw [if_neg (Ne.symm hne), Nat.add_zero])
      · -- The 401 that the call returns came with the answer it waited after.
        have hcame : .respond index response ∈ past := by
          obtain ⟨before, _, _, hprefix, _⟩ := hwaited
          exact hprefix.subset (List.mem_append_right _ (List.mem_singleton_self _))
        refine ⟨List.mem_append_left _ hcame, Or.inr (Or.inr ⟨?_, ?_, hcaller, refresh, response,
          hwaitedStill, h401, rfl, hsettled, told, htoldStill, hbrings⟩)⟩
        · exact (page.fetches_expire _ _).trans hone
        · exact (page.expiries_expire _ _).trans (by rw [if_pos rfl, hnone])

end Steps

theorem step_audited {page next : Page T} {past : List (Event T)} {event : Event T}
    (hpast : Transition.exec step {} past = some page) (haudited : page.Audited past)
    (hstep : page.step event = some next) : next.Audited (past ++ [event]) := by
  cases step_cases hstep with
  | calls caller => exact haudited.call hpast
  | restores =>
      obtain ⟨hcalls, hfetches, hexpiries⟩ := page.refreshTokens_sends
      exact haudited.of_same hstep hcalls fun index =>
        ⟨hfetches index, hexpiries index, waited_of_other hpast hstep nofun⟩
  | refreshes index caller bearer response hcall hstatus hauth =>
      exact haudited.wait hpast hstep hcall hstatus hauth
  | returns index caller bearer retry response hcall hfinal =>
      refine haudited.conclude hpast hstep hcall ?_ ?_ hfinal
      · rintro other given hevent
        cases hevent
        rfl
      · exact List.mem_append_right _ (List.mem_singleton_self _)
  | rejects index caller bearer retry failure hcall =>
      refine haudited.conclude hpast hstep hcall nofun ?_ False.elim
      exact List.mem_append_right _ (List.mem_singleton_self _)
  | answers refresh response hsent =>
      obtain ⟨token, ok, hanswer⟩ := page.onAnswer_eq refresh response
      rw [hanswer] at hstep ⊢
      exact haudited.of_same hstep rfl fun index =>
        ⟨rfl, rfl, waited_of_other hpast hstep nofun⟩
  | settles refresh ok hanswered =>
      exact haudited.of_same hstep rfl fun index =>
        ⟨rfl, rfl, waited_of_other hpast hstep nofun⟩
  | resumes index caller refresh response ok hcall hsettled =>
      exact haudited.resume hpast hstep hcall hsettled
  | finishes index caller outcome hcall =>
      obtain ⟨token, houtcome⟩ := page.onOutcome_eq caller outcome
      rw [houtcome] at hstep ⊢
      have hsame (other : ℕ) : page.SameFor past (.finish index)
          (({ page with accessToken := token } : Page T).move index caller (.done outcome))
          other :=
        ⟨rfl, rfl, waited_of_other hpast hstep nofun⟩
      refine haudited.of_set hstep hcall rfl (fun other _ => hsame other) ?_
      exact Concluded.snoc (hsame index) hstep (haudited.accounted index caller _ hcall)

/-- A call of the page sends its request once, or a second time after a 401 and a refresh
that succeeded; it signals the end of the session exactly when the refresh it waited for has
failed, and then returns the 401.  Requests to `/auth/` are never repeated and never end a
session. -/
theorem run_accounted {page : Page T} {events : List (Event T)} {index : ℕ} {caller : Caller}
    {phase : Phase T} (hrun : Transition.exec step {} events = some page)
    (hcall : page.calls[index]? = some (caller, phase)) :
    page.Accounted events index caller phase := by
  have haudited : page.Audited events := by
    apply Transition.exec_induction (motive := fun past state => state.Audited past) ?_ ?_ hrun
    · constructor
      · intro place waiting found hplace
        cases hplace
      · intro place _
        refine ⟨rfl, rfl, ?_⟩
        rintro refresh response ⟨before, _, _, hprefix, _⟩
        exact absurd (List.prefix_nil.mp hprefix) (by simp)
    · intro past state event next hpast hinv hnext
      exact step_audited hpast hinv hnext
  exact haudited.accounted index caller phase hcall

/-- Both lists are requested once more, after one refresh. -/
theorem run_accounted_twice :
    ∃ page, Transition.exec step {} sampleEvents = some page ∧
      page.Accounted sampleEvents 0 (.plain "/documents".toList) (.done (.ok ⟨200, none⟩)) := by
  obtain ⟨page, hrun⟩ := sample_runs
  have hcalls : ((Transition.exec step {} sampleEvents).bind fun page => page.calls[0]?) =
      some (.plain "/documents".toList, .done (.ok ⟨200, none⟩)) := by decide +kernel
  rw [hrun] at hcalls
  exact ⟨page, hrun, run_accounted hrun hcalls⟩

end Page

end AgenticRag.ApiClient
