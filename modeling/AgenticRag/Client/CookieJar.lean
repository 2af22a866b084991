import AgenticRag.Auth.Rotation
import AgenticRag.Client.ApiClient

/-!
# The page and its refresh cookie

The page together with the cookie jar of its browser and the authentication endpoints.
A refresh carries the cookie that the jar held when the page sent it, and the answer of
the server replaces the cookie.  All other requests, of this page and of anyone else,
reach the server as they do without the page.
-/

namespace AgenticRag.Auth

variable {K : Type*} [Field K] [LinearOrder K] [FloorRing K]

/-- A refresh request for the token that has been neither refused nor broken off. -/
def Phase.presents (token : Token K) : Phase K → Bool
  | .checking (.act .rotate) presented => presented = token
  | phase => phase.passed token

/-- A new pair with this refresh token. -/
def Phase.mints (token : Token K) : Phase K → Bool
  | .committing _ _ refresh => refresh = token
  | .granted _ _ refresh => refresh = token
  | _ => false

omit [Field K] [FloorRing K] in
theorem Phase.presents_of_passed {token : Token K} {phase : Phase K}
    (hpassed : phase.passed token = true) : phase.presents token = true := by
  unfold presents
  split
  next => cases hpassed
  next => exact hpassed

omit [Field K] [FloorRing K] in
/-- A request that is past the check and has been answered has got a new pair. -/
theorem Phase.grants_of_passed {token : Token K} {phase : Phase K}
    (hpassed : phase.passed token = true) (hdone : phase.isDone = true) :
    phase.grants token = true := by
  cases phase with
  | granted origin access refresh =>
      cases origin with
      | login userId password => cases hpassed
      | refresh presented => exact hpassed
  | authenticated token => cases hpassed
  | closed => cases hpassed
  | finished op userId => cases hpassed
  | refused error => cases hpassed
  | failed => cases hpassed
  | _ => cases hdone

/-- A request presents its token from the start. -/
theorem Moves.presents {bcrypt : Bcrypt} {settings : TokenSettings} {server : Server K}
    {jti : Uuid} {phase next : Phase K} {issued : List (Token K)} {token : Token K}
    (hmoves : Moves bcrypt settings server jti phase issued next)
    (hpresents : next.presents token = true) : phase.presents token = true := by
  have hpassed : next.passed token = true := by
    cases hmoves with
    | rest _ _ hidle =>
        cases next with
        | checking => cases hidle
        | _ => exact hpresents
    | _ => exact hpresents
  rcases hmoves.passed hpassed with hbefore | ⟨hcheck, _⟩
  · exact Phase.presents_of_passed hbefore
  · rw [hcheck]
    exact decide_eq_true rfl

/-- A refresh token is minted in one place. -/
theorem Moves.mints {bcrypt : Bcrypt} {settings : TokenSettings} {server : Server K}
    {jti : Uuid} {phase next : Phase K} {issued : List (Token K)} {token : Token K}
    (hmoves : Moves bcrypt settings server jti phase issued next)
    (hmints : next.mints token = true) :
    phase.mints token = true ∨
      ∃ origin access, phase = .issuingRefresh origin access ∧
        token = createRefreshToken settings origin.subject server.clock jti ∧
        issued = token :: server.issued := by
  cases hmoves with
  | issueRefresh origin access =>
      obtain rfl := of_decide_eq_true hmints
      exact Or.inr ⟨origin, access, rfl, rfl, rfl⟩
  | commit origin access refresh => exact Or.inl hmints
  | rest _ _ hidle =>
      cases next with
      | committing => cases hidle
      | granted => cases hidle
      | _ => cases hmints
  | _ => cases hmints

namespace Server

variable {bcrypt : Bcrypt} {settings : TokenSettings}

theorem advance_of_done {server : Server K} {jti : Uuid} {phase : Phase K}
    (hdone : phase.isDone = true) : server.advance bcrypt settings jti phase = none := by
  cases phase with
  | authenticated token => rfl
  | granted origin access refresh => rfl
  | closed => rfl
  | finished op userId => rfl
  | refused error => rfl
  | failed => rfl
  | _ => cases hdone

/-- What has been answered stays as it is. -/
theorem step_done {server next : Server K} {event : Event K} {index : ℕ} {phase : Phase K}
    (hstep : step bcrypt settings server event = some next)
    (hphase : server.requests[index]? = some phase) (hdone : phase.isDone = true) :
    next.requests[index]? = some phase := by
  cases event with
  | tick later =>
      rw [step] at hstep
      split at hstep <;> cases hstep
      exact hphase
  | arrive request =>
      cases hstep
      exact Positions.getElem?_concat_iff.mpr (.inl hphase)
  | proceed place jti =>
      obtain ⟨before, hbefore, hmove⟩ := Option.bind_eq_some_iff.mp hstep
      obtain ⟨moved, hmoved, rfl⟩ := Option.map_eq_some_iff.mp hmove
      have hne : place ≠ index := by
        rintro rfl
        rw [hphase] at hbefore
        cases hbefore
        rw [advance_of_done hdone] at hmoved
        cases hmoved
      exact (List.getElem?_set_ne hne).trans hphase
  | fail place =>
      obtain ⟨before, hbefore, hfail⟩ := Option.bind_eq_some_iff.mp hstep
      have hne : place ≠ index := by
        rintro rfl
        rw [hphase] at hbefore
        cases hbefore
        rw [if_pos hdone] at hfail
        cases hfail
      split at hfail
      next => cases hfail
      next =>
          cases hfail
          exact (List.getElem?_set_ne hne).trans hphase

/-- No request disappears, and an arriving one comes last. -/
theorem step_length {server next : Server K} {event : Event K}
    (hstep : step bcrypt settings server event = some next) :
    server.requests.length ≤ next.requests.length := by
  rcases step_cases hstep with ⟨later, _, _, rfl⟩ | ⟨request, _, rfl⟩ |
    ⟨index, jti, phase, moved, _, _, _, rfl⟩ | ⟨index, _, rfl⟩
  · exact Nat.le_refl _
  · rw [List.length_append]
    exact Nat.le_add_right _ _
  · exact Nat.le_of_eq (List.length_set ..).symm
  · exact Nat.le_of_eq (List.length_set ..).symm

omit [Field K] [LinearOrder K] [FloorRing K] in
/-- What stands among the requests after one of them has failed, and has not failed. -/
theorem of_set_failed {requests : List (Phase K)} {place index : ℕ} {phase : Phase K}
    (hphase : (requests.set place .failed)[index]? = some phase) (hne : phase ≠ .failed) :
    requests[index]? = some phase := by
  by_cases hplace : place = index
  · rw [hplace, List.getElem?_set_self'] at hphase
    obtain ⟨_, _, hfailed⟩ := Option.map_eq_some_iff.mp hphase
    exact absurd hfailed.symm hne
  · rwa [List.getElem?_set_ne hplace] at hphase

/-- A request that presents a refresh token when it arrives is a refresh with that token. -/
theorem opened_presents {server : Server K} {request : Request K} {token : Token K}
    (hpresents : (server.opened request).presents token = true) :
    request = .refresh (some token) := by
  cases request with
  | login email password => cases hpresents
  | refresh presented =>
      cases presented with
      | none => cases hpresents
      | some found =>
          rw [opened] at hpresents
          split at hpresents
          next => cases hpresents
          next =>
              split at hpresents
              next => cases hpresents
              next => rw [of_decide_eq_true hpresents]
  | logout access cookie =>
      rw [opened, openBearer] at hpresents
      split at hpresents
      next => cases hpresents
      next => split at hpresents <;> cases hpresents
  | me access =>
      rw [opened, openBearer] at hpresents
      split at hpresents
      next => cases hpresents
      next => split at hpresents <;> cases hpresents
  | admin op userId => cases hpresents

theorem opened_not_mints (server : Server K) (request : Request K) (token : Token K) :
    (server.opened request).mints token = false := by
  rcases server.opened_cases request with ⟨email, password, hopened⟩ |
    ⟨op, userId, hopened⟩ | ⟨error, hopened⟩ | ⟨purpose, presented, hopened, _⟩
  all_goals rw [hopened]; rfl

/-- Which requests present the token after a step. -/
theorem step_presents {server next : Server K} {event : Event K} {index : ℕ}
    {phase : Phase K} {token : Token K}
    (hstep : step bcrypt settings server event = some next)
    (hphase : next.requests[index]? = some phase) (hpresents : phase.presents token = true) :
    (∃ before, server.requests[index]? = some before ∧ before.presents token = true) ∨
      (event = .arrive (.refresh (some token)) ∧ index = server.requests.length) := by
  rcases step_cases hstep with ⟨later, _, _, rfl⟩ | ⟨request, hevent, rfl⟩ |
    ⟨place, jti, before, moved, _, hbefore, hmoved, rfl⟩ | ⟨place, _, rfl⟩
  · exact Or.inl ⟨phase, hphase, hpresents⟩
  · rcases Positions.getElem?_concat_iff.mp hphase with hold | ⟨hplace, rfl⟩
    · exact Or.inl ⟨phase, hold, hpresents⟩
    · refine Or.inr ⟨?_, hplace⟩
      rw [hevent]
      exact congrArg Event.arrive (opened_presents hpresents)
  · rcases Positions.getElem?_set_cases hbefore hphase with ⟨hplace, rfl⟩ | ⟨_, hold⟩
    · rw [hplace]
      exact Or.inl ⟨before, hbefore, (advance_moves hmoved).presents hpresents⟩
    · exact Or.inl ⟨phase, hold, hpresents⟩
  · refine Or.inl ⟨phase, of_set_failed hphase ?_, hpresents⟩
    rintro rfl
    cases hpresents

/-- Which requests have minted the token after a step. -/
theorem step_mints {server next : Server K} {event : Event K} {index : ℕ}
    {phase : Phase K} {token : Token K}
    (hstep : step bcrypt settings server event = some next)
    (hphase : next.requests[index]? = some phase) (hmints : phase.mints token = true) :
    (∃ before, server.requests[index]? = some before ∧ before.mints token = true) ∨
      (∃ jti origin access, event = .proceed index jti ∧
        server.requests[index]? = some (.issuingRefresh origin access) ∧
        token = createRefreshToken settings origin.subject server.clock jti ∧
        next.issued = token :: server.issued) := by
  rcases step_cases hstep with ⟨later, _, _, rfl⟩ | ⟨request, hevent, rfl⟩ |
    ⟨place, jti, before, moved, hevent, hbefore, hmoved, rfl⟩ | ⟨place, _, rfl⟩
  · exact Or.inl ⟨phase, hphase, hmints⟩
  · rcases Positions.getElem?_concat_iff.mp hphase with hold | ⟨_, rfl⟩
    · exact Or.inl ⟨phase, hold, hmints⟩
    · rw [opened_not_mints] at hmints
      cases hmints
  · rcases Positions.getElem?_set_cases hbefore hphase with ⟨hplace, rfl⟩ | ⟨_, hold⟩
    · rw [hplace]
      rcases (advance_moves hmoved).mints hmints with hold | ⟨origin, access, rfl, hminted, hissued⟩
      · exact Or.inl ⟨before, hbefore, hold⟩
      · exact Or.inr ⟨jti, origin, access, hevent, hbefore, hminted, hissued⟩
    · exact Or.inl ⟨phase, hold, hmints⟩
  · refine Or.inl ⟨phase, of_set_failed hphase ?_, hmints⟩
    rintro rfl
    cases hmints

end Server

/-- The response to a request that has been answered. -/
def Phase.response : Phase K → Option (ApiClient.Response (Token K))
  | .granted _ access _ => some ⟨200, some (some access)⟩
  | .authenticated _ => some ⟨200, none⟩
  | .closed => some ⟨204, none⟩
  | .finished _ _ => some ⟨200, none⟩
  | .refused error => some ⟨error.status, none⟩
  | .failed => some ⟨500, none⟩
  | _ => none

/-- The refresh with this token. -/
def Request.carries (token : Token K) : Request K → Bool
  | .refresh (some presented) => presented = token
  | _ => false

/-- The next step of the request mints this refresh token. -/
def Phase.willMint (settings : TokenSettings) (clock : K) (jti : Uuid) (token : Token K) :
    Phase K → Bool
  | .issuingRefresh origin _ => createRefreshToken settings origin.subject clock jti = token
  | _ => false

omit [Field K] [LinearOrder K] [FloorRing K] in
theorem Phase.isDone_of_response {phase : Phase K} {response : ApiClient.Response (Token K)}
    (hresponse : phase.response = some response) : phase.isDone = true := by
  cases phase <;> first | rfl | cases hresponse

/-- `_set_refresh_cookie` -/
def Phase.setCookie : Phase K → Option (Token K)
  | .granted _ _ refresh => some refresh
  | _ => none

end AgenticRag.Auth

namespace AgenticRag.CookieJar

open Auth (Token Server Phase Request Bcrypt TokenSettings)
open ApiClient (Page Response)
open Positions

/-- Who waits for the answer: a run of `refreshTokens`, or a call of `login`. -/
inductive Owner where
  | refresh (index : ℕ)
  | login (call : ℕ)
  deriving DecidableEq

/-- How far a request has come. -/
inductive Stage where
  | travelling
  | serving (index : ℕ)
  | answered (index : ℕ)
  | lost
  deriving DecidableEq

/-- The request of the server that it has become. -/
def Stage.route : Stage → Option ℕ
  | .serving index => some index
  | .answered index => some index
  | _ => none

/-- The page still waits. -/
def Stage.isOpen : Stage → Bool
  | .travelling => true
  | .serving _ => true
  | _ => false

/-- A refresh or a login that the page has sent. -/
structure Post (K : Type*) where
  owner : Owner
  request : Request K
  stage : Stage := .travelling

/-- The page is the only tab of its browser: the jar takes the cookies of its own answers and
of no others. -/
structure World (K : Type*) where
  server : Server K
  page : Page (Token K) := {}
  jar : Option (Token K) := none
  posts : List (Post K) := []

inductive Event (K : Type*) where
  /-- the server goes on, or receives any other request -/
  | serve (event : Auth.Event K)
  /-- the page goes on, or receives any other response -/
  | act (event : ApiClient.Event (Token K))
  | signIn (email password : String)
  | arrive (post : ℕ)
  /-- the response arrives, with a body that can be read or not -/
  | answer (post : ℕ) (readable : Bool)
  | lose (post : ℕ)
  /-- the cookie is deleted, by a logout, by its age or by hand -/
  | dropCookie

/-- The page receives the outcome of a request; none where its `fetch` raises. -/
def Owner.receive {K : Type*} (owner : Owner) (response : Option (Response (Token K))) :
    ApiClient.Event (Token K) :=
  match owner with
  | .refresh index => .answer index response
  | .login call => response.elim (.reject call .unreachable) (.respond call)

variable {K : Type*}

namespace World

/-- The page has gone on; a refresh that it has begun carries the cookie of the jar. -/
def post (world : World K) (page : Page (Token K)) : World K :=
  if page.refreshes.length = world.page.refreshes.length then { world with page := page }
  else
    { world with
      page := page
      posts := world.posts ++
        [{ owner := .refresh world.page.refreshes.length, request := .refresh world.jar }] }

/-! ## The requests of the page -/

/-- Every refresh of the page has its own run, and every request its own place at the
server. -/
structure Labelled (world : World K) : Prop where
  owners : ∀ (index : ℕ) (post : Post K) (run : ℕ), world.posts[index]? = some post →
    post.owner = .refresh run → run < world.page.refreshes.length
  distinct : ∀ (first second : ℕ) (post other : Post K) (run : ℕ),
    world.posts[first]? = some post → world.posts[second]? = some other →
    post.owner = .refresh run → other.owner = .refresh run → first = second
  kinds : ∀ (index : ℕ) (post : Post K) (presented : Option (Token K)),
    world.posts[index]? = some post → post.request = .refresh presented →
    ∃ run, post.owner = .refresh run
  routes : ∀ (index : ℕ) (post : Post K) (route : ℕ), world.posts[index]? = some post →
    post.stage.route = some route → route < world.server.requests.length
  apart : ∀ (first second : ℕ) (post other : Post K) (route : ℕ),
    world.posts[first]? = some post → world.posts[second]? = some other →
    post.stage.route = some route → other.stage.route = some route → first = second

/-- A refresh that the page waits for is under way in the page. -/
structure Linked (world : World K) : Prop extends Labelled world where
  flight : world.page.SingleFlight
  sent : ∀ (index : ℕ) (post : Post K) (run : ℕ), world.posts[index]? = some post →
    post.owner = .refresh run → post.stage.isOpen = true →
    world.page.refreshes[run]? = some .sent

/-- The page waits for one refresh at most. -/
theorem Linked.one_open {world : World K} (hlinked : world.Linked) {first second : ℕ}
    {post other : Post K} {presented found : Option (Token K)}
    (hfirst : world.posts[first]? = some post) (hsecond : world.posts[second]? = some other)
    (hpost : post.request = .refresh presented) (hother : other.request = .refresh found)
    (hopen : post.stage.isOpen = true) (hopenOther : other.stage.isOpen = true) :
    first = second := by
  obtain ⟨run, hrun⟩ := hlinked.kinds first post presented hfirst hpost
  obtain ⟨run', hrun'⟩ := hlinked.kinds second other found hsecond hother
  have hsent := hlinked.sent first post run hfirst hrun hopen
  have hsent' := hlinked.sent second other run' hsecond hrun' hopenOther
  have hkept := hlinked.flight.kept run .sent hsent rfl
  have hkept' := hlinked.flight.kept run' .sent hsent' rfl
  have hsame : run = run' := Option.some.inj (hkept.symm.trans hkept')
  rw [← hsame] at hrun'
  exact hlinked.distinct first second post other run hfirst hsecond hrun hrun'

/-! ### The page goes on -/

@[simp]
theorem post_server (world : World K) (page : Page (Token K)) :
    (world.post page).server = world.server := by
  rw [World.post]
  split <;> rfl

@[simp]
theorem post_page (world : World K) (page : Page (Token K)) :
    (world.post page).page = page := by
  rw [World.post]
  split <;> rfl

@[simp]
theorem post_jar (world : World K) (page : Page (Token K)) :
    (world.post page).jar = world.jar := by
  rw [World.post]
  split <;> rfl

/-- What stands among the posts after the page has gone on. -/
theorem getElem?_post {world : World K} {page : Page (Token K)} {index : ℕ} {post : Post K}
    (hpost : (world.post page).posts[index]? = some post) :
    world.posts[index]? = some post ∨
      (index = world.posts.length ∧ page.refreshes.length ≠ world.page.refreshes.length ∧
        post = ⟨.refresh world.page.refreshes.length, .refresh world.jar, .travelling⟩) := by
  rw [World.post] at hpost
  split at hpost
  next => exact Or.inl hpost
  next hgrown =>
      rcases getElem?_concat_iff.mp hpost with hold | ⟨hplace, rfl⟩
      · exact Or.inl hold
      · exact Or.inr ⟨hplace, hgrown, rfl⟩

/-- A post that was there is still there. -/
theorem getElem?_post_of {world : World K} (page : Page (Token K)) {index : ℕ} {post : Post K}
    (hpost : world.posts[index]? = some post) :
    (world.post page).posts[index]? = some post := by
  rw [World.post]
  split
  next => exact hpost
  next => exact getElem?_concat_iff.mpr (.inl hpost)

theorem Labelled.post {world : World K} {page : Page (Token K)}
    (hlabelled : world.Labelled)
    (hlength : world.page.refreshes.length ≤ page.refreshes.length) :
    (world.post page).Labelled := by
  constructor
  · intro index post run hpost hrun
    rw [post_page]
    rcases getElem?_post hpost with hold | ⟨_, hgrown, rfl⟩
    · exact Nat.lt_of_lt_of_le (hlabelled.owners index post run hold hrun) hlength
    · cases hrun
      exact Nat.lt_of_le_of_ne hlength (Ne.symm hgrown)
  · intro first second post other run hfirst hsecond hrun hrun'
    rcases getElem?_post hfirst with hold | ⟨hplace, _, rfl⟩ <;>
      rcases getElem?_post hsecond with hold' | ⟨hplace', _, rfl⟩
    · exact hlabelled.distinct first second post other run hold hold' hrun hrun'
    · cases hrun'
      exact absurd (hlabelled.owners first post _ hold hrun) (Nat.lt_irrefl _)
    · cases hrun
      exact absurd (hlabelled.owners second other _ hold' hrun') (Nat.lt_irrefl _)
    · rw [hplace, hplace']
  · intro index post presented hpost hrequest
    rcases getElem?_post hpost with hold | ⟨_, _, rfl⟩
    · exact hlabelled.kinds index post presented hold hrequest
    · exact ⟨_, rfl⟩
  · intro index post route hpost hroute
    rw [post_server]
    rcases getElem?_post hpost with hold | ⟨_, _, rfl⟩
    · exact hlabelled.routes index post route hold hroute
    · cases hroute
  · intro first second post other route hfirst hsecond hroute hroute'
    rcases getElem?_post hfirst with hold | ⟨_, _, rfl⟩
    · rcases getElem?_post hsecond with hold' | ⟨_, _, rfl⟩
      · exact hlabelled.apart first second post other route hold hold' hroute hroute'
      · cases hroute'
    · cases hroute

/-- A post reaches another stage. -/
theorem Labelled.set {world : World K} {index : ℕ} {owner : Owner} {request : Request K}
    {stage next : Stage} (hlabelled : world.Labelled)
    (hpost : world.posts[index]? = some ⟨owner, request, stage⟩)
    (hroute : ∀ route, next.route = some route → route < world.server.requests.length ∧
      ∀ (other : ℕ) (found : Post K), world.posts[other]? = some found →
        found.stage.route = some route → other = index) :
    Labelled { world with posts := world.posts.set index ⟨owner, request, next⟩ } := by
  constructor
  · intro place post run hfound hrun
    rcases getElem?_set_cases hpost hfound with ⟨_, rfl⟩ | ⟨_, hold⟩
    · exact hlabelled.owners index _ run hpost hrun
    · exact hlabelled.owners place post run hold hrun
  · intro first second post other run hfirst hsecond hrun hrun'
    rcases getElem?_set_cases hpost hfirst with ⟨hplace, rfl⟩ | ⟨_, hold⟩ <;>
      rcases getElem?_set_cases hpost hsecond with ⟨hplace', rfl⟩ | ⟨_, hold'⟩
    · rw [hplace, hplace']
    · rw [hplace]
      exact hlabelled.distinct index second _ other run hpost hold' hrun hrun'
    · rw [hplace']
      exact hlabelled.distinct first index post _ run hold hpost hrun hrun'
    · exact hlabelled.distinct first second post other run hold hold' hrun hrun'
  · intro place post presented hfound hrequest
    rcases getElem?_set_cases hpost hfound with ⟨_, rfl⟩ | ⟨_, hold⟩
    · obtain ⟨run, hrun⟩ :=
        hlabelled.kinds index ⟨owner, request, stage⟩ presented hpost hrequest
      exact ⟨run, hrun⟩
    · exact hlabelled.kinds place post presented hold hrequest
  · intro place post route hfound hfoundRoute
    rcases getElem?_set_cases hpost hfound with ⟨_, rfl⟩ | ⟨_, hold⟩
    · exact (hroute route hfoundRoute).1
    · exact hlabelled.routes place post route hold hfoundRoute
  · intro first second post other route hfirst hsecond hfirstRoute hsecondRoute
    rcases getElem?_set_cases hpost hfirst with ⟨hplace, rfl⟩ | ⟨_, hold⟩ <;>
      rcases getElem?_set_cases hpost hsecond with ⟨hplace', rfl⟩ | ⟨_, hold'⟩
    · rw [hplace, hplace']
    · rw [hplace]
      exact ((hroute route hfirstRoute).2 second other hold' hsecondRoute).symm
    · rw [hplace']
      exact (hroute route hsecondRoute).2 first post hold hfirstRoute
    · exact hlabelled.apart first second post other route hold hold' hfirstRoute hsecondRoute

/-- The server may receive more requests. -/
theorem Labelled.serve {world : World K} {server : Server K} (hlabelled : world.Labelled)
    (hlength : world.server.requests.length ≤ server.requests.length) :
    Labelled { world with server := server } := by
  refine ⟨hlabelled.owners, hlabelled.distinct, hlabelled.kinds, ?_, hlabelled.apart⟩
  intro index post route hpost hroute
  exact Nat.lt_of_lt_of_le (hlabelled.routes index post route hpost hroute) hlength

/-- The page goes on, and what it waits for is still under way. -/
theorem Linked.post {world : World K} {page : Page (Token K)}
    {event : ApiClient.Event (Token K)} (hlabelled : world.Labelled)
    (hflight : world.page.SingleFlight)
    (hsent : ∀ (index : ℕ) (post : Post K) (run : ℕ), world.posts[index]? = some post →
      post.owner = .refresh run → post.stage.isOpen = true →
      page.refreshes[run]? = some .sent)
    (hpage : world.page.step event = some page) : (world.post page).Linked := by
  have hgrows := (Page.step_refreshes hpage).1
  have hlength : world.page.refreshes.length ≤ page.refreshes.length := by
    rcases hgrows with hsame | hnew
    · exact Nat.le_of_eq hsame.symm
    · exact Nat.le_of_lt (List.getElem?_eq_some_iff.mp hnew).1
  refine ⟨hlabelled.post hlength, ?_, ?_⟩
  · rw [post_page]
    exact Page.step_singleFlight hflight hpage
  · intro index post run hpost hrun hopen
    rw [post_page]
    rcases getElem?_post hpost with hold | ⟨_, hgrown, rfl⟩
    · exact hsent index post run hold hrun hopen
    · cases hrun
      exact hgrows.resolve_left hgrown

/-! ## Runs -/

variable [Field K] [LinearOrder K] [FloorRing K] (bcrypt : Bcrypt) (settings : TokenSettings)

def step (world : World K) : Event K → Option (World K)
  | .serve event =>
      (world.server.step bcrypt settings event).map fun server =>
        { world with server := server }
  | .act event =>
      if event.isAnswer then none else (world.page.step event).map world.post
  | .signIn email password =>
      (world.page.step (.call .login)).map fun page =>
        { world with
          page := page
          posts := world.posts ++
            [{ owner := .login world.page.calls.length, request := .login email password }] }
  | .arrive index =>
      match world.posts[index]? with
      | some ⟨owner, request, .travelling⟩ =>
          (world.server.step bcrypt settings (.arrive request)).map fun server =>
            { world with
              server := server
              posts := world.posts.set index
                ⟨owner, request, .serving world.server.requests.length⟩ }
      | _ => none
  | .answer index readable =>
      match world.posts[index]? with
      | some ⟨owner, request, .serving route⟩ =>
          (world.server.requests[route]?).bind fun phase =>
            phase.response.bind fun response =>
              let received := if readable then response else { response with body := none }
              (world.page.step (owner.receive (some received))).map
                (World.post { world with
                  jar := phase.setCookie.or world.jar
                  posts := world.posts.set index ⟨owner, request, .answered route⟩ })
      | _ => none
  | .lose index =>
      match world.posts[index]? with
      | some ⟨owner, request, stage⟩ =>
          if stage.isOpen then
            (world.page.step (owner.receive none)).map
              (World.post { world with posts := world.posts.set index ⟨owner, request, .lost⟩ })
          else none
      | none => none
  | .dropCookie => some { world with jar := none }

/-! ## What a step does -/

inductive Steps (world : World K) : Event K → World K → Prop where
  | serves (event : Auth.Event K) (server : Server K)
      (hserver : world.server.step bcrypt settings event = some server) :
      Steps world (.serve event) { world with server := server }
  | acts (event : ApiClient.Event (Token K)) (page : Page (Token K))
      (hpage : world.page.step event = some page)
      (hother : event.isAnswer = false) :
      Steps world (.act event) (world.post page)
  | signsIn (email password : String) (page : Page (Token K))
      (hpage : world.page.step (.call .login) = some page) :
      Steps world (.signIn email password)
        { world with
          page := page
          posts := world.posts ++
            [{ owner := .login world.page.calls.length, request := .login email password }] }
  | arrives (index : ℕ) (owner : Owner) (request : Request K) (server : Server K)
      (hpost : world.posts[index]? = some ⟨owner, request, .travelling⟩)
      (hserver : world.server.step bcrypt settings (.arrive request) = some server) :
      Steps world (.arrive index)
        { world with
          server := server
          posts := world.posts.set index ⟨owner, request, .serving world.server.requests.length⟩ }
  | answers (index : ℕ) (readable : Bool) (owner : Owner) (request : Request K) (route : ℕ)
      (phase : Phase K) (response received : Response (Token K)) (page : Page (Token K))
      (hpost : world.posts[index]? = some ⟨owner, request, .serving route⟩)
      (hphase : world.server.requests[route]? = some phase)
      (hresponse : phase.response = some response)
      (hpage : world.page.step (owner.receive (some received)) = some page) :
      Steps world (.answer index readable)
        (World.post { world with
          jar := phase.setCookie.or world.jar
          posts := world.posts.set index ⟨owner, request, .answered route⟩ } page)
  | loses (index : ℕ) (owner : Owner) (request : Request K) (stage : Stage)
      (page : Page (Token K))
      (hpost : world.posts[index]? = some ⟨owner, request, stage⟩)
      (hopen : stage.isOpen = true)
      (hpage : world.page.step (owner.receive none) = some page) :
      Steps world (.lose index)
        (World.post { world with posts := world.posts.set index ⟨owner, request, .lost⟩ } page)
  | drops : Steps world .dropCookie { world with jar := none }

variable {bcrypt settings}

theorem step_cases {world next : World K} {event : Event K}
    (hstep : world.step bcrypt settings event = some next) :
    Steps bcrypt settings world event next := by
  cases event with
  | serve event =>
      obtain ⟨server, hserver, rfl⟩ := Option.map_eq_some_iff.mp hstep
      exact .serves event server hserver
  | act event =>
      rw [step] at hstep
      split at hstep
      next => cases hstep
      next hother =>
          obtain ⟨page, hpage, rfl⟩ := Option.map_eq_some_iff.mp hstep
          exact .acts event page hpage (Bool.eq_false_iff.mpr hother)
  | signIn email password =>
      rw [step] at hstep
      obtain ⟨page, hpage, rfl⟩ := Option.map_eq_some_iff.mp hstep
      exact .signsIn email password page hpage
  | arrive index =>
      rw [step] at hstep
      split at hstep
      next owner request hpost =>
          obtain ⟨server, hserver, rfl⟩ := Option.map_eq_some_iff.mp hstep
          exact .arrives index owner request server hpost hserver
      next => cases hstep
  | answer index readable =>
      rw [step] at hstep
      split at hstep
      next owner request route hpost =>
          obtain ⟨phase, hphase, hrest⟩ := Option.bind_eq_some_iff.mp hstep
          obtain ⟨response, hresponse, hreceived⟩ := Option.bind_eq_some_iff.mp hrest
          obtain ⟨page, hpage, rfl⟩ := Option.map_eq_some_iff.mp hreceived
          exact .answers index readable owner request route phase response _ page hpost hphase
            hresponse hpage
      next => cases hstep
  | lose index =>
      rw [step] at hstep
      split at hstep
      next owner request stage hpost =>
          split at hstep
          next hopen =>
              obtain ⟨page, hpage, rfl⟩ := Option.map_eq_some_iff.mp hstep
              exact .loses index owner request stage page hpost hopen hpage
          next => cases hstep
      next => cases hstep
  | dropCookie =>
      cases hstep
      exact .drops

omit [Field K] [LinearOrder K] [FloorRing K] in
/-- Which refreshes are still under way when the page has received an outcome. -/
theorem Linked.sent_receive {world : World K} {page : Page (Token K)} {index : ℕ}
    {owner : Owner} {request : Request K} {stage next : Stage}
    {received : Option (Response (Token K))} (hlinked : world.Linked)
    (hpost : world.posts[index]? = some ⟨owner, request, stage⟩)
    (hclosed : next.isOpen = false)
    (hpage : world.page.step (owner.receive received) = some page) :
    ∀ (place : ℕ) (post : Post K) (run : ℕ),
      (world.posts.set index ⟨owner, request, next⟩)[place]? = some post →
      post.owner = .refresh run → post.stage.isOpen = true →
      page.refreshes[run]? = some .sent := by
  intro place post run hfound hrun hopen
  rcases getElem?_set_cases hpost hfound with ⟨_, rfl⟩ | ⟨hne, hold⟩
  · rw [hclosed] at hopen
    cases hopen
  · apply (Page.step_refreshes hpage).2 run (hlinked.sent place post run hold hrun hopen)
    intro response hanswer
    cases owner with
    | refresh found =>
        cases hanswer
        exact hne (hlinked.distinct place index post _ run hold hpost hrun rfl)
    | login call => cases received <;> cases hanswer

omit [Field K] [LinearOrder K] [FloorRing K] in
/-- A login has no run of `refreshTokens` and no place at the server yet. -/
theorem Linked.signIn {world : World K} (hlinked : world.Linked) (email password : String) :
    Linked { world with
      page := { world.page.send world.page.calls.length with
        calls := world.page.calls ++
          [(.login, .fetching world.page.accessToken ApiClient.Caller.login.retry)] }
      posts := world.posts ++
        [{ owner := .login world.page.calls.length, request := .login email password }] } := by
  have hcall : world.page.step (.call .login) = some
      { world.page.send world.page.calls.length with
        calls := world.page.calls ++
          [(.login, .fetching world.page.accessToken ApiClient.Caller.login.retry)] } := rfl
  refine ⟨⟨?_, ?_, ?_, ?_, ?_⟩, Page.step_singleFlight hlinked.flight hcall, ?_⟩
  · intro index post run hpost hrun
    rcases getElem?_concat_iff.mp hpost with hold | ⟨_, rfl⟩
    · exact hlinked.owners index post run hold hrun
    · cases hrun
  · intro first second post other run hfirst hsecond hrun hrun'
    rcases getElem?_concat_iff.mp hfirst with hold | ⟨_, rfl⟩
    · rcases getElem?_concat_iff.mp hsecond with hold' | ⟨_, rfl⟩
      · exact hlinked.distinct first second post other run hold hold' hrun hrun'
      · cases hrun'
    · cases hrun
  · intro index post presented hpost hrequest
    rcases getElem?_concat_iff.mp hpost with hold | ⟨_, rfl⟩
    · exact hlinked.kinds index post presented hold hrequest
    · cases hrequest
  · intro index post route hpost hroute
    rcases getElem?_concat_iff.mp hpost with hold | ⟨_, rfl⟩
    · exact hlinked.routes index post route hold hroute
    · cases hroute
  · intro first second post other route hfirst hsecond hroute hroute'
    rcases getElem?_concat_iff.mp hfirst with hold | ⟨_, rfl⟩
    · rcases getElem?_concat_iff.mp hsecond with hold' | ⟨_, rfl⟩
      · exact hlinked.apart first second post other route hold hold' hroute hroute'
      · cases hroute'
    · cases hroute
  · intro index post run hpost hrun hopen
    rcases getElem?_concat_iff.mp hpost with hold | ⟨_, rfl⟩
    · exact hlinked.sent index post run hold hrun hopen
    · cases hrun

/-- One step keeps the requests of the page apart. -/
theorem step_linked {world next : World K} {event : Event K} (hlinked : world.Linked)
    (hstep : world.step bcrypt settings event = some next) : next.Linked := by
  cases step_cases hstep with
  | serves event server hserver =>
      exact ⟨hlinked.toLabelled.serve (Server.step_length hserver), hlinked.flight, hlinked.sent⟩
  | acts event page hpage hother =>
      apply Linked.post hlinked.toLabelled hlinked.flight ?_ hpage
      intro index post run hpost hrun hopen
      apply (Page.step_refreshes hpage).2 run (hlinked.sent index post run hpost hrun hopen)
      intro response hanswer
      rw [hanswer] at hother
      cases hother
  | signsIn email password page hpage =>
      cases hpage
      exact hlinked.signIn email password
  | arrives index owner request server hpost hserver =>
      have hserve := hlinked.toLabelled.serve (Server.step_length hserver)
      cases hserver
      have hnew : ∀ route, (Stage.serving world.server.requests.length).route = some route →
          route < (world.server.requests ++ [world.server.opened request]).length ∧
            ∀ (other : ℕ) (found : Post K), world.posts[other]? = some found →
              found.stage.route = some route → other = index := by
        intro route hroute
        cases hroute
        refine ⟨by simp, fun other found hfound hplace => ?_⟩
        exact absurd (hlinked.routes other found _ hfound hplace) (Nat.lt_irrefl _)
      refine ⟨hserve.set hpost hnew, hlinked.flight, ?_⟩
      intro place post run hfound hrun hopen
      rcases getElem?_set_cases hpost hfound with ⟨_, rfl⟩ | ⟨_, hold⟩
      · exact hlinked.sent index _ run hpost hrun rfl
      · exact hlinked.sent place post run hold hrun hopen
  | answers index readable owner request route phase response received page hpost _ _ hpage =>
      have hroute : ∀ place, (Stage.answered route).route = some place →
          place < world.server.requests.length ∧
            ∀ (other : ℕ) (found : Post K), world.posts[other]? = some found →
              found.stage.route = some place → other = index := by
        intro place hplace
        cases hplace
        refine ⟨hlinked.routes index _ route hpost rfl, fun other found hfound hsame => ?_⟩
        exact hlinked.apart other index found _ route hfound hpost hsame rfl
      have hset := hlinked.toLabelled.set hpost hroute
      exact Linked.post ⟨hset.owners, hset.distinct, hset.kinds, hset.routes, hset.apart⟩
        hlinked.flight (hlinked.sent_receive hpost rfl hpage) hpage
  | loses index owner request stage page hpost hopen hpage =>
      have hroute : ∀ place, Stage.lost.route = some place →
          place < world.server.requests.length ∧
            ∀ (other : ℕ) (found : Post K), world.posts[other]? = some found →
              found.stage.route = some place → other = index := by
        intro place hplace
        cases hplace
      exact Linked.post (hlinked.toLabelled.set hpost hroute) hlinked.flight
        (hlinked.sent_receive hpost rfl hpage) hpage
  | drops =>
      exact ⟨⟨hlinked.owners, hlinked.distinct, hlinked.kinds, hlinked.routes, hlinked.apart⟩,
        hlinked.flight, hlinked.sent⟩

/-! ## One rotation of a token -/

/-- A step after which the page may find its token rotated by someone else: another
party presents the token, it is minted a second time, or the page gives up a refresh
with it before the answer. -/
def Disturbs (settings : TokenSettings) (token : Token K) (world : World K) : Event K → Prop
  | .serve (.arrive request) => request.carries token = true
  | .serve (.proceed index jti) =>
      token ∈ world.server.issued ∧ ∃ phase ∈ world.server.requests[index]?,
        phase.willMint settings world.server.clock jti token = true
  | .lose index => ∃ post ∈ world.posts[index]?, post.request.carries token = true
  | _ => False

instance (settings : TokenSettings) (token : Token K) (world : World K) :
    (event : Event K) → Decidable (Disturbs settings token world event)
  | .serve (.arrive request) => inferInstanceAs (Decidable (request.carries token = true))
  | .serve (.proceed index jti) =>
      inferInstanceAs (Decidable (_ ∧ ∃ phase ∈ world.server.requests[index]?,
        phase.willMint settings world.server.clock jti token = true))
  | .lose index =>
      inferInstanceAs (Decidable (∃ post ∈ world.posts[index]?,
        post.request.carries token = true))
  | .serve (.tick _) | .serve (.fail _) | .act _ | .signIn .. | .arrive _ | .answer ..
  | .dropCookie => inferInstanceAs (Decidable False)

/-- The page has never had the token. -/
def Unseen (token : Token K) (world : World K) : Prop :=
  world.jar ≠ some token ∧ ∀ (index : ℕ) (post : Post K), world.posts[index]? = some post →
    post.request ≠ .refresh (some token)

/-- The page presents the token only while it is the latest one, and waits for the
answer. -/
structure Guarded (token : Token K) (world : World K) : Prop where
  presented : ∀ (place : ℕ) (phase : Phase K), world.server.requests[place]? = some phase →
    phase.presents token = true → ∃ (index : ℕ) (post : Post K),
      world.posts[index]? = some post ∧ post.request = .refresh (some token) ∧
      post.stage.route = some place
  ended : ∀ (index : ℕ) (post : Post K), world.posts[index]? = some post →
    post.request = .refresh (some token) → post.stage.isOpen = false →
    ∃ place phase, post.stage = .answered place ∧
      world.server.requests[place]? = some phase ∧ phase.isDone = true
  known : token ∉ world.server.issued → world.Unseen token
  minted : ∀ (place : ℕ) (phase : Phase K), world.server.requests[place]? = some phase →
    phase.mints token = true → token ∈ world.server.issued
  once : ∀ (first second : ℕ) (phase other : Phase K),
    world.server.requests[first]? = some phase → world.server.requests[second]? = some other →
    phase.mints token = true → other.mints token = true → first = second
  unseen : ∀ (place : ℕ) (phase : Phase K), world.server.requests[place]? = some phase →
    phase.mints token = true →
    (∀ (index : ℕ) (post : Post K), world.posts[index]? = some post →
      post.stage.route = some place → post.stage.isOpen = true) → world.Unseen token
  spent : ∀ (index place : ℕ) (post : Post K) (phase : Phase K),
    world.posts[index]? = some post → post.request = .refresh (some token) →
    post.stage = .answered place → world.server.requests[place]? = some phase →
    phase.grants token = true → world.jar ≠ some token ∧
      ∀ (other : ℕ) (found : Post K), world.posts[other]? = some found →
        found.stage.isOpen = true → found.request ≠ .refresh (some token)

omit [Field K] [FloorRing K] in
/-- No refresh of a guarded world overtakes another one. -/
theorem Guarded.not_overtakes {world : World K} {token : Token K} {event : Auth.Event K}
    (hguarded : world.Guarded token) (hlinked : world.Linked) :
    ¬ world.server.Proceeds (Server.Overtakes token) event := by
  cases event with
  | proceed place jti =>
      rintro ⟨phase, hphase, hcheck, _, other, hother, hpassed⟩
      rw [Option.mem_def] at hphase
      subst hcheck
      obtain ⟨place', hplace'⟩ := List.mem_iff_getElem?.mp hother
      obtain ⟨index, post, hpost, hrequest, hroute⟩ :=
        hguarded.presented place _ hphase (decide_eq_true rfl)
      obtain ⟨index', post', hpost', hrequest', hroute'⟩ :=
        hguarded.presented place' other hplace' (Phase.presents_of_passed hpassed)
      -- The request at the check has not been answered.
      have hopen : post.stage.isOpen = true := by
        by_contra hclosed
        obtain ⟨found, phase, hstage, hfound, hdone⟩ :=
          hguarded.ended index post hpost hrequest (Bool.eq_false_iff.mpr hclosed)
        rw [hstage] at hroute
        cases hroute
        rw [hphase] at hfound
        cases hfound
        cases hdone
      have hclosed : post'.stage.isOpen = false := by
        by_contra hopen'
        have hsame := hlinked.one_open hpost hpost' hrequest hrequest' hopen
          (Bool.eq_true_of_not_eq_false hopen')
        subst hsame
        rw [hpost] at hpost'
        cases hpost'
        rw [hroute] at hroute'
        cases hroute'
        rw [hphase] at hplace'
        cases hplace'
        cases hpassed
      obtain ⟨found, phase, hstage, hfound, hdone⟩ :=
        hguarded.ended index' post' hpost' hrequest' hclosed
      rw [hstage] at hroute'
      cases hroute'
      rw [hplace'] at hfound
      cases hfound
      exact (hguarded.spent index' place' post' other hpost' hrequest' hstage hplace'
        (Phase.grants_of_passed hpassed hdone)).2 index post hpost hopen hrequest
  | tick later => exact id
  | arrive request => exact id
  | fail index => exact id

/-! ### What keeps a world guarded -/

omit [Field K] [LinearOrder K] [FloorRing K] in
theorem Unseen.post {world : World K} {token : Token K} (hunseen : world.Unseen token)
    (page : Page (Token K)) : (world.post page).Unseen token := by
  constructor
  · rw [post_jar]
    exact hunseen.1
  · intro index post hpost
    rcases getElem?_post hpost with hold | ⟨_, _, rfl⟩
    · exact hunseen.2 index post hold
    · intro hrequest
      injection hrequest with hpresented
      exact hunseen.1 hpresented

omit [FloorRing K] [Field K] in
theorem Guarded.post {world : World K} {token : Token K} (hguarded : world.Guarded token)
    (page : Page (Token K)) : (world.post page).Guarded token := by
  have hback : ∀ (place : ℕ), (∀ (index : ℕ) (post : Post K),
      (world.post page).posts[index]? = some post → post.stage.route = some place →
      post.stage.isOpen = true) → ∀ (index : ℕ) (post : Post K),
      world.posts[index]? = some post → post.stage.route = some place →
      post.stage.isOpen = true :=
    fun place hall index post hpost => hall index post (getElem?_post_of page hpost)
  constructor
  · intro place phase hphase hpresents
    rw [post_server] at hphase
    obtain ⟨index, post, hpost, hrest⟩ := hguarded.presented place phase hphase hpresents
    exact ⟨index, post, getElem?_post_of page hpost, hrest⟩
  · intro index post hpost hrequest hclosed
    rw [post_server]
    rcases getElem?_post hpost with hold | ⟨_, _, rfl⟩
    · exact hguarded.ended index post hold hrequest hclosed
    · cases hclosed
  · intro hnew
    rw [post_server] at hnew
    exact (hguarded.known hnew).post page
  · intro place phase hphase hmints
    rw [post_server] at hphase ⊢
    exact hguarded.minted place phase hphase hmints
  · intro first second phase other hfirst hsecond
    rw [post_server] at hfirst hsecond
    exact hguarded.once first second phase other hfirst hsecond
  · intro place phase hphase hmints hall
    rw [post_server] at hphase
    exact (hguarded.unseen place phase hphase hmints (hback place hall)).post page
  · intro index place post phase hpost hrequest hstage hphase hgrants
    rw [post_server] at hphase
    rcases getElem?_post hpost with hold | ⟨_, _, rfl⟩
    · obtain ⟨hjar, hopen⟩ :=
        hguarded.spent index place post phase hold hrequest hstage hphase hgrants
      constructor
      · rw [post_jar]
        exact hjar
      · intro other found hfound hfoundOpen
        rcases getElem?_post hfound with hfoundOld | ⟨_, _, rfl⟩
        · exact hopen other found hfoundOld hfoundOpen
        · intro hpresented
          injection hpresented with hpresented
          exact hjar hpresented
    · cases hstage

/-- The server goes on, or receives a request of someone else. -/
theorem Guarded.serve {world : World K} {token : Token K} {event : Auth.Event K}
    {server : Server K} (hguarded : world.Guarded token)
    (hserver : world.server.step bcrypt settings event = some server)
    (hnot : ¬ Disturbs settings token world (.serve event)) :
    Guarded token { world with server := server } := by
  have hminting : ∀ (place : ℕ) (phase : Phase K), server.requests[place]? = some phase →
      phase.mints token = true →
      (∃ before, world.server.requests[place]? = some before ∧ before.mints token = true) ∨
        (token ∉ world.server.issued ∧ token ∈ server.issued ∧
          ∃ jti, event = .proceed place jti) := by
    intro place phase hphase hmints
    rcases Server.step_mints hserver hphase hmints with hold |
      ⟨jti, origin, access, hevent, hbefore, htoken, hissued⟩
    · exact Or.inl hold
    · refine Or.inr ⟨fun hmem => hnot ?_, by rw [hissued]; exact List.mem_cons_self, jti, hevent⟩
      rw [hevent]
      exact ⟨hmem, _, hbefore, decide_eq_true htoken.symm⟩
  have hunseen : token ∉ server.issued → token ∉ world.server.issued :=
    fun hnew hmem => hnew (Server.step_issued_subset hserver hmem)
  constructor
  · intro place phase hphase hpresents
    rcases Server.step_presents hserver hphase hpresents with ⟨before, hbefore, hpast⟩ |
      ⟨hevent, _⟩
    · exact hguarded.presented place before hbefore hpast
    · rw [hevent] at hnot
      exact absurd (decide_eq_true rfl) hnot
  · intro index post hpost hrequest hclosed
    obtain ⟨place, phase, hstage, hphase, hdone⟩ :=
      hguarded.ended index post hpost hrequest hclosed
    exact ⟨place, phase, hstage, Server.step_done hserver hphase hdone, hdone⟩
  · exact fun hnew => hguarded.known (hunseen hnew)
  · intro place phase hphase hmints
    rcases hminting place phase hphase hmints with ⟨before, hbefore, hpast⟩ | ⟨_, hmem, _⟩
    · exact Server.step_issued_subset hserver (hguarded.minted place before hbefore hpast)
    · exact hmem
  · intro first second phase other hfirst hsecond hmints hmints'
    rcases hminting first phase hfirst hmints with ⟨before, hbefore, hpast⟩ |
      ⟨hnew, _, jti, hevent⟩ <;>
      rcases hminting second other hsecond hmints' with ⟨before', hbefore', hpast'⟩ |
        ⟨hnew', _, jti', hevent'⟩
    · exact hguarded.once first second before before' hbefore hbefore' hpast hpast'
    · exact absurd (hguarded.minted first before hbefore hpast) hnew'
    · exact absurd (hguarded.minted second before' hbefore' hpast') hnew
    · rw [hevent] at hevent'
      injection hevent'
  · intro place phase hphase hmints hall
    rcases hminting place phase hphase hmints with ⟨before, hbefore, hpast⟩ | ⟨hnew, _, _⟩
    · exact hguarded.unseen place before hbefore hpast hall
    · exact hguarded.known hnew
  · intro index place post phase hpost hrequest hstage hphase hgrants
    have hclosed : post.stage.isOpen = false := by
      rw [hstage]
      rfl
    obtain ⟨place', before, hstage', hbefore, hdone⟩ :=
      hguarded.ended index post hpost hrequest hclosed
    rw [hstage] at hstage'
    cases hstage'
    have hsame := Server.step_done hserver hbefore hdone
    rw [hphase] at hsame
    cases hsame
    exact hguarded.spent index place post phase hpost hrequest hstage hbefore hgrants

/-- A request of the page arrives. -/
theorem Guarded.arrive {world : World K} {token : Token K} {index : ℕ} {owner : Owner}
    {request : Request K} (hguarded : world.Guarded token)
    (hpost : world.posts[index]? = some ⟨owner, request, .travelling⟩) :
    Guarded token { world with
      server := { world.server with
        requests := world.server.requests ++ [world.server.opened request] }
      posts := world.posts.set index ⟨owner, request, .serving world.server.requests.length⟩ } := by
  have hkept : ∀ (place : ℕ) (post : Post K) (route : ℕ), world.posts[place]? = some post →
      post.stage.route = some route →
      (world.posts.set index ⟨owner, request, .serving world.server.requests.length⟩)[place]? =
        some post := by
    intro place post route hfound hroute
    have hne : index ≠ place := by
      rintro rfl
      rw [hpost] at hfound
      cases hfound
      cases hroute
    exact (List.getElem?_set_ne hne).trans hfound
  have hunseen : world.Unseen token →
      Unseen token { world with
        server := { world.server with
          requests := world.server.requests ++ [world.server.opened request] }
        posts := world.posts.set index
          ⟨owner, request, .serving world.server.requests.length⟩ } := by
    rintro ⟨hjar, hposts⟩
    refine ⟨hjar, fun place post hfound => ?_⟩
    rcases getElem?_set_cases hpost hfound with ⟨_, rfl⟩ | ⟨_, hold⟩
    · exact hposts index ⟨owner, request, .travelling⟩ hpost
    · exact hposts place post hold
  have hminting : ∀ (place : ℕ) (phase : Phase K),
      (world.server.requests ++ [world.server.opened request])[place]? = some phase →
      phase.mints token = true → world.server.requests[place]? = some phase := by
    intro place phase hphase hmints
    rcases getElem?_concat_iff.mp hphase with hold | ⟨_, rfl⟩
    · exact hold
    · rw [Server.opened_not_mints] at hmints
      cases hmints
  constructor
  · intro place phase hphase hpresents
    rcases getElem?_concat_iff.mp hphase with hold | ⟨rfl, rfl⟩
    · obtain ⟨found, post, hfound, hrequest, hroute⟩ :=
        hguarded.presented place phase hold hpresents
      exact ⟨found, post, hkept found post place hfound hroute, hrequest, hroute⟩
    · exact ⟨index, _, List.getElem?_set_self (List.getElem?_eq_some_iff.mp hpost).1,
        Server.opened_presents hpresents, rfl⟩
  · intro place post hfound hrequest hclosed
    rcases getElem?_set_cases hpost hfound with ⟨_, rfl⟩ | ⟨_, hold⟩
    · cases hclosed
    · obtain ⟨route, phase, hstage, hphase, hdone⟩ :=
        hguarded.ended place post hold hrequest hclosed
      exact ⟨route, phase, hstage, getElem?_concat_iff.mpr (.inl hphase), hdone⟩
  · exact fun hnew => hunseen (hguarded.known hnew)
  · intro place phase hphase hmints
    exact hguarded.minted place phase (hminting place phase hphase hmints) hmints
  · intro first second phase other hfirst hsecond hmints hmints'
    exact hguarded.once first second phase other (hminting first phase hfirst hmints)
      (hminting second other hsecond hmints') hmints hmints'
  · intro place phase hphase hmints hall
    apply hunseen
    apply hguarded.unseen place phase (hminting place phase hphase hmints) hmints
    intro found post hfound hroute
    exact hall found post (hkept found post place hfound hroute) hroute
  · intro place route post phase hfound hrequest hstage hphase hgrants
    rcases getElem?_set_cases hpost hfound with ⟨_, rfl⟩ | ⟨_, hold⟩
    · cases hstage
    · obtain ⟨found, before, hsame, hbefore, _⟩ := hguarded.ended place post hold hrequest (by
        rw [hstage]
        rfl)
      rw [hstage] at hsame
      cases hsame
      have hphase' : world.server.requests[route]? = some phase :=
        getElem?_of_concat (List.getElem?_eq_some_iff.mp hbefore).1 hphase
      obtain ⟨hjar, hopen⟩ :=
        hguarded.spent place route post phase hold hrequest hstage hphase' hgrants
      refine ⟨hjar, fun other found' hother hotherOpen => ?_⟩
      rcases getElem?_set_cases hpost hother with ⟨_, rfl⟩ | ⟨_, hotherOld⟩
      · exact hopen index ⟨owner, request, .travelling⟩ hpost rfl
      · exact hopen other found' hotherOld hotherOpen

omit [Field K] [FloorRing K] in
/-- The answer to a request of the page arrives with its cookie. -/
theorem Guarded.answer {world : World K} {token : Token K} {index route : ℕ} {owner : Owner}
    {request : Request K} {phase : Phase K} {response : Response (Token K)}
    (hguarded : world.Guarded token) (hlinked : world.Linked)
    (hpost : world.posts[index]? = some ⟨owner, request, .serving route⟩)
    (hphase : world.server.requests[route]? = some phase)
    (hresponse : phase.response = some response) :
    Guarded token { world with
      jar := phase.setCookie.or world.jar
      posts := world.posts.set index ⟨owner, request, .answered route⟩ } := by
  have hset := List.getElem?_set_self (a := (⟨owner, request, .answered route⟩ : Post K))
    (List.getElem?_eq_some_iff.mp hpost).1
  have hmints : phase.setCookie = some token → phase.mints token = true := by
    intro hcookie
    cases phase with
    | granted origin access refresh =>
        cases hcookie
        exact decide_eq_true rfl
    | _ => cases hcookie
  -- Of the posts only this one leads to the request, and the page waits for it.
  have hfirst : phase.mints token = true → world.Unseen token := by
    intro hminted
    apply hguarded.unseen route phase hphase hminted
    intro place post hfound hroute
    obtain rfl := hlinked.apart place index post _ route hfound hpost hroute rfl
    rw [hpost] at hfound
    cases hfound
    rfl
  have hjar : world.jar ≠ some token → (phase.mints token = true → False) →
      phase.setCookie.or world.jar ≠ some token := by
    intro hold hnot hcookie
    rcases Option.or_eq_some_iff.mp hcookie with hnew | ⟨_, hsame⟩
    · exact hnot (hmints hnew)
    · exact hold hsame
  have hposts : ∀ (place : ℕ) (post : Post K),
      (world.posts.set index ⟨owner, request, .answered route⟩)[place]? = some post →
      ∃ old, world.posts[place]? = some old ∧ old.request = post.request ∧
        old.stage.route = post.stage.route ∧
        (post.stage.isOpen = true → old = post) := by
    intro place post hfound
    rcases getElem?_set_cases hpost hfound with ⟨rfl, rfl⟩ | ⟨_, hold⟩
    · exact ⟨_, hpost, rfl, rfl, fun hopen => by cases hopen⟩
    · exact ⟨post, hold, rfl, rfl, fun _ => rfl⟩
  constructor
  · intro place found hfound hpresents
    obtain ⟨other, post, hother, hrequest, hroute⟩ :=
      hguarded.presented place found hfound hpresents
    by_cases hsame : index = other
    · subst hsame
      rw [hpost] at hother
      cases hother
      exact ⟨index, _, hset, hrequest, hroute⟩
    · exact ⟨other, post, (List.getElem?_set_ne hsame).trans hother, hrequest, hroute⟩
  · intro place post hfound hrequest hclosed
    rcases getElem?_set_cases hpost hfound with ⟨_, rfl⟩ | ⟨_, hold⟩
    · exact ⟨route, phase, rfl, hphase, Auth.Phase.isDone_of_response hresponse⟩
    · exact hguarded.ended place post hold hrequest hclosed
  · intro hnew
    obtain ⟨hnone, hall⟩ := hguarded.known hnew
    refine ⟨hjar hnone fun hminted => hnew (hguarded.minted route phase hphase hminted), ?_⟩
    intro place post hfound
    obtain ⟨old, hold, hrequest, _⟩ := hposts place post hfound
    rw [← hrequest]
    exact hall place old hold
  · exact hguarded.minted
  · exact hguarded.once
  · intro place found hfound hminted hall
    have hne : place ≠ route := by
      rintro rfl
      have hopen := hall index _ hset rfl
      cases hopen
    obtain ⟨hnone, hother⟩ := hguarded.unseen place found hfound hminted (by
      intro other post hother hroute
      by_cases hsame : index = other
      · subst hsame
        rw [hpost] at hother
        cases hother
        cases hroute
        exact absurd rfl hne
      · exact hall other post ((List.getElem?_set_ne hsame).trans hother) hroute)
    refine ⟨hjar hnone fun hagain => hne ?_, ?_⟩
    · exact hguarded.once place route found phase hfound hphase hminted hagain
    · intro other post hpostFound
      obtain ⟨old, hold, hrequest, _⟩ := hposts other post hpostFound
      rw [← hrequest]
      exact hother other old hold
  · intro place found post granted hfound hrequest hstage hgranted hgrants
    obtain ⟨old, hold, holdRequest, _⟩ := hposts place post hfound
    have hnot : phase.mints token = true → False := fun hminted =>
      (hfirst hminted).2 place old hold (holdRequest.trans hrequest)
    rcases getElem?_set_cases hpost hfound with ⟨hplace, rfl⟩ | ⟨hne, hold'⟩
    · cases hstage
      rw [hphase] at hgranted
      cases hgranted
      have hcookie : phase.setCookie ≠ none := by
        cases phase with
        | granted origin access refresh => exact Option.some_ne_none _
        | _ => cases hgrants
      refine ⟨?_, fun other waiting hother hopen hwaiting => ?_⟩
      · intro htoken
        rcases Option.or_eq_some_iff.mp htoken with hnew | ⟨hnone, _⟩
        · exact hnot (hmints hnew)
        · exact hcookie hnone
      · obtain ⟨before, hbefore, hbeforeRequest, _, hsame⟩ := hposts other waiting hother
        obtain rfl := hsame hopen
        have hplaces := hlinked.one_open hpost hbefore hrequest hwaiting rfl hopen
        subst hplaces
        rw [hpost] at hbefore
        cases hbefore
        rw [hset] at hother
        cases hother
    · obtain ⟨hnone, hopen⟩ :=
        hguarded.spent place found post granted hold' hrequest hstage hgranted hgrants
      refine ⟨hjar hnone hnot, fun other waiting hother hwaiting => ?_⟩
      obtain ⟨before, hbefore, _, _, hsame⟩ := hposts other waiting hother
      obtain rfl := hsame hwaiting
      exact hopen other before hbefore hwaiting

omit [Field K] [FloorRing K] in
/-- The page gives up a request that does not carry the token. -/
theorem Guarded.lose {world : World K} {token : Token K} {index : ℕ} {owner : Owner}
    {request : Request K} {stage : Stage} (hguarded : world.Guarded token)
    (hpost : world.posts[index]? = some ⟨owner, request, stage⟩) (hopen : stage.isOpen = true)
    (hother : request ≠ .refresh (some token)) :
    Guarded token { world with posts := world.posts.set index ⟨owner, request, .lost⟩ } := by
  have hunseen : world.Unseen token →
      Unseen token { world with posts := world.posts.set index ⟨owner, request, .lost⟩ } := by
    rintro ⟨hjar, hposts⟩
    refine ⟨hjar, fun place post hfound => ?_⟩
    rcases getElem?_set_cases hpost hfound with ⟨_, rfl⟩ | ⟨_, hold⟩
    · exact hother
    · exact hposts place post hold
  constructor
  · intro place phase hphase hpresents
    obtain ⟨found, post, hfound, hrequest, hroute⟩ :=
      hguarded.presented place phase hphase hpresents
    have hne : index ≠ found := by
      rintro rfl
      rw [hpost] at hfound
      cases hfound
      exact hother hrequest
    exact ⟨found, post, (List.getElem?_set_ne hne).trans hfound, hrequest, hroute⟩
  · intro place post hfound hrequest hclosed
    rcases getElem?_set_cases hpost hfound with ⟨_, rfl⟩ | ⟨_, hold⟩
    · exact absurd hrequest hother
    · exact hguarded.ended place post hold hrequest hclosed
  · exact fun hnew => hunseen (hguarded.known hnew)
  · exact hguarded.minted
  · exact hguarded.once
  · intro place phase hphase hmints hall
    apply hunseen
    apply hguarded.unseen place phase hphase hmints
    intro found post hfound hroute
    by_cases hsame : index = found
    · subst hsame
      rw [hpost] at hfound
      cases hfound
      exact hopen
    · exact hall found post ((List.getElem?_set_ne hsame).trans hfound) hroute
  · intro place route post phase hfound hrequest hstage hphase hgrants
    rcases getElem?_set_cases hpost hfound with ⟨_, rfl⟩ | ⟨_, hold⟩
    · exact absurd hrequest hother
    · obtain ⟨hjar, hall⟩ :=
        hguarded.spent place route post phase hold hrequest hstage hphase hgrants
      refine ⟨hjar, fun found waiting hwaiting hwaits => ?_⟩
      rcases getElem?_set_cases hpost hwaiting with ⟨_, rfl⟩ | ⟨_, hwaitingOld⟩
      · exact hother
      · exact hall found waiting hwaitingOld hwaits

omit [Field K] [FloorRing K] in
theorem Guarded.signIn {world : World K} {token : Token K} (hguarded : world.Guarded token)
    (page : Page (Token K)) (call : ℕ) (email password : String) :
    Guarded token { world with
      page := page
      posts := world.posts ++
        [{ owner := .login call, request := .login email password }] } := by
  have hunseen : world.Unseen token →
      Unseen token { world with
        page := page
        posts := world.posts ++
          [{ owner := .login call, request := .login email password }] } := by
    rintro ⟨hjar, hposts⟩
    refine ⟨hjar, fun place post hfound => ?_⟩
    rcases getElem?_concat_iff.mp hfound with hold | ⟨_, rfl⟩
    · exact hposts place post hold
    · intro hrequest
      cases hrequest
  constructor
  · intro place phase hphase hpresents
    obtain ⟨found, post, hfound, hrest⟩ := hguarded.presented place phase hphase hpresents
    exact ⟨found, post, getElem?_concat_iff.mpr (.inl hfound), hrest⟩
  · intro place post hfound hrequest hclosed
    rcases getElem?_concat_iff.mp hfound with hold | ⟨_, rfl⟩
    · exact hguarded.ended place post hold hrequest hclosed
    · cases hrequest
  · exact fun hnew => hunseen (hguarded.known hnew)
  · exact hguarded.minted
  · exact hguarded.once
  · intro place phase hphase hmints hall
    apply hunseen
    apply hguarded.unseen place phase hphase hmints
    intro found post hfound hroute
    exact hall found post (getElem?_concat_iff.mpr (.inl hfound)) hroute
  · intro place route post phase hfound hrequest hstage hphase hgrants
    rcases getElem?_concat_iff.mp hfound with hold | ⟨_, rfl⟩
    · obtain ⟨hjar, hall⟩ :=
        hguarded.spent place route post phase hold hrequest hstage hphase hgrants
      refine ⟨hjar, fun found waiting hwaiting hwaits => ?_⟩
      rcases getElem?_concat_iff.mp hwaiting with hwaitingOld | ⟨_, rfl⟩
      · exact hall found waiting hwaitingOld hwaits
      · intro hrequest'
        cases hrequest'
    · cases hrequest

omit [Field K] [FloorRing K] in
theorem Guarded.dropCookie {world : World K} {token : Token K}
    (hguarded : world.Guarded token) : Guarded token { world with jar := none } := by
  refine ⟨hguarded.presented, hguarded.ended, ?_, hguarded.minted, hguarded.once, ?_, ?_⟩
  · exact fun hnew => ⟨Option.some_ne_none token ∘ Eq.symm, (hguarded.known hnew).2⟩
  · intro place phase hphase hmints hall
    exact ⟨Option.some_ne_none token ∘ Eq.symm,
      (hguarded.unseen place phase hphase hmints hall).2⟩
  · intro place route post phase hfound hrequest hstage hphase hgrants
    exact ⟨Option.some_ne_none token ∘ Eq.symm,
      (hguarded.spent place route post phase hfound hrequest hstage hphase hgrants).2⟩

theorem step_guarded {world next : World K} {token : Token K} {event : Event K}
    (hlinked : world.Linked) (hguarded : world.Guarded token)
    (hstep : world.step bcrypt settings event = some next)
    (hnot : ¬ Disturbs settings token world event) : next.Guarded token := by
  cases step_cases hstep with
  | serves event server hserver => exact hguarded.serve hserver hnot
  | acts event page hpage hother => exact hguarded.post page
  | signsIn email password page hpage => exact hguarded.signIn page _ email password
  | arrives index owner request server hpost hserver =>
      cases hserver
      exact hguarded.arrive hpost
  | answers index readable owner request route phase response received page hpost hphase
      hresponse hpage => exact (hguarded.answer hlinked hpost hphase hresponse).post page
  | loses index owner request stage page hpost hopen hpage =>
      have hother : request ≠ .refresh (some token) := by
        rintro rfl
        exact hnot ⟨_, hpost, decide_eq_true rfl⟩
      exact (hguarded.lose hpost hopen hother).post page
  | drops => exact hguarded.dropCookie

/-- The server sees requests of the page and of others. -/
theorem step_server {world next : World K} {event : Event K}
    (hstep : world.step bcrypt settings event = some next) :
    next.server = world.server ∨
      ∃ served, world.server.step bcrypt settings served = some next.server := by
  cases step_cases hstep with
  | serves event server hserver => exact Or.inr ⟨event, hserver⟩
  | acts event page hpage hother => exact Or.inl (post_server ..)
  | signsIn email password page hpage => exact Or.inl rfl
  | arrives index owner request server hpost hserver => exact Or.inr ⟨_, hserver⟩
  | answers index readable owner request route phase response received page hpost hphase
      hresponse hpage => exact Or.inl (post_server ..)
  | loses index owner request stage page hpost hopen hpage => exact Or.inl (post_server ..)
  | drops => exact Or.inl rfl

/-- A page that has just been opened, in a browser that holds a cookie or none. -/
def opening (server : Server K) (jar : Option (Token K)) : World K :=
  { server := server, jar := jar }

omit [Field K] [LinearOrder K] [FloorRing K] in
theorem opening_linked (server : Server K) (jar : Option (Token K)) :
    (opening server jar).Linked := by
  refine ⟨⟨?_, ?_, ?_, ?_, ?_⟩, ⟨?_, ?_, ?_⟩, ?_⟩ <;> simp [opening]

omit [Field K] [FloorRing K] in
theorem opening_guarded {clock : K} {redis : Auth.Redis K} {accounts : List Auth.Account}
    {issued : List (Token K)} {jar : Option (Token K)} (token : Token K)
    (hjar : ∀ cookie, jar = some cookie → cookie ∈ issued) :
    (opening (Server.opening clock redis accounts issued) jar).Guarded token := by
  refine ⟨?_, ?_, ?_, ?_, ?_, ?_, ?_⟩ <;> simp [opening, Server.opening, Unseen]
  exact fun hnew hcookie => hnew (hjar token hcookie)

/-- A page that waits for every refresh it sends never uses a refresh token twice: the
server returns at most one new pair for each token, however its requests and those of
others interleave. -/
theorem run_rotates_once {clock : K} {redis : Auth.Redis K} {accounts : List Auth.Account}
    {issued : List (Token K)} {jar : Option (Token K)} {events : List (Event K)}
    {finish : World K} (token : Token K)
    (hjar : ∀ cookie, jar = some cookie → cookie ∈ issued)
    (hrun : Transition.exec (step bcrypt settings)
      (opening (Server.opening clock redis accounts issued) jar) events = some finish)
    (hundisturbed : ¬ Transition.Occurs (step bcrypt settings)
      (opening (Server.opening clock redis accounts issued) jar) events
      (Disturbs settings token)) :
    finish.server.requests.countP (·.grants token) ≤ 1 := by
  have hinv : finish.Linked ∧ finish.Guarded token ∧ finish.server.Exclusive token := by
    apply Transition.exec_unless
      (motive := fun world => world.Linked ∧ world.Guarded token ∧ world.server.Exclusive token)
      ?_ ?_ hrun hundisturbed
    · exact ⟨opening_linked _ _, opening_guarded token hjar, Nat.zero_le 1⟩
    · intro past world event next _ ⟨hlinked, hguarded, hexclusive⟩ hnext hnot
      refine ⟨step_linked hlinked hnext, step_guarded hlinked hguarded hnext hnot, ?_⟩
      rcases step_server hnext with hsame | ⟨served, hserved⟩
      · rw [hsame]
        exact hexclusive
      · exact Server.step_exclusive hexclusive hserved (hguarded.not_overtakes hlinked)
  exact (List.countP_mono_left fun phase _ => Phase.passed_of_grants).trans hinv.2.2

/-- The session is resumed with a cookie, and once more with the one that replaced it. -/
def sampleEvents : List (Event ℚ) :=
  [.act .restore, .arrive 0] ++ (Server.serve 0 21 22).map .serve ++
    [.answer 0 true, .act (.settle 0), .act .restore, .arrive 1] ++
    (Server.serve 1 31 32).map .serve

theorem run_rotates_once_resumed :
    ∃ finish, Transition.exec (step .plain {})
        (opening Server.sampleServer (some Server.sampleRefresh)) sampleEvents = some finish ∧
      finish.server.requests.countP (·.grants Server.sampleRefresh) ≤ 1 := by
  obtain ⟨finish, hrun⟩ : ∃ finish, Transition.exec (step .plain {})
      (opening Server.sampleServer (some Server.sampleRefresh)) sampleEvents = some finish :=
    Option.isSome_iff_exists.mp (by decide +kernel)
  refine ⟨finish, hrun, run_rotates_once Server.sampleRefresh ?_ hrun (by decide +kernel)⟩
  intro cookie hcookie
  cases hcookie
  exact List.mem_singleton_self _

end World

end AgenticRag.CookieJar
