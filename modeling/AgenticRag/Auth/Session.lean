import AgenticRag.Auth.Denylist
import AgenticRag.Core.Transition

/-!
# One browser session

A login, any number of refreshes that each present the current cookie, and the
logout.  The clock readings of every request, the row and the epoch it read and
the identifiers it drew are inputs; the session records every token it was
issued and every revocation that was made of one.
-/

namespace AgenticRag.Auth

/-- A call of `revoke_jti` for a token: when the lifetime was computed and when
the `SET` was executed. -/
structure Revocation (K : Type*) where
  token : Token K
  read : K
  set : K

/-- What the requests of a session leave behind: the keys in Redis, the tokens
issued and the revocations made of them. -/
structure Trail (K : Type*) where
  redis : Redis K
  issued : List (Token K) := []
  revocations : List (Revocation K) := []

structure Session (K : Type*) extends Trail K where
  clock : K
  userId : Uuid
  access : Token K
  cookie : Token K

/-- A request to `/auth/login`. -/
structure LoginRun (K : Type*) where
  account : Option Account
  password : String
  accessAt : K
  refreshAt : K
  accessJti : Uuid
  refreshJti : Uuid

/-- A request to `/auth/refresh`, its clock readings in the order of the code. -/
structure RefreshRun (K : Type*) where
  decoded : K
  checked : K
  account : Option Account
  epoch : K
  read : K
  set : K
  accessAt : K
  refreshAt : K
  accessJti : Uuid
  refreshJti : Uuid

/-- A request to `/auth/logout`. -/
structure LogoutRun (K : Type*) where
  decoded : K
  checked : K
  account : Option Account
  epoch : K
  decodedAgain : K
  read : K
  set : K
  cookieDecoded : K
  cookieRead : K
  cookieSet : K
  complete : K

variable {K : Type*} [Field K] [LinearOrder K] [FloorRing K]

namespace Trail

/-- `revoke_jti(jti, _ttl_seconds(exp))` -/
def revoke (trail : Trail K) (token : Token K) (read set : K) : Trail K :=
  { trail with
    redis := trail.redis.revokeJti set token.jti (ttlSeconds token.exp read)
    revocations := ⟨token, read, set⟩ :: trail.revocations }

/-- `uuid4` draws an identifier that no token and no key has. -/
def Fresh (trail : Trail K) (jti : Uuid) : Prop :=
  trail.redis.denylist jti = none ∧ ∀ token ∈ trail.issued, token.jti ≠ jti

/-- The identifiers of a pair. -/
def Drawn (trail : Trail K) (accessJti refreshJti : Uuid) : Prop :=
  trail.Fresh accessJti ∧ trail.Fresh refreshJti ∧ accessJti ≠ refreshJti

instance (trail : Trail K) (accessJti refreshJti : Uuid) :
    Decidable (trail.Drawn accessJti refreshJti) :=
  inferInstanceAs (Decidable ((_ ∧ _) ∧ (_ ∧ _) ∧ _))

/-- `_issue_pair` -/
def issuePair (settings : TokenSettings) (trail : Trail K) (userId : Uuid)
    (accessAt refreshAt : K) (accessJti refreshJti : Uuid) : Session K :=
  let access := createAccessToken settings userId accessAt accessJti
  let refresh := createRefreshToken settings userId refreshAt refreshJti
  { trail with
    issued := refresh :: access :: trail.issued
    clock := refreshAt
    userId := userId
    access := access
    cookie := refresh }

/-- One of the revocations set a key that covers the token. -/
def Retired (trail : Trail K) (token : Token K) : Prop :=
  ∃ revocation ∈ trail.revocations, revocation.token = token ∧
    ⌊revocation.read⌋ < token.exp ∧ ⌊revocation.read⌋ < ⌊revocation.set⌋

instance (trail : Trail K) (token : Token K) : Decidable (trail.Retired token) :=
  inferInstanceAs (Decidable (∃ revocation ∈ trail.revocations, _))

/-- The denylist holds of the chain what its revocations put there. -/
structure Tracked (trail : Trail K) : Prop where
  named : ∀ token ∈ trail.issued, ∀ other ∈ trail.issued,
    token.jti = other.jti → token = other
  revoked : ∀ revocation ∈ trail.revocations, revocation.token ∈ trail.issued
  covered : ∀ token ∈ trail.issued, Covered trail.redis token ↔ trail.Retired token

/-- A first revocation of a token of the chain is tracked. -/
theorem Tracked.revoke [IsStrictOrderedRing K] {trail : Trail K} {token : Token K}
    {read set : K} (htracked : trail.Tracked) (hmem : token ∈ trail.issued)
    (hfirst : ∀ revocation ∈ trail.revocations, revocation.token ≠ token) :
    (trail.revoke token read set).Tracked := by
  refine ⟨htracked.named, ?_, ?_⟩
  · intro revocation hrevocation
    rcases List.mem_cons.mp hrevocation with rfl | hold
    · exact hmem
    · exact htracked.revoked revocation hold
  · intro other hother
    by_cases heq : other = token
    · subst other
      have hold : ¬ trail.Retired token := by
        rintro ⟨revocation, hrevocation, htoken, _⟩
        exact hfirst revocation hrevocation htoken
      have hnone : ¬ Covered trail.redis token :=
        (htracked.covered token hmem).not.mpr hold
      rw [Trail.revoke, covered_revokeJti_iff]
      constructor
      · rintro (hsecond | ⟨_, hcovered⟩)
        · exact ⟨_, List.mem_cons_self, rfl, hsecond⟩
        · exact absurd hcovered hnone
      · rintro ⟨revocation, hrevocation, htoken, hsecond⟩
        rcases List.mem_cons.mp hrevocation with rfl | hpast
        · exact Or.inl hsecond
        · exact absurd ⟨revocation, hpast, htoken, hsecond⟩ hold
    · have hjti : other.jti ≠ token.jti := fun hjti =>
        heq (htracked.named other hother token hmem hjti)
      have hsame : Covered (trail.revoke token read set).redis other ↔
          Covered trail.redis other := by
        rw [Covered, Covered, Trail.revoke, Redis.denylist_revokeJti_of_ne _ _ _ hjti]
      rw [hsame, htracked.covered other hother]
      constructor
      · rintro ⟨revocation, hrevocation, hcase⟩
        exact ⟨revocation, List.mem_cons_of_mem _ hrevocation, hcase⟩
      · rintro ⟨revocation, hrevocation, htoken, hcase⟩
        rcases List.mem_cons.mp hrevocation with rfl | hpast
        · exact absurd htoken.symm heq
        · exact ⟨revocation, hpast, htoken, hcase⟩

/-- A new pair starts without keys and without revocations. -/
theorem Tracked.issuePair {settings : TokenSettings} {trail : Trail K} {userId : Uuid}
    {accessAt refreshAt : K} {accessJti refreshJti : Uuid} (htracked : trail.Tracked)
    (hdrawn : trail.Drawn accessJti refreshJti) :
    (trail.issuePair settings userId accessAt refreshAt accessJti refreshJti).Tracked := by
  obtain ⟨⟨hnoAccess, haccess⟩, ⟨hnoRefresh, hrefresh⟩, hne⟩ := hdrawn
  have hretired : ∀ token, token ∉ trail.issued → ¬ trail.Retired token := by
    rintro token hnew ⟨revocation, hrevocation, rfl, _⟩
    exact hnew (htracked.revoked revocation hrevocation)
  have hnokey : ∀ token : Token K, trail.redis.denylist token.jti = none →
      ¬ Covered trail.redis token := by
    rintro token hnone ⟨expiry, hentry, _⟩
    cases hnone.symm.trans hentry
  refine ⟨?_, ?_, ?_⟩
  · intro token htoken other hother hjti
    simp only [Trail.issuePair, List.mem_cons] at htoken hother
    rcases htoken with rfl | rfl | htoken <;> rcases hother with rfl | rfl | hother
    · rfl
    · exact absurd hjti.symm hne
    · exact absurd hjti.symm (hrefresh other hother)
    · exact absurd hjti hne
    · rfl
    · exact absurd hjti.symm (haccess other hother)
    · exact absurd hjti (hrefresh token htoken)
    · exact absurd hjti (haccess token htoken)
    · exact htracked.named token htoken other hother hjti
  · intro revocation hrevocation
    exact List.mem_cons_of_mem _ (List.mem_cons_of_mem _ (htracked.revoked revocation hrevocation))
  · intro token htoken
    simp only [Trail.issuePair, List.mem_cons] at htoken
    rcases htoken with rfl | rfl | htoken
    · exact iff_of_false (hnokey _ hnoRefresh)
        (hretired _ fun hmem => hrefresh _ hmem rfl)
    · exact iff_of_false (hnokey _ hnoAccess)
        (hretired _ fun hmem => haccess _ hmem rfl)
    · exact htracked.covered token htoken

end Trail

namespace Session

variable (settings : TokenSettings)

/-- `login` -/
def login (bcrypt : Bcrypt) (redis : Redis K) (run : LoginRun K) : Option (Session K) :=
  (bcrypt.admits run.password run.account).toOption.bind fun account =>
    let blank : Trail K := { redis := redis }
    if run.accessAt ≤ run.refreshAt ∧ blank.Drawn run.accessJti run.refreshJti then
      some (blank.issuePair settings account.id run.accessAt run.refreshAt run.accessJti
        run.refreshJti)
    else none

/-- The checks of a presented token, each at its own time. -/
def Passes (redis : Redis K) (token : Token K) (decoded checked : K)
    (account : Option Account) (epoch : K) : Prop :=
  ¬ token.exp < ⌊decoded⌋ ∧ redis.isRevoked checked token.jti = false ∧
    account.any (·.isActive) = true ∧ ¬ token.iat < epoch

instance (redis : Redis K) (token : Token K) (decoded checked : K)
    (account : Option Account) (epoch : K) :
    Decidable (Passes redis token decoded checked account epoch) :=
  inferInstanceAs (Decidable (_ ∧ _))

/-- `refresh` with the current cookie: rotation, then a new pair. -/
def refresh (session : Session K) (run : RefreshRun K) : Option (Session K) :=
  let rotated := session.toTrail.revoke session.cookie run.read run.set
  if [session.clock, run.decoded, run.checked, run.read, run.set, run.accessAt,
        run.refreshAt].IsChain (· ≤ ·) ∧
      Passes session.redis session.cookie run.decoded run.checked run.account run.epoch ∧
      rotated.Drawn run.accessJti run.refreshJti then
    some (rotated.issuePair settings session.userId run.accessAt run.refreshAt run.accessJti
      run.refreshJti)
  else none

/-- `logout` with the current pair.  The access token is decoded a second time
after `get_current_user`; a cookie that does not decode is left alone. -/
def logout (session : Session K) (run : LogoutRun K) : Option (Trail K) :=
  let signedOut := session.toTrail.revoke session.access run.read run.set
  if [session.clock, run.decoded, run.checked, run.decodedAgain, run.read, run.set,
        run.cookieDecoded, run.cookieRead, run.cookieSet, run.complete].IsChain (· ≤ ·) ∧
      Passes session.redis session.access run.decoded run.checked run.account run.epoch ∧
      ¬ session.access.exp < ⌊run.decodedAgain⌋ then
    if session.cookie.exp < ⌊run.cookieDecoded⌋ then some signedOut
    else some (signedOut.revoke session.cookie run.cookieRead run.cookieSet)
  else none

/-- The current pair is part of the chain and none of its revocations. -/
structure Holds (session : Session K) : Prop where
  access : session.access ∈ session.issued
  cookie : session.cookie ∈ session.issued
  apart : session.access ≠ session.cookie
  kept : ∀ revocation ∈ session.revocations,
    revocation.token ≠ session.access ∧ revocation.token ≠ session.cookie

/-- A pair just issued is the current one. -/
theorem issuePair_holds {trail : Trail K} {userId : Uuid} {accessAt refreshAt : K}
    {accessJti refreshJti : Uuid} (htracked : trail.Tracked)
    (hdrawn : trail.Drawn accessJti refreshJti) :
    (trail.issuePair settings userId accessAt refreshAt accessJti refreshJti).Holds := by
  obtain ⟨⟨_, haccess⟩, ⟨_, hrefresh⟩, hne⟩ := hdrawn
  refine ⟨List.mem_cons_of_mem _ List.mem_cons_self, List.mem_cons_self, ?_, ?_⟩
  · intro heq
    exact hne (congrArg Token.jti heq)
  · intro revocation hrevocation
    have hmem := htracked.revoked revocation hrevocation
    constructor <;> intro heq
    · exact haccess _ hmem (congrArg Token.jti heq)
    · exact hrefresh _ hmem (congrArg Token.jti heq)

/-- The chain of a login, whatever number of refreshes it has seen. -/
def Sound (session : Session K) : Prop :=
  session.Tracked ∧ session.Holds

theorem login_sound {bcrypt : Bcrypt} {redis : Redis K} {run : LoginRun K}
    {session : Session K} (hlogin : login settings bcrypt redis run = some session) :
    session.Sound := by
  obtain ⟨account, _, hissue⟩ := Option.bind_eq_some_iff.mp hlogin
  dsimp only at hissue
  split at hissue
  next hready =>
    cases hissue
    have hblank : ({ redis := redis } : Trail K).Tracked :=
      ⟨by simp, by simp, by simp⟩
    exact ⟨hblank.issuePair hready.2, issuePair_holds settings hblank hready.2⟩
  next => cases hissue

theorem refresh_sound [IsStrictOrderedRing K] {session next : Session K} {run : RefreshRun K}
    (hsound : session.Sound) (hrefresh : refresh settings session run = some next) :
    next.Sound := by
  obtain ⟨htracked, hholds⟩ := hsound
  rw [refresh] at hrefresh
  split at hrefresh
  next hready =>
    cases hrefresh
    have hrotated : (session.toTrail.revoke session.cookie run.read run.set).Tracked :=
      htracked.revoke hholds.cookie fun revocation hrevocation =>
        (hholds.kept revocation hrevocation).2
    exact ⟨hrotated.issuePair hready.2.2, issuePair_holds settings hrotated hready.2.2⟩
  next => cases hrefresh

theorem run_sound [IsStrictOrderedRing K] {bcrypt : Bcrypt} {redis : Redis K}
    {run : LoginRun K} {start session : Session K} {refreshes : List (RefreshRun K)}
    (hlogin : login settings bcrypt redis run = some start)
    (hchain : Transition.exec (refresh settings) start refreshes = some session) :
    session.Sound := by
  apply Transition.exec_invariant (motive := Sound) ?_ hchain
  · exact login_sound settings hlogin
  · intro state request next hsound hnext
    exact refresh_sound settings hsound hnext

/-- The chain is still tracked when the logout has returned. -/
theorem logout_tracked [IsStrictOrderedRing K] {session : Session K} {run : LogoutRun K}
    {trail : Trail K} (hsound : session.Sound) (hlogout : session.logout run = some trail) :
    trail.Tracked ∧ trail.issued = session.issued := by
  obtain ⟨htracked, hholds⟩ := hsound
  have hsignedOut : (session.toTrail.revoke session.access run.read run.set).Tracked :=
    htracked.revoke hholds.access fun revocation hrevocation =>
      (hholds.kept revocation hrevocation).1
  rw [logout] at hlogout
  split_ifs at hlogout with hready hexpired
  · cases hlogout
    exact ⟨hsignedOut, rfl⟩
  · cases hlogout
    refine ⟨hsignedOut.revoke hholds.cookie ?_, rfl⟩
    intro revocation hrevocation
    rcases List.mem_cons.mp hrevocation with rfl | hpast
    · exact hholds.apart
    · exact (hholds.kept revocation hpast).2

/-! ## The end of the session -/

/-- No token of the chain is accepted from the moment the logout has returned. -/
def Ended (trail : Trail K) (complete : K) : Prop :=
  ∀ token ∈ trail.issued, Final trail.redis complete token

def sampleLogin : LoginRun ℚ :=
  { account := some alice, password := "secret", accessAt := 1000, refreshAt := 1000,
    accessJti := 11, refreshJti := 12 }

/-- A refresh `later` seconds after the login whose rotation sees a second turn. -/
def sampleRefresh (later : ℚ) : RefreshRun ℚ :=
  { decoded := 1000 + later, checked := 1000 + later, account := some alice, epoch := 0,
    read := 1000 + later, set := 1001 + later, accessAt := 1001 + later,
    refreshAt := 1001 + later, accessJti := 21, refreshJti := 22 }

/-- A logout `later` seconds after the login whose revocations see a second turn. -/
def sampleLogout (later : ℚ) : LogoutRun ℚ :=
  { decoded := 1000 + later, checked := 1000 + later, account := some alice, epoch := 0,
    decodedAgain := 1000 + later, read := 1000 + later, set := 1001 + later,
    cookieDecoded := 1001 + later, cookieRead := 1001 + later, cookieSet := 1002 + later,
    complete := 1002 + later }

/-- The session that refreshes and logs out at these times after its login. -/
def sampleSession (refreshed loggedOut : ℚ) : Option (Trail ℚ) :=
  (login {} .plain {} sampleLogin).bind fun start =>
    (Transition.exec (refresh {}) start [sampleRefresh refreshed]).bind fun session =>
      session.logout (sampleLogout loggedOut)

/-- Exactly when a logout ends its session: every token of the chain, above all
every access token before the current one, has expired by the time it returns or
was revoked by a key that covers it. -/
theorem logout_ended_iff [IsStrictOrderedRing K] {bcrypt : Bcrypt} {redis : Redis K}
    {run : LoginRun K} {start session : Session K} {refreshes : List (RefreshRun K)}
    {last : LogoutRun K} {trail : Trail K}
    (hlogin : login settings bcrypt redis run = some start)
    (hchain : Transition.exec (refresh settings) start refreshes = some session)
    (hlogout : session.logout last = some trail) :
    Ended trail last.complete ↔
      ∀ token ∈ trail.issued, token.exp < ⌊last.complete⌋ ∨ trail.Retired token := by
  obtain ⟨htracked, _⟩ := logout_tracked (run_sound settings hlogin hchain) hlogout
  refine forall₂_congr fun token htoken => ?_
  rw [final_iff, htracked.covered token htoken]

/-- Refreshed when the first access token had expired, the session ends. -/
theorem logout_ended_expired :
    ∃ trail, sampleSession 1000 1100 = some trail ∧
      Ended trail (sampleLogout 1100).complete := by
  obtain ⟨trail, htrail⟩ : ∃ trail, sampleSession 1000 1100 = some trail :=
    Option.isSome_iff_exists.mp (by decide +kernel)
  obtain ⟨start, hlogin, hrest⟩ := Option.bind_eq_some_iff.mp htrail
  obtain ⟨session, hchain, hlogout⟩ := Option.bind_eq_some_iff.mp hrest
  refine ⟨trail, htrail, (logout_ended_iff {} hlogin hchain hlogout).mpr ?_⟩
  have hall : ∀ ended ∈ sampleSession 1000 1100, ∀ token ∈ ended.issued,
      token.exp < ⌊(sampleLogout 1100).complete⌋ ∨ ended.Retired token := by
    decide +kernel
  exact hall trail htrail

/-- Refreshed ten seconds after the login and logged out ten seconds later, the
session leaves its first access token in use. -/
theorem logout_not_ended :
    ∃ trail, sampleSession 10 20 = some trail ∧
      ¬ Ended trail (sampleLogout 20).complete := by
  obtain ⟨trail, htrail⟩ : ∃ trail, sampleSession 10 20 = some trail :=
    Option.isSome_iff_exists.mp (by decide +kernel)
  refine ⟨trail, htrail, fun hended => ?_⟩
  have hfirst : ∀ left ∈ sampleSession 10 20,
      createAccessToken {} alice.id (1000 : ℚ) 11 ∈ left.issued ∧
      left.redis.denylist 11 = none := by
    decide +kernel
  obtain ⟨hmem, hnone⟩ := hfirst trail htrail
  rcases (final_iff ..).mp (hended _ hmem) with hexpired | ⟨expiry, hentry, _⟩
  · revert hexpired
    decide +kernel
  · cases hnone.symm.trans hentry

end Session

end AgenticRag.Auth
