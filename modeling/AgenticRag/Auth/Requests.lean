import AgenticRag.Auth.Tokens
import AgenticRag.Core.Transition

/-!
# Concurrent requests to the authentication endpoints

Any number of requests to `/auth/login`, `/auth/refresh`, `/auth/logout`, the
endpoints behind `get_current_user` and the user operations of the admin, cut
where the code awaits Redis or the database or reads the clock.  One step moves
the clock, lets a request arrive, lets one request proceed to its next phase or
lets it fail.
-/

namespace AgenticRag.Auth

/-- What a pair was minted for. -/
inductive Origin (K : Type*) where
  | login (userId : Uuid) (password : String)
  | refresh (token : Token K)
  deriving DecidableEq

/-- The `user.id` of the new pair. -/
def Origin.subject {K : Type*} : Origin K → Uuid
  | .login userId _ => userId
  | .refresh token => token.sub

/-- The calls of `revoke_jti`: the rotation of `refresh`, the access token of
`logout` with the cookie still to come, and that cookie. -/
inductive Task (K : Type*) where
  | rotate
  | signOut (cookie : Option (Token K))
  | dropCookie
  deriving DecidableEq

/-- What the checks of a presented token lead to. -/
inductive Purpose (K : Type*) where
  | authenticate
  | act (task : Task K)
  deriving DecidableEq

/-- `update_user` with the one field that authentication reads, and the two
operations that end sessions. -/
inductive AdminOp where
  | updateUser (isActive : Option Bool)
  | revokeSessions
  | resetCredential (temporary salt : String)
  deriving DecidableEq

inductive Request (K : Type*) where
  | login (email password : String)
  | refresh (presented : Option (Token K))
  | logout (access : Token K) (cookie : Option (Token K))
  | me (access : Token K)
  | admin (op : AdminOp) (userId : Uuid)

/-- Where a request stands: the operation it executes next, or its outcome. -/
inductive Phase (K : Type*) where
  /-- `is_revoked` -/
  | checking (purpose : Purpose K) (token : Token K)
  /-- `db.get(User, user_id)` -/
  | loading (purpose : Purpose K) (token : Token K)
  /-- `session_epoch` -/
  | comparing (purpose : Purpose K) (token : Token K)
  /-- `_ttl_seconds` -/
  | timing (task : Task K) (token : Token K)
  /-- `revoke_jti` -/
  | denying (task : Task K) (token : Token K) (ttl : ℤ)
  /-- the `select` of `login` -/
  | selecting (email password : String)
  /-- `create_access_token` -/
  | issuing (origin : Origin K)
  /-- `create_refresh_token` -/
  | issuingRefresh (origin : Origin K) (access : Token K)
  /-- the commit of `login` and `refresh` -/
  | committing (origin : Origin K) (access refresh : Token K)
  /-- the commit of `logout` -/
  | closing
  /-- the admin's `db.get(User, user_id)` -/
  | fetching (op : AdminOp) (userId : Uuid)
  /-- the `time.time()` of `bump_session_epoch` -/
  | stamping (op : AdminOp) (userId : Uuid)
  /-- the `SET` of `bump_session_epoch` -/
  | bumping (op : AdminOp) (userId : Uuid) (epoch : K)
  /-- the admin's commit -/
  | changing (op : AdminOp) (userId : Uuid)
  | authenticated (token : Token K)
  | granted (origin : Origin K) (access refresh : Token K)
  | closed
  | finished (op : AdminOp) (userId : Uuid)
  | refused (error : HttpError)
  | failed
  deriving DecidableEq

/-- The request has been answered. -/
def Phase.isDone {K : Type*} : Phase K → Bool
  | .authenticated _ | .granted .. | .closed | .finished .. | .refused _ | .failed => true
  | _ => false

structure Server (K : Type*) where
  clock : K
  redis : Redis K := {}
  accounts : List Account := []
  /-- every token signed with the secret -/
  issued : List (Token K) := []
  requests : List (Phase K) := []

inductive Event (K : Type*) where
  | tick (later : K)
  | arrive (request : Request K)
  | proceed (index : ℕ) (jti : Uuid)
  | fail (index : ℕ)

namespace AdminOp

/-- The row the operation has loaded decides what it will change. -/
def against (account : Account) : AdminOp → AdminOp
  | .updateUser isActive =>
      .updateUser (if isActive = some account.isActive then none else isActive)
  | op => op

/-- The operation calls `bump_session_epoch`. -/
def bumps (account : Account) : AdminOp → Bool
  | .updateUser isActive => account.isActive && isActive = some false
  | .revokeSessions => true
  | .resetCredential .. => true

/-- The columns written by the commit. -/
def apply (bcrypt : Bcrypt) (account : Account) : AdminOp → Account
  | .updateUser isActive => { account with isActive := isActive.getD account.isActive }
  | .revokeSessions => account
  | .resetCredential temporary salt =>
      { account with hashedPassword := bcrypt.hashPassword temporary salt }

end AdminOp

def credentialsError : HttpError := ⟨401, "Could not validate credentials"⟩

namespace Purpose

variable {K : Type*}

def revokedError : Purpose K → HttpError
  | .act .rotate => ⟨401, "Refresh token revoked"⟩
  | _ => credentialsError

def userError : Purpose K → HttpError
  | .act .rotate => ⟨401, "Invalid refresh token"⟩
  | _ => credentialsError

end Purpose

variable {K : Type*} [Field K] [LinearOrder K] [FloorRing K]

namespace Server

/-- The bearer token of an authenticated endpoint up to its first await. -/
def openBearer (server : Server K) (purpose : Purpose K) (access : Token K) : Phase K :=
  if ¬ Decodes server.issued server.clock access then .refused credentialsError
  else if access.type ≠ .access then .refused credentialsError
  else .checking purpose access

/-- A request up to its first await. -/
def opened (server : Server K) : Request K → Phase K
  | .login email password => .selecting email password
  | .refresh none => .refused ⟨401, "No refresh token"⟩
  | .refresh (some token) =>
      if ¬ Decodes server.issued server.clock token then
        .refused ⟨401, "Invalid refresh token"⟩
      else if token.type ≠ .refresh then .refused ⟨401, "Not a refresh token"⟩
      else .checking (.act .rotate) token
  | .logout access cookie => server.openBearer (.act (.signOut cookie)) access
  | .me access => server.openBearer .authenticate access
  | .admin op userId => .fetching op userId

variable (bcrypt : Bcrypt) (settings : TokenSettings)

/-- One phase of a request: the server with what it has changed, and the phase
that follows.  `jti` is the identifier drawn when a token is minted. -/
def advance (server : Server K) (jti : Uuid) : Phase K → Option (Server K × Phase K)
  | .checking purpose token =>
      if server.redis.isRevoked server.clock token.jti then
        some (server, .refused purpose.revokedError)
      else some (server, .loading purpose token)
  | .loading purpose token =>
      if (getAccount server.accounts token.sub).any (·.isActive) then
        some (server, .comparing purpose token)
      else some (server, .refused purpose.userError)
  | .comparing purpose token =>
      if token.iat < server.redis.sessionEpoch token.sub then
        some (server, .refused purpose.revokedError)
      else
        match purpose with
        | .authenticate => some (server, .authenticated token)
        | .act task => some (server, .timing task token)
  | .timing task token =>
      let denying := Phase.denying task token (ttlSeconds token.exp server.clock)
      match task with
      | .rotate => some (server, denying)
      -- The endpoint decodes the token once more, without a handler.
      | .signOut _ =>
          if Decodes server.issued server.clock token then some (server, denying)
          else some (server, .failed)
      | .dropCookie =>
          if Decodes server.issued server.clock token then some (server, denying)
          else some (server, .closing)
  | .denying task token ttl =>
      let denied := { server with redis := server.redis.revokeJti server.clock token.jti ttl }
      match task with
      | .rotate => some (denied, .issuing (.refresh token))
      | .signOut none => some (denied, .closing)
      | .signOut (some cookie) => some (denied, .timing .dropCookie cookie)
      | .dropCookie => some (denied, .closing)
  | .selecting email password =>
      match bcrypt.admits password (server.accounts.find? fun account => account.email = email) with
      | .error error => some (server, .refused error)
      | .ok account => some (server, .issuing (.login account.id password))
  | .issuing origin =>
      let access := createAccessToken settings origin.subject server.clock jti
      some ({ server with issued := access :: server.issued }, .issuingRefresh origin access)
  | .issuingRefresh origin access =>
      let refresh := createRefreshToken settings origin.subject server.clock jti
      some ({ server with issued := refresh :: server.issued },
        .committing origin access refresh)
  | .committing origin access refresh => some (server, .granted origin access refresh)
  | .closing => some (server, .closed)
  | .fetching op userId =>
      match getAccount server.accounts userId with
      | none => some (server, .refused ⟨404, "User not found"⟩)
      | some account =>
          if op.bumps account then some (server, .stamping (op.against account) userId)
          else some (server, .changing (op.against account) userId)
  | .stamping op userId => some (server, .bumping op userId server.clock)
  | .bumping op userId epoch =>
      some ({ server with redis := server.redis.bumpSessionEpoch userId epoch },
        .changing op userId)
  | .changing op userId =>
      some ({ server with
        accounts := server.accounts.map fun account =>
          if account.id = userId then op.apply bcrypt account else account },
        .finished op userId)
  | .authenticated _ | .granted .. | .closed | .finished .. | .refused _ | .failed => none

def step (server : Server K) : Event K → Option (Server K)
  | .tick later =>
      if server.clock ≤ later then some { server with clock := later } else none
  | .arrive request =>
      some { server with requests := server.requests ++ [server.opened request] }
  | .proceed index jti =>
      server.requests[index]?.bind fun phase =>
        (server.advance bcrypt settings jti phase).map fun moved =>
          { moved.1 with requests := server.requests.set index moved.2 }
  | .fail index =>
      server.requests[index]?.bind fun phase =>
        if phase.isDone then none
        else some { server with requests := server.requests.set index .failed }

/-- A request proceeds from a phase of this kind. -/
def Proceeds (kind : Server K → Phase K → Prop) (server : Server K) : Event K → Prop
  | .proceed index _ => ∃ phase ∈ server.requests[index]?, kind server phase
  | _ => False

instance (kind : Server K → Phase K → Prop) [∀ server, DecidablePred (kind server)]
    (server : Server K) : (event : Event K) → Decidable (server.Proceeds kind event)
  | .proceed index _ =>
      inferInstanceAs (Decidable (∃ phase ∈ server.requests[index]?, kind server phase))
  | .tick _ | .arrive _ | .fail _ => inferInstanceAs (Decidable False)

/-- A server that no request has reached yet. -/
def opening (clock : K) (redis : Redis K) (accounts : List Account)
    (issued : List (Token K)) : Server K :=
  { clock := clock, redis := redis, accounts := accounts, issued := issued }

/-! ## What a step does -/

variable {bcrypt settings}

/-- The four kinds of steps. -/
theorem step_cases {server next : Server K} {event : Event K}
    (hstep : step bcrypt settings server event = some next) :
    (∃ later, event = .tick later ∧ server.clock ≤ later ∧
        next = { server with clock := later }) ∨
      (∃ request, event = .arrive request ∧
        next = { server with requests := server.requests ++ [server.opened request] }) ∨
      (∃ index jti phase moved, event = .proceed index jti ∧
        server.requests[index]? = some phase ∧
        server.advance bcrypt settings jti phase = some moved ∧
        next = { moved.1 with requests := server.requests.set index moved.2 }) ∨
      (∃ index, event = .fail index ∧
        next = { server with requests := server.requests.set index .failed }) := by
  cases event with
  | tick later =>
      rw [step] at hstep
      split at hstep
      next hlater => exact Or.inl ⟨later, rfl, hlater, (Option.some.inj hstep).symm⟩
      next => cases hstep
  | arrive request =>
      exact Or.inr (Or.inl ⟨request, rfl, (Option.some.inj hstep).symm⟩)
  | proceed index jti =>
      obtain ⟨phase, hphase, hmove⟩ := Option.bind_eq_some_iff.mp hstep
      obtain ⟨moved, hmoved, hnext⟩ := Option.map_eq_some_iff.mp hmove
      exact Or.inr (Or.inr (Or.inl ⟨index, jti, phase, moved, rfl, hphase, hmoved, hnext.symm⟩))
  | fail index =>
      obtain ⟨phase, _, hfail⟩ := Option.bind_eq_some_iff.mp hstep
      split at hfail
      next => cases hfail
      next => exact Or.inr (Or.inr (Or.inr ⟨index, rfl, (Option.some.inj hfail).symm⟩))

/-- A request begins before any of its checks. -/
theorem opened_cases (server : Server K) (request : Request K) :
    (∃ email password, server.opened request = .selecting email password) ∨
      (∃ op userId, server.opened request = .fetching op userId) ∨
      (∃ error, server.opened request = .refused error) ∨
      (∃ purpose token, server.opened request = .checking purpose token ∧
        token ∈ server.issued) := by
  have hbearer : ∀ purpose access,
      (∃ error, server.openBearer purpose access = .refused error) ∨
      (∃ checked token, server.openBearer purpose access = .checking checked token ∧
        token ∈ server.issued) := by
    intro purpose access
    rw [openBearer]
    split
    next => exact Or.inl ⟨_, rfl⟩
    next hdecodes =>
        split
        next => exact Or.inl ⟨_, rfl⟩
        next => exact Or.inr ⟨purpose, access, rfl, (not_not.mp hdecodes).1⟩
  cases request with
  | login email password => exact Or.inl ⟨email, password, rfl⟩
  | refresh presented =>
      cases presented with
      | none => exact Or.inr (Or.inr (Or.inl ⟨_, rfl⟩))
      | some token =>
          rw [opened]
          split
          next => exact Or.inr (Or.inr (Or.inl ⟨_, rfl⟩))
          next hdecodes =>
              split
              next => exact Or.inr (Or.inr (Or.inl ⟨_, rfl⟩))
              next => exact Or.inr (Or.inr (Or.inr ⟨_, token, rfl, (not_not.mp hdecodes).1⟩))
  | logout access cookie => exact Or.inr (Or.inr (hbearer ..))
  | me access => exact Or.inr (Or.inr (hbearer ..))
  | admin op userId => exact Or.inr (Or.inl ⟨op, userId, rfl⟩)

end Server

/-- Phases from which no rotation and no pair can come. -/
def Phase.isIdle {K : Type*} : Phase K → Bool
  | .checking .. | .loading .. | .comparing .. | .selecting .. | .issuing _
  | .issuingRefresh .. | .committing .. | .granted .. => false
  | .timing .rotate _ | .denying .rotate .. => false
  | _ => true

/-- The moves on the way to a pair, with the tokens signed afterwards; every
other move leads to an idle phase. -/
inductive Moves (bcrypt : Bcrypt) (settings : TokenSettings) (server : Server K) (jti : Uuid) :
    Phase K → List (Token K) → Phase K → Prop
  | check (purpose : Purpose K) (token : Token K)
      (hlive : server.redis.isRevoked server.clock token.jti = false) :
      Moves bcrypt settings server jti (.checking purpose token) server.issued
        (.loading purpose token)
  | load (purpose : Purpose K) (token : Token K) :
      Moves bcrypt settings server jti (.loading purpose token) server.issued
        (.comparing purpose token)
  | compare (token : Token K)
      (hepoch : server.redis.sessionEpoch token.sub ≤ token.iat) :
      Moves bcrypt settings server jti (.comparing (.act .rotate) token) server.issued
        (.timing .rotate token)
  | time (token : Token K) :
      Moves bcrypt settings server jti (.timing .rotate token) server.issued
        (.denying .rotate token (ttlSeconds token.exp server.clock))
  | deny (token : Token K) (ttl : ℤ) :
      Moves bcrypt settings server jti (.denying .rotate token ttl) server.issued
        (.issuing (.refresh token))
  | select (email password : String) (account : Account)
      (hadmits : bcrypt.admits password
        (server.accounts.find? fun account => account.email = email) = .ok account) :
      Moves bcrypt settings server jti (.selecting email password) server.issued
        (.issuing (.login account.id password))
  | issue (origin : Origin K) :
      Moves bcrypt settings server jti (.issuing origin)
        (createAccessToken settings origin.subject server.clock jti :: server.issued)
        (.issuingRefresh origin (createAccessToken settings origin.subject server.clock jti))
  | issueRefresh (origin : Origin K) (access : Token K) :
      Moves bcrypt settings server jti (.issuingRefresh origin access)
        (createRefreshToken settings origin.subject server.clock jti :: server.issued)
        (.committing origin access
          (createRefreshToken settings origin.subject server.clock jti))
  | commit (origin : Origin K) (access refresh : Token K) :
      Moves bcrypt settings server jti (.committing origin access refresh) server.issued
        (.granted origin access refresh)
  | rest (phase next : Phase K) (hidle : next.isIdle = true) :
      Moves bcrypt settings server jti phase server.issued next

/-- No move withdraws a signature. -/
theorem Moves.issued_subset {bcrypt : Bcrypt} {settings : TokenSettings} {server : Server K}
    {jti : Uuid} {phase next : Phase K} {issued : List (Token K)}
    (hmoves : Moves bcrypt settings server jti phase issued next) :
    server.issued ⊆ issued := by
  cases hmoves with
  | issue origin => exact List.subset_cons_self ..
  | issueRefresh origin access => exact List.subset_cons_self ..
  | _ => exact List.Subset.refl _

namespace Server

variable {bcrypt : Bcrypt} {settings : TokenSettings}

theorem advance_moves {server : Server K} {jti : Uuid} {phase : Phase K}
    {moved : Server K × Phase K}
    (hadvance : server.advance bcrypt settings jti phase = some moved) :
    Moves bcrypt settings server jti phase moved.1.issued moved.2 := by
  cases phase with
  | checking purpose token =>
      rw [advance] at hadvance
      split_ifs at hadvance with hrevoked <;> cases hadvance
      · exact .rest _ _ rfl
      · exact .check purpose token (by simpa using hrevoked)
  | loading purpose token =>
      rw [advance] at hadvance
      split_ifs at hadvance <;> cases hadvance
      · exact .load purpose token
      · exact .rest _ _ rfl
  | comparing purpose token =>
      rw [advance.eq_def] at hadvance
      dsimp only at hadvance
      split_ifs at hadvance with hepoch
      · cases hadvance
        exact .rest _ _ rfl
      · rcases purpose with _ | _ | _ | _ <;> cases hadvance
        · exact .rest _ _ rfl
        · exact .compare token (not_lt.mp hepoch)
        · exact .rest _ _ rfl
        · exact .rest _ _ rfl
  | timing task token =>
      cases task with
      | rotate =>
          cases hadvance
          exact .time token
      | signOut cookie =>
          simp only [advance] at hadvance
          split_ifs at hadvance <;> cases hadvance <;> exact .rest _ _ rfl
      | dropCookie =>
          simp only [advance] at hadvance
          split_ifs at hadvance <;> cases hadvance <;> exact .rest _ _ rfl
  | denying task token ttl =>
      rcases task with _ | _ | _
      · cases hadvance
        exact .deny token ttl
      · rename_i cookie
        cases cookie <;> cases hadvance <;> exact .rest _ _ rfl
      · cases hadvance
        exact .rest _ _ rfl
  | selecting email password =>
      simp only [advance] at hadvance
      split at hadvance
      next => cases hadvance; exact .rest _ _ rfl
      next account hadmits => cases hadvance; exact .select email password account hadmits
  | issuing origin =>
      cases hadvance
      exact .issue origin
  | issuingRefresh origin access =>
      cases hadvance
      exact .issueRefresh origin access
  | committing origin access refresh =>
      cases hadvance
      exact .commit origin access refresh
  | closing => cases hadvance; exact .rest _ _ rfl
  | fetching op userId =>
      simp only [advance] at hadvance
      split at hadvance
      next => cases hadvance; exact .rest _ _ rfl
      next => split_ifs at hadvance <;> cases hadvance <;> exact .rest _ _ rfl
  | stamping op userId => cases hadvance; exact .rest _ _ rfl
  | bumping op userId epoch => cases hadvance; exact .rest _ _ rfl
  | changing op userId => cases hadvance; exact .rest _ _ rfl
  | authenticated token => cases hadvance
  | granted origin access refresh => cases hadvance
  | closed => cases hadvance
  | finished op userId => cases hadvance
  | refused error => cases hadvance
  | failed => cases hadvance

/-- Redis changes by the `SET` of a revocation and by the `SET` of a bump. -/
theorem advance_redis {server : Server K} {jti : Uuid} {phase : Phase K}
    {moved : Server K × Phase K}
    (hadvance : server.advance bcrypt settings jti phase = some moved) :
    moved.1.redis = server.redis ∨
      (∃ task token ttl, phase = .denying task token ttl ∧
        moved.1.redis = server.redis.revokeJti server.clock token.jti ttl) ∨
      (∃ op userId epoch, phase = .bumping op userId epoch ∧
        moved.1.redis = server.redis.bumpSessionEpoch userId epoch) := by
  cases phase with
  | denying task token ttl =>
      refine Or.inr (Or.inl ⟨task, token, ttl, rfl, ?_⟩)
      rcases task with _ | cookie | _
      · cases hadvance; rfl
      · cases cookie <;> cases hadvance <;> rfl
      · cases hadvance; rfl
  | bumping op userId epoch =>
      cases hadvance
      exact Or.inr (Or.inr ⟨op, userId, epoch, rfl, rfl⟩)
  | checking purpose token =>
      rw [advance] at hadvance
      split_ifs at hadvance <;> cases hadvance <;> exact Or.inl rfl
  | loading purpose token =>
      rw [advance] at hadvance
      split_ifs at hadvance <;> cases hadvance <;> exact Or.inl rfl
  | comparing purpose token =>
      rw [advance.eq_def] at hadvance
      dsimp only at hadvance
      split_ifs at hadvance
      · cases hadvance; exact Or.inl rfl
      · cases purpose <;> cases hadvance <;> exact Or.inl rfl
  | timing task token =>
      cases task <;> simp only [advance] at hadvance
      · cases hadvance; exact Or.inl rfl
      · split_ifs at hadvance <;> cases hadvance <;> exact Or.inl rfl
      · split_ifs at hadvance <;> cases hadvance <;> exact Or.inl rfl
  | selecting email password =>
      simp only [advance] at hadvance
      split at hadvance <;> cases hadvance <;> exact Or.inl rfl
  | fetching op userId =>
      simp only [advance] at hadvance
      split at hadvance
      next => cases hadvance; exact Or.inl rfl
      next => split_ifs at hadvance <;> cases hadvance <;> exact Or.inl rfl
  | _ => cases hadvance <;> exact Or.inl rfl

/-- What holds of every request after a step: it held of every request before,
it holds of an arriving and of a failed one, and the move establishes it. -/
theorem step_forall {motive : Phase K → Prop} {server next : Server K} {event : Event K}
    (hstep : step bcrypt settings server event = some next)
    (hall : ∀ phase ∈ server.requests, motive phase)
    (hopened : ∀ request, motive (server.opened request)) (hfailed : motive .failed)
    (hmove : ∀ index jti phase moved, event = .proceed index jti →
      server.requests[index]? = some phase →
      server.advance bcrypt settings jti phase = some moved →
      next.issued = moved.1.issued → motive moved.2) :
    ∀ phase ∈ next.requests, motive phase := by
  intro phase hphase
  rcases step_cases hstep with ⟨later, _, _, rfl⟩ | ⟨request, _, rfl⟩ |
    ⟨index, jti, before, moved, hevent, hbefore, hmoved, rfl⟩ | ⟨index, _, rfl⟩
  · exact hall phase hphase
  · rcases List.mem_append.mp hphase with hold | hnew
    · exact hall phase hold
    · rw [List.mem_singleton.mp hnew]
      exact hopened request
  · rcases List.mem_or_eq_of_mem_set hphase with hold | rfl
    · exact hall phase hold
    · exact hmove index jti before moved hevent hbefore hmoved rfl
  · rcases List.mem_or_eq_of_mem_set hphase with hold | rfl
    · exact hall phase hold
    · exact hfailed

/-- What a step does to a user's epoch. -/
theorem step_sessionEpoch {server next : Server K} {event : Event K} (userId : Uuid)
    (hstep : step bcrypt settings server event = some next) :
    next.redis.sessionEpoch userId = server.redis.sessionEpoch userId ∨
      ∃ index jti op epoch, event = .proceed index jti ∧
        server.requests[index]? = some (.bumping op userId epoch) ∧
        next.redis.sessionEpoch userId = epoch := by
  rcases step_cases hstep with ⟨later, _, _, rfl⟩ | ⟨request, _, rfl⟩ |
    ⟨index, jti, phase, moved, rfl, hphase, hmoved, rfl⟩ | ⟨index, _, rfl⟩
  · exact Or.inl rfl
  · exact Or.inl rfl
  · rcases advance_redis hmoved with hsame | ⟨task, token, ttl, _, hdenied⟩ |
      ⟨op, user, epoch, rfl, hbumped⟩
    · exact Or.inl (congrArg (Redis.sessionEpoch · userId) hsame)
    · left
      dsimp only
      rw [hdenied, Redis.sessionEpoch_revokeJti]
    · dsimp only
      rw [hbumped, Redis.sessionEpoch_bumpSessionEpoch]
      split
      next heq =>
          subst heq
          exact Or.inr ⟨index, jti, op, epoch, rfl, hphase, rfl⟩
      next => exact Or.inl rfl
  · exact Or.inl rfl

theorem step_issued_subset {server next : Server K} {event : Event K}
    (hstep : step bcrypt settings server event = some next) :
    server.issued ⊆ next.issued := by
  rcases step_cases hstep with ⟨later, _, _, rfl⟩ | ⟨request, _, rfl⟩ |
    ⟨index, jti, phase, moved, rfl, hphase, hmoved, rfl⟩ | ⟨index, _, rfl⟩
  · exact List.Subset.refl _
  · exact List.Subset.refl _
  · exact (advance_moves hmoved).issued_subset
  · exact List.Subset.refl _

end Server

end AgenticRag.Auth
