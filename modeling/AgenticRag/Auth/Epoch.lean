import AgenticRag.Auth.Rotation

/-!
# Session epochs under concurrency

`revoke_sessions` and `reset_credential` write the user's session epoch in one
`SET`, with the clock read before it.  From then on a token older than the
epoch is refused; what has to be excluded is a request that was let through
before and mints a younger one afterwards.
-/

namespace AgenticRag.Auth

/-! ## What a pair is minted for -/

namespace Phase

section Origins

variable {K : Type*}

/-- The tokens of a request are signed, for the subject of its origin. -/
def Signed (issued : List (Token K)) : Phase K → Prop
  | .issuingRefresh origin access => access ∈ issued ∧ access.sub = origin.subject
  | .committing origin access refresh | .granted origin access refresh =>
      (access ∈ issued ∧ access.sub = origin.subject) ∧
        (refresh ∈ issued ∧ refresh.sub = origin.subject)
  | _ => True

theorem signed_of_isIdle {issued : List (Token K)} {phase : Phase K}
    (hidle : phase.isIdle = true) : phase.Signed issued := by
  cases phase <;> trivial

/-- Signing more tokens keeps the others signed. -/
theorem Signed.mono {issued more : List (Token K)} {phase : Phase K}
    (hsigned : phase.Signed issued) (hsub : issued ⊆ more) : phase.Signed more := by
  cases phase with
  | issuingRefresh origin access => exact ⟨hsub hsigned.1, hsigned.2⟩
  | committing origin access refresh =>
      exact ⟨⟨hsub hsigned.1.1, hsigned.1.2⟩, hsub hsigned.2.1, hsigned.2.2⟩
  | granted origin access refresh =>
      exact ⟨⟨hsub hsigned.1.1, hsigned.1.2⟩, hsub hsigned.2.1, hsigned.2.2⟩
  | _ => trivial

variable [LinearOrder K]

/-- A request whose origin is of the kind has nothing left to mint, and what it
has minted is older than the epoch. -/
def Superseded (kind : Origin K → Prop) (epoch : K) : Phase K → Prop
  | .timing .rotate token | .denying .rotate token _ => ¬ kind (.refresh token)
  | .issuing origin | .issuingRefresh origin _ => ¬ kind origin
  | .committing origin access refresh | .granted origin access refresh =>
      kind origin → access.iat < epoch ∧ refresh.iat < epoch
  | _ => True

theorem superseded_of_isIdle {kind : Origin K → Prop} {epoch : K} {phase : Phase K}
    (hidle : phase.isIdle = true) : phase.Superseded kind epoch := by
  cases phase with
  | timing task token => cases task <;> trivial
  | denying task token ttl => cases task <;> trivial
  | _ => trivial

instance (kind : Origin K → Prop) [DecidablePred kind] (epoch : K) :
    (phase : Phase K) → Decidable (phase.Superseded kind epoch) := by
  intro phase
  cases phase with
  | timing task token => cases task <;> (unfold Superseded; infer_instance)
  | denying task token ttl => cases task <;> (unfold Superseded; infer_instance)
  | _ => unfold Superseded; infer_instance

end Origins

end Phase

variable {K : Type*} [Field K] [LinearOrder K] [FloorRing K]

namespace Moves

variable {bcrypt : Bcrypt} {settings : TokenSettings} {server : Server K} {jti : Uuid}
variable {phase next : Phase K} {issued : List (Token K)}

theorem signed (hmoves : Moves bcrypt settings server jti phase issued next)
    (hphase : phase.Signed server.issued) : next.Signed issued := by
  cases hmoves with
  | issue origin => exact ⟨List.mem_cons_self, rfl⟩
  | issueRefresh origin access =>
      exact ⟨⟨List.mem_cons_of_mem _ hphase.1, hphase.2⟩, List.mem_cons_self, rfl⟩
  | commit origin access refresh => exact hphase
  | rest _ _ hidle => exact Phase.signed_of_isIdle hidle
  | _ => trivial

end Moves

namespace Server

variable {bcrypt : Bcrypt} {settings : TokenSettings}

/-- The last check before a pair of this kind is minted lets the request
through. -/
def Begins (bcrypt : Bcrypt) (kind : Origin K → Prop) (server : Server K) : Phase K → Prop
  | .comparing (.act .rotate) token =>
      server.redis.sessionEpoch token.sub ≤ token.iat ∧ kind (.refresh token)
  | .selecting email password =>
      ∃ account ∈ (bcrypt.admits password
          (server.accounts.find? fun account => account.email = email)).toOption,
        kind (.login account.id password)
  | _ => False

/-- The `SET` of a bump that gives the user an older epoch. -/
def Lowers (userId : Uuid) (epoch : K) (_ : Server K) : Phase K → Prop
  | .bumping _ user written => user = userId ∧ written < epoch
  | _ => False

instance (userId : Uuid) (epoch : K) (server : Server K) :
    DecidablePred (server.Lowers userId epoch) := by
  intro phase
  cases phase <;> (unfold Lowers; infer_instance)

/-- The last check of `get_current_user` or `refresh` lets the token through. -/
def Accepts (token : Token K) (server : Server K) : Phase K → Prop
  | .comparing _ presented =>
      presented = token ∧ server.redis.sessionEpoch token.sub ≤ token.iat
  | _ => False

instance (token : Token K) (server : Server K) : DecidablePred (server.Accepts token) := by
  intro phase
  cases phase <;> (unfold Accepts; infer_instance)

instance (bcrypt : Bcrypt) (kind : Origin K → Prop) [DecidablePred kind] (server : Server K) :
    DecidablePred (server.Begins bcrypt kind) := by
  intro phase
  cases phase with
  | comparing purpose token =>
      rcases purpose with _ | _ | _ | _ <;> (unfold Begins; infer_instance)
  | _ => unfold Begins; infer_instance

end Server

/-- A request stays superseded unless the last check before a pair of the kind
lets it through. -/
theorem Moves.superseded {bcrypt : Bcrypt} {settings : TokenSettings} {server : Server K}
    {jti : Uuid} {phase next : Phase K} {issued : List (Token K)} {kind : Origin K → Prop}
    {epoch : K} (hmoves : Moves bcrypt settings server jti phase issued next)
    (hphase : phase.Superseded kind epoch) (hbegins : ¬ server.Begins bcrypt kind phase) :
    next.Superseded kind epoch := by
  cases hmoves with
  | compare token hepoch => exact fun hkind => hbegins ⟨hepoch, hkind⟩
  | select email password account hadmits =>
      intro hkind
      refine hbegins ⟨account, ?_, hkind⟩
      rw [hadmits]
      rfl
  | time token => exact hphase
  | deny token ttl => exact hphase
  | issue origin => exact hphase
  | issueRefresh origin access => exact fun hkind => absurd hkind hphase
  | commit origin access refresh => exact hphase
  | rest _ _ hidle => exact Phase.superseded_of_isIdle hidle
  | check purpose token hlive => trivial
  | load purpose token => trivial

namespace Server

variable {bcrypt : Bcrypt} {settings : TokenSettings}

/-! ## The invariants of a run -/

/-- Every pair is signed, for the user it was minted for. -/
def Signed (server : Server K) : Prop :=
  ∀ phase ∈ server.requests, phase.Signed server.issued

theorem step_signed {server next : Server K} {event : Event K} (hsigned : server.Signed)
    (hstep : step bcrypt settings server event = some next) : next.Signed := by
  have hsub := step_issued_subset hstep
  refine step_forall (motive := fun phase => phase.Signed next.issued) hstep ?_ ?_ ?_ ?_
  · exact fun phase hphase => (hsigned phase hphase).mono hsub
  · intro request
    rcases server.opened_cases request with ⟨email, password, hopened⟩ |
      ⟨op, userId, hopened⟩ | ⟨error, hopened⟩ | ⟨purpose, token, hopened, _⟩
    all_goals rw [hopened]; trivial
  · trivial
  · intro index jti phase moved _ hphase hmoved hissued
    rw [hissued]
    exact (advance_moves hmoved).signed (hsigned phase (List.mem_of_getElem? hphase))

theorem run_signed {clock : K} {redis : Redis K} {accounts : List Account}
    {issued : List (Token K)} {events : List (Event K)} {finish : Server K}
    (hrun : Transition.exec (step bcrypt settings) (opening clock redis accounts issued)
      events = some finish) : finish.Signed := by
  apply Transition.exec_invariant (motive := Signed) ?_ hrun
  · exact fun phase hphase => absurd hphase List.not_mem_nil
  · intro state event next hsigned hnext
    exact step_signed hsigned hnext

/-- The user's epoch is at least `epoch`, and requests of the kind are
superseded by it. -/
structure Superseded (kind : Origin K → Prop) (userId : Uuid) (epoch : K)
    (server : Server K) : Prop where
  written : epoch ≤ server.redis.sessionEpoch userId
  requests : ∀ phase ∈ server.requests, phase.Superseded kind epoch

theorem step_superseded {kind : Origin K → Prop} {userId : Uuid} {epoch : K}
    {server next : Server K} {event : Event K}
    (hsuperseded : server.Superseded kind userId epoch)
    (hstep : step bcrypt settings server event = some next)
    (hbegins : ¬ server.Proceeds (Begins bcrypt kind) event)
    (hlowers : ¬ server.Proceeds (Lowers userId epoch) event) :
    next.Superseded kind userId epoch := by
  constructor
  · rcases step_sessionEpoch userId hstep with hsame | ⟨index, jti, op, written, rfl, hphase, heq⟩
    · exact hsame ▸ hsuperseded.written
    · rw [heq]
      by_contra hlower
      exact hlowers ⟨_, hphase, rfl, not_le.mp hlower⟩
  · apply step_forall hstep hsuperseded.requests
    · intro request
      rcases server.opened_cases request with ⟨email, password, hopened⟩ |
        ⟨op, user, hopened⟩ | ⟨error, hopened⟩ | ⟨purpose, token, hopened, _⟩
      all_goals rw [hopened]; trivial
    · trivial
    · rintro index jti phase moved rfl hphase hmoved _
      exact (advance_moves hmoved).superseded
        (hsuperseded.requests phase (List.mem_of_getElem? hphase))
        fun hthrough => hbegins ⟨phase, hphase, hthrough⟩

/-- What supersedes requests keeps them superseded along a run, as long as no
step undoes it. -/
theorem run_superseded {kind : Origin K → Prop} {userId : Uuid} {epoch : K}
    {undoes : Server K → Phase K → Prop} {start finish : Server K} {events : List (Event K)}
    (hundoes : ∀ server phase, server.Superseded kind userId epoch →
      server.Begins bcrypt kind phase ∨ server.Lowers userId epoch phase → undoes server phase)
    (hstart : start.Superseded kind userId epoch)
    (hrun : Transition.exec (step bcrypt settings) start events = some finish)
    (hnone : ¬ Transition.Occurs (step bcrypt settings) start events (Proceeds undoes)) :
    finish.Superseded kind userId epoch := by
  have hproceeds : ∀ (server : Server K) (event : Event K) (cause : Server K → Phase K → Prop),
      (∀ phase, cause server phase → undoes server phase) → server.Proceeds cause event →
      server.Proceeds undoes event := by
    intro server event cause hcause hevent
    cases event with
    | proceed index jti =>
        obtain ⟨phase, hphase, hthrough⟩ := hevent
        exact ⟨phase, hphase, hcause phase hthrough⟩
    | _ => exact hevent
  apply Transition.exec_unless (motive := fun state => state.Superseded kind userId epoch)
    hstart ?_ hrun hnone
  intro past state event next _ hstate hnext hquiet
  refine step_superseded hstate hnext ?_ ?_
  · exact fun hbegins => hquiet (hproceeds state event _
      (fun phase hthrough => hundoes state phase hstate (Or.inl hthrough)) hbegins)
  · exact fun hlowers => hquiet (hproceeds state event _
      (fun phase hlower => hundoes state phase hstate (Or.inr hlower)) hlowers)

/-- The `SET` of a bump supersedes what it finds settled. -/
theorem bump_superseded {kind : Origin K → Prop} {op : AdminOp} {userId : Uuid} {epoch : K}
    {server next : Server K} {index : ℕ} {jti : Uuid}
    (hbump : server.requests[index]? = some (.bumping op userId epoch))
    (hall : ∀ phase ∈ server.requests, phase.Superseded kind epoch)
    (hstep : step bcrypt settings server (.proceed index jti) = some next) :
    next.Superseded kind userId epoch := by
  rw [step, hbump] at hstep
  cases hstep
  constructor
  · dsimp only
    rw [Redis.sessionEpoch_bumpSessionEpoch, if_pos rfl]
  · intro phase hphase
    rcases List.mem_or_eq_of_mem_set hphase with hold | rfl
    · exact hall phase hold
    · trivial

/-! ## Admin operations that return -/

/-- A run in which an admin's request is about to write a user's epoch, writes it
and returns. -/
structure Returns (bcrypt : Bcrypt) (settings : TokenSettings) (op : AdminOp) (userId : Uuid)
    (epoch : K) (start bumped finish : Server K) (before after : List (Event K)) (index : ℕ)
    (jti : Uuid) : Prop where
  reached : Transition.exec (step bcrypt settings) start before = some bumped
  bump : bumped.requests[index]? = some (.bumping op userId epoch)
  run : Transition.exec (step bcrypt settings) bumped (.proceed index jti :: after) = some finish
  returned : finish.requests[index]? = some (.finished op userId)

theorem Returns.signed {op : AdminOp} {userId : Uuid} {epoch clock : K} {redis : Redis K}
    {accounts : List Account} {issued : List (Token K)} {bumped finish : Server K}
    {before after : List (Event K)} {index : ℕ} {jti : Uuid}
    (hreturns : Returns bcrypt settings op userId epoch (opening clock redis accounts issued)
      bumped finish before after index jti) : finish.Signed :=
  run_signed (Transition.exec_append_eq_some_iff.mpr ⟨bumped, hreturns.reached, hreturns.run⟩)

/-- What the bump finds settled is superseded when the request has returned. -/
theorem Returns.superseded {kind : Origin K → Prop} {undoes : Server K → Phase K → Prop}
    {op : AdminOp} {userId : Uuid} {epoch : K} {start bumped finish : Server K}
    {before after : List (Event K)} {index : ℕ} {jti : Uuid}
    (hreturns : Returns bcrypt settings op userId epoch start bumped finish before after index jti)
    (hall : ∀ phase ∈ bumped.requests, phase.Superseded kind epoch)
    (hundoes : ∀ server phase, server.Superseded kind userId epoch →
      server.Begins bcrypt kind phase ∨ server.Lowers userId epoch phase → undoes server phase)
    (hnone : ¬ Transition.Occurs (step bcrypt settings) bumped (.proceed index jti :: after)
      (Proceeds undoes)) :
    finish.Superseded kind userId epoch := by
  obtain ⟨next, hnext, hrest⟩ := Transition.exec_cons_eq_some_iff.mp hreturns.run
  refine run_superseded hundoes (bump_superseded hreturns.bump hall hnext) hrest fun hoccurs => ?_
  exact hnone (Transition.occurs_cons_iff.mpr (Or.inr ⟨next, hnext, hoccurs⟩))

omit [FloorRing K] in
/-- A token of the user older than a written epoch is not let through. -/
theorem Superseded.refuses {kind : Origin K → Prop} {userId : Uuid} {epoch : K}
    {server : Server K} {token : Token K} (hsuperseded : server.Superseded kind userId epoch)
    (huser : token.sub = userId) (hold : token.iat < epoch) (event : Event K) :
    ¬ server.Proceeds (Accepts token) event := by
  intro haccepts
  cases event with
  | proceed index jti =>
      obtain ⟨phase, _, hthrough⟩ := haccepts
      cases phase with
      | comparing purpose presented =>
          obtain ⟨_, hepoch⟩ := hthrough
          rw [huser] at hepoch
          exact absurd (hsuperseded.written.trans hepoch) (not_le.mpr hold)
      | _ => exact hthrough
  | _ => exact haccepts

end Server

/-! ## Revoking the sessions of a user -/

/-- `token` is the last of a chain of refreshes that begins with `root`. -/
inductive Descends (requests : List (Phase K)) (root : Token K) : Token K → Prop
  | root : Descends requests root root
  | access {parent access refresh : Token K} (hparent : Descends requests root parent)
      (hgranted : .granted (.refresh parent) access refresh ∈ requests) :
      Descends requests root access
  | refresh {parent access refresh : Token K} (hparent : Descends requests root parent)
      (hgranted : .granted (.refresh parent) access refresh ∈ requests) :
      Descends requests root refresh

/-- The pairs for which a refresh token of the user older than the epoch was
presented. -/
def OldRefresh (userId : Uuid) (epoch : K) : Origin K → Prop
  | .login .. => False
  | .refresh token => token.sub = userId ∧ token.iat < epoch

/-- A refresh of the user that has passed the epoch check and has a token to
mint. -/
def Phase.rotates (userId : Uuid) : Phase K → Bool
  | .timing .rotate token => token.sub = userId
  | .denying .rotate token _ => token.sub = userId
  | .issuing (.refresh token) => token.sub = userId
  | .issuingRefresh (.refresh token) _ => token.sub = userId
  | _ => false

namespace Server

/-- Before the epoch is written, every token of the user is older than it and no
refresh of the user is between its epoch check and its pair. -/
def Settled (userId : Uuid) (epoch : K) (server : Server K) : Prop :=
  (∀ token ∈ server.issued, token.sub = userId → token.iat < epoch) ∧
    ∀ phase ∈ server.requests, phase.rotates userId = false

instance (userId : Uuid) (epoch : K) (server : Server K) :
    Decidable (server.Settled userId epoch) :=
  inferInstanceAs (Decidable ((∀ token ∈ server.issued, _) ∧ ∀ phase ∈ server.requests, _))

omit [Field K] [FloorRing K] in
theorem Settled.superseded {userId : Uuid} {epoch : K} {server : Server K}
    (hsettled : server.Settled userId epoch) (hsigned : server.Signed) :
    ∀ phase ∈ server.requests, phase.Superseded (OldRefresh userId epoch) epoch := by
  intro phase hphase
  have hrotates := hsettled.2 phase hphase
  have hpair := hsigned phase hphase
  have hminted : ∀ origin access refresh, OldRefresh userId epoch origin →
      ((access ∈ server.issued ∧ access.sub = origin.subject) ∧
        (refresh ∈ server.issued ∧ refresh.sub = origin.subject)) →
      access.iat < epoch ∧ refresh.iat < epoch := by
    intro origin access refresh hkind hpair
    cases origin with
    | login user password => exact hkind.elim
    | refresh token =>
        exact ⟨hsettled.1 access hpair.1.1 (hpair.1.2.trans hkind.1),
          hsettled.1 refresh hpair.2.1 (hpair.2.2.trans hkind.1)⟩
  cases phase with
  | timing task token =>
      cases task with
      | rotate => exact fun hkind => of_decide_eq_false hrotates hkind.1
      | _ => trivial
  | denying task token ttl =>
      cases task with
      | rotate => exact fun hkind => of_decide_eq_false hrotates hkind.1
      | _ => trivial
  | issuing origin =>
      cases origin with
      | login user password => exact id
      | refresh token => exact fun hkind => of_decide_eq_false hrotates hkind.1
  | issuingRefresh origin access =>
      cases origin with
      | login user password => exact id
      | refresh token => exact fun hkind => of_decide_eq_false hrotates hkind.1
  | committing origin access refresh => exact fun hkind => hminted origin access refresh hkind hpair
  | granted origin access refresh => exact fun hkind => hminted origin access refresh hkind hpair
  | _ => trivial

omit [FloorRing K] in
/-- Once the epoch is written no refresh of an older token passes its check. -/
theorem Superseded.not_begins {bcrypt : Bcrypt} {userId : Uuid} {epoch : K}
    {server : Server K} {phase : Phase K}
    (hsuperseded : server.Superseded (OldRefresh userId epoch) userId epoch) :
    ¬ server.Begins bcrypt (OldRefresh userId epoch) phase := by
  intro hbegins
  cases phase with
  | comparing purpose token =>
      rcases purpose with _ | _ | _ | _
      · exact hbegins
      · obtain ⟨hepoch, huser, hold⟩ := hbegins
        rw [huser] at hepoch
        exact absurd (hsuperseded.written.trans hepoch) (not_le.mpr hold)
      · exact hbegins
      · exact hbegins
  | selecting email password =>
      obtain ⟨_, _, hlogin⟩ := hbegins
      exact hlogin
  | _ => exact hbegins

omit [FloorRing K] in
/-- A refresh chain from an old token stays old. -/
theorem Superseded.descends {userId : Uuid} {epoch : K} {server : Server K}
    {root token : Token K}
    (hsuperseded : server.Superseded (OldRefresh userId epoch) userId epoch)
    (hsigned : server.Signed) (hroot : root.sub = userId ∧ root.iat < epoch)
    (hdescends : Descends server.requests root token) :
    token.sub = userId ∧ token.iat < epoch := by
  induction hdescends with
  | root => exact hroot
  | access _ hgranted ih =>
      exact ⟨(hsigned _ hgranted).1.2.trans ih.1, (hsuperseded.requests _ hgranted ih).1⟩
  | refresh _ hgranted ih =>
      exact ⟨(hsigned _ hgranted).2.2.trans ih.1, (hsuperseded.requests _ hgranted ih).2⟩

variable {bcrypt : Bcrypt} {settings : TokenSettings}

/-- Once `revoke_sessions` has returned no token that descends from one issued
before the epoch was written is accepted, if the bump found the user settled and
no older epoch is written after it. -/
theorem returns_descendants_refused {clock : K} {redis : Redis K} {accounts : List Account}
    {issued : List (Token K)} {op : AdminOp} {userId : Uuid} {epoch : K}
    {bumped finish : Server K} {before after : List (Event K)} {index : ℕ} {jti : Uuid}
    (hreturns : Returns bcrypt settings op userId epoch (opening clock redis accounts issued)
      bumped finish before after index jti)
    (hsettled : bumped.Settled userId epoch)
    (hlowers : ¬ Transition.Occurs (step bcrypt settings) bumped (.proceed index jti :: after)
      (Proceeds (Lowers userId epoch)))
    {root token : Token K} (hroot : root ∈ bumped.issued) (huser : root.sub = userId)
    (hdescends : Descends finish.requests root token) (event : Event K) :
    ¬ finish.Proceeds (Accepts token) event := by
  have hbumped : bumped.Signed := run_signed hreturns.reached
  have hsuperseded : finish.Superseded (OldRefresh userId epoch) userId epoch := by
    refine hreturns.superseded (hsettled.superseded hbumped) ?_ hlowers
    rintro server phase hstate (hbegins | hlower)
    · exact absurd hbegins hstate.not_begins
    · exact hlower
  obtain ⟨htoken, hold⟩ :=
    hsuperseded.descends hreturns.signed ⟨huser, hsettled.1 root hroot huser⟩ hdescends
  exact hsuperseded.refuses htoken hold event

/-- An admin's request up to its bump. -/
def sampleAdmin (index : ℕ) (op : AdminOp) : List (Event ℚ) :=
  [.arrive (.admin op 1), .proceed index 0, .proceed index 0]

/-- The commit of the admin's request, after which the refresh token is presented. -/
def samplePresented : List (Event ℚ) :=
  [.proceed 0 0, .arrive (.refresh sampleRefresh), .proceed 1 0, .proceed 1 0]

theorem returns_descendants_refused_presented :
    ∃ bumped finish, Returns .plain {} .revokeSessions 1 1010 sampleServer bumped finish
        (sampleAdmin 0 .revokeSessions) samplePresented 0 0 ∧
      ¬ finish.Proceeds (Accepts sampleRefresh) (.proceed 1 0) := by
  obtain ⟨bumped, hreached⟩ := Option.isSome_iff_exists.mp (show (Transition.exec
    (step .plain {}) sampleServer (sampleAdmin 0 .revokeSessions)).isSome by decide +kernel)
  have hbumped : ∀ state ∈ Transition.exec (step .plain {}) sampleServer
        (sampleAdmin 0 .revokeSessions),
      state.requests[0]? = some (.bumping .revokeSessions 1 1010) ∧ state.Settled 1 1010 ∧
      sampleRefresh ∈ state.issued ∧
      ¬ Transition.Occurs (step .plain {}) state (.proceed 0 0 :: samplePresented)
        (Proceeds (Lowers 1 1010)) ∧
      ∃ finish ∈ Transition.exec (step .plain {}) state (.proceed 0 0 :: samplePresented),
        finish.requests[0]? = some (.finished .revokeSessions 1) := by
    decide +kernel
  obtain ⟨hbump, hsettled, hroot, hlowers, finish, hrun, hreturned⟩ := hbumped bumped hreached
  have hreturns : Returns .plain {} .revokeSessions 1 1010 sampleServer bumped finish
      (sampleAdmin 0 .revokeSessions) samplePresented 0 0 := ⟨hreached, hbump, hrun, hreturned⟩
  exact ⟨bumped, finish, hreturns,
    returns_descendants_refused hreturns hsettled hlowers hroot rfl .root _⟩

/-- A refresh past its epoch check, and the pair it mints a second later. -/
def sampleOvertaken : List (Event ℚ) :=
  [.arrive (.refresh sampleRefresh), .proceed 0 0, .proceed 0 0, .proceed 0 0]

def sampleYounger : Token ℚ :=
  createAccessToken {} 1 1011 21

def sampleMinted : List (Event ℚ) :=
  [.proceed 1 0, .tick 1011, .proceed 0 0, .proceed 0 0, .proceed 0 21, .proceed 0 22,
    .proceed 0 0, .arrive (.me sampleYounger), .proceed 2 0, .proceed 2 0]

theorem returns_descendant_accepted :
    ∃ bumped finish, Returns .plain {} .revokeSessions 1 1010 sampleServer bumped finish
        (sampleOvertaken ++ sampleAdmin 1 .revokeSessions) sampleMinted 1 0 ∧
      sampleRefresh ∈ bumped.issued ∧ Descends finish.requests sampleRefresh sampleYounger ∧
      finish.Proceeds (Accepts sampleYounger) (.proceed 2 0) := by
  obtain ⟨bumped, hreached⟩ := Option.isSome_iff_exists.mp (show (Transition.exec
    (step .plain {}) sampleServer
      (sampleOvertaken ++ sampleAdmin 1 .revokeSessions)).isSome by decide +kernel)
  have hbumped : ∀ state ∈ Transition.exec (step .plain {}) sampleServer
        (sampleOvertaken ++ sampleAdmin 1 .revokeSessions),
      state.requests[1]? = some (.bumping .revokeSessions 1 1010) ∧
      sampleRefresh ∈ state.issued ∧
      ∃ finish ∈ Transition.exec (step .plain {}) state (.proceed 1 0 :: sampleMinted),
        finish.requests[1]? = some (.finished .revokeSessions 1) ∧
        .granted (.refresh sampleRefresh) sampleYounger
          (createRefreshToken {} 1 1011 22) ∈ finish.requests ∧
        finish.Proceeds (Accepts sampleYounger) (.proceed 2 0) := by
    decide +kernel
  obtain ⟨hbump, hroot, finish, hrun, hreturned, hgranted, haccepts⟩ := hbumped bumped hreached
  exact ⟨bumped, finish, ⟨hreached, hbump, hrun, hreturned⟩, hroot, .access .root hgranted,
    haccepts⟩

/-! ## Resetting a password -/

/-- A login with the password that reads a row accepting it, or an older epoch
for the user. -/
def Reopens (bcrypt : Bcrypt) (userId : Uuid) (password : String) (epoch : K)
    (server : Server K) (phase : Phase K) : Prop :=
  server.Begins bcrypt (· = .login userId password) phase ∨ server.Lowers userId epoch phase

/-- Once `reset_credential` has returned no token of a login with the old password
is accepted, if the bump found every such login finished and older than the
epoch, and neither a later login with that password nor a later bump reopens the
sessions. -/
theorem returns_oldPassword_refused {clock : K} {redis : Redis K} {accounts : List Account}
    {issued : List (Token K)} {temporary salt password : String} {userId : Uuid} {epoch : K}
    {bumped finish : Server K} {before after : List (Event K)} {index : ℕ} {jti : Uuid}
    (hreturns : Returns bcrypt settings (.resetCredential temporary salt) userId epoch
      (opening clock redis accounts issued) bumped finish before after index jti)
    (hlogins : ∀ phase ∈ bumped.requests, phase.Superseded (· = .login userId password) epoch)
    (hreopens : ¬ Transition.Occurs (step bcrypt settings) bumped (.proceed index jti :: after)
      (Proceeds (Reopens bcrypt userId password epoch)))
    {access refresh token : Token K}
    (hgranted : .granted (.login userId password) access refresh ∈ finish.requests)
    (htoken : token = access ∨ token = refresh) (event : Event K) :
    ¬ finish.Proceeds (Accepts token) event := by
  have hsuperseded : finish.Superseded (· = .login userId password) userId epoch :=
    hreturns.superseded hlogins (fun _ _ _ hcause => hcause) hreopens
  obtain ⟨haccess, hrefresh⟩ := hreturns.signed _ hgranted
  obtain ⟨haccessOld, hrefreshOld⟩ := hsuperseded.requests _ hgranted rfl
  rcases htoken with rfl | rfl
  · exact hsuperseded.refuses haccess.2 haccessOld event
  · exact hsuperseded.refuses hrefresh.2 hrefreshOld event

/-- The reset's own bump and commit, after which the access token of an earlier
login is presented. -/
def sampleReset : AdminOp :=
  .resetCredential "changed" ""

/-- A login up to its last token. -/
def sampleLogin (index : ℕ) : List (Event ℚ) :=
  [.arrive (.login "alice@corp" "secret"), .proceed index 0, .proceed index 21,
    .proceed index 22, .proceed index 0]

def sampleEarlier : Token ℚ :=
  createAccessToken {} 1 1010 21

theorem returns_oldPassword_refused_earlier :
    ∃ bumped finish, Returns .plain {} sampleReset 1 1020 sampleServer bumped finish
        (sampleLogin 0 ++ .tick 1020 :: sampleAdmin 1 sampleReset)
        [.proceed 1 0, .arrive (.me sampleEarlier), .proceed 2 0, .proceed 2 0] 1 0 ∧
      ¬ finish.Proceeds (Accepts sampleEarlier) (.proceed 2 0) := by
  obtain ⟨bumped, hreached⟩ := Option.isSome_iff_exists.mp (show (Transition.exec
    (step .plain {}) sampleServer
      (sampleLogin 0 ++ .tick 1020 :: sampleAdmin 1 sampleReset)).isSome by decide +kernel)
  have hbumped : ∀ state ∈ Transition.exec (step .plain {}) sampleServer
        (sampleLogin 0 ++ .tick 1020 :: sampleAdmin 1 sampleReset),
      state.requests[1]? = some (.bumping sampleReset 1 1020) ∧
      (∀ phase ∈ state.requests, phase.Superseded (· = .login 1 "secret") 1020) ∧
      ¬ Transition.Occurs (step .plain {}) state [.proceed 1 0, .proceed 1 0,
          .arrive (.me sampleEarlier), .proceed 2 0, .proceed 2 0]
        (Proceeds fun server phase => server.Begins .plain (· = .login 1 "secret") phase ∨
          server.Lowers 1 1020 phase) ∧
      ∃ finish ∈ Transition.exec (step .plain {}) state [.proceed 1 0, .proceed 1 0,
          .arrive (.me sampleEarlier), .proceed 2 0, .proceed 2 0],
        finish.requests[1]? = some (.finished sampleReset 1) ∧
        .granted (.login 1 "secret") sampleEarlier
          (createRefreshToken {} 1 1010 22) ∈ finish.requests := by
    decide +kernel
  obtain ⟨hbump, hlogins, hreopens, finish, hrun, hreturned, hgranted⟩ :=
    hbumped bumped hreached
  have hreturns : Returns .plain {} sampleReset 1 1020 sampleServer bumped finish
      (sampleLogin 0 ++ .tick 1020 :: sampleAdmin 1 sampleReset)
      [.proceed 1 0, .arrive (.me sampleEarlier), .proceed 2 0, .proceed 2 0] 1 0 :=
    ⟨hreached, hbump, hrun, hreturned⟩
  exact ⟨bumped, finish, hreturns,
    returns_oldPassword_refused hreturns hlogins hreopens hgranted (Or.inl rfl) _⟩

/-- A login that reads the old row between the bump and the commit of the reset:
its access token is accepted after the reset has returned. -/
theorem returns_oldPassword_accepted :
    ∃ bumped finish refresh, Returns .plain {} sampleReset 1 1010 sampleServer bumped finish
        (sampleAdmin 0 sampleReset)
        (sampleLogin 1 ++ [.proceed 0 0, .arrive (.me sampleEarlier), .proceed 2 0,
          .proceed 2 0]) 0 0 ∧
      .granted (.login 1 "secret") sampleEarlier refresh ∈ finish.requests ∧
      finish.Proceeds (Accepts sampleEarlier) (.proceed 2 0) := by
  obtain ⟨bumped, hreached⟩ := Option.isSome_iff_exists.mp (show (Transition.exec
    (step .plain {}) sampleServer (sampleAdmin 0 sampleReset)).isSome by decide +kernel)
  have hbumped : ∀ state ∈ Transition.exec (step .plain {}) sampleServer
        (sampleAdmin 0 sampleReset),
      state.requests[0]? = some (.bumping sampleReset 1 1010) ∧
      ∃ finish ∈ Transition.exec (step .plain {}) state (.proceed 0 0 :: (sampleLogin 1 ++
          [.proceed 0 0, .arrive (.me sampleEarlier), .proceed 2 0, .proceed 2 0])),
        finish.requests[0]? = some (.finished sampleReset 1) ∧
        .granted (.login 1 "secret") sampleEarlier
          (createRefreshToken {} 1 1010 22) ∈ finish.requests ∧
        finish.Proceeds (Accepts sampleEarlier) (.proceed 2 0) := by
    decide +kernel
  obtain ⟨hbump, finish, hrun, hreturned, hgranted, haccepts⟩ := hbumped bumped hreached
  exact ⟨bumped, finish, _, ⟨hreached, hbump, hrun, hreturned⟩, hgranted, haccepts⟩

end Server

end AgenticRag.Auth
