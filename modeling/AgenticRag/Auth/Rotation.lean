import AgenticRag.Auth.Requests
import Mathlib.Data.Rat.Floor

/-!
# Refresh rotation under concurrency

A refresh token is rotated by one `EXISTS` and, three awaits later, one `SET`.
The rotation is exclusive as long as no request passes the check while another
request for the same token has passed it.
-/

namespace AgenticRag.Auth

variable {K : Type*} [Field K] [LinearOrder K] [FloorRing K]

/-- A refresh request for the token that has passed the denylist check and has
not been refused. -/
def Phase.passed (token : Token K) : Phase K → Bool
  | .loading (.act .rotate) presented => presented = token
  | .comparing (.act .rotate) presented => presented = token
  | .timing .rotate presented => presented = token
  | .denying .rotate presented _ => presented = token
  | .issuing (.refresh presented) => presented = token
  | .issuingRefresh (.refresh presented) _ => presented = token
  | .committing (.refresh presented) _ _ => presented = token
  | .granted (.refresh presented) _ _ => presented = token
  | _ => false

/-- A refresh request for the token that has returned a new pair. -/
def Phase.grants (token : Token K) : Phase K → Bool
  | .granted (.refresh presented) _ _ => presented = token
  | _ => false

omit [Field K] [FloorRing K] in
theorem Phase.passed_of_grants {token : Token K} {phase : Phase K}
    (hgrants : phase.grants token = true) : phase.passed token = true := by
  cases phase with
  | granted origin access refresh =>
      cases origin with
      | login userId password => cases hgrants
      | refresh presented => exact hgrants
  | _ => cases hgrants

omit [Field K] [FloorRing K] in
theorem Phase.passed_of_isIdle {token : Token K} {phase : Phase K}
    (hidle : phase.isIdle = true) : phase.passed token = false := by
  cases phase with
  | timing task presented => cases task <;> first | rfl | cases hidle
  | denying task presented ttl => cases task <;> first | rfl | cases hidle
  | _ => first | rfl | cases hidle

/-- The only way past the check is the check. -/
theorem Moves.passed {bcrypt : Bcrypt} {settings : TokenSettings} {server : Server K}
    {jti : Uuid} {phase next : Phase K} {issued : List (Token K)} {token : Token K}
    (hmoves : Moves bcrypt settings server jti phase issued next)
    (hpassed : next.passed token = true) :
    phase.passed token = true ∨
      (phase = .checking (.act .rotate) token ∧
        server.redis.isRevoked server.clock token.jti = false) := by
  cases hmoves with
  | check purpose presented hlive =>
      rcases purpose with _ | _ | _ | _
      · cases hpassed
      · have heq : presented = token := by simpa [Phase.passed] using hpassed
        subst presented
        exact Or.inr ⟨rfl, hlive⟩
      · cases hpassed
      · cases hpassed
  | load purpose presented =>
      rcases purpose with _ | _ | _ | _
      · cases hpassed
      · exact Or.inl hpassed
      · cases hpassed
      · cases hpassed
  | compare presented _ => exact Or.inl hpassed
  | time presented => exact Or.inl hpassed
  | deny presented ttl => exact Or.inl hpassed
  | select email password account _ => cases hpassed
  | issue origin =>
      cases origin with
      | login userId password => cases hpassed
      | refresh presented => exact Or.inl hpassed
  | issueRefresh origin access =>
      cases origin with
      | login userId password => cases hpassed
      | refresh presented => exact Or.inl hpassed
  | commit origin access refresh =>
      cases origin with
      | login userId password => cases hpassed
      | refresh presented => exact Or.inl hpassed
  | rest _ _ hidle =>
      rw [Phase.passed_of_isIdle hidle] at hpassed
      cases hpassed

namespace Server

variable {bcrypt : Bcrypt} {settings : TokenSettings}

theorem opened_not_passed (server : Server K) (request : Request K) (token : Token K) :
    (server.opened request).passed token = false := by
  rcases server.opened_cases request with ⟨email, password, hopened⟩ |
    ⟨op, userId, hopened⟩ | ⟨error, hopened⟩ | ⟨purpose, presented, hopened, _⟩
  all_goals rw [hopened]; rfl

/-- The check of a request that finds the token not denylisted although another
request for it has passed the check. -/
def Overtakes (token : Token K) (server : Server K) (phase : Phase K) : Prop :=
  phase = .checking (.act .rotate) token ∧
    server.redis.isRevoked server.clock token.jti = false ∧
    ∃ other ∈ server.requests, other.passed token = true

instance (token : Token K) (server : Server K) : DecidablePred (server.Overtakes token) :=
  fun _ => inferInstanceAs (Decidable (_ ∧ _ ∧ _))

/-- At most one request for the token is past the check. -/
def Exclusive (token : Token K) (server : Server K) : Prop :=
  server.requests.countP (·.passed token) ≤ 1

/-- One step keeps the rotation exclusive unless it overtakes. -/
theorem step_exclusive {server next : Server K} {event : Event K} {token : Token K}
    (hexclusive : server.Exclusive token)
    (hstep : step bcrypt settings server event = some next)
    (hovertakes : ¬ server.Proceeds (Overtakes token) event) : next.Exclusive token := by
  rcases step_cases hstep with ⟨later, _, _, rfl⟩ | ⟨request, _, rfl⟩ |
    ⟨index, jti, phase, moved, rfl, hphase, hmoved, rfl⟩ | ⟨index, _, rfl⟩
  · exact hexclusive
  · simpa [Exclusive, List.countP_append, opened_not_passed] using hexclusive
  · obtain ⟨hindex, rfl⟩ := List.getElem?_eq_some_iff.mp hphase
    rw [Exclusive, List.countP_set hindex]
    rw [Exclusive] at hexclusive
    by_cases hpassed : moved.2.passed token = true
    · rcases (advance_moves hmoved).passed hpassed with hbefore | ⟨hcheck, hlive⟩
      · have hpos : 0 < server.requests.countP (·.passed token) :=
          List.countP_pos_iff.mpr ⟨_, List.getElem_mem hindex, hbefore⟩
        rw [if_pos hbefore, if_pos hpassed]
        omega
      · have hnone : server.requests.countP (·.passed token) = 0 := by
          rw [List.countP_eq_zero]
          intro other hother hpast
          exact hovertakes ⟨_, hphase, hcheck, hlive, other, hother, hpast⟩
        rw [hnone, if_pos hpassed]
        omega
    · rw [if_neg hpassed]
      omega
  · by_cases hindex : index < server.requests.length
    · have hfailed : Phase.passed token Phase.failed = false := rfl
      rw [Exclusive, List.countP_set hindex, hfailed, if_neg Bool.false_ne_true]
      rw [Exclusive] at hexclusive
      omega
    · rw [List.set_eq_of_length_le (not_lt.mp hindex)]
      exact hexclusive

/-- Of any number of concurrent requests presenting one refresh token at most
one returns a new pair, as long as none overtakes another at the check. -/
theorem run_grants_once {clock : K} {redis : Redis K} {accounts : List Account}
    {issued : List (Token K)} {events : List (Event K)} {finish : Server K} (token : Token K)
    (hrun : Transition.exec (step bcrypt settings) (opening clock redis accounts issued)
      events = some finish)
    (hovertakes : ¬ Transition.Occurs (step bcrypt settings)
      (opening clock redis accounts issued) events (Proceeds (Overtakes token))) :
    finish.requests.countP (·.grants token) ≤ 1 := by
  have hexclusive : finish.Exclusive token := by
    apply Transition.exec_unless (motive := fun state => state.Exclusive token) ?_ ?_ hrun
      hovertakes
    · exact Nat.zero_le 1
    · intro past state event next _ hexclusive hnext hnone
      exact step_exclusive hexclusive hnext hnone
  exact (List.countP_mono_left fun phase _ => Phase.passed_of_grants).trans hexclusive

/-! ### Two refreshes of one token -/

/-- A refresh token minted ten seconds before the requests arrive. -/
def sampleRefresh : Token ℚ :=
  createRefreshToken {} 1 1000 12

def sampleServer : Server ℚ :=
  opening 1010 {} [alice] [sampleRefresh]

/-- The eight phases of a refresh that nothing refuses. -/
def serve (index : ℕ) (accessJti refreshJti : Uuid) : List (Event ℚ) :=
  [.proceed index 0, .proceed index 0, .proceed index 0, .proceed index 0, .proceed index 0,
    .proceed index accessJti, .proceed index refreshJti, .proceed index 0]

/-- Presented again after its rotation, the token is refused. -/
theorem run_grants_once_replayed :
    ∃ finish, Transition.exec (step .plain {}) sampleServer
        (.arrive (.refresh sampleRefresh) :: serve 0 21 22 ++
          [.arrive (.refresh sampleRefresh), .proceed 1 0]) = some finish ∧
      finish.requests.countP (·.grants sampleRefresh) ≤ 1 := by
  obtain ⟨finish, hrun⟩ := Option.isSome_iff_exists.mp (show (Transition.exec
    (step .plain {}) sampleServer (.arrive (.refresh sampleRefresh) :: serve 0 21 22 ++
      [.arrive (.refresh sampleRefresh), .proceed 1 0])).isSome by decide +kernel)
  exact ⟨finish, hrun, run_grants_once sampleRefresh hrun (by decide +kernel)⟩

/-- Two requests that check the token before either has rotated it both return
a new pair. -/
theorem run_grants_twice :
    ∃ finish, Transition.exec (step .plain {}) sampleServer
        ([.arrive (.refresh sampleRefresh), .arrive (.refresh sampleRefresh), .proceed 0 0] ++
          serve 1 31 32 ++ (serve 0 21 22).tail) = some finish ∧
      ¬ finish.requests.countP (·.grants sampleRefresh) ≤ 1 := by
  obtain ⟨finish, hrun⟩ := Option.isSome_iff_exists.mp (show (Transition.exec
    (step .plain {}) sampleServer
      ([.arrive (.refresh sampleRefresh), .arrive (.refresh sampleRefresh), .proceed 0 0] ++
        serve 1 31 32 ++ (serve 0 21 22).tail)).isSome by decide +kernel)
  have htwice : ∀ state ∈ Transition.exec (step .plain {}) sampleServer
      ([.arrive (.refresh sampleRefresh), .arrive (.refresh sampleRefresh), .proceed 0 0] ++
        serve 1 31 32 ++ (serve 0 21 22).tail),
      state.requests.countP (·.grants sampleRefresh) = 2 := by
    decide +kernel
  exact ⟨finish, hrun, by rw [htwice finish hrun]; decide⟩

end Server

end AgenticRag.Auth
