import AgenticRag.Auth.Tokens
import Mathlib.Data.Rat.Floor
import Mathlib.Tactic.Linarith

/-!
# How long a revoked token stays revoked

The denylist key of a token lives a whole number of seconds from the moment of
its `SET`, and the validator accepts the token to the end of the second named
by `exp`.  A token is revoked for good when the key covers that whole window.
-/

namespace AgenticRag.Auth

variable {K : Type*} [Field K] [LinearOrder K] [FloorRing K]

/-- With this denylist no request presenting the token at `start` or later is
accepted, whatever the epochs and the accounts are by then. -/
def Final (redis : Redis K) (start : K) (token : Token K) : Prop :=
  ∀ now, start ≤ now → ∀ type issued epochs accounts,
    ¬ Accepted type issued { redis with epochs := epochs } accounts now token

/-- The denylist key exists as long as the validator accepts the token. -/
def Covered (redis : Redis K) (token : Token K) : Prop :=
  ∃ expiry, redis.denylist token.jti = some expiry ∧ token.exp + 1 ≤ expiry

/-- A token that nothing else stands against is accepted until the end of the
second `exp`, unless its key is still there. -/
theorem accepted_of_notRevoked {redis : Redis K} {now : K} {token : Token K}
    (hexp : ¬ token.exp < ⌊now⌋) (hkey : redis.isRevoked now token.jti = false) :
    Accepted token.type [token] { redis with epochs := fun _ => some token.iat }
      [{ id := token.sub, email := "", hashedPassword := "" }] now token := by
  refine ⟨⟨List.mem_singleton_self token, hexp⟩, rfl, hkey, ?_, ?_⟩
  · exact ⟨_, List.find?_cons_of_pos (by simp), rfl⟩
  · exact le_refl token.iat

/-- The validator accepts a token to the end of the second `exp`. -/
theorem unexpired_iff [IsStrictOrderedRing K] {exp : ℤ} {now : K} :
    ¬ exp < ⌊now⌋ ↔ now < exp + 1 := by
  have hcast : (exp : K) + 1 = ((exp + 1 : ℤ) : K) := by push_cast; rfl
  rw [hcast, ← Int.floor_lt, Int.lt_add_one_iff, not_lt]

/-- A token is out of use when it has expired or its key covers the rest of its
acceptance window. -/
theorem final_iff [IsStrictOrderedRing K] (redis : Redis K) (start : K) (token : Token K) :
    Final redis start token ↔ token.exp < ⌊start⌋ ∨ Covered redis token := by
  constructor
  · intro hfinal
    by_contra hneither
    obtain ⟨hexp, hcovered⟩ := not_or.mp hneither
    -- The first moment at which the key is gone still lies in the window.
    have hgone : ∃ now, start ≤ now ∧ now < token.exp + 1 ∧
        redis.isRevoked now token.jti = false := by
      cases hentry : redis.denylist token.jti with
      | none =>
          exact ⟨start, le_rfl, unexpired_iff.mp hexp, by simp [Redis.isRevoked, hentry]⟩
      | some expiry =>
          have hshort : expiry < token.exp + 1 := by
            by_contra hlong
            exact hcovered ⟨expiry, hentry, not_lt.mp hlong⟩
          refine ⟨max start expiry, le_max_left .., max_lt (unexpired_iff.mp hexp) hshort, ?_⟩
          simp [Redis.isRevoked, hentry]
    obtain ⟨now, hnow, hwindow, hkey⟩ := hgone
    exact hfinal now hnow _ _ _ _
      (accepted_of_notRevoked (unexpired_iff.mpr hwindow) hkey)
  · intro hcase now hnow type issued epochs accounts haccepted
    obtain ⟨⟨_, hexp⟩, _, hkey, _⟩ := haccepted
    rcases hcase with hpast | ⟨expiry, hentry, hlong⟩
    · exact hexp (lt_of_lt_of_le hpast (Int.floor_mono hnow))
    · have hrevoked : redis.isRevoked now token.jti = true :=
        Redis.isRevoked_eq_true_iff.mpr
          ⟨expiry, hentry, lt_of_lt_of_le (unexpired_iff.mp hexp) hlong⟩
      exact Bool.noConfusion (hrevoked.symm.trans hkey)

/-! ## The key of one revocation -/

/-- A revocation computes the lifetime at `read` and executes its `SET` at
`set`; the key covers the token when a second has turned between the two.  In
the last second the lifetime is zero and an older key has to do. -/
theorem covered_revokeJti_iff [IsStrictOrderedRing K] (redis : Redis K) (token : Token K)
    (read set : K) :
    Covered (redis.revokeJti set token.jti (ttlSeconds token.exp read)) token ↔
      (⌊read⌋ < token.exp ∧ ⌊read⌋ < ⌊set⌋) ∨ (token.exp ≤ ⌊read⌋ ∧ Covered redis token) := by
  rw [Covered, Redis.denylist_revokeJti]
  by_cases hlive : ⌊read⌋ < token.exp
  · have httl : ttlSeconds token.exp read = token.exp - ⌊read⌋ := max_eq_right (by omega)
    rw [if_neg (by omega), httl]
    have hexpiry : (token.exp : K) + 1 ≤ set + ((token.exp - ⌊read⌋ : ℤ) : K) ↔
        ⌊read⌋ < ⌊set⌋ := by
      rw [← Int.add_one_le_iff, Int.le_floor]
      push_cast
      constructor <;> intro h <;> linarith
    simp only [Option.some.injEq, exists_eq_left', hexpiry, hlive, true_and,
      not_le.mpr hlive, false_and, or_false]
  · have httl : ttlSeconds token.exp read = 0 := max_eq_left (by omega)
    rw [if_pos (by omega)]
    simp [hlive, not_lt.mp hlive, Covered]

/-- Exactly when a revocation completed at `complete` is for good. -/
theorem final_revokeJti_iff [IsStrictOrderedRing K] (redis : Redis K) (token : Token K)
    {read set complete : K} (hset : read ≤ set) (hcomplete : set ≤ complete) :
    Final (redis.revokeJti set token.jti (ttlSeconds token.exp read)) complete token ↔
      token.exp < ⌊complete⌋ ∨ (⌊read⌋ < token.exp ∧ ⌊read⌋ < ⌊set⌋) ∨
        (⌊read⌋ = token.exp ∧ Covered redis token) := by
  rw [final_iff, covered_revokeJti_iff]
  have hread : ⌊read⌋ ≤ ⌊complete⌋ := Int.floor_mono (hset.trans hcomplete)
  constructor
  · rintro (hpast | hsecond | ⟨hlast, hcovered⟩)
    · exact Or.inl hpast
    · exact Or.inr (Or.inl hsecond)
    · rcases hlast.lt_or_eq with hpast | hlast
      · exact Or.inl (lt_of_lt_of_le hpast hread)
      · exact Or.inr (Or.inr ⟨hlast.symm, hcovered⟩)
  · rintro (hpast | hsecond | ⟨hlast, hcovered⟩)
    · exact Or.inl hpast
    · exact Or.inr (Or.inl hsecond)
    · exact Or.inr (Or.inr ⟨hlast.symm.le, hcovered⟩)

/-- An access token of 15 minutes minted half a second past a full second. -/
def sampleToken : Token ℚ :=
  createAccessToken {} 1 (2001 / 2) 7

/-- The lifetime is read in the middle of a second and set in the next one. -/
theorem final_revokeJti_late :
    Final (({} : Redis ℚ).revokeJti 1451 sampleToken.jti
      (ttlSeconds sampleToken.exp (2901 / 2 : ℚ))) 1451 sampleToken :=
  (final_revokeJti_iff {} sampleToken (by decide +kernel) (le_refl 1451)).mpr
    (Or.inr (Or.inl ⟨by decide +kernel, by decide +kernel⟩))

/-- Revoked in the middle of a second, the token is accepted again in the
second in which it expires. -/
theorem revokeJti_not_final :
    ¬ ∀ (redis : Redis ℚ) (token : Token ℚ) (now : ℚ),
      Final (redis.revokeJti now token.jti (ttlSeconds token.exp now)) now token := by
  intro hall
  have hfinal := hall {} sampleToken (2901 / 2)
  have hexp : sampleToken.exp = 1900 := by decide +kernel
  have hnow : ⌊(2901 / 2 : ℚ)⌋ = 1450 := by decide +kernel
  rw [final_iff, covered_revokeJti_iff, hexp, hnow] at hfinal
  omega

end AgenticRag.Auth
