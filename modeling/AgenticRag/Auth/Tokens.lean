import AgenticRag.Text.Uuid
import Mathlib.Algebra.Order.Floor.Ring

/-!
# Tokens and their revocation

The claims of a token, the denylist and the session epochs in Redis, and the
checks that `get_current_user` and `refresh` make of a presented token.  Times
are elements of an ordered field with a floor: the clock has no resolution of
its own, and every rounding of the program is written out.
-/

namespace AgenticRag.Auth

/-- The token lifetimes of `app/config.py`. -/
structure TokenSettings where
  accessTokenTtlMin : ℕ := 15
  refreshTokenTtlDays : ℕ := 7

inductive TokenType where
  | access
  | refresh
  deriving DecidableEq

/-- The payload of a signed token; the role and department in it are never
read. -/
structure Token (K : Type*) where
  sub : Uuid
  type : TokenType
  jti : Uuid
  iat : K
  exp : ℤ
  deriving DecidableEq

/-- The columns of `users` that authentication reads. -/
structure Account where
  id : Uuid
  email : String
  hashedPassword : String
  isActive : Bool := true
  deriving DecidableEq

/-- `db.get(User, id)` -/
def getAccount (accounts : List Account) (id : Uuid) : Option Account :=
  accounts.find? fun account => account.id = id

/-- `HTTPException` -/
structure HttpError where
  status : ℕ
  detail : String
  deriving DecidableEq

/-! ## Passwords -/

/-- The `bcrypt` package; `checkpw` is false where the package raises. -/
structure Bcrypt where
  hashpw : List UInt8 → String → String
  checkpw : List UInt8 → String → Bool

/-- `_to_bcrypt_bytes` -/
def toBcryptBytes (plain : String) : List UInt8 :=
  plain.toUTF8.toList.take 72

namespace Bcrypt

variable (bcrypt : Bcrypt)

/-- `hash_password`, with the salt that `gensalt` drew. -/
def hashPassword (plain salt : String) : String :=
  bcrypt.hashpw (toBcryptBytes plain) salt

def verifyPassword (plain hashed : String) : Bool :=
  bcrypt.checkpw (toBcryptBytes plain) hashed

/-- The checks of `login` on the row it selected: the account it mints for. -/
def admits (password : String) : Option Account → Except HttpError Account
  | none => .error ⟨401, "Invalid credentials"⟩
  | some account =>
      if ¬ bcrypt.verifyPassword password account.hashedPassword then
        .error ⟨401, "Invalid credentials"⟩
      else if ¬ account.isActive then .error ⟨403, "Account is disabled"⟩
      else .ok account

/-- A stand-in for small runs whose hashes are the passwords. -/
def plain : Bcrypt where
  hashpw bytes _ := String.ofList (bytes.map fun byte => Char.ofNat byte.toNat)
  checkpw bytes hashed := hashed = String.ofList (bytes.map fun byte => Char.ofNat byte.toNat)

end Bcrypt

/-- An account of small runs. -/
def alice : Account := { id := 1, email := "alice@corp", hashedPassword := "secret" }

/-! ## Redis -/

/-- The keys of Redis: for a denylisted `jti` the time at which the key
expires, for a user the session epoch. -/
structure Redis (K : Type*) where
  denylist : Uuid → Option K := fun _ => none
  epochs : Uuid → Option K := fun _ => none

variable {K : Type*} [Field K] [LinearOrder K] [FloorRing K]

/-! ## Minting -/

def createToken (subject : Uuid) (type : TokenType) (ttl now : K) (jti : Uuid) : Token K where
  sub := subject
  type := type
  jti := jti
  iat := now
  exp := ⌊now + ttl⌋

def createAccessToken (settings : TokenSettings) (subject : Uuid) (now : K) (jti : Uuid) :
    Token K :=
  createToken subject .access (settings.accessTokenTtlMin * 60) now jti

def createRefreshToken (settings : TokenSettings) (subject : Uuid) (now : K) (jti : Uuid) :
    Token K :=
  createToken subject .refresh (settings.refreshTokenTtlDays * 86400) now jti

/-! ## Presenting -/

/-- `decode_token`: the signature is that of a minted token, and the token is
not rejected as expired. -/
def Decodes (issued : List (Token K)) (now : K) (token : Token K) : Prop :=
  token ∈ issued ∧ ¬ token.exp < ⌊now⌋

instance (issued : List (Token K)) (now : K) (token : Token K) :
    Decidable (Decodes issued now token) :=
  inferInstanceAs (Decidable (_ ∧ _))

/-- `_ttl_seconds` -/
def ttlSeconds (exp : ℤ) (now : K) : ℤ :=
  max 0 (exp - ⌊now⌋)

namespace Redis

/-- `is_revoked`: a key set to expire at a time exists before it. -/
def isRevoked (redis : Redis K) (now : K) (jti : Uuid) : Bool :=
  (redis.denylist jti).any fun expiry => now < expiry

/-- `session_epoch` -/
def sessionEpoch (redis : Redis K) (userId : Uuid) : K :=
  (redis.epochs userId).getD 0

/-- `revoke_jti`, its `SET` executed at `now`. -/
def revokeJti (redis : Redis K) (now : K) (jti : Uuid) (ttl : ℤ) : Redis K :=
  if ttl ≤ 0 then redis
  else { redis with denylist := Function.update redis.denylist jti (some (now + ttl)) }

/-- The `SET` of `bump_session_epoch`, with the clock read before it. -/
def bumpSessionEpoch (redis : Redis K) (userId : Uuid) (epoch : K) : Redis K :=
  { redis with epochs := Function.update redis.epochs userId (some epoch) }

omit [Field K] [FloorRing K] in
theorem isRevoked_eq_true_iff {redis : Redis K} {now : K} {jti : Uuid} :
    redis.isRevoked now jti = true ↔
      ∃ expiry, redis.denylist jti = some expiry ∧ now < expiry := by
  simp [isRevoked, Option.any_eq_true]

omit [LinearOrder K] [FloorRing K] in
@[simp]
theorem revokeJti_epochs (redis : Redis K) (now : K) (jti : Uuid) (ttl : ℤ) :
    (redis.revokeJti now jti ttl).epochs = redis.epochs := by
  rw [revokeJti]
  split <;> rfl

omit [LinearOrder K] [FloorRing K] in
@[simp]
theorem sessionEpoch_revokeJti (redis : Redis K) (now : K) (jti userId : Uuid) (ttl : ℤ) :
    (redis.revokeJti now jti ttl).sessionEpoch userId = redis.sessionEpoch userId := by
  rw [sessionEpoch, sessionEpoch, revokeJti_epochs]

omit [LinearOrder K] [FloorRing K] in
/-- What the denylist holds for a token after one of its revocations. -/
theorem denylist_revokeJti (redis : Redis K) (now : K) (jti : Uuid) (ttl : ℤ) :
    (redis.revokeJti now jti ttl).denylist jti =
      if ttl ≤ 0 then redis.denylist jti else some (now + ttl) := by
  rw [revokeJti]
  split
  · rfl
  · exact Function.update_self ..

omit [LinearOrder K] [FloorRing K] in
theorem denylist_revokeJti_of_ne (redis : Redis K) (now : K) {jti other : Uuid} (ttl : ℤ)
    (hne : other ≠ jti) :
    (redis.revokeJti now jti ttl).denylist other = redis.denylist other := by
  rw [revokeJti]
  split
  · rfl
  · exact Function.update_of_ne hne ..

omit [LinearOrder K] [FloorRing K] in
theorem sessionEpoch_bumpSessionEpoch (redis : Redis K) (userId other : Uuid) (epoch : K) :
    (redis.bumpSessionEpoch userId epoch).sessionEpoch other =
      if other = userId then epoch else redis.sessionEpoch other := by
  simp only [sessionEpoch, bumpSessionEpoch, Function.update_apply]
  split <;> rfl

end Redis

/-- The checks of a decoded token that `get_current_user` makes of an access
token and `refresh` of a refresh token, all made at `now`. -/
def Accepted (type : TokenType) (issued : List (Token K)) (redis : Redis K)
    (accounts : List Account) (now : K) (token : Token K) : Prop :=
  Decodes issued now token ∧ token.type = type ∧ redis.isRevoked now token.jti = false ∧
    (∃ account, getAccount accounts token.sub = some account ∧ account.isActive = true) ∧
    redis.sessionEpoch token.sub ≤ token.iat

end AgenticRag.Auth
