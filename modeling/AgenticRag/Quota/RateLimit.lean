import AgenticRag.Core.Counters
import AgenticRag.Text.Uuid

/-!
# In-flight quotas

The two in-flight counters of `app/core/ratelimit.py`: one for each user and one
for the whole service.  Each function is a script of Redis commands.
-/

namespace AgenticRag.Quota

open Counters

/-- The part of the settings that bounds the turns in flight. -/
structure QuotaSettings where
  perUserMaxInflight : ℕ := 3
  globalMaxInflight : ℕ := 40

/-- `_INFLIGHT_TTL` -/
def inflightTtl : ℕ := 300

/-- The keys `quota:inflight:{user_id}` and `admission:inflight:global`. -/
inductive Slot where
  | inflight (user : Uuid)
  | global
  deriving DecidableEq

structure HttpException where
  status : ℕ
  detail : String
  headers : List (String × String) := []
  deriving DecidableEq

/-- What the functions raise: their own refusal, or whatever a command raised. -/
inductive Failure where
  | http (exception : HttpException)
  | other (message : String)
  deriving DecidableEq

abbrev Program (α : Type) := Script Slot Failure α

/-! ## Acquiring and releasing -/

/-- Count, refresh the deadline, and take the count back when it is too high. -/
def acquire (slot : Slot) (limit : ℕ) (refusal : HttpException) : Program Unit := do
  let current ← .await (.incr slot)
  let _ ← .await (.expire slot inflightTtl)
  if (limit : ℤ) < current then
    let _ ← .await (.decr slot)
    throw (.http refusal)

def release (slot : Slot) : Program Unit := do
  let current ← .await (.decr slot)
  if current < 0 then
    let _ ← .await (.set slot 0)

def tooManyRequests : HttpException where
  status := 429
  detail := "Too many concurrent requests"

def atCapacity : HttpException where
  status := 429
  detail := "The assistant is at capacity right now — please retry in a moment."
  headers := [("Retry-After", "5")]

variable (settings : QuotaSettings)

def acquireInflight (user : Uuid) : Program Unit :=
  acquire (.inflight user) settings.perUserMaxInflight tooManyRequests

def releaseInflight (user : Uuid) : Program Unit :=
  release (.inflight user)

def acquireGlobalSlot : Program Unit :=
  acquire .global settings.globalMaxInflight atCapacity

def releaseGlobalSlot : Program Unit :=
  release .global

/-- `except HTTPException`: the slot of the user goes back. -/
def giveBack (user : Uuid) : Failure → Program Unit
  | .http exception => do
      releaseInflight user
      throw (.http exception)
  | .other message => throw (.other message)

/-- `rate_limit` up to its `yield`, after the requests per minute were checked. -/
def rateLimit (user : Uuid) : Program Unit := do
  acquireInflight settings user
  tryCatch (acquireGlobalSlot settings) (giveBack user)

/-- `rate_limit` after its `yield`. -/
def rateLimitExit (user : Uuid) : Program Unit := do
  releaseGlobalSlot
  releaseInflight user

/-! ## Both counters at once -/

namespace Slot

def limit : Slot → ℕ
  | .inflight _ => settings.perUserMaxInflight
  | .global => settings.globalMaxInflight

def refusal : Slot → HttpException
  | .inflight _ => tooManyRequests
  | .global => atCapacity

def acquire : Slot → Program Unit
  | .inflight user => acquireInflight settings user
  | .global => acquireGlobalSlot settings

def release : Slot → Program Unit
  | .inflight user => releaseInflight user
  | .global => releaseGlobalSlot

/-- The two counters are handled alike. -/
theorem acquire_eq (slot : Slot) :
    slot.acquire settings = Quota.acquire slot (slot.limit settings) slot.refusal := by
  cases slot <;> rfl

theorem release_eq (slot : Slot) : slot.release = Quota.release slot := by
  cases slot <;> rfl

end Slot

/-- Left alone with the store, an acquire is admitted when the counter is below
the limit. -/
theorem acquire_eval_ok_iff (store : Store Slot) (slot : Slot) :
    ((slot.acquire settings).eval store).2 = .ok () ↔
      store.value slot < slot.limit settings := by
  rw [Slot.acquire_eq]
  change ((if (slot.limit settings : ℤ) < store.value slot + 1 then
    (do let _ ← Script.await (.decr slot); throw (.http slot.refusal) : Program Unit)
    else pure ()).eval ((store.add slot 1).expire slot inflightTtl)).2 = .ok () ↔ _
  by_cases hfull : (slot.limit settings : ℤ) < store.value slot + 1
  · rw [if_pos hfull]
    refine iff_of_false ?_ (by omega)
    intro hok
    cases hok
  · rw [if_neg hfull]
    exact iff_of_true rfl (by omega)

end AgenticRag.Quota
