import AgenticRag.Core.Traces
import AgenticRag.Quota.RateLimit

/-!
# Slots a failing request leaves counted

`rate_limit` from its first command to its exit, with commands that raise: Redis is
gone, or the request is cancelled while it waits, and in both cases the command may
have been executed.  The handler of `rate_limit` names `HTTPException`, and its
`finally` gives the two slots back one after the other.
-/

namespace AgenticRag.Quota

open Counters

/-- The keys of the dependency. -/
inductive Key where
  /-- `quota:rpm:{user_id}:{window}` -/
  | requests (user : Uuid) (window : ℕ)
  | slot (slot : Slot)
  deriving DecidableEq

abbrev Trace := List (Sent Key String)

def rateExceeded : HttpException where
  status := 429
  detail := "Rate limit exceeded (requests per minute)"

/-- `check_request_rate` with `per_user_requests_per_min` -/
def checkRequestRate (perMinute : ℕ) (user : Uuid) (window : ℕ) :
    Script Key Failure Unit := do
  let count ← .await (.incr (.requests user window))
  if count = 1 then
    let _ ← .await (.expire (.requests user window) 70)
  if (perMinute : ℤ) < count then throw (.http rateExceeded)

/-- `rate_limit`; what becomes of the request at the `yield` is a parameter. -/
def rateLimitDependency (settings : QuotaSettings) (perMinute : ℕ) (user : Uuid)
    (window : ℕ) (yielded : Except Failure Unit) : Script Key Failure Unit := do
  checkRequestRate perMinute user window
  (rateLimit settings user).mapKey .slot
  (rateLimitExit user).mapKey .slot
  .done yielded

/-- The dependency goes this way; no command raises an `HTTPException`. -/
abbrev Goes (script : Script Key Failure Unit) (trace : Trace)
    (result : Except Failure Unit) : Prop :=
  script.Performs Failure.other trace result

/-- Every increment of an in-flight counter that took effect is taken back. -/
def GivenBack (trace : Trace) : Prop :=
  ∀ slot, outstanding (.slot slot) trace ≤ 0

/-- A command that raises without leaving a slot counted: those of the requests per
minute, and of the counter of the user an increment that was not executed, a decrement
that was, and the reset. -/
def Harmless : Sent Key String → Prop
  | (_, .answered _) => True
  | (command, .raised _ took) =>
      match command with
      | .incr (.requests _ _) | .decr (.requests _ _) | .expire (.requests _ _) _
        | .set (.requests _ _) _ | .set (.slot (.inflight _)) _ => True
      | .incr (.slot (.inflight _)) => took = false
      | .decr (.slot (.inflight _)) => took = true
      | .expire (.slot (.inflight _)) _ | .incr (.slot .global) | .decr (.slot .global)
        | .expire (.slot .global) _ | .set (.slot .global) _ => False

/-! ## The ways through the parts -/

/-- The ways through an acquire. -/
inductive Acquired (slot : Slot) : Trace → Except Failure Unit → Prop where
  | admitted (current refreshed : ℤ) :
      Acquired slot [(.incr (.slot slot), .answered current),
        (.expire (.slot slot) inflightTtl, .answered refreshed)] (.ok ())
  | refused (current refreshed lowered : ℤ) (refusal : HttpException) :
      Acquired slot [(.incr (.slot slot), .answered current),
        (.expire (.slot slot) inflightTtl, .answered refreshed),
        (.decr (.slot slot), .answered lowered)] (.error (.http refusal))
  | incr (message : String) (took : Bool) :
      Acquired slot [(.incr (.slot slot), .raised message took)] (.error (.other message))
  | expire (current : ℤ) (message : String) (took : Bool) :
      Acquired slot [(.incr (.slot slot), .answered current),
        (.expire (.slot slot) inflightTtl, .raised message took)] (.error (.other message))
  | decr (current refreshed : ℤ) (message : String) (took : Bool) :
      Acquired slot [(.incr (.slot slot), .answered current),
        (.expire (.slot slot) inflightTtl, .answered refreshed),
        (.decr (.slot slot), .raised message took)] (.error (.other message))

/-- The ways through a release. -/
inductive Released (slot : Slot) : Trace → Except Failure Unit → Prop where
  | released (current : ℤ) :
      Released slot [(.decr (.slot slot), .answered current)] (.ok ())
  | reset (current done : ℤ) :
      Released slot [(.decr (.slot slot), .answered current),
        (.set (.slot slot) 0, .answered done)] (.ok ())
  | decr (message : String) (took : Bool) :
      Released slot [(.decr (.slot slot), .raised message took)] (.error (.other message))
  | set (current : ℤ) (message : String) (took : Bool) :
      Released slot [(.decr (.slot slot), .answered current),
        (.set (.slot slot) 0, .raised message took)] (.error (.other message))

section Parts

variable {settings : QuotaSettings} {slot other : Slot} {trace : Trace}
variable {result : Except Failure Unit}

/-- The next command of a function of the counters. -/
theorem goes_await {command : Command Slot} {next : ℤ → Program Unit}
    (hgoes : Goes (Script.mapKey Key.slot (Script.await command >>= next)) trace result) :
    (∃ message took, trace = [(command.mapKey .slot, .raised message took)] ∧
        result = .error (.other message)) ∨
      ∃ value rest, trace = (command.mapKey .slot, .answered value) :: rest ∧
        Goes ((next value).mapKey .slot) rest result :=
  Script.performs_await (Script.mapKey_await_bind Key.slot command next ▸ hgoes)

theorem acquire_goes (hgoes : Goes ((slot.acquire settings).mapKey .slot) trace result) :
    Acquired slot trace result := by
  rw [Slot.acquire_eq, acquire] at hgoes
  rcases goes_await hgoes with ⟨message, took, rfl, rfl⟩ | ⟨current, rest, rfl, hexpire⟩
  · exact .incr message took
  rcases goes_await hexpire with ⟨message, took, rfl, rfl⟩ | ⟨refreshed, rest, rfl, hlimit⟩
  · exact .expire current message took
  split_ifs at hlimit with hfull
  · rcases goes_await hlimit with ⟨message, took, rfl, rfl⟩ | ⟨lowered, rest, rfl, hraise⟩
    · exact .decr current refreshed message took
    · cases hraise
      exact .refused current refreshed lowered slot.refusal
  · cases hlimit
    exact .admitted current refreshed

theorem release_goes (hgoes : Goes (slot.release.mapKey .slot) trace result) :
    Released slot trace result := by
  rw [Slot.release_eq, release] at hgoes
  rcases goes_await hgoes with ⟨message, took, rfl, rfl⟩ | ⟨current, rest, rfl, hreset⟩
  · exact .decr message took
  split_ifs at hreset with hnegative
  · rcases goes_await hreset with ⟨message, took, rfl, rfl⟩ | ⟨done, rest, rfl, hdone⟩
    · exact .set current message took
    · cases hdone
      exact .reset current done
  · cases hreset
    exact .released current

/-- Nothing the request did raises and leaves a slot counted. -/
def AllHarmless (trace : Trace) : Prop :=
  ∀ sent ∈ trace, Harmless sent

theorem allHarmless_append {first second : Trace} :
    AllHarmless (first ++ second) ↔ AllHarmless first ∧ AllHarmless second :=
  List.forall_mem_append

/-- The requests per minute touch no slot, and raise before one is counted. -/
theorem checkRequestRate_goes {perMinute : ℕ} {user : Uuid} {window : ℕ}
    (hgoes : Goes (checkRequestRate perMinute user window) trace result) :
    AllHarmless trace ∧ ∀ slot, outstanding (.slot slot) trace = 0 := by
  rw [checkRequestRate] at hgoes
  rcases Script.performs_await hgoes with
    ⟨message, took, rfl, rfl⟩ | ⟨count, rest, rfl, hexpire⟩
  · simp [AllHarmless, Harmless, outstanding]
  have hraise : ∀ {trace : Trace} {result : Except Failure Unit},
      Goes (if (perMinute : ℤ) < count then throw (.http rateExceeded) else pure ())
        trace result → trace = [] := by
    intro trace result hlast
    split_ifs at hlast <;> cases hlast <;> rfl
  dsimp only at hexpire
  by_cases hfirst : count = 1
  · rw [if_pos hfirst] at hexpire
    rcases Script.performs_await hexpire with
      ⟨message, took, rfl, rfl⟩ | ⟨refreshed, rest, rfl, hlast⟩
    · simp [AllHarmless, Harmless, outstanding]
    · obtain rfl := hraise hlast
      simp [AllHarmless, Harmless, outstanding]
  · rw [if_neg hfirst] at hexpire
    obtain rfl := hraise hexpire
    simp [AllHarmless, Harmless, outstanding]

/-! ## What the parts leave -/

theorem Acquired.outstanding_other (hacquired : Acquired slot trace result)
    (hother : other ≠ slot) : outstanding (.slot other) trace = 0 := by
  cases hacquired <;> simp [outstanding, hother.symm]

theorem Released.outstanding_other (hreleased : Released slot trace result)
    (hother : other ≠ slot) : outstanding (.slot other) trace = 0 := by
  cases hreleased <;> simp [outstanding, hother.symm]

theorem Acquired.admitted_outstanding (hacquired : Acquired slot trace (.ok ())) :
    AllHarmless trace ∧ outstanding (.slot slot) trace = 1 := by
  cases hacquired
  simp [AllHarmless, Harmless, outstanding, Reply.took]

theorem Acquired.refused_outstanding {refusal : HttpException}
    (hacquired : Acquired slot trace (.error (.http refusal))) :
    AllHarmless trace ∧ outstanding (.slot slot) trace = 0 := by
  cases hacquired
  simp [AllHarmless, Harmless, outstanding, Reply.took]

/-- What raises in the acquire of the user leaves the slot counted or is harmless. -/
theorem Acquired.raised_outstanding {user : Uuid} {message : String}
    (hacquired : Acquired (.inflight user) trace (.error (.other message))) :
    outstanding (.slot (.inflight user)) trace ≤ 0 ↔ AllHarmless trace := by
  cases hacquired with
  | incr _ took => cases took <;> simp [AllHarmless, Harmless, outstanding, Reply.took]
  | expire _ _ _ => simp [AllHarmless, Harmless, outstanding, Reply.took]
  | decr _ _ _ took => cases took <;> simp [AllHarmless, Harmless, outstanding, Reply.took]

/-- Whatever raises in the acquire of the global slot has no handler. -/
theorem Acquired.raised_global {message : String}
    (hacquired : Acquired .global trace (.error (.other message))) : ¬ AllHarmless trace := by
  cases hacquired <;> simp [AllHarmless, Harmless]

theorem Released.outstanding_user {user : Uuid}
    (hreleased : Released (.inflight user) trace result) :
    (outstanding (.slot (.inflight user)) trace = -1 ∧ AllHarmless trace) ∨
      (outstanding (.slot (.inflight user)) trace = 0 ∧ ¬ AllHarmless trace) := by
  cases hreleased with
  | released _ | reset _ _ | set _ _ _ =>
      simp [AllHarmless, Harmless, outstanding, Reply.took]
  | decr _ took => cases took <;> simp [AllHarmless, Harmless, outstanding, Reply.took]

theorem Released.outstanding_global (hreleased : Released .global trace result) :
    (result = .ok () ∧ outstanding (.slot .global) trace = -1 ∧ AllHarmless trace) ∨
      ∃ failure, result = .error failure ∧ ¬ AllHarmless trace := by
  cases hreleased <;> simp [AllHarmless, Harmless, outstanding, Reply.took]

end Parts

/-! ## The dependency -/

section Dependency

variable {settings : QuotaSettings} {user : Uuid} {trace : Trace}
variable {result : Except Failure Unit}

/-- A trace that leaves both slots of the request counted. -/
structure HoldsBoth (user : Uuid) (trace : Trace) : Prop where
  own : outstanding (.slot (.inflight user)) trace = 1
  shared : outstanding (.slot .global) trace = 1
  rest : ∀ slot, slot ≠ .inflight user → slot ≠ .global →
    outstanding (.slot slot) trace = 0

theorem givenBack_iff (hrest : ∀ slot, slot ≠ .inflight user → outstanding (.slot slot) trace = 0) :
    GivenBack trace ↔ outstanding (.slot (.inflight user)) trace ≤ 0 := by
  constructor
  · intro hgiven
    exact hgiven (.inflight user)
  · intro hown slot
    by_cases hslot : slot = .inflight user
    · rw [hslot]
      exact hown
    · rw [hrest slot hslot]

/-- The handler of `rate_limit` around the global slot, with the slot of the user
counted before. -/
theorem sharedSlot_goes
    (hgoes : Goes (((acquireGlobalSlot settings).mapKey Key.slot).handle fun failure =>
      (giveBack user failure).mapKey .slot) trace result) :
    (result = .ok () ∧ AllHarmless trace ∧
        outstanding (.slot .global) trace = 1 ∧
        ∀ slot, slot ≠ .global → outstanding (.slot slot) trace = 0) ∨
      ∃ failure, result = .error failure ∧
        ((outstanding (.slot (.inflight user)) trace = -1 ∧
            (∀ slot, slot ≠ .inflight user → outstanding (.slot slot) trace = 0) ∧
            AllHarmless trace) ∨
          (outstanding (.slot (.inflight user)) trace = 0 ∧ ¬ AllHarmless trace)) := by
  rcases Script.performs_handle hgoes with
    ⟨_, rfl, hadmitted⟩ | ⟨failure, first, second, rfl, hfailed, hhandler⟩
  · have hacquired : Acquired .global trace (.ok ()) := @acquire_goes _ .global _ _ hadmitted
    obtain ⟨hharmless, hshared⟩ := hacquired.admitted_outstanding
    exact Or.inl ⟨rfl, hharmless, hshared, fun slot hslot => hacquired.outstanding_other hslot⟩
  right
  have hacquired : Acquired .global first (.error failure) := @acquire_goes _ .global _ _ hfailed
  cases failure with
  | other message =>
      -- the handler names another exception
      cases hhandler
      rw [List.append_nil]
      refine ⟨.other message, rfl, Or.inr ⟨?_, hacquired.raised_global⟩⟩
      exact hacquired.outstanding_other (by simp)
  | http refusal =>
      obtain ⟨hharmless, hshared⟩ := hacquired.refused_outstanding
      have hgiven : ∀ {rest : Trace} {answer : Except Failure Unit},
          Goes ((releaseInflight user).mapKey .slot) rest answer →
          (outstanding (.slot (.inflight user)) (first ++ rest) = -1 ∧
              (∀ slot, slot ≠ .inflight user → outstanding (.slot slot) (first ++ rest) = 0) ∧
              AllHarmless (first ++ rest)) ∨
            (outstanding (.slot (.inflight user)) (first ++ rest) = 0 ∧
              ¬ AllHarmless (first ++ rest)) := by
        intro rest answer hrelease
        have hreleased : Released (.inflight user) rest answer :=
          @release_goes (.inflight user) _ _ hrelease
        have hown : outstanding (.slot (.inflight user)) first = 0 :=
          hacquired.outstanding_other (by simp)
        simp only [outstanding_append, allHarmless_append, hown, zero_add]
        rcases hreleased.outstanding_user with ⟨hlowered, hquiet⟩ | ⟨hkept, hraised⟩
        · refine Or.inl ⟨hlowered, ?_, hharmless, hquiet⟩
          intro slot hslot
          rw [hreleased.outstanding_other hslot, add_zero]
          by_cases hglobal : slot = .global
          · rw [hglobal, hshared]
          · exact hacquired.outstanding_other hglobal
        · exact Or.inr ⟨hkept, fun hall => hraised hall.2⟩
      change Goes ((Script.bind _ _).mapKey _) _ _ at hhandler
      rw [Script.mapKey_bind] at hhandler
      rcases Script.performs_bind hhandler with
        ⟨failure, rfl, hrelease⟩ | ⟨_, lowered, raised, rfl, hrelease, hraise⟩
      · exact ⟨failure, rfl, hgiven hrelease⟩
      · cases hraise
        rw [List.append_nil]
        exact ⟨.http refusal, rfl, hgiven hrelease⟩

/-- `rate_limit` up to its `yield` holds both slots without a failure, or raises, and
then leaves nothing counted exactly when what raised was harmless. -/
theorem rateLimit_goes (hgoes : Goes ((rateLimit settings user).mapKey .slot) trace result) :
    (result = .ok () ∧ AllHarmless trace ∧ HoldsBoth user trace) ∨
      ∃ failure, result = .error failure ∧ (GivenBack trace ↔ AllHarmless trace) := by
  rw [rateLimit] at hgoes
  change Goes ((Script.bind _ fun _ => Script.handle _ _).mapKey _) _ _ at hgoes
  rw [Script.mapKey_bind] at hgoes
  rcases Script.performs_bind hgoes with
    ⟨failure, rfl, hown⟩ | ⟨_, first, second, rfl, hown, hshared⟩
  · right
    refine ⟨failure, rfl, ?_⟩
    have hacquired : Acquired (.inflight user) trace (.error failure) :=
      @acquire_goes _ (.inflight user) _ _ hown
    rw [givenBack_iff fun slot hslot => hacquired.outstanding_other hslot]
    cases failure with
    | http refusal =>
        obtain ⟨hharmless, hcounted⟩ := hacquired.refused_outstanding
        exact iff_of_true hcounted.le hharmless
    | other message => exact hacquired.raised_outstanding
  · have hacquired : Acquired (.inflight user) first (.ok ()) :=
      @acquire_goes _ (.inflight user) _ _ hown
    obtain ⟨hharmless, hcounted⟩ := hacquired.admitted_outstanding
    rw [Script.mapKey_handle] at hshared
    rcases sharedSlot_goes hshared with
      ⟨rfl, hquiet, hglobal, hrest⟩ | ⟨failure, rfl, hleft⟩
    · refine Or.inl ⟨rfl, allHarmless_append.mpr ⟨hharmless, hquiet⟩, ?_, ?_, ?_⟩
      · rw [outstanding_append, hcounted, hrest _ (by simp), add_zero]
      · rw [outstanding_append, hacquired.outstanding_other (by simp), hglobal, zero_add]
      · intro slot hslot hother
        rw [outstanding_append, hacquired.outstanding_other hslot, hrest slot hother, add_zero]
    · refine Or.inr ⟨failure, rfl, ?_⟩
      rcases hleft with ⟨hlowered, hrest, hquiet⟩ | ⟨hkept, hraised⟩
      · refine iff_of_true ?_ (allHarmless_append.mpr ⟨hharmless, hquiet⟩)
        rw [@givenBack_iff user]
        · rw [outstanding_append, hcounted, hlowered]
          decide
        · intro slot hslot
          rw [outstanding_append, hacquired.outstanding_other hslot, hrest slot hslot, add_zero]
      · refine iff_of_false ?_ fun hall => hraised (allHarmless_append.mp hall).2
        intro hgiven
        have hown := hgiven (.inflight user)
        rw [outstanding_append, hcounted, hkept] at hown
        omega

/-- The exit gives both slots back exactly when nothing harmful raises. -/
theorem rateLimitExit_goes
    (hgoes : Goes ((rateLimitExit user).mapKey .slot) trace result) :
    (outstanding (.slot (.inflight user)) trace ≤ -1 ↔ AllHarmless trace) ∧
      (AllHarmless trace → outstanding (.slot .global) trace = -1) ∧
      ∀ slot, slot ≠ .inflight user → slot ≠ .global →
        outstanding (.slot slot) trace = 0 := by
  rw [rateLimitExit] at hgoes
  change Goes ((Script.bind _ _).mapKey _) _ _ at hgoes
  rw [Script.mapKey_bind] at hgoes
  rcases Script.performs_bind hgoes with
    ⟨failure, rfl, hglobal⟩ | ⟨_, first, second, rfl, hglobal, hown⟩
  · -- the release of the user is not tried
    have hreleased : Released .global trace (.error failure) :=
      @release_goes .global _ _ hglobal
    rcases hreleased.outstanding_global with ⟨hok, _⟩ | ⟨_, _, hraised⟩
    · cases hok
    · refine ⟨iff_of_false ?_ hraised, fun hall => absurd hall hraised, ?_⟩
      · rw [hreleased.outstanding_other (by simp)]
        decide
      · intro slot _ hother
        exact hreleased.outstanding_other hother
  · have hshared : Released .global first (.ok ()) := @release_goes .global _ _ hglobal
    have hreleased : Released (.inflight user) second result :=
      @release_goes (.inflight user) _ _ hown
    rcases hshared.outstanding_global with ⟨_, hlowered, hharmless⟩ | ⟨_, hok, _⟩
    · simp only [outstanding_append, allHarmless_append]
      refine ⟨?_, ?_, ?_⟩
      · rw [hshared.outstanding_other (by simp), zero_add]
        rcases hreleased.outstanding_user with ⟨hback, hquiet⟩ | ⟨hkept, hraised⟩
        · exact iff_of_true hback.le ⟨hharmless, hquiet⟩
        · exact iff_of_false (by omega) fun hall => hraised hall.2
      · intro _
        rw [hlowered, hreleased.outstanding_other (by simp), add_zero]
      · intro slot hslot hother
        rw [hshared.outstanding_other hother, hreleased.outstanding_other hslot, add_zero]
    · cases hok

/-- The dependency behind the requests per minute. -/
theorem slots_goes {yielded : Except Failure Unit}
    (hgoes : Goes (((rateLimit settings user).mapKey Key.slot).bind fun _ =>
      ((rateLimitExit user).mapKey Key.slot).bind fun _ => .done yielded) trace result) :
    GivenBack trace ↔ AllHarmless trace := by
  rcases Script.performs_bind hgoes with
    ⟨failure, rfl, henter⟩ | ⟨_, first, second, rfl, henter, hleave⟩
  · rcases rateLimit_goes henter with ⟨hok, _⟩ | ⟨_, _, hgiven⟩
    · cases hok
    · exact hgiven
  · obtain ⟨hharmless, hholds⟩ : AllHarmless first ∧ HoldsBoth user first := by
      rcases rateLimit_goes henter with ⟨_, hholds⟩ | ⟨_, herror, _⟩
      · exact hholds
      · cases herror
    have hexit : ∃ answer, Goes ((rateLimitExit user).mapKey .slot) second answer := by
      rcases Script.performs_bind hleave with
        ⟨failure, _, hexit⟩ | ⟨_, lowered, last, rfl, hexit, hdone⟩
      · exact ⟨_, hexit⟩
      · cases hdone
        rw [List.append_nil]
        exact ⟨_, hexit⟩
    obtain ⟨answer, hexit⟩ := hexit
    obtain ⟨hown, hshared, hrest⟩ := rateLimitExit_goes hexit
    rw [allHarmless_append, and_iff_right hharmless, ← hown]
    constructor
    · intro hgiven
      have huser := hgiven (.inflight user)
      rw [outstanding_append, hholds.own] at huser
      omega
    · intro hlowered slot
      rw [outstanding_append]
      by_cases hslot : slot = .inflight user
      · rw [hslot, hholds.own]
        omega
      · by_cases hother : slot = .global
        · rw [hother, hholds.shared, hshared (hown.mp hlowered)]
          decide
        · rw [hholds.rest slot hslot hother, hrest slot hslot hother]
          decide

/-- Every increment that took effect is given back by the exit of the dependency
exactly when no command raises but harmless ones. -/
theorem rateLimitDependency_givenBack_iff {perMinute window : ℕ}
    {yielded : Except Failure Unit}
    (hgoes : Goes (rateLimitDependency settings perMinute user window yielded) trace result) :
    GivenBack trace ↔ ∀ sent ∈ trace, Harmless sent := by
  rcases Script.performs_bind hgoes with
    ⟨failure, rfl, hcheck⟩ | ⟨_, first, second, rfl, hcheck, hslots⟩
  · obtain ⟨hharmless, hnone⟩ := checkRequestRate_goes hcheck
    exact iff_of_true (fun slot => (hnone slot).le) hharmless
  · obtain ⟨hharmless, hnone⟩ := checkRequestRate_goes hcheck
    have hgiven : GivenBack (first ++ second) ↔ GivenBack second := by
      simp only [GivenBack, outstanding_append, hnone, zero_add]
    rw [hgiven, slots_goes hslots, List.forall_mem_append]
    exact (and_iff_right hharmless).symm

end Dependency

/-! ## Cancelled at the global slot -/

/-- The user is counted, and the request is cancelled before the global counter is
asked. -/
def cancelledAtGlobal : Trace :=
  [(.incr (.requests 5 0), .answered 2),
    (.incr (.slot (.inflight 5)), .answered 1),
    (.expire (.slot (.inflight 5)) inflightTtl, .answered 1),
    (.incr (.slot .global), .raised "CancelledError" false)]

theorem cancelledAtGlobal_goes :
    Goes (rateLimitDependency {} 60 5 0 (.ok ())) cancelledAtGlobal
      (.error (.other "CancelledError")) :=
  .run (.run (.run (.run (.done _))))

theorem rateLimitDependency_givenBack_iff_cancelled :
    GivenBack cancelledAtGlobal ↔ ∀ sent ∈ cancelledAtGlobal, Harmless sent :=
  rateLimitDependency_givenBack_iff cancelledAtGlobal_goes

/-- The handler names `HTTPException`, so the slot of the user stays counted. -/
theorem rateLimitDependency_not_givenBack :
    ¬ ∀ (settings : QuotaSettings) (perMinute : ℕ) (user : Uuid) (window : ℕ)
        (yielded : Except Failure Unit) (trace : Trace) (result : Except Failure Unit),
      Goes (rateLimitDependency settings perMinute user window yielded) trace result →
      (∀ slot, ∀ reply, (Command.decr (Key.slot slot), reply) ∈ trace → reply.took = true) →
      GivenBack trace := by
  intro hclaim
  have hgiven := hclaim {} 60 5 0 (.ok ()) cancelledAtGlobal _ cancelledAtGlobal_goes
    (by simp [cancelledAtGlobal]) (.inflight 5)
  revert hgiven
  decide

end AgenticRag.Quota
