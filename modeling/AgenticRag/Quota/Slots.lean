import AgenticRag.Core.Transition
import AgenticRag.Quota.RateLimit
import Mathlib.Data.List.Count

/-!
# The quota layer over all interleavings

Any number of calls execute their commands in any order.  A call acquires a slot
and, once granted, releases it; between two of its commands anything else may
happen, and a process may die at any point.
-/

namespace AgenticRag.Quota

open Counters

/-- How far a call has come. -/
inductive Phase where
  | idle
  | counted (current : ℤ)
  | refused
  | rejected
  | holding
  | clamping
  | released
  deriving DecidableEq

/-- A call, with the time of its `EXPIRE` and the time at which it ended. -/
structure Call where
  slot : Slot
  phase : Phase := .idle
  touched : Option ℚ := none
  ended : Option ℚ := none
  deriving DecidableEq

/-- The counters and the calls so far. -/
structure QuotaState where
  store : Store Slot := {}
  calls : List Call := []

inductive Event where
  | start (slot : Slot)
  | command (index : ℕ)
  | crash (index : ℕ)
  | tick (time : ℚ)

namespace Call

variable (settings : QuotaSettings)

/-- The next command of a call. -/
def advance (store : Store Slot) (call : Call) : Option (Store Slot × Call) :=
  if call.ended.isSome then none
  else match call.phase with
  | .idle =>
      some (store.add call.slot 1, { call with phase := .counted (store.value call.slot + 1) })
  | .counted current =>
      some (store.expire call.slot inflightTtl, { call with
        phase := if (call.slot.limit settings : ℤ) < current then .refused else .holding
        touched := some store.now })
  | .refused =>
      some (store.add call.slot (-1), { call with
        phase := .rejected
        ended := some store.now })
  | .holding =>
      if store.value call.slot - 1 < 0 then
        some (store.add call.slot (-1), { call with phase := .clamping })
      else
        some (store.add call.slot (-1), { call with
          phase := .released
          ended := some store.now })
  | .clamping =>
      some (store.set call.slot 0, { call with
        phase := .released
        ended := some store.now })
  | .rejected | .released => none

/-- The `INCR` of the call was answered with a number up to the limit, and the
slot has not been released. -/
def Granted (call : Call) : Prop :=
  match call.phase with
  | .counted current => current ≤ call.slot.limit settings
  | .holding => True
  | _ => False

/-- The attempt is rejected and its `DECR` is still to come. -/
def Pending (call : Call) : Prop :=
  match call.phase with
  | .counted current => (call.slot.limit settings : ℤ) < current
  | .refused => True
  | _ => False

instance (call : Call) : Decidable (call.Granted settings) := by
  unfold Granted
  split <;> infer_instance

instance (call : Call) : Decidable (call.Pending settings) := by
  unfold Pending
  split <;> infer_instance

/-- Everything a command can do. -/
inductive Moves (store : Store Slot) (call : Call) : Store Slot → Call → Prop
  | count (hphase : call.phase = .idle) : Moves store call (store.add call.slot 1)
      { call with phase := .counted (store.value call.slot + 1) }
  | refuse (current : ℤ) (hphase : call.phase = .counted current)
      (hfull : (call.slot.limit settings : ℤ) < current) :
      Moves store call (store.expire call.slot inflightTtl)
        { call with phase := .refused, touched := some store.now }
  | grant (current : ℤ) (hphase : call.phase = .counted current)
      (hfree : current ≤ call.slot.limit settings) :
      Moves store call (store.expire call.slot inflightTtl)
        { call with phase := .holding, touched := some store.now }
  | takeBack (hphase : call.phase = .refused) : Moves store call (store.add call.slot (-1))
      { call with phase := .rejected, ended := some store.now }
  | release (hphase : call.phase = .holding) (hpositive : 1 ≤ store.value call.slot) :
      Moves store call (store.add call.slot (-1))
        { call with phase := .released, ended := some store.now }
  | underflow (hphase : call.phase = .holding) (hbelow : store.value call.slot < 1) :
      Moves store call (store.add call.slot (-1)) { call with phase := .clamping }
  | clamp (hphase : call.phase = .clamping) : Moves store call (store.set call.slot 0)
      { call with phase := .released, ended := some store.now }

variable {settings}

theorem advance_moves {store next : Store Slot} {call after : Call}
    (hadvance : call.advance settings store = some (next, after)) :
    call.ended = none ∧ call.Moves settings store next after := by
  rw [advance] at hadvance
  cases hended : call.ended with
  | some time => simp [hended] at hadvance
  | none =>
      rw [if_neg (by simp [hended])] at hadvance
      refine ⟨rfl, ?_⟩
      cases hphase : call.phase with
      | idle =>
          simp only [hphase] at hadvance
          cases hadvance
          exact .count hphase
      | counted current =>
          simp only [hphase] at hadvance
          by_cases hfull : (call.slot.limit settings : ℤ) < current
          · rw [if_pos hfull] at hadvance
            cases hadvance
            exact .refuse current hphase hfull
          · rw [if_neg hfull] at hadvance
            cases hadvance
            exact .grant current hphase (not_lt.mp hfull)
      | refused =>
          simp only [hphase] at hadvance
          cases hadvance
          exact .takeBack hphase
      | holding =>
          simp only [hphase] at hadvance
          by_cases hbelow : store.value call.slot - 1 < 0
          · rw [if_pos hbelow] at hadvance
            cases hadvance
            exact .underflow hphase (by omega)
          · rw [if_neg hbelow] at hadvance
            cases hadvance
            exact .release hphase (by omega)
      | clamping =>
          simp only [hphase] at hadvance
          cases hadvance
          exact .clamp hphase
      | rejected => simp [hphase] at hadvance
      | released => simp [hphase] at hadvance

end Call

/-! ## The phases are points of the programs -/

section Programs

variable {settings : QuotaSettings} {store next : Store Slot} {call after : Call}

/-- The acquire has not come to an end. -/
def Phase.Acquires : Phase → Prop
  | .idle | .counted _ | .refused => True
  | _ => False

instance : DecidablePred Phase.Acquires
  | .idle => isTrue trivial
  | .counted _ => isTrue trivial
  | .refused => isTrue trivial
  | .rejected => isFalse id
  | .holding => isFalse id
  | .clamping => isFalse id
  | .released => isFalse id

/-- The slot is held or its release has not come to an end. -/
def Phase.Releases : Phase → Prop
  | .holding | .clamping => True
  | _ => False

/-- What is left of the acquire of a slot. -/
def Slot.acquiring (settings : QuotaSettings) (slot : Slot) : Phase → Program Unit
  | .idle => slot.acquire settings
  | .counted current => do
      let _ ← .await (.expire slot inflightTtl)
      if (slot.limit settings : ℤ) < current then
        let _ ← .await (.decr slot)
        throw (.http slot.refusal)
  | .refused => do
      let _ ← .await (.decr slot)
      throw (.http slot.refusal)
  | .rejected => throw (.http slot.refusal)
  | _ => pure ()

/-- What is left of its release. -/
def Slot.releasing (slot : Slot) : Phase → Program Unit
  | .holding => slot.release
  | .clamping => do
      let _ ← .await (.set slot 0)
  | _ => pure ()

/-- A command of a call is the next command of its acquire. -/
theorem Call.Moves.acquiring (hmoves : call.Moves settings store next after)
    (hphase : call.phase.Acquires) :
    (call.slot.acquiring settings call.phase).step store =
        some (next, call.slot.acquiring settings after.phase) ∧
      (after.phase.Acquires ∨ after.phase = .holding ∨ after.phase = .rejected) := by
  cases hmoves with
  | count hidle =>
      refine ⟨?_, Or.inl trivial⟩
      rw [hidle, Slot.acquiring, Slot.acquire_eq]
      rfl
  | refuse current hcounted hfull =>
      refine ⟨?_, Or.inl trivial⟩
      rw [hcounted, Slot.acquiring]
      simp only [if_pos hfull]
      rfl
  | grant current hcounted hfree =>
      refine ⟨?_, Or.inr (Or.inl rfl)⟩
      rw [hcounted, Slot.acquiring]
      simp only [if_neg (not_lt.mpr hfree)]
      rfl
  | takeBack hrefused =>
      refine ⟨?_, Or.inr (Or.inr rfl)⟩
      rw [hrefused]
      rfl
  | release hholding hpositive => simp [Phase.Acquires, hholding] at hphase
  | underflow hholding hbelow => simp [Phase.Acquires, hholding] at hphase
  | clamp hclamping => simp [Phase.Acquires, hclamping] at hphase

/-- And then the next command of its release. -/
theorem Call.Moves.releasing (hmoves : call.Moves settings store next after)
    (hphase : call.phase.Releases) :
    (call.slot.releasing call.phase).step store = some (next, call.slot.releasing after.phase) ∧
      (after.phase = .clamping ∨ after.phase = .released) := by
  cases hmoves with
  | count hidle => simp [Phase.Releases, hidle] at hphase
  | refuse current hcounted hfull => simp [Phase.Releases, hcounted] at hphase
  | grant current hcounted hfree => simp [Phase.Releases, hcounted] at hphase
  | takeBack hrefused => simp [Phase.Releases, hrefused] at hphase
  | release hholding hpositive =>
      refine ⟨?_, Or.inr rfl⟩
      rw [hholding, Slot.releasing, Slot.release_eq]
      change some (_, if store.value call.slot - 1 < 0 then _ else _) = _
      rw [if_neg (by omega)]
      rfl
  | underflow hholding hbelow =>
      refine ⟨?_, Or.inl rfl⟩
      rw [hholding, Slot.releasing, Slot.release_eq]
      change some (_, if store.value call.slot - 1 < 0 then _ else _) = _
      rw [if_pos (by omega)]
      rfl
  | clamp hclamping =>
      refine ⟨?_, Or.inr rfl⟩
      rw [hclamping]
      rfl

end Programs

/-! ## Runs of the quota layer -/

def step (settings : QuotaSettings) (state : QuotaState) : Event → Option QuotaState
  | .start slot => some { state with calls := state.calls ++ [{ slot }] }
  | .command index =>
      state.calls[index]?.bind fun call =>
        (call.advance settings state.store).map fun moved =>
          { store := moved.1, calls := state.calls.set index moved.2 }
  | .crash index =>
      state.calls[index]?.bind fun call =>
        if call.ended.isSome then none
        else some { state with
          calls := state.calls.set index { call with ended := some state.store.now } }
  | .tick time =>
      if state.store.now ≤ time then some { state with store := state.store.advance time }
      else none

/-- A run from an empty store. -/
def run (settings : QuotaSettings) (events : List Event) : Option QuotaState :=
  Transition.exec (step settings) {} events

section Steps

variable {settings : QuotaSettings} {state next : QuotaState} {event : Event}

/-- Everything a step can do. -/
theorem step_cases (hstep : step settings state event = some next) :
    (∃ slot, event = .start slot ∧
      next = { state with calls := state.calls ++ [{ slot }] }) ∨
    (∃ index call store after, event = .command index ∧ state.calls[index]? = some call ∧
      call.ended = none ∧ call.Moves settings state.store store after ∧
      next = ⟨store, state.calls.set index after⟩) ∨
    (∃ index call, event = .crash index ∧ state.calls[index]? = some call ∧
      call.ended = none ∧ next = { state with
        calls := state.calls.set index { call with ended := some state.store.now } }) ∨
    ∃ time, event = .tick time ∧ state.store.now ≤ time ∧
      next = { state with store := state.store.advance time } := by
  cases event with
  | start slot =>
      cases hstep
      exact Or.inl ⟨slot, rfl, rfl⟩
  | command index =>
      obtain ⟨call, hcall, hmap⟩ := Option.bind_eq_some_iff.mp hstep
      obtain ⟨⟨store, after⟩, hadvance, rfl⟩ := Option.map_eq_some_iff.mp hmap
      obtain ⟨halive, hmoves⟩ := Call.advance_moves hadvance
      exact Or.inr (Or.inl ⟨index, call, store, after, rfl, hcall, halive, hmoves, rfl⟩)
  | crash index =>
      obtain ⟨call, hcall, hcrash⟩ := Option.bind_eq_some_iff.mp hstep
      cases hended : call.ended with
      | some time => simp [hended] at hcrash
      | none =>
          simp only [hended, Option.isSome_none, Bool.false_eq_true, if_false,
            Option.some.injEq] at hcrash
          exact Or.inr (Or.inr (Or.inl ⟨index, call, rfl, hcall, hended, hcrash.symm⟩))
  | tick time =>
      by_cases hlater : state.store.now ≤ time
      · simp only [step, hlater, if_true, Option.some.injEq] at hstep
        exact Or.inr (Or.inr (Or.inr ⟨time, rfl, hlater, hstep.symm⟩))
      · simp [step, hlater] at hstep

end Steps

end AgenticRag.Quota
