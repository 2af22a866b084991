import AgenticRag.Core.Positions
import AgenticRag.Core.Transition
import AgenticRag.Quota.Leaks
import Mathlib.Data.Rat.Floor

/-!
# Requests per minute

Any number of requests run `check_request_rate` at the same time.  A request reads the
clock, counts itself under the minute it has read, and the first one of a minute sets the
deadline of the counter, which outlives the minute by at least ten seconds.
-/

namespace AgenticRag.Minutes

open Counters Transition
open Quota (Key)

/-- How far a request has come. -/
inductive Stage where
  | idle
  | first
  | admitted
  | refused
  deriving DecidableEq

/-- A request with the time it has read and the number its `INCR` was answered with. -/
structure Request where
  user : Uuid
  readAt : ℚ
  stage : Stage := .idle
  count : Option ℤ := none
  lost : Bool := false
  deriving DecidableEq

structure State where
  store : Store Key := {}
  requests : List Request := []

inductive Event where
  | start (user : Uuid)
  | command (index : ℕ)
  | crash (index : ℕ)
  | tick (time : ℚ)
  deriving DecidableEq

namespace Request

/-- `int(time.time() // 60)` -/
def window (request : Request) : ℕ := ⌊request.readAt / 60⌋₊

def key (request : Request) : Key := .requests request.user request.window

end Request

/-- `count > _settings.per_user_requests_per_min` -/
def verdict (limit : ℕ) (count : ℤ) : Stage :=
  if (limit : ℤ) < count then .refused else .admitted

/-- The request after its `INCR` was answered; the first one has a deadline to set. -/
def Request.told (limit : ℕ) (request : Request) (count : ℤ) : Request :=
  { request with
    stage := if count = 1 then .first else verdict limit count
    count := some count }

/-- The next command of a request. -/
def Request.advance (limit : ℕ) (store : Store Key) (request : Request) :
    Option (Store Key × Request) :=
  if request.lost then none
  else match request.stage with
  | .idle => some (store.add request.key 1, request.told limit (store.value request.key + 1))
  | .first => some (store.expire request.key 70, { request with stage := verdict limit 1 })
  | .admitted | .refused => none

def step (limit : ℕ) (state : State) : Event → Option State
  | .start user => some { state with
      requests := state.requests ++ [{ user := user, readAt := state.store.now }] }
  | .command index =>
      state.requests[index]?.bind fun request =>
        (request.advance limit state.store).map fun moved =>
          { store := moved.1, requests := state.requests.set index moved.2 }
  | .crash index =>
      state.requests[index]?.bind fun request =>
        if request.lost then none
        else some { state with
          requests := state.requests.set index { request with lost := true } }
  | .tick time =>
      if state.store.now ≤ time then some { state with store := state.store.advance time }
      else none

/-! ## The stages are points of the program -/

/-- The end of `check_request_rate`. -/
def conclude (limit : ℕ) (count : ℤ) : Script Key Quota.Failure Unit :=
  if (limit : ℤ) < count then throw (.http Quota.rateExceeded) else pure ()

/-- What is left of `check_request_rate`. -/
def Request.rest (limit : ℕ) (request : Request) : Script Key Quota.Failure Unit :=
  match request.stage with
  | .idle => Quota.checkRequestRate limit request.user request.window
  | .first => do
      let _ ← .await (.expire request.key 70)
      conclude limit 1
  | .admitted => pure ()
  | .refused => throw (.http Quota.rateExceeded)

/-- Everything a command can do. -/
inductive Request.Moves (limit : ℕ) (store : Store Key) (request : Request) :
    Store Key → Request → Prop
  | count (hidle : request.stage = .idle) : Moves limit store request (store.add request.key 1)
      (request.told limit (store.value request.key + 1))
  | expire (hfirst : request.stage = .first) :
      Moves limit store request (store.expire request.key 70)
        { request with stage := verdict limit 1 }

section Steps

variable {limit : ℕ} {store next : Store Key} {request after : Request}

theorem advance_moves (hadvance : request.advance limit store = some (next, after)) :
    request.lost = false ∧ request.Moves limit store next after := by
  rw [Request.advance] at hadvance
  split_ifs at hadvance with hlost
  refine ⟨Bool.eq_false_iff.mpr hlost, ?_⟩
  cases hstage : request.stage with
  | idle =>
      rw [hstage] at hadvance
      cases hadvance
      exact .count hstage
  | first =>
      rw [hstage] at hadvance
      cases hadvance
      exact .expire hstage
  | admitted =>
      rw [hstage] at hadvance
      cases hadvance
  | refused =>
      rw [hstage] at hadvance
      cases hadvance

theorem rest_verdict {count : ℤ} (hstage : request.stage = verdict limit count) :
    request.rest limit = conclude limit count := by
  by_cases hfull : (limit : ℤ) < count
  · have hthrow : conclude limit count = throw (.http Quota.rateExceeded) := if_pos hfull
    rw [hthrow, Request.rest, hstage, verdict, if_pos hfull]
  · have hpure : conclude limit count = pure () := if_neg hfull
    rw [hpure, Request.rest, hstage, verdict, if_neg hfull]

/-- The command of a request is the next command of its program. -/
theorem Request.Moves.rest (hmoves : request.Moves limit store next after) :
    (request.rest limit).step store = some (next, after.rest limit) := by
  cases hmoves with
  | count hidle =>
      have hprogram : (request.rest limit).step store = some (store.add request.key 1,
          if store.value request.key + 1 = 1 then do
            let _ ← .await (.expire request.key 70)
            conclude limit (store.value request.key + 1)
          else conclude limit (store.value request.key + 1)) := by
        rw [Request.rest, hidle]
        rfl
      rw [hprogram]
      by_cases hone : store.value request.key + 1 = 1
      · simp only [hone]
        rfl
      · simp only [if_neg hone]
        rw [rest_verdict (if_neg hone)]
  | expire hfirst =>
      have hprogram : (request.rest limit).step store =
          some (store.expire request.key 70, conclude limit 1) := by
        rw [Request.rest, hfirst]
        rfl
      rw [hprogram, rest_verdict rfl]

/-- Everything a step can do. -/
theorem step_cases {state next : State} {event : Event} (hstep : step limit state event = some next) :
    (∃ user, event = .start user ∧ next = { state with
      requests := state.requests ++ [{ user := user, readAt := state.store.now }] }) ∨
    (∃ index request store after, event = .command index ∧
      state.requests[index]? = some request ∧ request.lost = false ∧
      request.Moves limit state.store store after ∧
      next = ⟨store, state.requests.set index after⟩) ∨
    (∃ index request, event = .crash index ∧ state.requests[index]? = some request ∧
      next = { state with
        requests := state.requests.set index { request with lost := true } }) ∨
    ∃ time, event = .tick time ∧ state.store.now ≤ time ∧
      next = { state with store := state.store.advance time } := by
  cases event with
  | start user =>
      cases hstep
      exact .inl ⟨user, rfl, rfl⟩
  | command index =>
      obtain ⟨request, hrequest, hmap⟩ := Option.bind_eq_some_iff.mp hstep
      obtain ⟨⟨store, after⟩, hadvance, rfl⟩ := Option.map_eq_some_iff.mp hmap
      obtain ⟨halive, hmoves⟩ := advance_moves hadvance
      exact .inr (.inl ⟨index, request, store, after, rfl, hrequest, halive, hmoves, rfl⟩)
  | crash index =>
      obtain ⟨request, hrequest, hcrash⟩ := Option.bind_eq_some_iff.mp hstep
      split_ifs at hcrash with hlost
      exact .inr (.inr (.inl ⟨index, request, rfl, hrequest, (Option.some.inj hcrash).symm⟩))
  | tick time =>
      rw [step] at hstep
      split_ifs at hstep with hlater
      exact .inr (.inr (.inr ⟨time, rfl, hlater, (Option.some.inj hstep).symm⟩))

end Steps

/-! ## What the requests of a minute are told -/

/-- The request has counted itself under this minute of the user. -/
def Request.Counted (user : Uuid) (window : ℕ) (request : Request) : Prop :=
  request.user = user ∧ request.window = window ∧ request.count ≠ none

/-- It was answered with a number within the limit. -/
def Request.Granted (limit : ℕ) (user : Uuid) (window : ℕ) (request : Request) : Prop :=
  request.user = user ∧ request.window = window ∧ ∃ count ∈ request.count, count ≤ (limit : ℤ)

instance (user : Uuid) (window : ℕ) : DecidablePred (Request.Counted user window) :=
  fun request => inferInstanceAs (Decidable (request.user = user ∧ request.window = window ∧
    request.count ≠ none))

instance (limit : ℕ) (user : Uuid) (window : ℕ) :
    DecidablePred (Request.Granted limit user window) :=
  fun request => inferInstanceAs (Decidable (request.user = user ∧ request.window = window ∧
    ∃ count ∈ request.count, count ≤ (limit : ℤ)))

def State.counted (state : State) (user : Uuid) (window : ℕ) : ℕ :=
  state.requests.countP fun request => request.Counted user window

def State.granted (limit : ℕ) (state : State) (user : Uuid) (window : ℕ) : ℕ :=
  state.requests.countP fun request => request.Granted limit user window

/-- A request counts itself ten seconds after its minute or later. -/
def Late (state : State) : Event → Prop
  | .command index => ∃ request ∈ state.requests[index]?, request.stage = .idle ∧
      60 * (request.window : ℚ) + 70 ≤ state.store.now
  | _ => False

instance (state : State) (event : Event) : Decidable (Late state event) := by
  unfold Late
  split <;> infer_instance

/-- What a request has been told fits to how far it has come. -/
def Request.Fits (limit : ℕ) (request : Request) : Prop :=
  match request.stage with
  | .idle => request.count = none
  | .first => request.count = some 1
  | .admitted => ∃ count ∈ request.count, count ≤ (limit : ℤ)
  | .refused => ∃ count ∈ request.count, (limit : ℤ) < count

/-- What holds in every state while no request counts itself late. -/
structure Sound (limit : ℕ) (state : State) : Prop where
  clock : 0 ≤ state.store.now
  read : ∀ request ∈ state.requests, 0 ≤ request.readAt ∧ request.readAt ≤ state.store.now
  fits : ∀ request ∈ state.requests, request.Fits limit
  dated : ∀ user, ∀ window : ℕ, ∀ cell ∈ state.store.cells (.requests user window),
    ∀ deadline ∈ cell.deadline, 60 * (window : ℚ) + 70 ≤ deadline
  value : ∀ user, ∀ window : ℕ, state.store.now < 60 * (window : ℚ) + 70 →
    state.store.value (.requests user window) = state.counted user window
  granted : ∀ user window,
    state.granted limit user window = min limit (state.counted user window)
  answers : ∀ request ∈ state.requests, ∀ count ∈ request.count,
    count ≤ (state.counted request.user request.window : ℤ)

theorem Request.window_le {request : Request} (hread : 0 ≤ request.readAt) :
    60 * (request.window : ℚ) ≤ request.readAt := by
  have hfloor := Nat.floor_le (div_nonneg hread (by norm_num : (0 : ℚ) ≤ 60))
  rw [Request.window]
  linarith [(le_div_iff₀ (by norm_num : (0 : ℚ) < 60)).mp hfloor]

section Invariant

variable {limit : ℕ} {state next : State} {event : Event} {request after : Request} {index : ℕ}

theorem sound_empty (limit : ℕ) : Sound limit {} where
  clock := le_refl 0
  read := by simp
  fits := by simp
  dated := by simp
  value := by simp [Store.value, State.counted]
  granted := by simp [State.granted, State.counted]
  answers := by simp

theorem verdict_fits {count : ℤ} {request : Request} (hcount : request.count = some count)
    (hstage : request.stage = verdict limit count) : request.Fits limit := by
  rw [Request.Fits, hstage, verdict]
  by_cases hfull : (limit : ℤ) < count
  · rw [if_pos hfull]
    exact ⟨count, hcount, hfull⟩
  · rw [if_neg hfull]
    exact ⟨count, hcount, not_lt.mp hfull⟩

/-- A request that changes only its stage and its answer. -/
structure Alike (request after : Request) : Prop where
  user : after.user = request.user
  readAt : after.readAt = request.readAt

theorem Alike.window (halike : Alike request after) : after.window = request.window := by
  rw [Request.window, halike.readAt, Request.window]

/-- A request that keeps its answer keeps the two numbers. -/
theorem counts_of_same (halike : Alike request after) (hcount : after.count = request.count)
    (hrequest : state.requests[index]? = some request) (store : Store Key) (user : Uuid)
    (window : ℕ) :
    State.counted ⟨store, state.requests.set index after⟩ user window =
        state.counted user window ∧
      State.granted limit ⟨store, state.requests.set index after⟩ user window =
        state.granted limit user window := by
  have hcounted := Positions.countP_set_add
    (fun request : Request => decide (request.Counted user window)) after hrequest
  have hgranted := Positions.countP_set_add
    (fun request : Request => decide (request.Granted limit user window)) after hrequest
  have hsameCounted : after.Counted user window ↔ request.Counted user window := by
    rw [Request.Counted, Request.Counted, halike.user, halike.window, hcount]
  have hsameGranted : after.Granted limit user window ↔ request.Granted limit user window := by
    rw [Request.Granted, Request.Granted, halike.user, halike.window, hcount]
  simp only [hsameCounted] at hcounted
  simp only [hsameGranted] at hgranted
  exact ⟨Nat.add_right_cancel hcounted, Nat.add_right_cancel hgranted⟩

theorem Sound.read_set (hsound : Sound limit state) (halike : Alike request after)
    (hrequest : state.requests[index]? = some request) :
    ∀ other ∈ state.requests.set index after,
      0 ≤ other.readAt ∧ other.readAt ≤ state.store.now := by
  intro other hother
  cases List.mem_or_eq_of_mem_set hother with
  | inl hold => exact hsound.read other hold
  | inr hnew =>
      rw [hnew, halike.readAt]
      exact hsound.read request (List.mem_of_getElem? hrequest)

theorem fits_set (hsound : Sound limit state) (hfits : after.Fits limit) :
    ∀ other ∈ state.requests.set index after, other.Fits limit := by
  intro other hother
  cases List.mem_or_eq_of_mem_set hother with
  | inl hold => exact hsound.fits other hold
  | inr hnew => exact hnew ▸ hfits

theorem Sound.answers_set (hsound : Sound limit state) (halike : Alike request after)
    (hcount : after.count = request.count) (hrequest : state.requests[index]? = some request)
    {store : Store Key} : ∀ other ∈ state.requests.set index after, ∀ count ∈ other.count,
      count ≤ (State.counted ⟨store, state.requests.set index after⟩ other.user
        other.window : ℤ) := by
  intro other hother count hanswer
  rw [(@counts_of_same limit state request after index halike hcount hrequest store other.user
    other.window).1]
  cases List.mem_or_eq_of_mem_set hother with
  | inl hold => exact hsound.answers other hold count hanswer
  | inr hnew =>
      rw [hnew, hcount] at hanswer
      rw [hnew, halike.user, halike.window]
      exact hsound.answers request (List.mem_of_getElem? hrequest) count hanswer

theorem Sound.start (hsound : Sound limit state) (user : Uuid) :
    Sound limit { state with
      requests := state.requests ++ [{ user := user, readAt := state.store.now }] } := by
  have hcounts : ∀ other window,
      State.counted { state with
        requests := state.requests ++ [{ user := user, readAt := state.store.now }] }
          other window = state.counted other window ∧
      State.granted limit { state with
        requests := state.requests ++ [{ user := user, readAt := state.store.now }] }
          other window = state.granted limit other window := by
    intro other window
    simp [State.counted, State.granted, Request.Counted, Request.Granted]
  refine ⟨hsound.clock, ?_, ?_, hsound.dated, ?_, ?_, ?_⟩
  · intro request hrequest
    cases List.mem_append.mp hrequest with
    | inl hold => exact hsound.read request hold
    | inr hnew =>
        rw [List.mem_singleton.mp hnew]
        exact ⟨hsound.clock, le_refl _⟩
  · intro request hrequest
    cases List.mem_append.mp hrequest with
    | inl hold => exact hsound.fits request hold
    | inr hnew =>
        rw [List.mem_singleton.mp hnew]
        rfl
  · intro other window hbefore
    rw [(hcounts other window).1]
    exact hsound.value other window hbefore
  · intro other window
    rw [(hcounts other window).1, (hcounts other window).2]
    exact hsound.granted other window
  · intro request hrequest count hcount
    rw [(hcounts request.user request.window).1]
    cases List.mem_append.mp hrequest with
    | inl hold => exact hsound.answers request hold count hcount
    | inr hnew =>
        rw [List.mem_singleton.mp hnew] at hcount
        cases hcount

theorem Sound.crash (hsound : Sound limit state) (hrequest : state.requests[index]? = some request) :
    Sound limit { state with
      requests := state.requests.set index { request with lost := true } } := by
  have halike : Alike request { request with lost := true } := ⟨rfl, rfl⟩
  have hcounts := @counts_of_same limit state request _ index halike rfl hrequest state.store
  have hfits := hsound.fits request (List.mem_of_getElem? hrequest)
  refine ⟨hsound.clock, hsound.read_set halike hrequest, fits_set hsound hfits, hsound.dated,
    ?_, ?_, hsound.answers_set halike rfl hrequest⟩
  · intro user window hbefore
    rw [(hcounts user window).1]
    exact hsound.value user window hbefore
  · intro user window
    rw [(hcounts user window).1, (hcounts user window).2]
    exact hsound.granted user window

theorem Sound.tick (hsound : Sound limit state) {time : ℚ} (hlater : state.store.now ≤ time) :
    Sound limit { state with store := state.store.advance time } := by
  refine ⟨hsound.clock.trans hlater, ?_, hsound.fits, ?_, ?_, hsound.granted, hsound.answers⟩
  · intro request hrequest
    obtain ⟨hread, hpast⟩ := hsound.read request hrequest
    exact ⟨hread, hpast.trans hlater⟩
  · intro user window cell hcell
    obtain ⟨held, hheld, hkept⟩ := Option.bind_eq_some_iff.mp hcell
    rw [(Store.keep_eq_some_iff.mp hkept).1.symm]
    exact hsound.dated user window held hheld
  · intro user window hbefore
    have hbefore' : time < 60 * (window : ℚ) + 70 := hbefore
    have hkept : ¬ state.store.Expires time (.requests user window) := by
      intro hexpires
      obtain ⟨cell, deadline, hcell, hdeadline, hdue⟩ := hexpires
      have hdated := hsound.dated user window cell hcell deadline hdeadline
      linarith
    have hvalue := Store.advance_value_of_not_expires hkept
    rw [hvalue]
    exact hsound.value user window (lt_of_le_of_lt hlater hbefore')

theorem Sound.expire (hsound : Sound limit state) (hfirst : request.stage = .first)
    (hrequest : state.requests[index]? = some request) :
    Sound limit ⟨state.store.expire request.key 70,
      state.requests.set index { request with stage := verdict limit 1 }⟩ := by
  have hmem := List.mem_of_getElem? hrequest
  have halike : Alike request { request with stage := verdict limit 1 } := ⟨rfl, rfl⟩
  have hcounts := @counts_of_same limit state request _ index halike rfl hrequest
    (state.store.expire request.key 70)
  have hcount : request.count = some 1 := by
    have hfits := hsound.fits request hmem
    rw [Request.Fits, hfirst] at hfits
    exact hfits
  refine ⟨?_, ?_, fits_set hsound (verdict_fits hcount rfl), ?_, ?_, ?_,
    hsound.answers_set halike rfl hrequest⟩
  · rw [Store.expire_now]
    exact hsound.clock
  · rw [Store.expire_now]
    exact hsound.read_set halike hrequest
  · intro user window cell hcell deadline hdeadline
    by_cases hkey : Key.requests user window = request.key
    · rw [hkey, Store.expire_cells_self] at hcell
      obtain ⟨held, _, rfl⟩ := Option.map_eq_some_iff.mp hcell
      obtain ⟨_, hwindow⟩ := Key.requests.inj hkey
      obtain ⟨hread, hpast⟩ := hsound.read request hmem
      have hminute := Request.window_le hread
      rw [← Option.some.inj hdeadline, hwindow]
      push_cast
      linarith
    · rw [Store.expire_cells_of_ne hkey] at hcell
      exact hsound.dated user window cell hcell deadline hdeadline
  · intro user window hbefore
    rw [Store.expire_now] at hbefore
    rw [Store.expire_value, (hcounts user window).1]
    exact hsound.value user window hbefore
  · intro user window
    rw [(hcounts user window).1, (hcounts user window).2]
    exact hsound.granted user window

/-- One more request has counted itself. -/
theorem counts_told (hcount : request.count = none)
    (hrequest : state.requests[index]? = some request) (store : Store Key) (count : ℤ)
    (user : Uuid) (window : ℕ) :
    State.counted ⟨store, state.requests.set index (request.told limit count)⟩ user window =
        state.counted user window +
          (if request.user = user ∧ request.window = window then 1 else 0) ∧
      State.granted limit ⟨store, state.requests.set index (request.told limit count)⟩
          user window = state.granted limit user window +
          (if request.user = user ∧ request.window = window ∧ count ≤ limit then 1 else 0) := by
  have hcounted := Positions.countP_set_add
    (fun request : Request => decide (request.Counted user window))
    (request.told limit count) hrequest
  have hgranted := Positions.countP_set_add
    (fun request : Request => decide (request.Granted limit user window))
    (request.told limit count) hrequest
  have hwindow : (request.told limit count).window = request.window := rfl
  have huser : (request.told limit count).user = request.user := rfl
  have hanswer : (request.told limit count).count = some count := rfl
  simp only [Request.Counted, hwindow, huser, hanswer, hcount, ne_eq, not_true_eq_false,
    and_false, decide_false, Bool.false_eq_true, if_false, Nat.add_zero, decide_eq_true_eq,
    reduceCtorEq, not_false_eq_true, and_true] at hcounted
  simp only [Request.Granted, hwindow, huser, hanswer, hcount, Option.mem_def, reduceCtorEq,
    false_and, exists_false, and_false, decide_false, Bool.false_eq_true, if_false,
    Nat.add_zero, decide_eq_true_eq, Option.some.injEq, exists_eq_left'] at hgranted
  exact ⟨hcounted, hgranted⟩

theorem told_fits (count : ℤ) : (request.told limit count).Fits limit := by
  by_cases hone : count = 1
  · rw [Request.told, Request.Fits, hone]
    rfl
  · exact verdict_fits rfl (if_neg hone)

theorem Sound.count (hsound : Sound limit state) (hidle : request.stage = .idle)
    (hrequest : state.requests[index]? = some request)
    (hearly : state.store.now < 60 * (request.window : ℚ) + 70) :
    Sound limit ⟨state.store.add request.key 1,
      state.requests.set index (request.told limit (state.store.value request.key + 1))⟩ := by
  have hmem := List.mem_of_getElem? hrequest
  have hcount : request.count = none := by
    have hfits := hsound.fits request hmem
    rw [Request.Fits, hidle] at hfits
    exact hfits
  have hvalue : state.store.value request.key = state.counted request.user request.window :=
    hsound.value request.user request.window hearly
  have halike : Alike request (request.told limit (state.store.value request.key + 1)) :=
    ⟨rfl, rfl⟩
  have hcounts := @counts_told limit state request index hcount hrequest
    (state.store.add request.key 1) (state.store.value request.key + 1)
  refine ⟨hsound.clock, hsound.read_set halike hrequest, fits_set hsound (told_fits _), ?_, ?_,
    ?_, ?_⟩
  · intro user window cell hcell deadline hdeadline
    by_cases hkey : Key.requests user window = request.key
    · rw [hkey, Store.add_cells_self] at hcell
      cases hcell
      obtain ⟨held, hheld, hdeadline⟩ := Option.bind_eq_some_iff.mp hdeadline
      rw [← hkey] at hheld
      exact hsound.dated user window held hheld deadline hdeadline
    · rw [Store.add, Store.put_of_ne hkey] at hcell
      exact hsound.dated user window cell hcell deadline hdeadline
  · intro user window hbefore
    rw [(hcounts user window).1]
    by_cases hkey : Key.requests user window = request.key
    · obtain ⟨huser, hwindow⟩ := Key.requests.inj hkey
      rw [hkey, Store.add_value_self, hvalue, if_pos ⟨huser.symm, hwindow.symm⟩, huser, hwindow]
      push_cast
      rfl
    · have hother : ¬ (request.user = user ∧ request.window = window) := by
        intro hboth
        rw [← hboth.1, ← hboth.2] at hkey
        exact hkey rfl
      have hsame : (state.store.add request.key 1).value (.requests user window) =
          state.store.value (.requests user window) := by
        rw [Store.value, Store.add, Store.put_of_ne hkey, Store.value]
      rw [hsame, if_neg hother, Nat.add_zero]
      exact hsound.value user window hbefore
  · intro user window
    have hgranted := hsound.granted user window
    rw [(hcounts user window).1, (hcounts user window).2, hgranted, hvalue]
    by_cases hmine : request.user = user ∧ request.window = window
    · obtain ⟨huser, hwindow⟩ := hmine
      simp only [huser, hwindow, true_and, if_true]
      split_ifs with hwithin
      · omega
      · omega
    · have hnone : ¬ (request.user = user ∧ request.window = window ∧
          (state.counted request.user request.window : ℤ) + 1 ≤ limit) :=
        fun hall => hmine ⟨hall.1, hall.2.1⟩
      rw [if_neg hmine, if_neg hnone, Nat.add_zero, Nat.add_zero]
  · intro other hother count hanswer
    rw [(hcounts other.user other.window).1]
    cases List.mem_or_eq_of_mem_set hother with
    | inl hold =>
        have hle := hsound.answers other hold count hanswer
        push_cast
        omega
    | inr hnew =>
        rw [hnew, Request.told, hvalue] at hanswer
        rw [hnew, ← Option.some.inj hanswer, if_pos ⟨rfl, rfl⟩]
        exact le_refl _

theorem Sound.step (hsound : Sound limit state) (hstep : step limit state event = some next)
    (hearly : ¬ Late state event) : Sound limit next := by
  rcases step_cases hstep with ⟨user, rfl, rfl⟩ |
    ⟨index, request, store, after, rfl, hrequest, _, hmoves, rfl⟩ |
    ⟨index, request, rfl, hrequest, rfl⟩ | ⟨time, rfl, hlater, rfl⟩
  · exact hsound.start user
  · cases hmoves with
    | count hidle =>
        refine hsound.count hidle hrequest ?_
        by_contra hlate
        exact hearly ⟨request, hrequest, hidle, not_lt.mp hlate⟩
    | expire hfirst => exact hsound.expire hfirst hrequest
  · exact hsound.crash hrequest
  · exact hsound.tick hlater

end Invariant

/-! ## Runs -/

section Runs

variable {limit : ℕ} {events : List Event} {state : State}

theorem run_sound (hrun : exec (step limit) {} events = some state)
    (hearly : ¬ Occurs (step limit) {} events Late) : Sound limit state := by
  apply exec_unless (motive := Sound limit) (sound_empty limit) ?_ hrun hearly
  intro _ before event next _ hsound hstep hnone
  exact hsound.step hstep hnone

/-- The requests of the user that were let through and had read a time of this kind. -/
def State.admitted (state : State) (user : Uuid) (times : ℚ → Prop) [DecidablePred times] : ℕ :=
  state.requests.countP fun request =>
    request.user = user ∧ request.stage = .admitted ∧ times request.readAt

/-- A request is refused only when the minute is used up. -/
theorem Sound.refused (hsound : Sound limit state) {request : Request}
    (hrequest : request ∈ state.requests) (hrefused : request.stage = .refused) :
    state.granted limit request.user request.window = limit := by
  have hfits := hsound.fits request hrequest
  rw [Request.Fits, hrefused] at hfits
  obtain ⟨count, hcount, habove⟩ := hfits
  have hle := hsound.answers request hrequest count hcount
  rw [hsound.granted]
  omega

/-- Once all requests of the minute have their answer, as many as the limit allows have been
let through. -/
theorem Sound.settled (hsound : Sound limit state) {user : Uuid} {window : ℕ}
    (hsettled : ∀ request ∈ state.requests, request.user = user → request.window = window →
      request.stage = .admitted ∨ request.stage = .refused) :
    (state.admitted user fun time => ⌊time / 60⌋₊ = window) =
      min limit (state.requests.countP fun request =>
        request.user = user ∧ request.window = window) := by
  have hgranted := hsound.granted user window
  have hadmitted : (state.admitted user fun time => ⌊time / 60⌋₊ = window) =
      state.granted limit user window := by
    apply List.countP_congr
    intro request hrequest
    rw [decide_eq_true_iff, decide_eq_true_iff]
    have hfits := hsound.fits request hrequest
    constructor
    · intro hthrough
      obtain ⟨huser, hstage, hwindow⟩ := hthrough
      rw [Request.Fits, hstage] at hfits
      exact ⟨huser, hwindow, hfits⟩
    · intro hwithin
      obtain ⟨huser, hwindow, count, hcount, hle⟩ := hwithin
      refine ⟨huser, ?_, hwindow⟩
      cases hsettled request hrequest huser hwindow with
      | inl hstage => exact hstage
      | inr hstage =>
          rw [Request.Fits, hstage] at hfits
          obtain ⟨answer, hanswer, habove⟩ := hfits
          rw [hcount] at hanswer
          cases hanswer
          omega
  have hcounted : state.counted user window = state.requests.countP fun request =>
      request.user = user ∧ request.window = window := by
    apply List.countP_congr
    intro request hrequest
    rw [decide_eq_true_iff, decide_eq_true_iff]
    have hfits := hsound.fits request hrequest
    constructor
    · exact fun hall => ⟨hall.1, hall.2.1⟩
    · intro hmine
      refine ⟨hmine.1, hmine.2, ?_⟩
      intro hnone
      cases hsettled request hrequest hmine.1 hmine.2 with
      | inl hstage =>
          rw [Request.Fits, hstage, hnone] at hfits
          obtain ⟨_, hcount, _⟩ := hfits
          cases hcount
      | inr hstage =>
          rw [Request.Fits, hstage, hnone] at hfits
          obtain ⟨_, hcount, _⟩ := hfits
          cases hcount
  rw [hadmitted, hgranted, hcounted]

end Runs

/-! ## A run -/

/-- Three requests in one minute under a limit of two, the first of which sets the deadline
late; one more in the next minute, after a crash. -/
def sampleEvents : List Event :=
  [.tick 50, .start 1, .start 1, .command 0, .tick 59, .start 1, .command 2, .tick 64,
    .command 0, .command 1, .start 1, .crash 3, .start 1, .command 4, .command 4]

theorem sample_runs : ∃ state, exec (step 2) {} sampleEvents = some state ∧
    state.requests.map Request.stage = [.admitted, .refused, .admitted, .idle, .admitted] := by
  have hstages : (exec (step 2) {} sampleEvents).map
      (fun state => state.requests.map Request.stage) =
        some [.admitted, .refused, .admitted, .idle, .admitted] := by
    decide +kernel
  exact Option.map_eq_some_iff.mp hstages

/-- A request that counts itself seventy seconds after the first one finds the counter gone:
three requests are let through in one minute that allows two. -/
example : (exec (step 2) {} [.start 1, .start 1, .start 1, .command 0, .command 0, .command 1,
    .tick 70, .command 2, .command 2]).map (fun state => state.requests.map Request.stage) =
      some [.admitted, .admitted, .admitted] := by
  decide +kernel

end AgenticRag.Minutes
