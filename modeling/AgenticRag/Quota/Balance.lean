import AgenticRag.Quota.Slots

/-!
# The counters and the slots

A counter that is not lost while increments are outstanding is the number of the
granted slots and of the rejected attempts that have yet to take theirs back.
-/

namespace AgenticRag.Quota

open Counters

variable {settings : QuotaSettings}

namespace QuotaState

/-- The calls of this kind on a slot. -/
def count (state : QuotaState) (kind : Call → Prop) [DecidablePred kind] (slot : Slot) : ℕ :=
  state.calls.countP fun call => call.slot = slot ∧ kind call

/-- The granted and unreleased slots. -/
def granted (settings : QuotaSettings) (state : QuotaState) (slot : Slot) : ℕ :=
  state.count (Call.Granted settings) slot

/-- The rejected attempts whose decrement is pending. -/
def pending (settings : QuotaSettings) (state : QuotaState) (slot : Slot) : ℕ :=
  state.count (Call.Pending settings) slot

variable {state : QuotaState} {kind : Call → Prop} [DecidablePred kind] {slot : Slot}

theorem count_pos_iff :
    0 < state.count kind slot ↔ ∃ call ∈ state.calls, call.slot = slot ∧ kind call := by
  simp [count]

theorem count_eq_zero_iff :
    state.count kind slot = 0 ↔ ∀ call ∈ state.calls, call.slot = slot → ¬ kind call := by
  simp [count]

theorem count_start {call : Call} (hkind : ¬ kind call) (store : Store Slot) :
    count ⟨store, state.calls ++ [call]⟩ kind slot = state.count kind slot := by
  simp [count, hkind]

/-- One call changes, on its own slot. -/
theorem count_set {index : ℕ} {call : Call} (hcall : state.calls[index]? = some call)
    (store : Store Slot) (kind : Call → Prop) [DecidablePred kind] (slot : Slot) (after : Call) :
    count ⟨store, state.calls.set index after⟩ kind slot +
        (if call.slot = slot ∧ kind call then 1 else 0) =
      state.count kind slot + (if after.slot = slot ∧ kind after then 1 else 0) := by
  obtain ⟨hlength, hget⟩ := List.getElem?_eq_some_iff.mp hcall
  have hset := List.countP_set (p := fun call => decide (call.slot = slot ∧ kind call))
    (a := after) hlength
  have hhere : call.slot = slot ∧ kind call →
      0 < state.calls.countP fun call => decide (call.slot = slot ∧ kind call) := by
    intro hkind
    exact count_pos_iff.mpr ⟨call, List.mem_of_getElem? hcall, hkind⟩
  rw [hget] at hset
  simp only [decide_eq_true_eq] at hset
  rw [count, count, hset]
  by_cases hkind : call.slot = slot ∧ kind call
  · have hpositive := hhere hkind
    rw [if_pos hkind]
    omega
  · rw [if_neg hkind]
    omega

end QuotaState

/-- The call has taken its slot and given it back, or was refused. -/
def Call.Finished (call : Call) : Prop :=
  call.phase = .rejected ∨ call.phase = .released

/-- The slot was acquired and its release has not begun. -/
def Call.Held (call : Call) : Prop :=
  call.phase = .holding

/-- The call has counted itself and its acquire has not come to an end. -/
def Call.Acquiring (call : Call) : Prop :=
  call.phase ≠ .idle ∧ call.phase.Acquires

instance : DecidablePred Call.Held := fun call =>
  inferInstanceAs (Decidable (call.phase = .holding))

instance : DecidablePred Call.Acquiring := fun call =>
  inferInstanceAs (Decidable (call.phase ≠ .idle ∧ call.phase.Acquires))

/-- What the quota layer promises in a state. -/
structure Sound (settings : QuotaSettings) (state : QuotaState) : Prop where
  bounded : ∀ slot, state.granted settings slot ≤ slot.limit settings
  counter : ∀ slot, state.store.value slot =
    state.granted settings slot + state.pending settings slot
  unclamped : ∀ call ∈ state.calls, call.phase ≠ .clamping
  quiet : (∀ call ∈ state.calls, call.Finished) → ∀ slot, state.store.value slot = 0

/-- The counter of such a call expires. -/
def ExpiresUnder (kind : Call → Prop) (state : QuotaState) : Event → Prop
  | .tick time => ∃ call ∈ state.calls, kind call ∧ state.store.Expires time call.slot
  | _ => False

instance (kind : Call → Prop) [DecidablePred kind] (state : QuotaState) (event : Event) :
    Decidable (ExpiresUnder kind state event) := by
  unfold ExpiresUnder
  split <;> infer_instance

/-- A counter expires while a slot on it is held. -/
abbrev ExpiresHeld : QuotaState → Event → Prop :=
  ExpiresUnder Call.Held

/-- A counter expires in the middle of an acquire. -/
abbrev ExpiresAcquiring : QuotaState → Event → Prop :=
  ExpiresUnder Call.Acquiring

/-! ## One command -/

section Commands

variable {state : QuotaState} {store next : Store Slot} {call after : Call}

theorem Call.Finished.not_granted (hfinished : call.Finished) : ¬ call.Granted settings := by
  rcases hfinished with hphase | hphase <;> simp [Call.Granted, hphase]

theorem Call.Finished.not_pending (hfinished : call.Finished) : ¬ call.Pending settings := by
  rcases hfinished with hphase | hphase <;> simp [Call.Pending, hphase]

/-- Every increment that counts is that of a held slot or of an acquire. -/
theorem Call.granted_or_pending_iff :
    call.Granted settings ∨ call.Pending settings ↔ call.Held ∨ call.Acquiring := by
  rw [Call.Granted, Call.Pending, Call.Held, Call.Acquiring]
  cases hphase : call.phase with
  | counted current => simp [Phase.Acquires, le_or_gt]
  | idle => simp
  | refused => simp [Phase.Acquires]
  | rejected => simp [Phase.Acquires]
  | holding => simp
  | clamping => simp [Phase.Acquires]
  | released => simp [Phase.Acquires]

/-- When all calls have finished, an exact counter is zero. -/
theorem Sound.of_exact (hbounded : ∀ slot, state.granted settings slot ≤ slot.limit settings)
    (hcounter : ∀ slot, state.store.value slot =
      state.granted settings slot + state.pending settings slot)
    (hunclamped : ∀ call ∈ state.calls, call.phase ≠ .clamping) : Sound settings state where
  bounded := hbounded
  counter := hcounter
  unclamped := hunclamped
  quiet hall slot := by
    have hgranted : state.granted settings slot = 0 :=
      QuotaState.count_eq_zero_iff.mpr fun call hcall _ => (hall call hcall).not_granted
    have hpending : state.pending settings slot = 0 :=
      QuotaState.count_eq_zero_iff.mpr fun call hcall _ => (hall call hcall).not_pending
    rw [hcounter, hgranted, hpending]
    rfl

theorem Call.Moves.slot_eq (hmoves : call.Moves settings store next after) :
    after.slot = call.slot := by
  cases hmoves <;> rfl

theorem Call.Moves.now_eq (hmoves : call.Moves settings store next after) :
    next.now = store.now := by
  cases hmoves with
  | count hphase => rfl
  | refuse current hphase hfull => exact Store.expire_now inflightTtl
  | grant current hphase hfree => exact Store.expire_now inflightTtl
  | takeBack hphase => rfl
  | release hphase hpositive => rfl
  | underflow hphase hbelow => rfl
  | clamp hphase => rfl

/-- A command leaves the other keys alone. -/
theorem Call.Moves.cells_of_ne (hmoves : call.Moves settings store next after) {slot : Slot}
    (hne : slot ≠ call.slot) : next.cells slot = store.cells slot := by
  cases hmoves with
  | count hphase => exact Store.put_of_ne hne _
  | refuse current hphase hfull => exact Store.expire_cells_of_ne hne inflightTtl
  | grant current hphase hfree => exact Store.expire_cells_of_ne hne inflightTtl
  | takeBack hphase => exact Store.put_of_ne hne _
  | release hphase hpositive => exact Store.put_of_ne hne _
  | underflow hphase hbelow => exact Store.put_of_ne hne _
  | clamp hphase => exact Store.put_of_ne hne _

theorem Call.Moves.value_of_ne (hmoves : call.Moves settings store next after) {slot : Slot}
    (hne : slot ≠ call.slot) : next.value slot = store.value slot := by
  rw [Store.value, Store.value, hmoves.cells_of_ne hne]

/-- What a command does to the counter it does to the share of its call, and it
grants a slot only below the limit. -/
theorem Call.Moves.balance (hmoves : call.Moves settings store next after)
    (hclamping : call.phase ≠ .clamping)
    (hcounted : call.Granted settings → 1 ≤ store.value call.slot) :
    after.phase ≠ .clamping ∧
      next.value call.slot + ((if call.Granted settings then 1 else 0) +
          (if call.Pending settings then 1 else 0)) =
        store.value call.slot + ((if after.Granted settings then 1 else 0) +
          (if after.Pending settings then 1 else 0)) ∧
      (after.Granted settings → ¬ call.Granted settings →
        store.value call.slot < call.slot.limit settings) := by
  cases hmoves with
  | count hphase =>
      by_cases hfree : store.value call.slot + 1 ≤ call.slot.limit settings
      · simp [Call.Granted, Call.Pending, hphase, hfree, not_lt.mpr hfree]
        omega
      · simp [Call.Granted, Call.Pending, hphase, hfree, not_le.mp hfree]
  | refuse current hphase hfull =>
      simp [Call.Granted, Call.Pending, hphase, hfull, not_le.mpr hfull]
  | grant current hphase hfree =>
      simp [Call.Granted, Call.Pending, hphase, hfree, not_lt.mpr hfree]
  | takeBack hphase => simp [Call.Granted, Call.Pending, hphase]
  | release hphase hpositive => simp [Call.Granted, Call.Pending, hphase]
  | underflow hphase hbelow =>
      have hpositive := hcounted (by simp [Call.Granted, hphase])
      omega
  | clamp hphase => exact absurd hphase hclamping

end Commands

/-! ## One step, one run -/

section Steps

variable {state next : QuotaState} {event : Event}

theorem Sound.start (hsound : Sound settings state) (slot : Slot) :
    Sound settings { state with calls := state.calls ++ [{ slot }] } := by
  have hgranted : ∀ other, QuotaState.granted settings
      { state with calls := state.calls ++ [{ slot }] } other = state.granted settings other :=
    fun other => QuotaState.count_start (by simp [Call.Granted]) _
  have hpending : ∀ other, QuotaState.pending settings
      { state with calls := state.calls ++ [{ slot }] } other = state.pending settings other :=
    fun other => QuotaState.count_start (by simp [Call.Pending]) _
  apply Sound.of_exact
  · intro other
    rw [hgranted]
    exact hsound.bounded other
  · intro other
    rw [hgranted, hpending]
    exact hsound.counter other
  · intro call hcall
    rcases List.mem_append.mp hcall with hold | hnew
    · exact hsound.unclamped call hold
    · rw [List.mem_singleton.mp hnew]
      simp

theorem Sound.command (hsound : Sound settings state) {index : ℕ} {call after : Call}
    {store : Store Slot} (hcall : state.calls[index]? = some call)
    (hmoves : call.Moves settings state.store store after) :
    Sound settings ⟨store, state.calls.set index after⟩ := by
  have hmem := List.mem_of_getElem? hcall
  have hcounted : call.Granted settings → 1 ≤ state.store.value call.slot := by
    intro hgranted
    have hpositive : 0 < state.granted settings call.slot :=
      QuotaState.count_pos_iff.mpr ⟨call, hmem, rfl, hgranted⟩
    have hcounter := hsound.counter call.slot
    omega
  obtain ⟨hclamping, hbalance, hgrant⟩ := hmoves.balance (hsound.unclamped call hmem) hcounted
  have hgranted := fun slot =>
    QuotaState.count_set hcall store (Call.Granted settings) slot after
  have hpending := fun slot =>
    QuotaState.count_set hcall store (Call.Pending settings) slot after
  rw [hmoves.slot_eq] at hgranted hpending
  apply Sound.of_exact
  · intro slot
    have hcount := hgranted slot
    have hbounded := hsound.bounded slot
    have hcounter := hsound.counter slot
    rw [QuotaState.granted] at hbounded hcounter ⊢
    by_cases hsame : call.slot = slot
    · subst hsame
      simp only [true_and] at hcount
      by_cases hafter : after.Granted settings
      · by_cases hbefore : call.Granted settings
        · rw [if_pos hbefore, if_pos hafter] at hcount
          omega
        · have hbelow := hgrant hafter hbefore
          rw [if_neg hbefore, if_pos hafter] at hcount
          omega
      · rw [if_neg hafter] at hcount
        omega
    · simp only [hsame, false_and, if_false, Nat.add_zero] at hcount
      omega
  · intro slot
    have hone := hgranted slot
    have htwo := hpending slot
    have hcounter := hsound.counter slot
    rw [QuotaState.granted, QuotaState.pending] at hcounter ⊢
    by_cases hsame : call.slot = slot
    · subst hsame
      simp only [true_and] at hone htwo
      change store.value call.slot = _
      split_ifs at hone htwo hbalance <;> omega
    · simp only [hsame, false_and, if_false, Nat.add_zero] at hone htwo
      rw [hone, htwo, ← hcounter]
      exact hmoves.value_of_ne (Ne.symm hsame)
  · intro other hother
    rcases List.mem_or_eq_of_mem_set hother with hold | rfl
    · exact hsound.unclamped other hold
    · exact hclamping

theorem Sound.crash (hsound : Sound settings state) {index : ℕ} {call : Call}
    (hcall : state.calls[index]? = some call) :
    Sound settings { state with
      calls := state.calls.set index { call with ended := some state.store.now } } := by
  have hmem := List.mem_of_getElem? hcall
  have hgranted := fun slot => QuotaState.count_set hcall state.store
    (Call.Granted settings) slot { call with ended := some state.store.now }
  have hpending := fun slot => QuotaState.count_set hcall state.store
    (Call.Pending settings) slot { call with ended := some state.store.now }
  apply Sound.of_exact
  · intro slot
    have hsame := Nat.add_right_cancel (hgranted slot)
    exact hsame.trans_le (hsound.bounded slot)
  · intro slot
    have hone := Nat.add_right_cancel (hgranted slot)
    have htwo := Nat.add_right_cancel (hpending slot)
    rw [QuotaState.granted, QuotaState.pending, hone, htwo]
    exact hsound.counter slot
  · intro other hother
    rcases List.mem_or_eq_of_mem_set hother with hold | rfl
    · exact hsound.unclamped other hold
    · exact hsound.unclamped call hmem

/-- A key may expire when nothing is outstanding on it. -/
theorem Sound.tick (hsound : Sound settings state) {time : ℚ}
    (hidle : ∀ slot, state.store.Expires time slot →
      state.granted settings slot = 0 ∧ state.pending settings slot = 0) :
    Sound settings { state with store := state.store.advance time } := by
  apply Sound.of_exact
  · exact hsound.bounded
  · intro slot
    change (state.store.advance time).value slot =
      state.granted settings slot + state.pending settings slot
    by_cases hexpires : state.store.Expires time slot
    · obtain ⟨hgranted, hpending⟩ := hidle slot hexpires
      calc (state.store.advance time).value slot
          = 0 := Store.advance_value_of_expires hexpires
        _ = state.granted settings slot + state.pending settings slot := by
            rw [hgranted, hpending]
            rfl
    · calc (state.store.advance time).value slot
          = state.store.value slot := Store.advance_value_of_not_expires hexpires
        _ = state.granted settings slot + state.pending settings slot := hsound.counter slot
  · exact hsound.unclamped

theorem Sound.step (hsound : Sound settings state)
    (hstep : step settings state event = some next)
    (hheld : ¬ ExpiresHeld state event) (hacquiring : ¬ ExpiresAcquiring state event) :
    Sound settings next := by
  rcases step_cases hstep with ⟨slot, rfl, rfl⟩ | ⟨index, call, store, after, rfl, hcall, _,
    hmoves, rfl⟩ | ⟨index, call, rfl, hcall, _, rfl⟩ | ⟨time, rfl, _, rfl⟩
  · exact hsound.start slot
  · exact hsound.command hcall hmoves
  · exact hsound.crash hcall
  · apply hsound.tick
    intro slot hexpires
    have hidle : ∀ call ∈ state.calls, call.slot = slot →
        ¬ (call.Granted settings ∨ call.Pending settings) := by
      rintro call hcall rfl houtstanding
      rcases Call.granted_or_pending_iff.mp houtstanding with hphase | hphase
      · exact hheld ⟨call, hcall, hphase, hexpires⟩
      · exact hacquiring ⟨call, hcall, hphase, hexpires⟩
    constructor
    · exact QuotaState.count_eq_zero_iff.mpr fun call hcall hslot hgranted =>
        hidle call hcall hslot (Or.inl hgranted)
    · exact QuotaState.count_eq_zero_iff.mpr fun call hcall hslot hpending =>
        hidle call hcall hslot (Or.inr hpending)

theorem sound_start : Sound settings {} := by
  apply Sound.of_exact
  · intro slot
    exact Nat.zero_le _
  · intro slot
    rfl
  · intro call hcall
    cases hcall

/-- An expiry in the middle of an acquire makes the counter wrong. -/
theorem not_sound_of_expiresAcquiring (hstep : Quota.step settings state event = some next)
    (hexpires : ExpiresAcquiring state event) : ¬ Sound settings next := by
  intro hsound
  rcases step_cases hstep with ⟨_, rfl, _⟩ | ⟨_, _, _, _, rfl, _⟩ | ⟨_, _, rfl, _⟩ |
    ⟨time, rfl, _, rfl⟩
  · exact hexpires
  · exact hexpires
  · exact hexpires
  · obtain ⟨call, hcall, hacquiring, hkey⟩ := hexpires
    have hpositive : 0 < state.granted settings call.slot +
        state.pending settings call.slot := by
      rcases Call.granted_or_pending_iff.mpr (Or.inr hacquiring) with hgranted | hpending
      · exact Nat.add_pos_left
          (QuotaState.count_pos_iff.mpr ⟨call, hcall, rfl, hgranted⟩) _
      · exact Nat.add_pos_right _
          (QuotaState.count_pos_iff.mpr ⟨call, hcall, rfl, hpending⟩)
    have hcounter : (state.store.advance time).value call.slot =
        state.granted settings call.slot + state.pending settings call.slot :=
      hsound.counter call.slot
    rw [Store.advance_value_of_expires hkey] at hcounter
    omega

end Steps

/-- Without an expiry under an outstanding increment every run keeps the promises. -/
theorem run_sound {events : List Event} {state : QuotaState}
    (hrun : run settings events = some state)
    (hheld : ¬ Transition.Occurs (step settings) {} events ExpiresHeld)
    (hacquiring : ¬ Transition.Occurs (step settings) {} events ExpiresAcquiring) :
    Sound settings state := by
  apply Transition.exec_unless (motive := Sound settings) sound_start ?_ hrun
    (fun hoccurs => (Transition.occurs_or.mp hoccurs).elim hheld hacquiring)
  intro past state event next _ hsound hstep hnone
  obtain ⟨hheld, hacquiring⟩ := not_or.mp hnone
  exact hsound.step hstep hheld hacquiring

/-- When no key expires under a held slot, the quota layer keeps its promises along
a run exactly when no key expires in the middle of an acquire either. -/
theorem run_sound_iff {events : List Event} {state : QuotaState}
    (hrun : run settings events = some state)
    (hheld : ¬ Transition.Occurs (step settings) {} events ExpiresHeld) :
    (∀ past reached, past <+: events → run settings past = some reached →
        Sound settings reached) ↔
      ¬ Transition.Occurs (step settings) {} events ExpiresAcquiring := by
  apply Transition.always_iff_not_occurs (motive := Sound settings) ?_ ?_ hrun
  · intro past reached event next _ hstep hexpires
    exact not_sound_of_expiresAcquiring hstep hexpires
  · rintro past reached ⟨rest, rfl⟩ hreached hacquiring
    exact run_sound hreached (fun hoccurs => hheld (hoccurs.append rest)) hacquiring

/-! ## A decrement that comes late -/

/-- The first two commands of an acquire. -/
def acquiring (index : ℕ) : List Event :=
  [.start (.inflight 7), .command index, .command index]

/-- A fourth request is refused, and the three slots are given back. -/
def refusedInTime : List Event :=
  acquiring 0 ++ acquiring 1 ++ acquiring 2 ++ acquiring 3 ++
    [.command 3, .command 0, .command 1, .command 2]

theorem run_sound_iff_refused :
    ∃ state, run {} refusedInTime = some state ∧
      ((∀ past reached, past <+: refusedInTime → run {} past = some reached →
          Sound {} reached) ↔
        ¬ Transition.Occurs (step {}) {} refusedInTime ExpiresAcquiring) := by
  have hrun : (run {} refusedInTime).isSome = true := by decide +kernel
  obtain ⟨state, hstate⟩ := Option.isSome_iff_exists.mp hrun
  exact ⟨state, hstate, run_sound_iff hstate (by decide +kernel)⟩

/-- Three slots are granted and given back; a fourth request counts itself before
that and takes its count back after the key has expired. -/
def lateDecrement : List Event :=
  acquiring 0 ++ acquiring 1 ++ acquiring 2 ++
    [.tick 299, .start (.inflight 7), .command 3, .command 0, .command 1, .command 2,
      .tick 301, .command 3, .command 3]

example : (run {} lateDecrement).map (fun state => state.store.value (.inflight 7)) =
    some (-1) := by
  decide +kernel

/-- Four more requests of the user. -/
def fourMore : List Event :=
  acquiring 4 ++ acquiring 5 ++ acquiring 6 ++ acquiring 7

/-- The counter starts the four requests at -1, and the user has four slots. -/
theorem run_not_sound :
    ¬ ∀ (settings : QuotaSettings) (events : List Event) (state : QuotaState),
        run settings events = some state →
        ¬ Transition.Occurs (step settings) {} events ExpiresHeld →
        ∀ past reached, past <+: events → run settings past = some reached →
          Sound settings reached := by
  intro hclaim
  have hrun : (run {} (lateDecrement ++ fourMore)).map (fun state =>
      state.granted {} (.inflight 7)) = some 4 := by
    decide +kernel
  have hheld : ¬ Transition.Occurs (step {}) {} (lateDecrement ++ fourMore) ExpiresHeld := by
    decide +kernel
  obtain ⟨state, hstate, hgranted⟩ := Option.map_eq_some_iff.mp hrun
  have hsound := hclaim {} _ state hstate hheld _ state (List.prefix_refl _) hstate
  have hbounded := hsound.bounded (.inflight 7)
  rw [hgranted] at hbounded
  exact absurd hbounded (by decide)

end AgenticRag.Quota
