import AgenticRag.Quota.Balance

/-!
# Slots lost in a crash

The safety expiry belongs to the counter, not to the slot: a key lives as long as
somebody counts on it.  A lost slot comes back when nobody has refreshed its key
for the length of the expiry.
-/

namespace AgenticRag.Quota

open Counters

variable {settings : QuotaSettings}

namespace Call

/-- The request got its slot, whatever became of it. -/
def WasGranted (call : Call) : Prop :=
  call.phase = .holding ∨ call.phase = .clamping ∨ call.phase = .released

instance : DecidablePred WasGranted := fun call =>
  inferInstanceAs (Decidable (call.phase = .holding ∨ call.phase = .clamping ∨
    call.phase = .released))

/-- The call ended or crashed longer ago than the safety expiry. -/
def LongGone (now : ℚ) (call : Call) : Prop :=
  ∃ ended ∈ call.ended, ended + inflightTtl < now

/-- The acquire has counted itself within the limit and not refreshed the key. -/
def Unrefreshed (settings : QuotaSettings) (call : Call) : Prop :=
  call.Granted settings ∧ ¬ call.Held

/-- The refused attempt refreshed the key within the safety expiry. -/
def Refreshed (now : ℚ) (call : Call) : Prop :=
  ¬ call.WasGranted ∧ ∃ touched ∈ call.touched, now < touched + inflightTtl

instance (now : ℚ) : DecidablePred (LongGone now) := fun call =>
  inferInstanceAs (Decidable (∃ ended ∈ call.ended, ended + inflightTtl < now))

instance (now : ℚ) : DecidablePred (Refreshed now) := fun call =>
  inferInstanceAs (Decidable (¬ call.WasGranted ∧
    ∃ touched ∈ call.touched, now < touched + inflightTtl))

instance (settings : QuotaSettings) : DecidablePred (Unrefreshed settings) := fun call =>
  inferInstanceAs (Decidable (call.Granted settings ∧ ¬ call.Held))

end Call

/-- A call refreshes its key before it ends. -/
structure Call.Timed (now : ℚ) (call : Call) : Prop where
  past : ∀ touched ∈ call.touched, touched ≤ now
  order : ∀ touched ∈ call.touched, ∀ ended ∈ call.ended, touched ≤ ended

/-- Why a key exists: it was refreshed within the safety expiry, or it has no
deadline and either counts nothing or waits for an acquire to refresh it. -/
inductive Explained (settings : QuotaSettings) (now : ℚ) (calls : List Call) (slot : Slot) :
    Cell → Prop
  | refreshed (value : ℤ) (call : Call) (hcall : call ∈ calls) (hslot : call.slot = slot)
      (touched : ℚ) (htouched : touched ∈ call.touched) (hlive : now < touched + inflightTtl) :
      Explained settings now calls slot ⟨value, some (touched + inflightTtl)⟩
  | empty (value : ℤ) (hvalue : value ≤ 0) : Explained settings now calls slot ⟨value, none⟩
  | counted (value : ℤ) (call : Call) (hcall : call ∈ calls) (hslot : call.slot = slot)
      (hunrefreshed : call.Unrefreshed settings) :
      Explained settings now calls slot ⟨value, none⟩

/-- The invariant of timed runs. -/
structure Dated (settings : QuotaSettings) (state : QuotaState) : Prop where
  timed : ∀ call ∈ state.calls, call.Timed state.store.now
  explained : ∀ slot, 1 ≤ slot.limit settings → ∀ cell ∈ state.store.cells slot,
    Explained settings state.store.now state.calls slot cell

/-! ## One step -/

section Steps

variable {state next : QuotaState} {event : Event}
variable {store after : Store Slot} {call moved : Call} {now : ℚ}

theorem Call.Timed.later (htimed : call.Timed now) {later : ℚ} (hlater : now ≤ later) :
    call.Timed later where
  past touched htouched := (htimed.past touched htouched).trans hlater
  order := htimed.order

/-- A call may end at any time. -/
theorem Call.Timed.end (htimed : call.Timed now) (phase : Phase) :
    Call.Timed now { call with phase := phase, ended := some now } where
  past := htimed.past
  order touched htouched ended hended := by
    cases hended
    exact htimed.past touched htouched

theorem Call.timed_touch (now : ℚ) (halive : call.ended = none) (phase : Phase) :
    Call.Timed now { call with phase := phase, touched := some now } where
  past touched htouched := by
    cases htouched
    exact le_rfl
  order touched htouched ended hended := by
    rw [Option.mem_def, halive] at hended
    cases hended

theorem Call.Moves.timed (hmoves : call.Moves settings store after moved)
    (halive : call.ended = none) (htimed : call.Timed store.now) : moved.Timed store.now := by
  cases hmoves with
  | count hphase => exact ⟨htimed.past, htimed.order⟩
  | refuse current hphase hfull => exact Call.timed_touch store.now halive _
  | grant current hphase hfree => exact Call.timed_touch store.now halive _
  | takeBack hphase => exact htimed.end _
  | release hphase hpositive => exact htimed.end _
  | underflow hphase hbelow => exact ⟨htimed.past, htimed.order⟩
  | clamp hphase => exact htimed.end _

/-- What some call has, some call still has when one call changes. -/
theorem exists_mem_set {calls : List Call} {index : ℕ} (hindex : calls[index]? = some call)
    (kind : Call → Prop) (hkind : kind call → kind moved) {other : Call}
    (hother : other ∈ calls) (hhas : kind other) :
    ∃ other ∈ calls.set index moved, kind other := by
  obtain ⟨position, hposition⟩ := List.mem_iff_getElem?.mp hother
  by_cases hsame : position = index
  · subst hsame
    rw [hposition] at hindex
    cases hindex
    have hlength := (List.getElem?_eq_some_iff.mp hposition).1
    exact ⟨moved, List.mem_of_getElem? (List.getElem?_set_self hlength), hkind hhas⟩
  · refine ⟨other, List.mem_of_getElem? (i := position) ?_, hhas⟩
    rw [List.getElem?_set_ne (Ne.symm hsame), hposition]

section Cells

variable {calls : List Call} {slot : Slot} {cell : Cell} {index : ℕ}

theorem Explained.start (hexplained : Explained settings now calls slot cell) (call : Call) :
    Explained settings now (calls ++ [call]) slot cell := by
  cases hexplained with
  | refreshed value other hother hslot touched htouched hlive =>
      exact .refreshed value other (List.mem_append_left _ hother) hslot touched htouched hlive
  | empty value hvalue => exact .empty value hvalue
  | counted value other hother hslot hunrefreshed =>
      exact .counted value other (List.mem_append_left _ hother) hslot hunrefreshed

/-- The calls on the slot keep their marks. -/
theorem Explained.set (hexplained : Explained settings now calls slot cell)
    (hindex : calls[index]? = some call)
    (hkept : call.slot = slot → moved.slot = slot ∧
      (∀ touched ∈ call.touched, touched ∈ moved.touched) ∧
      (call.Unrefreshed settings → moved.Unrefreshed settings)) :
    Explained settings now (calls.set index moved) slot cell := by
  cases hexplained with
  | refreshed value other hother hslot touched htouched hlive =>
      obtain ⟨found, hfound, hfoundSlot, hfoundTouched⟩ := exists_mem_set hindex
        (fun other => other.slot = slot ∧ touched ∈ other.touched)
        (fun hhas => ⟨(hkept hhas.1).1, (hkept hhas.1).2.1 touched hhas.2⟩) hother
        ⟨hslot, htouched⟩
      exact .refreshed value found hfound hfoundSlot touched hfoundTouched hlive
  | empty value hvalue => exact .empty value hvalue
  | counted value other hother hslot hunrefreshed =>
      obtain ⟨found, hfound, hfoundSlot, hfoundCounted⟩ := exists_mem_set hindex
        (fun other => other.slot = slot ∧ other.Unrefreshed settings)
        (fun hhas => ⟨(hkept hhas.1).1, (hkept hhas.1).2.2 hhas.2⟩) hother
        ⟨hslot, hunrefreshed⟩
      exact .counted value found hfound hfoundSlot hfoundCounted

theorem Explained.lower (hexplained : Explained settings now calls slot cell) :
    Explained settings now calls slot ⟨cell.value + -1, cell.deadline⟩ := by
  cases hexplained with
  | refreshed value call hcall hslot touched htouched hlive =>
      exact .refreshed _ call hcall hslot touched htouched hlive
  | empty value hvalue => exact .empty _ (show value + -1 ≤ 0 by omega)
  | counted value call hcall hslot hunrefreshed => exact .counted _ call hcall hslot hunrefreshed

/-- A key that is still there at a later time. -/
theorem Explained.later (hexplained : Explained settings now calls slot cell) {later : ℚ}
    (hlater : ∀ deadline, cell.deadline = some deadline → later < deadline) :
    Explained settings later calls slot cell := by
  cases hexplained with
  | refreshed value call hcall hslot touched htouched hlive =>
      exact .refreshed value call hcall hslot touched htouched (hlater _ rfl)
  | empty value hvalue => exact .empty value hvalue
  | counted value call hcall hslot hunrefreshed =>
      exact .counted value call hcall hslot hunrefreshed

theorem explained_decrement (hold : ∀ cell ∈ store.cells slot,
      Explained settings now calls slot cell) :
    ∀ cell ∈ (store.add slot (-1)).cells slot, Explained settings now calls slot cell := by
  intro cell hcell
  rw [Store.add_cells_self] at hcell
  cases hcell
  cases hbefore : store.cells slot with
  | none =>
      rw [Store.value, hbefore]
      exact .empty _ (by decide)
  | some before =>
      rw [Store.value, hbefore]
      exact (hold before hbefore).lower

/-- A key without a deadline and without a count is counted within the limit. -/
theorem explained_increment (hlimit : 1 ≤ slot.limit settings) (hmoved : moved ∈ calls)
    (hslot : moved.slot = slot) (hphase : moved.phase = .counted (store.value slot + 1))
    (hold : ∀ cell ∈ store.cells slot, Explained settings now calls slot cell) :
    ∀ cell ∈ (store.add slot 1).cells slot, Explained settings now calls slot cell := by
  have hfirst : store.value slot ≤ 0 → moved.Unrefreshed settings := by
    intro hempty
    rw [← hslot] at hlimit
    rw [Call.Unrefreshed, Call.Granted, Call.Held, hphase]
    exact ⟨show store.value slot + 1 ≤ moved.slot.limit settings by omega, by simp⟩
  intro cell hcell
  rw [Store.add_cells_self] at hcell
  cases hcell
  cases hbefore : store.cells slot with
  | none =>
      exact .counted _ moved hmoved hslot (hfirst (by rw [Store.value, hbefore]; rfl))
  | some before =>
      cases hold before hbefore with
      | refreshed value call hcall hcallSlot touched htouched hlive =>
          exact .refreshed _ call hcall hcallSlot touched htouched hlive
      | empty value hvalue =>
          exact .counted _ moved hmoved hslot (hfirst (by rw [Store.value, hbefore]; exact hvalue))
      | counted value call hcall hcallSlot hunrefreshed =>
          exact .counted _ call hcall hcallSlot hunrefreshed

theorem explained_refresh (hmoved : moved ∈ calls) (hslot : moved.slot = slot)
    (htouched : moved.touched = some store.now) :
    ∀ cell ∈ (store.expire slot inflightTtl).cells slot,
      Explained settings store.now calls slot cell := by
  intro cell hcell
  rw [Store.expire_cells_self] at hcell
  obtain ⟨before, _, rfl⟩ := Option.map_eq_some_iff.mp hcell
  exact .refreshed before.value moved hmoved hslot store.now htouched
    (lt_add_of_pos_right _ (by norm_num [inflightTtl]))

/-- Every key that a command leaves is explained. -/
theorem Explained.command (hindex : calls[index]? = some call)
    (hmoves : call.Moves settings store after moved) (hlimit : 1 ≤ call.slot.limit settings)
    (hold : ∀ cell ∈ store.cells call.slot,
      Explained settings store.now calls call.slot cell) :
    ∀ cell ∈ after.cells call.slot,
      Explained settings store.now (calls.set index moved) call.slot cell := by
  have hmoved : moved ∈ calls.set index moved :=
    List.mem_of_getElem? (List.getElem?_set_self (List.getElem?_eq_some_iff.mp hindex).1)
  have hslot := hmoves.slot_eq
  -- a command other than `EXPIRE` leaves the marks of all calls as they are
  have hcarry : call.touched = moved.touched → (¬ call.Unrefreshed settings) →
      ∀ cell ∈ store.cells call.slot,
        Explained settings store.now (calls.set index moved) call.slot cell := by
    intro htouched hrefreshed cell hcell
    refine (hold cell hcell).set hindex fun _ => ⟨hslot, ?_, fun hcounted => ?_⟩
    · rw [htouched]
      exact fun touched hmem => hmem
    · exact absurd hcounted hrefreshed
  cases hmoves with
  | count hphase =>
      exact explained_increment hlimit hmoved rfl rfl
        (hcarry rfl (by simp [Call.Unrefreshed, Call.Granted, Call.Held, hphase]))
  | refuse current hphase hfull => exact explained_refresh hmoved rfl rfl
  | grant current hphase hfree => exact explained_refresh hmoved rfl rfl
  | takeBack hphase =>
      exact explained_decrement (hcarry rfl (by simp [Call.Unrefreshed, Call.Granted, Call.Held, hphase]))
  | release hphase hpositive =>
      exact explained_decrement (hcarry rfl (by simp [Call.Unrefreshed, Call.Granted, Call.Held, hphase]))
  | underflow hphase hbelow =>
      exact explained_decrement (hcarry rfl (by simp [Call.Unrefreshed, Call.Granted, Call.Held, hphase]))
  | clamp hphase =>
      intro cell hcell
      rw [Store.set_cells_self] at hcell
      cases hcell
      exact .empty 0 le_rfl

end Cells

theorem Dated.start (hdated : Dated settings state) (slot : Slot) :
    Dated settings { state with calls := state.calls ++ [{ slot }] } where
  timed call hcall := by
    rcases List.mem_append.mp hcall with hold | hnew
    · exact hdated.timed call hold
    · rw [List.mem_singleton.mp hnew]
      constructor
      · intro touched htouched
        cases htouched
      · intro touched htouched
        cases htouched
  explained other hlimit cell hcell := (hdated.explained other hlimit cell hcell).start _

theorem Dated.command (hdated : Dated settings state) {index : ℕ}
    (hcall : state.calls[index]? = some call) (halive : call.ended = none)
    (hmoves : call.Moves settings state.store store moved) :
    Dated settings ⟨store, state.calls.set index moved⟩ where
  timed other hother := by
    rw [hmoves.now_eq]
    rcases List.mem_or_eq_of_mem_set hother with hold | rfl
    · exact hdated.timed other hold
    · exact hmoves.timed halive (hdated.timed call (List.mem_of_getElem? hcall))
  explained slot hlimit cell hcell := by
    change Explained settings store.now _ slot cell
    rw [hmoves.now_eq]
    by_cases hsame : slot = call.slot
    · subst hsame
      exact Explained.command hcall hmoves hlimit (hdated.explained call.slot hlimit) cell hcell
    · rw [hmoves.cells_of_ne hsame] at hcell
      exact (hdated.explained slot hlimit cell hcell).set hcall
        fun heq => absurd heq.symm hsame

theorem Dated.crash (hdated : Dated settings state) {index : ℕ}
    (hcall : state.calls[index]? = some call) :
    Dated settings { state with
      calls := state.calls.set index { call with ended := some state.store.now } } where
  timed other hother := by
    rcases List.mem_or_eq_of_mem_set hother with hold | rfl
    · exact hdated.timed other hold
    · exact (hdated.timed call (List.mem_of_getElem? hcall)).end call.phase
  explained slot hlimit cell hcell :=
    (hdated.explained slot hlimit cell hcell).set hcall fun hslot =>
      ⟨hslot, fun _ htouched => htouched, fun hcounted => hcounted⟩

theorem Dated.tick (hdated : Dated settings state) {time : ℚ}
    (hlater : state.store.now ≤ time) :
    Dated settings { state with store := state.store.advance time } where
  timed call hcall := (hdated.timed call hcall).later hlater
  explained slot hlimit cell hcell := by
    obtain ⟨before, hbefore, hkept⟩ := Option.bind_eq_some_iff.mp hcell
    obtain ⟨rfl, hlive⟩ := Store.keep_eq_some_iff.mp hkept
    exact (hdated.explained slot hlimit before hbefore).later hlive

theorem Dated.step (hdated : Dated settings state)
    (hstep : step settings state event = some next) : Dated settings next := by
  rcases step_cases hstep with ⟨slot, rfl, rfl⟩ | ⟨index, call, store, after, rfl, hcall, halive,
    hmoves, rfl⟩ | ⟨index, call, rfl, hcall, _, rfl⟩ | ⟨time, rfl, hlater, rfl⟩
  · exact hdated.start slot
  · exact hdated.command hcall halive hmoves
  · exact hdated.crash hcall
  · exact hdated.tick hlater

theorem run_dated {events : List Event} (hrun : run settings events = some state) :
    Dated settings state := by
  apply Transition.exec_invariant (motive := Dated settings) ?_ hrun
  · constructor
    · intro call hcall
      cases hcall
    · intro slot _ cell hcell
      cases hcell
  · intro state event next hdated hstep
    exact hdated.step hstep

end Steps

/-! ## Recovery -/

/-- Every request that got a slot ended or crashed longer ago than the safety
expiry. -/
def AllGone (state : QuotaState) : Prop :=
  ∀ call ∈ state.calls, call.WasGranted → call.LongGone state.store.now

instance (state : QuotaState) : Decidable (AllGone state) :=
  inferInstanceAs (Decidable (∀ call ∈ state.calls, call.WasGranted →
    call.LongGone state.store.now))

/-- The next acquire is admitted when the requests that got a slot are long gone,
no refused attempt has refreshed the key within the safety expiry, and no acquire
stopped between its `INCR` and its `EXPIRE`. -/
theorem admitted_of_allGone {events : List Event} {state : QuotaState}
    (hrun : run settings events = some state) {slot : Slot}
    (hlimit : 1 ≤ slot.limit settings) (hgone : AllGone state)
    (hrefreshed : ∀ call ∈ state.calls, call.slot = slot → ¬ call.Refreshed state.store.now)
    (hunrefreshed : ∀ call ∈ state.calls, call.slot = slot → ¬ call.Unrefreshed settings) :
    ((slot.acquire settings).eval state.store).2 = .ok () := by
  have hdated := run_dated hrun
  rw [acquire_eval_ok_iff]
  cases hcell : state.store.cells slot with
  | none =>
      rw [Store.value, hcell]
      exact Int.ofNat_lt.mpr hlimit
  | some cell =>
      rw [Store.value, hcell]
      cases hdated.explained slot hlimit cell hcell with
      | refreshed value call hcall hslot touched htouched hlive =>
          by_cases hgranted : call.WasGranted
          · obtain ⟨ended, hended, hlong⟩ := hgone call hcall hgranted
            have horder := (hdated.timed call hcall).order touched htouched ended hended
            linarith
          · exact absurd ⟨hgranted, touched, htouched, hlive⟩ (hrefreshed call hcall hslot)
      | empty value hvalue =>
          exact lt_of_le_of_lt hvalue (Int.ofNat_lt.mpr hlimit)
      | counted value call hcall hslot hcounted =>
          exact absurd hcounted (hunrefreshed call hcall hslot)

/-- One request crashes with its slot, another one releases its own. -/
def crashAndRelease : List Event :=
  acquiring 0 ++ acquiring 1 ++ [.tick 10, .crash 0, .command 1, .tick 311]

theorem admitted_of_allGone_crash :
    ∃ state, run {} crashAndRelease = some state ∧
      (((Slot.inflight 7).acquire {}).eval state.store).2 = .ok () := by
  have hrun : (run {} crashAndRelease).map (fun state => decide (AllGone state ∧
      (∀ call ∈ state.calls, call.slot = .inflight 7 → ¬ call.Refreshed state.store.now) ∧
      ∀ call ∈ state.calls, call.slot = .inflight 7 → ¬ call.Unrefreshed {})) = some true := by
    decide +kernel
  obtain ⟨state, hstate, hconditions⟩ := Option.map_eq_some_iff.mp hrun
  obtain ⟨hgone, hrefreshed, hunrefreshed⟩ := of_decide_eq_true hconditions
  exact ⟨state, hstate,
    admitted_of_allGone hstate (by decide) hgone hrefreshed hunrefreshed⟩

/-- A refused request in between: the key of the three lost slots lives on. -/
def refusedInBetween : List Event :=
  acquiring 0 ++ acquiring 1 ++ acquiring 2 ++ [.crash 0, .crash 1, .crash 2, .tick 200] ++
    acquiring 3 ++ [.command 3, .tick 450]

/-- Long after the crashes an acquire is still refused. -/
theorem not_admitted_of_allGone :
    ¬ ∀ (settings : QuotaSettings) (events : List Event) (state : QuotaState) (slot : Slot),
        run settings events = some state → 1 ≤ slot.limit settings → AllGone state →
        ((slot.acquire settings).eval state.store).2 = .ok () := by
  intro hclaim
  have hrun : (run {} refusedInBetween).map (fun state =>
      (decide (AllGone state), state.store.value (.inflight 7))) = some (true, 3) := by
    decide +kernel
  obtain ⟨state, hstate, hresult⟩ := Option.map_eq_some_iff.mp hrun
  obtain ⟨hgone, hvalue⟩ := Prod.mk.inj hresult
  have hadmitted := hclaim {} _ state (.inflight 7) hstate (by decide) (of_decide_eq_true hgone)
  rw [acquire_eval_ok_iff, hvalue] at hadmitted
  exact absurd hadmitted (by decide)

end AgenticRag.Quota
