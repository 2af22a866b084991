import Mathlib.Data.List.Induction

/-!
# Runs of partial labelled transitions

A system is a partial step function: `step state action` is `none` when the
action is not enabled.  This module supplies its finite runs, the induction
principle that exposes the last action together with the actions before it, the
invariant rule, the projection of a run onto a component, the events that occur
along a run, and observers that record it.
-/

namespace Transition

variable {σ τ α β : Type*}

/-- Execute a schedule; `none` as soon as one of its actions is not enabled. -/
def exec (step : σ → α → Option σ) : σ → List α → Option σ
  | state, [] => some state
  | state, action :: rest =>
      (step state action).bind fun next => exec step next rest

@[simp]
theorem exec_nil (step : σ → α → Option σ) (state : σ) :
    exec step state [] = some state := rfl

theorem exec_cons (step : σ → α → Option σ) (state : σ) (action : α)
    (rest : List α) :
    exec step state (action :: rest) =
      (step state action).bind fun next => exec step next rest := rfl

/-- A schedule can be cut anywhere. -/
theorem exec_append (step : σ → α → Option σ) (state : σ)
    (first second : List α) :
    exec step state (first ++ second) =
      (exec step state first).bind fun middle => exec step middle second := by
  induction first generalizing state with
  | nil => rfl
  | cons action rest ih =>
      simp only [List.cons_append, exec_cons]
      cases hstep : step state action with
      | none => rfl
      | some next => simpa using ih next

theorem exec_append_eq_some_iff {step : σ → α → Option σ} {start finish : σ}
    {first second : List α} :
    exec step start (first ++ second) = some finish ↔
      ∃ middle, exec step start first = some middle ∧
        exec step middle second = some finish := by
  rw [exec_append, Option.bind_eq_some_iff]

theorem exec_cons_eq_some_iff {step : σ → α → Option σ} {start finish : σ}
    {action : α} {rest : List α} :
    exec step start (action :: rest) = some finish ↔
      ∃ next, step start action = some next ∧
        exec step next rest = some finish := by
  rw [exec_cons, Option.bind_eq_some_iff]

theorem exec_snoc_eq_some_iff {step : σ → α → Option σ} {start finish : σ}
    {actions : List α} {action : α} :
    exec step start (actions ++ [action]) = some finish ↔
      ∃ middle, exec step start actions = some middle ∧
        step middle action = some finish := by
  rw [exec_append_eq_some_iff]
  simp [exec_cons_eq_some_iff]

/-- Where a list is split that has grown by one element: at the new element, or
before it. -/
theorem split_snoc {past front rest : List α} {last action : α}
    (hsplit : past ++ [last] = front ++ action :: rest) :
    (front = past ∧ action = last ∧ rest = []) ∨
      ∃ middle, past = front ++ action :: middle ∧ rest = middle ++ [last] := by
  rcases List.eq_nil_or_concat rest with rfl | ⟨middle, ending, rfl⟩
  · obtain ⟨hpast, hlast⟩ := List.append_inj' hsplit rfl
    exact Or.inl ⟨hpast.symm, (List.cons.inj hlast).1.symm, rfl⟩
  · rw [List.concat_eq_append, ← List.cons_append, ← List.append_assoc] at hsplit
    obtain ⟨hpast, hlast⟩ := List.append_inj' hsplit rfl
    obtain rfl := (List.cons.inj hlast).1
    exact Or.inr ⟨middle, hpast, List.concat_eq_append⟩

/-- Induction over a run.  The motive sees the schedule executed so far, so a
property may speak of the history of the state. -/
theorem exec_induction {step : σ → α → Option σ} {start : σ}
    {motive : List α → σ → Prop} (hstart : motive [] start)
    (hstep : ∀ past state action next,
      exec step start past = some state → motive past state →
      step state action = some next → motive (past ++ [action]) next) :
    ∀ {actions : List α} {finish : σ},
      exec step start actions = some finish → motive actions finish := by
  intro actions
  induction actions using List.reverseRecOn with
  | nil =>
      intro finish hrun
      cases hrun
      exact hstart
  | append_singleton past action ih =>
      intro finish hrun
      obtain ⟨middle, hpast, hlast⟩ := exec_snoc_eq_some_iff.mp hrun
      exact hstep past middle action finish hpast (ih hpast) hlast

/-- What every step preserves, every run preserves. -/
theorem exec_invariant {step : σ → α → Option σ} {motive : σ → Prop}
    (hstep : ∀ state action next,
      motive state → step state action = some next → motive next)
    {start finish : σ} {actions : List α}
    (hrun : exec step start actions = some finish) (hstart : motive start) :
    motive finish := by
  refine exec_induction (motive := fun _ state => motive state) hstart ?_ hrun
  intro _ state action next _ hinv hnext
  exact hstep state action next hinv hnext

/-- Run of a component: every step of the system leaves the component alone or
is a step of it. -/
theorem exec_project {step : σ → α → Option σ} {stepC : τ → β → Option τ}
    (view : σ → τ)
    (hstep : ∀ state action next, step state action = some next →
      view next = view state ∨ ∃ event, stepC (view state) event = some (view next))
    {start finish : σ} {actions : List α}
    (hrun : exec step start actions = some finish) :
    ∃ events, exec stepC (view start) events = some (view finish) := by
  refine exec_induction
    (motive := fun _ state => ∃ events, exec stepC (view start) events = some (view state))
    ⟨[], rfl⟩ ?_ hrun
  intro past state action next _ hpast hnext
  obtain ⟨events, hevents⟩ := hpast
  rcases hstep state action next hnext with hsame | ⟨event, hevent⟩
  · rw [hsame]
    exact ⟨events, hevents⟩
  · exact ⟨events ++ [event], exec_snoc_eq_some_iff.mpr ⟨_, hevents, hevent⟩⟩

/-- Run of a party: the steps of the others leave what the party sees alone, and a step of
its own is a step on what it sees. -/
theorem exec_filter {step : σ → α → Option σ} {stepV : τ → α → Option τ} {motive : σ → Prop}
    (view : σ → τ) (mine : α → Bool)
    (hmotive : ∀ state action next,
      motive state → step state action = some next → motive next)
    (hmine : ∀ state action next, motive state → mine action = true →
      step state action = some next → stepV (view state) action = some (view next))
    (hother : ∀ state action next, motive state → mine action = false →
      step state action = some next → view next = view state)
    {start finish : σ} {actions : List α} (hstart : motive start)
    (hrun : exec step start actions = some finish) :
    exec stepV (view start) (actions.filter mine) = some (view finish) := by
  induction actions generalizing start with
  | nil =>
      cases hrun
      rfl
  | cons action rest ih =>
      obtain ⟨next, hnext, hrest⟩ := exec_cons_eq_some_iff.mp hrun
      have hrecur := ih (hmotive start action next hstart hnext) hrest
      cases haction : mine action with
      | true =>
          rw [List.filter_cons_of_pos haction, exec_cons_eq_some_iff]
          exact ⟨view next, hmine start action next hstart haction hnext, hrecur⟩
      | false =>
          rw [List.filter_cons_of_neg (by rw [haction]; decide),
            ← hother start action next hstart haction hnext]
          exact hrecur

/-! ## Events along a run -/

/-- Some step of the run was taken in a state and with an action that satisfy
`event`. -/
def Occurs (step : σ → α → Option σ) (start : σ) (actions : List α)
    (event : σ → α → Prop) : Prop :=
  ∃ before action after state, actions = before ++ action :: after ∧
    exec step start before = some state ∧ event state action

@[simp]
theorem not_occurs_nil (step : σ → α → Option σ) (start : σ)
    (event : σ → α → Prop) : ¬ Occurs step start [] event := by
  rintro ⟨before, action, after, state, hsplit, _⟩
  simp at hsplit

/-- One more step adds the event of that step. -/
theorem occurs_snoc {step : σ → α → Option σ} {start state : σ}
    {past : List α} {action : α} {event : σ → α → Prop}
    (hpast : exec step start past = some state) :
    Occurs step start (past ++ [action]) event ↔
      Occurs step start past event ∨ event state action := by
  constructor
  · rintro ⟨before, done, after, middle, hsplit, hbefore, hevent⟩
    rcases split_snoc hsplit with ⟨rfl, rfl, _⟩ | ⟨front, hfront, _⟩
    · rw [hpast] at hbefore
      cases hbefore
      exact Or.inr hevent
    · exact Or.inl ⟨before, done, front, middle, hfront, hbefore, hevent⟩
  · rintro (⟨before, done, after, middle, rfl, hbefore, hevent⟩ | hevent)
    · exact ⟨before, done, after ++ [action], middle, by simp, hbefore, hevent⟩
    · exact ⟨past, action, [], state, rfl, hpast, hevent⟩

theorem Occurs.mono {step : σ → α → Option σ} {start : σ} {actions : List α}
    {event weaker : σ → α → Prop} (hoccurs : Occurs step start actions event)
    (hweaker : ∀ state action, event state action → weaker state action) :
    Occurs step start actions weaker := by
  obtain ⟨before, action, after, state, hsplit, hbefore, hevent⟩ := hoccurs
  exact ⟨before, action, after, state, hsplit, hbefore, hweaker state action hevent⟩

theorem occurs_or {step : σ → α → Option σ} {start : σ} {actions : List α}
    {left right : σ → α → Prop} :
    Occurs step start actions (fun state action => left state action ∨ right state action) ↔
      Occurs step start actions left ∨ Occurs step start actions right := by
  constructor
  · rintro ⟨before, action, after, state, hsplit, hbefore, hleft | hright⟩
    · exact Or.inl ⟨before, action, after, state, hsplit, hbefore, hleft⟩
    · exact Or.inr ⟨before, action, after, state, hsplit, hbefore, hright⟩
  · intro heither
    rcases heither with hleft | hright
    · exact hleft.mono fun _ _ => Or.inl
    · exact hright.mono fun _ _ => Or.inr

/-- What occurred stays in the past of a longer run. -/
theorem Occurs.append {step : σ → α → Option σ} {start : σ} {actions : List α}
    {event : σ → α → Prop} (hoccurs : Occurs step start actions event) (rest : List α) :
    Occurs step start (actions ++ rest) event := by
  obtain ⟨before, action, after, state, rfl, hbefore, hevent⟩ := hoccurs
  exact ⟨before, action, after ++ rest, state, by simp, hbefore, hevent⟩

/-- What every step preserves except the steps of an event, a run without the event
preserves. -/
theorem exec_unless {step : σ → α → Option σ} {start : σ} {motive : σ → Prop}
    {event : σ → α → Prop} (hstart : motive start)
    (hstep : ∀ past state action next, exec step start past = some state → motive state →
      step state action = some next → ¬ event state action → motive next)
    {actions : List α} {finish : σ} (hrun : exec step start actions = some finish)
    (hnone : ¬ Occurs step start actions event) : motive finish := by
  revert hnone
  apply exec_induction
    (motive := fun past state => ¬ Occurs step start past event → motive state) ?_ ?_ hrun
  · intro _
    exact hstart
  · intro past state action next hpast ih hnext hnone
    rw [occurs_snoc hpast, not_or] at hnone
    exact hstep past state action next hpast (ih hnone.1) hnext hnone.2

/-- Where an event breaks what its absence ensures, a property holds all along a run
exactly when the event does not occur. -/
theorem always_iff_not_occurs {step : σ → α → Option σ} {start finish : σ}
    {motive : σ → Prop} {event : σ → α → Prop} {actions : List α}
    (hbreak : ∀ past state action next, exec step start past = some state →
      step state action = some next → event state action → ¬ motive next)
    (hkeep : ∀ past state, past <+: actions → exec step start past = some state →
      ¬ Occurs step start past event → motive state)
    (hrun : exec step start actions = some finish) :
    (∀ past state, past <+: actions → exec step start past = some state → motive state) ↔
      ¬ Occurs step start actions event := by
  constructor
  · rintro hall ⟨before, action, after, state, rfl, hbefore, hevent⟩
    have hsplit : before ++ action :: after = (before ++ [action]) ++ after := by simp
    rw [hsplit] at hrun
    obtain ⟨next, hreached, _⟩ := exec_append_eq_some_iff.mp hrun
    obtain ⟨found, hfound, hnext⟩ := exec_snoc_eq_some_iff.mp hreached
    rw [hbefore] at hfound
    cases hfound
    refine hbreak before state action next hbefore hnext hevent
      (hall (before ++ [action]) next ?_ hreached)
    rw [hsplit]
    exact List.prefix_append _ _
  · intro hnone past state hprefix hpast
    apply hkeep past state hprefix hpast
    intro hoccurs
    obtain ⟨rest, rfl⟩ := hprefix
    exact hnone (hoccurs.append rest)

/-- The event happens at once or after the first step. -/
theorem occurs_cons_iff {step : σ → α → Option σ} {start : σ} {action : α}
    {rest : List α} {event : σ → α → Prop} :
    Occurs step start (action :: rest) event ↔
      event start action ∨ ∃ next, step start action = some next ∧
        Occurs step next rest event := by
  constructor
  · rintro ⟨before, done, after, state, hsplit, hbefore, hevent⟩
    cases before with
    | nil =>
        cases hsplit
        cases hbefore
        exact Or.inl hevent
    | cons head front =>
        cases hsplit
        obtain ⟨next, hnext, hfront⟩ := exec_cons_eq_some_iff.mp hbefore
        exact Or.inr ⟨next, hnext, front, done, after, state, rfl, hfront, hevent⟩
  · rintro (hevent | ⟨next, hnext, before, done, after, state, rfl, hbefore, hevent⟩)
    · exact ⟨[], action, rest, start, rfl, rfl, hevent⟩
    · exact ⟨action :: before, done, after, state, rfl,
        exec_cons_eq_some_iff.mpr ⟨next, hnext, hbefore⟩, hevent⟩

instance decidableOccurs (step : σ → α → Option σ) (event : σ → α → Prop)
    [∀ state action, Decidable (event state action)] :
    ∀ (start : σ) (actions : List α), Decidable (Occurs step start actions event)
  | start, [] => isFalse (not_occurs_nil step start event)
  | start, action :: rest =>
      match hnext : step start action with
      | none => decidable_of_iff (event start action) (by simp [occurs_cons_iff, hnext])
      | some next =>
          have := decidableOccurs step event next rest
          decidable_of_iff (event start action ∨ Occurs step next rest event)
            (by simp [occurs_cons_iff, hnext])

/-- Some step satisfies `cause` and no later step satisfies `answer`. -/
def Unanswered (step : σ → α → Option σ) (start : σ) (actions : List α)
    (cause answer : σ → α → Prop) : Prop :=
  ∃ before action after state next, actions = before ++ action :: after ∧
    exec step start before = some state ∧ step state action = some next ∧
    cause state action ∧ ¬ Occurs step next after answer

@[simp]
theorem not_unanswered_nil (step : σ → α → Option σ) (start : σ)
    (cause answer : σ → α → Prop) : ¬ Unanswered step start [] cause answer := by
  rintro ⟨before, action, after, _, _, hsplit, _⟩
  simp at hsplit

/-- What is unanswered has occurred. -/
theorem Unanswered.occurs {step : σ → α → Option σ} {start : σ} {actions : List α}
    {cause answer : σ → α → Prop} (hopen : Unanswered step start actions cause answer) :
    Occurs step start actions cause := by
  obtain ⟨before, action, after, state, _, hsplit, hbefore, _, hcause, _⟩ := hopen
  exact ⟨before, action, after, state, hsplit, hbefore, hcause⟩

/-- The first step is an unanswered cause, or a later one is. -/
theorem unanswered_cons_iff {step : σ → α → Option σ} {start : σ} {action : α}
    {rest : List α} {cause answer : σ → α → Prop} :
    Unanswered step start (action :: rest) cause answer ↔
      ∃ next, step start action = some next ∧
        ((cause start action ∧ ¬ Occurs step next rest answer) ∨
          Unanswered step next rest cause answer) := by
  constructor
  · rintro ⟨before, done, after, state, next, hsplit, hbefore, hdone, hcause, hnone⟩
    cases before with
    | nil =>
        cases hsplit
        cases hbefore
        exact ⟨next, hdone, Or.inl ⟨hcause, hnone⟩⟩
    | cons head front =>
        cases hsplit
        obtain ⟨first, hfirst, hfront⟩ := exec_cons_eq_some_iff.mp hbefore
        exact ⟨first, hfirst, Or.inr ⟨front, done, after, state, next, rfl, hfront, hdone,
          hcause, hnone⟩⟩
  · rintro ⟨first, hfirst, ⟨hcause, hnone⟩ | ⟨front, done, after, state, next, rfl, hfront,
      hdone, hcause, hnone⟩⟩
    · exact ⟨[], action, rest, start, first, rfl, rfl, hfirst, hcause, hnone⟩
    · exact ⟨action :: front, done, after, state, next, rfl,
        exec_cons_eq_some_iff.mpr ⟨first, hfirst, hfront⟩, hdone, hcause, hnone⟩

instance decidableUnanswered (step : σ → α → Option σ) (cause answer : σ → α → Prop)
    [∀ state action, Decidable (cause state action)]
    [∀ state action, Decidable (answer state action)] :
    ∀ (start : σ) (actions : List α),
      Decidable (Unanswered step start actions cause answer)
  | start, [] => isFalse (not_unanswered_nil step start cause answer)
  | start, action :: rest =>
      match hnext : step start action with
      | none => isFalse (by simp [unanswered_cons_iff, hnext])
      | some next =>
          have := decidableUnanswered step cause answer next rest
          decidable_of_iff ((cause start action ∧ ¬ Occurs step next rest answer) ∨
              Unanswered step next rest cause answer)
            (by simp [unanswered_cons_iff, hnext])

/-- The last step is a new cause, or leaves an old one unanswered. -/
theorem unanswered_snoc {step : σ → α → Option σ} {start state next : σ}
    {past : List α} {action : α} {cause answer : σ → α → Prop}
    (hpast : exec step start past = some state) (hnext : step state action = some next) :
    Unanswered step start (past ++ [action]) cause answer ↔
      cause state action ∨
        (Unanswered step start past cause answer ∧ ¬ answer state action) := by
  constructor
  · rintro ⟨before, done, after, middle, followed, hsplit, hbefore, hdone, hcause, hnone⟩
    rcases split_snoc hsplit with ⟨rfl, rfl, _⟩ | ⟨front, rfl, rfl⟩
    · rw [hpast] at hbefore
      cases hbefore
      exact Or.inl hcause
    · obtain ⟨reached, hreached, hfront⟩ := exec_append_eq_some_iff.mp hpast
      rw [hbefore] at hreached
      cases hreached
      rw [exec_cons, hdone] at hfront
      rw [occurs_snoc hfront, not_or] at hnone
      exact Or.inr ⟨⟨before, done, front, middle, followed, rfl, hbefore, hdone, hcause,
        hnone.1⟩, hnone.2⟩
  · rintro (hcause | ⟨⟨before, done, front, middle, followed, rfl, hbefore, hdone,
      hcause, hnone⟩, hanswer⟩)
    · exact ⟨past, action, [], state, next, rfl, hpast, hnext, hcause,
        not_occurs_nil step next answer⟩
    · obtain ⟨reached, hreached, hfront⟩ := exec_append_eq_some_iff.mp hpast
      rw [hbefore] at hreached
      cases hreached
      rw [exec_cons, hdone] at hfront
      refine ⟨before, done, front ++ [action], middle, followed, by simp, hbefore, hdone,
        hcause, ?_⟩
      rw [occurs_snoc hfront, not_or]
      exact ⟨hnone, hanswer⟩

/-- A property that only a cause brings and an answer takes away: where it holds it
has held from the start without an answer, or a cause was not answered. -/
theorem unanswered_of_holds {step : σ → α → Option σ} {start : σ} {motive : σ → Prop}
    {cause answer : σ → α → Prop}
    (hanswer : ∀ past state action next, exec step start past = some state →
      step state action = some next → answer state action → ¬ motive next)
    (hcause : ∀ past state action next, exec step start past = some state →
      step state action = some next → motive next → motive state ∨ cause state action)
    {actions : List α} {finish : σ} (hrun : exec step start actions = some finish)
    (hholds : motive finish) :
    (motive start ∧ ¬ Occurs step start actions answer) ∨
      Unanswered step start actions cause answer := by
  revert hholds
  apply exec_induction (motive := fun past state => motive state →
    (motive start ∧ ¬ Occurs step start past answer) ∨
      Unanswered step start past cause answer) ?_ ?_ hrun
  · intro hstart
    exact Or.inl ⟨hstart, not_occurs_nil step start answer⟩
  · intro past state action next hpast ih hnext hholds
    rw [occurs_snoc hpast, unanswered_snoc hpast hnext, not_or]
    have hnot : ¬ answer state action := fun hdone =>
      hanswer past state action next hpast hnext hdone hholds
    rcases hcause past state action next hpast hnext hholds with hold | hnew
    · rcases ih hold with ⟨hstart, hnone⟩ | hopen
      · exact Or.inl ⟨hstart, hnone, hnot⟩
      · exact Or.inr (Or.inr ⟨hopen, hnot⟩)
    · exact Or.inr (Or.inl hnew)

/-- A property that some steps establish, others destroy and the rest keep holds
at the end of a run exactly when it held at the start and was never destroyed,
or was established and not destroyed since. -/
theorem holds_iff_unanswered {step : σ → α → Option σ} {start : σ} {motive : σ → Prop}
    {cause answer : σ → α → Prop}
    (hcause : ∀ past state action next, exec step start past = some state →
      step state action = some next → cause state action → motive next)
    (hanswer : ∀ past state action next, exec step start past = some state →
      step state action = some next → answer state action → ¬ motive next)
    (hkeep : ∀ past state action next, exec step start past = some state →
      step state action = some next → ¬ cause state action → ¬ answer state action →
      (motive next ↔ motive state))
    {actions : List α} {finish : σ} (hrun : exec step start actions = some finish) :
    motive finish ↔ (motive start ∧ ¬ Occurs step start actions answer) ∨
      Unanswered step start actions cause answer := by
  refine exec_induction (motive := fun past state =>
    (motive state ↔ (motive start ∧ ¬ Occurs step start past answer) ∨
      Unanswered step start past cause answer)) ?_ ?_ hrun
  · simp
  · intro past state action next hpast hiff hnext
    rw [occurs_snoc hpast, unanswered_snoc hpast hnext, not_or]
    by_cases hc : cause state action
    · exact iff_of_true (hcause past state action next hpast hnext hc)
        (Or.inr (Or.inl hc))
    · by_cases ha : answer state action
      · simp [hanswer past state action next hpast hnext ha, hc, ha]
      · rw [hkeep past state action next hpast hnext hc ha, hiff]
        simp [hc, ha]

/-- A property that does not hold at the start, and holds after a step exactly when the step
is a cause or has held and the step is no answer. -/
theorem iff_unanswered {step : σ → α → Option σ} {start : σ} {motive : σ → Prop}
    {cause answer : σ → α → Prop} (hstart : ¬ motive start)
    (hstep : ∀ past state action next, exec step start past = some state →
      step state action = some next →
      (motive next ↔ cause state action ∨ (motive state ∧ ¬ answer state action)))
    {actions : List α} {finish : σ} (hrun : exec step start actions = some finish) :
    motive finish ↔ Unanswered step start actions cause answer := by
  refine exec_induction (motive := fun past state =>
    (motive state ↔ Unanswered step start past cause answer)) ?_ ?_ hrun
  · exact iff_of_false hstart (not_unanswered_nil step start cause answer)
  · intro past state action next hpast hiff hnext
    rw [hstep past state action next hpast hnext, unanswered_snoc hpast hnext, hiff]

/-! ## Observers -/

/-- The system with an observer who takes a note of every step. -/
def observed (step : σ → α → Option σ) (note : τ → σ → α → σ → τ)
    (state : σ × τ) (action : α) : Option (σ × τ) :=
  (step state.1 action).map fun next => (next, note state.2 state.1 action next)

/-- The observer sees every run and changes none. -/
theorem exec_observed (step : σ → α → Option σ) (note : τ → σ → α → σ → τ)
    (start : σ) (notes : τ) (actions : List α) :
    (exec (observed step note) (start, notes) actions).map Prod.fst =
      exec step start actions := by
  induction actions generalizing start notes with
  | nil => rfl
  | cons action rest ih =>
      simp only [exec_cons, observed]
      cases hstep : step start action with
      | none => rfl
      | some next => exact ih next (note notes start action next)

end Transition
