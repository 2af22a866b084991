import AgenticRag.Cache.SemanticCache
import AgenticRag.Core.Transition

/-!
# Concurrent cache calls

The same calls as sequences of commands that interleave.  Every caller has a
number, and its `Process` says which command it sends next.  The `SADD`s of a
pipeline are separate steps here, which covers the transaction that sends them
together.

An eviction reads a tag set, deletes the points it read and then deletes the
whole set.  An entry that is added to the set in between keeps its point and
loses its tag; no other interleaving does that.
-/

namespace AgenticRag.Cache

/-- A call in progress. -/
inductive Process (V : Type) where
  | absent
  | ensuring (point : Point V)
  | storing (point : Point V)
  | tagging (point : Point V) (pending : List Tag)
  | evicting (tag : Tag)
  | deleting (tag : Tag) (ids : Finset Uuid)
  | dropping (tag : Tag)
  | checking (cutoff : ℚ)
  | counting (cutoff : ℚ)
  | sweeping (cutoff : ℚ)
  | discarding (ids : Finset Uuid)
  | returned
  deriving DecidableEq

namespace Process

variable {V : Type}

/-- The id of the entry a store call writes. -/
def entryId : Process V → Option Uuid
  | .ensuring point | .storing point | .tagging point _ => some point.id
  | _ => none

/-- The entry a store call writes. -/
def point : Process V → Option (Point V)
  | .ensuring point | .storing point | .tagging point _ => some point
  | _ => none

/-- The tag whose members the process has read and not yet deleted. -/
def window : Process V → Option Tag
  | .deleting tag _ | .dropping tag => some tag
  | _ => none

/-- Send the next command. -/
def advance (store : CacheStore V) : Process V → Option (Process V × CacheStore V)
  | .absent => none
  | .ensuring point => some (.storing point, store.ensureCollection)
  | .storing point => some (.tagging point point.payload.tags, store.upsert point)
  | .tagging point (tag :: pending) =>
      some (.tagging point pending, store.sadd tag point.id)
  | .tagging _ [] => none
  | .evicting tag =>
      if store.smembers tag = ∅ then some (.returned, store)
      else some (.deleting tag (store.smembers tag), store)
  | .deleting tag ids => some (.dropping tag, store.deletePoints ids)
  | .dropping tag => some (.returned, store.del tag)
  | .checking cutoff =>
      if store.created = false then some (.returned, store)
      else some (.counting cutoff, store)
  | .counting cutoff =>
      if store.countExpired cutoff = 0 then some (.returned, store)
      else some (.sweeping cutoff, store)
  | .sweeping cutoff => some (.returned, store.deleteExpired cutoff)
  | .discarding ids => some (.returned, store.deletePoints ids)
  | .returned => none

/-- The tags still to be added are distinct. -/
def Distinct : Process V → Prop
  | .ensuring point | .storing point => point.payload.tags.Nodup
  | .tagging _ pending => pending.Nodup
  | _ => True

/-- The call has sent all its commands, or was never made. -/
def Finished (process : Process V) : Prop :=
  ∀ store, process.advance store = none

end Process

/-- A call: `store` with the point it builds, `_evict` of a tag, `purge_expired`,
and the deletion of stale points a lookup does not wait for. -/
inductive Invocation (V : Type) where
  | store (point : Point V)
  | evict (tag : Tag)
  | purge (cutoff : ℚ)
  | discard (ids : Finset Uuid)
  deriving DecidableEq

def Invocation.start {V : Type} : Invocation V → Process V
  | .store point => .ensuring point
  | .evict tag => .evicting tag
  | .purge cutoff => .checking cutoff
  | .discard ids => .discarding ids

/-- The effect of a completed call on the stores. -/
def Invocation.perform {V : Type} (invocation : Invocation V)
    (store : CacheStore V) : CacheStore V :=
  match invocation with
  | .store point => storeEntry point store
  | .evict tag => Cache.evict tag store
  | .purge cutoff => purgeExpired cutoff store
  | .discard ids => store.deletePoints ids

/-- The stores, the process of every caller, and the entry ids handed out. -/
structure Machine (V : Type) where
  store : CacheStore V := {}
  process : ℕ → Process V := fun _ => .absent
  issued : Finset Uuid := ∅

inductive Action (V : Type) where
  | invoke (caller : ℕ) (invocation : Invocation V)
  | proceed (caller : ℕ)
  deriving DecidableEq

def Action.caller {V : Type} : Action V → ℕ
  | .invoke caller _ | .proceed caller => caller

/-- An entry id is new, and the ids in its payload come from sets. -/
def Invocation.Admissible {V : Type} (issued : Finset Uuid) : Invocation V → Prop
  | .store point => point.id ∉ issued ∧ point.payload.tags.Nodup
  | _ => True

instance {V : Type} (issued : Finset Uuid) (invocation : Invocation V) :
    Decidable (invocation.Admissible issued) :=
  match invocation with
  | .store _ => inferInstanceAs (Decidable (_ ∧ _))
  | .evict _ => isTrue trivial
  | .purge _ => isTrue trivial
  | .discard _ => isTrue trivial

def Invocation.newIds {V : Type} : Invocation V → Finset Uuid
  | .store point => {point.id}
  | _ => ∅

namespace Machine

variable {V : Type}

def step (machine : Machine V) : Action V → Option (Machine V)
  | .invoke caller invocation =>
      match machine.process caller with
      | .absent =>
          if invocation.Admissible machine.issued then
            some
              { machine with
                process := Function.update machine.process caller invocation.start
                issued := machine.issued ∪ invocation.newIds }
          else none
      | _ => none
  | .proceed caller =>
      match (machine.process caller).advance machine.store with
      | some (process, store) =>
          some
            { machine with
              store := store
              process := Function.update machine.process caller process }
      | none => none

/-- Run the interleaved calls from an empty cache. -/
def run (actions : List (Action V)) : Option (Machine V) :=
  Transition.exec step {} actions

/-- All calls have finished. -/
def Quiescent (machine : Machine V) : Prop :=
  ∀ caller, (machine.process caller).Finished

/-- Some eviction is between its `SMEMBERS` and its `DEL` of the tag. -/
def OpenWindow (machine : Machine V) (tag : Tag) : Prop :=
  ∃ caller, (machine.process caller).window = some tag

/-- The next command of the action adds the entry to the set of the tag while an
eviction of that tag is open. -/
def AddsInWindow (point : Point V) (tag : Tag) (machine : Machine V)
    (action : Action V) : Prop :=
  ∃ caller pending, action = .proceed caller ∧
    machine.process caller = .tagging point (tag :: pending) ∧
    machine.OpenWindow tag

/-- The entry was added to the set of the tag while an eviction was open. -/
def Raced (actions : List (Action V)) (point : Point V) (tag : Tag) : Prop :=
  Transition.Occurs step {} actions (AddsInWindow point tag)

/-- Everything a step can do. -/
theorem step_cases {machine next : Machine V} {action : Action V}
    (hstep : machine.step action = some next) :
    (∃ caller invocation, action = .invoke caller invocation ∧
      machine.process caller = .absent ∧ invocation.Admissible machine.issued ∧
      next.store = machine.store ∧
      next.process = Function.update machine.process caller invocation.start ∧
      next.issued = machine.issued ∪ invocation.newIds) ∨
    ∃ caller process, action = .proceed caller ∧
      (machine.process caller).advance machine.store = some (process, next.store) ∧
      next.process = Function.update machine.process caller process ∧
      next.issued = machine.issued := by
  cases action with
  | invoke caller invocation =>
      simp only [step] at hstep
      split at hstep
      · rename_i habsent
        split_ifs at hstep with hadmissible
        cases hstep
        exact Or.inl ⟨caller, invocation, rfl, habsent, hadmissible, rfl, rfl, rfl⟩
      · cases hstep
  | proceed caller =>
      simp only [step] at hstep
      split at hstep
      · rename_i process store hadvance
        cases hstep
        exact Or.inr ⟨caller, process, rfl, hadvance, rfl, rfl⟩
      · cases hstep

/-- A command that leaves the tag sets alone and only removes points, sent by a
process outside the tagging and evicting phases. -/
structure QuietAdvance (process after : Process V) (before store : CacheStore V) :
    Prop where
  before_ne : ∀ point pending, process ≠ .tagging point pending
  after_ne : ∀ point pending, after ≠ .tagging point pending
  closed : process.window = none
  closed_after : after.window = none
  members : store.members = before.members
  points : ∀ point ∈ store.points, point ∈ before.points

/-- Everything a command can do. -/
theorem advance_cases {process after : Process V} {before store : CacheStore V}
    (hadvance : process.advance before = some (after, store)) :
    (∃ point tag rest, process = .tagging point (tag :: rest) ∧
      after = .tagging point rest ∧ store = before.sadd tag point.id) ∨
    (∃ point, process = .storing point ∧
      after = .tagging point point.payload.tags ∧ store = before.upsert point) ∨
    (∃ tag, process = .evicting tag ∧
      after = .deleting tag (before.smembers tag) ∧ store = before) ∨
    (∃ tag ids, process = .deleting tag ids ∧ after = .dropping tag ∧
      store = before.deletePoints ids) ∨
    (∃ tag, process = .dropping tag ∧ after = .returned ∧ store = before.del tag) ∨
    QuietAdvance process after before store := by
  cases process with
  | absent | returned => cases hadvance
  | tagging point pending =>
      cases pending with
      | nil => cases hadvance
      | cons tag rest =>
          cases hadvance
          exact Or.inl ⟨point, tag, rest, rfl, rfl, rfl⟩
  | storing point =>
      cases hadvance
      exact Or.inr (Or.inl ⟨point, rfl, rfl, rfl⟩)
  | deleting tag ids =>
      cases hadvance
      exact Or.inr (Or.inr (Or.inr (Or.inl ⟨tag, ids, rfl, rfl, rfl⟩)))
  | dropping tag =>
      cases hadvance
      exact Or.inr (Or.inr (Or.inr (Or.inr (Or.inl ⟨tag, rfl, rfl, rfl⟩))))
  | ensuring point =>
      cases hadvance
      refine Or.inr (Or.inr (Or.inr (Or.inr (Or.inr ?_))))
      exact ⟨nofun, nofun, rfl, rfl, rfl, fun _ hpoint => hpoint⟩
  | sweeping cutoff =>
      cases hadvance
      refine Or.inr (Or.inr (Or.inr (Or.inr (Or.inr ?_))))
      exact ⟨nofun, nofun, rfl, rfl, rfl, fun _ hpoint =>
        (CacheStore.mem_deleteExpired.mp hpoint).1⟩
  | discarding ids =>
      cases hadvance
      refine Or.inr (Or.inr (Or.inr (Or.inr (Or.inr ?_))))
      exact ⟨nofun, nofun, rfl, rfl, rfl, fun _ hpoint =>
        (CacheStore.mem_deletePoints.mp hpoint).1⟩
  | evicting tag =>
      simp only [Process.advance] at hadvance
      split_ifs at hadvance
      · cases hadvance
        refine Or.inr (Or.inr (Or.inr (Or.inr (Or.inr ?_))))
        exact ⟨nofun, nofun, rfl, rfl, rfl, fun _ hpoint => hpoint⟩
      · cases hadvance
        exact Or.inr (Or.inr (Or.inl ⟨tag, rfl, rfl, rfl⟩))
  | checking cutoff | counting cutoff =>
      simp only [Process.advance] at hadvance
      split_ifs at hadvance
      all_goals
        cases hadvance
        refine Or.inr (Or.inr (Or.inr (Or.inr (Or.inr ?_))))
        exact ⟨nofun, nofun, rfl, rfl, rfl, fun _ hpoint => hpoint⟩

/-! ## Names -/

section Names

variable {process after : Process V} {before store : CacheStore V}
variable {issued : Finset Uuid} {invocation : Invocation V} {id : Uuid}

/-- The name of an entry is the id of its point. -/
theorem entryId_eq (process : Process V) : process.entryId = process.point.map (·.id) := by
  cases process <;> rfl

theorem advance_point (hadvance : process.advance before = some (after, store)) :
    after.point = process.point := by
  cases process with
  | absent | returned => cases hadvance
  | ensuring point | storing point | deleting tag ids | dropping tag
    | sweeping cutoff | discarding ids =>
      cases hadvance
      rfl
  | tagging point pending =>
      cases pending with
      | nil => cases hadvance
      | cons tag rest =>
          cases hadvance
          rfl
  | evicting tag | checking cutoff | counting cutoff =>
      simp only [Process.advance] at hadvance
      split_ifs at hadvance <;> cases hadvance <;> rfl

theorem advance_entryId (hadvance : process.advance before = some (after, store)) :
    after.entryId = process.entryId := by
  rw [entryId_eq, entryId_eq, advance_point hadvance]

theorem advance_distinct (hdistinct : process.Distinct)
    (hadvance : process.advance before = some (after, store)) : after.Distinct := by
  cases process with
  | absent | returned => cases hadvance
  | ensuring point | storing point =>
      cases hadvance
      exact hdistinct
  | tagging point pending =>
      cases pending with
      | nil => cases hadvance
      | cons tag rest =>
          cases hadvance
          exact (List.nodup_cons.mp hdistinct).2
  | deleting tag ids | dropping tag | sweeping cutoff | discarding ids =>
      cases hadvance
      trivial
  | evicting tag | checking cutoff | counting cutoff =>
      simp only [Process.advance] at hadvance
      split_ifs at hadvance <;> cases hadvance <;> trivial

private theorem start_entryId (hid : invocation.start.entryId = some id) :
    id ∈ invocation.newIds := by
  cases invocation with
  | store point =>
      cases hid
      exact Finset.mem_singleton_self _
  | evict tag => cases hid
  | purge cutoff => cases hid
  | discard ids => cases hid

private theorem start_fresh (hadmissible : invocation.Admissible issued)
    (hid : invocation.start.entryId = some id) : id ∉ issued := by
  cases invocation with
  | store point =>
      cases hid
      exact hadmissible.1
  | evict tag => cases hid
  | purge cutoff => cases hid
  | discard ids => cases hid

private theorem start_distinct (hadmissible : invocation.Admissible issued) :
    invocation.start.Distinct := by
  cases invocation with
  | store point => exact hadmissible.2
  | evict tag => trivial
  | purge cutoff => trivial
  | discard ids => trivial

end Names

/-- A process writes the entry its call was made with. -/
theorem step_point {machine next : Machine V} {action : Action V} {caller : ℕ}
    {point : Point V} (hstep : machine.step action = some next)
    (hpoint : (next.process caller).point = some point) :
    (machine.process caller).point = some point ∨
      action = .invoke caller (.store point) := by
  rcases step_cases hstep with
    ⟨moving, invocation, rfl, _, _, _, hprocess, _⟩ |
      ⟨moving, process, rfl, hadvance, hprocess, _⟩
  · by_cases hmoving : caller = moving
    · subst hmoving
      rw [hprocess, Function.update_self] at hpoint
      cases invocation with
      | store stored =>
          cases hpoint
          exact Or.inr rfl
      | evict _ | purge _ | discard _ => cases hpoint
    · rw [hprocess, Function.update_of_ne hmoving] at hpoint
      exact Or.inl hpoint
  · by_cases hmoving : caller = moving
    · subst hmoving
      rw [hprocess, Function.update_self, advance_point hadvance] at hpoint
      exact Or.inl hpoint
    · rw [hprocess, Function.update_of_ne hmoving] at hpoint
      exact Or.inl hpoint

/-- Entry ids are issued once, and the pending tags of an entry are distinct. -/
structure WellNamed (machine : Machine V) : Prop where
  unique : ∀ first second id, (machine.process first).entryId = some id →
    (machine.process second).entryId = some id → first = second
  issued : ∀ caller id, (machine.process caller).entryId = some id →
    id ∈ machine.issued
  distinct : ∀ caller, (machine.process caller).Distinct

theorem invoke_wellNamed {machine next : Machine V} {caller : ℕ}
    {invocation : Invocation V} (hnamed : WellNamed machine)
    (hadmissible : invocation.Admissible machine.issued)
    (hprocess : next.process =
      Function.update machine.process caller invocation.start)
    (hissued : next.issued = machine.issued ∪ invocation.newIds) :
    WellNamed next := by
  have hself : next.process caller = invocation.start := by
    rw [hprocess, Function.update_self]
  have hother : ∀ other, other ≠ caller →
      next.process other = machine.process other := by
    intro other hne
    rw [hprocess, Function.update_of_ne hne]
  have hfresh : ∀ other id, other ≠ caller →
      (next.process caller).entryId = some id →
        (next.process other).entryId ≠ some id := by
    intro other id hne hid hid'
    rw [hself] at hid
    rw [hother other hne] at hid'
    exact start_fresh hadmissible hid (hnamed.issued other id hid')
  constructor
  · intro first second id hfirst hsecond
    by_cases hf : first = caller
    · by_contra hne
      subst hf
      exact hfresh second id (Ne.symm hne) hfirst hsecond
    · by_cases hs : second = caller
      · subst hs
        exact absurd hfirst (hfresh first id hf hsecond)
      · rw [hother first hf] at hfirst
        rw [hother second hs] at hsecond
        exact hnamed.unique first second id hfirst hsecond
  · intro other id hid
    rw [hissued]
    by_cases ho : other = caller
    · rw [ho, hself] at hid
      exact Finset.mem_union_right _ (start_entryId hid)
    · rw [hother other ho] at hid
      exact Finset.mem_union_left _ (hnamed.issued other id hid)
  · intro other
    by_cases ho : other = caller
    · rw [ho, hself]
      exact start_distinct hadmissible
    · rw [hother other ho]
      exact hnamed.distinct other

theorem proceed_wellNamed {machine next : Machine V} {caller : ℕ}
    {process : Process V} (hnamed : WellNamed machine)
    (hadvance : (machine.process caller).advance machine.store =
      some (process, next.store))
    (hprocess : next.process = Function.update machine.process caller process)
    (hissued : next.issued = machine.issued) : WellNamed next := by
  have hid : ∀ other, (next.process other).entryId =
      (machine.process other).entryId := by
    intro other
    rw [hprocess]
    by_cases ho : other = caller
    · rw [ho, Function.update_self]
      exact advance_entryId hadvance
    · rw [Function.update_of_ne ho]
  constructor
  · intro first second id hfirst hsecond
    rw [hid] at hfirst hsecond
    exact hnamed.unique first second id hfirst hsecond
  · intro other id hother
    rw [hid] at hother
    rw [hissued]
    exact hnamed.issued other id hother
  · intro other
    rw [hprocess]
    by_cases ho : other = caller
    · rw [ho, Function.update_self]
      exact advance_distinct (hnamed.distinct caller) hadvance
    · rw [Function.update_of_ne ho]
      exact hnamed.distinct other

theorem step_wellNamed {machine next : Machine V} {action : Action V}
    (hnamed : WellNamed machine) (hstep : machine.step action = some next) :
    WellNamed next := by
  rcases step_cases hstep with
    ⟨_, _, _, _, hadmissible, _, hprocess, hissued⟩ |
      ⟨_, _, _, hadvance, hprocess, hissued⟩
  · exact invoke_wellNamed hnamed hadmissible hprocess hissued
  · exact proceed_wellNamed hnamed hadvance hprocess hissued

theorem run_wellNamed {actions : List (Action V)} {machine : Machine V}
    (hrun : run actions = some machine) : WellNamed machine := by
  refine Transition.exec_invariant (fun _ _ _ => step_wellNamed) hrun ?_
  constructor
  · intro first second id hfirst
    cases hfirst
  · intro caller id hid
    cases hid
  · intro caller
    trivial

/-! ## Calls without interference -/

section Alone

variable {machine : Machine V} {caller : ℕ}

theorem proceed_eq {process : Process V} {store : CacheStore V}
    (hadvance : (machine.process caller).advance machine.store =
      some (process, store)) :
    machine.step (.proceed caller) = some
      { machine with
        store := store
        process := Function.update machine.process caller process } := by
  simp only [step, hadvance]

/-- Sending commands of one caller only. -/
def Reaches (machine : Machine V) (caller : ℕ) (process : Process V)
    (store : CacheStore V) : Prop :=
  ∃ count next, Transition.exec step machine
      (List.replicate count (.proceed caller)) = some next ∧
    next.process caller = process ∧ next.store = store

theorem Reaches.refl (machine : Machine V) (caller : ℕ) :
    machine.Reaches caller (machine.process caller) machine.store :=
  ⟨0, machine, rfl, rfl, rfl⟩

/-- One more command in front. -/
theorem Reaches.head {process after : Process V} {store final : CacheStore V}
    (hadvance : (machine.process caller).advance machine.store =
      some (process, store))
    (hrest : Reaches
      { machine with
        store := store
        process := Function.update machine.process caller process }
      caller after final) :
    machine.Reaches caller after final := by
  obtain ⟨count, next, hexec, hafter, hfinal⟩ := hrest
  refine ⟨count + 1, next, ?_, hafter, hfinal⟩
  rw [List.replicate_succ, Transition.exec_cons, proceed_eq hadvance]
  exact hexec

theorem reaches_tagged {point : Point V} {pending : List Tag}
    (hprocess : machine.process caller = .tagging point pending) :
    machine.Reaches caller (.tagging point [])
      (pending.foldl (fun store tag => store.sadd tag point.id) machine.store) := by
  induction pending generalizing machine with
  | nil =>
      rw [← hprocess]
      exact Reaches.refl machine caller
  | cons tag rest ih =>
      apply Reaches.head
      · rw [hprocess]
        rfl
      · apply ih
        exact Function.update_self _ _ _

private theorem store_reaches {point : Point V}
    (hprocess : machine.process caller = .ensuring point) :
    machine.Reaches caller (.tagging point []) (storeEntry point machine.store) := by
  apply Reaches.head
  · rw [hprocess]
    rfl
  · apply Reaches.head
    · simp only [Function.update_self]
      rfl
    · apply reaches_tagged
      exact Function.update_self _ _ _

private theorem evict_reaches {tag : Tag}
    (hprocess : machine.process caller = .evicting tag) :
    machine.Reaches caller .returned (evict tag machine.store) := by
  by_cases hempty : machine.store.smembers tag = ∅
  · rw [evict, if_pos hempty]
    apply Reaches.head
    · rw [hprocess, Process.advance, if_pos hempty]
    · exact ⟨0, _, rfl, Function.update_self _ _ _, rfl⟩
  · rw [evict, if_neg hempty]
    apply Reaches.head
    · rw [hprocess, Process.advance, if_neg hempty]
    · apply Reaches.head
      · simp only [Function.update_self]
        rfl
      · apply Reaches.head
        · simp only [Function.update_self]
          rfl
        · exact ⟨0, _, rfl, Function.update_self _ _ _, rfl⟩

private theorem purge_reaches {cutoff : ℚ}
    (hprocess : machine.process caller = .checking cutoff) :
    machine.Reaches caller .returned (purgeExpired cutoff machine.store) := by
  by_cases hcreated : machine.store.created = false
  · rw [purgeExpired, if_pos hcreated]
    apply Reaches.head
    · rw [hprocess, Process.advance, if_pos hcreated]
    · exact ⟨0, _, rfl, Function.update_self _ _ _, rfl⟩
  · rw [purgeExpired, if_neg hcreated]
    apply Reaches.head
    · rw [hprocess, Process.advance, if_neg hcreated]
    · by_cases hcount : machine.store.countExpired cutoff = 0
      · rw [if_pos hcount]
        apply Reaches.head
        · simp only [Function.update_self, Process.advance, if_pos hcount]
          rfl
        · exact ⟨0, _, rfl, Function.update_self _ _ _, rfl⟩
      · rw [if_neg hcount]
        apply Reaches.head
        · simp only [Function.update_self, Process.advance, if_neg hcount]
          rfl
        · apply Reaches.head
          · simp only [Function.update_self]
            rfl
          · exact ⟨0, _, rfl, Function.update_self _ _ _, rfl⟩

private theorem discard_reaches {ids : Finset Uuid}
    (hprocess : machine.process caller = .discarding ids) :
    machine.Reaches caller .returned (machine.store.deletePoints ids) := by
  apply Reaches.head
  · rw [hprocess]
    rfl
  · exact ⟨0, _, rfl, Function.update_self _ _ _, rfl⟩

/-- Without interference, the commands of a call add up to the operation of the
sequential cache. -/
theorem invocation_reaches {invocation : Invocation V}
    (hprocess : machine.process caller = invocation.start) :
    ∃ process, machine.Reaches caller process (invocation.perform machine.store) ∧
      process.Finished := by
  cases invocation with
  | store point => exact ⟨_, store_reaches hprocess, fun _ => rfl⟩
  | evict tag => exact ⟨_, evict_reaches hprocess, fun _ => rfl⟩
  | purge cutoff => exact ⟨_, purge_reaches hprocess, fun _ => rfl⟩
  | discard ids => exact ⟨_, discard_reaches hprocess, fun _ => rfl⟩

end Alone

end Machine

end AgenticRag.Cache
