import AgenticRag.Cache.Interleaving

/-!
# What one eviction removes

An eviction removes the entries whose ids it reads, and their store calls never
write them again.  For one store call and one eviction of a tag, this module
carries that from the `SMEMBERS` of the eviction to the end of the run.
-/

namespace AgenticRag.Cache

/-- The process has returned from an eviction or a cleanup. -/
def Process.isReturned {V : Type} : Process V → Bool
  | .returned => true
  | _ => false

theorem Process.isReturned_iff {V : Type} {process : Process V} :
    process.isReturned = true ↔ process = .returned := by
  cases process <;> simp [Process.isReturned]

namespace Machine

variable {V : Type}

/-- The members of a tag set are ids of entries that were upserted. -/
def Owned (machine : Machine V) : Prop :=
  ∀ tag, ∀ id ∈ machine.store.members tag, ∃ caller point pending,
    machine.process caller = .tagging point pending ∧ point.id = id

/-- What the store call of `caller` still means for a tag that `evictor` has
read: the entry is upserted, and it is gone unless its deletion comes next. -/
def Swept (tag : Tag) (evictor caller : ℕ) (machine : Machine V) : Prop :=
  ∀ point, (machine.process caller).point = some point → tag ∈ point.payload.tags →
    (∃ pending, machine.process caller = .tagging point pending) ∧
      (point ∈ machine.store.points →
        ∃ ids, machine.process evictor = .deleting tag ids ∧ point.id ∈ ids)

section Steps

variable {machine next : Machine V} {action : Action V} {caller evictor : ℕ} {tag : Tag}

theorem advance_tagging {process after : Process V} {before store : CacheStore V}
    {point : Point V} {pending : List Tag} (hprocess : process = .tagging point pending)
    (hadvance : process.advance before = some (after, store)) :
    ∃ rest, after = .tagging point rest := by
  subst hprocess
  cases pending with
  | nil => cases hadvance
  | cons tag rest =>
      cases hadvance
      exact ⟨rest, rfl⟩

/-- A store call that has upserted its entry stays there. -/
theorem step_tagging {point : Point V} {pending : List Tag}
    (hstep : machine.step action = some next)
    (htagging : machine.process caller = .tagging point pending) :
    ∃ rest, next.process caller = .tagging point rest := by
  rcases step_cases hstep with
    ⟨moving, invocation, rfl, habsent, _, _, hprocess, _⟩ |
      ⟨moving, process, rfl, hadvance, hprocess, _⟩
  · have hother : caller ≠ moving := by
      rintro rfl
      rw [habsent] at htagging
      cases htagging
    exact ⟨pending, by rw [hprocess, Function.update_of_ne hother, htagging]⟩
  · by_cases hmoving : caller = moving
    · subst hmoving
      rw [hprocess, Function.update_self]
      exact advance_tagging htagging hadvance
    · exact ⟨pending, by rw [hprocess, Function.update_of_ne hmoving, htagging]⟩

/-- A member that a command adds is the id of the entry it tags. -/
theorem advance_members {process after : Process V} {before store : CacheStore V}
    {id : Uuid} (hadvance : process.advance before = some (after, store))
    (hmember : id ∈ store.members tag) :
    id ∈ before.members tag ∨
      ∃ point pending, process = .tagging point pending ∧ point.id = id := by
  rcases advance_cases hadvance with
    ⟨point, mark, rest, rfl, _, rfl⟩ | ⟨point, rfl, _, rfl⟩ | ⟨mark, rfl, _, rfl⟩ |
      ⟨mark, ids, rfl, _, rfl⟩ | ⟨mark, rfl, _, rfl⟩ | hquiet
  · rcases CacheStore.mem_sadd.mp hmember with ⟨_, hid⟩ | hold
    · exact Or.inr ⟨point, mark :: rest, rfl, hid.symm⟩
    · exact Or.inl hold
  · exact Or.inl hmember
  · exact Or.inl hmember
  · exact Or.inl hmember
  · exact Or.inl (CacheStore.mem_del.mp hmember).2
  · rw [hquiet.members] at hmember
    exact Or.inl hmember

theorem step_owned (howned : Owned machine) (hstep : machine.step action = some next) :
    Owned next := by
  intro mark id hmember
  have hbefore : ∃ owner point pending, machine.process owner = .tagging point pending ∧
      point.id = id := by
    rcases step_cases hstep with
      ⟨_, _, _, _, _, hstore, _, _⟩ | ⟨moving, _, _, hadvance, _, _⟩
    · rw [hstore] at hmember
      exact howned mark id hmember
    · rcases advance_members hadvance hmember with hold | ⟨point, pending, htagging, hid⟩
      · exact howned mark id hold
      · exact ⟨moving, point, pending, htagging, hid⟩
  obtain ⟨owner, point, pending, htagging, hid⟩ := hbefore
  obtain ⟨rest, hrest⟩ := step_tagging hstep htagging
  exact ⟨owner, point, rest, hrest, hid⟩

theorem run_owned {actions : List (Action V)} (hrun : run actions = some machine) :
    Owned machine := by
  apply Transition.exec_invariant (motive := Owned) ?_ hrun
  · intro mark id hmember
    cases hmember
  · intro before event after howned hstep
    exact step_owned howned hstep

/-- A member that belongs to the entry of a store call: the call has upserted it. -/
theorem tagging_of_member (hnamed : WellNamed machine) (howned : Owned machine)
    {point : Point V} (hpoint : (machine.process caller).point = some point)
    (hmember : point.id ∈ machine.store.members tag) :
    ∃ pending, machine.process caller = .tagging point pending := by
  have hid : (machine.process caller).entryId = some point.id := by
    cases hprocess : machine.process caller with
    | ensuring written | storing written | tagging written _ =>
        rw [hprocess] at hpoint
        cases hpoint
        rfl
    | absent | evicting _ | deleting _ _ | dropping _ | checking _ | counting _
      | sweeping _ | discarding _ | returned =>
        rw [hprocess] at hpoint
        cases hpoint
  obtain ⟨owner, written, pending, htagging, heq⟩ := howned tag point.id hmember
  have howner : owner = caller := by
    apply hnamed.unique owner caller point.id
    · rw [htagging, ← heq]
      rfl
    · exact hid
  subst howner
  rw [htagging] at hpoint
  cases hpoint
  exact ⟨pending, htagging⟩

/-- Which point a command may add: the one its own store call writes. -/
theorem advance_points {process after : Process V} {before store : CacheStore V}
    {point : Point V} (hadvance : process.advance before = some (after, store))
    (hpoint : point ∈ store.points) :
    point ∈ before.points ∨ process = .storing point := by
  rcases advance_cases hadvance with
    ⟨_, _, _, rfl, _, rfl⟩ | ⟨written, rfl, _, rfl⟩ | ⟨_, rfl, _, rfl⟩ |
      ⟨_, _, rfl, _, rfl⟩ | ⟨_, rfl, _, rfl⟩ | hquiet
  · exact Or.inl hpoint
  · rcases CacheStore.mem_upsert.mp hpoint with ⟨hold, _⟩ | rfl
    · exact Or.inl hold
    · exact Or.inr rfl
  · exact Or.inl hpoint
  · exact Or.inl (CacheStore.mem_deletePoints.mp hpoint).1
  · exact Or.inl hpoint
  · exact Or.inl (hquiet.points point hpoint)

/-- An entry that is written is not written again. -/
theorem step_points {point : Point V} {pending : List Tag} (hnamed : WellNamed machine)
    (htagging : machine.process caller = .tagging point pending)
    (hstep : machine.step action = some next) (hpoint : point ∈ next.store.points) :
    point ∈ machine.store.points := by
  rcases step_cases hstep with
    ⟨_, _, _, _, _, hstore, _, _⟩ | ⟨moving, _, _, hadvance, _, _⟩
  · rw [hstore] at hpoint
    exact hpoint
  · rcases advance_points hadvance hpoint with hold | hstoring
    · exact hold
    · have hsame : caller = moving := by
        apply hnamed.unique caller moving point.id
        · rw [htagging]
          rfl
        · rw [hstoring]
          rfl
      rw [← hsame, htagging] at hstoring
      cases hstoring

/-- The eviction reads the set: an entry that is a member is about to go, unless it
is gone already. -/
theorem read_swept (hnamed : WellNamed machine) (howned : Owned machine)
    (hevicting : machine.process evictor = .evicting tag)
    (hmembers : ∀ point, (machine.process caller).point = some point →
      tag ∈ point.payload.tags → point.id ∈ machine.store.members tag ∨
        ((∃ pending, machine.process caller = .tagging point pending) ∧
          point ∉ machine.store.points))
    (hstep : machine.step (.proceed evictor) = some next) :
    Swept tag evictor caller next := by
  intro point hpoint htag
  have hbefore : (machine.process caller).point = some point := by
    rcases step_point hstep hpoint with hold | hinvoked
    · exact hold
    · cases hinvoked
  rcases hmembers point hbefore htag with hmember | ⟨⟨pending, htagging⟩, hgone⟩
  swap
  · exact ⟨step_tagging hstep htagging, fun hmem =>
      absurd (step_points hnamed htagging hstep hmem) hgone⟩
  obtain ⟨pending, htagging⟩ := tagging_of_member hnamed howned hbefore hmember
  refine ⟨step_tagging hstep htagging, fun _ => ?_⟩
  rcases step_cases hstep with
    ⟨_, _, haction, _⟩ | ⟨moving, process, haction, hadvance, hprocess, _⟩
  · cases haction
  · cases haction
    have hread : machine.store.smembers tag ≠ ∅ := by
      intro hempty
      rw [CacheStore.smembers] at hempty
      rw [hempty] at hmember
      cases hmember
    rw [hevicting, Process.advance, if_neg hread] at hadvance
    obtain ⟨rfl, _⟩ := Prod.mk.inj (Option.some.inj hadvance)
    refine ⟨machine.store.smembers tag, ?_, hmember⟩
    rw [hprocess, Function.update_self]

/-- After the set is read, only a new store call could bring an entry back. -/
theorem step_swept (hnamed : WellNamed machine) (hswept : Swept tag evictor caller machine)
    (hstep : machine.step action = some next)
    (hnew : ∀ point, action = .invoke caller (.store point) → tag ∉ point.payload.tags) :
    Swept tag evictor caller next := by
  intro point hpoint htag
  have hbefore : (machine.process caller).point = some point := by
    rcases step_point hstep hpoint with hold | hinvoked
    · exact hold
    · exact absurd htag (hnew point hinvoked)
  obtain ⟨⟨pending, htagging⟩, hgone⟩ := hswept point hbefore htag
  refine ⟨step_tagging hstep htagging, fun hmem => ?_⟩
  obtain ⟨ids, hdeleting, hid⟩ := hgone (step_points hnamed htagging hstep hmem)
  rcases step_cases hstep with
    ⟨moving, _, _, habsent, _, _, hprocess, _⟩ |
      ⟨moving, process, _, hadvance, hprocess, _⟩
  · have hother : evictor ≠ moving := by
      rintro rfl
      rw [habsent] at hdeleting
      cases hdeleting
    exact ⟨ids, by rw [hprocess, Function.update_of_ne hother, hdeleting], hid⟩
  · by_cases hmoving : evictor = moving
    · -- the deletion itself
      subst hmoving
      rw [hdeleting] at hadvance
      obtain ⟨_, hstore⟩ := Prod.mk.inj (Option.some.inj hadvance)
      rw [← hstore] at hmem
      exact absurd hid (CacheStore.mem_deletePoints.mp hmem).2
    · exact ⟨ids, by rw [hprocess, Function.update_of_ne hmoving, hdeleting], hid⟩

/-- Once the eviction has returned, no swept entry is left. -/
theorem Swept.gone (hswept : Swept tag evictor caller machine)
    (hreturned : machine.process evictor = .returned) {point : Point V}
    (hpoint : (machine.process caller).point = some point)
    (htag : tag ∈ point.payload.tags) : point ∉ machine.store.points := by
  intro hmem
  obtain ⟨ids, hdeleting, _⟩ := (hswept point hpoint htag).2 hmem
  rw [hreturned] at hdeleting
  cases hdeleting

end Steps

end Machine

end AgenticRag.Cache
