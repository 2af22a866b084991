import AgenticRag.Cache.Interleaving

/-!
# Entries that lose a tag

An entry of the cache is a member of a tag set exactly when it was not added to
the set between the `SMEMBERS` and the `DEL` of an eviction.  The invariant
says, for the entries that were not: they are in the set, every open eviction
has read them, and none is about to delete the set.
-/

namespace AgenticRag.Cache.Machine

variable {V : Type}

/-- The open evictions of the tag have read the entry and not yet deleted it. -/
def KnownToEvictions (machine : Machine V) (point : Point V) (tag : Tag) : Prop :=
  ∀ caller, (∀ ids, machine.process caller = .deleting tag ids → point.id ∈ ids) ∧
    machine.process caller ≠ .dropping tag

structure Coherent (raced : Point V → Tag → Prop) (machine : Machine V) : Prop where
  /-- Every point was written by a store call. -/
  written : ∀ point ∈ machine.store.points, ∃ caller pending,
    machine.process caller = .tagging point pending
  /-- The tag of an entry that was not raced. -/
  tagged : ∀ caller point pending tag,
    machine.process caller = .tagging point pending →
    point ∈ machine.store.points → tag ∈ point.payload.tags → tag ∉ pending →
    ¬ raced point tag →
    point.id ∈ machine.store.members tag ∧ machine.KnownToEvictions point tag
  /-- A raced entry loses its tag when the open eviction ends. -/
  raced : ∀ point tag, raced point tag → ∃ caller pending,
    machine.process caller = .tagging point pending ∧ tag ∉ pending ∧
      (point.id ∉ machine.store.members tag ∨ machine.OpenWindow tag)

section Steps

variable {raced : Point V → Tag → Prop} {machine next : Machine V}
variable {caller : ℕ} {process : Process V}

theorem not_addsInWindow {point : Point V} {tag : Tag}
    (hbefore : ∀ point pending, machine.process caller ≠ .tagging point pending) :
    ¬ AddsInWindow point tag machine (.proceed caller) := by
  rintro ⟨other, pending, haction, htagging, _⟩
  cases haction
  exact hbefore point _ htagging

/-- The other callers do not notice a step. -/
theorem process_other (hprocess : next.process =
      Function.update machine.process caller process) {other : ℕ}
    (hne : other ≠ caller) : next.process other = machine.process other := by
  rw [hprocess, Function.update_of_ne hne]

theorem process_self (hprocess : next.process =
      Function.update machine.process caller process) :
    next.process caller = process := by
  rw [hprocess, Function.update_self]

/-- A window stays open when its own eviction does not end. -/
theorem OpenWindow.step {tag : Tag} (hopen : machine.OpenWindow tag)
    (hprocess : next.process = Function.update machine.process caller process)
    (hself : (machine.process caller).window = some tag →
      process.window = some tag) : next.OpenWindow tag := by
  obtain ⟨other, hother⟩ := hopen
  by_cases heq : other = caller
  · subst heq
    refine ⟨other, ?_⟩
    rw [process_self hprocess]
    exact hself hother
  · refine ⟨other, ?_⟩
    rw [process_other hprocess heq]
    exact hother

/-- What the evictions know does not change with a step that belongs to none. -/
theorem KnownToEvictions.step {point : Point V} {tag : Tag}
    (hknown : machine.KnownToEvictions point tag)
    (hprocess : next.process = Function.update machine.process caller process)
    (hself : (∀ ids, process = .deleting tag ids → point.id ∈ ids) ∧
      process ≠ .dropping tag) : next.KnownToEvictions point tag := by
  intro evictor
  by_cases heq : evictor = caller
  · rw [heq, process_self hprocess]
    exact hself
  · rw [process_other hprocess heq]
    exact hknown evictor

/-- Without an open eviction of the tag there is none that could miss the entry. -/
theorem known_of_shut {tag : Tag} (point : Point V) (hshut : ¬ machine.OpenWindow tag) :
    machine.KnownToEvictions point tag := by
  intro evictor
  constructor
  · intro ids hdeleting
    exact absurd ⟨evictor, by rw [hdeleting]; rfl⟩ hshut
  · intro hdropping
    exact hshut ⟨evictor, by rw [hdropping]; rfl⟩

/-- A step by a process that is not a store call: it has to keep what is known
about the entries that remain, and must not lose a raced entry's window. -/
theorem Coherent.untagging (hcoherent : Coherent raced machine)
    (hprocess : next.process = Function.update machine.process caller process)
    (hbefore : ∀ point pending, machine.process caller ≠ .tagging point pending)
    (hafter : ∀ point pending, process ≠ .tagging point pending)
    (hpoints : ∀ point ∈ next.store.points, point ∈ machine.store.points)
    (hkeep : ∀ point ∈ next.store.points, ∀ tag,
      point.id ∈ machine.store.members tag → machine.KnownToEvictions point tag →
      point.id ∈ next.store.members tag ∧
        (∀ ids, process = .deleting tag ids → point.id ∈ ids) ∧
        process ≠ .dropping tag)
    (hlost : ∀ id tag, id ∉ machine.store.members tag ∨ machine.OpenWindow tag →
      id ∉ next.store.members tag ∨ next.OpenWindow tag) :
    Coherent raced next := by
  have hstay : ∀ other point pending,
      machine.process other = .tagging point pending →
        next.process other = .tagging point pending := by
    intro other point pending htagging
    have hne : other ≠ caller := by
      rintro rfl
      exact hbefore point pending htagging
    rw [process_other hprocess hne, htagging]
  constructor
  · intro point hpoint
    obtain ⟨other, pending, htagging⟩ := hcoherent.written point (hpoints point hpoint)
    exact ⟨other, pending, hstay other point pending htagging⟩
  · intro other point pending tag htagging hpoint htag hdone hclear
    have hne : other ≠ caller := by
      rintro rfl
      rw [process_self hprocess] at htagging
      exact hafter point pending htagging
    rw [process_other hprocess hne] at htagging
    obtain ⟨hmember, hknown⟩ := hcoherent.tagged other point pending tag htagging
      (hpoints point hpoint) htag hdone hclear
    obtain ⟨hmember', hself⟩ := hkeep point hpoint tag hmember hknown
    exact ⟨hmember', hknown.step hprocess hself⟩
  · intro point tag hraced
    obtain ⟨other, pending, htagging, hdone, hgone⟩ := hcoherent.raced point tag hraced
    exact ⟨other, pending, hstay other point pending htagging, hdone,
      hlost point.id tag hgone⟩

/-- A step that sends no command on the tag sets and belongs to no eviction. -/
theorem Coherent.quiet (hcoherent : Coherent raced machine)
    (hprocess : next.process = Function.update machine.process caller process)
    (hpoints : ∀ point ∈ next.store.points, point ∈ machine.store.points)
    (hmembers : next.store.members = machine.store.members)
    (hbefore : ∀ point pending, machine.process caller ≠ .tagging point pending)
    (hafter : ∀ point pending, process ≠ .tagging point pending)
    (hclosed : (machine.process caller).window = none)
    (hquiet : process.window = none) : Coherent raced next := by
  apply hcoherent.untagging hprocess hbefore hafter hpoints
  · intro point _ tag hmember _
    refine ⟨by rwa [hmembers], ?_, ?_⟩
    · rintro ids rfl
      cases hquiet
    · rintro rfl
      cases hquiet
  · intro id tag hgone
    rw [hmembers]
    apply hgone.imp_right
    intro hopen
    apply hopen.step hprocess
    rw [hclosed]
    rintro ⟨⟩

theorem Coherent.upsert {point : Point V} (hnamed : WellNamed machine)
    (hcoherent : Coherent raced machine)
    (hprocess : next.process = Function.update machine.process caller
      (.tagging point point.payload.tags))
    (hstore : next.store = machine.store.upsert point)
    (hcaller : machine.process caller = .storing point) : Coherent raced next := by
  have hne : ∀ other written pending,
      machine.process other = .tagging written pending → other ≠ caller := by
    rintro other written pending htagging rfl
    rw [hcaller] at htagging
    cases htagging
  constructor
  · intro written hwritten
    rw [hstore] at hwritten
    rcases CacheStore.mem_upsert.mp hwritten with ⟨hold, _⟩ | rfl
    · obtain ⟨other, pending, htagging⟩ := hcoherent.written written hold
      refine ⟨other, pending, ?_⟩
      rw [process_other hprocess (hne other written pending htagging), htagging]
    · exact ⟨caller, _, process_self hprocess⟩
  · intro other written pending tag htagging hwritten htag hdone hclear
    by_cases heq : other = caller
    · rw [heq, process_self hprocess] at htagging
      cases htagging
      exact absurd htag hdone
    · rw [process_other hprocess heq] at htagging
      rw [hstore] at hwritten
      rcases CacheStore.mem_upsert.mp hwritten with ⟨hold, _⟩ | rfl
      · obtain ⟨hmember, hknown⟩ := hcoherent.tagged other written pending tag
          htagging hold htag hdone hclear
        exact ⟨by rwa [hstore], hknown.step hprocess ⟨by simp, by simp⟩⟩
      · -- the id belongs to the storing process
        apply absurd _ heq
        apply hnamed.unique other caller written.id
        · rw [htagging]
          rfl
        · rw [hcaller]
          rfl
  · intro written tag hraced
    obtain ⟨other, pending, htagging, hdone, hlost⟩ :=
      hcoherent.raced written tag hraced
    refine ⟨other, pending, ?_, hdone, ?_⟩
    · rw [process_other hprocess (hne other written pending htagging), htagging]
    · rw [hstore]
      apply hlost.imp_right
      intro hopen
      apply hopen.step hprocess
      rw [hcaller]
      rintro ⟨⟩

/-- An `SADD` outside the windows of its tag keeps the entry known; one inside
makes it raced. -/
theorem Coherent.sadd {point : Point V} {tag : Tag} {rest : List Tag}
    (hnamed : WellNamed machine) (hcoherent : Coherent raced machine)
    (hprocess : next.process =
      Function.update machine.process caller (.tagging point rest))
    (hstore : next.store = machine.store.sadd tag point.id)
    (hcaller : machine.process caller = .tagging point (tag :: rest)) :
    Coherent (fun written other => raced written other ∨
      AddsInWindow written other machine (.proceed caller)) next := by
  have hopen : ∀ other, machine.OpenWindow other → next.OpenWindow other := by
    intro other hother
    apply hother.step hprocess
    rw [hcaller]
    rintro ⟨⟩
  have hnodup : tag ∉ rest := by
    have hdistinct := hnamed.distinct caller
    rw [hcaller] at hdistinct
    exact (List.nodup_cons.mp hdistinct).1
  -- a raced entry that this command does not tag stays lost
  have hlost : ∀ (written : Point V) mark, (mark = tag → written.id ≠ point.id) →
      written.id ∉ machine.store.members mark ∨ machine.OpenWindow mark →
      written.id ∉ next.store.members mark ∨ next.OpenWindow mark := by
    intro written mark hother hbefore
    apply hbefore.imp _ (hopen mark)
    intro hnot hmember
    rw [hstore] at hmember
    rcases CacheStore.mem_sadd.mp hmember with ⟨hmark, hid⟩ | hold
    · exact hother hmark hid
    · exact hnot hold
  constructor
  · intro written hwritten
    rw [hstore, CacheStore.sadd_points] at hwritten
    obtain ⟨other, pending, htagging⟩ := hcoherent.written written hwritten
    by_cases heq : other = caller
    · rw [heq, hcaller] at htagging
      cases htagging
      exact ⟨caller, rest, process_self hprocess⟩
    · exact ⟨other, pending, by rw [process_other hprocess heq, htagging]⟩
  · intro other written pending mark htagging hwritten hmark hdone hclear
    rw [not_or] at hclear
    rw [hstore, CacheStore.sadd_points] at hwritten
    have hkeep : machine.KnownToEvictions written mark →
        next.KnownToEvictions written mark :=
      fun hknown => hknown.step hprocess ⟨by simp, by simp⟩
    have hgrow : written.id ∈ machine.store.members mark →
        written.id ∈ next.store.members mark := by
      intro hmember
      rw [hstore]
      exact CacheStore.mem_sadd.mpr (Or.inr hmember)
    by_cases heq : other = caller
    · rw [heq, process_self hprocess] at htagging
      cases htagging
      by_cases hnew : mark = tag
      · subst hnew
        have hshut : ¬ machine.OpenWindow mark := by
          intro hwindow
          exact hclear.2 ⟨caller, rest, rfl, hcaller, hwindow⟩
        constructor
        · rw [hstore]
          exact CacheStore.mem_sadd.mpr (Or.inl ⟨rfl, rfl⟩)
        · exact hkeep (known_of_shut point hshut)
      · obtain ⟨hmember, hknown⟩ := hcoherent.tagged caller point (tag :: rest)
          mark hcaller hwritten hmark
          (by rw [List.mem_cons, not_or]; exact ⟨hnew, hdone⟩) hclear.1
        exact ⟨hgrow hmember, hkeep hknown⟩
    · rw [process_other hprocess heq] at htagging
      obtain ⟨hmember, hknown⟩ := hcoherent.tagged other written pending mark
        htagging hwritten hmark hdone hclear.1
      exact ⟨hgrow hmember, hkeep hknown⟩
  · rintro written mark (hraced | ⟨other, pending, haction, htagging, hwindow⟩)
    · obtain ⟨other, pending, htagging, hdone, hbefore⟩ :=
        hcoherent.raced written mark hraced
      by_cases heq : other = caller
      · rw [heq, hcaller] at htagging
        cases htagging
        rw [List.mem_cons, not_or] at hdone
        exact ⟨caller, rest, process_self hprocess, hdone.2,
          hlost point mark (fun hmark => absurd hmark hdone.1) hbefore⟩
      · refine ⟨other, pending, by rw [process_other hprocess heq, htagging], hdone,
          hlost written mark (fun _ hid => heq ?_) hbefore⟩
        apply hnamed.unique other caller written.id
        · rw [htagging]
          rfl
        · rw [hcaller, hid]
          rfl
    · cases haction
      rw [hcaller] at htagging
      cases htagging
      exact ⟨caller, rest, process_self hprocess, hnodup, Or.inr (hopen tag hwindow)⟩

/-- `SMEMBERS` reads every entry that was not raced. -/
theorem Coherent.smembers {tag : Tag} (hcoherent : Coherent raced machine)
    (hprocess : next.process = Function.update machine.process caller
      (.deleting tag (machine.store.smembers tag)))
    (hstore : next.store = machine.store)
    (hcaller : machine.process caller = .evicting tag) : Coherent raced next := by
  apply hcoherent.untagging hprocess
  · rw [hcaller]
    rintro point pending ⟨⟩
  · rintro point pending ⟨⟩
  · rw [hstore]
    exact fun _ hpoint => hpoint
  · intro point _ mark hmember _
    refine ⟨by rwa [hstore], ?_, ?_⟩
    · rintro ids ⟨⟩
      exact hmember
    · rintro ⟨⟩
  · intro id mark hgone
    rw [hstore]
    apply hgone.imp_right
    intro hopen
    apply hopen.step hprocess
    rw [hcaller]
    rintro ⟨⟩

/-- The deletion of the points removes every entry of the tag that was not
raced. -/
theorem Coherent.deletePoints {tag : Tag} {ids : Finset Uuid}
    (hcoherent : Coherent raced machine)
    (hprocess : next.process =
      Function.update machine.process caller (.dropping tag))
    (hstore : next.store = machine.store.deletePoints ids)
    (hcaller : machine.process caller = .deleting tag ids) :
    Coherent raced next := by
  apply hcoherent.untagging hprocess
  · rw [hcaller]
    rintro point pending ⟨⟩
  · rintro point pending ⟨⟩
  · intro point hpoint
    rw [hstore] at hpoint
    exact (CacheStore.mem_deletePoints.mp hpoint).1
  · intro point hpoint mark hmember hknown
    rw [hstore] at hpoint ⊢
    refine ⟨hmember, ?_, ?_⟩
    · rintro other ⟨⟩
    · rintro ⟨⟩
      apply (CacheStore.mem_deletePoints.mp hpoint).2
      exact (hknown caller).1 ids hcaller
  · intro id mark hgone
    rw [hstore]
    apply hgone.imp_right
    intro hopen
    apply hopen.step hprocess
    rw [hcaller]
    exact fun hwindow => hwindow

/-- The deletion of the set takes the tag from the raced entries only. -/
theorem Coherent.del {tag : Tag} (hcoherent : Coherent raced machine)
    (hprocess : next.process = Function.update machine.process caller .returned)
    (hstore : next.store = machine.store.del tag)
    (hcaller : machine.process caller = .dropping tag) : Coherent raced next := by
  apply hcoherent.untagging hprocess
  · rw [hcaller]
    rintro point pending ⟨⟩
  · rintro point pending ⟨⟩
  · rw [hstore]
    exact fun _ hpoint => hpoint
  · intro point _ mark hmember hknown
    have hmark : mark ≠ tag := by
      rintro rfl
      exact (hknown caller).2 hcaller
    refine ⟨?_, ?_, ?_⟩
    · rw [hstore]
      exact CacheStore.mem_del.mpr ⟨hmark, hmember⟩
    · rintro ids ⟨⟩
    · rintro ⟨⟩
  · intro id mark hgone
    rw [hstore]
    by_cases hmark : mark = tag
    · left
      intro hmember
      exact (CacheStore.mem_del.mp hmember).1 hmark
    · apply hgone.imp
      · intro hnot hmember
        exact hnot (CacheStore.mem_del.mp hmember).2
      · intro hopen
        apply hopen.step hprocess
        rw [hcaller]
        rintro ⟨⟩
        exact absurd rfl hmark

end Steps

/-! ## Runs -/

/-- Without an `SADD` the raced entries stay the same. -/
private theorem Coherent.extend {raced : Point V → Tag → Prop}
    {machine next : Machine V} {action : Action V} (hcoherent : Coherent raced next)
    (hnone : ∀ point tag, ¬ AddsInWindow point tag machine action) :
    Coherent (fun point tag => raced point tag ∨ AddsInWindow point tag machine action)
      next := by
  have hsame : (fun point tag => raced point tag ∨
      AddsInWindow point tag machine action) = raced := by
    funext point tag
    exact propext (or_iff_left (hnone point tag))
  rwa [hsame]

theorem step_coherent {raced : Point V → Tag → Prop} {machine next : Machine V}
    {action : Action V} (hnamed : WellNamed machine)
    (hcoherent : Coherent raced machine) (hstep : machine.step action = some next) :
    Coherent (fun point tag => raced point tag ∨ AddsInWindow point tag machine action)
      next := by
  rcases step_cases hstep with
    ⟨caller, invocation, rfl, habsent, _, hstore, hprocess, _⟩ |
      ⟨caller, process, rfl, hadvance, hprocess, _⟩
  · apply Coherent.extend
    · apply hcoherent.quiet hprocess
      · rw [hstore]
        exact fun _ hpoint => hpoint
      · rw [hstore]
      · rw [habsent]
        rintro point pending ⟨⟩
      · cases invocation <;> rintro point pending ⟨⟩
      · rw [habsent]
        rfl
      · cases invocation <;> rfl
    · rintro point tag ⟨other, pending, haction, _⟩
      cases haction
  · have hnone : (∀ point pending, machine.process caller ≠ .tagging point pending) →
        ∀ written mark, ¬ AddsInWindow written mark machine (.proceed caller) :=
      fun hbefore _ _ => not_addsInWindow hbefore
    rcases advance_cases hadvance with
      ⟨point, tag, rest, hcaller, rfl, hstore⟩ | ⟨point, hcaller, rfl, hstore⟩ |
      ⟨tag, hcaller, rfl, hstore⟩ | ⟨tag, ids, hcaller, rfl, hstore⟩ |
      ⟨tag, hcaller, rfl, hstore⟩ | hquiet
    · exact hcoherent.sadd hnamed hprocess hstore hcaller
    · apply (hcoherent.upsert hnamed hprocess hstore hcaller).extend
      exact hnone (by rw [hcaller]; nofun)
    · apply (hcoherent.smembers hprocess hstore hcaller).extend
      exact hnone (by rw [hcaller]; nofun)
    · apply (hcoherent.deletePoints hprocess hstore hcaller).extend
      exact hnone (by rw [hcaller]; nofun)
    · apply (hcoherent.del hprocess hstore hcaller).extend
      exact hnone (by rw [hcaller]; nofun)
    · apply (hcoherent.quiet hprocess hquiet.points hquiet.members hquiet.before_ne
        hquiet.after_ne hquiet.closed hquiet.closed_after).extend
      exact hnone hquiet.before_ne

theorem run_coherent {actions : List (Action V)} {machine : Machine V}
    (hrun : run actions = some machine) : Coherent (Raced actions) machine := by
  refine Transition.exec_induction
    (motive := fun past machine => Coherent (Raced past) machine) ?_ ?_ hrun
  · constructor
    · intro point hpoint
      cases hpoint
    · intro caller point pending tag htagging
      cases htagging
    · intro point tag hraced
      exact absurd hraced (Transition.not_occurs_nil _ _ _)
  · intro past state action next hpast hcoherent hstep
    have hraced : Raced (past ++ [action]) = fun point tag =>
        Raced past point tag ∨ AddsInWindow point tag state action := by
      funext point tag
      exact propext (Transition.occurs_snoc hpast)
    rw [hraced]
    exact step_coherent (run_wellNamed hpast) hcoherent hstep

theorem Quiescent.tagging {machine : Machine V} (hquiescent : machine.Quiescent)
    {caller : ℕ} {point : Point V} {pending : List Tag}
    (htagging : machine.process caller = .tagging point pending) : pending = [] := by
  cases pending with
  | nil => rfl
  | cons tag rest =>
      have hfinished := hquiescent caller machine.store
      rw [htagging] at hfinished
      cases hfinished

theorem Quiescent.not_openWindow {machine : Machine V}
    (hquiescent : machine.Quiescent) (tag : Tag) : ¬ machine.OpenWindow tag := by
  rintro ⟨caller, hwindow⟩
  have hfinished := hquiescent caller machine.store
  cases hprocess : machine.process caller with
  | deleting other ids | dropping other =>
      rw [hprocess] at hfinished
      cases hfinished
  | absent | ensuring _ | storing _ | tagging _ _ | evicting _ | checking _
    | counting _ | sweeping _ | discarding _ | returned =>
      rw [hprocess] at hwindow
      cases hwindow

/-- When all calls have finished, an entry of the cache is a member of the set
of a tag exactly when it was not added to the set during an eviction of the
tag. -/
theorem quiescent_mem_iff_not_raced {actions : List (Action V)} {machine : Machine V}
    (hrun : run actions = some machine) (hquiescent : machine.Quiescent) :
    ∀ point ∈ machine.store.points, ∀ tag ∈ point.payload.tags,
      (point.id ∈ machine.store.members tag ↔ ¬ Raced actions point tag) := by
  intro point hpoint tag htag
  have hcoherent := run_coherent hrun
  constructor
  · intro hmember hraced
    obtain ⟨_, _, _, _, hnot | hopen⟩ := hcoherent.raced point tag hraced
    · exact hnot hmember
    · exact hquiescent.not_openWindow tag hopen
  · intro hclear
    obtain ⟨caller, pending, htagging⟩ := hcoherent.written point hpoint
    obtain rfl := hquiescent.tagging htagging
    exact (hcoherent.tagged caller point [] tag htagging hpoint htag
      (List.not_mem_nil) hclear).1

/-- A caller without an action has made no call. -/
theorem run_absent {actions : List (Action V)} {machine : Machine V}
    (hrun : run actions = some machine) {caller : ℕ}
    (hcaller : ∀ action ∈ actions, action.caller ≠ caller) :
    machine.process caller = .absent := by
  revert hcaller
  refine Transition.exec_induction
    (motive := fun past machine => (∀ action ∈ past, action.caller ≠ caller) →
      machine.process caller = .absent) (fun _ => rfl) ?_ hrun
  intro past state action next _ ih hstep hcaller
  have hne : action.caller ≠ caller := hcaller action (by simp)
  have hpast : state.process caller = .absent :=
    ih fun other hother => hcaller other (List.mem_append_left _ hother)
  rcases step_cases hstep with
    ⟨other, _, rfl, _, _, _, hprocess, _⟩ | ⟨other, _, rfl, _, hprocess, _⟩
  all_goals
    rw [process_other hprocess (Ne.symm hne)]
    exact hpast

/-! ## A store during an eviction -/

/-- An answer made from document 1 of collection 7. -/
def cachedAnswer (entryId : Uuid) : Point String where
  id := entryId
  vector := "Wer leitet das Bauamt?"
  payload :=
    { answer := "Frau Weber [1]."
      queryText := "Wer leitet das Bauamt?"
      collectionIds := [7]
      documentIds := [1]
      citations := []
      scopeHash := "7"
      createdAt := 0 }

/-- While the document is invalidated for the sake of entry 20, entry 21 adds its
tags after the `SMEMBERS` and before the `DEL`. -/
def storeDuringEviction : List (Action String) :=
  [.invoke 0 (.store (cachedAnswer 20)), .proceed 0, .proceed 0, .proceed 0,
    .proceed 0, .invoke 1 (.evict (.doc 1)), .proceed 1,
    .invoke 2 (.store (cachedAnswer 21)), .proceed 2, .proceed 2, .proceed 2,
    .proceed 2, .proceed 1, .proceed 1]

/-- The run ends with all calls finished, entry 21 cached and its tag gone. -/
private theorem storeDuringEviction_run :
    ∃ machine, run storeDuringEviction = some machine ∧ machine.Quiescent ∧
      machine.store.points = [cachedAnswer 21] ∧
      machine.store.members (.doc 1) = ∅ := by
  have hresult : (run storeDuringEviction).map (fun machine =>
      ((machine.process 0, machine.process 1, machine.process 2),
        machine.store.points, machine.store.members (.doc 1))) =
      some ((.tagging (cachedAnswer 20) [], .returned, .tagging (cachedAnswer 21) []),
        [cachedAnswer 21], ∅) := by
    decide +kernel
  obtain ⟨machine, hrun, heq⟩ := Option.map_eq_some_iff.mp hresult
  simp only [Prod.mk.injEq] at heq
  obtain ⟨⟨hzero, hone, htwo⟩, hpoints, hmembers⟩ := heq
  refine ⟨machine, hrun, ?_, hpoints, hmembers⟩
  intro caller store
  by_cases hlt : caller < 3
  · interval_cases caller
    · rw [hzero]
      rfl
    · rw [hone]
      rfl
    · rw [htwo]
      rfl
  · rw [run_absent hrun]
    · rfl
    · have hcallers : ∀ action ∈ storeDuringEviction, action.caller < 3 := by decide
      intro action haction heq
      exact hlt (heq ▸ hcallers action haction)

theorem quiescent_mem_iff_not_raced_eviction :
    ∃ machine : Machine String, (cachedAnswer 21).id ∈
        machine.store.members (.doc 1) ↔
      ¬ Raced storeDuringEviction (cachedAnswer 21) (.doc 1) := by
  obtain ⟨machine, hrun, hquiescent, hpoints, _⟩ := storeDuringEviction_run
  refine ⟨machine, quiescent_mem_iff_not_raced hrun hquiescent (cachedAnswer 21) ?_
    (.doc 1) ?_⟩
  · rw [hpoints]
    exact List.mem_singleton_self _
  · decide

theorem quiescent_not_tagged :
    ¬ ∀ (actions : List (Action String)) (machine : Machine String),
      run actions = some machine → machine.Quiescent → Tagged machine.store := by
  intro hclaim
  obtain ⟨machine, hrun, hquiescent, hpoints, hmembers⟩ := storeDuringEviction_run
  have hmember := hclaim storeDuringEviction machine hrun hquiescent
    (cachedAnswer 21) (by rw [hpoints]; exact List.mem_singleton_self _)
    (.doc 1) (by decide)
  rw [hmembers] at hmember
  simp at hmember

end AgenticRag.Cache.Machine
