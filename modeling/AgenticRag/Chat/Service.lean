import AgenticRag.Access.Rbac
import AgenticRag.Cache.TagRace
import AgenticRag.Graph.Evidence

/-!
# The chat service

Requests of many users on many threads, interleaved node by node, with one
semantic cache and with changes of the permissions.  A request reads the scope
of its user when it begins.  Its checkpoints replace the state of its thread.
The lookup of a turn reads the shared cache; its store call sends its commands
through the cache machine, between those of all other calls.
-/

namespace AgenticRag.Chat

open AgenticRag.Graph AgenticRag.Cache

/-- A request of `/chat`: its thread and its turn. -/
structure Request where
  thread : Uuid
  turn : Turn

structure Service (V : Type) where
  tables : Access.Tables
  owner : Uuid → Option Uuid := fun _ => none
  threads : Uuid → GraphState := fun _ => {}
  requests : ℕ → Option Request := fun _ => none
  cache : Machine V := {}

/-- A step of the service.  `node` executes the next node of a request, `store`
makes the store call of its cache writer, `cache` is a command of any call or a
call that stores nothing. -/
inductive Event (V : Type) where
  | grant (permission : Access.Permission)
  | revoke (permission : Access.Permission)
  | begin (request : ℕ) (userId thread : Uuid) (query requestId : String)
  | node (request : ℕ) (services : Services) (now : ℚ)
  | store (request : ℕ) (now : ℚ) (entryId : Uuid)
  | cache (action : Cache.Action V)

namespace Service

variable {V : Type} (settings : Settings) (backend : Backend V)

/-- The collaborators of a node, with the shared cache.  A lookup may still
raise; the store call of a request succeeds when it has sent all its commands. -/
def connect (service : Service V) (request : ℕ) (services : Services) (now : ℚ) :
    Services :=
  { services with
    cacheLookup := fun allowed query =>
      (services.cacheLookup allowed query).map fun _ =>
        (lookup settings backend now allowed query { store := service.cache.store }).1
    cacheStore := fun _ =>
      match service.cache.process request with
      | .tagging _ [] => .ok ()
      | _ => .error "cache write failed" }

/-- `chat`: the thread is new or belongs to the user. -/
def beginTurn (service : Service V) (request : ℕ) (userId thread : Uuid)
    (query requestId : String) : Option (Service V) :=
  match service.tables.users userId, service.requests request with
  | some user, none =>
      if service.owner thread = none ∨ service.owner thread = some userId then
        let allowed := SortedSet.ascending (service.tables.accessibleCollectionIds user)
        let turn := start (service.threads thread) ⟨query, allowed, requestId⟩
        some
          { service with
            owner := Function.update service.owner thread (some userId)
            threads := Function.update service.threads thread turn.state
            requests := Function.update service.requests request (some ⟨thread, turn⟩) }
      else none
  | _, _ => none

def step (service : Service V) : Event V → Option (Service V)
  | .grant permission =>
      some { service with tables := service.tables.grantPermission permission }
  | .revoke permission =>
      some { service with tables := service.tables.revokePermission permission }
  | .begin request userId thread query requestId =>
      service.beginTurn request userId thread query requestId
  | .node request services now =>
      match service.requests request with
      | none => none
      | some current =>
          (Graph.step settings current.turn
            (service.connect settings backend request services now)).map fun turn =>
            { service with
              threads := Function.update service.threads current.thread turn.state
              requests := Function.update service.requests request
                (some { current with turn := turn }) }
  | .store request now entryId =>
      match service.requests request with
      | none => none
      | some current =>
          if current.turn.node = some .cacheWriter ∧
              Nodes.WritesAnswer current.turn.state then
            (service.cache.step (.invoke request
              (.store (entry backend now entryId
                (Nodes.storeCall current.turn.state))))).map fun cache =>
              { service with cache := cache }
          else none
  | .cache (.invoke _ (.store _)) => none
  | .cache action =>
      (service.cache.step action).map fun cache => { service with cache := cache }

/-- A run of the service from empty threads and an empty cache. -/
def run (tables : Access.Tables) (events : List (Event V)) : Option (Service V) :=
  Transition.exec (step settings backend) { tables := tables } events

/-! ## What a step does -/

section Cases

variable {settings : Settings} {backend : Backend V} {service next : Service V}

theorem begin_cases {request : ℕ} {userId thread : Uuid} {query requestId : String}
    (hstep : service.step settings backend (.begin request userId thread query requestId) =
      some next) :
    ∃ user turn, service.tables.users userId = some user ∧
      service.requests request = none ∧
      turn = start (service.threads thread) ⟨query,
        SortedSet.ascending (service.tables.accessibleCollectionIds user), requestId⟩ ∧
      next = { service with
        owner := Function.update service.owner thread (some userId)
        threads := Function.update service.threads thread turn.state
        requests := Function.update service.requests request (some ⟨thread, turn⟩) } := by
  simp only [step, beginTurn] at hstep
  split at hstep
  · rename_i user huser hfree
    split_ifs at hstep
    cases hstep
    exact ⟨user, _, huser, hfree, rfl, rfl⟩
  · cases hstep

theorem node_cases {request : ℕ} {services : Services} {now : ℚ}
    (hstep : service.step settings backend (.node request services now) = some next) :
    ∃ current turn, service.requests request = some current ∧
      Graph.step settings current.turn
        (service.connect settings backend request services now) = some turn ∧
      next = { service with
        threads := Function.update service.threads current.thread turn.state
        requests := Function.update service.requests request
          (some { current with turn := turn }) } := by
  simp only [step] at hstep
  split at hstep
  · cases hstep
  · rename_i current hcurrent
    obtain ⟨turn, hturn, rfl⟩ := Option.map_eq_some_iff.mp hstep
    exact ⟨current, turn, hcurrent, hturn, rfl⟩

theorem store_cases {request : ℕ} {now : ℚ} {entryId : Uuid}
    (hstep : service.step settings backend (.store request now entryId) = some next) :
    ∃ current cache, service.requests request = some current ∧
      current.turn.node = some .cacheWriter ∧
      Nodes.WritesAnswer current.turn.state ∧
      service.cache.step (.invoke request (.store (entry backend now entryId
        (Nodes.storeCall current.turn.state)))) = some cache ∧
      next = { service with cache := cache } := by
  simp only [step] at hstep
  split at hstep
  · cases hstep
  · rename_i current hcurrent
    split_ifs at hstep with hwrites
    obtain ⟨cache, hcache, rfl⟩ := Option.map_eq_some_iff.mp hstep
    exact ⟨current, cache, hcurrent, hwrites.1, hwrites.2, hcache, rfl⟩

theorem cache_cases {action : Cache.Action V}
    (hstep : service.step settings backend (.cache action) = some next) :
    (∀ caller point, action ≠ .invoke caller (.store point)) ∧
      ∃ cache, service.cache.step action = some cache ∧
        next = { service with cache := cache } := by
  cases action with
  | proceed caller =>
      obtain ⟨cache, hcache, rfl⟩ := Option.map_eq_some_iff.mp hstep
      exact ⟨nofun, cache, hcache, rfl⟩
  | invoke caller invocation =>
      cases invocation with
      | store point => cases hstep
      | evict _ | purge _ | discard _ =>
          obtain ⟨cache, hcache, rfl⟩ := Option.map_eq_some_iff.mp hstep
          exact ⟨nofun, cache, hcache, rfl⟩

/-- Where a request of the next state comes from. -/
theorem request_cases {event : Event V} {request : ℕ} {current : Request}
    (hstep : service.step settings backend event = some next)
    (hcurrent : next.requests request = some current) :
    service.requests request = some current ∨
    (∃ userId user query requestId, event = .begin request userId current.thread query requestId ∧
      service.tables.users userId = some user ∧ service.requests request = none ∧
      current.turn = start (service.threads current.thread) ⟨query,
        SortedSet.ascending (service.tables.accessibleCollectionIds user), requestId⟩) ∨
    (∃ services now before, event = .node request services now ∧
      service.requests request = some before ∧ current.thread = before.thread ∧
      Graph.step settings before.turn
        (service.connect settings backend request services now) = some current.turn) := by
  cases event with
  | grant permission | revoke permission =>
      cases hstep
      exact Or.inl hcurrent
  | store _ _ _ =>
      obtain ⟨_, _, _, _, _, _, rfl⟩ := store_cases hstep
      exact Or.inl hcurrent
  | cache _ =>
      obtain ⟨_, _, _, rfl⟩ := cache_cases hstep
      exact Or.inl hcurrent
  | begin moving userId thread query requestId =>
      obtain ⟨user, turn, huser, hfree, hturn, rfl⟩ := begin_cases hstep
      dsimp only at hcurrent
      by_cases hmoving : request = moving
      · subst hmoving
        rw [Function.update_self] at hcurrent
        cases hcurrent
        exact Or.inr (Or.inl ⟨userId, user, query, requestId, rfl, huser, hfree, hturn⟩)
      · rw [Function.update_of_ne hmoving] at hcurrent
        exact Or.inl hcurrent
  | node moving services now =>
      obtain ⟨before, turn, hbefore, hturn, rfl⟩ := node_cases hstep
      dsimp only at hcurrent
      by_cases hmoving : request = moving
      · subst hmoving
        rw [Function.update_self] at hcurrent
        cases hcurrent
        exact Or.inr (Or.inr ⟨services, now, before, rfl, hbefore, rfl, hturn⟩)
      · rw [Function.update_of_ne hmoving] at hcurrent
        exact Or.inl hcurrent

end Cases

/-! ## The turns of the requests -/

section Runs

variable {settings : Settings} {backend : Backend V} {tables : Access.Tables}
variable {events : List (Event V)} {service next : Service V}

/-- The turn of a request is a run of the graph. -/
def Ran (settings : Settings) (current : Request) : Prop :=
  ∃ persisted input services,
    Graph.run settings persisted input services = some current.turn

theorem step_ran {event : Event V}
    (hran : ∀ request current, service.requests request = some current →
      Ran settings current)
    (hstep : service.step settings backend event = some next) :
    ∀ request current, next.requests request = some current → Ran settings current := by
  intro request current hcurrent
  rcases request_cases hstep hcurrent with
    hold | ⟨_, _, _, _, _, _, _, hturn⟩ | ⟨_, _, before, _, hbefore, _, hturn⟩
  · exact hran request current hold
  · exact ⟨_, _, [], congrArg some hturn.symm⟩
  · obtain ⟨persisted, input, past, hpast⟩ := hran request before hbefore
    exact ⟨persisted, input, past ++ [_],
      Transition.exec_snoc_eq_some_iff.mpr ⟨_, hpast, hturn⟩⟩

theorem run_ran (hrun : run settings backend tables events = some service) :
    ∀ request current, service.requests request = some current →
      Ran settings current := by
  apply Transition.exec_invariant (motive := fun service : Service V =>
    ∀ request current, service.requests request = some current →
      Ran settings current) ?_ hrun
  · intro request current hcurrent
    cases hcurrent
  · intro before event after hran hstep
    exact step_ran hran hstep

/-! ## The shared cache -/

/-- What a step does to the shared cache. -/
theorem step_cache {event : Event V}
    (hstep : service.step settings backend event = some next) :
    next.cache = service.cache ∨
    (∃ action, event = .cache action ∧ service.cache.step action = some next.cache ∧
      ∀ caller point, action ≠ .invoke caller (.store point)) ∨
    ∃ request now entryId current, event = .store request now entryId ∧
      service.requests request = some current ∧
      service.cache.step (.invoke request (.store (entry backend now entryId
        (Nodes.storeCall current.turn.state)))) = some next.cache := by
  cases event with
  | grant _ | revoke _ =>
      cases hstep
      exact Or.inl rfl
  | begin _ _ _ _ _ =>
      obtain ⟨_, _, _, _, _, rfl⟩ := begin_cases hstep
      exact Or.inl rfl
  | node _ _ _ =>
      obtain ⟨_, _, _, _, rfl⟩ := node_cases hstep
      exact Or.inl rfl
  | cache action =>
      obtain ⟨hnone, _, hcache, rfl⟩ := cache_cases hstep
      exact Or.inr (Or.inl ⟨action, rfl, hcache, hnone⟩)
  | store request now entryId =>
      obtain ⟨current, _, hcurrent, _, _, hcache, rfl⟩ := store_cases hstep
      exact Or.inr (Or.inr ⟨request, now, entryId, current, rfl, hcurrent, hcache⟩)

/-- The commands of the cache are a run of the cache machine. -/
theorem run_cache (hrun : run settings backend tables events = some service) :
    ∃ actions, Machine.run actions = some service.cache := by
  apply Transition.exec_project Service.cache ?_ hrun
  intro before event after hstep
  rcases step_cache hstep with hsame | ⟨action, _, hcache, _⟩ | ⟨_, _, _, _, _, _, hcache⟩
  · exact Or.inl hsame
  · exact Or.inr ⟨action, hcache⟩
  · exact Or.inr ⟨_, hcache⟩

/-- The cache writer of the turn is running or done. -/
def Closing (node : Option Node) : Prop :=
  node = some .cacheWriter ∨ node = some .evalQueue ∨ node = none

/-- A closing turn keeps the answer it stores. -/
theorem step_closing {services : Services} {before after : Turn}
    (hclosing : Closing before.node)
    (hstep : Graph.step settings before services = some after) :
    Closing after.node ∧
      Nodes.storeCall after.state = Nodes.storeCall before.state := by
  obtain ⟨node, update, effects, hnode, hrun, hnext, hstate, _⟩ :=
    Graph.step_cases hstep
  rw [hnode] at hclosing
  have hwriting : node = .cacheWriter ∨ node = .evalQueue := by
    rcases hclosing with hwriter | hqueue | hended
    · exact Or.inl (Option.some.inj hwriter)
    · exact Or.inr (Option.some.inj hqueue)
    · cases hended
  have hupdate := runNode_closing hwriting hrun
  rw [hnext, hstate, hupdate]
  refine ⟨?_, rfl⟩
  rcases hwriting with rfl | rfl
  · exact Or.inr (Or.inl rfl)
  · exact Or.inr (Or.inr rfl)

/-- A store call writes the answer of the request that makes it. -/
def Attributed (backend : Backend V) (service : Service V) : Prop :=
  ∀ request point, (service.cache.process request).point = some point →
    ∃ current now entryId, service.requests request = some current ∧
      Closing current.turn.node ∧
      point = entry backend now entryId (Nodes.storeCall current.turn.state)

/-- A step that changes neither the requests nor who writes what. -/
theorem Attributed.of_cache {cache : Machine V} {action : Cache.Action V}
    (hattributed : Attributed backend service)
    (hstep : service.cache.step action = some cache)
    (hstore : ∀ request point, action = .invoke request (.store point) →
      ∃ current now entryId, service.requests request = some current ∧
        Closing current.turn.node ∧
        point = entry backend now entryId (Nodes.storeCall current.turn.state)) :
    Attributed backend { service with cache := cache } := by
  intro request point hpoint
  rcases Machine.step_point hstep hpoint with hold | hinvoked
  · exact hattributed request point hold
  · exact hstore request point hinvoked

theorem step_attributed {event : Event V} (hattributed : Attributed backend service)
    (hstep : service.step settings backend event = some next) :
    Attributed backend next := by
  cases event with
  | grant permission | revoke permission =>
      cases hstep
      exact hattributed
  | cache action =>
      obtain ⟨hnone, cache, hcache, rfl⟩ := cache_cases hstep
      apply hattributed.of_cache hcache
      intro request point hinvoked
      exact absurd hinvoked (hnone request point)
  | store moving now entryId =>
      obtain ⟨current, cache, hcurrent, hnode, _, hcache, rfl⟩ := store_cases hstep
      apply hattributed.of_cache hcache
      intro request point hinvoked
      cases hinvoked
      exact ⟨current, now, entryId, hcurrent, Or.inl hnode, rfl⟩
  | begin moving userId thread query requestId =>
      obtain ⟨user, turn, _, hfree, _, rfl⟩ := begin_cases hstep
      intro request point hpoint
      obtain ⟨current, now, entryId, hcurrent, hentry⟩ :=
        hattributed request point hpoint
      have hother : request ≠ moving := by
        rintro rfl
        rw [hfree] at hcurrent
        cases hcurrent
      refine ⟨current, now, entryId, ?_, hentry⟩
      dsimp only
      rw [Function.update_of_ne hother]
      exact hcurrent
  | node moving services now =>
      obtain ⟨before, turn, hbefore, hturn, rfl⟩ := node_cases hstep
      intro request point hpoint
      obtain ⟨current, time, entryId, hcurrent, hclosing, hentry⟩ :=
        hattributed request point hpoint
      dsimp only
      by_cases hmoving : request = moving
      · subst hmoving
        rw [hbefore] at hcurrent
        cases hcurrent
        obtain ⟨hclosing', hcall⟩ := step_closing hclosing hturn
        refine ⟨{ before with turn := turn }, time, entryId, ?_, hclosing', ?_⟩
        · rw [Function.update_self]
        · rw [hentry, hcall]
      · rw [Function.update_of_ne hmoving]
        exact ⟨current, time, entryId, hcurrent, hclosing, hentry⟩

theorem run_attributed (hrun : run settings backend tables events = some service) :
    Attributed backend service := by
  apply Transition.exec_invariant (motive := Attributed backend) ?_ hrun
  · intro request point hpoint
    cases hpoint
  · intro before event after hattributed hstep
    exact step_attributed hattributed hstep

/-- A closing turn stays with the generation it answers from. -/
theorem step_sourcedFrom {services : Services} {before after : Turn}
    {generation : Execution} (hclosing : Closing before.node)
    (hstep : Graph.step settings before services = some after)
    (hlast : lastGeneration before.log = some generation)
    (hfrom : SourcedFrom generation before.state) :
    lastGeneration after.log = some generation ∧ SourcedFrom generation after.state := by
  obtain ⟨node, update, effects, hnode, hrun, _, hstate, hlog⟩ := Graph.step_cases hstep
  rw [hnode] at hclosing
  have hwriting : node = .cacheWriter ∨ node = .evalQueue := by
    rcases hclosing with hwriter | hqueue | hended
    · exact Or.inl (Option.some.inj hwriter)
    · exact Or.inr (Option.some.inj hqueue)
    · cases hended
  have hother : node ≠ .generator := by
    rintro rfl
    rcases hwriting with hwriter | hqueue
    · cases hwriter
    · cases hqueue
  constructor
  · rw [hlog, lastGeneration_snoc, noteGeneration, if_neg hother]
    exact hlast
  · rw [hstate, runNode_closing hwriting hrun]
    exact ⟨hfrom.query, hfrom.allowedCollectionIds, hfrom.chunks, hfrom.answer⟩

/-- The request of a store call has a generation its answer comes from. -/
def Backed (service : Service V) : Prop :=
  ∀ request point, (service.cache.process request).point = some point →
    ∃ current generation, service.requests request = some current ∧
      Closing current.turn.node ∧
      lastGeneration current.turn.log = some generation ∧
      SourcedFrom generation current.turn.state

/-- A cache command by which no request begins to store. -/
theorem Backed.of_cache {cache : Machine V} {action : Cache.Action V}
    (hbacked : Backed service) (hstep : service.cache.step action = some cache)
    (hnone : ∀ request point, action ≠ .invoke request (.store point)) :
    Backed { service with cache := cache } := by
  intro request point hpoint
  rcases Machine.step_point hstep hpoint with hold | hinvoked
  · exact hbacked request point hold
  · exact absurd hinvoked (hnone request point)

theorem step_backed {event : Event V}
    (hran : ∀ request current, service.requests request = some current →
      Ran settings current) (hbacked : Backed service)
    (hstep : service.step settings backend event = some next) : Backed next := by
  cases event with
  | grant permission | revoke permission =>
      cases hstep
      exact hbacked
  | cache action =>
      obtain ⟨hnone, cache, hcache, rfl⟩ := cache_cases hstep
      exact hbacked.of_cache hcache hnone
  | store moving now entryId =>
      obtain ⟨current, cache, hcurrent, hnode, _, hcache, rfl⟩ := store_cases hstep
      intro request point hpoint
      rcases Machine.step_point hcache hpoint with hold | hinvoked
      · exact hbacked request point hold
      · cases hinvoked
        obtain ⟨persisted, input, services, hturn⟩ := hran moving current hcurrent
        obtain ⟨generation, hlast, _, hfrom⟩ := (run_sourced hturn).current _ hnode rfl
        exact ⟨current, generation, hcurrent, Or.inl hnode, hlast, hfrom⟩
  | begin moving userId thread query requestId =>
      obtain ⟨user, turn, _, hfree, _, rfl⟩ := begin_cases hstep
      intro request point hpoint
      obtain ⟨current, generation, hcurrent, hrest⟩ := hbacked request point hpoint
      have hother : request ≠ moving := by
        rintro rfl
        rw [hfree] at hcurrent
        cases hcurrent
      refine ⟨current, generation, ?_, hrest⟩
      dsimp only
      rw [Function.update_of_ne hother]
      exact hcurrent
  | node moving services now =>
      obtain ⟨before, turn, hbefore, hturn, rfl⟩ := node_cases hstep
      intro request point hpoint
      obtain ⟨current, generation, hcurrent, hclosing, hlast, hfrom⟩ :=
        hbacked request point hpoint
      dsimp only
      by_cases hmoving : request = moving
      · subst hmoving
        rw [hbefore] at hcurrent
        cases hcurrent
        obtain ⟨hclosing', _⟩ := step_closing hclosing hturn
        obtain ⟨hlast', hfrom'⟩ := step_sourcedFrom hclosing hturn hlast hfrom
        refine ⟨{ before with turn := turn }, generation, ?_, hclosing', hlast', hfrom'⟩
        rw [Function.update_self]
      · rw [Function.update_of_ne hmoving]
        exact ⟨current, generation, hcurrent, hclosing, hlast, hfrom⟩

theorem run_backed (hrun : run settings backend tables events = some service) :
    Backed service := by
  apply Transition.exec_induction (motive := fun _ service => Backed service) ?_ ?_ hrun
  · intro request point hpoint
    cases hpoint
  · intro past before event after hpast hbacked hstep
    exact step_backed (run_ran hpast) hbacked hstep

end Runs

/-! ## An answered turn -/

/-- Services that find a chunk of the collection and answer from it. -/
def answeringServices (collectionId : Uuid) : Services where
  cacheLookup _ _ := .ok none
  routeIntent _ := .ok (some "text")
  lookupDocuments _ _ := .ok []
  plan query := .ok [query]
  search _ _ :=
    .ok [⟨11, 1, collectionId, "text", some 1, none, 1, "", "Termine", none, none⟩]
  searchPages _ _ := .ok []
  gradeRelevance _ _ := .ok true
  rewriteQuery query := .ok query
  objectStore _ := none
  generate _ := .ok ⟨"Im Juni [1].", []⟩
  gradeGrounded _ _ := .ok true
  cacheStore _ := .ok ()
  rpush _ := .ok ()

/-- A request up to its cache writer. -/
def generatedTurn (collectionId : Uuid) (request : ℕ) (userId thread : Uuid)
    (query : String) : List (Event V) :=
  .begin request userId thread query "request" ::
    List.replicate 8 (.node request (answeringServices collectionId) 0)

/-- A request that is answered and stored. -/
def answeredTurn (collectionId : Uuid) (request : ℕ) (userId thread : Uuid)
    (query : String) (entryId : Uuid) : List (Event V) :=
  generatedTurn collectionId request userId thread query ++
  [.store request 0 entryId] ++
  List.replicate 4 (.cache (.proceed request)) ++
  List.replicate 2 (.node request (answeringServices collectionId) 0)

end Service

end AgenticRag.Chat
