import AgenticRag.Cache.Isolation
import AgenticRag.Chat.Service
import AgenticRag.Chat.Thread
import AgenticRag.Graph.Conversation

/-!
# What an answer was made from

Every message of a thread is traced to the collections it was made from.  What
a user types comes from none, a generated answer from the evidence and the
messages in its prompt, a cached answer from what its entry came from.  The
evidence of a turn is always in the scope of the turn; the messages of its
thread may come from a wider scope of an earlier turn.
-/

namespace AgenticRag.Chat

open AgenticRag.Graph AgenticRag.Cache AgenticRag.Assembler

/-- The source collections of the messages a request found in its thread, of
the messages it has now, and of its last generated answer. -/
structure Sources where
  history : List (Finset Uuid) := []
  messages : List (Finset Uuid) := []
  answer : Finset Uuid := ∅
  deriving DecidableEq

/-- The service with the sources of everything it keeps. -/
structure Traced (V : Type) where
  service : Service V
  threads : Uuid → List (Finset Uuid) := fun _ => []
  requests : ℕ → Sources := fun _ => {}
  entries : Uuid → Finset Uuid := fun _ => ∅

/-- The pages whose images a model call is given. -/
def promptPages (settings : Settings) (services : Services) (state : GraphState) :
    List PageHit :=
  loadedPages services.objectStore state.allowed (Nodes.imageLimit settings)
    state.pageHitList

/-- What a generated answer is made from: the context blocks, the page images and
the last four messages before the question. -/
def generationSources (settings : Settings) (services : Services) (state : GraphState)
    (messages : List (Finset Uuid)) : Finset Uuid :=
  let history := messages.dropLast
  ((Nodes.assembled settings services state).packedChunks.map (·.collectionId)).toFinset ∪
    ((promptPages settings services state).map (·.collectionId)).toFinset ∪
    (history.drop (history.length - 4)).foldr (· ∪ ·) ∅

namespace Traced

variable {V : Type} (settings : Settings) (backend : Backend V)

/-- What a message that the next node adds is made from. -/
def messageSources (traced : Traced V) (now : ℚ) (turn : Turn) (sources : Sources) :
    Finset Uuid :=
  match turn.node with
  | some .semanticCache =>
      match served settings backend now turn.state.allowed turn.state.queryText
        traced.service.cache.store with
      | some scored => traced.entries scored.point.id
      | none => ∅
  | some .finalizeAnswer => sources.answer
  | _ => ∅

/-- The sources of a request after a node. -/
def nodeSources (traced : Traced V) (services : Services) (now : ℚ)
    (before after : Turn) (sources : Sources) : Sources where
  history := sources.history
  messages := sources.messages ++
    List.replicate (after.state.messages.length - before.state.messages.length)
      (messageSources settings backend traced now before sources)
  answer :=
    if before.node = some .generator then
      generationSources settings services before.state sources.messages
    else sources.answer

/-- The sources after a step of the service to `next`. -/
def retrace (traced : Traced V) (next : Service V) : Event V → Traced V
  | .begin request _ thread _ _ =>
      let history := traced.threads thread
      { traced with
        service := next
        threads := Function.update traced.threads thread (history ++ [∅])
        requests := Function.update traced.requests request ⟨history, history ++ [∅], ∅⟩ }
  | .node request services now =>
      match traced.service.requests request, next.requests request with
      | some before, some after =>
          let sources := nodeSources settings backend traced services now before.turn
            after.turn (traced.requests request)
          { traced with
            service := next
            threads := Function.update traced.threads before.thread sources.messages
            requests := Function.update traced.requests request sources }
      | _, _ => { traced with service := next }
  | .store request _ entryId =>
      { traced with
        service := next
        entries := Function.update traced.entries entryId
          (traced.requests request).answer }
  | .grant _ | .revoke _ | .cache _ => { traced with service := next }

/-- A step of the service, traced. -/
def step (traced : Traced V) (event : Event V) : Option (Traced V) :=
  (traced.service.step settings backend event).map fun next =>
    traced.retrace settings backend next event

def run (tables : Access.Tables) (events : List (Event V)) : Option (Traced V) :=
  Transition.exec (step settings backend) { service := { tables := tables } } events

/-- The sources of the messages a model call is given before the question. -/
def historySources (settings : Settings) (generation : Execution) (sources : Sources) :
    List (Finset Uuid) :=
  sources.messages.take (Nodes.generateCall settings generation.services
    generation.before).history.length

/-- Everything the model call of a generation is given is typed by the user or
made from collections of the scope. -/
structure GivenWithin (settings : Settings) (generation : Execution)
    (sources : Sources) (scope : Finset Uuid) : Prop where
  question : generation.before.messages.getLast? =
    some ⟨.user,
      (Nodes.generateCall settings generation.services generation.before).query⟩
  contexts : ∀ chunk ∈ (Nodes.assembled settings generation.services
    generation.before).packedChunks, chunk.collectionId ∈ scope
  images : ∀ hit ∈ shownPages settings generation, hit.collectionId ∈ scope
  history : ∀ collections ∈ historySources settings generation sources,
    collections ⊆ scope

/-! ## What a step does -/

section Cases

variable {settings : Settings} {backend : Backend V} {traced next : Traced V}

theorem retrace_service (service : Service V) (event : Event V) :
    (traced.retrace settings backend service event).service = service := by
  cases event with
  | node request services now =>
      simp only [retrace]
      split
      · rfl
      · rfl
  | grant _ | revoke _ | begin _ _ _ _ _ | store _ _ _ | cache _ => rfl

/-- Forgetting the sources gives a step of the service. -/
theorem step_cases {event : Event V}
    (hstep : traced.step settings backend event = some next) :
    traced.service.step settings backend event = some next.service ∧
      next = traced.retrace settings backend next.service event := by
  obtain ⟨service, hservice, rfl⟩ := Option.map_eq_some_iff.mp hstep
  rw [retrace_service]
  exact ⟨hservice, rfl⟩

end Cases

/-! ## Alignment -/

section Runs

variable {settings : Settings} {backend : Backend V} {tables : Access.Tables}
variable {events : List (Event V)} {traced next : Traced V}

/-- The sources of a request fit its messages and those of its thread. -/
def Fits (settings : Settings) (current : Request) (sources : Sources) : Prop :=
  ∃ persisted input services,
    Graph.run settings persisted input services = some current.turn ∧
      sources.history.length = persisted.messages.length ∧
      sources.messages.length = current.turn.state.messages.length ∧
      sources.history <+: sources.messages

theorem Fits.messages_length {current : Request} {sources : Sources}
    (hfits : Fits settings current sources) :
    sources.messages.length = current.turn.state.messages.length := by
  obtain ⟨_, _, _, _, _, hlength, _⟩ := hfits
  exact hlength

structure Aligned (settings : Settings) (traced : Traced V) : Prop where
  threads : ∀ thread, (traced.threads thread).length =
    (traced.service.threads thread).messages.length
  requests : ∀ request current, traced.service.requests request = some current →
    Fits settings current (traced.requests request)

/-- A node adds as many sources as messages. -/
theorem Fits.node (backend : Backend V) (traced : Traced V) (services : Services)
    (now : ℚ) {current : Request} {connected : Services} {turn : Turn}
    {sources : Sources} (hfits : Fits settings current sources)
    (hturn : Graph.step settings current.turn connected = some turn) :
    Fits settings { current with turn := turn }
      (nodeSources settings backend traced services now current.turn turn sources) := by
  obtain ⟨persisted, input, past, hpast, hhistory, hmessages, hprefix⟩ := hfits
  refine ⟨persisted, input, past ++ [connected],
    Transition.exec_snoc_eq_some_iff.mpr ⟨_, hpast, hturn⟩, hhistory, ?_,
    hprefix.trans (List.prefix_append _ _)⟩
  obtain ⟨node, update, effects, _, _, _, hstate, _⟩ := Graph.step_cases hturn
  have hlength : turn.state.messages.length =
      current.turn.state.messages.length + update.messages.length := by
    rw [hstate, GraphState.merge, List.length_append]
  simp only [nodeSources, List.length_append, List.length_replicate, hmessages]
  omega

theorem step_aligned {event : Event V} (haligned : Aligned settings traced)
    (hstep : traced.step settings backend event = some next) :
    Aligned settings next := by
  obtain ⟨hservice, hnext⟩ := step_cases hstep
  obtain ⟨hthreads, hrequests⟩ := haligned
  rw [hnext]
  generalize next.service = service at hservice
  cases event with
  | grant _ | revoke _ =>
      cases hservice
      exact ⟨hthreads, hrequests⟩
  | store _ _ _ =>
      obtain ⟨_, _, _, _, _, _, rfl⟩ := Service.store_cases hservice
      exact ⟨hthreads, hrequests⟩
  | cache _ =>
      obtain ⟨_, _, _, rfl⟩ := Service.cache_cases hservice
      exact ⟨hthreads, hrequests⟩
  | begin request userId thread query requestId =>
      obtain ⟨user, turn, _, _, hturn, rfl⟩ := Service.begin_cases hservice
      have hlength : (traced.threads thread ++ [∅]).length = turn.state.messages.length := by
        rw [hturn]
        simp [start, GraphState.merge, initialUpdate, hthreads thread]
      constructor
      · intro other
        by_cases hother : other = thread
        · subst hother
          simpa [retrace] using hlength
        · simpa [retrace, hother] using hthreads other
      · intro other current hcurrent
        by_cases hother : other = request
        · subst hother
          simp only [retrace, Function.update_self] at hcurrent ⊢
          cases hcurrent
          exact ⟨traced.service.threads thread, _, [], congrArg some hturn.symm,
            hthreads thread, hlength, List.prefix_append _ _⟩
        · simp only [retrace, Function.update_of_ne hother] at hcurrent ⊢
          exact hrequests other current hcurrent
  | node request services now =>
      obtain ⟨before, turn, hbefore, hturn, rfl⟩ := Service.node_cases hservice
      have hfits := (hrequests request before hbefore).node backend traced services now hturn
      have hlength := hfits.messages_length
      simp only [retrace, hbefore, Function.update_self]
      constructor
      · intro other
        by_cases hother : other = before.thread
        · subst hother
          simpa using hlength
        · simpa [hother] using hthreads other
      · intro other current hcurrent
        by_cases hother : other = request
        · subst hother
          simp only [Function.update_self] at hcurrent ⊢
          cases hcurrent
          exact hfits
        · simp only [Function.update_of_ne hother] at hcurrent ⊢
          exact hrequests other current hcurrent

theorem run_aligned (hrun : run settings backend tables events = some traced) :
    Aligned settings traced := by
  apply Transition.exec_invariant (motive := Aligned settings) ?_ hrun
  · constructor
    · intro thread
      rfl
    · intro request current hcurrent
      cases hcurrent
  · intro before event after haligned hstep
    exact step_aligned haligned hstep

/-! ## What a stored answer was given -/

/-- An answer that is stored was given nothing from outside its scope exactly
when no message that its turn found in the thread came from outside. -/
theorem store_givenWithin_iff (hrun : run settings backend tables events = some traced)
    {request : ℕ} {now : ℚ} {entryId : Uuid}
    (hstore : traced.step settings backend (.store request now entryId) = some next) :
    ∃ current generation scope, traced.service.requests request = some current ∧
      lastGeneration current.turn.log = some generation ∧
      (Nodes.storeCall current.turn.state).requesterScope = some scope ∧
      (GivenWithin settings generation (traced.requests request) scope ↔
        ∀ collections ∈ (traced.requests request).history, collections ⊆ scope) := by
  obtain ⟨hservice, _⟩ := step_cases hstore
  obtain ⟨current, cache, hcurrent, hnode, _, _, _⟩ := Service.store_cases hservice
  obtain ⟨persisted, input, services, hturn, hhistory, _, hprefix⟩ :=
    (run_aligned hrun).requests request current hcurrent
  obtain ⟨generation, hlast, _, hfrom⟩ := (run_sourced hturn).current _ hnode rfl
  have hmessages := (run_asking hturn).generation generation hlast
  have hscope : current.turn.state.allowed = generation.before.allowed := by
    rw [GraphState.allowed, GraphState.allowed, hfrom.allowedCollectionIds]
  refine ⟨current, generation, current.turn.state.allowed, hcurrent, hlast, rfl, ?_⟩
  have htake : historySources settings generation (traced.requests request) =
      (traced.requests request).history := by
    rw [historySources, Nodes.generateCall, hmessages, asked, List.dropLast_concat, ← hhistory]
    exact (List.prefix_iff_eq_take.mp hprefix).symm
  rw [← htake]
  constructor
  · intro hgiven
    exact hgiven.history
  · intro hwithin
    constructor
    · have hquery : generation.before.queryText = input.query := by
        rw [GraphState.queryText, ← hfrom.query, (run_request hturn).1]
        rfl
      rw [hmessages, asked, List.getLast?_concat, Nodes.generateCall, hquery]
    · intro chunk hchunk
      rw [hscope]
      exact (assemble_packedChunks hchunk).2
    · intro hit hhit
      rw [hscope]
      exact (mem_loadedPages_scope hhit).2
    · exact hwithin

end Runs

/-! ## A revoked permission -/

/-- A user with permissions for the collections 7 and 8. -/
def oneUser : Access.Tables where
  users := fun id => if id = 1 then some { id := 1, role := .user } else none
  collections := [{ id := 7 }, { id := 8 }]
  permissions := [⟨.user, 1, .collection, 7⟩, ⟨.user, 1, .collection, 8⟩]

/-- An answer from collection 8, the end of the permission for it, and an answer
from collection 7 in the same thread. -/
def revokedTurn : List (Event String) :=
  Service.answeredTurn 8 0 1 101 "Wer bekommt dieses Jahr eine Prämie?" 20 ++
  [.revoke ⟨.user, 1, .collection, 8⟩] ++
  Service.generatedTurn 7 1 1 101 "Wann tagt der Ausschuss für Soziales?"

private theorem revokedTurn_run :
    ∃ traced next, run {} exactBackend oneUser revokedTurn = some traced ∧
      traced.step {} exactBackend (.store 1 0 21) = some next ∧
      (traced.requests 1).history = [∅, {8}] ∧
      ∀ current, traced.service.requests 1 = some current →
        current.turn.state.allowed = {7} := by
  have hresult : (run {} exactBackend oneUser revokedTurn).map (fun traced =>
      ((traced.step {} exactBackend (.store 1 0 21)).isSome,
        (traced.requests 1).history,
        (traced.service.requests 1).map (·.turn.state.allowed))) =
      some (true, [∅, {8}], some {7}) := by
    decide +kernel
  obtain ⟨traced, hrun, heq⟩ := Option.map_eq_some_iff.mp hresult
  simp only [Prod.mk.injEq] at heq
  obtain ⟨hstored, hhistory, hallowed⟩ := heq
  obtain ⟨next, hnext⟩ := Option.isSome_iff_exists.mp hstored
  refine ⟨traced, next, hrun, hnext, hhistory, ?_⟩
  intro current hcurrent
  rw [hcurrent] at hallowed
  exact Option.some.inj hallowed

theorem store_givenWithin_iff_revoked :
    ∃ traced current generation scope,
      run {} exactBackend oneUser revokedTurn = some traced ∧
      traced.service.requests 1 = some current ∧
      lastGeneration current.turn.log = some generation ∧
      (Nodes.storeCall current.turn.state).requesterScope = some scope ∧
      (GivenWithin {} generation (traced.requests 1) scope ↔
        ∀ collections ∈ (traced.requests 1).history, collections ⊆ scope) := by
  obtain ⟨traced, next, hrun, hstore, _⟩ := revokedTurn_run
  obtain ⟨current, generation, scope, hcurrent, hlast, hscope, hiff⟩ :=
    store_givenWithin_iff hrun hstore
  exact ⟨traced, current, generation, scope, hrun, hcurrent, hlast, hscope, hiff⟩

/-- The second answer is stored for everyone who may read collection 7, and its
prompt contained the first answer. -/
theorem store_not_givenWithin :
    ¬ ∀ (settings : Settings) (backend : Backend String) (tables : Access.Tables)
        (events : List (Event String)) (traced next : Traced String) (request : ℕ)
        (now : ℚ) (entryId : Uuid), run settings backend tables events = some traced →
      traced.step settings backend (.store request now entryId) = some next →
      ∃ current generation scope, traced.service.requests request = some current ∧
        lastGeneration current.turn.log = some generation ∧
        (Nodes.storeCall current.turn.state).requesterScope = some scope ∧
        GivenWithin settings generation (traced.requests request) scope := by
  intro hclaim
  obtain ⟨traced, next, hrun, hstore, hhistory, hallowed⟩ := revokedTurn_run
  obtain ⟨current, generation, scope, hcurrent, hlast, hscope, hgiven⟩ :=
    hclaim {} exactBackend oneUser revokedTurn traced next 1 0 21 hrun hstore
  obtain ⟨current', generation', scope', hcurrent', hlast', hscope', hiff⟩ :=
    store_givenWithin_iff hrun hstore
  cases hcurrent.symm.trans hcurrent'
  cases hlast.symm.trans hlast'
  cases hscope.symm.trans hscope'
  have hwithin := hiff.mp hgiven {8} (by rw [hhistory]; decide)
  cases hscope
  rw [hallowed current hcurrent] at hwithin
  exact absurd hwithin (by decide)

end Traced

end AgenticRag.Chat
