import AgenticRag.Cache.Isolation
import AgenticRag.Chat.Service

/-!
# Answers served to another question

The cache key is the question as typed, but the retriever and the model read a
follow-up together with the thread.  Two turns that share an entry ask the same
thing exactly when the question is no follow-up or both threads had the same
user message before it.
-/

namespace AgenticRag.FollowUp

/-- A prefix with a blank is visible. -/
theorem contextualize_eq_iff {left right : List Message} {query : String} :
    contextualize left query = contextualize right query ↔
      isFollowUp query = false ∨
        previousUserMessage left = previousUserMessage right := by
  have hlonger : ∀ prior : String, prior ++ " " ++ query ≠ query := by
    intro prior heq
    have hlength := congrArg String.length heq
    simp at hlength
  unfold contextualize
  cases hfollow : isFollowUp query with
  | false => simp
  | true =>
      cases hleft : previousUserMessage left with
      | none =>
          cases hright : previousUserMessage right with
          | none => simp
          | some prior => simpa using (hlonger prior).symm
      | some earlier =>
          cases hright : previousUserMessage right with
          | none => simp
          | some prior => simp [String.append_assoc]

end AgenticRag.FollowUp

namespace AgenticRag.Chat

open AgenticRag.Graph AgenticRag.Cache AgenticRag.FollowUp

/-- The question a turn asks, with its thread. -/
def effectiveQuestion (turn : Turn) : String :=
  contextualize turn.state.messages turn.state.queryText

/-- Two texts are similar exactly when they are equal. -/
structure ExactTexts {V : Type} (backend : Backend V) : Prop where
  embedding : Function.Injective backend.embedDense
  similarity : ∀ points query filter limit threshold,
    ∀ scored ∈ backend.qdrant.queryPoints points query filter limit threshold,
      scored.point.vector = query

namespace Service

variable {V : Type} {settings : Settings} {backend : Backend V}

/-- The cache node of one request is served the entry another one stored. -/
def Shares (settings : Settings) (backend : Backend V) (service : Service V)
    (event : Event V) (asking answering : ℕ) : Prop :=
  ∃ services now current scored pending, event = .node asking services now ∧
    service.requests asking = some current ∧
    current.turn.node = some .semanticCache ∧ current.turn.state.allowed ≠ ∅ ∧
    (service.connect settings backend asking services now).cacheLookup
        current.turn.state.allowed current.turn.state.queryText =
      .ok (some (toHit scored)) ∧
    served settings backend now current.turn.state.allowed current.turn.state.queryText
      service.cache.store = some scored ∧
    service.cache.process answering = .tagging scored.point pending

/-- The served entry was stored under the same text. -/
theorem shares_query {tables : Access.Tables} {events : List (Event V)}
    {service : Service V} {event : Event V} {asking answering : ℕ}
    (hexact : ExactTexts backend)
    (hrun : run settings backend tables events = some service)
    (hshares : Shares settings backend service event asking answering) :
    ∃ asker answerer, service.requests asking = some asker ∧
      service.requests answering = some answerer ∧
      answerer.turn.state.queryText = asker.turn.state.queryText := by
  obtain ⟨services, now, asker, scored, pending, _, hasker, _, _, _, hserved, htagging⟩ :=
    hshares
  obtain ⟨answerer, stored, entryId, hanswerer, _, hentry⟩ :=
    run_attributed hrun answering scored.point (by rw [htagging]; rfl)
  refine ⟨asker, answerer, hasker, hanswerer, hexact.embedding ?_⟩
  have hvector := hexact.similarity _ _ _ _ _ scored (served_mem hserved).1
  rw [hentry] at hvector
  exact hvector

/-- A turn that is served the entry of another one asks the same question
exactly when the question is no follow-up or the threads had the same user
message before it. -/
theorem shares_sameQuestion_iff {tables : Access.Tables} {events : List (Event V)}
    {service : Service V} {event : Event V} {asking answering : ℕ}
    (hexact : ExactTexts backend)
    (hrun : run settings backend tables events = some service)
    (hshares : Shares settings backend service event asking answering) :
    ∃ asker answerer, service.requests asking = some asker ∧
      service.requests answering = some answerer ∧
      (effectiveQuestion answerer.turn = effectiveQuestion asker.turn ↔
        isFollowUp asker.turn.state.queryText = false ∨
          previousUserMessage answerer.turn.state.messages =
            previousUserMessage asker.turn.state.messages) := by
  obtain ⟨asker, answerer, hasker, hanswerer, hquery⟩ := shares_query hexact hrun hshares
  refine ⟨asker, answerer, hasker, hanswerer, ?_⟩
  rw [effectiveQuestion, effectiveQuestion, hquery]
  exact contextualize_eq_iff

/-! ## Two topics, one follow-up -/

theorem exactBackend_exactTexts : ExactTexts exactBackend where
  embedding := Function.injective_id
  similarity := by
    intro points query filter limit threshold scored hscored
    obtain ⟨point, hpoint, rfl⟩ := List.mem_map.mp hscored
    have hmatch := (List.mem_filter.mp (List.mem_of_mem_take hpoint)).2
    exact of_decide_eq_true ((Bool.and_eq_true _ _).mp hmatch).1

/-- Two users with a permission for collection 7. -/
def twoUsers : Access.Tables where
  users := fun id =>
    if id = 1 ∨ id = 2 then some { id := id, role := .user } else none
  collections := [{ id := 7 }]
  permissions := [⟨.user, 1, .collection, 7⟩, ⟨.user, 2, .collection, 7⟩]

/-- Two threads on different topics; the first one asks a follow-up, which is
stored, and the second one begins to ask the same. -/
def twoTopics : List (Event String) :=
  answeredTurn 7 0 1 101 "Wann ist der Hessentag dieses Jahr geplant?" 20 ++
  answeredTurn 7 1 2 102 "Wann ist das Rathaus wieder geöffnet?" 21 ++
  answeredTurn 7 2 1 101 "und in Kirchhain?" 22 ++
  [.begin 3 2 102 "und in Kirchhain?" "request", .node 3 (answeringServices 7) 0]

/-- The lookup of the last request and what it is compared with. -/
private def lastLookup (service : Service String) : Option (Bool × String × String) := do
  let asker ← service.requests 3
  let answerer ← service.requests 2
  let scored ← served {} exactBackend 0 asker.turn.state.allowed
    asker.turn.state.queryText service.cache.store
  let result ← ((service.connect {} exactBackend 3 (answeringServices 7) 0).cacheLookup
    asker.turn.state.allowed asker.turn.state.queryText).toOption
  pure (asker.turn.node = some .semanticCache && asker.turn.state.allowed ≠ ∅ &&
      result = some (toHit scored) &&
      service.cache.process 2 = .tagging scored.point [],
    effectiveQuestion asker.turn, effectiveQuestion answerer.turn)

private theorem twoTopics_run :
    ∃ service, run {} exactBackend twoUsers twoTopics = some service ∧
      Shares {} exactBackend service (.node 3 (answeringServices 7) 0) 3 2 ∧
      ∃ asker answerer, service.requests 3 = some asker ∧
        service.requests 2 = some answerer ∧
        effectiveQuestion answerer.turn ≠ effectiveQuestion asker.turn := by
  have hresult : (run {} exactBackend twoUsers twoTopics).bind lastLookup =
      some (true, "Wann ist das Rathaus wieder geöffnet? und in Kirchhain?",
        "Wann ist der Hessentag dieses Jahr geplant? und in Kirchhain?") := by
    decide +kernel
  obtain ⟨service, hrun, hlast⟩ := Option.bind_eq_some_iff.mp hresult
  simp only [lastLookup, Option.bind_eq_bind, Option.bind_eq_some_iff, Option.pure_def,
    Option.some.injEq, Prod.mk.injEq, Bool.and_eq_true, decide_eq_true_eq] at hlast
  obtain ⟨asker, hasker, answerer, hanswerer, scored, hserved, result, hlookup,
    ⟨⟨⟨hnode, hallowed⟩, hhit⟩, hprocess⟩, hasked, hanswered⟩ := hlast
  refine ⟨service, hrun, ⟨answeringServices 7, 0, asker, scored, [], rfl, hasker, hnode,
    hallowed, ?_, hserved, hprocess⟩, asker, answerer, hasker, hanswerer, ?_⟩
  · rw [← hhit]
    exact congrArg Except.ok (Option.some.inj hlookup)
  · rw [hasked, hanswered]
    decide

theorem shares_sameQuestion_iff_twoTopics :
    ∃ service asker answerer, run {} exactBackend twoUsers twoTopics = some service ∧
      service.requests 3 = some asker ∧ service.requests 2 = some answerer ∧
      (effectiveQuestion answerer.turn = effectiveQuestion asker.turn ↔
        isFollowUp asker.turn.state.queryText = false ∨
          previousUserMessage answerer.turn.state.messages =
            previousUserMessage asker.turn.state.messages) := by
  obtain ⟨service, hrun, hshares, _⟩ := twoTopics_run
  obtain ⟨asker, answerer, hasker, hanswerer, hiff⟩ :=
    shares_sameQuestion_iff exactBackend_exactTexts hrun hshares
  exact ⟨service, asker, answerer, hrun, hasker, hanswerer, hiff⟩

/-- The second thread gets the answer about the topic of the first one. -/
theorem shares_not_sameQuestion :
    ¬ ∀ (settings : Settings) (backend : Backend String) (tables : Access.Tables)
        (events : List (Event String)) (service : Service String) (event : Event String)
        (asking answering : ℕ), ExactTexts backend →
      run settings backend tables events = some service →
      Shares settings backend service event asking answering →
      ∃ asker answerer, service.requests asking = some asker ∧
        service.requests answering = some answerer ∧
        effectiveQuestion answerer.turn = effectiveQuestion asker.turn := by
  intro hclaim
  obtain ⟨service, hrun, hshares, asker, answerer, hasker, hanswerer, hne⟩ :=
    twoTopics_run
  obtain ⟨asker', answerer', hasker', hanswerer', heq⟩ :=
    hclaim {} exactBackend twoUsers twoTopics service _ 3 2 exactBackend_exactTexts hrun
      hshares
  rw [hasker] at hasker'
  rw [hanswerer] at hanswerer'
  cases hasker'
  cases hanswerer'
  exact hne heq

end Service

end AgenticRag.Chat
