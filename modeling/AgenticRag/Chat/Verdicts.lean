import AgenticRag.Chat.Reports

/-!
# The verdict on the cited documents

`evaluate` decides without a model whether an answer cites retrieved documents
only.  It compares two keys that different nodes write: the citations come from the
generator, the insufficient node or the cache, the documents from the last retrieval
of the thread.
-/

namespace AgenticRag.Chat

open AgenticRag.Graph AgenticRag.Assembler AgenticRag.Citations AgenticRag.PyString
open AgenticRag.GraphState (flag)

/-- `only_allowed` in `evaluate`. -/
def onlyAllowedDocuments (payload : EvalPayload) : Bool :=
  if payload.citations = [] then true
  else payload.citations.all fun citation =>
    citation.documentId ∈ payload.retrievedDocumentIds

/-- The citations are of documents among those of the chunks. -/
def Covers (citations : Option (List Citation)) (chunks : Option (List Chunk)) : Prop :=
  ∀ citation ∈ citations.getD [], ∃ chunk ∈ chunks.getD [],
    chunk.documentId = citation.documentId

theorem onlyAllowed_evalPayload_iff (state : GraphState) :
    onlyAllowedDocuments (Nodes.evalPayload state) = true ↔
      Covers state.citations state.chunks := by
  unfold onlyAllowedDocuments Covers Nodes.evalPayload GraphState.chunkList
  dsimp only
  split_ifs with hnone
  · simp [hnone]
  · simp

/-- The citations `semantic_cache` writes on a hit. -/
def hitCitations (hit : CacheHit) : List Citation :=
  if hit.citations = [] then
    (SortedSet.ascending hit.documentIds).map
      fun document => ({ documentId := document } : Citation)
  else hit.citations

/-- The input guard ends the turn: the question is blank, or an earlier turn of the
thread was insufficient. -/
def Stopped (persisted : GraphState) (input : TurnInput) : Prop :=
  flag persisted.insufficient = true ∨ isBlank input.query = true

/-- The entry the cache finds in the second node of the turn. -/
def foundEntry (input : TurnInput) (services : List Services) : Option CacheHit :=
  match services with
  | _ :: cache :: _ =>
      match Nodes.callIf (input.allowedCollectionIds.toFinset ≠ ∅) none
        (cache.cacheLookup input.allowedCollectionIds.toFinset input.query) with
      | .ok hit => hit
      | .error _ => none
  | _ => none

/-- A turn that ends before the router reports documents of the chunks the thread
holds: a stopped one with the citations of the thread, a cached one with those of
the entry. -/
def CitesKept (persisted : GraphState) (input : TurnInput) (services : List Services) :
    Prop :=
  (Stopped persisted input → Covers persisted.citations persisted.chunks) ∧
    ∀ hit, ¬ Stopped persisted input → foundEntry input services = some hit →
      Covers (some (hitCitations hit)) persisted.chunks

/-- The nodes that write the citations. -/
theorem runNode_citations {settings : Settings} {services : Services} {node : Node}
    {state update : GraphState} {effects : List Effect}
    (h : runNode settings services node state = .ok (update, effects))
    (hcache : node ≠ .semanticCache) (hgenerator : node ≠ .generator)
    (hinsufficient : node ≠ .insufficientAnswer) : update.citations = none := by
  cases node with
  | semanticCache => exact absurd rfl hcache
  | generator => exact absurd rfl hgenerator
  | insufficientAnswer => exact absurd rfl hinsufficient
  | inputGuard =>
      obtain ⟨rfl, _⟩ := ok_of_quiet h
      by_cases hblank : isBlank state.queryText = true <;> simp [Nodes.inputGuard, hblank]
  | router | metadataLookup | retryGeneration | finalizeAnswer =>
      obtain ⟨rfl, _⟩ := ok_of_quiet h
      rfl
  | planner =>
      obtain ⟨h, _⟩ := ok_of_map_quiet h
      obtain ⟨_, rfl⟩ := planner_ok h
      rfl
  | retriever =>
      obtain ⟨h, _⟩ := ok_of_map_quiet h
      obtain ⟨_, _, rfl⟩ := retriever_ok h
      rfl
  | retrievalGrader =>
      obtain ⟨h, _⟩ := ok_of_map_quiet h
      obtain ⟨_, rfl⟩ := retrievalGrader_ok h
      rfl
  | rewrite =>
      obtain ⟨h, _⟩ := ok_of_map_quiet h
      obtain ⟨_, rfl⟩ := rewrite_ok h
      rfl
  | hallucinationGrader =>
      obtain ⟨h, _⟩ := ok_of_map_quiet h
      obtain ⟨_, rfl⟩ := hallucinationGrader_ok h
      rfl
  | cacheWriter | evalQueue =>
      cases h
      rfl

/-- The turn has left the first two nodes by a cache miss. -/
def PastCache (node : Node) : Prop :=
  node ≠ .inputGuard ∧ node ≠ .semanticCache ∧ node ≠ .evalQueue

/-- What is known of the citations at each node of a turn. -/
structure Reporting (persisted : GraphState) (input : TurnInput) (past : List Services)
    (turn : Turn) : Prop where
  guard : turn.node = some .inputGuard → past = [] ∧ turn = start persisted input
  cache : turn.node = some .semanticCache →
    (∃ services, past = [services]) ∧ ¬ Stopped persisted input ∧
      turn.state.chunks = persisted.chunks
  missed : ∀ node, turn.node = some node → PastCache node →
    2 ≤ past.length ∧ ¬ Stopped persisted input ∧ foundEntry input past = none
  cited : ∀ node, turn.node = some node → pastGenerator node = true →
    Covers turn.state.citations turn.state.chunks
  reported : turn.node = some .evalQueue →
    (Stopped persisted input ∨ 2 ≤ past.length) ∧
      (Covers turn.state.citations turn.state.chunks ↔ CitesKept persisted input past)

/-- Only the first two service behaviours decide what the cache finds. -/
theorem foundEntry_append {input : TurnInput} {past : List Services}
    (hlength : 2 ≤ past.length) (rest : List Services) :
    foundEntry input (past ++ rest) = foundEntry input past := by
  match past, hlength with
  | _ :: _ :: _, _ => rfl

theorem citesKept_append {persisted : GraphState} {input : TurnInput} {past : List Services}
    (hearly : Stopped persisted input ∨ 2 ≤ past.length) (rest : List Services) :
    CitesKept persisted input (past ++ rest) ↔ CitesKept persisted input past := by
  rcases hearly with hstopped | hlength
  · simp [CitesKept, hstopped]
  · rw [CitesKept, CitesKept, foundEntry_append hlength]

section Steps

variable {settings : Settings} {persisted : GraphState} {input : TurnInput}

/-- What the cache node does, by what the cache finds. -/
theorem semanticCache_found {state update : GraphState} {guard services : Services}
    (hquery : state.query = some input.query)
    (hallowed : state.allowedCollectionIds = some input.allowedCollectionIds)
    (h : Nodes.semanticCache services state = .ok update) :
    (∃ hit, foundEntry input [guard, services] = some hit ∧
      update = hitUpdate state hit) ∨
    (foundEntry input [guard, services] = none ∧
      update = { iterations := some (Nodes.bump state), cacheHit := some false }) := by
  have hscope : state.allowed = input.allowedCollectionIds.toFinset := by
    rw [GraphState.allowed, hallowed, Option.getD_some]
  have htext : state.queryText = input.query := by
    rw [GraphState.queryText, hquery, Option.getD_some]
  unfold Nodes.semanticCache at h
  obtain ⟨hit, hlookup, h⟩ := ok_of_bind h
  rw [hscope, htext] at hlookup
  have hfound : foundEntry input [guard, services] = hit := by
    rw [foundEntry, hlookup]
  cases hit with
  | none =>
      cases h
      exact Or.inr ⟨hfound, rfl⟩
  | some hit =>
      cases h
      exact Or.inl ⟨hit, hfound, rfl⟩

/-- The flag that `_after_input` reads. -/
theorem stopped_iff {services : Services} {update : GraphState} {effects : List Effect}
    (h : runNode settings services .inputGuard (start persisted input).state =
      .ok (update, effects)) :
    flag ((start persisted input).state.merge update).insufficient = true ↔
      Stopped persisted input := by
  have htext : (start persisted input).state.queryText = input.query := rfl
  have hkept : flag (start persisted input).state.insufficient =
      flag persisted.insufficient := rfl
  simp only [GraphState.merge, flag_or, (runNode_frame h).insufficient, htext, hkept, Stopped]
  by_cases hblank : isBlank input.query = true <;> simp [hblank]

/-- The citations of a generated answer are of chunks of the state. -/
theorem covers_generated {services : Services} {state update : GraphState}
    {effects : List Effect}
    (h : Nodes.generator settings services state = .ok (update, effects)) :
    Covers (state.merge update).citations (state.merge update).chunks := by
  obtain ⟨generation, _, _, _, hupdate⟩ := generator_ok h
  intro citation hcitation
  simp only [GraphState.merge, hupdate, Option.some_or, Option.getD_some] at hcitation
  obtain ⟨marker, packed, hpacked, rfl⟩ := mem_recordsOf hcitation
  obtain ⟨⟨chunk, hchunk, content, rfl⟩, _⟩ := assemble_packedChunks hpacked
  refine ⟨chunk, ?_, rfl⟩
  simp only [GraphState.merge, hupdate, Option.none_or]
  exact hchunk

section Reports

variable {past : List Services} {before after : Turn} {services : Services} {node : Node}
variable {update : GraphState} {effects : List Effect} {hit : CacheHit}

/-- The nodes that leave the documents of the state alone. -/
theorem merge_chunks (hrun : runNode settings services node before.state = .ok (update, effects))
    (hlookup : node ≠ .metadataLookup) (hretriever : node ≠ .retriever) :
    (before.state.merge update).chunks = before.state.chunks := by
  rw [GraphState.merge, (runNode_frame hrun).chunks hlookup hretriever, Option.none_or]

/-- The nodes that leave the citations of the state alone. -/
theorem merge_citations
    (hrun : runNode settings services node before.state = .ok (update, effects))
    (hcache : node ≠ .semanticCache) (hgenerator : node ≠ .generator)
    (hinsufficient : node ≠ .insufficientAnswer) :
    (before.state.merge update).citations = before.state.citations := by
  rw [GraphState.merge, runNode_citations hrun hcache hgenerator hinsufficient, Option.none_or]

theorem citesKept_stopped (hstopped : Stopped persisted input) :
    CitesKept persisted input past ↔ Covers persisted.citations persisted.chunks := by
  constructor
  · intro hkept
    exact hkept.1 hstopped
  · intro hcovers
    exact ⟨fun _ => hcovers, fun _ hrunning _ => absurd hstopped hrunning⟩

theorem citesKept_found (hrunning : ¬ Stopped persisted input)
    (hfound : foundEntry input past = some hit) :
    CitesKept persisted input past ↔ Covers (some (hitCitations hit)) persisted.chunks := by
  constructor
  · intro hkept
    exact hkept.2 hit hrunning hfound
  · intro hcovers
    refine ⟨fun hstopped => absurd hstopped hrunning, ?_⟩
    intro other _ hother
    rw [hfound] at hother
    cases hother
    exact hcovers

theorem citesKept_missed (hrunning : ¬ Stopped persisted input)
    (hnone : foundEntry input past = none) : CitesKept persisted input past := by
  refine ⟨fun hstopped => absurd hstopped hrunning, ?_⟩
  intro hit _ hfound
  rw [hnone] at hfound
  cases hfound

/-- The guard lets the turn go on exactly when nothing stops it. -/
theorem next_guard (hrun : runNode settings services .inputGuard (start persisted input).state =
      .ok (update, effects))
    (hnext : next settings .inputGuard ((start persisted input).state.merge update) =
      some node) :
    (Stopped persisted input ∧ node = .evalQueue) ∨
      (¬ Stopped persisted input ∧ node = .semanticCache) := by
  rw [← stopped_iff hrun]
  rw [next, afterInput] at hnext
  split_ifs at hnext with hflag
  · exact Or.inl ⟨hflag, (Option.some.inj hnext).symm⟩
  · exact Or.inr ⟨hflag, (Option.some.inj hnext).symm⟩

/-- Past a cache miss another step changes nothing about it. -/
theorem Reporting.missed_snoc (hreporting : Reporting persisted input past before)
    (hnode : before.node = some node) (hpast : PastCache node) (services : Services) :
    2 ≤ (past ++ [services]).length ∧ ¬ Stopped persisted input ∧
      foundEntry input (past ++ [services]) = none := by
  obtain ⟨hlength, hrunning, hnone⟩ := hreporting.missed node hnode hpast
  refine ⟨?_, hrunning, ?_⟩
  · rw [List.length_append]
    omega
  · rw [foundEntry_append hlength, hnone]

/-- The queue after a node past a cache miss. -/
theorem Reporting.reported_missed (hreporting : Reporting persisted input past before)
    (hnode : before.node = some node) (hpast : PastCache node)
    (hcovers : Covers after.state.citations after.state.chunks) (services : Services) :
    (Stopped persisted input ∨ 2 ≤ (past ++ [services]).length) ∧
      (Covers after.state.citations after.state.chunks ↔
        CitesKept persisted input (past ++ [services])) := by
  obtain ⟨hlength, hrunning, hnone⟩ := hreporting.missed_snoc hnode hpast services
  exact ⟨Or.inr hlength, iff_of_true hcovers (citesKept_missed hrunning hnone)⟩

/-- A node behind a cache miss: the cache itself has missed, or one before it has. -/
theorem Reporting.missed_step (hquery : before.state.query = some input.query)
    (hallowed : before.state.allowedCollectionIds = some input.allowedCollectionIds)
    (hreporting : Reporting persisted input past before) (hnode : before.node = some node)
    (hrun : runNode settings services node before.state = .ok (update, effects))
    {target : Node} (hedge : next settings node (before.state.merge update) = some target)
    (hpast : PastCache target) :
    2 ≤ (past ++ [services]).length ∧ ¬ Stopped persisted input ∧
      foundEntry input (past ++ [services]) = none := by
  by_cases hcache : node = .semanticCache
  · subst hcache
    obtain ⟨⟨guard, rfl⟩, hrunning, _⟩ := hreporting.cache hnode
    refine ⟨Nat.le_refl 2, hrunning, ?_⟩
    obtain ⟨hok, _⟩ := ok_of_map_quiet hrun
    rcases semanticCache_found hquery hallowed hok with ⟨hit, _, rfl⟩ | ⟨hnone, _⟩
    · have htarget : some Node.evalQueue = some target := hedge
      exact absurd (Option.some.inj htarget).symm hpast.2.2
    · exact hnone
  · apply hreporting.missed_snoc hnode
    refine ⟨?_, hcache, ?_⟩
    · intro hguard
      subst hguard
      cases next_edge hedge with
      | stopped => exact hpast.2.2 rfl
      | passed => exact hpast.2.1 rfl
      | exhausted hgate => rcases hgate with h | h | h | h <;> cases h
    · intro hqueue
      subst hqueue
      cases hedge

/-- A hit of the cache, as the queue reports it. -/
theorem Reporting.reported_hit (hquery : before.state.query = some input.query)
    (hallowed : before.state.allowedCollectionIds = some input.allowedCollectionIds)
    (hreporting : Reporting persisted input past before)
    (hnode : before.node = some .semanticCache)
    (hrun : runNode settings services .semanticCache before.state = .ok (update, effects))
    (hedge : next settings .semanticCache (before.state.merge update) = some .evalQueue) :
    2 ≤ (past ++ [services]).length ∧
      (Covers (before.state.merge update).citations (before.state.merge update).chunks ↔
        CitesKept persisted input (past ++ [services])) := by
  obtain ⟨⟨guard, rfl⟩, hrunning, hkept⟩ := hreporting.cache hnode
  refine ⟨Nat.le_refl 2, ?_⟩
  obtain ⟨hok, _⟩ := ok_of_map_quiet hrun
  rw [merge_chunks hrun (by decide) (by decide), hkept]
  rcases @semanticCache_found _ _ _ guard _ hquery hallowed hok with
    ⟨hit, hfound, hupdate⟩ | ⟨_, rfl⟩
  · rw [List.singleton_append, citesKept_found hrunning hfound, GraphState.merge, hupdate]
    exact Iff.rfl
  · have hrouter : some Node.router = some Node.evalQueue := hedge
    cases hrouter

theorem step_reporting (hquery : before.state.query = some input.query)
    (hallowed : before.state.allowedCollectionIds = some input.allowedCollectionIds)
    (hreporting : Reporting persisted input past before)
    (hstep : step settings before services = some after) :
    Reporting persisted input (past ++ [services]) after := by
  obtain ⟨node, update, effects, hnode, hrun, hnext, hstate, hlog⟩ := step_cases hstep
  constructor
  · intro htarget
    cases next_edge (hnext.symm.trans htarget)
  · intro htarget
    have hedge := hnext.symm.trans htarget
    cases next_edge hedge with
    | passed =>
        obtain ⟨rfl, rfl⟩ := hreporting.guard hnode
        rcases next_guard hrun hedge with ⟨_, hqueue⟩ | ⟨hrunning, _⟩
        · cases hqueue
        · refine ⟨⟨services, rfl⟩, hrunning, ?_⟩
          rw [hstate, merge_chunks hrun (by decide) (by decide)]
          rfl
  · intro target htarget hpast
    exact hreporting.missed_step hquery hallowed hnode hrun (hnext.symm.trans htarget) hpast
  · intro target htarget hpast
    rw [hstate]
    rcases next_pastGenerator (hnext.symm.trans htarget) hpast with rfl | rfl | rfl
    · exact covers_generated hrun
    · rw [merge_citations hrun (by decide) (by decide) (by decide),
        merge_chunks hrun (by decide) (by decide)]
      exact hreporting.cited _ hnode rfl
    · rw [merge_citations hrun (by decide) (by decide) (by decide),
        merge_chunks hrun (by decide) (by decide)]
      exact hreporting.cited _ hnode rfl
  · intro htarget
    have hedge := hnext.symm.trans htarget
    cases next_edge hedge with
    | stopped =>
        obtain ⟨rfl, rfl⟩ := hreporting.guard hnode
        rcases next_guard hrun hedge with ⟨hstopped, _⟩ | ⟨_, hcache⟩
        · refine ⟨Or.inl hstopped, ?_⟩
          rw [citesKept_stopped hstopped, hstate,
            merge_citations hrun (by decide) (by decide) (by decide),
            merge_chunks hrun (by decide) (by decide)]
          exact Iff.rfl
        · cases hcache
    | hit =>
        obtain ⟨hlength, hreported⟩ :=
          hreporting.reported_hit hquery hallowed hnode hrun hedge
        rw [hstate]
        exact ⟨Or.inr hlength, hreported⟩
    | written =>
        apply hreporting.reported_missed hnode ⟨by decide, by decide, by decide⟩
        rw [hstate, merge_citations hrun (by decide) (by decide) (by decide),
          merge_chunks hrun (by decide) (by decide)]
        exact hreporting.cited _ hnode rfl
    | abstained =>
        apply hreporting.reported_missed hnode ⟨by decide, by decide, by decide⟩
        obtain ⟨hupdate, _⟩ := ok_of_quiet hrun
        rw [hstate, GraphState.merge, hupdate]
        intro citation hcitation
        cases hcitation

end Reports

theorem run_reporting {services : List Services} {turn : Turn}
    (hrun : run settings persisted input services = some turn) :
    Reporting persisted input services turn := by
  apply Transition.exec_induction
    (motive := fun past turn => Reporting persisted input past turn) ?_ ?_ hrun
  · constructor
    · intro _
      exact ⟨rfl, rfl⟩
    · intro hnode
      cases hnode
    · intro node hnode hpast
      exact absurd (Option.some.inj hnode).symm hpast.1
    · intro node hnode hpast
      cases hnode
      cases hpast
    · intro hnode
      cases hnode
  · intro past before services after hpast hreporting hstep
    obtain ⟨hquery, hallowed⟩ := run_request hpast
    exact step_reporting hquery hallowed hreporting hstep

end Steps

/-- The payload of a turn passes the check on its documents exactly when the turn got
to the router, or what it reports without a retrieval of its own is of documents whose
chunks the thread still holds. -/
theorem enqueued_onlyAllowed_iff {settings : Settings} {persisted : GraphState}
    {input : TurnInput} {services : List Services} {final : Turn}
    (hrun : run settings persisted input services = some final) :
    ∀ execution ∈ final.log, ∀ payload success,
      Effect.enqueued payload success ∈ execution.effects →
      (onlyAllowedDocuments payload = true ↔ CitesKept persisted input services) := by
  intro execution hmem payload success heffect
  obtain ⟨hnode, hpayload⟩ :=
    runNode_enqueued (run_logged hrun execution hmem).ran heffect
  obtain ⟨front, rest, hsplit⟩ := List.append_of_mem hmem
  obtain ⟨rfl, _⟩ := evalQueue_last hrun front execution rest hsplit hnode
  rcases List.eq_nil_or_concat services with rfl | ⟨past, last, rfl⟩
  · cases hrun
    cases hmem
  rw [List.concat_eq_append] at hrun ⊢
  obtain ⟨before, hpast, hstep⟩ := Transition.exec_snoc_eq_some_iff.mp hrun
  obtain ⟨node, update, effects, hbefore, _, _, _, hlog⟩ := step_cases hstep
  rw [hlog] at hsplit
  obtain ⟨_, hexecution⟩ := List.append_inj' hsplit rfl
  cases hexecution
  obtain ⟨hearly, hreported⟩ := (run_reporting hpast).reported (hbefore.trans (congrArg some hnode))
  rw [hpayload, onlyAllowed_evalPayload_iff, citesKept_append hearly]
  exact hreported

/-! ## A cached answer after another question -/

theorem enqueued_onlyAllowed_iff_cached :
    ∃ thread final, history visualSettings afterVisual = some thread ∧
      ∀ execution ∈ (final : Turn).log, ∀ payload success,
        Effect.enqueued payload success ∈ execution.effects →
        (onlyAllowedDocuments payload = true ↔
          CitesKept thread.state openingHours (List.replicate 3 cachedServices)) := by
  have hsecond : ((history visualSettings afterVisual).bind fun thread =>
      (run visualSettings thread.state openingHours
        (List.replicate 3 cachedServices)).map fun _ => ()) = some () := by
    decide +kernel
  obtain ⟨thread, hthread, hturn⟩ := Option.bind_eq_some_iff.mp hsecond
  obtain ⟨final, hrun, _⟩ := Option.map_eq_some_iff.mp hturn
  exact ⟨thread, final, hthread, enqueued_onlyAllowed_iff hrun⟩

/-- The entry is of the scope of the request and cites document 3; the thread holds a
chunk of document 1, so the check reports a violation. -/
theorem enqueued_not_onlyAllowed :
    ¬ ∀ (settings : Settings) (requests : List (TurnInput × List Services))
        (thread : Thread) (input : TurnInput) (services : List Services) (final : Turn),
      history settings requests = some thread →
      run settings thread.state input services = some final → final.Completed →
      ∀ execution ∈ final.log, ∀ payload success,
        Effect.enqueued payload success ∈ execution.effects →
        onlyAllowedDocuments payload = true := by
  intro hclaim
  have hsecond : ((history visualSettings afterVisual).bind fun thread =>
      (run visualSettings thread.state openingHours (List.replicate 3 cachedServices)).map
        fun final => (final.node, final.log.any fun execution =>
          execution.effects.any fun effect =>
            match effect with
            | .enqueued payload _ => ! onlyAllowedDocuments payload
            | _ => false)) = some (none, true) := by
    decide +kernel
  obtain ⟨thread, hthread, hturn⟩ := Option.bind_eq_some_iff.mp hsecond
  obtain ⟨final, hrun, hfinal⟩ := Option.map_eq_some_iff.mp hturn
  obtain ⟨hnode, hany⟩ := Prod.mk.inj hfinal
  obtain ⟨execution, hmem, hbad⟩ := List.any_eq_true.mp hany
  obtain ⟨effect, heffect, hbad⟩ := List.any_eq_true.mp hbad
  cases effect with
  | generated | stored => cases hbad
  | enqueued payload success =>
      have hpasses := hclaim _ _ thread openingHours _ final hthread hrun hnode execution hmem
        payload success heffect
      simp [hpasses] at hbad

end AgenticRag.Chat
