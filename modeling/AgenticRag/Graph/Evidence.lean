import AgenticRag.Graph.NodeSpecs

/-!
# The evidence behind a stored answer

`cache_writer` computes the source tags of an entry from the chunks of the
state, several nodes after the generator assembled its context.  This module
pairs every store of a turn with the generator execution before it and proves
that the two read the same evidence.
-/

namespace AgenticRag.Graph

open AgenticRag.Assembler

/-- The last generator execution, after one more execution. -/
def noteGeneration (last : Option Execution) (execution : Execution) :
    Option Execution :=
  if execution.node = .generator then some execution else last

/-- The last generator execution of a log. -/
def lastGeneration (log : List Execution) : Option Execution :=
  log.foldl noteGeneration none

/-- The store calls of one execution; one that raises may have written its entry. -/
def storedCalls (execution : Execution) : List StoreCall :=
  execution.effects.filterMap fun effect =>
    match effect with
    | .stored call _ => some call
    | _ => none

/-- The store calls of a log, each with the generator execution before it. -/
def storesFrom (last : Option Execution) :
    List Execution → List (Option Execution × StoreCall)
  | [] => []
  | execution :: rest =>
      (storedCalls execution).map (Prod.mk last) ++
        storesFrom (noteGeneration last execution) rest

def stores (log : List Execution) : List (Option Execution × StoreCall) :=
  storesFrom none log

theorem storesFrom_snoc (last : Option Execution) (log : List Execution)
    (execution : Execution) :
    storesFrom last (log ++ [execution]) =
      storesFrom last log ++ (storedCalls execution).map
        (Prod.mk (log.foldl noteGeneration last)) := by
  induction log generalizing last with
  | nil => simp [storesFrom]
  | cons head rest ih =>
      simp only [List.cons_append, storesFrom, ih, List.foldl_cons,
        List.append_assoc]

theorem stores_snoc (log : List Execution) (execution : Execution) :
    stores (log ++ [execution]) =
      stores log ++ (storedCalls execution).map
        (Prod.mk (lastGeneration log)) :=
  storesFrom_snoc none log execution

theorem lastGeneration_snoc (log : List Execution) (execution : Execution) :
    lastGeneration (log ++ [execution]) =
      noteGeneration (lastGeneration log) execution := by
  simp [lastGeneration]

/-! ## Where a stored answer comes from -/

/-- The nodes between the generator and the end of the cache writer. -/
def pastGenerator : Node → Bool
  | .hallucinationGrader | .finalizeAnswer | .cacheWriter => true
  | _ => false

/-- Such a node is entered from the generator or from another such node. -/
theorem next_pastGenerator {settings : Settings} {node target : Node}
    {state : GraphState} (hnext : next settings node state = some target)
    (htarget : pastGenerator target = true) :
    node = .generator ∨ node = .hallucinationGrader ∨ node = .finalizeAnswer := by
  cases next_edge hnext with
  | generated => exact Or.inl rfl
  | grounded _ _ => exact Or.inr (Or.inl rfl)
  | finalized => exact Or.inr (Or.inr rfl)
  | _ => cases htarget

/-- The state still holds the evidence and the answer of a generator execution. -/
structure SourcedFrom (generation : Execution) (state : GraphState) : Prop where
  query : state.query = generation.before.query
  allowedCollectionIds :
    state.allowedCollectionIds = generation.before.allowedCollectionIds
  chunks : state.chunks = generation.before.chunks
  answer : state.answer = generation.update.answer

/-- A logged generator execution: it made its model call on its own state. -/
def GenerationOk (settings : Settings) (generation : Execution) : Prop :=
  generation.node = .generator ∧
    ∃ result, generation.effects = [.generated
        (Nodes.generateCall settings generation.services generation.before) result] ∧
      generation.update.answer = some (Citations.normalizeMarkers result.text)

/-- Between generator and cache writer the last generation is still current,
and every store so far was made of the generation before it. -/
structure Sourced (settings : Settings) (turn : Turn) : Prop where
  current : ∀ node, turn.node = some node → pastGenerator node = true →
    ∃ generation, lastGeneration turn.log = some generation ∧
      GenerationOk settings generation ∧ SourcedFrom generation turn.state
  stored : ∀ entry ∈ stores turn.log, ∃ generation state,
    entry.1 = some generation ∧ GenerationOk settings generation ∧
      SourcedFrom generation state ∧ entry.2 = Nodes.storeCall state

theorem sourced_step {settings : Settings} {before after : Turn}
    {services : Services} (hsourced : Sourced settings before)
    (hstep : step settings before services = some after) :
    Sourced settings after := by
  obtain ⟨node, update, effects, hnode, hrun, hnext, hstate, hlog⟩ :=
    step_cases hstep
  have hframe := runNode_frame hrun
  constructor
  · intro target htarget hpast
    rw [hnext] at htarget
    rw [hlog, lastGeneration_snoc, hstate]
    rcases next_pastGenerator htarget hpast with rfl | rfl | rfl
    · -- the generator itself becomes the last generation
      obtain ⟨generation, _, _, heffects, hupdate⟩ := generator_ok hrun
      refine ⟨_, rfl, ⟨rfl, generation, heffects, by rw [hupdate]⟩, ?_⟩
      constructor
      · simp [GraphState.merge, hframe.query]
      · simp [GraphState.merge, hframe.allowedCollectionIds]
      · simp [GraphState.merge, hframe.chunks (by decide) (by decide)]
      · simp [GraphState.merge, hupdate]
    all_goals
      obtain ⟨generation, hlast, hok, hfrom⟩ := hsourced.current _ hnode rfl
      refine ⟨generation, hlast, hok, ?_⟩
      constructor
      · simp [GraphState.merge, hframe.query, hfrom.query]
      · simp [GraphState.merge, hframe.allowedCollectionIds,
          hfrom.allowedCollectionIds]
      · simp [GraphState.merge, hframe.chunks (by decide) (by decide), hfrom.chunks]
      · simp [GraphState.merge, hframe.answer (by decide) (by decide) (by decide)
          (by decide), hfrom.answer]
  · intro entry hentry
    rw [hlog, stores_snoc] at hentry
    rcases List.mem_append.mp hentry with hold | hnew
    · exact hsourced.stored entry hold
    · obtain ⟨call, hcall, rfl⟩ := List.mem_map.mp hnew
      obtain ⟨effect, heffect, hmatch⟩ := List.mem_filterMap.mp hcall
      cases effect with
      | generated => cases hmatch
      | enqueued => cases hmatch
      | stored written success =>
          cases hmatch
          obtain ⟨rfl, hstore, _⟩ := runNode_stored hrun heffect
          obtain ⟨generation, hlast, hok, hfrom⟩ :=
            hsourced.current _ hnode rfl
          exact ⟨generation, before.state, hlast, hok, hfrom, hstore⟩

/-- Every store of a turn was made of the generation before it. -/
theorem run_sourced {settings : Settings} {persisted : GraphState}
    {input : TurnInput} {services : List Services} {turn : Turn}
    (hrun : run settings persisted input services = some turn) :
    Sourced settings turn := by
  refine run_induction ?_ (fun _ _ _ => sourced_step) hrun
  constructor
  · intro node hnode hpast
    cases hnode
    cases hpast
  · intro entry hentry
    simp [start, stores, storesFrom] at hentry

/-! ## Tags and evidence -/

/-- The page hits whose images a generator execution was given. -/
def shownPages (settings : Settings) (generation : Execution) : List PageHit :=
  loadedPages generation.services.objectStore generation.before.allowed
    (Nodes.imageLimit settings) generation.before.pageHitList

/-- The images of the model call are those of the shown pages. -/
theorem generateCall_images (settings : Settings) (generation : Execution) :
    (Nodes.generateCall settings generation.services generation.before).images =
      ((shownPages settings generation).filterMap
        (imageOf generation.services.objectStore)).map (·.b64) := by
  rw [Nodes.generateCall, Nodes.assembled, assemble_images]
  rfl

/-- The tags of an entry contain the document and the collection of every
context block and every page image of the generation. -/
def TagsCover (settings : Settings) (generation : Execution) (call : StoreCall) :
    Prop :=
  (∀ chunk ∈ (Nodes.assembled settings generation.services
      generation.before).packedChunks,
    chunk.documentId ∈ call.sourceDocumentIds ∧
      chunk.collectionId ∈ call.sourceCollectionIds) ∧
  ∀ hit ∈ shownPages settings generation,
    hit.documentId ∈ call.sourceDocumentIds ∧
      hit.collectionId ∈ call.sourceCollectionIds

/-- Every shown page belongs to a document and a collection that also has a
chunk in the state. -/
def PagesHaveChunks (settings : Settings) (generation : Execution) : Prop :=
  ∀ hit ∈ shownPages settings generation,
    (∃ chunk ∈ generation.before.chunkList, chunk.documentId = hit.documentId) ∧
      ∃ chunk ∈ generation.before.chunkList, chunk.collectionId = hit.collectionId

section Tags

variable {settings : Settings} {generation : Execution} {state : GraphState}

theorem mem_sourceDocumentIds (hfrom : SourcedFrom generation state) {document : Uuid} :
    document ∈ (Nodes.storeCall state).sourceDocumentIds ↔
      ∃ chunk ∈ generation.before.chunkList, chunk.documentId = document := by
  simp [Nodes.storeCall, GraphState.chunkList, hfrom.chunks]

theorem mem_sourceCollectionIds (hfrom : SourcedFrom generation state)
    {collection : Uuid} :
    collection ∈ (Nodes.storeCall state).sourceCollectionIds ↔
      ∃ chunk ∈ generation.before.chunkList, chunk.collectionId = collection := by
  simp [Nodes.storeCall, GraphState.chunkList, hfrom.chunks]

/-- The tags contain the document and the collection of every context block. -/
theorem packedChunks_tagged (hfrom : SourcedFrom generation state) :
    ∀ chunk ∈ (Nodes.assembled settings generation.services
        generation.before).packedChunks,
      chunk.documentId ∈ (Nodes.storeCall state).sourceDocumentIds ∧
        chunk.collectionId ∈ (Nodes.storeCall state).sourceCollectionIds := by
  intro packed hmem
  obtain ⟨⟨chunk, hchunk, content, rfl⟩, _⟩ := assemble_packedChunks hmem
  exact ⟨(mem_sourceDocumentIds hfrom).mpr ⟨chunk, hchunk, rfl⟩,
    (mem_sourceCollectionIds hfrom).mpr ⟨chunk, hchunk, rfl⟩⟩

theorem tagsCover_iff (hfrom : SourcedFrom generation state) :
    TagsCover settings generation (Nodes.storeCall state) ↔
      PagesHaveChunks settings generation := by
  have hpacked := @packedChunks_tagged settings generation state hfrom
  simp only [TagsCover, PagesHaveChunks, mem_sourceDocumentIds hfrom,
    mem_sourceCollectionIds hfrom]
  simp only [mem_sourceDocumentIds hfrom, mem_sourceCollectionIds hfrom] at hpacked
  exact and_iff_right hpacked

end Tags

/-- A stored entry is tagged with all the evidence of its answer exactly when
every page whose image the model was given has its document and its collection
among those of the chunks. -/
theorem stored_tagsCover_iff {settings : Settings} {persisted : GraphState}
    {input : TurnInput} {services : List Services} {turn : Turn}
    (hrun : run settings persisted input services = some turn) :
    ∀ entry ∈ stores turn.log, ∃ generation, entry.1 = some generation ∧
      (Nodes.generateCall settings generation.services generation.before).images =
        ((shownPages settings generation).filterMap
          (imageOf generation.services.objectStore)).map (·.b64) ∧
      (TagsCover settings generation entry.2 ↔
        PagesHaveChunks settings generation) := by
  intro entry hentry
  obtain ⟨generation, state, hlast, _, hfrom, hcall⟩ :=
    (run_sourced hrun).stored entry hentry
  exact ⟨generation, hlast, generateCall_images settings generation,
    hcall ▸ tagsCover_iff hfrom⟩

instance (settings : Settings) (generation : Execution) (call : StoreCall) :
    Decidable (TagsCover settings generation call) :=
  inferInstanceAs (Decidable (_ ∧ _))

/-! ## A visual question -/

/-- Text search finds a chunk of one document, page search a page of another
one in the same collection. -/
def visualServices : Services where
  cacheLookup _ _ := .ok none
  routeIntent _ := .ok (some "visual")
  lookupDocuments _ _ := .ok []
  plan query := .ok [query]
  search _ _ := .ok [⟨11, 1, 7, "text", some 1, none, 1, "", "Die Stellplatzsatzung",
    none, none⟩]
  searchPages _ _ := .ok [⟨12, 2, 7, 3, "pages/2/3.png", none, 1⟩]
  gradeRelevance _ _ := .ok true
  rewriteQuery query := .ok query
  objectStore _ := some "iVBORw0KGgo="
  generate _ := .ok ⟨"Der Plan zeigt acht Stellplätze.", []⟩
  gradeGrounded _ _ := .ok true
  cacheStore _ := .ok ()
  rpush _ := .ok ()

def visualQuestion : TurnInput :=
  ⟨"Was zeigt der Lageplan zu den Stellplätzen?", [7], "request"⟩

def visualSettings : Settings :=
  { llmMultimodal := true }

theorem stored_tagsCover_iff_visual :
    ∃ turn, ∀ entry ∈ stores (turn : Turn).log,
      ∃ generation, entry.1 = some generation ∧
        (Nodes.generateCall visualSettings generation.services generation.before).images =
          ((shownPages visualSettings generation).filterMap
            (imageOf generation.services.objectStore)).map (·.b64) ∧
        (TagsCover visualSettings generation entry.2 ↔
          PagesHaveChunks visualSettings generation) := by
  obtain ⟨turn, hrun⟩ : ∃ turn, run visualSettings {} visualQuestion
      (List.replicate 10 visualServices) = some turn :=
    Option.isSome_iff_exists.mp (by decide +kernel)
  exact ⟨turn, stored_tagsCover_iff hrun⟩

/-- The page of the second document is shown to the model, and the entry is
tagged with the first document only. -/
theorem stored_not_tagsCover :
    ¬ ∀ (settings : Settings) (persisted : GraphState) (input : TurnInput)
        (services : List Services) (turn : Turn),
      run settings persisted input services = some turn →
      ∀ entry ∈ stores turn.log, ∃ generation, entry.1 = some generation ∧
        TagsCover settings generation entry.2 := by
  intro hclaim
  have huncovered : ((run visualSettings {} visualQuestion
      (List.replicate 10 visualServices)).map fun turn =>
        (stores turn.log).any fun entry => entry.1.any fun generation =>
          ! decide (TagsCover visualSettings generation entry.2)) = some true := by
    decide +kernel
  obtain ⟨turn, hrun, hany⟩ := Option.map_eq_some_iff.mp huncovered
  obtain ⟨entry, hentry, hbad⟩ := List.any_eq_true.mp hany
  obtain ⟨generation, hgeneration, hcover⟩ := hclaim _ _ _ _ turn hrun entry hentry
  simp [hgeneration, hcover] at hbad

end AgenticRag.Graph
