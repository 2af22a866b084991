import AgenticRag.Graph.Evidence
import AgenticRag.Graph.Prompts

/-!
# The numbering of the sources

The assembler numbers the context, the prompt shows the numbers, the answer
refers to them and the extractor reads them back.  The four agree in every
generator execution.
-/

namespace AgenticRag.Graph

open AgenticRag.Assembler AgenticRag.Citations AgenticRag.Prompts

/-- The prompt of a model call. -/
def promptOf (call : GenerateCall) : String :=
  generatorUser call.query call.contexts call.history

/-- The block that the prompt shows as `[marker] …` is the text of the chunk: a
retrieved chunk, up to truncation, in the scope of the turn. -/
structure Shown (settings : Settings) (generation : Execution) (call : GenerateCall)
    (marker : ℕ) (chunk : Chunk) : Prop where
  positive : 1 ≤ marker
  packed : (Nodes.assembled settings generation.services
    generation.before).packedChunks[marker - 1]? = some chunk
  entry : (contextEntries call.contexts)[marker - 1]? =
    some ("[" ++ toString marker ++ "] " ++ chunk.content)
  rendered : ∃ before after, promptOf call =
    before ++ ("[" ++ toString marker ++ "] " ++ chunk.content) ++ after
  retrieved : PackedFrom generation.before.chunkList chunk
  scope : chunk.collectionId ∈ generation.before.allowed

/-- The record names the chunk and carries its text. -/
structure RecordOf (marker : ℕ) (chunk : Chunk) (citation : Citation) : Prop where
  marker : citation.marker = some marker
  documentId : citation.documentId = chunk.documentId
  chunkId : citation.chunkId = some chunk.chunkId
  content : citation.content = some chunk.content

/-- What a generator execution returns. -/
structure Numbered (settings : Settings) (generation : Execution)
    (call : GenerateCall) (result : Generation) (citations : List Citation)
    (markers : List ℕ) : Prop where
  called : generation.effects = [.generated call result]
  answered : generation.update.answer = some (normalizeMarkers result.text)
  returned : generation.update.citations = some citations
  increasing : markers.Pairwise (· < ·)
  abstained : PyString.strip (normalizeMarkers result.text) = insufficientAnswerText →
    markers = []
  written : PyString.strip (normalizeMarkers result.text) ≠ insufficientAnswerText →
    ∀ marker, marker ∈ markers ↔ Written marker (normalizeMarkers result.text) ∧
      1 ≤ marker ∧ marker ≤ call.contexts.length
  records : List.Forall₂ (fun marker citation => ∃ chunk,
    Shown settings generation call marker chunk ∧ RecordOf marker chunk citation)
    markers citations

/-- The chunk with a number of the context is the block with that number. -/
theorem shown_of_packed {settings : Settings} {generation : Execution} {marker : ℕ}
    {chunk : Chunk} (hpositive : 1 ≤ marker)
    (hchunk : (Nodes.assembled settings generation.services
      generation.before).packedChunks[marker - 1]? = some chunk) :
    Shown settings generation
      (Nodes.generateCall settings generation.services generation.before) marker chunk := by
  obtain ⟨hretrieved, hscope⟩ := assemble_packedChunks (List.mem_of_getElem? hchunk)
  have hindex : marker - 1 + 1 = marker := Nat.sub_add_cancel hpositive
  have hentry : (contextEntries (Nodes.generateCall settings generation.services
      generation.before).contexts)[marker - 1]? =
      some ("[" ++ toString marker ++ "] " ++ chunk.content) := by
    rw [contextEntries_getElem?, Nodes.generateCall, Nodes.assembled, assemble_blocks,
      List.getElem?_map]
    rw [Nodes.assembled] at hchunk
    rw [hchunk, Option.map_some, Option.map_some, contextEntry, hindex]
  exact
    { positive := hpositive
      packed := hchunk
      entry := hentry
      rendered := entry_in_prompt (List.mem_of_getElem? hentry)
      retrieved := hretrieved
      scope := hscope }

/-- The numbering of one generator execution, on any state. -/
theorem generator_numbered {settings : Settings} {generation : Execution}
    (hran : Nodes.generator settings generation.services generation.before =
      .ok (generation.update, generation.effects)) :
    ∃ call result citations markers,
      Numbered settings generation call result citations markers := by
  obtain ⟨result, _, _, heffects, hupdate⟩ := generator_ok hran
  have hlength : (Nodes.generateCall settings generation.services
      generation.before).contexts.length = (Nodes.assembled settings generation.services
        generation.before).packedChunks.length := by
    rw [Nodes.generateCall, Nodes.assembled, assemble_blocks, List.length_map]
  by_cases habstained :
      PyString.strip (normalizeMarkers result.text) = insufficientAnswerText
  · refine ⟨_, result, [], [], heffects, by rw [hupdate], ?_, .nil, fun _ => rfl,
      fun hother => absurd habstained hother, .nil⟩
    rw [hupdate, recordsOf, citedMarkers_unread _ (Or.inr habstained), List.filterMap_nil]
  · refine ⟨_, result, _, citedMarkers (normalizeMarkers result.text)
      (Nodes.assembled settings generation.services generation.before).packedChunks,
      heffects, by rw [hupdate], by rw [hupdate], citedMarkers_pairwise _ _,
      fun hother => absurd hother habstained, ?_, ?_⟩
    · intro _ marker
      rw [hlength, mem_citedMarkers]
    · apply List.Forall₂.imp ?_ (recordsOf_records _ _)
      rintro marker citation ⟨hpositive, chunk, hchunk, rfl⟩
      exact ⟨chunk, shown_of_packed hpositive hchunk, rfl, rfl, rfl, rfl⟩

/-- In every generator execution of every turn the citations refer to the
numbered blocks of its prompt, in the scope of the turn. -/
theorem run_numbered {settings : Settings} {persisted : GraphState} {input : TurnInput}
    {services : List Services} {turn : Turn}
    (hrun : run settings persisted input services = some turn) :
    ∀ generation ∈ turn.log, generation.node = .generator →
      generation.before.allowed = input.allowedCollectionIds.toFinset ∧
        ∃ call result citations markers,
          Numbered settings generation call result citations markers := by
  intro generation hmem hgenerator
  have hlogged := run_logged hrun generation hmem
  constructor
  · rw [GraphState.allowed, hlogged.allowedCollectionIds, Option.getD_some]
  · have hran := hlogged.ran
    rw [hgenerator] at hran
    exact generator_numbered hran

/-- The visual question with an answer that cites its source. -/
def citingServices : Services :=
  { visualServices with
    generate := fun _ => .ok ⟨"Acht Stellplätze sind vorgesehen【1†L3】.", []⟩ }

theorem run_numbered_citing :
    ∃ turn, ∀ generation ∈ (turn : Turn).log, generation.node = .generator →
      generation.before.allowed = visualQuestion.allowedCollectionIds.toFinset ∧
        ∃ call result citations markers,
          Numbered visualSettings generation call result citations markers := by
  obtain ⟨turn, hrun⟩ : ∃ turn, run visualSettings {} visualQuestion
      (List.replicate 10 citingServices) = some turn :=
    Option.isSome_iff_exists.mp (by decide +kernel)
  exact ⟨turn, run_numbered hrun⟩

end AgenticRag.Graph
