import AgenticRag.Context.Packing
import AgenticRag.Graph.Evidence

/-!
# The evidence an answer is judged against

The generator is given the blocks of the assembled context; `grade_grounded` puts
the texts of all chunks of the state before the grader, joined and cut after 2000
characters.  The joined text is read back chunk by chunk and compared with what the
generator was given of the chunk.
-/

namespace AgenticRag.Graph

open AgenticRag.Assembler AgenticRag.PyString

/-- The cut in `grade_grounded`. -/
def graderLimit : ℕ := 2000

/-- `chr(10).join(contexts)[:2000]` -/
def graderContext (contexts : List String) : String :=
  String.ofList ((join '\n' contexts).toList.take graderLimit)

/-- The user message of `grade_grounded` -/
def groundedUser (answer : String) (contexts : List String) : String :=
  "Answer: " ++ answer ++ "\n\nContext:\n" ++ graderContext contexts

/-! ## Chunk by chunk -/

/-- What stands in a joined text at the place of each chunk. -/
def readParts : List Chunk → List Char → List (List Char)
  | [], _ => []
  | chunk :: rest, text =>
      text.take chunk.content.length ::
        readParts rest (text.drop (chunk.content.length + 1))

/-- What so much room leaves of each chunk and the line ends between them. -/
def takeParts : List Chunk → ℕ → List (List Char)
  | [], _ => []
  | chunk :: rest, room =>
      chunk.content.toList.take room ::
        takeParts rest (room - (chunk.content.length + 1))

theorem take_intercalate (separator : Char) (head : List Char) (rest : List (List Char)) :
    ([separator].intercalate (head :: rest)).take head.length = head := by
  cases rest with
  | nil => simp
  | cons following rest => rw [List.intercalate_cons_cons, List.append_assoc, List.take_left]

theorem drop_intercalate (separator : Char) (head : List Char) (rest : List (List Char)) :
    ([separator].intercalate (head :: rest)).drop (head.length + 1) =
      [separator].intercalate rest := by
  cases rest with
  | nil => simp
  | cons following rest =>
      rw [List.intercalate_cons_cons, ← List.length_singleton (a := separator),
        ← List.length_append, List.drop_left]

/-- Reading the cut text back chunk by chunk. -/
theorem readParts_take (chunks : List Chunk) (room : ℕ) :
    readParts chunks
        ((['\n'].intercalate (chunks.map fun chunk => chunk.content.toList)).take room) =
      takeParts chunks room := by
  induction chunks generalizing room with
  | nil => rfl
  | cons chunk rest ih =>
      rw [readParts, takeParts, ← ih, List.map_cons, ← String.length_toList,
        List.drop_take, drop_intercalate, List.take_take, Nat.min_comm, ← List.take_take,
        take_intercalate]

/-! ## What the generator is given of each chunk -/

section Given

variable {tokenBudget : ℕ} {allowed : Finset Uuid}

/-- The text pass at one chunk of the whole list. -/
def passChunk (tokenBudget : ℕ) (allowed : Finset Uuid) (out : AssembledContext)
    (chunk : Chunk) : AssembledContext :=
  if aclOk chunk.collectionId allowed then takeChunk tokenBudget out chunk else out

/-- The blocks the text pass adds at each chunk. -/
def givenBlocks (tokenBudget : ℕ) (allowed : Finset Uuid) :
    AssembledContext → List Chunk → List (List String)
  | _, [] => []
  | out, chunk :: rest =>
      let after := passChunk tokenBudget allowed out chunk
      after.blocks.drop out.blocks.length :: givenBlocks tokenBudget allowed after rest

theorem passChunk_blocks (out : AssembledContext) (chunk : Chunk) :
    ∃ added, (passChunk tokenBudget allowed out chunk).blocks = out.blocks ++ added := by
  unfold passChunk takeChunk
  dsimp only
  split_ifs
  · exact ⟨_, rfl⟩
  · exact ⟨[], by simp⟩
  · exact ⟨_, rfl⟩
  · exact ⟨[], by simp⟩

/-- Together they are the blocks of the text pass. -/
theorem givenBlocks_flatten (chunks : List Chunk) (out : AssembledContext) :
    ((chunksInScope allowed chunks).foldl (takeChunk tokenBudget) out).blocks =
      out.blocks ++ (givenBlocks tokenBudget allowed out chunks).flatten := by
  induction chunks generalizing out with
  | nil => simp [chunksInScope, givenBlocks]
  | cons chunk rest ih =>
      obtain ⟨added, hadded⟩ := @passChunk_blocks tokenBudget allowed out chunk
      have hrest := ih (passChunk tokenBudget allowed out chunk)
      have hfold : (chunksInScope allowed (chunk :: rest)).foldl (takeChunk tokenBudget) out =
          (chunksInScope allowed rest).foldl (takeChunk tokenBudget)
            (passChunk tokenBudget allowed out chunk) := by
        by_cases hacl : aclOk chunk.collectionId allowed = true
        · simp [chunksInScope, passChunk, hacl]
        · simp [chunksInScope, passChunk, hacl]
      rw [hfold, hrest, givenBlocks, hadded]
      simp

/-- Where a chunk must stand for the two readings of it to agree: with so many tokens
used and so much room before the cut, a chunk that fits the token budget ends in front
of the cut, an oversized first one is truncated exactly there, and one that is withheld
begins behind it. -/
def Placed (tokenBudget : ℕ) (allowed : Finset Uuid) (used room : ℕ) (chunk : Chunk) :
    Prop :=
  chunk.content = "" ∨
    if aclOk chunk.collectionId allowed = true ∧
        used + estimateTokens chunk.content ≤ tokenBudget then
      chunk.content.length ≤ room
    else if aclOk chunk.collectionId allowed = true ∧ used = 0 then
      room = tokenBudget * 19 / 5
    else room = 0

/-- The tokens used behind a chunk; an oversized first one takes the budget. -/
def spend (tokenBudget : ℕ) (allowed : Finset Uuid) (used : ℕ) (chunk : Chunk) : ℕ :=
  if aclOk chunk.collectionId allowed = true ∧
      used + estimateTokens chunk.content ≤ tokenBudget then
    used + estimateTokens chunk.content
  else if aclOk chunk.collectionId allowed = true ∧ used = 0 ∧ chunk.content ≠ "" then
    tokenBudget
  else used

/-- Every chunk of the list is placed, the first one with so many tokens used and so
much room before the cut. -/
def AllPlaced (tokenBudget : ℕ) (allowed : Finset Uuid) : ℕ → ℕ → List Chunk → Prop
  | _, _, [] => True
  | used, room, chunk :: rest =>
      Placed tokenBudget allowed used room chunk ∧
        AllPlaced tokenBudget allowed (spend tokenBudget allowed used chunk)
          (room - (chunk.content.length + 1)) rest

/-- The tokens are counted as the text pass counts them, unless there are none. -/
def Spent (tokenBudget used : ℕ) (out : AssembledContext) : Prop :=
  (used = out.tokenCount ∧ (used = 0 ↔ out.packedChunks = [])) ∨
    (tokenBudget = 0 ∧ used = 0)

theorem one_le_estimateTokens (text : String) : 1 ≤ estimateTokens text :=
  le_max_left _ _

/-- What the text pass does with a chunk, in terms of the tokens used. -/
inductive Passes (tokenBudget : ℕ) (allowed : Finset Uuid) (used : ℕ)
    (out : AssembledContext) (chunk : Chunk) : ℕ → AssembledContext → Prop where
  | packed {after : AssembledContext} (hacl : aclOk chunk.collectionId allowed = true)
      (hfits : used + estimateTokens chunk.content ≤ tokenBudget)
      (hblocks : after.blocks = out.blocks ++ [chunk.content])
      (htokens : after.tokenCount = out.tokenCount + estimateTokens chunk.content)
      (hpacked : after.packedChunks = out.packedChunks ++ [chunk]) :
      Passes tokenBudget allowed used out chunk (used + estimateTokens chunk.content) after
  | cut {after : AssembledContext} (packed : Chunk)
      (hacl : aclOk chunk.collectionId allowed = true) (hused : used = 0)
      (hover : tokenBudget < estimateTokens chunk.content) (hne : chunk.content ≠ "")
      (hblocks : after.blocks =
        out.blocks ++ [truncateToBudget chunk.content tokenBudget])
      (htokens : after.tokenCount =
        estimateTokens (truncateToBudget chunk.content tokenBudget))
      (hpacked : after.packedChunks = out.packedChunks ++ [packed]) :
      Passes tokenBudget allowed used out chunk tokenBudget after
  | withheld {after : AssembledContext}
      (hout : aclOk chunk.collectionId allowed = true →
        tokenBudget < used + estimateTokens chunk.content ∧
          (used = 0 → chunk.content = "" ∨ tokenBudget = 0))
      (hblocks : after.blocks = out.blocks) (htokens : after.tokenCount = out.tokenCount)
      (hpacked : after.packedChunks = out.packedChunks) :
      Passes tokenBudget allowed used out chunk used after

theorem Spent.passes {used : ℕ} {out : AssembledContext} (hspent : Spent tokenBudget used out)
    (chunk : Chunk) :
    Passes tokenBudget allowed used out chunk (spend tokenBudget allowed used chunk)
      (passChunk tokenBudget allowed out chunk) := by
  by_cases hacl : aclOk chunk.collectionId allowed = true
  · have hcost := one_le_estimateTokens chunk.content
    have hover : ∀ h : ¬ used + estimateTokens chunk.content ≤ tokenBudget,
        tokenBudget < out.tokenCount + estimateTokens chunk.content := by
      intro hover
      rcases hspent with ⟨hused, _⟩ | ⟨hzero, _⟩
      · omega
      · omega
    rw [passChunk, if_pos hacl]
    by_cases hfits : used + estimateTokens chunk.content ≤ tokenBudget
    · have hroom : ¬ tokenBudget < out.tokenCount + estimateTokens chunk.content := by
        rcases hspent with ⟨hused, _⟩ | ⟨hzero, _⟩
        · omega
        · omega
      rw [spend, if_pos ⟨hacl, hfits⟩]
      simp only [takeChunk, if_neg hroom]
      exact .packed hacl hfits rfl rfl rfl
    · have hfull := hover hfits
      rw [spend, if_neg fun h => hfits h.2]
      simp only [takeChunk, if_pos hfull]
      by_cases hcut : used = 0 ∧ chunk.content ≠ ""
      · rw [if_pos ⟨hacl, hcut⟩]
        by_cases hfirst : out.packedChunks = []
        · rw [if_pos ⟨hfirst, hcut.2⟩]
          exact .cut _ hacl hcut.1 (by omega) hcut.2 rfl rfl rfl
        · -- Only without any budget can something be packed and no token used.
          obtain ⟨_, hnone⟩ | ⟨rfl, rfl⟩ := hspent
          · exact absurd (hnone.mp hcut.1) hfirst
          · rw [if_neg fun h => hfirst h.1]
            exact .withheld (fun _ => ⟨by omega, fun _ => Or.inr rfl⟩) rfl rfl rfl
      · rw [if_neg fun h => hcut h.2, if_neg ?_]
        · refine .withheld (fun _ => ⟨by omega, fun hused => ?_⟩) rfl rfl rfl
          by_contra hboth
          exact hcut ⟨hused, fun hempty => hboth (Or.inl hempty)⟩
        · rintro ⟨hfirst, hne⟩
          rcases hspent with ⟨_, hnone⟩ | ⟨_, hused⟩
          · exact hcut ⟨hnone.mpr hfirst, hne⟩
          · exact hcut ⟨hused, hne⟩
  · rw [passChunk, if_neg hacl, spend, if_neg (fun h => hacl h.1), if_neg (fun h => hacl h.1)]
    exact .withheld (fun h => absurd h hacl) rfl rfl rfl

theorem Spent.step {used : ℕ} {out : AssembledContext} (hspent : Spent tokenBudget used out)
    (chunk : Chunk) :
    Spent tokenBudget (spend tokenBudget allowed used chunk)
      (passChunk tokenBudget allowed out chunk) := by
  have hcost := one_le_estimateTokens chunk.content
  have hpasses := @Spent.passes tokenBudget allowed used out hspent chunk
  generalize spend tokenBudget allowed used chunk = following at hpasses ⊢
  generalize passChunk tokenBudget allowed out chunk = after at hpasses ⊢
  cases hpasses with
  | packed hacl hfits hblocks htokens hpacked =>
      rcases hspent with ⟨hused, _⟩ | ⟨hzero, _⟩
      · refine Or.inl ⟨by rw [htokens, hused], iff_of_false (by omega) ?_⟩
        simp [hpacked]
      · omega
  | cut packed hacl hused hover hne hblocks htokens hpacked =>
      by_cases hzero : tokenBudget = 0
      · exact Or.inr ⟨hzero, hzero⟩
      · refine Or.inl ⟨?_, iff_of_false hzero (by simp [hpacked])⟩
        rw [htokens, estimateTokens_truncate_eq (by omega) hover]
  | withheld hout hblocks htokens hpacked =>
      rw [Spent, htokens, hpacked]
      exact hspent

/-- A text over the budget is longer than what the budget leaves of it. -/
theorem budget_lt_length {text : String} (hover : tokenBudget < estimateTokens text)
    (hne : text ≠ "") : tokenBudget * 19 / 5 < text.length := by
  have hpositive : 0 < text.length := by
    rw [← String.length_toList, List.length_pos_iff]
    exact fun hnil => hne (String.toList_eq_nil_iff.mp hnil)
  rw [estimateTokens] at hover
  omega

/-- Generator and grader have the same text of a chunk exactly when it is placed. -/
theorem given_iff_placed {used room : ℕ} {out : AssembledContext}
    (hspent : Spent tokenBudget used out) (chunk : Chunk) :
    ((passChunk tokenBudget allowed out chunk).blocks.drop out.blocks.length).flatMap
        String.toList = chunk.content.toList.take room ↔
      Placed tokenBudget allowed used room chunk := by
  have hpasses := @Spent.passes tokenBudget allowed used out hspent chunk
  have hempty : chunk.content = "" ↔ chunk.content.toList = [] :=
    String.toList_eq_nil_iff.symm
  unfold Placed
  generalize spend tokenBudget allowed used chunk = following at hpasses
  generalize passChunk tokenBudget allowed out chunk = after at hpasses ⊢
  cases hpasses with
  | packed hacl hfits hblocks htokens hpacked =>
      rw [if_pos ⟨hacl, hfits⟩, hblocks, List.drop_left, ← String.length_toList]
      simp only [List.flatMap_cons, List.flatMap_nil, List.append_nil]
      rw [eq_comm, List.take_eq_self_iff, hempty]
      exact ⟨Or.inr, fun h => h.elim (fun hnil => by simp [hnil]) id⟩
  | cut packed hacl hused hover hne hblocks htokens hpacked =>
      have hlength := budget_lt_length hover hne
      rw [if_neg (by omega), if_pos ⟨hacl, hused⟩, hblocks, List.drop_left]
      simp only [List.flatMap_cons, List.flatMap_nil, List.append_nil, truncateToBudget,
        String.toList_ofList]
      rw [List.take_eq_take_iff, String.length_toList, or_iff_right hne]
      omega
  | withheld hout hblocks htokens hpacked =>
      rw [hblocks, List.drop_length, List.flatMap_nil, eq_comm, List.take_eq_nil_iff, ← hempty,
        or_comm]
      by_cases hacl : aclOk chunk.collectionId allowed = true
      · obtain ⟨hover, hnone⟩ := hout hacl
        rw [if_neg (by omega)]
        split_ifs with hunused
        · rcases hnone hunused.2 with hnil | rfl
          · simp [hnil]
          · rw [Nat.zero_mul, Nat.zero_div]
        · rfl
      · rw [if_neg fun h => hacl h.1, if_neg fun h => hacl h.1]

/-- They have the same text of every chunk exactly when all are placed. -/
theorem given_iff_allPlaced {used : ℕ} {out : AssembledContext}
    (hspent : Spent tokenBudget used out) (chunks : List Chunk) (room : ℕ) :
    takeParts chunks room =
        (givenBlocks tokenBudget allowed out chunks).map (·.flatMap String.toList) ↔
      AllPlaced tokenBudget allowed used room chunks := by
  induction chunks generalizing used out room with
  | nil => exact iff_of_true rfl trivial
  | cons chunk rest ih =>
      rw [takeParts, givenBlocks, AllPlaced, List.map_cons, List.cons.injEq,
        ← given_iff_placed hspent chunk, ← ih (hspent.step chunk), eq_comm (a := List.take _ _)]

end Given

/-! ## One grading -/

/-- The context text a grader execution puts before the model; `none` when it does not
ask, with the check disabled or without an answer. -/
def gradedText (settings : Settings) (grading : Execution) : Option String :=
  if settings.hallucinationCheckEnabled = true ∧ strip grading.before.answerText ≠ "" then
    some (graderContext (grading.before.chunkList.map (·.content)))
  else none

/-- The blocks a generator execution was given, chunk by chunk. -/
def generatorBlocks (settings : Settings) (generation : Execution) : List (List String) :=
  givenBlocks settings.contextTokenBudget generation.before.allowed {}
    generation.before.chunkList

/-- Chunk by chunk the grader reads what the generator was given: its blocks in full,
and nothing the assembler withheld. -/
def SameEvidence (settings : Settings) (generation grading : Execution) : Prop :=
  ∀ text, gradedText settings grading = some text →
    readParts grading.before.chunkList text.toList =
      (generatorBlocks settings generation).map (·.flatMap String.toList)

/-- The grader is not asked, or all chunks are placed. -/
def GradedWhole (settings : Settings) (grading : Execution) : Prop :=
  settings.hallucinationCheckEnabled = true → strip grading.before.answerText ≠ "" →
    AllPlaced settings.contextTokenBudget grading.before.allowed 0 graderLimit
      grading.before.chunkList

section Grading

variable {settings : Settings} {generation grading : Execution}

/-- The blocks of all chunks are the contexts of the model call. -/
theorem generatorBlocks_flatten (settings : Settings) (generation : Execution) :
    (generatorBlocks settings generation).flatten =
      (Nodes.generateCall settings generation.services generation.before).contexts := by
  rw [Nodes.generateCall, Nodes.assembled, (assemble_interleaves ..).blocks, packText,
    givenBlocks_flatten]
  rfl

theorem infix_of_mem_readParts {chunks : List Chunk} {text part : List Char}
    (hpart : part ∈ readParts chunks text) : part <:+: text := by
  induction chunks generalizing text with
  | nil => cases hpart
  | cons chunk rest ih =>
      rcases List.mem_cons.mp hpart with rfl | hrest
      · exact (List.take_prefix _ _).isInfix
      · exact (ih hrest).trans (List.drop_suffix _ _).isInfix

/-- Then every block of the model call stands in full in the text of the grader. -/
theorem SameEvidence.block_infix (hsame : SameEvidence settings generation grading)
    {text : String} (htext : gradedText settings grading = some text) {block : String}
    (hblock : block ∈
      (Nodes.generateCall settings generation.services generation.before).contexts) :
    block.toList <:+: text.toList := by
  rw [← generatorBlocks_flatten] at hblock
  obtain ⟨blocks, hblocks, hmem⟩ := List.mem_flatten.mp hblock
  have hpart : blocks.flatMap String.toList ∈
      readParts grading.before.chunkList text.toList := by
    rw [hsame text htext]
    exact List.mem_map_of_mem hblocks
  obtain ⟨before, after, rfl⟩ := List.append_of_mem hmem
  refine List.IsInfix.trans ?_ (infix_of_mem_readParts hpart)
  exact ⟨before.flatMap String.toList, after.flatMap String.toList, by simp⟩

theorem sameEvidence_iff (hfrom : SourcedFrom generation grading.before) :
    SameEvidence settings generation grading ↔ GradedWhole settings grading := by
  have hchunks : grading.before.chunkList = generation.before.chunkList := by
    rw [GraphState.chunkList, GraphState.chunkList, hfrom.chunks]
  have hallowed : grading.before.allowed = generation.before.allowed := by
    rw [GraphState.allowed, GraphState.allowed, hfrom.allowedCollectionIds]
  have hspent : Spent settings.contextTokenBudget 0 {} := Or.inl ⟨rfl, iff_of_true rfl rfl⟩
  have hplaced := @given_iff_allPlaced _ grading.before.allowed _ _ hspent
    grading.before.chunkList graderLimit
  have hread : readParts grading.before.chunkList
      (graderContext (grading.before.chunkList.map (·.content))).toList =
        takeParts grading.before.chunkList graderLimit := by
    rw [graderContext, join, String.toList_ofList, String.toList_ofList, List.map_map]
    exact readParts_take _ _
  rw [GradedWhole, ← hplaced, ← hread, hallowed, SameEvidence, generatorBlocks, ← hchunks]
  unfold gradedText
  constructor
  · intro hsame henabled hanswer
    exact hsame _ (if_pos ⟨henabled, hanswer⟩)
  · intro hwhole text htext
    split_ifs at htext with hasked
    rw [← Option.some.inj htext]
    exact hwhole hasked.1 hasked.2

end Grading

/-- Every grading follows a generation and has its chunks. -/
theorem run_graded {settings : Settings} {persisted : GraphState} {input : TurnInput}
    {services : List Services} {turn : Turn}
    (hrun : run settings persisted input services = some turn) :
    ∀ past grading rest, turn.log = past ++ grading :: rest →
      grading.node = .hallucinationGrader →
        ∃ generation, lastGeneration past = some generation ∧
          SourcedFrom generation grading.before := by
  refine run_each (motive := fun past grading => grading.node = .hallucinationGrader →
    ∃ generation, lastGeneration past = some generation ∧
      SourcedFrom generation grading.before) ?_ hrun
  intro done before services node update effects hdone hbefore _ hnode
  have hnode : node = .hallucinationGrader := hnode
  obtain ⟨generation, hgeneration, _, hfrom⟩ :=
    (run_sourced hdone).current node hbefore (by rw [hnode]; rfl)
  exact ⟨generation, hgeneration, hfrom⟩

/-- An answer is judged against exactly the evidence it was written from when every
chunk the token budget admits ends within the characters the grader reads and every
chunk it withholds begins behind them. -/
theorem graded_sameEvidence_iff {settings : Settings} {persisted : GraphState}
    {input : TurnInput} {services : List Services} {turn : Turn}
    (hrun : run settings persisted input services = some turn) :
    ∀ past grading rest, turn.log = past ++ grading :: rest →
      grading.node = .hallucinationGrader →
        ∃ generation, lastGeneration past = some generation ∧
          (SameEvidence settings generation grading ↔ GradedWhole settings grading) := by
  intro past grading rest hsplit hnode
  obtain ⟨generation, hlast, hfrom⟩ := run_graded hrun past grading rest hsplit hnode
  exact ⟨generation, hlast, sameEvidence_iff hfrom⟩

/-! ## A chunk of 2500 characters -/

def longText : String :=
  String.ofList (List.replicate 2500 'a')

theorem length_repeated (count : ℕ) :
    (String.ofList (List.replicate count 'a')).length = count := by
  rw [String.length_ofList, List.length_replicate]

theorem longText_length : longText.length = 2500 :=
  length_repeated 2500

/-- The search finds one chunk; it fits the token budget, and the grader reads its
first 2000 characters. -/
def longServices : Services :=
  { visualServices with
    routeIntent := fun _ => .ok (some "text")
    search := fun _ _ => .ok [⟨11, 1, 7, "text", some 1, none, 1, "", longText, none, none⟩] }

private theorem longTurn_run :
    ∃ turn grading, run {} {} visualQuestion (List.replicate 10 longServices) = some turn ∧
      grading ∈ turn.log ∧ grading.node = .hallucinationGrader ∧
      grading.before.chunkList =
        [⟨11, 1, 7, "text", some 1, none, longText, 1, none, none⟩] ∧
      strip grading.before.answerText ≠ "" := by
  have hgrading : (run {} {} visualQuestion (List.replicate 10 longServices)).bind
      (fun turn => turn.log[6]?.map fun grading =>
        (grading.node, grading.before.chunkList)) =
      some (.hallucinationGrader,
        [⟨11, 1, 7, "text", some 1, none, longText, 1, none, none⟩]) := rfl
  have hanswer : (run {} {} visualQuestion (List.replicate 10 longServices)).bind
      (fun turn => turn.log[6]?.map fun grading =>
        decide (strip grading.before.answerText ≠ "")) = some true := by decide +kernel
  obtain ⟨turn, hrun, hread⟩ := Option.bind_eq_some_iff.mp hgrading
  obtain ⟨grading, hat, hkeys⟩ := Option.map_eq_some_iff.mp hread
  rw [hrun, Option.bind_some, hat] at hanswer
  simp only [Prod.mk.injEq] at hkeys
  exact ⟨turn, grading, hrun, List.mem_of_getElem? hat, hkeys.1, hkeys.2,
    of_decide_eq_true (Option.some.inj hanswer)⟩

theorem graded_sameEvidence_iff_long :
    ∃ turn, ∀ past grading rest, (turn : Turn).log = past ++ grading :: rest →
      grading.node = .hallucinationGrader →
        ∃ generation, lastGeneration past = some generation ∧
          (SameEvidence {} generation grading ↔ GradedWhole {} grading) := by
  obtain ⟨turn, _, hrun, _⟩ := longTurn_run
  exact ⟨turn, graded_sameEvidence_iff hrun⟩

/-- The last 500 characters of the only block are not before the grader. -/
theorem graded_not_sameEvidence :
    ¬ ∀ (settings : Settings) (persisted : GraphState) (input : TurnInput)
        (services : List Services) (turn : Turn),
      run settings persisted input services = some turn →
      ∀ past grading rest, turn.log = past ++ grading :: rest →
        grading.node = .hallucinationGrader →
          ∃ generation, lastGeneration past = some generation ∧
            SameEvidence settings generation grading := by
  intro hclaim
  obtain ⟨turn, grading, hrun, hmem, hnode, hchunks, hanswer⟩ := longTurn_run
  obtain ⟨past, rest, hsplit⟩ := List.append_of_mem hmem
  obtain ⟨generation, hlast, hsame⟩ := hclaim _ _ _ _ turn hrun past grading rest hsplit hnode
  obtain ⟨other, hother, hfrom⟩ := run_graded hrun past grading rest hsplit hnode
  rw [hlast] at hother
  cases hother
  have hwhole := (sameEvidence_iff hfrom).mp hsame
  have hscope : grading.before.allowed = {7} := by
    rw [GraphState.allowed, (run_logged hrun grading hmem).allowedCollectionIds]
    rfl
  have hplaced := hwhole rfl hanswer
  have hlength := longText_length
  rw [hchunks, hscope] at hplaced
  clear hclaim hsame hwhole hchunks hmem hsplit hrun
  generalize longText = text at hplaced hlength
  have hcost : 0 + estimateTokens text ≤ 3000 := by
    rw [estimateTokens]
    omega
  rcases hplaced.1 with hempty | hfits
  · rw [show text = "" from hempty, String.length_empty] at hlength
    omega
  · rw [if_pos ⟨rfl, hcost⟩] at hfits
    have hfits : text.length ≤ 2000 := hfits
    omega

end AgenticRag.Graph
