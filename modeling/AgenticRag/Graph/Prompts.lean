import AgenticRag.Graph.State

/-!
# The generator prompt

The numbered context, the last messages of the conversation and the question, as
the model reads them.  The system prompts are fixed texts and left out.
-/

namespace AgenticRag.Prompts

def roleText : Role → String
  | .user => "user"
  | .assistant => "assistant"

/-- The entry of the context with the given index. -/
def contextEntry (index : ℕ) (context : String) : String :=
  "[" ++ toString (index + 1) ++ "] " ++ context

def contextEntries (contexts : List String) : List String :=
  contexts.mapIdx contextEntry

/-- `format_context` -/
def formatContext (contexts : List String) : String :=
  String.intercalate "\n\n" (contextEntries contexts)

/-- The part of the prompt before the context: `history[-4:]`. -/
def conversation (history : List Message) : String :=
  if history = [] then ""
  else
    "Conversation so far:\n" ++
      String.intercalate "\n" ((history.drop (history.length - 4)).map fun message =>
        roleText message.role ++ ": " ++ message.content) ++ "\n\n"

/-- `generator_user` -/
def generatorUser (query : String) (contexts : List String)
    (history : List Message) : String :=
  conversation history ++ "Context:\n" ++ formatContext contexts ++
    "\n\nQuestion: " ++ query ++ "\n\nAnswer:"

/-- A part of a joined text can be read in it. -/
theorem intercalate_split (separator part : String) (first rest : List String) :
    ∃ before after, String.intercalate separator (first ++ part :: rest) =
      before ++ part ++ after := by
  induction first with
  | nil =>
      cases rest with
      | nil => exact ⟨"", "", by simp⟩
      | cons head tail =>
          refine ⟨"", separator ++ String.intercalate separator (head :: tail), ?_⟩
          rw [List.nil_append, String.intercalate_cons_cons, String.empty_append,
            String.append_assoc]
  | cons head tail ih =>
      obtain ⟨before, after, hsplit⟩ := ih
      refine ⟨head ++ separator ++ before, after, ?_⟩
      rw [List.cons_append, String.intercalate_cons_of_ne_nil (by simp), hsplit]
      simp only [String.append_assoc]

theorem contextEntries_getElem? (contexts : List String) (index : ℕ) :
    (contextEntries contexts)[index]? = (contexts[index]?).map (contextEntry index) :=
  List.getElem?_mapIdx

/-- Every entry of the numbered context stands in the prompt. -/
theorem entry_in_prompt {query entry : String} {contexts : List String}
    {history : List Message} (hentry : entry ∈ contextEntries contexts) :
    ∃ before after, generatorUser query contexts history = before ++ entry ++ after := by
  obtain ⟨first, rest, hparts⟩ := List.append_of_mem hentry
  obtain ⟨before, after, hsplit⟩ := intercalate_split "\n\n" entry first rest
  refine ⟨conversation history ++ "Context:\n" ++ before,
    after ++ "\n\nQuestion: " ++ query ++ "\n\nAnswer:", ?_⟩
  rw [generatorUser, formatContext, hparts, hsplit]
  simp only [String.append_assoc]

example : formatContext ["Satzung", "Plan"] = "[1] Satzung\n\n[2] Plan" := by decide

end AgenticRag.Prompts
