import AgenticRag.Graph.State
import AgenticRag.Text.PyString

/-!
# Follow-up questions

`is_follow_up` decides whether a question only makes sense with the previous
turn.  The retrieval query of such a question is prefixed by the previous user
message of the thread.
-/

namespace AgenticRag.FollowUp

open AgenticRag.PyString

/-- `_REFERS_BACK` -/
def refersBack : List String :=
  ["es", "dazu", "davon", "darüber", "damit", "dort", "dies", "diese", "dieser",
    "dieses", "denen", "mehr", "it", "that", "this", "those", "they", "there",
    "more"]

/-- `_FOLLOW_UP_OPENERS` -/
def followUpOpeners : List String :=
  ["und ", "and ", "what about", "was ist mit", "wie ist es mit", "auch "]

def punctuation : List Char :=
  "?!.,;:\"'„“”()".toList

/-- The words of a question without the punctuation around them. -/
def words (question : String) : List String :=
  ((split question).map fun word =>
    String.ofList (stripWhere (punctuation.contains ·) word.toList)).filter (· ≠ "")

/-- `is_follow_up` -/
def isFollowUp (question : String) : Bool :=
  let lowered := lower (strip question)
  let found := words lowered
  if found.length ≤ 3 || followUpOpeners.any (startsWith lowered ·) then true
  else found.length ≤ 8 && found.any (refersBack.contains ·)

/-- The user messages of a thread, oldest first. -/
def userMessages (messages : List Message) : List String :=
  (messages.filter (·.role = .user)).map (·.content)

/-- `prior[-1]`: the user message before the current one, which is already part
of the messages. -/
def previousUserMessage (messages : List Message) : Option String :=
  (userMessages messages).dropLast.getLast?

/-- The question a turn asks: a follow-up is prefixed by the previous user
message. -/
def contextualize (messages : List Message) (query : String) : String :=
  if isFollowUp query then
    match previousUserMessage messages with
    | some prior => prior ++ " " ++ query
    | none => query
  else query

example : isFollowUp "und in Kirchhain?" = true := by decide

example : isFollowUp "Wer leitet das Bauamt?" = false := by decide

end AgenticRag.FollowUp
