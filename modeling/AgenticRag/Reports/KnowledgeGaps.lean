import AgenticRag.Core.Grouping
import AgenticRag.Graph.State
import AgenticRag.Text.PyString
import Mathlib.Data.List.Sort
import Mathlib.Logic.Function.Basic

/-!
# The knowledge gap report

`build_report` on the message rows of the window, as the query orders them, and on the
feedback table.  Times are microseconds, and what is not read of the language is a
parameter: `str.lower` and the rounded quotient of the gap rate.
-/

namespace AgenticRag.KnowledgeGaps

open AgenticRag.PyString AgenticRag.Grouping

/-! ## Rows -/

inductive MessageRole where
  | user
  | assistant
  | system
  deriving DecidableEq

/-- A row of the query over the messages and their sessions. -/
structure MessageRow where
  id : Uuid
  sessionId : Uuid
  role : MessageRole
  content : String
  createdAt : ℤ
  userId : Uuid
  deriving DecidableEq

/-- A row of `message_feedback`. -/
structure FeedbackRow where
  messageId : Uuid
  rating : String
  reason : Option String
  deriving DecidableEq

/-! ## Questions and answers -/

/-- A question with the answer right after it. -/
structure Pair where
  question : String
  answerId : Uuid
  answer : String
  askedAt : ℤ
  userId : Uuid
  deriving DecidableEq

def pairOf (question : String) (answer : MessageRow) : Pair where
  question := question
  answerId := answer.id
  answer := answer.content
  askedAt := answer.createdAt
  userId := answer.userId

/-- `pairs` and the dictionary `last_question`. -/
structure Pairing where
  pairs : List Pair := []
  lastQuestion : Uuid → Option String := fun _ => none

/-- One row of the pairing loop. -/
def pairStep (state : Pairing) (row : MessageRow) : Pairing :=
  match row.role with
  | .user =>
      { state with
        lastQuestion :=
          Function.update state.lastQuestion row.sessionId (some row.content) }
  | .assistant =>
      match state.lastQuestion row.sessionId with
      | some question =>
          { pairs := state.pairs ++ [pairOf question row]
            lastQuestion := Function.update state.lastQuestion row.sessionId none }
      | none => state
  | .system => state

def pairing (rows : List MessageRow) : Pairing :=
  rows.foldl pairStep {}

def pairsOf (rows : List MessageRow) : List Pair :=
  (pairing rows).pairs

/-! ## Feedback -/

/-- One row of the thumbs-down loop. -/
def downStep (downs : Uuid → Option (List String)) (row : FeedbackRow) :
    Uuid → Option (List String) :=
  let reasons := (downs row.messageId).getD []
  let reason := strip (row.reason.getD "")
  Function.update downs row.messageId
    (some (if reason = "" then reasons else reasons ++ [reason]))

/-- `downs`: the reasons of every answer with a thumbs-down. -/
def downsOf (pairs : List Pair) (feedback : List FeedbackRow) :
    Uuid → Option (List String) :=
  (feedback.filter fun row =>
    row.messageId ∈ pairs.map (·.answerId) ∧ row.rating = "down").foldl downStep
      fun _ => none

/-! ## Gaps -/

inductive GapKind where
  | noEvidence
  | declined
  | negativeFeedback
  deriving DecidableEq

/-- The name of a kind in the report. -/
def GapKind.name : GapKind → String
  | .noEvidence => "no_evidence"
  | .declined => "declined"
  | .negativeFeedback => "negative_feedback"

/-- `_KIND_ORDER` -/
def kindOrder : List GapKind :=
  [.noEvidence, .declined, .negativeFeedback]

/-- `_DECLINE_MARKERS` -/
def declineMarkers : List String :=
  ["enthält keine", "enthält keinen", "enthalten keine", "enthält nicht",
    "keine angaben", "keine information", "keinen hinweis", "keine hinweise",
    "nicht enthalten", "nicht beantworten", "nicht beantwortet", "liegen keine",
    "keine daten", "keine relevanten", "keine spezifische", "keine konkrete",
    "nicht direkt in den", "nicht direkt aus den", "kann nicht direkt",
    "nicht abgeleitet", "nicht nachvollzie", "es fehlt ein", "es fehlen",
    "keine antwort", "keine genauen", "kann ich keine", "steht nicht in",
    "nicht in den gegebenen", "nicht in den genannten", "nicht im angegebenen",
    "nicht im gegebenen", "nicht im kontext", "nicht erwähnt", "nicht direkt belegt",
    "beantwortbar", "beziehen sich nicht auf", "bezieht sich nicht auf",
    "does not contain", "do not contain", "doesn't contain", "don't contain",
    "no information", "no specific information", "cannot be answered",
    "can't be answered", "not mention", "no answer can be", "no relevant",
    "not provided in", "does not specify", "do not specify", "not specified in",
    "there is no mention", "there is no specific", "not available in the",
    "not in the provided"]

/-- `_HEAD_CHARS` -/
def headChars : ℕ := 240

/-- `_SAMPLE_CHARS` -/
def sampleChars : ℕ := 400

/-- `_MAX_REASONS` -/
def maxReasons : ℕ := 5

/-- `re.sub(r"\s+", " ", text)` -/
def collapseSpaces : List Char → List Char
  | [] => []
  | char :: rest =>
      if isSpace char then
        if rest.head?.any isSpace then collapseSpaces rest else ' ' :: collapseSpaces rest
      else char :: collapseSpaces rest

/-- The characters `normalize_question` takes off both ends. -/
def endMarks : List Char :=
  " ?!.,;:\"'„“”".toList

section Report

variable (lower : String → String) (rate : ℕ → ℕ → ℚ)

/-- `classify_answer` -/
def classifyAnswer (answer : String) : Option GapKind :=
  let text := strip answer
  if text = "" ∨ text = insufficientAnswerText then some .noEvidence
  else
    let head := lower (String.ofList (text.toList.take headChars))
    if declineMarkers.any fun marker => marker.toList <:+: head.toList then some .declined
    else none

/-- `normalize_question` -/
def normalizeQuestion (question : String) : String :=
  let spaced := stripWhere isSpace (collapseSpaces (lower question).toList)
  String.ofList (stripWhere (· ∈ endMarks) spaced)

/-- The kinds of gap a pair has. -/
def kindsOf (downs : Uuid → Option (List String)) (pair : Pair) : Finset GapKind :=
  (classifyAnswer lower pair.answer).toFinset ∪
    if (downs pair.answerId).isSome then {.negativeFeedback} else ∅

/-- `_Group` -/
structure Group where
  question : String
  lastAsked : ℤ
  sampleAnswer : String
  count : ℕ := 0
  users : Finset Uuid := ∅
  kinds : Finset GapKind := ∅
  reasons : List String := []
  deriving DecidableEq

/-- A reason is listed once, and only five are. -/
def addReason (reasons : List String) (reason : String) : List String :=
  if reason ∉ reasons ∧ reasons.length < maxReasons then reasons ++ [reason] else reasons

/-- The group under whose name the pair is counted: the new one, or the old one with the
latest phrasing and answer. -/
def labelled (pair : Pair) : Option Group → Group
  | none =>
      { question := pair.question
        lastAsked := pair.askedAt
        sampleAnswer := pair.answer }
  | some group =>
      if group.lastAsked ≤ pair.askedAt then
        { group with
          question := pair.question
          lastAsked := pair.askedAt
          sampleAnswer := pair.answer }
      else group

/-- What a gap pair makes of its group. -/
def counted (downs : Uuid → Option (List String)) (pair : Pair) (group : Option Group) :
    Group :=
  let group := labelled pair group
  { group with
    count := group.count + 1
    users := insert pair.userId group.users
    kinds := group.kinds ∪ kindsOf lower downs pair
    reasons := ((downs pair.answerId).getD []).foldl addReason group.reasons }

/-- `groups`, `gap_questions` and `negative` -/
structure Tally where
  groups : List (String × Group) := []
  gapQuestions : ℕ := 0
  negative : ℕ := 0

/-- One pair of the counting loop. -/
def tallyStep (downs : Uuid → Option (List String)) (tally : Tally) (pair : Pair) : Tally :=
  let negative :=
    if (downs pair.answerId).isSome then tally.negative + 1 else tally.negative
  if kindsOf lower downs pair = ∅ then { tally with negative := negative }
  else
    { groups :=
        alter (normalizeQuestion lower pair.question) (counted lower downs pair)
          tally.groups
      gapQuestions := tally.gapQuestions + 1
      negative := negative }

def tallyOf (downs : Uuid → Option (List String)) (pairs : List Pair) : Tally :=
  pairs.foldl (tallyStep lower downs) {}

/-- The order of the sort key `(-count, -last_asked)`. -/
def Precedes (left right : Group) : Prop :=
  right.count < left.count ∨ right.count = left.count ∧ right.lastAsked ≤ left.lastAsked

instance : DecidableRel Precedes :=
  fun _ _ => inferInstanceAs (Decidable (_ ∨ _))

structure Item where
  question : String
  count : ℕ
  users : ℕ
  lastAsked : ℤ
  kinds : List String
  sampleAnswer : String
  feedbackReasons : List String
  deriving DecidableEq

def Group.item (group : Group) : Item where
  question := group.question
  count := group.count
  users := group.users.card
  lastAsked := group.lastAsked
  kinds := (kindOrder.filter fun kind => kind ∈ group.kinds).map GapKind.name
  sampleAnswer := String.ofList (group.sampleAnswer.toList.take sampleChars)
  feedbackReasons := group.reasons

structure Report where
  windowDays : ℕ
  totalQuestions : ℕ
  gapQuestions : ℕ
  gapRate : ℚ
  negativeFeedback : ℕ
  items : List Item

/-- The groups in the order of the report. -/
def ordered (groups : List (String × Group)) : List Group :=
  (groups.map Prod.snd).insertionSort Precedes

/-- `build_report` -/
def buildReport (days limit : ℕ) (rows : List MessageRow) (feedback : List FeedbackRow) :
    Report :=
  let pairs := pairsOf rows
  let tally := tallyOf lower (downsOf pairs feedback) pairs
  { windowDays := days
    totalQuestions := pairs.length
    gapQuestions := tally.gapQuestions
    gapRate := if pairs.length = 0 then 0 else rate tally.gapQuestions pairs.length
    negativeFeedback := tally.negative
    items := ((ordered tally.groups).take limit).map Group.item }

end Report

end AgenticRag.KnowledgeGaps
