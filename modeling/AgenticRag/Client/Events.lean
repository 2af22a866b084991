import AgenticRag.Client.Markdown
import AgenticRag.Core.Residual
import AgenticRag.Text.Json

/-!
# The event stream of a chat turn

The blocks the server sends for the events of `chat_stream`, and the loop with which the
client reads them out of the network chunks.  The handlers of the client are seen by their
calls, and `TextDecoder` is a parameter.
-/

namespace AgenticRag.ChatEvents

open AgenticRag.Client (Text trim)
open AgenticRag.Json
open AgenticRag.Residual (Cutter)

/-! ## Server -/

/-- The code points of a name of the source. -/
def codes (name : String) : List CodePoint :=
  name.toList.map fun char => Fin.ofNat 0x110000 char.toNat

/-- The payload of the last event. -/
structure DonePayload where
  sessionId : List CodePoint
  messageId : List CodePoint
  answer : List CodePoint
  citations : List Written
  route : Option (List CodePoint)
  cacheHit : Bool
  insufficient : Bool

/-- What the generator of `chat_stream` yields. -/
inductive ChatEvent where
  | token (text : List CodePoint)
  | done (payload : DonePayload)
  | error (message : List CodePoint)

def DonePayload.members (payload : DonePayload) : List (List CodePoint × Written) :=
  [(codes "session_id", .string payload.sessionId),
    (codes "message_id", .string payload.messageId),
    (codes "answer", .string payload.answer),
    (codes "citations", .array payload.citations),
    (codes "route", (payload.route.map Value.string).getD .null),
    (codes "cache_hit", .bool payload.cacheHit),
    (codes "insufficient", .bool payload.insufficient)]

/-- The `event` of a yielded dictionary. -/
def ChatEvent.name : ChatEvent → Text
  | .token _ => "token".toList
  | .done _ => "done".toList
  | .error _ => "error".toList

/-- The members of the object whose JSON text is the `data` of a yielded dictionary. -/
def ChatEvent.members : ChatEvent → List (List CodePoint × Written)
  | .token text => [(codes "token", .string text)]
  | .done payload => payload.members
  | .error message => [(codes "error", .string message)]

/-- The comment of a keep-alive block, in lines. -/
structure Ping where
  comments : List Text
  nonempty : comments ≠ []
  clean : ∀ comment ∈ comments, '\r' ∉ comment ∧ '\n' ∉ comment

/-- What the response is made of. -/
inductive Frame where
  | event (sent : ChatEvent)
  | ping (sent : Ping)

def Frame.lines : Frame → List Text
  | .event sent =>
      ["event: ".toList ++ sent.name, "data: ".toList ++ dumps (.object sent.members)]
  | .ping sent => sent.comments.map fun comment => ": ".toList ++ comment

/-- The lines of a block and the empty line behind them. -/
def encodeLines (lineEnd : Text) (lines : List Text) : Text :=
  lines.flatMap (fun line => line ++ lineEnd) ++ lineEnd

/-- The text of the response. -/
def wire (frames : List Frame) : Text :=
  frames.flatMap fun frame => encodeLines ['\r', '\n'] frame.lines

/-- The events of the response, without the keep-alive blocks. -/
def eventsOf (frames : List Frame) : List ChatEvent :=
  frames.filterMap fun frame =>
    match frame with
    | .event sent => some sent
    | .ping _ => none

/-! ## Decoder -/

/-- `TextDecoder` with `stream: true`. -/
structure Decoder where
  State : Type
  start : State
  decode : State → List UInt8 → State × Text

def Decoder.piecesFrom (decoder : Decoder) (state : decoder.State) :
    List (List UInt8) → List Text
  | [] => []
  | chunk :: rest =>
      let result := decoder.decode state chunk
      result.2 :: decoder.piecesFrom result.1 rest

/-- The texts of the chunks of a stream. -/
def Decoder.pieces (decoder : Decoder) (chunks : List (List UInt8)) : List Text :=
  decoder.piecesFrom decoder.start chunks

/-- However the bytes of a text are cut, its pieces make up the text.  A byte order mark in
front is not part of it. -/
def Decoder.Concatenates (decoder : Decoder) : Prop :=
  ∀ text chunks, text.head? ≠ some '\uFEFF' → chunks.flatten = Codecs.encodeUtf8 text →
    (decoder.pieces chunks).flatten = text

/-! ## Client -/

/-- A call of a handler; an error is an `ApiError`. -/
inductive Call (ν : Type) where
  | token (value : Read ν)
  | done (payload : Read ν)
  | error (status : ℕ) (message : String)

/-- What the client makes of an error event, whatever its message is. -/
def answerFailed {ν : Type} : Call ν :=
  .error 500 ("Beim Beantworten ist ein Fehler aufgetreten. " ++
    "Bitte stellen Sie die Frage erneut.")

/-- What the client makes of an exception in its loop. -/
def connectionBroken {ν : Type} : Call ν :=
  .error 0 ("Die Verbindung ist beim Antworten abgebrochen. " ++
    "Bitte versuchen Sie es erneut.")

/-- The variables `event` and `data` of the loop over the lines. -/
structure Fields where
  event : Text := "message".toList
  data : Text := []

def readLine (fields : Fields) (line : Text) : Fields :=
  if "event:".toList <+: line then { fields with event := trim (line.drop 6) }
  else if "data:".toList <+: line then
    { fields with data := fields.data ++ trim (line.drop 5) }
  else fields

def readBlock (block : Text) : Fields :=
  (block.splitOn '\n').foldl readLine {}

section Reader

variable {ν : Type} (double : ℚ → ν)

/-- `payload.token ?? ""`, which raises for `null`. -/
def tokenOf : Read ν → Except Unit (Read ν)
  | .null => .error ()
  | .object members =>
      match members.reverse.lookup (unitsOf (codes "token")) with
      | none | some .null => .ok (.string [])
      | some value => .ok value
  | .bool _ | .number _ | .string _ | .array _ => .ok (.string [])

/-- The call a block leads to; the error is an exception. -/
def callOf (block : Text) : Except Unit (Option (Call ν)) :=
  let fields := readBlock block
  if fields.data = [] then .ok none
  else
    match parse double fields.data with
    | none => .ok none
    | some payload =>
        if fields.event = "token".toList then
          (tokenOf payload).map fun value => some (.token value)
        else if fields.event = "done".toList then .ok (some (.done payload))
        else if fields.event = "error".toList then .ok (some answerFailed)
        else .ok none

/-- `buf`, the calls so far, and whether the loop still runs. -/
structure Reader (ν : Type) where
  buf : Text := []
  calls : List (Call ν) := []
  running : Bool := true

def handle (reader : Reader ν) (block : Text) : Reader ν :=
  if reader.running = false then reader
  else
    match callOf double block with
    | .ok none => reader
    | .ok (some call) => { reader with calls := reader.calls ++ [call] }
    | .error _ =>
        { reader with calls := reader.calls ++ [connectionBroken], running := false }

/-- The text in front of the first `\n\n`, and the text behind it. -/
def cutBlock : Text → Option (Text × Text)
  | [] => none
  | first :: rest =>
      if first = '\n' ∧ rest.head? = some '\n' then some ([], rest.tail)
      else (cutBlock rest).map fun cut => (first :: cut.1, cut.2)

theorem length_cutBlock {text block rest : Text} (hcut : cutBlock text = some (block, rest)) :
    rest.length < text.length := by
  induction text generalizing block with
  | nil => cases hcut
  | cons first more ih =>
    rw [cutBlock] at hcut
    split_ifs at hcut with hend
    · rw [Option.some.injEq, Prod.mk.injEq] at hcut
      rw [← hcut.2, List.length_tail, List.length_cons]
      omega
    · obtain ⟨cut, hlater, heq⟩ := Option.map_eq_some_iff.mp hcut
      rw [Prod.mk.injEq] at heq
      have hless := ih (hlater.trans (by rw [← heq.2]))
      rw [List.length_cons]
      omega

theorem cutBlock_append {text block rest : Text} (hcut : cutBlock text = some (block, rest))
    (more : Text) : cutBlock (text ++ more) = some (block, rest ++ more) := by
  induction text generalizing block with
  | nil => cases hcut
  | cons first behind ih =>
    have hne : behind ≠ [] := by
      rintro rfl
      rw [cutBlock, if_neg (by simp)] at hcut
      cases hcut
    rw [cutBlock] at hcut
    rw [List.cons_append, cutBlock, List.head?_append_of_ne_nil _ hne]
    split_ifs at hcut ⊢ with hend
    · rw [Option.some.injEq, Prod.mk.injEq] at hcut
      rw [List.tail_append_of_ne_nil hne, hcut.1, hcut.2]
    · obtain ⟨cut, hlater, heq⟩ := Option.map_eq_some_iff.mp hcut
      rw [Prod.mk.injEq] at heq
      rw [ih (hlater.trans (by rw [← heq.2])), Option.map_some, heq.1]

/-- What the inner loop takes off the buffer. -/
def blockCutter : Cutter Char Text where
  cut := cutBlock
  shorter := length_cutBlock
  stable := cutBlock_append

/-- One round of the outer loop. -/
def readPiece (reader : Reader ν) (piece : Text) : Reader ν :=
  if reader.running = false then reader
  else
    let cut := blockCutter.drain ((reader.buf ++ piece).filter (· ≠ '\r'))
    cut.1.foldl (handle double) { reader with buf := cut.2 }

/-- `chatStream` on the chunks of a response that is there. -/
def chatStream (decoder : Decoder) (chunks : List (List UInt8)) : List (Call ν) :=
  ((decoder.pieces chunks).foldl (readPiece double) {}).calls

/-- The call an event is meant for. -/
def ChatEvent.call : ChatEvent → Call ν
  | .token text => .token (.string (unitsOf text))
  | .done payload => .done ((Value.object payload.members).converted double)
  | .error _ => answerFailed

end Reader

end AgenticRag.ChatEvents
