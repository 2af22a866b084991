import AgenticRag.Access.Reading
import AgenticRag.Graph.Replies
import AgenticRag.Text.UuidText

/-!
# The citations of a reopened session

Citations are stored as JSON objects with the passages they quote.  `get_session` collects
the ids of all cited documents, looks up which of them the user can read now, and shows of
every other citation its marker only.
-/

namespace AgenticRag.History

open AgenticRag.Access AgenticRag.Clients
open AgenticRag.OpenAILLM (Hashable)

/-! ## Rows and responses -/

/-- A stored citation; the keys of an object are unique. -/
abbrev Record := List (String × Json)

/-- `record.get(key)` -/
def Record.get (record : Record) (key : String) : Json :=
  (record.lookup key).getD .null

/-- A row of `chat_messages`. -/
structure StoredMessage where
  id : Uuid
  sessionId : Uuid
  role : Role
  content : String
  createdAt : ℚ
  citations : Option (List Record)

/-- A row of `chat_sessions`. -/
structure SessionRow where
  id : Uuid
  userId : Uuid
  title : Option String
  createdAt : ℚ

/-- A row of `message_feedback`; a user has one for a message. -/
structure Rating where
  userId : Uuid
  messageId : Uuid
  rating : String

structure Conversations where
  sessions : Uuid → Option SessionRow
  messages : List StoredMessage
  ratings : List Rating
  keyed : ∀ sessionId session, sessions sessionId = some session → session.id = sessionId

structure MessageOut where
  id : Uuid
  role : Role
  content : String
  createdAt : ℚ
  feedback : Option String
  citations : Option (List Record)

structure SessionDetail where
  id : Uuid
  title : Option String
  createdAt : ℚ
  messages : List MessageOut

/-! ## `get_session` -/

/-- What an exception other than an `HTTPException` becomes. -/
def serverError : HttpError :=
  ⟨500, "Internal Server Error"⟩

instance : DecidablePred Hashable
  | .null | .bool _ | .number _ | .string _ => isTrue trivial
  | .array _ | .object _ => isFalse id

/-- `uuid.UUID(value)` -/
def readUuid : Json → Except HttpError Uuid
  | .string text => ((Uuid.parse text).map .ok).getD (.error serverError)
  | _ => .error serverError

/-- The documents the messages cite, as the values that go into the set `cited`. -/
def citedValues (messages : List StoredMessage) : List Json :=
  (messages.flatMap fun message =>
    (message.citations.getD []).map (·.get "document_id")).filter (·.truthy)

/-- `_readable_document_ids` -/
def readableDocumentIds (library : Library) (user : User) (messages : List StoredMessage) :
    Except HttpError (List String) :=
  let cited := citedValues messages
  let allowed := library.tables.accessibleCollectionIds user
  if ∃ value ∈ cited, ¬ Hashable value then .error serverError
  else if cited.isEmpty ∨ allowed = ∅ then .ok []
  else (cited.mapM readUuid).map fun ids =>
    ((library.documentsIn allowed).filter (· ∈ ids)).map Uuid.str

/-- The citation without its passage, file and figure. -/
def revoked (record : Record) : Record :=
  [("marker", record.get "marker"), ("revoked", .bool true)]

/-- `_visible_citations` on one citation. -/
def visibleRecord (readable : List String) (record : Record) : Except HttpError Record :=
  match record.get "document_id" with
  | .array _ | .object _ => .error serverError
  | .string text => .ok (if text ∈ readable then record else revoked record)
  | .null | .bool _ | .number _ => .ok (revoked record)

/-- `_visible_citations` -/
def visibleCitations (readable : List String) :
    Option (List Record) → Except HttpError (Option (List Record))
  | none => .ok none
  | some citations => (citations.mapM (visibleRecord readable)).map some

namespace Conversations

variable (conversations : Conversations)

/-- The messages of a session, oldest first. -/
def history (sessionId : Uuid) : List StoredMessage :=
  (conversations.messages.filter (·.sessionId = sessionId)).insertionSort
    fun left right => left.createdAt ≤ right.createdAt

/-- `fb.get(m.id)` -/
def feedback (user : User) (messageId : Uuid) : Option String :=
  (conversations.ratings.find? fun row =>
    row.userId = user.id && row.messageId = messageId).map (·.rating)

/-- `_owned_session` -/
def ownedSession (user : User) (sessionId : Uuid) : Except HttpError SessionRow :=
  match conversations.sessions sessionId with
  | none => .error ⟨404, "Session not found"⟩
  | some session =>
      if session.userId = user.id then .ok session else .error ⟨404, "Session not found"⟩

def messageOut (user : User) (message : StoredMessage) (citations : Option (List Record)) :
    MessageOut where
  id := message.id
  role := message.role
  content := message.content
  createdAt := message.createdAt
  feedback := conversations.feedback user message.id
  citations := citations

/-- `get_session` -/
def getSession (library : Library) (user : User) (sessionId : Uuid) :
    Except HttpError SessionDetail := do
  let session ← conversations.ownedSession user sessionId
  let messages := conversations.history session.id
  let readable ← readableDocumentIds library user messages
  let shown ← messages.mapM fun message =>
    (visibleCitations readable message.citations).map (conversations.messageOut user message)
  return {
    id := session.id
    title := session.title
    createdAt := session.createdAt
    messages := shown }

end Conversations

/-! ## What a citation shows -/

section Shown

variable (library : Library) (user : User)

/-- The document exists and lies in a collection the user can access now. -/
def Readable (documentId : Uuid) : Prop :=
  ∃ document, library.stores.documents documentId = some document ∧
    document.collectionId ∈ library.tables.accessibleCollectionIds user

/-- The citation names a document by its identifier. -/
def Cites (record : Record) (documentId : Uuid) : Prop :=
  ∃ text, record.get "document_id" = .string text ∧ Uuid.parse text = some documentId

/-- The document id of a citation is the text of an identifier, or absent. -/
def Named (record : Record) : Prop :=
  record.get "document_id" = .null ∨ ∃ documentId, Cites record documentId

/-- The user cannot read a document the citation names. -/
def Hidden (record : Record) : Prop :=
  Named record ∧ ∀ documentId, Cites record documentId → ¬ Readable library user documentId

/-- The citation is of a document the user can read, written as `str` writes it. -/
def ShownInFull (record : Record) : Prop :=
  ∃ documentId : Uuid, record.get "document_id" = .string documentId.str ∧
    Readable library user documentId

open Classical in
/-- What a citation shows, whatever else the history cites. -/
noncomputable def shownRecord (record : Record) : Record :=
  if ShownInFull library user record then record else revoked record

/-- A stored citation and the one in the response: in full and of a readable document, or
the marker and the flag. -/
structure Shows (stored shown : Record) : Prop where
  full_or_revoked : shown = stored ∧ (∃ documentId, Cites stored documentId ∧
      Readable library user documentId) ∨
    shown = [("marker", stored.get "marker"), ("revoked", .bool true)]
  marker : shown.get "marker" = stored.get "marker"
  kept : ∀ documentId : Uuid, stored.get "document_id" = .string documentId.str →
    Readable library user documentId → shown = stored

/-- A message and its citations in the response, one for one and in order. -/
structure ShowsMessage (stored : StoredMessage) (shown : MessageOut) : Prop where
  id : shown.id = stored.id
  role : shown.role = stored.role
  content : shown.content = stored.content
  createdAt : shown.createdAt = stored.createdAt
  citations : Option.Rel (List.Forall₂ (Shows library user)) stored.citations shown.citations

/-- The citations are the same, or have the same marker and are of documents the user
cannot read. -/
def Alike (left right : Record) : Prop :=
  left = right ∨
    left.get "marker" = right.get "marker" ∧ Hidden library user left ∧
      Hidden library user right

/-- Two messages that differ in citations of documents the user cannot read only. -/
structure AlikeMessages (left right : StoredMessage) : Prop where
  id : left.id = right.id
  role : left.role = right.role
  content : left.content = right.content
  createdAt : left.createdAt = right.createdAt
  citations : Option.Rel (List.Forall₂ (Alike library user)) left.citations right.citations

/-- Two stores whose histories of the session differ in citations of documents the user
cannot read only. -/
structure AlikeHistories (sessionId : Uuid) (left right : Conversations) : Prop where
  session : left.sessions sessionId = right.sessions sessionId
  ratings : left.ratings = right.ratings
  messages : List.Forall₂ (AlikeMessages library user) (left.history sessionId)
    (right.history sessionId)

end Shown

end AgenticRag.History
