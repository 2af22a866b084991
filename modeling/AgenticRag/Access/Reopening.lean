import AgenticRag.Access.History

/-!
# What a reopened session gives away

The ids are looked up for the whole history at once, and still every citation is judged by
itself: in full exactly where it names, as `str` writes it, a document the user can read
now.  What stands in the other citations does not show.
-/

namespace AgenticRag.History

open AgenticRag.Access AgenticRag.Clients
open AgenticRag.OpenAILLM (Hashable)

/-! ## The lookup -/

theorem mapM_ok {ε α β : Type} {run : α → Except ε β} {value : α → β} {items : List α}
    (hrun : ∀ item ∈ items, run item = .ok (value item)) :
    items.mapM run = .ok (items.map value) := by
  induction items with
  | nil => rfl
  | cons item items ih =>
    rw [List.mapM_cons, hrun item List.mem_cons_self,
      ih fun other hother => hrun other (List.mem_cons_of_mem item hother)]
    rfl

/-- The record is one of the citations of the messages. -/
def Among (messages : List StoredMessage) (record : Record) : Prop :=
  ∃ message ∈ messages, record ∈ message.citations.getD []

section Lookup

variable {library : Library} {user : User} {messages : List StoredMessage} {record : Record}

theorem truthy_of_cites {documentId : Uuid} (hcites : Cites record documentId) :
    (record.get "document_id").truthy = true := by
  obtain ⟨text, htext, hparse⟩ := hcites
  have hne : text ≠ "" := by
    rintro rfl
    cases hparse
  rw [htext]
  exact decide_eq_true hne

theorem readUuid_of_cites {documentId : Uuid} (hcites : Cites record documentId) :
    readUuid (record.get "document_id") = .ok documentId := by
  obtain ⟨text, htext, hparse⟩ := hcites
  rw [htext, readUuid, hparse]
  rfl

theorem mem_citedValues {value : Json} : value ∈ citedValues messages ↔
    (∃ record, Among messages record ∧ record.get "document_id" = value) ∧
      value.truthy = true := by
  rw [citedValues, List.mem_filter]
  apply and_congr_left'
  constructor
  · intro hmem
    obtain ⟨message, hmessage, hvalue⟩ := List.mem_flatMap.mp hmem
    obtain ⟨record, hrecord, heq⟩ := List.mem_map.mp hvalue
    exact ⟨record, ⟨message, hmessage, hrecord⟩, heq⟩
  · rintro ⟨record, ⟨message, hmessage, hrecord⟩, heq⟩
    exact List.mem_flatMap.mpr ⟨message, hmessage, List.mem_map.mpr ⟨record, hrecord, heq⟩⟩

/-- Every value in the set is the text of an identifier. -/
theorem exists_uuid_of_mem (hnamed : ∀ record, Among messages record → Named record)
    {value : Json} (hvalue : value ∈ citedValues messages) :
    ∃ record documentId, Among messages record ∧ Cites record documentId ∧
      record.get "document_id" = value ∧ readUuid value = .ok documentId := by
  obtain ⟨⟨record, hamong, rfl⟩, htruthy⟩ := mem_citedValues.mp hvalue
  cases hnamed record hamong with
  | inl hnull =>
    rw [hnull] at htruthy
    cases htruthy
  | inr hcites =>
    obtain ⟨documentId, hcites⟩ := hcites
    exact ⟨record, documentId, hamong, hcites, rfl, readUuid_of_cites hcites⟩

theorem mem_documentsIn_accessible (documentId : Uuid) :
    documentId ∈ library.documentsIn (library.tables.accessibleCollectionIds user) ↔
      Readable library user documentId := by
  rw [Library.documentsIn, List.mem_filter, library.listed, Readable]
  cases library.stores.documents documentId <;> simp

/-- The lookup finds the texts of the cited documents the user can read. -/
theorem readableDocumentIds_ok (hnamed : ∀ record, Among messages record → Named record) :
    ∃ readable, readableDocumentIds library user messages = .ok readable ∧
      ∀ text, text ∈ readable ↔ ∃ documentId : Uuid, text = documentId.str ∧
        Readable library user documentId ∧
          ∃ record, Among messages record ∧ Cites record documentId := by
  have hhashable : ¬ ∃ value ∈ citedValues messages, ¬ Hashable value := by
    rintro ⟨value, hvalue, hunhashable⟩
    obtain ⟨record, documentId, -, ⟨text, htext, -⟩, heq, -⟩ := exists_uuid_of_mem hnamed hvalue
    rw [← heq, htext] at hunhashable
    exact hunhashable trivial
  rw [readableDocumentIds, if_neg hhashable]
  by_cases hnone : (citedValues messages).isEmpty = true ∨
      library.tables.accessibleCollectionIds user = ∅
  · refine ⟨[], if_pos hnone, fun text => iff_of_false List.not_mem_nil ?_⟩
    rintro ⟨documentId, -, ⟨document, -, hallowed⟩, record, hamong, hcites⟩
    cases hnone with
    | inl hempty =>
      have hmem := mem_citedValues.mpr ⟨⟨record, hamong, rfl⟩, truthy_of_cites hcites⟩
      rw [List.isEmpty_iff.mp hempty] at hmem
      cases hmem
    | inr hempty =>
      rw [hempty] at hallowed
      cases hallowed
  · have hread : (citedValues messages).mapM readUuid = .ok ((citedValues messages).map
        fun value => (readUuid value).toOption.getD 0) := by
      apply mapM_ok
      intro value hvalue
      obtain ⟨_, documentId, -, -, -, hread⟩ := exists_uuid_of_mem hnamed hvalue
      rw [hread]
      rfl
    refine ⟨_, (if_neg hnone).trans (congrArg _ hread), fun text => ?_⟩
    simp only [List.mem_map, List.mem_filter, mem_documentsIn_accessible, decide_eq_true_eq]
    constructor
    · rintro ⟨documentId, ⟨hreadable, value, hvalue, hid⟩, rfl⟩
      obtain ⟨record, found, hamong, hcites, -, hread⟩ := exists_uuid_of_mem hnamed hvalue
      rw [hread] at hid
      obtain rfl : found = documentId := hid
      exact ⟨found, rfl, hreadable, record, hamong, hcites⟩
    · rintro ⟨documentId, rfl, hreadable, record, hamong, hcites⟩
      have hmem := mem_citedValues.mpr ⟨⟨record, hamong, rfl⟩, truthy_of_cites hcites⟩
      refine ⟨documentId, ⟨hreadable, _, hmem, ?_⟩, rfl⟩
      rw [readUuid_of_cites hcites]
      rfl

end Lookup

/-! ## The response -/

section Response

variable {library : Library} {user : User} {conversations : Conversations}
variable {sessionId : Uuid} {messages : List StoredMessage} {record : Record}

theorem cites_str {documentId : Uuid} (htext : record.get "document_id" = .string documentId.str) :
    Cites record documentId :=
  ⟨documentId.str, htext, Uuid.parse_str documentId⟩

theorem get_marker_revoked (record : Record) :
    (revoked record).get "marker" = record.get "marker" :=
  rfl

theorem shows_shownRecord (record : Record) :
    Shows library user record (shownRecord library user record) := by
  by_cases hfull : ShownInFull library user record
  · have hshown : shownRecord library user record = record := if_pos hfull
    obtain ⟨documentId, htext, hreadable⟩ := hfull
    exact {
      full_or_revoked := .inl ⟨hshown, documentId, cites_str htext, hreadable⟩
      marker := by rw [hshown]
      kept := fun _ _ _ => hshown }
  · have hshown : shownRecord library user record = revoked record := if_neg hfull
    exact {
      full_or_revoked := .inr hshown
      marker := by rw [hshown, get_marker_revoked]
      kept := fun documentId htext hreadable => absurd ⟨documentId, htext, hreadable⟩ hfull }

theorem Hidden.not_shownInFull (hhidden : Hidden library user record) :
    ¬ ShownInFull library user record := by
  rintro ⟨documentId, htext, hreadable⟩
  exact hhidden.2 documentId (cites_str htext) hreadable

/-- Of citations that are alike the same is shown. -/
theorem Alike.shownRecord_eq {left right : Record} (halike : Alike library user left right) :
    shownRecord library user left = shownRecord library user right := by
  cases halike with
  | inl hsame => rw [hsame]
  | inr hhidden =>
    obtain ⟨hmarker, hleft, hright⟩ := hhidden
    rw [shownRecord, shownRecord, if_neg hleft.not_shownInFull, if_neg hright.not_shownInFull,
      revoked, revoked, hmarker]

/-- With the ids of the whole history at hand a citation is judged by itself. -/
theorem visibleRecord_eq {readable : List String}
    (hreadable : ∀ text, text ∈ readable ↔ ∃ documentId : Uuid, text = documentId.str ∧
      Readable library user documentId ∧
        ∃ record, Among messages record ∧ Cites record documentId)
    (hamong : Among messages record) (hnamed : Named record) :
    visibleRecord readable record = .ok (shownRecord library user record) := by
  cases hnamed with
  | inl hnull =>
    have hnot : ¬ ShownInFull library user record := by
      rintro ⟨documentId, htext, -⟩
      rw [hnull] at htext
      cases htext
    rw [visibleRecord, hnull, shownRecord, if_neg hnot]
  | inr hcites =>
    obtain ⟨documentId, text, htext, hparse⟩ := hcites
    have hfull : text ∈ readable ↔ ShownInFull library user record := by
      rw [hreadable, ShownInFull, htext]
      constructor
      · rintro ⟨found, rfl, hfound, -⟩
        exact ⟨found, rfl, hfound⟩
      · rintro ⟨found, hsame, hfound⟩
        rw [Json.string.injEq] at hsame
        exact ⟨found, hsame, hfound, record, hamong, cites_str (hsame ▸ htext)⟩
    rw [visibleRecord, htext, shownRecord]
    by_cases hmem : text ∈ readable
    · exact congrArg Except.ok ((if_pos hmem).trans (if_pos (hfull.mp hmem)).symm)
    · exact congrArg Except.ok ((if_neg hmem).trans (if_neg (mt hfull.mpr hmem)).symm)

theorem visibleCitations_eq {readable : List String}
    (hreadable : ∀ text, text ∈ readable ↔ ∃ documentId : Uuid, text = documentId.str ∧
      Readable library user documentId ∧
        ∃ record, Among messages record ∧ Cites record documentId)
    (hnamed : ∀ record, Among messages record → Named record) {message : StoredMessage}
    (hmessage : message ∈ messages) :
    visibleCitations readable message.citations =
      .ok (message.citations.map (List.map (shownRecord library user))) := by
  cases hcitations : message.citations with
  | none => rfl
  | some citations =>
    have hall : ∀ record ∈ citations,
        visibleRecord readable record = .ok (shownRecord library user record) := by
      intro record hrecord
      have hamong : Among messages record := ⟨message, hmessage, by rw [hcitations]; exact hrecord⟩
      exact visibleRecord_eq hreadable hamong (hnamed record hamong)
    rw [visibleCitations, mapM_ok hall]
    rfl

/-- The response of `get_session` to the owner of the session. -/
theorem getSession_eq {session : SessionRow}
    (hsession : conversations.sessions sessionId = some session)
    (howner : session.userId = user.id)
    (hnamed : ∀ record, Among (conversations.history sessionId) record → Named record) :
    conversations.getSession library user sessionId = .ok {
      id := sessionId
      title := session.title
      createdAt := session.createdAt
      messages := (conversations.history sessionId).map fun message =>
        conversations.messageOut user message
          (message.citations.map (List.map (shownRecord library user))) } := by
  obtain rfl := conversations.keyed sessionId session hsession
  obtain ⟨readable, hlookup, hreadable⟩ :=
    @readableDocumentIds_ok library user _ hnamed
  have howned : conversations.ownedSession user session.id = .ok session := by
    rw [Conversations.ownedSession, hsession]
    exact if_pos howner
  have hmessages : ((conversations.history session.id).mapM fun message =>
      (visibleCitations readable message.citations).map (conversations.messageOut user message)) =
        .ok ((conversations.history session.id).map fun message =>
          conversations.messageOut user message
            (message.citations.map (List.map (shownRecord library user)))) := by
    apply mapM_ok
    intro message hmessage
    rw [visibleCitations_eq hreadable hnamed hmessage]
    rfl
  rw [Conversations.getSession, howned]
  simp only [hlookup, hmessages, bind, Except.bind, pure, Except.pure]

theorem getSession_of_none (hsession : conversations.sessions sessionId = none) :
    conversations.getSession library user sessionId = .error ⟨404, "Session not found"⟩ := by
  rw [Conversations.getSession, Conversations.ownedSession, hsession]
  rfl

/-- A session that is not the user's own has no response. -/
theorem getSession_of_foreign {session : SessionRow}
    (hsession : conversations.sessions sessionId = some session)
    (hforeign : session.userId ≠ user.id) :
    conversations.getSession library user sessionId = .error ⟨404, "Session not found"⟩ := by
  have howned : conversations.ownedSession user sessionId =
      .error ⟨404, "Session not found"⟩ := by
    rw [Conversations.ownedSession, hsession]
    exact if_neg hforeign
  rw [Conversations.getSession, howned]
  rfl

theorem getSession_owner {detail : SessionDetail}
    (hanswer : conversations.getSession library user sessionId = .ok detail) :
    ∃ session, conversations.sessions sessionId = some session ∧ session.userId = user.id := by
  cases hsession : conversations.sessions sessionId with
  | none =>
    rw [getSession_of_none hsession] at hanswer
    cases hanswer
  | some session =>
    refine ⟨session, rfl, ?_⟩
    by_contra hforeign
    rw [getSession_of_foreign hsession hforeign] at hanswer
    cases hanswer

end Response

/-! ## Two histories -/

section Alike

variable {library : Library} {user : User} {sessionId : Uuid}
variable {conversations : Conversations}

theorem forall₂_map_eq {α β : Type} {related : α → α → Prop} {value other : α → β}
    (hvalue : ∀ left right, related left right → value left = other right)
    {lefts rights : List α} (hall : List.Forall₂ related lefts rights) :
    lefts.map value = rights.map other := by
  induction hall with
  | nil => rfl
  | cons hhead _ ih => rw [List.map_cons, List.map_cons, hvalue _ _ hhead, ih]

theorem exists_left {α β : Type} {related : α → β → Prop} {lefts : List α} {rights : List β}
    (hall : List.Forall₂ related lefts rights) {right : β} (hright : right ∈ rights) :
    ∃ left ∈ lefts, related left right := by
  induction hall with
  | nil => cases hright
  | cons hhead _ ih =>
    cases List.mem_cons.mp hright with
    | inl heq => exact ⟨_, List.mem_cons_self, heq ▸ hhead⟩
    | inr hlater =>
      obtain ⟨left, hleft, hrelated⟩ := ih hlater
      exact ⟨left, List.mem_cons_of_mem _ hleft, hrelated⟩

/-- No citations are as good as an empty list of them. -/
theorem forall₂_getD {α β : Type} {related : α → β → Prop} {lefts : Option (List α)}
    {rights : Option (List β)} (hall : Option.Rel (List.Forall₂ related) lefts rights) :
    List.Forall₂ related (lefts.getD []) (rights.getD []) := by
  cases hall with
  | none => exact .nil
  | some hall => exact hall

theorem AlikeMessages.citations_eq {left right : StoredMessage}
    (halike : AlikeMessages library user left right) :
    left.citations.map (List.map (shownRecord library user)) =
      right.citations.map (List.map (shownRecord library user)) := by
  have hcitations := halike.citations
  generalize left.citations = lefts, right.citations = rights at hcitations ⊢
  cases hcitations with
  | none => rfl
  | some hall =>
    exact congrArg some (forall₂_map_eq (fun _ _ hsame => Alike.shownRecord_eq hsame) hall)

/-- Citations of the second history name documents where those of the first do. -/
theorem named_of_alike {lefts rights : List StoredMessage}
    (halike : List.Forall₂ (AlikeMessages library user) lefts rights)
    (hnamed : ∀ record, Among lefts record → Named record) {record : Record}
    (hamong : Among rights record) : Named record := by
  obtain ⟨right, hright, hrecord⟩ := hamong
  obtain ⟨left, hleft, hmessages⟩ := exists_left halike hright
  obtain ⟨other, hother, hrelated⟩ := exists_left (forall₂_getD hmessages.citations) hrecord
  cases hrelated with
  | inl hsame => exact hsame ▸ hnamed other ⟨left, hleft, hother⟩
  | inr hhidden => exact hhidden.2.2.1

theorem messageOut_eq {other : Conversations} {left right : StoredMessage}
    (hratings : conversations.ratings = other.ratings)
    (halike : AlikeMessages library user left right) :
    conversations.messageOut user left
        (left.citations.map (List.map (shownRecord library user))) =
      other.messageOut user right
        (right.citations.map (List.map (shownRecord library user))) := by
  simp only [Conversations.messageOut, Conversations.feedback, MessageOut.mk.injEq]
  exact ⟨halike.id, halike.role, halike.content, halike.createdAt, by rw [hratings, halike.id],
    halike.citations_eq⟩

end Alike

/-! ## Reopened sessions -/

/-- What `get_session` keeps and what it gives away. -/
structure Reopened (library : Library) (user : User) (conversations : Conversations)
    (sessionId : Uuid) : Prop where
  answered : ∀ session, conversations.sessions sessionId = some session →
    session.userId = user.id →
    ∃ detail, conversations.getSession library user sessionId = .ok detail
  shown : ∀ detail, conversations.getSession library user sessionId = .ok detail →
    List.Forall₂ (ShowsMessage library user) (conversations.history sessionId) detail.messages
  same : ∀ other, AlikeHistories library user sessionId conversations other →
    other.getSession library user sessionId =
      conversations.getSession library user sessionId

/-- A reopened session shows what the user can read now, and nothing depends on the rest. -/
theorem getSession_reopened (library : Library) (user : User) (conversations : Conversations)
    (sessionId : Uuid)
    (hnamed : ∀ record, Among (conversations.history sessionId) record → Named record) :
    Reopened library user conversations sessionId where
  answered session hsession howner := ⟨_, getSession_eq hsession howner hnamed⟩
  shown detail hanswer := by
    obtain ⟨session, hsession, howner⟩ := getSession_owner hanswer
    rw [getSession_eq hsession howner hnamed, Except.ok.injEq] at hanswer
    rw [← hanswer]
    apply List.forall₂_map_right_iff.mpr
    apply List.forall₂_same.mpr
    intro message _
    exact {
      id := rfl
      role := rfl
      content := rfl
      createdAt := rfl
      citations := by
        cases message.citations with
        | none => exact .none
        | some citations =>
          apply Option.Rel.some
          apply List.forall₂_map_right_iff.mpr
          exact List.forall₂_same.mpr fun record _ => shows_shownRecord record }
  same other halike := by
    cases hsession : conversations.sessions sessionId with
    | none =>
      have hother := halike.session.symm.trans hsession
      rw [getSession_of_none hother, getSession_of_none hsession]
    | some session =>
      have hother := halike.session.symm.trans hsession
      by_cases howner : session.userId = user.id
      · have hothers : ∀ record, Among (other.history sessionId) record → Named record :=
          fun _ hamong => named_of_alike halike.messages hnamed hamong
        rw [getSession_eq hother howner hothers, getSession_eq hsession howner hnamed]
        have hmessages := forall₂_map_eq
          (fun _ _ hsame => messageOut_eq halike.ratings hsame) halike.messages
        rw [hmessages]
      · rw [getSession_of_foreign hother howner, getSession_of_foreign hsession howner]

/-- The department of the collection 7. -/
def clerk : User where
  id := 6
  role := .user
  departmentId := some 3

/-- An answer that cites the lease, a document that is gone, and no document. -/
def citingAnswer : StoredMessage where
  id := 2
  sessionId := 1
  role := .assistant
  content := "Die Pacht endet 2030 [1][2][3]."
  createdAt := 0
  citations := some [
    [("marker", .number 1), ("document_id", .string (Uuid.str 1)), ("content", .string "Pacht")],
    [("marker", .number 2), ("document_id", .string (Uuid.str 9)), ("content", .string "alt")],
    [("marker", .number 3)]]

def citingSession : Conversations where
  sessions sessionId :=
    if sessionId = 1 then some { id := 1, userId := 6, title := none, createdAt := 0 } else none
  messages := [citingAnswer]
  ratings := []
  keyed sessionId session hsession := by
    split_ifs at hsession with hid
    cases hsession
    exact hid.symm

theorem getSession_reopened_lease : Reopened leasing clerk citingSession 1 := by
  apply getSession_reopened
  rintro record ⟨message, hmessage, hrecord⟩
  have hhistory : citingSession.history 1 = [citingAnswer] := rfl
  rw [hhistory, List.mem_singleton] at hmessage
  subst hmessage
  simp only [citingAnswer, Option.getD_some, List.mem_cons, List.not_mem_nil, or_false] at hrecord
  rcases hrecord with rfl | rfl | rfl
  · exact .inr ⟨1, cites_str rfl⟩
  · exact .inr ⟨9, cites_str rfl⟩
  · exact .inl rfl

/-! ## Records as citations -/

section Structured

variable {library : Library} {user : User} {messages : List ChatMessage}

def markerValue : Option ℕ → Json
  | none => .null
  | some marker => .number marker

/-- The record of a citation. -/
structure Stands (record : Record) (citation : Citation) : Prop where
  marker : record.get "marker" = markerValue citation.marker
  document : record.get "document_id" = .string citation.documentId.str

structure StandsMessage (stored : StoredMessage) (message : ChatMessage) : Prop where
  role : stored.role = message.role
  content : stored.content = message.content
  citations : Option.Rel (List.Forall₂ Stands) stored.citations message.citations

/-- The record of what is shown of a citation. -/
def ShowsAs (shown : Record) : VisibleCitation → Prop
  | .full citation => Stands shown citation
  | .revoked marker => shown = [("marker", markerValue marker), ("revoked", .bool true)]

structure ShowsMessageAs (shown : MessageOut) (message : ChatMessageOut) : Prop where
  role : shown.role = message.role
  content : shown.content = message.content
  citations : Option.Rel (List.Forall₂ ShowsAs) shown.citations message.citations

theorem mem_readable_iff {message : ChatMessage} (hmessage : message ∈ messages)
    {citation : Citation} (hcitation : citation ∈ message.citations.getD []) :
    citation.documentId ∈ library.readableDocumentIds user messages ↔
      Readable library user citation.documentId := by
  have hcited : citation.documentId ∈ messages.flatMap fun message =>
      (message.citations.getD []).map (·.documentId) :=
    List.mem_flatMap.mpr ⟨message, hmessage, List.mem_map_of_mem hcitation⟩
  rw [Library.readableDocumentIds]
  by_cases hempty : library.tables.accessibleCollectionIds user = ∅
  · simp [hempty, Readable]
  · rw [if_neg (not_or.mpr ⟨List.ne_nil_of_mem hcited, hempty⟩), List.mem_filter,
      mem_documentsIn_accessible, decide_eq_true_eq]
    exact and_iff_left hcited

theorem showsAs_visibleCitation {record : Record} {citation : Citation}
    (hstands : Stands record citation) {readable : List Uuid}
    (hreadable : citation.documentId ∈ readable ↔ Readable library user citation.documentId) :
    ShowsAs (shownRecord library user record) (visibleCitation readable citation) := by
  have hfull : ShownInFull library user record ↔ citation.documentId ∈ readable := by
    rw [hreadable, ShownInFull, hstands.document]
    constructor
    · rintro ⟨documentId, hsame, hfound⟩
      rw [Json.string.injEq] at hsame
      exact Uuid.str_injective hsame ▸ hfound
    · intro hfound
      exact ⟨citation.documentId, rfl, hfound⟩
  rw [shownRecord, visibleCitation]
  by_cases hmem : citation.documentId ∈ readable
  · rw [if_pos hmem, if_pos (hfull.mpr hmem)]
    exact hstands
  · rw [if_neg hmem, if_neg (mt hfull.mp hmem)]
    rw [ShowsAs, revoked, hstands.marker]

theorem forall₂_map_map {α β γ δ : Type} {related : α → β → Prop} {goal : γ → δ → Prop}
    {first : α → γ} {second : β → δ} {lefts : List α} {rights : List β}
    (hall : List.Forall₂ related lefts rights)
    (hgoal : ∀ left, ∀ right ∈ rights, related left right → goal (first left) (second right)) :
    List.Forall₂ goal (lefts.map first) (rights.map second) := by
  induction hall with
  | nil => exact .nil
  | cons hhead _ ih =>
    exact .cons (hgoal _ _ List.mem_cons_self hhead)
      (ih fun left right hright => hgoal left right (List.mem_cons_of_mem _ hright))

theorem Stands.named {record : Record} {citation : Citation} (hstands : Stands record citation) :
    Named record :=
  .inr ⟨citation.documentId, cites_str hstands.document⟩

theorem named_of_stands {stored : List StoredMessage}
    (hstands : List.Forall₂ StandsMessage stored messages) {record : Record}
    (hamong : Among stored record) : Named record := by
  obtain ⟨message, hmessage, hrecord⟩ := hamong
  obtain ⟨other, -, hother⟩ := exists_left hstands.flip hmessage
  obtain ⟨citation, -, hcitation⟩ := exists_left (forall₂_getD hother.citations).flip hrecord
  exact hcitation.named

/-- On records that stand for structured citations, the response is the structured one. -/
theorem getSession_refines {conversations : Conversations} {sessionId : Uuid}
    {session : SessionRow} (hsession : conversations.sessions sessionId = some session)
    (howner : session.userId = user.id)
    (hstands : List.Forall₂ StandsMessage (conversations.history sessionId) messages) :
    ∃ detail out, conversations.getSession library user sessionId = .ok detail ∧
      library.getSession user (some ⟨user.id, messages⟩) = .ok out ∧
        List.Forall₂ ShowsMessageAs detail.messages out := by
  have hnamed : ∀ record, Among (conversations.history sessionId) record → Named record :=
    fun _ hamong => named_of_stands hstands hamong
  refine ⟨_, _, getSession_eq hsession howner hnamed, if_neg (not_not.mpr rfl), ?_⟩
  apply forall₂_map_map hstands
  intro stored message hmessage hstored
  have hreadable : ∀ citation ∈ message.citations.getD [],
      (citation.documentId ∈ library.readableDocumentIds user messages ↔
        Readable library user citation.documentId) :=
    fun citation hcitation => mem_readable_iff hmessage hcitation
  have hcitations := hstored.citations
  exact {
    role := hstored.role
    content := hstored.content
    citations := by
      change Option.Rel _ (stored.citations.map _) (message.citations.map _)
      generalize stored.citations = records, message.citations = citations
        at hcitations hreadable ⊢
      cases hcitations with
      | none => exact .none
      | some hall =>
        apply Option.Rel.some
        exact forall₂_map_map hall fun record citation hcitation hrecord =>
          showsAs_visibleCitation hrecord (hreadable citation hcitation) }

end Structured

end AgenticRag.History
