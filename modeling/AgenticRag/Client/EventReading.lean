import AgenticRag.Client.Events
import AgenticRag.Text.JsonReading
import AgenticRag.Text.Utf8Stream

/-!
# The events the client reads

However the stream is cut, the loop of the client handles the blocks of the whole text, and
every event of the server is one block that leads to its own call.
-/

namespace AgenticRag.ChatEvents

open AgenticRag.Client (Text trim)
open AgenticRag.Json AgenticRag.PyString

/-! ## The buffer -/

section Buffer

variable {ν : Type} {double : ℚ → ν} {reader : Reader ν}

theorem handle_buf (reader : Reader ν) (buf block : Text) :
    handle double { reader with buf := buf } block =
      { handle double reader block with buf := buf } := by
  obtain ⟨old, calls, running⟩ := reader
  cases running with
  | false => rfl
  | true =>
    simp only [handle]
    cases callOf double block with
    | error failure => rfl
    | ok call => cases call <;> rfl

theorem foldl_handle_buf (blocks : List Text) (reader : Reader ν) (buf : Text) :
    blocks.foldl (handle double) { reader with buf := buf } =
      { blocks.foldl (handle double) reader with buf := buf } := by
  induction blocks generalizing reader with
  | nil => rfl
  | cons block blocks ih => rw [List.foldl_cons, handle_buf, ih, List.foldl_cons]

/-- After an exception no block is handled. -/
theorem foldl_handle_stopped (blocks : List Text) (hstopped : reader.running = false) :
    blocks.foldl (handle double) reader = reader := by
  induction blocks with
  | nil => rfl
  | cons block blocks ih => rw [List.foldl_cons, handle, if_pos hstopped, ih]

/-- The text without carriage returns that the pieces make up. -/
def received (pieces : List Text) : Text :=
  pieces.flatten.filter (· ≠ '\r')

theorem received_snoc (pieces : List Text) (piece : Text) :
    received (pieces ++ [piece]) = received pieces ++ piece.filter (· ≠ '\r') := by
  simp [received]

theorem cutBlock_subset {text block rest : Text} (hcut : cutBlock text = some (block, rest)) :
    rest ⊆ text := by
  induction text generalizing block with
  | nil => cases hcut
  | cons first more ih =>
    rw [cutBlock] at hcut
    split_ifs at hcut
    · rw [Option.some.injEq, Prod.mk.injEq] at hcut
      rw [← hcut.2]
      exact List.Subset.trans (List.tail_subset more) (List.subset_cons_self first more)
    · obtain ⟨cut, hlater, heq⟩ := Option.map_eq_some_iff.mp hcut
      rw [Prod.mk.injEq] at heq
      exact List.Subset.trans (ih (hlater.trans (by rw [← heq.2])))
        (List.subset_cons_self first more)

/-- What is left of the text has no carriage return, and the next filter keeps it. -/
theorem filter_residual (pieces : List Text) :
    (blockCutter.drain (received pieces)).2.filter (· ≠ '\r') =
      (blockCutter.drain (received pieces)).2 := by
  rw [List.filter_eq_self]
  intro char hchar
  have hmem := blockCutter.drain_subset cutBlock_subset (received pieces) hchar
  exact (List.mem_filter.mp hmem).2

/-- The reader after some pieces: it has handled the complete blocks of their text and
keeps the rest, unless an exception has ended its loop. -/
structure Follows (double : ℚ → ν) (pieces : List Text) (reader : Reader ν) : Prop where
  calls : reader.calls =
    ((blockCutter.drain (received pieces)).1.foldl (handle double) {}).calls
  running : reader.running =
    ((blockCutter.drain (received pieces)).1.foldl (handle double) {}).running
  buf : reader.running = true → reader.buf = (blockCutter.drain (received pieces)).2

theorem Follows.step {pieces : List Text} (hfollows : Follows double pieces reader)
    (piece : Text) : Follows double (pieces ++ [piece]) (readPiece double reader piece) := by
  have hdrain := blockCutter.drain_append (received pieces) (piece.filter (· ≠ '\r'))
  rw [← received_snoc] at hdrain
  cases hrunning : reader.running with
  | false =>
    have hstopped : ((blockCutter.drain (received pieces)).1.foldl (handle double)
        {}).running = false := hfollows.running ▸ hrunning
    have hfold : (blockCutter.drain (received (pieces ++ [piece]))).1.foldl (handle double)
        {} = (blockCutter.drain (received pieces)).1.foldl (handle double) {} := by
      rw [hdrain, List.foldl_append, foldl_handle_stopped _ hstopped]
    rw [readPiece, if_pos hrunning]
    exact {
      calls := by rw [hfold, hfollows.calls]
      running := by rw [hfold, hfollows.running]
      buf := fun hopen => absurd hrunning (by simp [hopen]) }
  | true =>
    have htext : (reader.buf ++ piece).filter (· ≠ '\r') =
        (blockCutter.drain (received pieces)).2 ++ piece.filter (· ≠ '\r') := by
      rw [List.filter_append, hfollows.buf hrunning, filter_residual]
    obtain ⟨next, hnext⟩ : ∃ next, next = blockCutter.drain
        ((blockCutter.drain (received pieces)).2 ++ piece.filter (· ≠ '\r')) := ⟨_, rfl⟩
    obtain ⟨start, hstart⟩ : ∃ start : Reader ν, start =
        (blockCutter.drain (received pieces)).1.foldl (handle double) {} := ⟨_, rfl⟩
    rw [← hnext] at hdrain
    have hfold : (blockCutter.drain (received (pieces ++ [piece]))).1.foldl (handle double)
        {} = next.1.foldl (handle double) start := by
      rw [hdrain, List.foldl_append, hstart]
    have hreader : { reader with buf := next.2 } = { start with buf := next.2 } := by
      rw [Reader.mk.injEq, hstart]
      exact ⟨rfl, hfollows.calls, hfollows.running⟩
    have hread : readPiece double reader piece =
        { next.1.foldl (handle double) start with buf := next.2 } := by
      rw [readPiece, if_neg (by simp [hrunning]), htext, ← hnext]
      exact (congrArg (next.1.foldl (handle double)) hreader).trans
        (foldl_handle_buf next.1 start next.2)
    rw [hread]
    exact {
      calls := by rw [hfold]
      running := by rw [hfold]
      buf := fun _ => by rw [hdrain] }

/-- The calls depend on the text alone, not on how it was cut. -/
theorem foldl_readPiece_follows (double : ℚ → ν) (pieces : List Text) :
    Follows double pieces (pieces.foldl (readPiece double) {}) := by
  induction pieces using List.reverseRecOn with
  | nil =>
    have hdrain : blockCutter.drain (received []) = ([], []) :=
      Residual.Cutter.drain_of_none rfl
    exact {
      calls := by rw [hdrain]; rfl
      running := by rw [hdrain]; rfl
      buf := fun _ => by rw [hdrain]; rfl }
  | append_singleton pieces piece ih =>
    rw [List.foldl_append]
    exact ih.step piece

end Buffer


/-! ## Blocks -/

section Blocks

variable {lines : List Text} {line : Text}

theorem filter_encodeLines (hclean : ∀ line ∈ lines, '\r' ∉ line) :
    (encodeLines ['\r', '\n'] lines).filter (· ≠ '\r') = encodeLines ['\n'] lines := by
  rw [encodeLines, encodeLines, List.filter_append, List.filter_flatMap]
  congr 1
  apply List.flatMap_congr
  intro line hline
  have hkept : line.filter (· ≠ '\r') = line := by
    rw [List.filter_eq_self]
    intro char hchar
    exact decide_eq_true fun heq => hclean line hline (heq ▸ hchar)
  rw [List.filter_append, hkept]
  rfl

/-- A line is skipped in one go. -/
theorem cutBlock_line (hline : '\n' ∉ line) (rest : Text) :
    cutBlock (line ++ rest) =
      (cutBlock rest).map fun cut => (line ++ cut.1, cut.2) := by
  induction line with
  | nil => cases hcut : cutBlock rest <;> simp [hcut]
  | cons char line ih =>
    rw [List.mem_cons, not_or] at hline
    obtain ⟨hchar, hlater⟩ := hline
    have hneg : ¬ (char = '\n' ∧ (line ++ rest).head? = some '\n') :=
      fun hboth => hchar hboth.1.symm
    rw [List.cons_append, cutBlock, if_neg hneg, ih hlater, Option.map_map]
    rfl

/-- The first block of a text ends behind its lines. -/
theorem cutBlock_encodeLines (hne : lines ≠ [])
    (hlines : ∀ line ∈ lines, line ≠ [] ∧ '\n' ∉ line) (more : Text) :
    cutBlock (encodeLines ['\n'] lines ++ more) = some (['\n'].intercalate lines, more) := by
  induction lines with
  | nil => exact absurd rfl hne
  | cons line lines ih =>
    obtain ⟨hline, hlater⟩ := List.forall_mem_cons.mp hlines
    have hsplit : encodeLines ['\n'] (line :: lines) ++ more =
        line ++ '\n' :: (encodeLines ['\n'] lines ++ more) := by
      simp [encodeLines]
    rw [hsplit, cutBlock_line hline.2]
    cases lines with
    | nil =>
      have hend : cutBlock ('\n' :: (encodeLines ['\n'] [] ++ more)) = some ([], more) := by
        rw [cutBlock, if_pos (by exact ⟨rfl, rfl⟩)]
        rfl
      rw [hend, Option.map_some, List.append_nil, List.intercalate_singleton]
    | cons next lines =>
      obtain ⟨first, rest, hnext⟩ := List.exists_cons_of_ne_nil (hlater next List.mem_cons_self).1
      have hfirst : first ≠ '\n' := by
        rintro rfl
        exact (hlater next List.mem_cons_self).2 (hnext ▸ List.mem_cons_self)
      have hgoes : ¬ ('\n' = '\n' ∧
          (encodeLines ['\n'] (next :: lines) ++ more).head? = some '\n') := by
        rintro ⟨-, hhead⟩
        rw [encodeLines, List.flatMap_cons, hnext] at hhead
        exact hfirst (Option.some.inj hhead)
      rw [cutBlock, if_neg hgoes, ih (List.cons_ne_nil next lines) hlater, Option.map_some,
        Option.map_some, Lines.intercalate_cons_append line (List.cons_ne_nil next lines)]

theorem splitOn_intercalate_lines (hne : lines ≠ []) (hlines : ∀ line ∈ lines, '\n' ∉ line) :
    (['\n'].intercalate lines).splitOn '\n' = lines :=
  List.splitOn_intercalate '\n' hlines hne

/-- A text between two kept characters is not trimmed. -/
theorem trim_space_cons {first last : Char} (hfirst : Client.isJsSpace first = false)
    (hlast : Client.isJsSpace last = false) (inner : Text) :
    trim (' ' :: first :: (inner ++ [last])) = first :: (inner ++ [last]) := by
  have hspace : ∀ char ∈ [' '], Client.isJsSpace char = true := by
    intro char hchar
    rw [List.mem_singleton.mp hchar]
    rfl
  rw [trim, ← List.singleton_append, stripWhere_append_left hspace]
  have hsplit : first :: (inner ++ [last]) = [] ++ first :: (inner ++ [last]) := rfl
  rw [hsplit, stripWhere_append_kept hfirst, List.dropWhile_nil, List.rdropWhile_concat_neg _ _ _
    (by simp [hlast])]

end Blocks

/-! ## Events and pings -/

section Frames

variable {ν : Type} (double : ℚ → ν)

/-- The lines of a frame can be sent as they are. -/
theorem lines_clean (frame : Frame) :
    frame.lines ≠ [] ∧ ∀ line ∈ frame.lines, line ≠ [] ∧ '\n' ∉ line ∧ '\r' ∉ line := by
  cases frame with
  | event sent =>
    have hdata : ∀ char ∈ dumps (.object sent.members), char ≠ '\n' ∧ char ≠ '\r' := by
      intro char hchar
      have hprintable := printable_dumps _ char hchar
      constructor
      · rintro rfl
        exact absurd hprintable (by decide)
      · rintro rfl
        exact absurd hprintable (by decide)
    have hname : '\n' ∉ "event: ".toList ++ sent.name ∧ '\r' ∉ "event: ".toList ++ sent.name := by
      cases sent with
      | token text => simp only [ChatEvent.name]; decide
      | done payload => simp only [ChatEvent.name]; decide
      | error message => simp only [ChatEvent.name]; decide
    have hplain : '\n' ∉ "data: ".toList ∧ '\r' ∉ "data: ".toList := by decide
    refine ⟨List.cons_ne_nil _ _, ?_⟩
    intro line hline
    rw [Frame.lines, List.mem_pair] at hline
    cases hline with
    | inl hevent => exact hevent ▸ ⟨List.cons_ne_nil _ _, hname⟩
    | inr hlast =>
      subst hlast
      refine ⟨List.cons_ne_nil _ _, ?_, ?_⟩
      · rw [List.mem_append, not_or]
        exact ⟨hplain.1, fun hmem => (hdata '\n' hmem).1 rfl⟩
      · rw [List.mem_append, not_or]
        exact ⟨hplain.2, fun hmem => (hdata '\r' hmem).2 rfl⟩
  | ping sent =>
    have hplain : '\n' ∉ ": ".toList ∧ '\r' ∉ ": ".toList := by decide
    refine ⟨by simpa [Frame.lines] using sent.nonempty, ?_⟩
    intro line hline
    obtain ⟨comment, hcomment, rfl⟩ := List.mem_map.mp hline
    obtain ⟨hreturn, hnewline⟩ := sent.clean comment hcomment
    refine ⟨List.cons_ne_nil _ _, ?_, ?_⟩
    · rw [List.mem_append, not_or]
      exact ⟨hplain.1, hnewline⟩
    · rw [List.mem_append, not_or]
      exact ⟨hplain.2, hreturn⟩

/-- The block of a frame as the client reads it. -/
def Frame.block (frame : Frame) : Text :=
  ['\n'].intercalate frame.lines

theorem readBlock_block (frame : Frame) :
    readBlock frame.block = frame.lines.foldl readLine {} := by
  obtain ⟨hne, hlines⟩ := lines_clean frame
  rw [readBlock, Frame.block,
    splitOn_intercalate_lines hne fun line hline => (hlines line hline).2.1]

/-- The client reads the name and the data of an event. -/
theorem readBlock_event (sent : ChatEvent) :
    readBlock (Frame.event sent).block =
      { event := sent.name, data := dumps (.object sent.members) } := by
  obtain ⟨inner, hinner⟩ := exists_dumps_object sent.members
  have hname : readLine {} ("event: ".toList ++ sent.name) = { event := sent.name } := by
    have htrim : trim (("event: ".toList ++ sent.name).drop 6) = sent.name := by
      cases sent with
      | token text => simp only [ChatEvent.name]; decide
      | done payload => simp only [ChatEvent.name]; decide
      | error message => simp only [ChatEvent.name]; decide
    have hfront : "event:".toList <+: "event: ".toList ++ sent.name :=
      (by decide : "event:".toList <+: "event: ".toList).trans (List.prefix_append _ _)
    rw [readLine, if_pos hfront, htrim]
  have hdata : readLine { event := sent.name }
      ("data: ".toList ++ dumps (.object sent.members)) =
      { event := sent.name, data := dumps (.object sent.members) } := by
    have htrim : trim (("data: ".toList ++ dumps (.object sent.members)).drop 5) =
        dumps (.object sent.members) := by
      rw [hinner]
      exact trim_space_cons (by decide) (by decide) inner
    have hevent : ¬ "event:".toList <+: "data: ".toList ++ dumps (.object sent.members) := by
      intro hfront
      exact absurd (List.cons_prefix_cons.mp hfront).1 (by decide)
    have hfront : "data:".toList <+: "data: ".toList ++ dumps (.object sent.members) :=
      (by decide : "data:".toList <+: "data: ".toList).trans (List.prefix_append _ _)
    rw [readLine, if_neg hevent, if_pos hfront, htrim]
    rfl
  rw [readBlock_block, Frame.lines, List.foldl_cons, List.foldl_cons, List.foldl_nil, hname,
    hdata]

/-- A comment leaves no data. -/
theorem readBlock_ping (sent : Ping) : readBlock (Frame.ping sent).block = {} := by
  have hskip : ∀ fields comment, readLine fields (": ".toList ++ comment) = fields := by
    intro fields comment
    have hevent : ¬ "event:".toList <+: ": ".toList ++ comment := by
      intro hfront
      exact absurd (List.cons_prefix_cons.mp hfront).1 (by decide)
    have hdata : ¬ "data:".toList <+: ": ".toList ++ comment := by
      intro hfront
      exact absurd (List.cons_prefix_cons.mp hfront).1 (by decide)
    rw [readLine, if_neg hevent, if_neg hdata]
  rw [readBlock_block, Frame.lines]
  generalize sent.comments = comments
  induction comments with
  | nil => rfl
  | cons comment comments ih => rw [List.map_cons, List.foldl_cons, hskip, ih]

/-- An event leads to its call. -/
theorem callOf_event (sent : ChatEvent) :
    callOf double (Frame.event sent).block = .ok (some (sent.call double)) := by
  have hdata : dumps (.object sent.members) ≠ [] :=
    List.ne_nil_of_length_pos (length_dumps_pos _)
  rw [callOf, readBlock_event]
  simp only [if_neg hdata, parse_dumps]
  cases sent with
  | token text =>
    have htoken : tokenOf ((Value.object (ChatEvent.token text).members).converted double) =
        .ok (.string (unitsOf text)) := by
      simp [ChatEvent.members, Value.converted, convertedMembers, tokenOf]
    rw [htoken]
    rfl
  | done payload => rfl
  | error message => rfl

theorem callOf_ping (sent : Ping) : callOf double (Frame.ping sent).block = .ok none := by
  rw [callOf, readBlock_ping]
  rfl

/-- The blocks of the frames lead to the calls of the events. -/
theorem foldl_handle_frames (frames : List Frame) {reader : Reader ν}
    (hrunning : reader.running = true) :
    (frames.map Frame.block).foldl (handle double) reader =
      { reader with
        calls := reader.calls ++ (eventsOf frames).map (ChatEvent.call double) } := by
  induction frames generalizing reader with
  | nil => simp [eventsOf]
  | cons frame frames ih =>
    rw [List.map_cons, List.foldl_cons, handle, if_neg (by simp [hrunning])]
    cases frame with
    | event sent =>
      have hlater := @ih { reader with calls := reader.calls ++ [sent.call double] } hrunning
      rw [callOf_event]
      exact hlater.trans (by simp [eventsOf])
    | ping sent =>
      rw [callOf_ping]
      exact (ih hrunning).trans (by simp [eventsOf])

end Frames

/-! ## The stream -/

theorem drain_wire (frames : List Frame) :
    blockCutter.drain ((wire frames).filter (· ≠ '\r')) = (frames.map Frame.block, []) := by
  have htext : (wire frames).filter (· ≠ '\r') =
      frames.flatMap fun frame => encodeLines ['\n'] frame.lines := by
    rw [wire, List.filter_flatMap]
    apply List.flatMap_congr
    intro frame _
    exact filter_encodeLines fun line hline => ((lines_clean frame).2 line hline).2.2
  rw [htext]
  apply Residual.Cutter.drain_flatMap
  · intro frame _ more
    obtain ⟨hne, hlines⟩ := lines_clean frame
    exact cutBlock_encodeLines hne
      (fun line hline => ⟨(hlines line hline).1, (hlines line hline).2.1⟩) more
  · rfl

theorem Frame.exists_lines (frame : Frame) :
    ∃ first rest lines, frame.lines = (first :: rest) :: lines ∧ first ≠ '\uFEFF' := by
  cases frame with
  | event sent => exact ⟨_, _, _, rfl, by decide⟩
  | ping sent =>
    obtain ⟨comment, comments, hcomments⟩ := List.exists_cons_of_ne_nil sent.nonempty
    rw [Frame.lines, hcomments]
    exact ⟨_, _, _, rfl, by decide⟩

/-- A response starts with a letter or a colon. -/
theorem head?_wire (frames : List Frame) : (wire frames).head? ≠ some '\uFEFF' := by
  cases frames with
  | nil => simp [wire]
  | cons frame frames =>
    obtain ⟨first, rest, lines, hlines, hfirst⟩ := frame.exists_lines
    simpa [wire, encodeLines, hlines] using hfirst

/-- However the bytes of the response are cut, the client calls its handlers for the events
of the server, each once and in order, with the text of the token and the payload of the
last event. -/
theorem chatStream_calls {ν : Type} (double : ℚ → ν) {decoder : Decoder}
    (hdecoder : decoder.Concatenates) {frames : List Frame} {chunks : List (List UInt8)}
    (hchunks : chunks.flatten = Codecs.encodeUtf8 (wire frames)) :
    chatStream double decoder chunks = (eventsOf frames).map (ChatEvent.call double) := by
  have hpieces := hdecoder (wire frames) chunks (head?_wire frames) hchunks
  have hreceived : received (decoder.pieces chunks) = (wire frames).filter (· ≠ '\r') := by
    rw [received, hpieces]
  rw [chatStream, (foldl_readPiece_follows double (decoder.pieces chunks)).calls, hreceived,
    drain_wire, foldl_handle_frames double frames rfl]
  rfl

/-- A decoder that keeps the bytes of an unfinished character. -/
def keepingDecoder : Decoder where
  State := List UInt8
  start := []
  decode := Codecs.feed

theorem flatten_piecesFrom_keeping (chunks : List (List UInt8)) (pending : List UInt8) :
    (keepingDecoder.piecesFrom pending chunks).flatten =
      (Codecs.feed pending chunks.flatten).2 := by
  induction chunks generalizing pending with
  | nil => rfl
  | cons chunk chunks ih =>
    calc (keepingDecoder.piecesFrom pending (chunk :: chunks)).flatten
        = (Codecs.feed pending chunk).2 ++
            (keepingDecoder.piecesFrom (Codecs.feed pending chunk).1 chunks).flatten := rfl
      _ = (Codecs.feed pending (chunk :: chunks).flatten).2 := by
        rw [ih, List.flatten_cons, Codecs.feed_append]

theorem keepingDecoder_concatenates : keepingDecoder.Concatenates := by
  intro text chunks _ hchunks
  calc (keepingDecoder.pieces chunks).flatten = (Codecs.feed [] chunks.flatten).2 :=
        flatten_piecesFrom_keeping chunks []
    _ = text := by rw [hchunks, Codecs.feed_encodeUtf8]

/-- A short turn with a keep-alive block in the middle. -/
def shortTurn : List Frame :=
  [.event (.token (codes "Grün 🌳")),
    .ping {
      comments := ["ping".toList]
      nonempty := List.cons_ne_nil _ _
      clean := by simp },
    .event (.error (codes "Abbruch")),
    .event (.done {
      sessionId := codes "7"
      messageId := codes "8"
      answer := codes "Grün 🌳"
      citations := []
      route := none
      cacheHit := false
      insufficient := false })]

/-- The short turn sent byte by byte. -/
theorem chatStream_calls_bytewise :
    chatStream id keepingDecoder
        ((Codecs.encodeUtf8 (wire shortTurn)).map List.singleton) =
      [.token (.string (unitsOf (codes "Grün 🌳"))), answerFailed,
        .done (.object [
          (unitsOf (codes "session_id"), .string (unitsOf (codes "7"))),
          (unitsOf (codes "message_id"), .string (unitsOf (codes "8"))),
          (unitsOf (codes "answer"), .string (unitsOf (codes "Grün 🌳"))),
          (unitsOf (codes "citations"), .array []),
          (unitsOf (codes "route"), .null),
          (unitsOf (codes "cache_hit"), .bool false),
          (unitsOf (codes "insufficient"), .bool false)])] :=
  chatStream_calls id keepingDecoder_concatenates (List.flatMap_singleton' _)

end AgenticRag.ChatEvents
