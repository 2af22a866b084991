import AgenticRag.Chunking.Starts

/-!
# Chunks as windows of the section text

A window is a passage of the section text as long as it reaches across no blank
paragraph.  The last one is no passage either when it is merged into the chunk whose end
it begins with: that end stands in the chunk twice.
-/

namespace AgenticRag.Chunker

section

variable {α : Type*}

/-- The section text of these paragraphs. -/
def joined (newline : α) (paragraphs : List (List α)) : List α :=
  (blankLine newline).intercalate paragraphs

theorem joined_cons (newline : α) (first : List α) {rest : List (List α)} (hrest : rest ≠ []) :
    joined newline (first :: rest) = first ++ blankLine newline ++ joined newline rest := by
  obtain ⟨second, later, rfl⟩ := List.exists_cons_of_ne_nil hrest
  exact List.intercalate_cons_cons

theorem map_joined {β : Type*} (forget : α → β) (newline : α) (paragraphs : List (List α)) :
    (joined newline paragraphs).map forget =
      joined (forget newline) (paragraphs.map (List.map forget)) := by
  induction paragraphs with
  | nil => rfl
  | cons first rest ih =>
      by_cases hrest : rest = []
      · rw [hrest, List.map_singleton, joined, joined, List.intercalate_singleton,
          List.intercalate_singleton]
      · have hmapped : rest.map (List.map forget) ≠ [] := by simpa using hrest
        rw [joined_cons _ _ hrest, List.map_cons, joined_cons _ _ hmapped, List.map_append,
          List.map_append, ih, map_blankLine rfl]

/-- The passage stands in the text, from this place on. -/
def Stands (text : List α) (start : ℕ) (passage : List α) : Prop :=
  passage <+: text.drop start

variable {text front back passage : List α} {start place : ℕ}

theorem infix_of_stands (hstands : Stands text start passage) : passage <:+: text := by
  have hwithin : passage <+: text.drop start := hstands
  exact hwithin.isInfix.trans (List.drop_suffix _ _).isInfix

theorem exists_stands (hpart : passage <:+: text) : ∃ start, Stands text start passage := by
  obtain ⟨front, back, rfl⟩ := hpart
  refine ⟨front.length, ?_⟩
  rw [Stands, List.append_assoc, List.drop_left]
  exact List.prefix_append _ _

theorem Stands.append (hfront : Stands text start front)
    (hback : Stands text (start + front.length) back) : Stands text start (front ++ back) := by
  obtain ⟨rest, hrest⟩ := hfront
  rw [Stands, ← List.drop_drop, ← hrest, List.drop_left] at hback
  rw [Stands, ← hrest]
  exact (List.prefix_append_right_inj _).mpr hback

/-- The end of a passage stands behind what is left out. -/
theorem Stands.behind (hstands : Stands text start (front ++ back)) :
    Stands text (start + front.length) back := by
  obtain ⟨rest, hrest⟩ := hstands
  rw [Stands, ← List.drop_drop, ← hrest, List.append_assoc, List.drop_left]
  exact List.prefix_append _ _

theorem Stands.before (hstands : Stands text start (front ++ back)) : Stands text start front :=
  (List.prefix_append _ _).trans hstands

end

/-! ## Placed characters stand at their places -/

section Sitting

variable {text front back passage : List Placed} {start place : ℕ}

theorem Sits.drop (hsits : Sits start text) (count : ℕ) :
    Sits (start + count) (text.drop count) := by
  by_cases hless : count ≤ text.length
  · rw [← List.take_append_drop count text, sits_append, List.length_take,
      Nat.min_eq_left hless] at hsits
    exact hsits.2
  · rw [List.drop_eq_nil_of_le (Nat.le_of_not_le hless)]
    trivial

theorem Stands.sits (hstands : Stands text start passage) (hsits : Sits 0 text) :
    Sits start passage := by
  have hrest := hsits.drop start
  obtain ⟨rest, hsplit⟩ := hstands
  rw [← hsplit, sits_append, Nat.zero_add] at hrest
  exact hrest.1

theorem Sits.unique (hstart : Sits start passage) (hplace : Sits place passage)
    (hplaced : ∃ char ∈ passage, char.2 ≠ none) : start = place := by
  rw [← windowStart_of_sits hstart hplaced, windowStart_of_sits hplace hplaced]

/-- Two passages with a blank line between them in the text. -/
theorem Stands.join (hfront : Stands text start front)
    (hblank : Stands text (start + front.length) (blankLine placedNewline))
    (hback : Stands text (start + front.length + 2) back) :
    Stands text start (front ++ blankLine placedNewline ++ back) := by
  refine (hfront.append hblank).append ?_
  rwa [List.length_append, length_blankLine, ← Nat.add_assoc]

/-- Joined by a blank line they are a passage only where they stand so in the text. -/
theorem place_of_join (hsits : Sits 0 text) (hfront : Stands text start front)
    (hfrontPlaced : ∃ char ∈ front, char.2 ≠ none) (hback : Stands text place back)
    (hbackPlaced : ∃ char ∈ back, char.2 ≠ none)
    (hpart : front ++ blankLine placedNewline ++ back <:+: text) :
    place = start + front.length + 2 := by
  obtain ⟨other, hstands⟩ := exists_stands hpart
  have hfirst := hstands.before.before.sits hsits
  have hsecond := hstands.behind.sits hsits
  rw [(hfirst.unique (hfront.sits hsits) hfrontPlaced), List.length_append, length_blankLine,
    ← Nat.add_assoc] at hsecond
  exact (hback.sits hsits).unique hsecond hbackPlaced

theorem sits_joined (start : ℕ) (paragraphs : List Text) :
    Sits start (joined placedNewline (placeAll start paragraphs)) := by
  induction paragraphs generalizing start with
  | nil => trivial
  | cons paragraph paragraphs ih =>
      by_cases hrest : placeAll (start + paragraph.length + 2) paragraphs = []
      · rw [placeAll, hrest, joined, List.intercalate_singleton]
        exact sits_placed start paragraph
      · rw [placeAll, joined_cons _ _ hrest, sits_append, sits_append, List.length_append,
          length_blankLine, length_placed, ← Nat.add_assoc]
        exact ⟨⟨sits_placed start paragraph, sits_blankLine _⟩, ih _⟩

end Sitting

/-! ## The units at their places -/

/-- The spans of the paragraphs that are not blank. -/
def keptSpans : ℕ → List Text → List Span
  | _, [] => []
  | start, paragraph :: paragraphs =>
      (if paragraph.all PyString.isSpace then [] else [⟨start, paragraph.length⟩]) ++
        keptSpans (start + paragraph.length + 2) paragraphs

/-- A unit of the text where its span says. -/
structure UnitIn (text : List Placed) (span : Span) (unit : List Placed) : Prop
    extends UnitAt span unit where
  stands : Stands text span.start unit

/-- The unit behind this one: a blank line follows this one, and other paragraphs may. -/
structure Behind (text : List Placed) (earlier later : Span) : Prop where
  apart : earlier.start + earlier.length + 2 ≤ later.start
  blank : Stands text (earlier.start + earlier.length) (blankLine placedNewline)

section Units

variable {limits : Limits}

theorem unitIn_placed {text : List Placed} {start : ℕ} {paragraph : Text}
    (hstands : Stands text start (placed start paragraph))
    (hkept : paragraph.all PyString.isSpace = false) :
    UnitIn text ⟨start, paragraph.length⟩ (placed start paragraph) where
  length := length_placed start paragraph
  sits := sits_placed start paragraph
  placed := by
    intro char hchar
    obtain ⟨place, hplace, _⟩ := mem_placed hchar
    rw [hplace]
    exact Option.some_ne_none place
  nonempty := by
    intro hempty
    rw [← map_fst_placed start paragraph, hempty] at hkept
    cases hkept
  stands := hstands

theorem keptSpans_start {start : ℕ} {paragraphs : List Text} {span : Span}
    (hspan : span ∈ keptSpans start paragraphs) : start ≤ span.start := by
  induction paragraphs generalizing start with
  | nil => cases hspan
  | cons paragraph paragraphs ih =>
      rw [keptSpans] at hspan
      cases List.mem_append.mp hspan with
      | inl hfirst =>
          split_ifs at hfirst
          · cases hfirst
          · rw [List.mem_singleton.mp hfirst]
      | inr hrest =>
          have hlater := ih hrest
          omega

/-- The units of short paragraphs are those that are not blank, each at its place. -/
theorem unitsOf_in {text : List Placed} {paragraphs : List Text}
    (hshort : ∀ paragraph ∈ paragraphs, paragraph.length ≤ limits.maxC) (start : ℕ)
    (hstands : Stands text start (joined placedNewline (placeAll start paragraphs))) :
    List.Forall₂ (UnitIn text) (keptSpans start paragraphs)
      (unitsOf limits isPlacedSpace (placeAll start paragraphs)) ∧
    (keptSpans start paragraphs).IsChain (Behind text) := by
  induction paragraphs generalizing start with
  | nil => exact ⟨.nil, List.isChain_nil⟩
  | cons paragraph paragraphs ih =>
      have hfits : (placed start paragraph).length ≤ limits.maxC := by
        rw [length_placed]
        exact hshort paragraph List.mem_cons_self
      have hspace : (placed start paragraph).all isPlacedSpace =
          paragraph.all PyString.isSpace := by
        rw [← @all_map_space _ _ isPlacedSpace PyString.isSpace Prod.fst fun _ => rfl,
          map_fst_placed]
      have hrest : ∀ other ∈ paragraphs, other.length ≤ limits.maxC :=
        fun other hother => hshort other (List.mem_cons_of_mem _ hother)
      rw [placeAll, keptSpans, unitsOf, List.flatMap_cons, hardSplit_short hfits, hspace,
        ← unitsOf]
      rw [placeAll] at hstands
      cases paragraphs with
      | nil =>
          rw [placeAll, joined, List.intercalate_singleton] at hstands
          rw [placeAll, keptSpans, List.append_nil, unitsOf, List.flatMap_nil, List.append_nil]
          cases hkept : paragraph.all PyString.isSpace with
          | true => exact ⟨.nil, List.isChain_nil⟩
          | false => exact ⟨.cons (unitIn_placed hstands hkept) .nil, List.isChain_singleton _⟩
      | cons second later =>
          rw [joined_cons _ _ (by rw [placeAll]; exact List.cons_ne_nil _ _)] at hstands
          have hbehind := hstands.behind
          rw [List.length_append, length_placed, length_blankLine, ← Nat.add_assoc] at hbehind
          have hblank := hstands.before.behind
          rw [length_placed] at hblank
          obtain ⟨hunits, hchain⟩ := ih hrest _ hbehind
          cases hkept : paragraph.all PyString.isSpace with
          | true => exact ⟨hunits, hchain⟩
          | false =>
              refine ⟨.cons (unitIn_placed hstands.before.before hkept) hunits, ?_⟩
              refine List.isChain_cons.mpr ⟨fun next hnext => ⟨?_, hblank⟩, hchain⟩
              exact keptSpans_start (List.mem_of_mem_head? hnext)

end Units

/-! ## Windows that are passages -/

/-- Nothing of the text is left out between the start of the window and its stop. -/
def Window.Whole (window : Window) : Prop :=
  window.start + window.length = window.stop

/-- Every window is whole, and no window with an overlap is merged. -/
def Filling.Passes (limits : Limits) (filling : Filling) : Prop :=
  (∀ window ∈ windowsOf limits filling, window.Whole) ∧
    ¬ (0 < limits.overlapC ∧ filling.Merges limits)

/-- The windows so far are whole and the chunks stand where they begin. -/
structure Straight (text : List Placed) (filling : Filling) (packing : Packing Placed) :
    Prop where
  closed : ∀ window ∈ filling.closed, window.Whole
  chunks : ∀ chunk ∈ packing.chunks, chunk <:+: text
  last : ∀ before last earlier chunk, filling.closed = before ++ [last] →
    packing.chunks = earlier ++ [chunk] →
    Stands text last.start chunk ∧ Stands text last.stop (blankLine placedNewline)
  current : ∀ window, filling.current = some window →
    window.Whole ∧ Stands text window.start packing.buf

/-- A window reaches across a blank paragraph, and a chunk is no passage. -/
structure Broken (text : List Placed) (filling : Filling) (packing : Packing Placed) :
    Prop where
  window : ∃ window ∈ filling.closed ++ filling.current.toList,
    window.start + window.length < window.stop
  chunk : ∃ chunk ∈ packing.chunks ++ [packing.buf], ¬ chunk <:+: text

/-- The loop invariant over units of the text: up to the first window that is not whole the
chunks are its passages, and from there on one of them is none. -/
structure Tracks (limits : Limits) (text : List Placed) (filling : Filling)
    (packing : Packing Placed) : Prop where
  measures : Measures filling packing
  within : ∀ window ∈ filling.closed ++ filling.current.toList,
    window.start + window.length ≤ window.stop
  apart : ∀ before last window, filling.closed = before ++ [last] →
    filling.current = some window → limits.overlapC = 0 → last.stop + 2 ≤ window.start
  overlaps : ∀ before last window, filling.closed = before ++ [last] →
    filling.current = some window → 0 < limits.overlapC → window.start ≤ last.stop
  empty : filling.current = none → filling.closed = []
  chunks_placed : ∀ chunk ∈ packing.chunks, ∃ char ∈ chunk, char.2 ≠ none
  last : packing.buf ≠ [] → ∃ front char, packing.buf = front ++ [char] ∧ char.2 ≠ none
  straight : Straight text filling packing ∨ Broken text filling packing

section Move

variable {limits : Limits} {text : List Placed} {filling : Filling} {packing : Packing Placed}
  {window : Window} {span : Span} {unit : List Placed}

theorem extend_whole_iff (hwhole : window.Whole) :
    (extend window span).Whole ↔ span.start = window.stop + 2 := by
  rw [Window.Whole] at hwhole
  rw [Window.Whole, extend]
  dsimp only
  omega

/-- A unit behind a passage: a longer passage, or none from here on. -/
theorem Straight.join {closed : List Window} {chunks : List (List Placed)} {buf : List Placed}
    (hsits : Sits 0 text) (hclosed : Straight text { closed := closed } { chunks := chunks })
    (hwhole : window.Whole) (hstands : Stands text window.start buf)
    (hlength : window.length = buf.length) (hplaced : ∃ char ∈ buf, char.2 ≠ none)
    (hunit : UnitIn text span unit) (hafter : window.stop + 2 ≤ span.start)
    (hblank : Stands text window.stop (blankLine placedNewline)) :
    Straight text { closed := closed, current := some (extend window span) }
        { chunks := chunks, buf := buf ++ blankLine placedNewline ++ unit } ∨
      Broken text { closed := closed, current := some (extend window span) }
        { chunks := chunks, buf := buf ++ blankLine placedNewline ++ unit } := by
  have hstop : window.start + buf.length = window.stop := by
    rw [← hlength]
    exact hwhole
  by_cases hnext : span.start = window.stop + 2
  · refine .inl ⟨hclosed.closed, hclosed.chunks, hclosed.last, ?_⟩
    intro other hother
    rw [← Option.some.inj hother]
    refine ⟨(extend_whole_iff hwhole).mpr hnext, hstands.join ?_ ?_⟩
    · rwa [hstop]
    · rw [hstop, ← hnext]
      exact hunit.stands
  · refine .inr ⟨⟨_, List.mem_append_right _ (List.mem_singleton.mpr rfl), ?_⟩,
      ⟨_, List.mem_append_right _ (List.mem_singleton.mpr rfl), ?_⟩⟩
    · rw [extend]
      dsimp only
      omega
    · intro hpart
      have hplace := place_of_join hsits hstands hplaced hunit.stands hunit.exists_placed hpart
      rw [hstop] at hplace
      exact hnext hplace

/-- The end of a passage is one. -/
theorem stands_tail {start : ℕ} {buf : List Placed} (hstands : Stands text start buf) :
    Stands text (start + buf.length - (tail limits buf).length) (tail limits buf) := by
  obtain ⟨front, hfront⟩ := @tail_suffix _ limits buf
  rw [← hfront] at hstands
  have hplace : start + buf.length - (tail limits buf).length = start + front.length := by
    have hlength := congrArg List.length hfront
    rw [List.length_append] at hlength
    omega
  rw [hplace]
  exact hstands.behind

/-- What a window behind a closed one carries over is a window itself. -/
theorem reopen_carried (hcarried : min limits.overlapC window.length ≠ 0) :
    reopen limits window span =
      extend ⟨window.stop - min limits.overlapC window.length,
        min limits.overlapC window.length, window.stop⟩ span := by
  rw [reopen, if_neg hcarried]
  rfl

theorem Straight.forget (hstraight : Straight text filling packing) :
    Straight text { closed := filling.closed } { chunks := packing.chunks } :=
  ⟨hstraight.closed, hstraight.chunks, hstraight.last, fun _ hnone => by cases hnone⟩

theorem Straight.close (hstraight : Straight text filling packing)
    (hwindow : filling.current = some window)
    (hblank : Stands text window.stop (blankLine placedNewline)) :
    Straight text { closed := filling.closed ++ [window] }
      { chunks := packing.chunks ++ [packing.buf] } := by
  obtain ⟨hwhole, hstands⟩ := hstraight.current window hwindow
  refine ⟨forall_mem_concat.mpr ⟨hstraight.closed, hwhole⟩,
    forall_mem_concat.mpr ⟨hstraight.chunks, infix_of_stands hstands⟩, ?_,
    fun _ hnone => by cases hnone⟩
  intro before last earlier chunk hclosed hchunks
  obtain ⟨_, hlast⟩ := List.append_inj' hclosed rfl
  obtain ⟨_, hchunk⟩ := List.append_inj' hchunks rfl
  rw [← (List.cons.inj hlast).1, ← (List.cons.inj hchunk).1]
  exact ⟨hstands, hblank⟩

/-- A window behind a closed one: a passage from within that one on, or none from here on. -/
theorem Straight.reopen (hsits : Sits 0 text) (hstraight : Straight text filling packing)
    (hunit : UnitIn text span unit) (hwindow : filling.current = some window)
    (hlength : window.length = packing.buf.length)
    (hlast : ∃ front char, packing.buf = front ++ [char] ∧ char.2 ≠ none)
    (hafter : window.stop + 2 ≤ span.start)
    (hblank : Stands text window.stop (blankLine placedNewline)) :
    Straight text
        { closed := filling.closed ++ [window], current := some (reopen limits window span) }
        { chunks := packing.chunks ++ [packing.buf]
          buf := candidate placedNewline (tail limits packing.buf) unit } ∨
      Broken text
        { closed := filling.closed ++ [window], current := some (reopen limits window span) }
        { chunks := packing.chunks ++ [packing.buf]
          buf := candidate placedNewline (tail limits packing.buf) unit } := by
  obtain ⟨hwhole, hstands⟩ := hstraight.current window hwindow
  have hclosed := hstraight.close hwindow hblank
  have hcarried := @length_tail _ limits packing.buf
  rw [← hlength] at hcarried
  by_cases htail : tail limits packing.buf = []
  · have hzero : min limits.overlapC window.length = 0 := by
      rw [← hcarried, htail, List.length_nil]
    refine .inl ⟨hclosed.closed, hclosed.chunks, hclosed.last, ?_⟩
    intro other hother
    rw [← Option.some.inj hother, Chunker.reopen, if_pos hzero, candidate, if_pos htail]
    exact ⟨rfl, hunit.stands⟩
  · have hpos : min limits.overlapC window.length ≠ 0 := by
      rw [← hcarried]
      exact fun hzero => htail (List.length_eq_zero_iff.mp hzero)
    have hend := @stands_tail limits text _ _ hstands
    rw [hcarried, ← hlength, hwhole] at hend
    rw [candidate_filled htail, reopen_carried hpos]
    rw [Window.Whole] at hwhole
    refine Straight.join hsits hclosed ?_ hend hcarried.symm
      (tail_exists_placed hlast (by omega)) hunit hafter hblank
    exact Nat.sub_add_cancel (by omega)

/-- A chunk that is no passage stays one when it grows. -/
theorem Broken.grow {later : Filling} {next : Packing Placed}
    (hbroken : Broken text filling packing)
    (hwindows : ∀ window ∈ filling.closed ++ filling.current.toList,
      window.start + window.length < window.stop →
      ∃ other ∈ later.closed ++ later.current.toList, other.start + other.length < other.stop)
    (hchunks : ∀ chunk ∈ packing.chunks ++ [packing.buf],
      ∃ longer ∈ next.chunks ++ [next.buf], chunk <:+: longer) : Broken text later next where
  window := by
    obtain ⟨window, hwindow, hless⟩ := hbroken.window
    exact hwindows window hwindow hless
  chunk := by
    obtain ⟨chunk, hchunk, hnone⟩ := hbroken.chunk
    obtain ⟨longer, hlonger, hwithin⟩ := hchunks chunk hchunk
    exact ⟨longer, hlonger, fun hpart => hnone (hwithin.trans hpart)⟩

theorem mem_closed_current {filling : Filling} (hwindow : filling.current = some window)
    {other : Window} :
    other ∈ filling.closed ++ filling.current.toList ↔ other ∈ filling.closed ∨ other = window := by
  rw [hwindow, Option.toList_some, List.mem_append, List.mem_singleton]

theorem Tracks.enter (htracks : Tracks limits text filling packing)
    (hunit : UnitIn text span unit) (hnone : filling.current = none)
    (hmeasures : Measures { filling with current := some (enter span) }
      { packing with buf := unit }) :
    Tracks limits text { filling with current := some (enter span) }
      { packing with buf := unit } := by
  have hclosed := htracks.empty hnone
  have hchunks : packing.chunks = [] := by
    have hlengths := htracks.measures.closed
    rw [hclosed, List.map_nil] at hlengths
    exact List.map_eq_nil_iff.mp hlengths.symm
  have hfirst : ∀ before last, filling.closed ≠ before ++ [last] := by
    intro before last hsplit
    exact concat_ne_nil before last (hsplit.symm.trans hclosed)
  exact {
    measures := hmeasures
    within := by
      intro other hother
      rw [hclosed] at hother
      rw [List.mem_singleton.mp hother]
      exact le_rfl
    apart := fun before last _ hsplit => absurd hsplit (hfirst before last)
    overlaps := fun before last _ hsplit => absurd hsplit (hfirst before last)
    empty := fun hnil => absurd hnil (Option.some_ne_none _)
    chunks_placed := htracks.chunks_placed
    last := fun _ => hunit.last []
    straight := by
      refine .inl ⟨?_, ?_, fun before last _ _ hsplit => absurd hsplit (hfirst before last), ?_⟩
      · rw [hclosed]
        exact fun _ hnil => absurd hnil List.not_mem_nil
      · rw [hchunks]
        exact fun _ hnil => absurd hnil List.not_mem_nil
      · intro other hother
        rw [← Option.some.inj hother]
        exact ⟨rfl, hunit.stands⟩ }

theorem Tracks.extend (hsits : Sits 0 text) (htracks : Tracks limits text filling packing)
    (hunit : UnitIn text span unit) (hwindow : filling.current = some window)
    (hfilled : packing.buf ≠ []) (hafter : window.stop + 2 ≤ span.start)
    (hblank : Stands text window.stop (blankLine placedNewline))
    (hmeasures : Measures { filling with current := some (extend window span) }
      { packing with buf := packing.buf ++ blankLine placedNewline ++ unit }) :
    Tracks limits text { filling with current := some (extend window span) }
      { packing with buf := packing.buf ++ blankLine placedNewline ++ unit } := by
  have hwithin := htracks.within
  simp only [mem_closed_current hwindow] at hwithin
  have hreach := hwithin window (.inr rfl)
  exact {
    measures := hmeasures
    within := by
      intro other hother
      cases List.mem_append.mp hother with
      | inl hclosed => exact hwithin other (.inl hclosed)
      | inr hlast =>
          rw [List.mem_singleton.mp hlast, Chunker.extend]
          dsimp only
          omega
    apart := by
      intro before last other hsplit hother hzero
      rw [← Option.some.inj hother]
      exact htracks.apart before last window hsplit hwindow hzero
    overlaps := by
      intro before last other hsplit hother hpos
      rw [← Option.some.inj hother]
      exact htracks.overlaps before last window hsplit hwindow hpos
    empty := fun hnil => absurd hnil (Option.some_ne_none _)
    chunks_placed := htracks.chunks_placed
    last := fun _ => hunit.last _
    straight := by
      cases htracks.straight with
      | inl hstraight =>
          obtain ⟨hwhole, hstands⟩ := hstraight.current window hwindow
          exact Straight.join hsits hstraight.forget hwhole hstands
            (htracks.measures.current window hwindow)
            (exists_placed_of_last (htracks.last hfilled)) hunit hafter hblank
      | inr hbroken =>
          refine .inr (hbroken.grow ?_ ?_)
          · intro other hother hless
            cases (mem_closed_current hwindow).mp hother with
            | inl hclosed => exact ⟨other, List.mem_append_left _ hclosed, hless⟩
            | inr hsame =>
                rw [hsame] at hless
                refine ⟨_, List.mem_append_right _ (List.mem_singleton.mpr rfl), ?_⟩
                rw [Chunker.extend]
                dsimp only
                omega
          · refine forall_mem_concat.mpr ⟨fun chunk hchunk => ?_, ?_⟩
            · exact ⟨chunk, List.mem_append_left _ hchunk, List.infix_refl _⟩
            · refine ⟨_, List.mem_append_right _ (List.mem_singleton.mpr rfl), ?_⟩
              exact ⟨[], blankLine placedNewline ++ unit, by simp⟩ }

theorem reopen_start_le (hfilled : window.length ≠ 0) (hpos : 0 < limits.overlapC) :
    (reopen limits window span).start ≤ window.stop := by
  rw [reopen, if_neg (by omega)]
  exact Nat.sub_le _ _

theorem reopen_within (hreach : window.start + window.length ≤ window.stop)
    (hafter : window.stop + 2 ≤ span.start) :
    (reopen limits window span).start + (reopen limits window span).length ≤
      (reopen limits window span).stop := by
  rw [reopen]
  split_ifs
  · exact le_rfl
  · dsimp only
    omega

theorem Tracks.reopen (hsits : Sits 0 text) (htracks : Tracks limits text filling packing)
    (hunit : UnitIn text span unit) (hwindow : filling.current = some window)
    (hfilled : packing.buf ≠ []) (hafter : window.stop + 2 ≤ span.start)
    (hblank : Stands text window.stop (blankLine placedNewline))
    (hmeasures : Measures
      { closed := filling.closed ++ [window], current := some (reopen limits window span) }
      { chunks := packing.chunks ++ [packing.buf]
        buf := candidate placedNewline (tail limits packing.buf) unit }) :
    Tracks limits text
      { closed := filling.closed ++ [window], current := some (reopen limits window span) }
      { chunks := packing.chunks ++ [packing.buf]
        buf := candidate placedNewline (tail limits packing.buf) unit } := by
  have hlength := htracks.measures.current window hwindow
  have hlast := htracks.last hfilled
  have hwithin := htracks.within
  rw [hwindow] at hwithin
  have hreach := (forall_mem_concat.mp hwithin).2
  exact {
    measures := hmeasures
    within := forall_mem_concat.mpr ⟨hwithin, reopen_within hreach hafter⟩
    apart := by
      intro before last other hsplit hother hzero
      obtain ⟨_, hsame⟩ := List.append_inj' hsplit rfl
      rw [← Option.some.inj hother, ← (List.cons.inj hsame).1, Chunker.reopen, if_pos (by omega)]
      exact hafter
    overlaps := by
      intro before last other hsplit hother hpos
      obtain ⟨_, hsame⟩ := List.append_inj' hsplit rfl
      rw [← Option.some.inj hother, ← (List.cons.inj hsame).1]
      refine reopen_start_le ?_ hpos
      rw [hlength]
      exact fun hzero => hfilled (List.length_eq_zero_iff.mp hzero)
    empty := fun hnil => absurd hnil (Option.some_ne_none _)
    chunks_placed := forall_mem_concat.mpr
      ⟨htracks.chunks_placed, exists_placed_of_last hlast⟩
    last := by
      intro _
      obtain ⟨front, hfront⟩ :=
        unit_suffix_candidate placedNewline (tail limits packing.buf) unit
      dsimp only
      rw [← hfront]
      exact hunit.last front
    straight := by
      cases htracks.straight with
      | inl hstraight =>
          exact hstraight.reopen hsits hunit hwindow hlength hlast hafter hblank
      | inr hbroken =>
          refine .inr (hbroken.grow ?_ ?_)
          · intro other hother hless
            rw [hwindow] at hother
            exact ⟨other, List.mem_append_left _ hother, hless⟩
          · intro chunk hchunk
            exact ⟨chunk, List.mem_append_left _ hchunk, List.infix_refl _⟩ }

theorem Tracks.move {next : Packing Placed} (hsits : Sits 0 text)
    (htracks : Tracks limits text filling packing) (hunit : UnitIn text span unit)
    (hbehind : ∀ window, filling.current = some window →
      window.stop + 2 ≤ span.start ∧ Stands text window.stop (blankLine placedNewline))
    (hmove : PackMove limits placedNewline packing unit next) :
    Tracks limits text (fill limits filling span) next := by
  have hmeasures := htracks.measures.move hunit.length.symm hunit.nonempty hmove
  have hspan := hunit.length
  cases hmove with
  | first hempty =>
      have hnone := htracks.measures.empty.mpr hempty
      rw [fill_enter hnone] at hmeasures ⊢
      exact htracks.enter hunit hnone hmeasures
  | fill hfilled hfits =>
      obtain ⟨window, hwindow, hlength⟩ := htracks.measures.exists_current hfilled
      obtain ⟨hafter, hblank⟩ := hbehind window hwindow
      rw [fill_extend hwindow (by omega)] at hmeasures ⊢
      exact htracks.extend hsits hunit hwindow hfilled hafter hblank hmeasures
  | flush hfilled hover =>
      obtain ⟨window, hwindow, hlength⟩ := htracks.measures.exists_current hfilled
      obtain ⟨hafter, hblank⟩ := hbehind window hwindow
      rw [fill_reopen hwindow (by omega)] at hmeasures ⊢
      exact htracks.reopen hsits hunit hwindow hfilled hafter hblank hmeasures

end Move

theorem packUnits_tracks {limits : Limits} {text : List Placed} (hsits : Sits 0 text)
    {units : List (List Placed)} {unitSpans : List Span}
    (hunits : List.Forall₂ (UnitIn text) unitSpans units)
    (hchain : unitSpans.IsChain (Behind text)) :
    Tracks limits text (fillAll limits unitSpans) (packUnits limits placedNewline units) ∧
      ∀ window, (fillAll limits unitSpans).current = some window →
        ∃ last, unitSpans.getLast? = some last ∧ window.stop = last.start + last.length := by
  induction units using List.reverseRecOn generalizing unitSpans with
  | nil =>
      cases hunits
      have hnone : ∀ window, (fillAll limits []).current ≠ some window := by
        intro window hwindow
        cases hwindow
      have hclosed : ∀ before last, (fillAll limits []).closed ≠ before ++ [last] :=
        fun before last hsplit => concat_ne_nil before last hsplit.symm
      refine ⟨?_, fun window hwindow => absurd hwindow (hnone window)⟩
      exact {
        measures := packUnits_measured rfl fun unit hunit => absurd hunit List.not_mem_nil
        within := fun window hwindow => absurd hwindow List.not_mem_nil
        apart := fun before last _ hsplit => absurd hsplit (hclosed before last)
        overlaps := fun before last _ hsplit => absurd hsplit (hclosed before last)
        empty := fun _ => rfl
        chunks_placed := fun chunk hchunk => absurd hchunk List.not_mem_nil
        last := fun hfilled => absurd rfl hfilled
        straight := .inl {
          closed := fun window hwindow => absurd hwindow List.not_mem_nil
          chunks := fun chunk hchunk => absurd hchunk List.not_mem_nil
          last := fun before last _ _ hsplit => absurd hsplit (hclosed before last)
          current := fun window hwindow => absurd hwindow (hnone window) } }
  | append_singleton seen unit ih =>
      obtain ⟨before, span, rfl, hbefore, hunit⟩ := forall₂_concat_right hunits
      obtain ⟨hearlier, _, hlater⟩ := List.isChain_append.mp hchain
      obtain ⟨htracks, hstop⟩ := ih hbefore hearlier
      rw [fillAll_concat, packUnits_concat]
      refine ⟨htracks.move hsits hunit ?_ (packUnit_moves _ unit), ?_⟩
      · intro window hwindow
        obtain ⟨last, hlast, hends⟩ := hstop window hwindow
        have hbehind := hlater last hlast span rfl
        rw [hends]
        exact ⟨hbehind.apart, hbehind.blank⟩
      · intro window hwindow
        exact ⟨span, List.getLast?_concat, fill_stop hwindow⟩

/-! ## The chunks -/

section Finish

variable {limits : Limits} {text : List Placed} {filling : Filling} {packing : Packing Placed}

/-- The window that swallows the last one is whole where the two stand side by side. -/
theorem merged_whole_iff {last window : Window} (hlast : last.Whole) (hwindow : window.Whole) :
    Window.Whole ⟨last.start, last.length + 2 + window.length, window.stop⟩ ↔
      window.start = last.stop + 2 := by
  rw [Window.Whole] at hlast hwindow
  rw [Window.Whole]
  dsimp only
  omega

/-- Up to the end every window was a passage: the merged one is where it is whole. -/
theorem Straight.finished_iff (hsits : Sits 0 text) (htracks : Tracks limits text filling packing)
    (hstraight : Straight text filling packing) {windows : List Window}
    {chunks : List (List Placed)}
    (hfinished : Finished limits placedNewline filling packing windows chunks) :
    (∀ chunk ∈ chunks, chunk <:+: text) ↔
      (∀ window ∈ windows, window.Whole) ∧ ¬ (0 < limits.overlapC ∧ filling.Merges limits) := by
  cases hfinished with
  | blank hnone =>
      have happart : ¬ filling.Merges limits := by
        intro hmerges
        obtain ⟨_, _, window, _, hwindow, _⟩ := hmerges
        rw [hnone] at hwindow
        cases hwindow
      exact ⟨fun _ => ⟨hstraight.closed, fun hboth => happart hboth.2⟩, fun _ => hstraight.chunks⟩
  | emit hwindow happart =>
      obtain ⟨hwhole, hstands⟩ := hstraight.current _ hwindow
      exact ⟨fun _ => ⟨forall_mem_concat.mpr ⟨hstraight.closed, hwhole⟩,
          fun hboth => happart hboth.2⟩,
        fun _ => forall_mem_concat.mpr ⟨hstraight.chunks, infix_of_stands hstands⟩⟩
  | @merge before last window earlier chunk hwindow hclosed hmerges hchunks =>
      obtain ⟨hwhole, hstands⟩ := hstraight.current window hwindow
      obtain ⟨hlast, hblank⟩ := hstraight.last before last earlier chunk hclosed hchunks
      have hwholes := hstraight.closed
      have hpassages := hstraight.chunks
      have hplaced := htracks.chunks_placed
      have hmeasures := htracks.measures.closed
      rw [hclosed] at hwholes
      rw [hchunks] at hpassages hplaced
      rw [hclosed, hchunks, List.map_append, List.map_append] at hmeasures
      obtain ⟨_, hlengths⟩ := List.append_inj' hmeasures rfl
      have hlength : last.length = chunk.length := (List.cons.inj hlengths).1
      obtain ⟨hearlierWhole, hlastWhole⟩ := forall_mem_concat.mp hwholes
      have hstop : last.start + chunk.length = last.stop := by
        rw [← hlength]
        exact hlastWhole
      have hfilled : packing.buf ≠ [] := by
        intro hempty
        rw [htracks.measures.empty.mpr hempty] at hwindow
        cases hwindow
      -- both sides say that the last window begins right behind the one before it
      have hchunk : chunk ++ blankLine placedNewline ++ packing.buf <:+: text ↔
          window.start = last.stop + 2 := by
        constructor
        · intro hpart
          rw [← hstop]
          exact place_of_join hsits hlast (forall_mem_concat.mp hplaced).2 hstands
            (exists_placed_of_last (htracks.last hfilled)) hpart
        · intro hnext
          rw [← hstop] at hblank hnext
          rw [hnext] at hstands
          exact infix_of_stands (hlast.join hblank hstands)
      rw [forall_mem_concat, forall_mem_concat, hchunk, merged_whole_iff hlastWhole hwhole]
      constructor
      · intro hboth
        refine ⟨⟨hearlierWhole, hboth.2⟩, fun hmerged => ?_⟩
        have hover := htracks.overlaps before last window hclosed hwindow hmerged.1
        omega
      · exact fun hboth => ⟨(forall_mem_concat.mp hpassages).1, hboth.1.2⟩

/-- From the first window that is not whole on, no end mends it. -/
theorem Broken.finished (htracks : Tracks limits text filling packing)
    (hbroken : Broken text filling packing) {windows : List Window}
    {chunks : List (List Placed)}
    (hfinished : Finished limits placedNewline filling packing windows chunks) :
    (¬ ∀ chunk ∈ chunks, chunk <:+: text) ∧
      ¬ ((∀ window ∈ windows, window.Whole) ∧
        ¬ (0 < limits.overlapC ∧ filling.Merges limits)) := by
  obtain ⟨broken, hbrokenMem, hless⟩ := hbroken.window
  obtain ⟨torn, htorn, hnone⟩ := hbroken.chunk
  cases hfinished with
  | blank hcurrent =>
      have hempty := htracks.measures.empty.mp hcurrent
      rw [hcurrent, Option.toList_none, List.append_nil] at hbrokenMem
      refine ⟨fun hall => ?_, fun hboth => ?_⟩
      · cases List.mem_append.mp htorn with
        | inl hmem => exact hnone (hall torn hmem)
        | inr hbuf =>
            rw [List.mem_singleton.mp hbuf, hempty] at hnone
            exact hnone List.nil_infix
      · have hwhole := hboth.1 broken hbrokenMem
        rw [Window.Whole] at hwhole
        omega
  | emit hwindow _ =>
      rw [hwindow, Option.toList_some] at hbrokenMem
      refine ⟨fun hall => hnone (hall torn htorn), fun hboth => ?_⟩
      have hwhole := hboth.1 broken hbrokenMem
      rw [Window.Whole] at hwhole
      omega
  | @merge before last window earlier chunk hwindow hclosed hmerges hchunks =>
      refine ⟨fun hall => ?_, fun hboth => ?_⟩
      · obtain ⟨hearlier, hmerged⟩ := forall_mem_concat.mp hall
        rw [hchunks, List.append_assoc] at htorn
        cases List.mem_append.mp htorn with
        | inl hmem => exact hnone (hearlier torn hmem)
        | inr hends =>
            rw [List.singleton_append] at hends
            cases List.mem_cons.mp hends with
            | inl hsame =>
                rw [hsame] at hnone
                exact hnone (List.IsInfix.trans ⟨[], _, by rw [List.nil_append, List.append_assoc]⟩
                  hmerged)
            | inr hbuf =>
                rw [List.mem_singleton.mp hbuf] at hnone
                exact hnone ((List.suffix_append _ _).isInfix.trans hmerged)
      · obtain ⟨hwholes, hmerged⟩ := hboth
        have hzero : limits.overlapC = 0 := by
          by_contra hpos
          exact hmerged ⟨Nat.pos_of_ne_zero hpos, before, last, window, hclosed, hwindow, hmerges⟩
        have hafter := htracks.apart before last window hclosed hwindow hzero
        have hwithin := htracks.within
        rw [hclosed, hwindow, Option.toList_some] at hwithin hbrokenMem
        obtain ⟨hclosedWithin, hwindowWithin⟩ := forall_mem_concat.mp hwithin
        have hlastWithin := (forall_mem_concat.mp hclosedWithin).2
        obtain ⟨hearlier, hwhole⟩ := forall_mem_concat.mp hwholes
        rw [Window.Whole] at hwhole
        dsimp only at hwhole
        have hnever : ∀ other ∈ before ++ [last] ++ [window],
            ¬ other.start + other.length < other.stop := by
          refine forall_mem_concat.mpr ⟨forall_mem_concat.mpr ⟨fun other hother => ?_, ?_⟩, ?_⟩
          · have hkept := hearlier other hother
            rw [Window.Whole] at hkept
            omega
          · omega
          · omega
        exact hnever broken hbrokenMem hless

theorem Tracks.finished_iff (hsits : Sits 0 text) (htracks : Tracks limits text filling packing)
    {windows : List Window} {chunks : List (List Placed)}
    (hfinished : Finished limits placedNewline filling packing windows chunks) :
    (∀ chunk ∈ chunks, chunk <:+: text) ↔
      (∀ window ∈ windows, window.Whole) ∧ ¬ (0 < limits.overlapC ∧ filling.Merges limits) := by
  cases htracks.straight with
  | inl hstraight => exact hstraight.finished_iff hsits htracks hfinished
  | inr hbroken =>
      obtain ⟨hchunks, hwindows⟩ := hbroken.finished htracks hfinished
      exact iff_of_false hchunks hwindows

end Finish

/-- No unit of short paragraphs is blank. -/
theorem unitsOf_kept {α : Type*} {limits : Limits} {space : α → Bool}
    {paragraphs : List (List α)}
    (hshort : ∀ paragraph ∈ paragraphs, paragraph.length ≤ limits.maxC) {unit : List α}
    (hunit : unit ∈ unitsOf limits space paragraphs) : unit.all space = false := by
  obtain ⟨paragraph, hparagraph, hunit⟩ := List.mem_flatMap.mp hunit
  rw [hardSplit_short (hshort paragraph hparagraph)] at hunit
  split_ifs at hunit with hblank
  · cases hunit
  · rw [List.mem_singleton.mp hunit]
    exact Bool.eq_false_iff.mpr hblank

theorem placeAll_short {bound start : ℕ} {paragraphs : List Text}
    (hshort : ∀ paragraph ∈ paragraphs, paragraph.length ≤ bound) :
    ∀ paragraph ∈ placeAll start paragraphs, paragraph.length ≤ bound := by
  intro paragraph hparagraph
  have hlength := @List.mem_map_of_mem _ _ _ _ List.length hparagraph
  rw [map_length_placeAll] at hlength
  obtain ⟨text, htext, hsame⟩ := List.mem_map.mp hlength
  rw [← hsame]
  exact hshort text htext

/-- The chunks of `_pack_paragraphs` are passages of the section text, character by character,
exactly when none of its windows reaches across a blank paragraph and no window with an overlap
is merged into the one before it. -/
theorem packPlaced_contiguous_iff (limits : Limits) (paragraphs : List Text)
    (hshort : ∀ paragraph ∈ paragraphs, paragraph.length ≤ limits.maxC) :
    ((∀ chunk ∈ packPlaced limits paragraphs,
        chunk <:+: joined placedNewline (placeAll 0 paragraphs)) ↔
      (fillAll limits (keptSpans 0 paragraphs)).Passes limits) ∧
    ((fillAll limits (keptSpans 0 paragraphs)).Passes limits →
      ∀ chunk ∈ packText limits paragraphs, chunk <:+: joined '\n' paragraphs) := by
  have hsits := sits_joined 0 paragraphs
  obtain ⟨hunits, hchain⟩ := @unitsOf_in limits (joined placedNewline (placeAll 0 paragraphs))
    paragraphs hshort 0 (List.prefix_refl _)
  obtain ⟨htracks, _⟩ := @packUnits_tracks limits _ hsits _ _ hunits hchain
  have hfinished := @Measures.finished _ limits isPlacedSpace placedNewline _ _ htracks.measures
    (packUnits_buf_kept fun seen unit hsplit => ?_)
  · have hiff := htracks.finished_iff hsits hfinished
    refine ⟨hiff, fun hpasses chunk hchunk => ?_⟩
    rw [← map_fst_packPlaced] at hchunk
    obtain ⟨window, hwindow, rfl⟩ := List.mem_map.mp hchunk
    have hmapped := (hiff.mpr hpasses window hwindow).map Prod.fst
    rwa [map_joined, map_fst_placeAll] at hmapped
  · have hunit : unit ∈ unitsOf limits isPlacedSpace (placeAll 0 paragraphs) := by
      rw [hsplit]
      exact List.mem_append_right _ (List.mem_singleton.mpr rfl)
    exact unitsOf_kept (placeAll_short hshort) hunit

/-- A blank paragraph between two windows without an overlap: both are passages. -/
theorem packPlaced_contiguous_blank :
    (fillAll ⟨1, 5, 0, by decide⟩
      (keptSpans 0 ["abcd".toList, " ".toList, "efgh".toList])).Passes ⟨1, 5, 0, by decide⟩ ∧
    ∀ chunk ∈ packText ⟨1, 5, 0, by decide⟩ ["abcd".toList, " ".toList, "efgh".toList],
      chunk <:+: joined '\n' ["abcd".toList, " ".toList, "efgh".toList] := by
  have hpasses : (fillAll ⟨1, 5, 0, by decide⟩
      (keptSpans 0 ["abcd".toList, " ".toList, "efgh".toList])).Passes ⟨1, 5, 0, by decide⟩ :=
    ⟨by unfold Window.Whole; decide, fun hmerged => absurd hmerged.1 (by decide)⟩
  exact ⟨hpasses, (packPlaced_contiguous_iff ⟨1, 5, 0, by decide⟩
    ["abcd".toList, " ".toList, "efgh".toList] (by decide)).2 hpasses⟩

/-- With the default limits, paragraphs of 2200 and 150 characters: the second window is
merged, and the chunk is longer than the text. -/
theorem packText_not_contiguous :
    ¬ ∀ chunk ∈ packText ⟨1330, 2280, 342, by decide⟩
        [List.replicate 2200 'a', List.replicate 150 'b'],
      chunk <:+: joined '\n' [List.replicate 2200 'a', List.replicate 150 'b'] := by
  intro hcontiguous
  have hends : ∀ paragraph ∈ [List.replicate 2200 'a', List.replicate 150 'b'],
      EndsKept PyString.isSpace paragraph := by
    intro paragraph hparagraph
    cases hparagraph with
    | head => exact ⟨'a', by rw [List.getLast?_replicate]; rfl, by decide⟩
    | tail _ hlast =>
        rw [List.mem_singleton.mp hlast]
        exact ⟨'b', by rw [List.getLast?_replicate]; rfl, by decide⟩
  have hlengths := @packParagraphs_lengths _ ⟨1330, 2280, 342, by decide⟩ PyString.isSpace '\n' _
    hends
  rw [List.map_cons, List.map_singleton, List.length_replicate, List.length_replicate,
    fillParagraphs, spans, spans, cut_short (by decide), cut_short (by decide), spans] at hlengths
  have hwindow : (windowsOf ⟨1330, 2280, 342, by decide⟩ (fillAll ⟨1330, 2280, 342, by decide⟩
      [⟨0, 2200⟩, ⟨2202, 150⟩])).map Window.length = [2696] := by decide
  obtain ⟨chunk, hchunk, hlength⟩ := List.map_eq_singleton_iff.mp (hlengths.trans hwindow)
  have hwithin := hcontiguous chunk (by rw [packText, hchunk]; exact List.mem_singleton.mpr rfl)
  have hless := hwithin.length_le
  rw [hlength, joined, List.intercalate_cons_cons, List.intercalate_singleton,
    List.length_append, List.length_append, length_blankLine, List.length_replicate,
    List.length_replicate] at hless
  omega

end AgenticRag.Chunker
