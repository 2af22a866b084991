import AgenticRag.Chunking.Places
import Mathlib.Data.List.Chain

/-!
# Where the windows begin

The greedy rule over spans tells not only how long each chunk is but also where in the
section text its first character stands.
-/

namespace AgenticRag.Chunker

/-- Where the first character of the window stands; a newline that the packer put in
stands before the character that follows it. -/
def windowStart : List Placed → ℕ
  | [] => 0
  | (_, some place) :: _ => place
  | (_, none) :: rest => windowStart rest - 1

/-- The characters stand in a row, from this place on. -/
def Sits : ℕ → List Placed → Prop
  | _, [] => True
  | start, char :: rest => (∀ place, char.2 = some place → place = start) ∧ Sits (start + 1) rest

/-- The same, up to this place. -/
def EndsAt (stop : ℕ) (text : List Placed) : Prop :=
  text.length ≤ stop ∧ Sits (stop - text.length) text

/-- A unit of the text stands where its span says. -/
structure UnitAt (span : Span) (unit : List Placed) : Prop where
  length : unit.length = span.length
  sits : Sits span.start unit
  placed : ∀ char ∈ unit, char.2 ≠ none
  nonempty : unit ≠ []

theorem sits_append {start : ℕ} {front back : List Placed} :
    Sits start (front ++ back) ↔ Sits start front ∧ Sits (start + front.length) back := by
  induction front generalizing start with
  | nil => simp [Sits]
  | cons char front ih =>
      rw [List.cons_append, Sits, Sits, ih, List.length_cons, and_assoc, Nat.add_right_comm,
        Nat.add_assoc]

theorem sits_blankLine (start : ℕ) : Sits start (blankLine placedNewline) := by
  have hnone : ∀ (place : ℕ) (start : ℕ), (placedNewline : Placed).2 = some place →
      place = start := by
    intro place start hplace
    cases hplace
  exact ⟨fun place => hnone place _, fun place => hnone place _, trivial⟩

theorem windowStart_append {front : List Placed} (hplaced : ∃ char ∈ front, char.2 ≠ none)
    (back : List Placed) : windowStart (front ++ back) = windowStart front := by
  induction front with
  | nil =>
      obtain ⟨char, hchar, _⟩ := hplaced
      cases hchar
  | cons char front ih =>
      obtain ⟨symbol, mark⟩ := char
      cases mark with
      | some place => rfl
      | none =>
          rw [List.cons_append, windowStart, windowStart, ih]
          obtain ⟨other, hother, hmark⟩ := hplaced
          cases List.mem_cons.mp hother with
          | inl hsame =>
              rw [hsame] at hmark
              exact absurd rfl hmark
          | inr hrest => exact ⟨other, hrest, hmark⟩

theorem windowStart_of_sits {start : ℕ} {window : List Placed} (hsits : Sits start window)
    (hplaced : ∃ char ∈ window, char.2 ≠ none) : windowStart window = start := by
  induction window generalizing start with
  | nil =>
      obtain ⟨char, hchar, _⟩ := hplaced
      cases hchar
  | cons char window ih =>
      obtain ⟨symbol, mark⟩ := char
      cases mark with
      | some place => exact hsits.1 place rfl
      | none =>
          rw [windowStart, ih hsits.2]
          · rfl
          · obtain ⟨other, hother, hmark⟩ := hplaced
            cases List.mem_cons.mp hother with
            | inl hsame =>
                rw [hsame] at hmark
                exact absurd rfl hmark
            | inr hrest => exact ⟨other, hrest, hmark⟩

theorem EndsAt.suffix {stop : ℕ} {text shorter : List Placed} (hends : EndsAt stop text)
    (hsuffix : shorter <:+ text) : EndsAt stop shorter := by
  obtain ⟨front, rfl⟩ := hsuffix
  obtain ⟨hlength, hsits⟩ := hends
  rw [List.length_append] at hlength hsits
  refine ⟨by omega, ?_⟩
  have hback := (sits_append.mp hsits).2
  have hstart : stop - (front.length + shorter.length) + front.length =
      stop - shorter.length := by omega
  rwa [hstart] at hback

theorem EndsAt.join {stop : ℕ} {text unit : List Placed} (hends : EndsAt stop text)
    (hunit : Sits (stop + 2) unit) :
    EndsAt (stop + 2 + unit.length) (text ++ blankLine placedNewline ++ unit) := by
  obtain ⟨hlength, hsits⟩ := hends
  rw [EndsAt, List.length_append, List.length_append, length_blankLine]
  refine ⟨by omega, ?_⟩
  have hstart : stop + 2 + unit.length - (text.length + 2 + unit.length) =
      stop - text.length := by omega
  rw [hstart, sits_append, sits_append, List.length_append, length_blankLine]
  refine ⟨⟨hsits, sits_blankLine _⟩, ?_⟩
  have hnext : stop - text.length + (text.length + 2) = stop + 2 := by omega
  rwa [hnext]

theorem UnitAt.endsAt {span : Span} {unit : List Placed} (hunit : UnitAt span unit) :
    EndsAt (span.start + span.length) unit := by
  refine ⟨by rw [hunit.length]; omega, ?_⟩
  rw [hunit.length, Nat.add_sub_cancel]
  exact hunit.sits

theorem UnitAt.exists_placed {span : Span} {unit : List Placed} (hunit : UnitAt span unit) :
    ∃ char ∈ unit, char.2 ≠ none := by
  obtain ⟨char, hchar⟩ := List.exists_mem_of_ne_nil unit hunit.nonempty
  exact ⟨char, hchar, hunit.placed char hchar⟩

/-- The unit after this one: behind a blank line, or a piece that is longer than an overlap. -/
def Succeeds (limits : Limits) (earlier later : Span) : Prop :=
  later.start = earlier.start + earlier.length + 2 ∨ limits.overlapC ≤ later.length

theorem reopen_stop (limits : Limits) (window : Window) (unit : Span) :
    (reopen limits window unit).stop = unit.start + unit.length := by
  rw [reopen]
  split_ifs
  · rfl
  · rfl

theorem fill_stop {limits : Limits} {filling : Filling} {unit : Span} {window : Window}
    (hwindow : (fill limits filling unit).current = some window) :
    window.stop = unit.start + unit.length := by
  cases hcurrent : filling.current with
  | none =>
      rw [fill_enter hcurrent] at hwindow
      rw [← Option.some.inj hwindow]
      rfl
  | some before =>
      by_cases hover : limits.maxC < before.length + 2 + unit.length
      · rw [fill_reopen hcurrent hover] at hwindow
        rw [← Option.some.inj hwindow]
        exact reopen_stop limits before unit
      · rw [fill_extend hcurrent (Nat.le_of_not_lt hover)] at hwindow
        rw [← Option.some.inj hwindow]
        rfl

section Tails

variable {limits : Limits}

theorem tail_of_le {α : Type*} {text : List α} (hless : limits.overlapC ≤ text.length)
    (front : List α) : tail limits (front ++ text) = tail limits text := by
  rw [tail, tail, List.rtake, List.rtake, List.length_append, Nat.add_sub_assoc hless,
    List.drop_length_add_append]

theorem tail_append_suffix {α : Type*} (front back : List α) :
    tail limits (front ++ back) <:+ tail limits front ++ back := by
  obtain ⟨rest, hrest⟩ := @tail_suffix _ limits front
  have hboth : tail limits front ++ back <:+ front ++ back := ⟨rest, by
    rw [← List.append_assoc, hrest]⟩
  refine List.suffix_of_suffix_length_le (tail_suffix _) hboth ?_
  rw [length_tail, List.length_append, List.length_append, length_tail]
  omega

theorem EndsAt.tail_join {earlier later : Span} {text unit : List Placed}
    (hends : EndsAt (earlier.start + earlier.length) (tail limits text))
    (hunit : UnitAt later unit) (hsucceeds : Succeeds limits earlier later) :
    EndsAt (later.start + later.length)
      (tail limits (text ++ blankLine placedNewline ++ unit)) := by
  cases hsucceeds with
  | inl hnext =>
      have hsits := hunit.sits
      rw [hnext] at hsits ⊢
      have hjoin := hends.join hsits
      rw [hunit.length, List.append_assoc] at hjoin
      rw [List.append_assoc]
      exact hjoin.suffix (tail_append_suffix _ _)
  | inr hlong =>
      rw [← hunit.length] at hlong
      rw [tail_of_le hlong]
      exact hunit.endsAt.suffix (tail_suffix _)

end Tails

/-! ## The packing follows the filling -/

section Following

variable {limits : Limits}

/-- The packed windows begin where the filling says. -/
structure Follows (limits : Limits) (filling : Filling) (packing : Packing Placed) : Prop where
  measures : Measures filling packing
  closed : filling.closed.map Window.start = packing.chunks.map windowStart
  chunks_placed : ∀ chunk ∈ packing.chunks, ∃ char ∈ chunk, char.2 ≠ none
  current : ∀ window, filling.current = some window → windowStart packing.buf = window.start
  ends : ∀ window, filling.current = some window → EndsAt window.stop (tail limits packing.buf)
  last : packing.buf ≠ [] → ∃ front char, packing.buf = front ++ [char] ∧ char.2 ≠ none

theorem UnitAt.last {span : Span} {unit : List Placed} (hunit : UnitAt span unit)
    (front : List Placed) : ∃ before char, front ++ unit = before ++ [char] ∧ char.2 ≠ none := by
  refine ⟨front ++ unit.dropLast, unit.getLast hunit.nonempty, ?_, ?_⟩
  · rw [List.append_assoc, List.dropLast_append_getLast]
  · exact hunit.placed _ (List.getLast_mem hunit.nonempty)

theorem exists_placed_of_last {text : List Placed}
    (hlast : ∃ front char, text = front ++ [char] ∧ char.2 ≠ none) :
    ∃ char ∈ text, char.2 ≠ none := by
  obtain ⟨front, char, rfl, hplaced⟩ := hlast
  exact ⟨char, List.mem_append_right _ (List.mem_singleton.mpr rfl), hplaced⟩

/-- The end of a window keeps the placed character it ends with. -/
theorem tail_exists_placed {text : List Placed}
    (hlast : ∃ front char, text = front ++ [char] ∧ char.2 ≠ none)
    (hpos : 0 < limits.overlapC) : ∃ char ∈ tail limits text, char.2 ≠ none := by
  obtain ⟨front, char, rfl, hplaced⟩ := hlast
  have hend := tail_getLast? hpos (List.getLast?_concat (l := front) (a := char))
  exact ⟨char, List.mem_of_getLast? hend, hplaced⟩

section Move

variable {filling : Filling} {packing : Packing Placed} {window : Window} {earlier span : Span}
  {unit : List Placed}

theorem Follows.enter (hfollows : Follows limits filling packing) (hunit : UnitAt span unit)
    (hmeasures : Measures { filling with current := some (enter span) }
      { packing with buf := unit }) :
    Follows limits { filling with current := some (enter span) }
      { packing with buf := unit } where
  measures := hmeasures
  closed := hfollows.closed
  chunks_placed := hfollows.chunks_placed
  current := by
    intro other hother
    rw [← Option.some.inj hother]
    exact windowStart_of_sits hunit.sits hunit.exists_placed
  ends := by
    intro other hother
    rw [← Option.some.inj hother]
    exact hunit.endsAt.suffix (tail_suffix _)
  last := fun _ => hunit.last []

theorem Follows.extend (hfollows : Follows limits filling packing) (hunit : UnitAt span unit)
    (hwindow : filling.current = some window) (hfilled : packing.buf ≠ [])
    (hstop : window.stop = earlier.start + earlier.length)
    (hsucceeds : Succeeds limits earlier span)
    (hmeasures : Measures { filling with current := some (extend window span) }
      { packing with buf := packing.buf ++ blankLine placedNewline ++ unit }) :
    Follows limits { filling with current := some (extend window span) }
      { packing with buf := packing.buf ++ blankLine placedNewline ++ unit } where
  measures := hmeasures
  closed := hfollows.closed
  chunks_placed := hfollows.chunks_placed
  current := by
    intro other hother
    rw [← Option.some.inj hother, List.append_assoc,
      windowStart_append (exists_placed_of_last (hfollows.last hfilled))]
    exact hfollows.current window hwindow
  ends := by
    intro other hother
    rw [← Option.some.inj hother]
    have hends := hfollows.ends window hwindow
    rw [hstop] at hends
    exact hends.tail_join hunit hsucceeds
  last := fun _ => hunit.last _

/-- A window behind a closed one begins where the end of that one stands. -/
theorem Follows.windowStart_reopen (hfollows : Follows limits filling packing)
    (hunit : UnitAt span unit) (hwindow : filling.current = some window)
    (hlength : window.length = packing.buf.length) (hfilled : packing.buf ≠ []) :
    windowStart (candidate placedNewline (tail limits packing.buf) unit) =
      (reopen limits window span).start := by
  have hcarried := @length_tail _ limits packing.buf
  rw [reopen, hlength, ← hcarried]
  by_cases hzero : limits.overlapC = 0
  · rw [tail_zero hzero, candidate, if_pos rfl, if_pos (by rfl)]
    exact windowStart_of_sits hunit.sits hunit.exists_placed
  · have hpos := Nat.pos_of_ne_zero hzero
    have hplaced := tail_exists_placed (hfollows.last hfilled) hpos
    have htail := tail_ne_nil hpos hfilled
    rw [candidate_filled htail, List.append_assoc, windowStart_append hplaced,
      if_neg (by rwa [List.length_eq_zero_iff])]
    exact windowStart_of_sits (hfollows.ends window hwindow).2 hplaced

theorem Follows.reopen (hfollows : Follows limits filling packing) (hunit : UnitAt span unit)
    (hwindow : filling.current = some window) (hlength : window.length = packing.buf.length)
    (hfilled : packing.buf ≠ []) (hstop : window.stop = earlier.start + earlier.length)
    (hsucceeds : Succeeds limits earlier span)
    (hmeasures : Measures
      { closed := filling.closed ++ [window], current := some (reopen limits window span) }
      { chunks := packing.chunks ++ [packing.buf]
        buf := candidate placedNewline (tail limits packing.buf) unit }) :
    Follows limits
      { closed := filling.closed ++ [window], current := some (reopen limits window span) }
      { chunks := packing.chunks ++ [packing.buf]
        buf := candidate placedNewline (tail limits packing.buf) unit } where
  measures := hmeasures
  closed := by
    rw [List.map_append, List.map_append, hfollows.closed, List.map_singleton,
      List.map_singleton, hfollows.current window hwindow]
  chunks_placed := forall_mem_concat.mpr
    ⟨hfollows.chunks_placed, exists_placed_of_last (hfollows.last hfilled)⟩
  current := by
    intro other hother
    rw [← Option.some.inj hother]
    exact hfollows.windowStart_reopen hunit hwindow hlength hfilled
  ends := by
    intro other hother
    rw [← Option.some.inj hother, reopen_stop]
    by_cases htail : tail limits packing.buf = []
    · rw [candidate, if_pos htail]
      exact hunit.endsAt.suffix (tail_suffix _)
    · have hends := hfollows.ends window hwindow
      rw [hstop] at hends
      rw [candidate_filled htail]
      exact (hends.suffix (tail_suffix _)).tail_join hunit hsucceeds
  last := by
    intro _
    have hsuffix := unit_suffix_candidate placedNewline (tail limits packing.buf) unit
    obtain ⟨front, hfront⟩ := hsuffix
    dsimp only
    rw [← hfront]
    exact hunit.last front

theorem Follows.move {next : Packing Placed} (hfollows : Follows limits filling packing)
    (hunit : UnitAt span unit)
    (hsucceeds : ∀ window, filling.current = some window →
      ∃ earlier, window.stop = earlier.start + earlier.length ∧ Succeeds limits earlier span)
    (hmove : PackMove limits placedNewline packing unit next) :
    Follows limits (fill limits filling span) next := by
  have hmeasures := hfollows.measures.move hunit.length.symm hunit.nonempty hmove
  have hspan := hunit.length
  cases hmove with
  | first hempty =>
      have hnone := hfollows.measures.empty.mpr hempty
      rw [fill_enter hnone] at hmeasures ⊢
      exact hfollows.enter hunit hmeasures
  | fill hfilled hfits =>
      obtain ⟨window, hwindow, hlength⟩ := hfollows.measures.exists_current hfilled
      obtain ⟨earlier, hstop, hafter⟩ := hsucceeds window hwindow
      rw [fill_extend hwindow (by omega)] at hmeasures ⊢
      exact hfollows.extend hunit hwindow hfilled hstop hafter hmeasures
  | flush hfilled hover =>
      obtain ⟨window, hwindow, hlength⟩ := hfollows.measures.exists_current hfilled
      obtain ⟨earlier, hstop, hafter⟩ := hsucceeds window hwindow
      rw [fill_reopen hwindow (by omega)] at hmeasures ⊢
      exact hfollows.reopen hunit hwindow hlength hfilled hstop hafter hmeasures

end Move

theorem packUnits_follows {units : List (List Placed)} {unitSpans : List Span}
    (hunits : List.Forall₂ UnitAt unitSpans units)
    (hchain : unitSpans.IsChain (Succeeds limits)) :
    Follows limits (fillAll limits unitSpans) (packUnits limits placedNewline units) ∧
      ∀ window, (fillAll limits unitSpans).current = some window →
        ∃ last, unitSpans.getLast? = some last ∧ window.stop = last.start + last.length := by
  induction units using List.reverseRecOn generalizing unitSpans with
  | nil =>
      cases hunits
      have hnone : ∀ window, (fillAll limits []).current ≠ some window := by
        intro window hwindow
        cases hwindow
      exact ⟨{
        measures := packUnits_measured rfl fun unit hunit => absurd hunit List.not_mem_nil
        closed := rfl
        chunks_placed := fun chunk hchunk => absurd hchunk List.not_mem_nil
        current := fun window hwindow => absurd hwindow (hnone window)
        ends := fun window hwindow => absurd hwindow (hnone window)
        last := fun hfilled => absurd rfl hfilled },
        fun window hwindow => absurd hwindow (hnone window)⟩
  | append_singleton seen unit ih =>
      obtain ⟨before, span, rfl, hbefore, hunit⟩ := forall₂_concat_right hunits
      obtain ⟨hearlier, _, hlater⟩ := List.isChain_append.mp hchain
      obtain ⟨hfollows, hstop⟩ := ih hbefore hearlier
      rw [fillAll_concat, packUnits_concat]
      refine ⟨hfollows.move hunit ?_ (packUnit_moves _ unit), ?_⟩
      · intro window hwindow
        obtain ⟨last, hlast, hends⟩ := hstop window hwindow
        exact ⟨last, hends, hlater last hlast span rfl⟩
      · intro window hwindow
        exact ⟨span, List.getLast?_concat, fill_stop hwindow⟩

/-- The chunks begin where the windows do. -/
theorem Follows.starts {filling : Filling} {packing : Packing Placed}
    (hfollows : Follows limits filling packing) {windows : List Window}
    {chunks : List (List Placed)}
    (hfinished : Finished limits placedNewline filling packing windows chunks) :
    windows.map Window.start = chunks.map windowStart := by
  have hclosed := hfollows.closed
  cases hfinished with
  | blank => exact hclosed
  | emit hcurrent =>
      rw [List.map_append, List.map_append, hclosed, List.map_singleton, List.map_singleton,
        hfollows.current _ hcurrent]
  | merge hcurrent hsplit _ hchunks =>
      have hplaced := hfollows.chunks_placed _
        (hchunks ▸ List.mem_append_right _ (List.mem_singleton.mpr rfl))
      rw [hsplit, hchunks, List.map_append, List.map_append] at hclosed
      obtain ⟨hbefore, hlast⟩ := List.append_inj' hclosed rfl
      have hstart := (List.cons.inj hlast).1
      rw [List.map_append, List.map_append, hbefore, List.map_singleton, List.map_singleton,
        List.append_assoc, windowStart_append hplaced, hstart]

end Following

/-! ## The units of placed paragraphs -/

section Units

variable {limits : Limits}

theorem sits_placed (start : ℕ) (paragraph : Text) : Sits start (placed start paragraph) := by
  induction paragraph generalizing start with
  | nil => trivial
  | cons char paragraph ih =>
      refine ⟨fun place hplace => (Option.some.inj hplace).symm, ?_⟩
      exact ih (start + 1)

/-- The pieces of a paragraph stand where they were cut. -/
theorem hardSplit_at {start : ℕ} {paragraph : List Placed} (hsits : Sits start paragraph)
    (hplaced : ∀ char ∈ paragraph, char.2 ≠ none) (hends : EndsKept isPlacedSpace paragraph) :
    List.Forall₂ UnitAt (cut limits start paragraph.length)
      (hardSplit limits isPlacedSpace paragraph) := by
  induction paragraph using hardSplit.induct limits isPlacedSpace generalizing start with
  | case1 paragraph hlong ih =>
      have hless := limits.overlap_lt
      rw [hardSplit_long hlong, cut_long hlong]
      have hfirst : UnitAt ⟨start, limits.maxC⟩ (paragraph.take limits.maxC) := by
        have hlength : (paragraph.take limits.maxC).length = limits.maxC := by
          rw [List.length_take]
          omega
        refine ⟨hlength, ?_, fun char hchar => hplaced char (List.mem_of_mem_take hchar), ?_⟩
        · rw [← List.take_append_drop limits.maxC paragraph, sits_append] at hsits
          exact hsits.1
        · have hpos := maxC_pos limits
          exact List.ne_nil_of_length_pos (by omega)
      have hrest : Sits (start + (limits.maxC - limits.overlapC))
          (paragraph.drop (limits.maxC - limits.overlapC)) := by
        rw [← List.take_append_drop (limits.maxC - limits.overlapC) paragraph,
          sits_append] at hsits
        have hlength : (paragraph.take (limits.maxC - limits.overlapC)).length =
            limits.maxC - limits.overlapC := by
          rw [List.length_take]
          omega
        rw [hlength] at hsits
        exact hsits.2
      have htail := ih hrest (fun char hchar => hplaced char (List.mem_of_mem_drop hchar)) (by
        rwa [EndsKept, List.getLast?_drop, if_neg (by omega)])
      rw [List.length_drop] at htail
      exact .cons hfirst htail
  | case2 paragraph hshort hblank =>
      obtain ⟨char, hlast, hkept⟩ := hends
      have hspace := List.all_eq_true.mp hblank char (List.mem_of_getLast? hlast)
      rw [hkept] at hspace
      cases hspace
  | case3 paragraph hshort hblank =>
      have hfits := Nat.le_of_not_lt hshort
      rw [hardSplit_short hfits, if_neg hblank, cut_short hfits]
      refine .cons ⟨rfl, hsits, hplaced, ?_⟩ .nil
      intro hnil
      rw [hnil] at hblank
      exact hblank rfl

theorem placed_ends (start : ℕ) {paragraph : Text} (hends : EndsKept PyString.isSpace paragraph) :
    EndsKept isPlacedSpace (placed start paragraph) := by
  obtain ⟨char, hlast, hkept⟩ := hends
  have hmapped := congrArg List.getLast? (map_fst_placed start paragraph)
  rw [hlast, List.getLast?_map] at hmapped
  obtain ⟨entry, hentry, rfl⟩ := Option.map_eq_some_iff.mp hmapped
  exact ⟨entry, hentry, hkept⟩

theorem unitsOf_at {paragraphs : List Text}
    (hends : ∀ paragraph ∈ paragraphs, EndsKept PyString.isSpace paragraph) (start : ℕ) :
    List.Forall₂ UnitAt (spans limits start (paragraphs.map List.length))
      (unitsOf limits isPlacedSpace (placeAll start paragraphs)) := by
  induction paragraphs generalizing start with
  | nil => exact .nil
  | cons paragraph paragraphs ih =>
      have hfirst := @hardSplit_at limits start (placed start paragraph)
        (sits_placed start paragraph) (fun char hchar => ?_)
        (placed_ends start (hends paragraph List.mem_cons_self))
      · rw [length_placed] at hfirst
        rw [List.map_cons, spans, placeAll, unitsOf, List.flatMap_cons]
        refine List.rel_append hfirst (ih (fun other hother => ?_) _)
        exact hends other (List.mem_cons_of_mem _ hother)
      · obtain ⟨place, hplace, _⟩ := mem_placed hchar
        rw [hplace]
        exact Option.some_ne_none place

theorem cut_head (start length : ℕ) :
    ∃ rest, cut limits start length = ⟨start, min limits.maxC length⟩ :: rest := by
  by_cases hlong : limits.maxC < length
  · rw [cut_long hlong, Nat.min_eq_left hlong.le]
    exact ⟨_, rfl⟩
  · have hshort := Nat.le_of_not_lt hlong
    rw [cut_short hshort, Nat.min_eq_right hshort]
    exact ⟨[], rfl⟩

/-- The last piece ends where the paragraph does. -/
theorem cut_last {start length : ℕ} {last : Span}
    (hlast : (cut limits start length).getLast? = some last) :
    last.start + last.length = start + length := by
  induction start, length using cut.induct limits with
  | case1 start length hlong ih =>
      obtain ⟨rest, hrest⟩ := @cut_head limits (start + (limits.maxC - limits.overlapC))
        (length - (limits.maxC - limits.overlapC))
      rw [cut_long hlong, hrest, List.getLast?_cons_cons, ← hrest] at hlast
      have hends := ih hlast
      omega
  | case2 start length hshort =>
      rw [cut_short (Nat.le_of_not_lt hshort)] at hlast
      rw [← Option.some.inj hlast]
      rfl

/-- Behind the first piece of a paragraph each piece is longer than an overlap. -/
theorem cut_chain (start length : ℕ) : (cut limits start length).IsChain (Succeeds limits) := by
  induction start, length using cut.induct limits with
  | case1 start length hlong ih =>
      have hless := limits.overlap_lt
      obtain ⟨rest, hrest⟩ := @cut_head limits (start + (limits.maxC - limits.overlapC))
        (length - (limits.maxC - limits.overlapC))
      rw [cut_long hlong]
      rw [hrest] at ih ⊢
      refine List.isChain_cons_cons.mpr ⟨.inr ?_, ih⟩
      dsimp only
      omega
  | case2 start length hshort =>
      rw [cut_short (Nat.le_of_not_lt hshort)]
      exact List.isChain_singleton _

theorem spans_head {start : ℕ} {lengths : List ℕ} {first : Span}
    (hfirst : (spans limits start lengths).head? = some first) : first.start = start := by
  cases lengths with
  | nil => cases hfirst
  | cons length lengths =>
      obtain ⟨rest, hrest⟩ := @cut_head limits start length
      rw [spans, hrest] at hfirst
      rw [← Option.some.inj hfirst]

theorem spans_chain (start : ℕ) (lengths : List ℕ) :
    (spans limits start lengths).IsChain (Succeeds limits) := by
  induction lengths generalizing start with
  | nil => exact List.isChain_nil
  | cons length lengths ih =>
      refine List.isChain_append.mpr ⟨cut_chain start length, ih _, ?_⟩
      intro last hlast first hfirst
      refine .inl ?_
      rw [spans_head hfirst, cut_last hlast]

theorem placeAll_ends {paragraphs : List Text} (start : ℕ)
    (hends : ∀ paragraph ∈ paragraphs, EndsKept PyString.isSpace paragraph)
    {paragraph : List Placed} (hparagraph : paragraph ∈ placeAll start paragraphs) :
    EndsKept isPlacedSpace paragraph := by
  induction paragraphs generalizing start with
  | nil => cases hparagraph
  | cons first paragraphs ih =>
      cases List.mem_cons.mp hparagraph with
      | inl hsame =>
          rw [hsame]
          exact placed_ends start (hends first List.mem_cons_self)
      | inr hrest =>
          exact ih _ (fun other hother => hends other (List.mem_cons_of_mem _ hother)) hrest

end Units

/-- Where the chunks of paragraphs begin in the section text. -/
theorem packPlaced_starts (limits : Limits) {paragraphs : List Text}
    (hends : ∀ paragraph ∈ paragraphs, EndsKept PyString.isSpace paragraph) :
    (packPlaced limits paragraphs).map windowStart =
      (windowsOf limits (fillParagraphs limits (paragraphs.map List.length))).map
        Window.start := by
  obtain ⟨hfollows, _⟩ := @packUnits_follows limits _ _ (unitsOf_at hends 0)
    (spans_chain 0 (paragraphs.map List.length))
  have hfinished := @Measures.finished _ limits isPlacedSpace placedNewline _ _
    hfollows.measures (packUnits_buf_kept fun seen unit hsplit =>
      unitsOf_last_kept (fun _ => placeAll_ends 0 hends) hsplit)
  exact (hfollows.starts hfinished).symm

end AgenticRag.Chunker
