import AgenticRag.Chunking.Units

/-!
# The packer in lengths

Which windows the packer builds depends on the lengths of the paragraphs alone.  Here
the same greedy rule is stated over spans of the section text, and the packer is shown
to follow it.
-/

namespace AgenticRag.Chunker

/-- A unit as a span of the section text. -/
structure Span where
  start : ℕ
  length : ℕ
deriving DecidableEq

/-- A window: where its first character stands, how long it is, and where its last unit
ends.  With an overlap the length is not the distance of the two. -/
structure Window where
  start : ℕ
  length : ℕ
  stop : ℕ
deriving DecidableEq

structure Filling where
  closed : List Window := []
  current : Option Window := none

section

variable (limits : Limits)

/-- The spans of the units of one paragraph. -/
def cut (start length : ℕ) : List Span :=
  if limits.maxC < length then
    ⟨start, limits.maxC⟩ ::
      cut (start + (limits.maxC - limits.overlapC)) (length - (limits.maxC - limits.overlapC))
  else [⟨start, length⟩]
termination_by length
decreasing_by
  have hless := limits.overlap_lt
  omega

/-- Paragraphs of these lengths, joined by blank lines, and the spans of their units. -/
def spans : ℕ → List ℕ → List Span
  | _, [] => []
  | start, length :: lengths => cut limits start length ++ spans (start + length + 2) lengths

def enter (unit : Span) : Window :=
  ⟨unit.start, unit.length, unit.start + unit.length⟩

def extend (window : Window) (unit : Span) : Window :=
  ⟨window.start, window.length + 2 + unit.length, unit.start + unit.length⟩

/-- The window behind a closed one begins with the end of it. -/
def reopen (window : Window) (unit : Span) : Window :=
  let carried := min limits.overlapC window.length
  if carried = 0 then enter unit
  else ⟨window.stop - carried, carried + 2 + unit.length, unit.start + unit.length⟩

/-- The greedy rule: a unit that does not fit closes the window. -/
def fill (filling : Filling) (unit : Span) : Filling :=
  match filling.current with
  | none => { filling with current := some (enter unit) }
  | some window =>
      if limits.maxC < window.length + 2 + unit.length then
        { closed := filling.closed ++ [window], current := some (reopen limits window unit) }
      else { filling with current := some (extend window unit) }

def fillAll (units : List Span) : Filling :=
  units.foldl (fill limits) {}

/-- The paragraphs of these lengths, filled in. -/
def fillParagraphs (lengths : List ℕ) : Filling :=
  fillAll limits (spans limits 0 lengths)

/-- The last window is so short that it is merged into the one before it. -/
def MergesLast (last window : Window) : Prop :=
  window.length < limits.minC ∧ 5 * (last.length + window.length) < 6 * limits.maxC

instance (last window : Window) : Decidable (MergesLast limits last window) :=
  inferInstanceAs (Decidable (_ ∧ _))

def Filling.Merges (filling : Filling) : Prop :=
  ∃ before last window, filling.closed = before ++ [last] ∧ filling.current = some window ∧
    MergesLast limits last window

/-- The windows once the last one is dealt with. -/
def windowsOf (filling : Filling) : List Window :=
  match filling.current with
  | none => filling.closed
  | some window =>
      match filling.closed.getLast? with
      | none => filling.closed ++ [window]
      | some last =>
          if MergesLast limits last window then
            filling.closed.dropLast ++
              [⟨last.start, last.length + 2 + window.length, window.stop⟩]
          else filling.closed ++ [window]

end

section Cut

variable {limits : Limits}

theorem cut_short {length : ℕ} (hshort : length ≤ limits.maxC) (start : ℕ) :
    cut limits start length = [⟨start, length⟩] := by
  rw [cut, if_neg hshort.not_gt]

theorem cut_long {length : ℕ} (hlong : limits.maxC < length) (start : ℕ) :
    cut limits start length = ⟨start, limits.maxC⟩ ::
      cut limits (start + (limits.maxC - limits.overlapC))
        (length - (limits.maxC - limits.overlapC)) := by
  rw [cut, if_pos hlong]

theorem spans_short {lengths : List ℕ} (hshort : ∀ length ∈ lengths, length ≤ limits.maxC)
    (start : ℕ) : (spans limits start lengths).map Span.length = lengths := by
  induction lengths generalizing start with
  | nil => rfl
  | cons length lengths ih =>
      rw [spans, List.map_append, cut_short (hshort length List.mem_cons_self),
        ih fun other hother => hshort other (List.mem_cons_of_mem _ hother)]
      rfl

/-! One lemma for each arm of the greedy rule. -/

variable {filling : Filling} {window : Window} {unit : Span}

theorem fill_enter (hnone : filling.current = none) (unit : Span) :
    fill limits filling unit = { filling with current := some (enter unit) } := by
  rw [fill, hnone]

theorem fill_reopen (hwindow : filling.current = some window)
    (hover : limits.maxC < window.length + 2 + unit.length) :
    fill limits filling unit =
      { closed := filling.closed ++ [window], current := some (reopen limits window unit) } := by
  rw [fill, hwindow]
  exact if_pos hover

theorem fill_extend (hwindow : filling.current = some window)
    (hfits : window.length + 2 + unit.length ≤ limits.maxC) :
    fill limits filling unit = { filling with current := some (extend window unit) } := by
  rw [fill, hwindow]
  exact if_neg hfits.not_gt

end Cut

section Simulation

variable {α : Type*} {limits : Limits} {space : α → Bool} {newline : α}

/-- The paragraph ends with a character that is not blank. -/
def EndsKept (space : α → Bool) (paragraph : List α) : Prop :=
  ∃ char, paragraph.getLast? = some char ∧ space char = false

/-- A paragraph that ends with a kept character has no blank remainder. -/
theorem hardSplit_lengths {paragraph : List α}
    (hend : EndsKept space paragraph) (start : ℕ) :
    (hardSplit limits space paragraph).map List.length =
      (cut limits start paragraph.length).map Span.length := by
  induction paragraph using hardSplit.induct limits space generalizing start with
  | case1 paragraph hlong ih =>
      have hless := limits.overlap_lt
      rw [hardSplit_long hlong, cut_long hlong, List.map_cons, List.map_cons, List.length_take,
        Nat.min_eq_left hlong.le]
      have hlast : (paragraph.drop (limits.maxC - limits.overlapC)).getLast? =
          paragraph.getLast? := by
        rw [List.getLast?_drop, if_neg (by omega)]
      rw [EndsKept, hlast, List.length_drop] at ih
      rw [ih hend]
  | case2 paragraph hshort hblank =>
      obtain ⟨char, hlast, hkept⟩ := hend
      have hspace := List.all_eq_true.mp hblank char (List.mem_of_getLast? hlast)
      rw [hkept] at hspace
      cases hspace
  | case3 paragraph hshort hblank =>
      have hfits := Nat.le_of_not_lt hshort
      rw [hardSplit_short hfits, if_neg hblank, cut_short hfits]
      rfl

theorem unitsOf_lengths {paragraphs : List (List α)}
    (hends : ∀ paragraph ∈ paragraphs, EndsKept space paragraph) (start : ℕ) :
    (unitsOf limits space paragraphs).map List.length =
      (spans limits start (paragraphs.map List.length)).map Span.length := by
  induction paragraphs generalizing start with
  | nil => rfl
  | cons paragraph paragraphs ih =>
      rw [unitsOf, List.flatMap_cons, List.map_append, List.map_cons, spans, List.map_append,
        hardSplit_lengths (hends paragraph List.mem_cons_self) start]
      congr 1
      exact ih (fun other hother => hends other (List.mem_cons_of_mem _ hother)) _

/-- The filling has the lengths of the packing. -/
structure Measures (filling : Filling) (packing : Packing α) : Prop where
  closed : filling.closed.map Window.length = packing.chunks.map List.length
  empty : filling.current = none ↔ packing.buf = []
  current : ∀ window, filling.current = some window → window.length = packing.buf.length

theorem reopen_length (window : Window) (unit : Span) (buf text : List α)
    (hwindow : window.length = buf.length) (hunit : unit.length = text.length) :
    (reopen limits window unit).length =
      (candidate newline (tail limits buf) text).length := by
  have htail := @length_tail _ limits buf
  rw [reopen, hwindow, ← htail]
  by_cases hempty : tail limits buf = []
  · rw [candidate, if_pos hempty, hempty]
    exact hunit
  · rw [candidate_filled hempty]
    have hpos : (tail limits buf).length ≠ 0 := by
      rwa [Ne, List.length_eq_zero_iff]
    rw [if_neg hpos]
    simp [hunit, Nat.add_assoc]

theorem Measures.exists_current {filling : Filling} {packing : Packing α}
    (hmeasures : Measures filling packing) (hfilled : packing.buf ≠ []) :
    ∃ window, filling.current = some window ∧ window.length = packing.buf.length := by
  obtain ⟨window, hwindow⟩ := Option.ne_none_iff_exists'.mp (hfilled ∘ hmeasures.empty.mp)
  exact ⟨window, hwindow, hmeasures.current window hwindow⟩

theorem Measures.move {filling : Filling} {packing next : Packing α} {unit : Span}
    {text : List α} (hmeasures : Measures filling packing) (hunit : unit.length = text.length)
    (hne : text ≠ []) (hmove : PackMove limits newline packing text next) :
    Measures (fill limits filling unit) next := by
  have hclosed := hmeasures.closed
  cases hmove with
  | first hnone =>
      rw [fill_enter (hmeasures.empty.mpr hnone)]
      refine ⟨hclosed, ?_, ?_⟩
      · simpa using hne
      · intro window hwindow
        rw [← Option.some.inj hwindow]
        exact hunit
  | flush hfilled hover =>
      obtain ⟨window, hwindow, hlength⟩ := hmeasures.exists_current hfilled
      rw [fill_reopen hwindow (by omega)]
      refine ⟨?_, ?_, ?_⟩
      · rw [List.map_append, List.map_append, hclosed, List.map_singleton, List.map_singleton,
          hlength]
      · simpa using candidate_ne_nil (tail limits packing.buf) hne
      · intro other hother
        rw [← Option.some.inj hother]
        exact reopen_length window unit packing.buf text hlength hunit
  | fill hfilled hfits =>
      obtain ⟨window, hwindow, hlength⟩ := hmeasures.exists_current hfilled
      rw [fill_extend hwindow (by omega)]
      refine ⟨hclosed, ?_, ?_⟩
      · have hrest : packing.buf ++ blankLine newline ++ text ≠ [] := by simp [hne]
        simpa only [reduceCtorEq, false_iff] using hrest
      · intro other hother
        rw [← Option.some.inj hother]
        simp [extend, hlength, hunit, Nat.add_assoc]

theorem fillAll_concat (units : List Span) (unit : Span) :
    fillAll limits (units ++ [unit]) = fill limits (fillAll limits units) unit := by
  rw [fillAll, List.foldl_append]
  rfl

theorem packUnits_measured {units : List (List α)} {unitSpans : List Span}
    (hlengths : units.map List.length = unitSpans.map Span.length)
    (hunits : ∀ unit ∈ units, unit ≠ []) :
    Measures (fillAll limits unitSpans) (packUnits limits newline units) := by
  induction units using List.reverseRecOn generalizing unitSpans with
  | nil =>
      have hnil : unitSpans = [] := by simpa using hlengths.symm
      rw [hnil]
      exact ⟨rfl, Iff.intro (fun _ => rfl) (fun _ => rfl), fun window hwindow => by cases hwindow⟩
  | append_singleton seen unit ih =>
      rw [List.map_append, List.map_singleton] at hlengths
      obtain ⟨before, after, rfl, hbefore, hafter⟩ := List.map_eq_append_iff.mp hlengths.symm
      obtain ⟨span, rfl, hspan⟩ := List.map_eq_singleton_iff.mp hafter
      obtain ⟨hseen, hunit⟩ := forall_mem_concat.mp hunits
      rw [fillAll_concat, packUnits_concat]
      exact (ih hbefore.symm hseen).move hspan hunit (packUnit_moves _ unit)

theorem Measures.last {filling : Filling} {packing : Packing α}
    (hmeasures : Measures filling packing) {earlier : List (List α)} {chunk : List α}
    (hchunks : packing.chunks = earlier ++ [chunk]) :
    ∃ before last, filling.closed = before ++ [last] ∧
      before.map Window.length = earlier.map List.length ∧ last.length = chunk.length := by
  have hclosed := hmeasures.closed
  rw [hchunks, List.map_append, List.map_singleton] at hclosed
  obtain ⟨before, after, hsplit, hbefore, hafter⟩ := List.map_eq_append_iff.mp hclosed
  obtain ⟨last, rfl, hlast⟩ := List.map_eq_singleton_iff.mp hafter
  exact ⟨before, last, hsplit, hbefore, hlast⟩

theorem Measures.merges_iff {filling : Filling} {packing : Packing α}
    (hmeasures : Measures filling packing) : filling.Merges limits ↔
      packing.buf ≠ [] ∧ ∃ earlier chunk, packing.chunks = earlier ++ [chunk] ∧
        MergesTail limits chunk packing.buf := by
  constructor
  · intro hmerges
    obtain ⟨before, last, window, hclosed, hcurrent, hmerges⟩ := hmerges
    have hchunks := hmeasures.closed
    rw [hclosed, List.map_append, List.map_singleton] at hchunks
    obtain ⟨earlier, final, hsplit, _, hfinal⟩ := List.map_eq_append_iff.mp hchunks.symm
    obtain ⟨chunk, rfl, hchunk⟩ := List.map_eq_singleton_iff.mp hfinal
    rw [MergesLast, ← hchunk, hmeasures.current window hcurrent] at hmerges
    refine ⟨fun hempty => ?_, earlier, chunk, hsplit, hmerges⟩
    rw [hmeasures.empty.mpr hempty] at hcurrent
    cases hcurrent
  · intro hmerges
    obtain ⟨hfilled, earlier, chunk, hchunks, hmerges⟩ := hmerges
    obtain ⟨window, hwindow, hlength⟩ := hmeasures.exists_current hfilled
    obtain ⟨before, last, hclosed, _, hlast⟩ := hmeasures.last hchunks
    refine ⟨before, last, window, hclosed, hwindow, ?_⟩
    rw [MergesLast, hlength, hlast]
    exact hmerges

theorem windowsOf_merged {filling : Filling} {before : List Window} {last window : Window}
    (hcurrent : filling.current = some window) (hclosed : filling.closed = before ++ [last])
    (hmerges : MergesLast limits last window) : windowsOf limits filling =
      before ++ [⟨last.start, last.length + 2 + window.length, window.stop⟩] := by
  rw [windowsOf, hcurrent, hclosed, List.getLast?_concat]
  dsimp only
  rw [if_pos hmerges, List.dropLast_concat]

theorem windowsOf_apart {filling : Filling} {window : Window}
    (hcurrent : filling.current = some window)
    (happart : ∀ before last, filling.closed = before ++ [last] →
      ¬ MergesLast limits last window) :
    windowsOf limits filling = filling.closed ++ [window] := by
  rw [windowsOf, hcurrent]
  dsimp only
  cases hlast : filling.closed.getLast? with
  | none => rfl
  | some last =>
      obtain ⟨before, hclosed⟩ := List.getLast?_eq_some_iff.mp hlast
      exact if_neg (happart before last hclosed)

/-- The windows beside the chunks, once the last of each is dealt with. -/
inductive Finished (limits : Limits) (newline : α) (filling : Filling) (packing : Packing α) :
    List Window → List (List α) → Prop where
  | blank (hcurrent : filling.current = none) :
      Finished limits newline filling packing filling.closed packing.chunks
  | emit {window : Window} (hcurrent : filling.current = some window)
      (happart : ¬ filling.Merges limits) :
      Finished limits newline filling packing (filling.closed ++ [window])
        (packing.chunks ++ [packing.buf])
  | merge {before : List Window} {last window : Window} {earlier : List (List α)}
      {chunk : List α} (hcurrent : filling.current = some window)
      (hclosed : filling.closed = before ++ [last]) (hmerges : MergesLast limits last window)
      (hchunks : packing.chunks = earlier ++ [chunk]) :
      Finished limits newline filling packing
        (before ++ [⟨last.start, last.length + 2 + window.length, window.stop⟩])
        (earlier ++ [chunk ++ blankLine newline ++ packing.buf])

theorem Measures.finished {filling : Filling} {packing : Packing α}
    (hmeasures : Measures filling packing)
    (hkept : packing.buf ≠ [] → packing.buf.all space = false) :
    Finished limits newline filling packing (windowsOf limits filling)
      (finishPacking limits space newline packing) := by
  have hfinishes := @finishPacking_finishes _ limits space newline packing
  generalize finishPacking limits space newline packing = chunks at hfinishes
  have hopen : packing.buf.all space = false → packing.buf ≠ [] := by
    intro hfilled hempty
    rw [hempty] at hfilled
    cases hfilled
  cases hfinishes with
  | blank hblank =>
      have hnone : filling.current = none := by
        refine hmeasures.empty.mpr ?_
        by_contra hfilled
        rw [hkept hfilled] at hblank
        cases hblank
      rw [windowsOf, hnone]
      exact .blank hnone
  | emit hfilled happart =>
      obtain ⟨window, hwindow, _⟩ := hmeasures.exists_current (hopen hfilled)
      have hmerges : ¬ filling.Merges limits := by
        intro hmerges
        obtain ⟨_, earlier, chunk, hchunks, hmerges⟩ := hmeasures.merges_iff.mp hmerges
        exact happart earlier chunk hchunks hmerges
      rw [windowsOf_apart hwindow fun before last hclosed hlast =>
        hmerges ⟨before, last, window, hclosed, hwindow, hlast⟩]
      exact .emit hwindow hmerges
  | merge hfilled hchunks hmerges =>
      obtain ⟨window, hwindow, hlength⟩ := hmeasures.exists_current (hopen hfilled)
      obtain ⟨before, last, hclosed, _, hlast⟩ := hmeasures.last hchunks
      have hmerged : MergesLast limits last window := by
        rw [MergesLast, hlength, hlast]
        exact hmerges
      rw [windowsOf_merged hwindow hclosed hmerged]
      exact .merge hwindow hclosed hmerged hchunks

/-- The chunks are as long as the windows. -/
theorem Finished.lengths {filling : Filling} {packing : Packing α}
    (hmeasures : Measures filling packing) {windows : List Window} {chunks : List (List α)}
    (hfinished : Finished limits newline filling packing windows chunks) :
    windows.map Window.length = chunks.map List.length := by
  have hclosed := hmeasures.closed
  cases hfinished with
  | blank => exact hclosed
  | emit hcurrent =>
      rw [List.map_append, List.map_append, hclosed, List.map_singleton, List.map_singleton,
        hmeasures.current _ hcurrent]
  | merge hcurrent hsplit _ hchunks =>
      rw [hsplit, hchunks, List.map_append, List.map_append] at hclosed
      obtain ⟨hbefore, hlast⟩ := List.append_inj' hclosed rfl
      have hlength := (List.cons.inj hlast).1
      rw [List.map_append, List.map_append, hbefore, List.map_singleton, List.map_singleton,
        hlength, hmeasures.current _ hcurrent, List.length_append, List.length_append,
        length_blankLine]

/-- The last unit of a paragraph ends with its last character. -/
theorem hardSplit_last {paragraph : List α} {char : α} (hlast : paragraph.getLast? = some char)
    (hkept : space char = false) : ∃ front unit, hardSplit limits space paragraph =
      front ++ [unit] ∧ unit.getLast? = some char := by
  induction paragraph using hardSplit.induct limits space with
  | case1 paragraph hlong ih =>
      have hless := limits.overlap_lt
      rw [List.getLast?_drop, if_neg (by omega)] at ih
      obtain ⟨front, unit, hsplit, hunit⟩ := ih hlast
      rw [hardSplit_long hlong, hsplit]
      exact ⟨_ :: front, unit, rfl, hunit⟩
  | case2 paragraph hshort hblank =>
      have hspace := List.all_eq_true.mp hblank char (List.mem_of_getLast? hlast)
      rw [hkept] at hspace
      cases hspace
  | case3 paragraph hshort hblank =>
      rw [hardSplit_short (Nat.le_of_not_lt hshort), if_neg hblank]
      exact ⟨[], paragraph, rfl, hlast⟩

theorem unitsOf_last_kept {paragraphs : List (List α)}
    (hends : ∀ paragraph ∈ paragraphs, EndsKept space paragraph) {seen : List (List α)}
    {unit : List α} (hunits : unitsOf limits space paragraphs = seen ++ [unit]) :
    unit.all space = false := by
  induction paragraphs using List.reverseRecOn with
  | nil => exact absurd hunits.symm (List.append_ne_nil_of_right_ne_nil _ (List.cons_ne_nil _ _))
  | append_singleton earlier paragraph _ =>
      obtain ⟨char, hlast, hkept⟩ := (forall_mem_concat.mp hends).2
      obtain ⟨front, last, hsplit, hunit⟩ := @hardSplit_last _ limits space _ _ hlast hkept
      rw [unitsOf, List.flatMap_append, List.flatMap_singleton, hsplit,
        ← List.append_assoc] at hunits
      obtain ⟨_, hsame⟩ := List.append_inj' hunits rfl
      rw [← (List.cons.inj hsame).1, List.all_eq_false]
      refine ⟨char, List.mem_of_getLast? hunit, ?_⟩
      rw [hkept]
      exact Bool.false_ne_true

/-- The chunks of paragraphs that end with a kept character are as long as the windows
of their lengths. -/
theorem packParagraphs_lengths {paragraphs : List (List α)}
    (hends : ∀ paragraph ∈ paragraphs, EndsKept space paragraph) :
    (packParagraphs limits space newline paragraphs).map List.length =
      (windowsOf limits (fillParagraphs limits (paragraphs.map List.length))).map
        Window.length := by
  have hmeasures := @packUnits_measured _ limits newline (unitsOf limits space paragraphs) _
    (unitsOf_lengths hends 0) fun unit hunit => (mem_unitsOf hunit).1
  have hfinished := @Measures.finished _ limits space newline _ _ hmeasures
    (packUnits_buf_kept fun seen unit hsplit => unitsOf_last_kept hends hsplit)
  exact (hfinished.lengths hmeasures).symm

end Simulation

/-! ## The longest chunk -/

section Bounds

variable {α : Type*} {limits : Limits} {space : α → Bool} {newline : α}

/-- No window is longer than an overlap, a separator and a full unit. -/
structure Fits (limits : Limits) (packing : Packing α) : Prop where
  chunks : ∀ chunk ∈ packing.chunks, chunk.length ≤ limits.maxC + limits.overlapC + 2
  buf : packing.buf.length ≤ limits.maxC + limits.overlapC + 2

theorem Fits.move {packing next : Packing α} {unit : List α} (hfits : Fits limits packing)
    (hunit : unit.length ≤ limits.maxC) (hmove : PackMove limits newline packing unit next) :
    Fits limits next := by
  cases hmove with
  | first => exact ⟨hfits.chunks, by dsimp only; omega⟩
  | fill _ hless =>
      refine ⟨hfits.chunks, ?_⟩
      dsimp only
      rw [List.length_append, List.length_append, length_blankLine]
      omega
  | flush =>
      refine ⟨forall_mem_concat.mpr ⟨hfits.chunks, hfits.buf⟩, ?_⟩
      · have htail := @length_tail _ limits packing.buf
        have hcandidate : (candidate newline (tail limits packing.buf) unit).length ≤
            (tail limits packing.buf).length + 2 + unit.length := by
          rw [candidate]
          split_ifs
          · omega
          · simp [Nat.add_assoc]
        dsimp only
        omega

theorem packUnits_fits {units : List (List α)}
    (hunits : ∀ unit ∈ units, unit.length ≤ limits.maxC) :
    Fits limits (packUnits limits newline units) := by
  induction units using List.reverseRecOn with
  | nil => exact ⟨fun chunk hchunk => absurd hchunk List.not_mem_nil, Nat.zero_le _⟩
  | append_singleton seen unit ih =>
      obtain ⟨hseen, hunit⟩ := forall_mem_concat.mp hunits
      rw [packUnits_concat]
      exact (ih hseen).move hunit (packUnit_moves _ unit)

/-- The length of the longest chunk; `1.2 * max_c` is rounded up. -/
def longest (limits : Limits) : ℕ :=
  max (limits.maxC + limits.overlapC + 2) ((6 * limits.maxC + 4) / 5 + 1)

theorem length_le_longest {paragraphs : List (List α)} {chunk : List α}
    (hchunk : chunk ∈ packParagraphs limits space newline paragraphs) :
    chunk.length ≤ longest limits := by
  have hfits : Fits limits (packUnits limits newline (unitsOf limits space paragraphs)) :=
    packUnits_fits fun unit hunit => (mem_unitsOf hunit).2.1
  rw [packParagraphs] at hchunk
  have hfinishes := @finishPacking_finishes _ limits space newline
    (packUnits limits newline (unitsOf limits space paragraphs))
  generalize packUnits limits newline (unitsOf limits space paragraphs) = packing at *
  generalize finishPacking limits space newline packing = chunks at *
  have hwindow : ∀ window ∈ packing.chunks, window.length ≤ longest limits := fun window hmem =>
    (hfits.chunks window hmem).trans (Nat.le_max_left _ _)
  cases hfinishes with
  | blank => exact hwindow chunk hchunk
  | emit =>
      cases List.mem_append.mp hchunk with
      | inl hearlier => exact hwindow chunk hearlier
      | inr hlast =>
          rw [List.mem_singleton.mp hlast]
          exact hfits.buf.trans (Nat.le_max_left _ _)
  | merge _ hchunks hmerges =>
      cases List.mem_append.mp hchunk with
      | inl hearlier =>
          refine hwindow chunk ?_
          rw [hchunks]
          exact List.mem_append_left _ hearlier
      | inr hlast =>
          rw [List.mem_singleton.mp hlast, List.length_append, List.length_append,
            length_blankLine]
          have hless := hmerges.2
          exact Nat.le_trans (by omega) (Nat.le_max_right _ _)

end Bounds

end AgenticRag.Chunker
