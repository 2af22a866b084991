import AgenticRag.Core.Windows
import AgenticRag.Chunking.Packer

/-!
# The splitter of the legacy parsers

`_split_text` of `chunking.py`: paragraphs are packed into buffers that start with the end
of the buffer before, and a buffer that is too long is cut into pieces that overlap as well.
Both loops yield windows of the joined paragraphs, in order.
-/

namespace AgenticRag.LegacySplit

open AgenticRag.Chunker AgenticRag.Windows

section Program

variable {α : Type*} (space isNewline : α → Bool) (newline : α) (target overlap : ℕ)

/-- `text.split("\n\n")` -/
def splitBlank : List α → List (List α)
  | first :: second :: rest =>
      if isNewline first && isNewline second then [] :: splitBlank rest
      else (splitBlank (second :: rest)).modifyHead (first :: ·)
  | [char] => [[char]]
  | [] => [[]]

/-- `text.strip()` -/
def strip (text : List α) : List α :=
  (text.dropWhile space).rdropWhile space

def paragraphs (text : List α) : List (List α) :=
  ((splitBlank isNewline text).map (strip space)).filter fun paragraph => !paragraph.isEmpty

/-- One round of the first loop. -/
def addParagraph (packing : Packing α) (para : List α) : Packing α :=
  if packing.buf ≠ [] ∧ target < packing.buf.length + para.length + 2 then
    { chunks := packing.chunks ++ [packing.buf]
      buf := if overlap = 0 then para
        else packing.buf.rtake overlap ++ blankLine newline ++ para }
  else { packing with buf := candidate newline packing.buf para }

/-- The last buffer, behind the first loop. -/
def closeBuffer (packing : Packing α) : List (List α) :=
  if packing.buf.all space then packing.chunks else packing.chunks ++ [packing.buf]

/-- The `while` loop over one chunk; `len(c) > target * 1.5` in integers.  It may need more
rounds than the fuel allows. -/
def cutChunk : ℕ → List α → Option (List (List α))
  | 0, _ => none
  | fuel + 1, chunk =>
      if 3 * target < 2 * chunk.length then
        (cutChunk fuel (chunk.drop (target - overlap))).map (chunk.take target :: ·)
      else some [chunk]

/-- The `for` loop over the chunks, which appends to `final`. -/
def cutChunks (fuel : ℕ) : List (List α) → Option (List (List α))
  | [] => some []
  | chunk :: chunks =>
      (cutChunk target overlap fuel chunk).bind fun pieces =>
        (cutChunks fuel chunks).map (pieces ++ ·)

/-- `_split_text` -/
def splitText (fuel : ℕ) (text : List α) : Option (List (List α)) :=
  let packing := (paragraphs space isNewline text).foldl
    (addParagraph newline target overlap) {}
  (cutChunks target overlap fuel (closeBuffer space packing)).map fun final =>
    final.filter fun piece => !piece.all space

end Program

/-! ## The chunks are windows -/

section Loops

variable {α : Type*} {space isNewline : α → Bool} {newline : α} {target overlap : ℕ}

/-- In order, and with no more in common than the overlap. -/
def Linked (overlap : ℕ) (first second : Window) : Prop :=
  first.Precedes second ∧ first.stop ≤ second.start + overlap

/-- The chunks are linked windows of a text. -/
structure Chunked (overlap : ℕ) (whole : List α) (chunks : List (List α))
    (windows : List Window) : Prop where
  shown : chunks = windows.map (·.of whole)
  inside : ∀ window ∈ windows, window.Inside whole.length
  linked : windows.Pairwise (Linked overlap)

/-- The loop invariant: the chunks are windows of the paragraphs read so far, and the
buffer is the end of these. -/
structure Packed (overlap : ℕ) (whole : List α) (packing : Packing α) (windows : List Window)
    (start : ℕ) : Prop extends Chunked overlap whole packing.chunks windows where
  buf : packing.buf = whole.drop start
  opened : whole = [] ∧ start = 0 ∨ start < whole.length
  behind : ∀ window ∈ windows, window.start ≤ start ∧ window.stop ≤ start + overlap

theorem Chunked.grow {whole : List α} {chunks : List (List α)} {windows : List Window}
    (hchunked : Chunked overlap whole chunks windows) (more : List α) :
    Chunked overlap (whole ++ more) chunks windows where
  shown := by
    rw [hchunked.shown]
    refine List.map_congr_left fun window hwindow => ?_
    exact (Window.of_append (hchunked.inside window hwindow) more).symm
  inside := by
    intro window hwindow
    refine (hchunked.inside window hwindow).mono ?_
    rw [List.length_append]
    exact Nat.le_add_right _ _
  linked := hchunked.linked

section Packed

variable {whole para : List α} {packing : Packing α} {windows : List Window} {start : ℕ}

theorem Packed.nil : Packed overlap ([] : List α) {} [] 0 where
  shown := rfl
  inside := by simp
  linked := List.Pairwise.nil
  buf := rfl
  opened := .inl ⟨rfl, rfl⟩
  behind := by simp

theorem Packed.start_lt (hpacked : Packed overlap whole packing windows start)
    (hfilled : packing.buf ≠ []) : start < whole.length := by
  cases hpacked.opened with
  | inr hless => exact hless
  | inl hnone =>
      rw [hpacked.buf, hnone.1, List.drop_nil] at hfilled
      exact absurd rfl hfilled

theorem Packed.eq_nil (hpacked : Packed overlap whole packing windows start)
    (hempty : packing.buf = []) : whole = [] ∧ start = 0 := by
  cases hpacked.opened with
  | inl hnone => exact hnone
  | inr hless =>
      have hlength := congrArg List.length (hpacked.buf.symm.trans hempty)
      rw [List.length_drop, List.length_nil] at hlength
      omega

/-- The buffer is one more window. -/
theorem Packed.withBuffer (hpacked : Packed overlap whole packing windows start)
    (hfilled : packing.buf ≠ []) :
    Chunked overlap whole (packing.chunks ++ [packing.buf])
      (windows ++ [⟨start, whole.length⟩]) where
  shown := by
    rw [List.map_append, List.map_singleton, Window.of_to_end, hpacked.shown, hpacked.buf]
  inside := forall_mem_concat.mpr
    ⟨hpacked.inside, (hpacked.start_lt hfilled).le, Nat.le_refl _⟩
  linked := by
    rw [List.pairwise_append]
    refine ⟨hpacked.linked, List.pairwise_singleton _ _, fun window hwindow last hmem => ?_⟩
    rw [List.mem_singleton.mp hmem]
    have hbehind := hpacked.behind window hwindow
    exact ⟨⟨hbehind.1, (hpacked.inside window hwindow).2⟩, hbehind.2⟩

/-- The buffer becomes a chunk, and the next one is the end of the longer text. -/
theorem Packed.flush {more buf : List α} {next : ℕ}
    (hpacked : Packed overlap whole packing windows start)
    (hfilled : packing.buf ≠ []) (hbuf : buf = (whole ++ more).drop next)
    (hstart : start ≤ next) (hnext : next < (whole ++ more).length)
    (hover : whole.length ≤ next + overlap) :
    Packed overlap (whole ++ more) { chunks := packing.chunks ++ [packing.buf], buf := buf }
      (windows ++ [⟨start, whole.length⟩]) next where
  toChunked := (hpacked.withBuffer hfilled).grow more
  buf := hbuf
  opened := .inr hnext
  behind := by
    refine forall_mem_concat.mpr ⟨fun window hwindow => ?_, hstart, hover⟩
    have hbehind := hpacked.behind window hwindow
    omega

/-- The buffer grows with the text. -/
theorem Packed.fill (hpacked : Packed overlap whole packing windows start)
    (hpara : para ≠ []) :
    Packed overlap (candidate newline whole para)
      { packing with buf := candidate newline packing.buf para } windows start := by
  have hlength : 0 < para.length := List.length_pos_iff.mpr hpara
  by_cases hempty : packing.buf = []
  · obtain ⟨rfl, rfl⟩ := hpacked.eq_nil hempty
    rw [hempty, candidate, if_pos rfl]
    exact {
      toChunked := hpacked.toChunked.grow para
      buf := rfl
      opened := .inr hlength
      behind := hpacked.behind }
  · have hless := hpacked.start_lt hempty
    have hwhole : whole ≠ [] := List.length_pos_iff.mp (Nat.zero_lt_of_lt hless)
    rw [candidate_filled hwhole, candidate_filled hempty, List.append_assoc, List.append_assoc]
    exact {
      toChunked := hpacked.toChunked.grow (blankLine newline ++ para)
      buf := by
        rw [hpacked.buf, List.drop_append_of_le_length hless.le]
      opened := by
        rw [List.length_append]
        exact .inr (by omega)
      behind := hpacked.behind }

/-- One round of the first loop. -/
theorem Packed.add (hpacked : Packed overlap whole packing windows start) (hpara : para ≠ []) :
    ∃ windows start, Packed overlap (candidate newline whole para)
      (addParagraph newline target overlap packing para) windows start := by
  by_cases hflush : packing.buf ≠ [] ∧ target < packing.buf.length + para.length + 2
  · rw [addParagraph, if_pos hflush]
    have hlength : 0 < para.length := List.length_pos_iff.mpr hpara
    have hless := hpacked.start_lt hflush.1
    have hwhole : whole ≠ [] := List.length_pos_iff.mp (Nat.zero_lt_of_lt hless)
    rw [candidate_filled hwhole, List.append_assoc]
    by_cases hnone : overlap = 0
    · rw [if_pos hnone]
      refine ⟨_, whole.length + 2, hpacked.flush hflush.1 ?_ (by omega) ?_ (by omega)⟩
      · rw [← List.append_assoc, List.drop_left' (by simp)]
      · simp only [List.length_append, length_blankLine]
        omega
    · rw [if_neg hnone]
      refine ⟨_, start + (whole.length - start - overlap),
        hpacked.flush hflush.1 ?_ (by omega) ?_ (by omega)⟩
      · rw [hpacked.buf, List.rtake, List.length_drop, List.drop_drop,
          List.drop_append_of_le_length (by omega), List.append_assoc]
      · simp only [List.length_append, length_blankLine]
        omega
  · rw [addParagraph, if_neg hflush]
    exact ⟨windows, start, hpacked.fill hpara⟩

/-- The first loop. -/
theorem Packed.addAll {paras : List (List α)} (hparas : ∀ para ∈ paras, para ≠ [])
    (hpacked : Packed overlap whole packing windows start) :
    ∃ windows start, Packed overlap (paras.foldl (candidate newline) whole)
      (paras.foldl (addParagraph newline target overlap) packing) windows start := by
  induction paras generalizing whole packing windows start with
  | nil => exact ⟨windows, start, hpacked⟩
  | cons para paras ih =>
      obtain ⟨windows, start, hadded⟩ : ∃ windows start,
          Packed overlap (candidate newline whole para)
            (addParagraph newline target overlap packing para) windows start :=
        hpacked.add (hparas para List.mem_cons_self)
      exact ih (fun other hother => hparas other (List.mem_cons_of_mem _ hother)) hadded

theorem Packed.close (hpacked : Packed overlap whole packing windows start) :
    ∃ windows, Chunked overlap whole (closeBuffer space packing) windows := by
  rw [closeBuffer]
  split_ifs with hblank
  · exact ⟨windows, hpacked.toChunked⟩
  · exact ⟨_, hpacked.withBuffer fun hempty => hblank (by rw [hempty]; rfl)⟩

end Packed

/-! ## The pieces are windows -/

/-- What the second loop makes of one window. -/
structure CutOf (target overlap : ℕ) (chunk piece : Window) : Prop where
  start_le : piece.start ≤ piece.stop
  within : chunk.start ≤ piece.start ∧ piece.stop ≤ chunk.stop
  bounded : 2 * (piece.stop - piece.start) ≤ 3 * target
  first_or_over : piece.start = chunk.start ∨ piece.start + overlap ≤ chunk.stop
  last_or_full : chunk.stop ≤ piece.stop ∨ chunk.start + target ≤ piece.stop

theorem cutChunk_windows (hless : overlap < target) {fuel : ℕ} {whole : List α}
    {chunk : Window} (hinside : chunk.Inside whole.length) {pieces : List (List α)}
    (hcut : cutChunk target overlap fuel (chunk.of whole) = some pieces) :
    ∃ windows : List Window, pieces = windows.map (·.of whole) ∧
      windows.Pairwise Window.Precedes ∧ (∀ piece ∈ windows, CutOf target overlap chunk piece) ∧
      ∀ place, chunk.start ≤ place → place < chunk.stop →
        ∃ piece ∈ windows, piece.start ≤ place ∧ place < piece.stop := by
  induction fuel generalizing chunk pieces with
  | zero => cases hcut
  | succ fuel ih =>
      have hlength := Window.length_of hinside
      rw [cutChunk, hlength] at hcut
      obtain ⟨hstart, hstop⟩ := hinside
      split_ifs at hcut with hlong
      · obtain ⟨rest, hrest, hpieces⟩ := Option.map_eq_some_iff.mp hcut
        rw [Window.drop_of] at hrest
        rw [Window.take_of (by omega)] at hpieces
        obtain ⟨windows, hwindows, hsorted, hcuts, hcover⟩ :=
          @ih ⟨chunk.start + (target - overlap), chunk.stop⟩
            ⟨by dsimp only; omega, hstop⟩ rest hrest
        refine ⟨⟨chunk.start, chunk.start + target⟩ :: windows, ?_, ?_, ?_, ?_⟩
        · rw [← hpieces, hwindows]
          rfl
        · rw [List.pairwise_cons]
          refine ⟨fun piece hpiece => ?_, hsorted⟩
          obtain ⟨hle, hwithin, hbound, hfirst, hlast⟩ := hcuts piece hpiece
          dsimp only at hwithin hfirst hlast
          constructor
          · dsimp only
            omega
          · dsimp only
            omega
        · rw [List.forall_mem_cons]
          refine ⟨⟨by simp, by simp; omega, by simp; omega, .inl rfl, .inr (Nat.le_refl _)⟩,
            fun piece hpiece => ?_⟩
          obtain ⟨hle, hwithin, hbound, hfirst, hlast⟩ := hcuts piece hpiece
          dsimp only at hwithin hfirst hlast
          exact ⟨hle, by omega, hbound, by omega, by omega⟩
        · intro place hplace hbefore
          by_cases hshown : place < chunk.start + target
          · exact ⟨_, List.mem_cons_self, hplace, hshown⟩
          · obtain ⟨piece, hpiece, hshows⟩ := hcover place (by dsimp only; omega) hbefore
            exact ⟨piece, List.mem_cons_of_mem _ hpiece, hshows⟩
      · cases hcut
        refine ⟨[chunk], rfl, List.pairwise_singleton _ _, ?_, fun place hplace hbefore =>
          ⟨chunk, List.mem_singleton_self _, hplace, hbefore⟩⟩
        rw [List.forall_mem_singleton]
        exact ⟨hstart, ⟨Nat.le_refl _, Nat.le_refl _⟩, by omega, .inl rfl, .inl (Nat.le_refl _)⟩

/-- The second loop ends: what is left of a chunk gets shorter. -/
theorem cutChunk_ends (hless : overlap < target) (chunk : List α) :
    ∃ pieces, ∀ fuel, chunk.length < fuel →
      cutChunk target overlap fuel chunk = some pieces := by
  induction hlength : chunk.length using Nat.strong_induction_on generalizing chunk with
  | _ length ih =>
      by_cases hlong : 3 * target < 2 * chunk.length
      · have hshorter : (chunk.drop (target - overlap)).length < length := by
          rw [List.length_drop]
          omega
        obtain ⟨rest, hrest⟩ := ih _ hshorter _ rfl
        refine ⟨chunk.take target :: rest, fun fuel hfuel => ?_⟩
        obtain ⟨fuel, rfl⟩ := Nat.exists_eq_succ_of_ne_zero (Nat.ne_zero_of_lt hfuel)
        rw [cutChunk, if_pos hlong, hrest fuel (by omega)]
        rfl
      · refine ⟨[chunk], fun fuel hfuel => ?_⟩
        obtain ⟨fuel, rfl⟩ := Nat.exists_eq_succ_of_ne_zero (Nat.ne_zero_of_lt hfuel)
        rw [cutChunk, if_neg hlong]

theorem cutChunks_ends (hless : overlap < target) (chunks : List (List α)) :
    ∃ final enough, ∀ fuel, enough < fuel →
      cutChunks target overlap fuel chunks = some final := by
  induction chunks with
  | nil => exact ⟨[], 0, fun _ _ => rfl⟩
  | cons chunk chunks ih =>
      obtain ⟨pieces, hpieces⟩ := cutChunk_ends hless chunk
      obtain ⟨final, enough, hfinal⟩ := ih
      refine ⟨pieces ++ final, max chunk.length enough, fun fuel hfuel => ?_⟩
      rw [cutChunks, hpieces fuel (by omega), hfinal fuel (by omega)]
      rfl

/-- Pieces of linked chunks are in order: the last cut of a chunk starts before the overlap
with the next one, and the first cut there ends behind it. -/
theorem CutOf.precedes (hless : overlap < target) {chunk next first second : Window}
    (hlinked : Linked overlap chunk next) (hfirst : CutOf target overlap chunk first)
    (hsecond : CutOf target overlap next second) : first.Precedes second := by
  obtain ⟨⟨hstart, hstop⟩, hover⟩ := hlinked
  have hwithin := hfirst.within
  have hlater := hsecond.within
  constructor
  · cases hfirst.first_or_over with
    | inl hsame => omega
    | inr hbefore => omega
  · cases hsecond.last_or_full with
    | inl hlast => omega
    | inr hfull => omega

/-- The pieces are windows in order, none is too long, and they show what the chunks
show. -/
structure Cut (target : ℕ) (whole : List α) (chunks pieces : List (List α))
    (windows : List Window) : Prop where
  shown : pieces = windows.map (·.of whole)
  ordered : windows.Pairwise Window.Precedes
  bounded : ∀ piece ∈ pieces, 2 * piece.length ≤ 3 * target
  covered : ∀ chunk ∈ chunks, ∀ char ∈ chunk, ∃ piece ∈ pieces, char ∈ piece

theorem cutChunks_windows (hless : overlap < target) {fuel : ℕ} {whole : List α}
    {chunks final : List (List α)} {windows : List Window}
    (hchunked : Chunked overlap whole chunks windows)
    (hcut : cutChunks target overlap fuel chunks = some final) :
    ∃ cuts, Cut target whole chunks final cuts ∧
      ∀ cut ∈ cuts, ∃ window ∈ windows, CutOf target overlap window cut := by
  obtain ⟨rfl, hinside, hlinked⟩ := hchunked
  induction windows generalizing final with
  | nil =>
      cases hcut
      exact ⟨[], ⟨rfl, List.Pairwise.nil, by simp, by simp⟩, by simp⟩
  | cons window windows ih =>
      rw [List.map_cons, cutChunks] at hcut
      obtain ⟨pieces, hpieces, hrest⟩ := Option.bind_eq_some_iff.mp hcut
      obtain ⟨others, hothers, rfl⟩ := Option.map_eq_some_iff.mp hrest
      rw [List.pairwise_cons] at hlinked
      obtain ⟨cuts, hcuts, hparents⟩ :=
        ih (fun other hother => hinside other (List.mem_cons_of_mem _ hother)) hlinked.2 hothers
      have hwindow := hinside window List.mem_cons_self
      obtain ⟨own, rfl, hsorted, hown, hcover⟩ := cutChunk_windows hless hwindow hpieces
      refine ⟨own ++ cuts, ?_, ?_⟩
      · exact {
          shown := by rw [List.map_append, hcuts.shown]
          ordered := by
            rw [List.pairwise_append]
            refine ⟨hsorted, hcuts.ordered, fun first hfirst second hsecond => ?_⟩
            obtain ⟨parent, hparent, hcutOf⟩ := hparents second hsecond
            exact (hown first hfirst).precedes hless (hlinked.1 parent hparent) hcutOf
          bounded := by
            rw [List.forall_mem_append]
            refine ⟨fun piece hpiece => ?_, hcuts.bounded⟩
            obtain ⟨cut, hcut, rfl⟩ := List.mem_map.mp hpiece
            have hcutOf := hown cut hcut
            have hcutInside : cut.Inside whole.length :=
              ⟨hcutOf.start_le, Nat.le_trans hcutOf.within.2 hwindow.2⟩
            rw [Window.length_of hcutInside]
            exact hcutOf.bounded
          covered := by
            rw [List.map_cons, List.forall_mem_cons]
            constructor
            · intro char hchar
              obtain ⟨place, hstart, hstop, hplace⟩ := Window.mem_of_iff.mp hchar
              obtain ⟨cut, hcut, hshows⟩ := hcover place hstart hstop
              exact ⟨cut.of whole, List.mem_append_left _ (List.mem_map_of_mem hcut),
                Window.mem_of_iff.mpr ⟨place, hshows.1, hshows.2, hplace⟩⟩
            · intro chunk hchunk char hchar
              obtain ⟨piece, hpiece, hmem⟩ := hcuts.covered chunk hchunk char hchar
              exact ⟨piece, List.mem_append_right _ hpiece, hmem⟩ }
      · rw [List.forall_mem_append]
        refine ⟨fun cut hcut => ⟨window, List.mem_cons_self, hown cut hcut⟩, fun cut hcut => ?_⟩
        obtain ⟨parent, hparent, hcutOf⟩ := hparents cut hcut
        exact ⟨parent, List.mem_cons_of_mem _ hparent, hcutOf⟩

/-! ## Nothing but blanks is lost -/

/-- The character stands in a chunk or in the buffer. -/
def Holds (packing : Packing α) (char : α) : Prop :=
  (∃ chunk ∈ packing.chunks, char ∈ chunk) ∨ char ∈ packing.buf

theorem mem_candidate_left {char : α} {buf : List α} (hchar : char ∈ buf) (para : List α) :
    char ∈ candidate newline buf para := by
  rw [candidate_filled (List.ne_nil_of_mem hchar), List.append_assoc]
  exact List.mem_append_left _ hchar

theorem holds_addParagraph {packing : Packing α} {para : List α} {char : α}
    (hchar : Holds packing char ∨ char ∈ para) :
    Holds (addParagraph newline target overlap packing para) char := by
  by_cases hflush : packing.buf ≠ [] ∧ target < packing.buf.length + para.length + 2
  · rw [addParagraph, if_pos hflush]
    cases hchar with
    | inl hheld =>
        refine .inl ?_
        cases hheld with
        | inl hchunks =>
            obtain ⟨chunk, hchunk, hmem⟩ := hchunks
            exact ⟨chunk, List.mem_append_left _ hchunk, hmem⟩
        | inr hbuf => exact ⟨packing.buf, by simp, hbuf⟩
    | inr hpara =>
        refine .inr ?_
        by_cases hnone : overlap = 0
        · rw [if_pos hnone]
          exact hpara
        · rw [if_neg hnone]
          exact List.mem_append_right _ hpara
  · rw [addParagraph, if_neg hflush]
    cases hchar with
    | inl hheld => exact hheld.imp_right fun hbuf => mem_candidate_left hbuf para
    | inr hpara => exact .inr ((unit_suffix_candidate newline _ para).subset hpara)

theorem holds_addAll {packing : Packing α} {paras : List (List α)} {char : α}
    (hchar : Holds packing char ∨ ∃ para ∈ paras, char ∈ para) :
    Holds (paras.foldl (addParagraph newline target overlap) packing) char := by
  induction paras generalizing packing with
  | nil => exact hchar.resolve_right (by simp)
  | cons para paras ih =>
      refine ih ?_
      cases hchar with
      | inl hheld => exact .inl (holds_addParagraph (.inl hheld))
      | inr hparas =>
          obtain ⟨found, hfound, hmem⟩ := hparas
          cases hfound with
          | head => exact .inl (holds_addParagraph (.inr hmem))
          | tail _ hlater => exact .inr ⟨found, hlater, hmem⟩

theorem Holds.close {packing : Packing α} {char : α} (hheld : Holds packing char)
    (hkept : space char = false) : ∃ chunk ∈ closeBuffer space packing, char ∈ chunk := by
  rw [closeBuffer]
  split_ifs with hblank
  · cases hheld with
    | inl hchunks => exact hchunks
    | inr hbuf =>
        rw [List.all_eq_true.mp hblank char hbuf] at hkept
        cases hkept
  · cases hheld with
    | inl hchunks =>
        obtain ⟨chunk, hchunk, hmem⟩ := hchunks
        exact ⟨chunk, List.mem_append_left _ hchunk, hmem⟩
    | inr hbuf => exact ⟨packing.buf, by simp, hbuf⟩

/-! ## The paragraphs of a text -/

theorem flatten_modifyHead_cons (char : α) {parts : List (List α)} (hne : parts ≠ []) :
    (parts.modifyHead (char :: ·)).flatten = char :: parts.flatten := by
  obtain ⟨part, parts, rfl⟩ := List.exists_cons_of_ne_nil hne
  rfl

theorem splitBlank_ne_nil (text : List α) : splitBlank isNewline text ≠ [] := by
  induction text using splitBlank.induct isNewline with
  | case1 first second rest hboth _ =>
      rw [splitBlank, if_pos hboth]
      exact List.cons_ne_nil _ _
  | case2 first second rest hboth ih =>
      rw [splitBlank, if_neg hboth, Ne, List.modifyHead_eq_nil_iff]
      exact ih
  | case3 char => exact List.cons_ne_nil _ _
  | case4 => exact List.cons_ne_nil _ _

theorem sublist_splitBlank (text : List α) :
    (splitBlank isNewline text).flatten.Sublist text := by
  induction text using splitBlank.induct isNewline with
  | case1 first second rest hboth ih =>
      rw [splitBlank, if_pos hboth, List.flatten_cons, List.nil_append]
      exact (ih.cons second).cons first
  | case2 first second rest hboth ih =>
      rw [splitBlank, if_neg hboth, flatten_modifyHead_cons _ (splitBlank_ne_nil _)]
      exact ih.cons_cons first
  | case3 char => simp [splitBlank]
  | case4 => simp [splitBlank]

theorem mem_splitBlank {text : List α} {char : α} (hchar : char ∈ text)
    (hkept : isNewline char = false) : char ∈ (splitBlank isNewline text).flatten := by
  induction text using splitBlank.induct isNewline with
  | case1 first second rest hboth ih =>
      rw [Bool.and_eq_true] at hboth
      rw [splitBlank, if_pos (by rw [hboth.1, hboth.2]; rfl), List.flatten_cons, List.nil_append]
      refine ih ?_
      have hfirst : char ≠ first := fun hsame => by simp [← hsame, hkept] at hboth
      have hsecond : char ≠ second := fun hsame => by simp [← hsame, hkept] at hboth
      exact (List.mem_cons.mp ((List.mem_cons.mp hchar).resolve_left hfirst)).resolve_left hsecond
  | case2 first second rest hboth ih =>
      rw [splitBlank, if_neg hboth, flatten_modifyHead_cons _ (splitBlank_ne_nil _),
        List.mem_cons]
      exact (List.mem_cons.mp hchar).imp_right ih
  | case3 other => simpa [splitBlank] using hchar
  | case4 => cases hchar

theorem sublist_strip (text : List α) : (strip space text).Sublist text :=
  (List.rdropWhile_prefix _ _).sublist.trans (List.dropWhile_sublist _)

theorem mem_strip {text : List α} {char : α} (hchar : char ∈ text)
    (hkept : space char = false) : char ∈ strip space text := by
  have hdropped : ∀ {text : List α}, char ∈ text → char ∈ text.dropWhile space := by
    intro text hmem
    rw [← List.takeWhile_append_dropWhile (p := space) (l := text)] at hmem
    refine (List.mem_append.mp hmem).resolve_left fun htaken => ?_
    rw [List.mem_takeWhile_imp htaken] at hkept
    cases hkept
  rw [strip, List.rdropWhile, List.mem_reverse]
  exact hdropped (List.mem_reverse.mpr (hdropped hchar))

theorem sublist_paragraphs (text : List α) :
    (paragraphs space isNewline text).flatten.Sublist text := by
  have hparts : ∀ parts : List (List α),
      ((parts.map (strip space)).filter fun paragraph => !paragraph.isEmpty).flatten.Sublist
        parts.flatten := by
    intro parts
    induction parts with
    | nil => exact List.Sublist.refl _
    | cons part parts ih =>
        rw [List.map_cons, List.filter_cons, List.flatten_cons]
        split_ifs
        · rw [List.flatten_cons]
          exact (sublist_strip part).append ih
        · exact ih.trans (List.sublist_append_right _ _)
  exact (hparts _).trans (sublist_splitBlank text)

theorem mem_paragraphs {text : List α} {char : α} (hchar : char ∈ text)
    (hkept : space char = false) (hnewline : isNewline char = false) :
    ∃ para ∈ paragraphs space isNewline text, char ∈ para := by
  obtain ⟨part, hpart, hmem⟩ := List.mem_flatten.mp (mem_splitBlank hchar hnewline)
  have hstripped := mem_strip hmem hkept
  refine ⟨strip space part, List.mem_filter.mpr ⟨List.mem_map_of_mem hpart, ?_⟩, hstripped⟩
  simpa using List.ne_nil_of_mem hstripped

/-! ## The joined paragraphs -/

theorem filterMap_joined {κ : Type*} {key : α → Option κ} (hkey : key newline = none)
    (paras : List (List α)) (front : List α) :
    (paras.foldl (candidate newline) front).filterMap key =
      front.filterMap key ++ paras.flatten.filterMap key := by
  induction paras generalizing front with
  | nil => simp
  | cons para paras ih =>
      rw [List.foldl_cons, ih, List.flatten_cons, List.filterMap_append, ← List.append_assoc]
      congr 1
      by_cases hempty : front = []
      · rw [hempty, candidate, if_pos rfl]
        rfl
      · rw [candidate_filled hempty, List.filterMap_append, List.filterMap_append, blankLine]
        simp [hkey]

theorem mem_joined {char : α} {paras : List (List α)} {front : List α}
    (hchar : char ∈ paras.foldl (candidate newline) front) :
    char ∈ front ∨ char = newline ∨ char ∈ paras.flatten := by
  induction paras generalizing front with
  | nil => exact .inl hchar
  | cons para paras ih =>
      rw [List.flatten_cons, List.mem_append]
      cases ih hchar with
      | inr hrest => exact .inr (hrest.imp_right .inr)
      | inl hstep =>
          by_cases hempty : front = []
          · rw [hempty, candidate, if_pos rfl] at hstep
            exact .inr (.inr (.inl hstep))
          · rw [candidate_filled hempty, List.mem_append, List.mem_append, blankLine] at hstep
            simp only [List.mem_cons, List.not_mem_nil, or_false, or_self] at hstep
            cases hstep with
            | inl hbefore => exact hbefore.imp_right .inl
            | inr hpara => exact .inr (.inr (.inl hpara))

/-! ## The pieces of a text -/

/-- The splitter ends. -/
theorem splitText_ends (hless : overlap < target) (text : List α) :
    ∃ pieces enough, ∀ fuel, enough < fuel →
      splitText space isNewline newline target overlap fuel text = some pieces := by
  obtain ⟨final, enough, hfinal⟩ := cutChunks_ends hless (closeBuffer space
    ((paragraphs space isNewline text).foldl (addParagraph newline target overlap) {}))
  refine ⟨final.filter fun piece => !piece.all space, enough, fun fuel hfuel => ?_⟩
  rw [splitText, hfinal fuel hfuel, Option.map_some]

/-- The pieces of a text: short, in order and in the order of the text inside, of its own
characters but for the separators, and with every one that is no blank. -/
structure Pieces {κ : Type*} [Preorder κ] (key : α → Option κ) (space : α → Bool) (newline : α)
    (target : ℕ) (text : List α) (pieces : List (List α)) : Prop where
  bounded : ∀ piece ∈ pieces, 2 * piece.length ≤ 3 * target
  keyed : ∀ piece ∈ pieces, piece.filterMap key ≠ []
  increasing : ∀ piece ∈ pieces, Increasing key piece
  ordered : pieces.Pairwise (InOrder key)
  own : ∀ piece ∈ pieces, ∀ char ∈ piece, char = newline ∨ char ∈ text
  covered : ∀ char ∈ text, space char = false → ∃ piece ∈ pieces, char ∈ piece

theorem pieces_splitText {κ : Type*} [Preorder κ] {key : α → Option κ}
    (hless : overlap < target) (hnewline : space newline = true)
    (hbreak : ∀ char, isNewline char = true → space char = true) (hnone : key newline = none)
    {text : List α} (hkeys : ∀ char ∈ text, key char ≠ none) (htext : Increasing key text)
    {fuel : ℕ} {pieces : List (List α)}
    (hsplit : splitText space isNewline newline target overlap fuel text = some pieces) :
    Pieces key space newline target text pieces := by
  rw [splitText] at hsplit
  obtain ⟨final, hfinal, rfl⟩ := Option.map_eq_some_iff.mp hsplit
  have hparas : ∀ para ∈ paragraphs space isNewline text, para ≠ [] := by
    intro para hpara
    simpa using (List.mem_filter.mp hpara).2
  obtain ⟨windows, start, hpacked⟩ : ∃ windows start, Packed overlap
      ((paragraphs space isNewline text).foldl (candidate newline) [])
      ((paragraphs space isNewline text).foldl (addParagraph newline target overlap) {})
      windows start := Packed.nil.addAll hparas
  obtain ⟨windows, hchunked⟩ := hpacked.close
  obtain ⟨cuts, hcut, _⟩ := cutChunks_windows hless hchunked hfinal
  have hwhole : Increasing key ((paragraphs space isNewline text).foldl (candidate newline) []) := by
    rw [Increasing, filterMap_joined hnone, List.filterMap_nil, List.nil_append]
    exact htext.sublist (sublist_paragraphs text)
  have hown : ∀ char ∈ (paragraphs space isNewline text).foldl (candidate newline) [],
      char = newline ∨ char ∈ text := by
    intro char hchar
    refine ((mem_joined hchar).resolve_left List.not_mem_nil).imp_right fun hmem => ?_
    exact (sublist_paragraphs text).subset hmem
  generalize (paragraphs space isNewline text).foldl (candidate newline) [] = whole at *
  have hkeyed : ∀ window : Window, (!(window.of whole).all space) = true →
      (window.of whole).filterMap key ≠ [] := by
    intro window hfilled
    rw [Bool.not_eq_true', List.all_eq_false] at hfilled
    obtain ⟨char, hchar, hkept⟩ := hfilled
    cases hown char ((window.sublist whole).subset hchar) with
    | inl hseparator => exact absurd (hseparator ▸ hnewline) hkept
    | inr hmem =>
        obtain ⟨place, hplace⟩ := Option.ne_none_iff_exists'.mp (hkeys char hmem)
        exact List.ne_nil_of_mem (List.mem_filterMap.mpr ⟨char, hchar, hplace⟩)
  have hwindow : ∀ piece ∈ final.filter fun piece => !piece.all space,
      ∃ window : Window, piece = window.of whole ∧ (!(window.of whole).all space) = true := by
    intro piece hpiece
    obtain ⟨hmem, hfilled⟩ := List.mem_filter.mp hpiece
    rw [hcut.shown] at hmem
    obtain ⟨window, _, rfl⟩ := List.mem_map.mp hmem
    exact ⟨window, rfl, hfilled⟩
  exact {
    bounded := fun piece hpiece => hcut.bounded piece (List.mem_filter.mp hpiece).1
    keyed := by
      intro piece hpiece
      obtain ⟨window, rfl, hfilled⟩ := hwindow piece hpiece
      exact hkeyed window hfilled
    increasing := by
      intro piece hpiece
      obtain ⟨window, rfl, _⟩ := hwindow piece hpiece
      exact hwhole.sublist (window.sublist whole)
    ordered := by
      rw [hcut.shown, List.pairwise_filter, List.pairwise_map]
      exact hcut.ordered.imp fun hprecedes hfirst hsecond =>
        hprecedes.inOrder hwhole (hkeyed _ hfirst) (hkeyed _ hsecond)
    own := by
      intro piece hpiece char hchar
      obtain ⟨window, rfl, _⟩ := hwindow piece hpiece
      exact hown char ((window.sublist whole).subset hchar)
    covered := by
      intro char hchar hkept
      have hline : isNewline char = false := by
        by_contra hbroken
        rw [hbreak char (Bool.not_eq_false _ ▸ hbroken)] at hkept
        cases hkept
      have hheld : Holds ((paragraphs space isNewline text).foldl
          (addParagraph newline target overlap) {}) char :=
        holds_addAll (.inr (mem_paragraphs hchar hkept hline))
      obtain ⟨chunk, hchunk, hmem⟩ := hheld.close hkept
      obtain ⟨piece, hpiece, hfound⟩ := hcut.covered chunk hchunk char hmem
      refine ⟨piece, List.mem_filter.mpr ⟨hpiece, ?_⟩, hfound⟩
      rw [Bool.not_eq_true', List.all_eq_false]
      exact ⟨char, hfound, by simp [hkept]⟩ }

end Loops

end AgenticRag.LegacySplit
