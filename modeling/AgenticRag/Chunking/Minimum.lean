import AgenticRag.Chunking.Pages

/-!
# The shortest chunk

The packer closes a window as soon as the next unit does not fit, however short the
window is; only the last window is compared with the minimum.
-/

namespace AgenticRag.Chunker

open AgenticRag.PyString

/-- The greedy rule closes no window below the minimum, except for the last closed one
when the rest is merged into it. -/
def ClosesFull (settings : ChunkSettings) (filling : Filling) : Prop :=
  ∀ before window after, filling.closed = before ++ window :: after →
    5 * window.length < 19 * settings.chunkMinTokens →
    after = [] ∧ filling.Merges settings.limits

theorem fill_current_ne_none (limits : Limits) (filling : Filling) (unit : Span) :
    (fill limits filling unit).current ≠ none := by
  rw [fill]
  cases filling.current with
  | none => exact Option.some_ne_none _
  | some window =>
      dsimp only
      split_ifs
      · exact Option.some_ne_none _
      · exact Option.some_ne_none _

theorem fillAll_empty {limits : Limits} {units : List Span}
    (hcurrent : (fillAll limits units).current = none) : (fillAll limits units).closed = [] := by
  cases List.eq_nil_or_concat units with
  | inl hnil =>
      rw [hnil]
      rfl
  | inr hconcat =>
      obtain ⟨seen, unit, rfl⟩ := hconcat
      rw [List.concat_eq_append, fillAll_concat] at hcurrent
      exact absurd hcurrent (fill_current_ne_none _ _ _)

/-- Among the windows only the last may be short, exactly when only full ones are closed. -/
theorem windowsOf_minimum_iff (settings : ChunkSettings) (units : List Span) :
    (∀ window ∈ (windowsOf settings.limits (fillAll settings.limits units)).dropLast,
      19 * settings.chunkMinTokens ≤ 5 * window.length) ↔
    ClosesFull settings (fillAll settings.limits units) := by
  have hempty := @fillAll_empty settings.limits units
  generalize fillAll settings.limits units = filling at *
  cases hcurrent : filling.current with
  | none =>
      have hclosed := hempty hcurrent
      rw [windowsOf, hcurrent, hclosed]
      refine iff_of_true (fun window hwindow => by cases hwindow) ?_
      intro before window after hsplit
      rw [hclosed] at hsplit
      simp at hsplit
  | some current =>
      by_cases hmerges : filling.Merges settings.limits
      · obtain ⟨before, last, window, hclosed, hwindow, hlast⟩ := id hmerges
        rw [windowsOf_merged hwindow hclosed hlast, List.dropLast_concat]
        constructor
        · intro hfull front short after hsplit hshort
          refine ⟨?_, hmerges⟩
          by_contra hafter
          obtain ⟨rest, final, rfl⟩ := List.eq_nil_or_concat after |>.resolve_left hafter
          rw [hclosed, List.concat_eq_append, ← List.cons_append, ← List.append_assoc] at hsplit
          obtain ⟨hbefore, _⟩ := List.append_inj' hsplit rfl
          have hlong := hfull short (hbefore ▸ List.mem_append_right _ List.mem_cons_self)
          omega
        · intro hfull short hmem
          by_contra hshort
          obtain ⟨front, after, hbefore⟩ := List.append_of_mem hmem
          obtain ⟨hafter, _⟩ := hfull front short (after ++ [last])
            (by rw [hclosed, hbefore]; simp) (Nat.lt_of_not_le hshort)
          exact concat_ne_nil after last hafter
      · rw [windowsOf_apart hcurrent fun before last hclosed hlast =>
          hmerges ⟨before, last, current, hclosed, hcurrent, hlast⟩, List.dropLast_concat]
        constructor
        · intro hfull before short after hsplit hshort
          have hlong := hfull short (hsplit ▸ List.mem_append_right _ List.mem_cons_self)
          omega
        · intro hfull short hmem
          by_contra hshort
          obtain ⟨before, after, hsplit⟩ := List.append_of_mem hmem
          exact hmerges (hfull before short after hsplit (Nat.lt_of_not_le hshort)).2

/-- A window is closed by a unit that does not fit beside it. -/
theorem fillAll_closed_long {limits : Limits} {bound : ℕ} {units : List Span}
    (hunits : ∀ unit ∈ units, bound + 5 * (unit.length + 2) ≤ 5 * limits.maxC) :
    ∀ window ∈ (fillAll limits units).closed, bound ≤ 5 * window.length := by
  induction units using List.reverseRecOn with
  | nil => exact fun window hwindow => absurd hwindow List.not_mem_nil
  | append_singleton seen unit ih =>
      obtain ⟨hseen, hunit⟩ := forall_mem_concat.mp hunits
      have hearlier := ih hseen
      rw [fillAll_concat]
      cases hcurrent : (fillAll limits seen).current with
      | none =>
          rw [fill_enter hcurrent]
          exact hearlier
      | some current =>
          by_cases hover : limits.maxC < current.length + 2 + unit.length
          · rw [fill_reopen hcurrent hover]
            exact forall_mem_concat.mpr ⟨hearlier, by omega⟩
          · rw [fill_extend hcurrent (Nat.le_of_not_lt hover)]
            exact hearlier

/-- Paragraphs that leave room for the minimum beside them never close a short window. -/
theorem closesFull_of_short (settings : ChunkSettings) {lengths : List ℕ}
    (hshort : ∀ length ∈ lengths,
      19 * settings.chunkMinTokens + 5 * (length + 2) ≤ 5 * settings.limits.maxC) :
    ClosesFull settings (fillParagraphs settings.limits lengths) := by
  have hfull : ∀ window ∈ (fillParagraphs settings.limits lengths).closed,
      19 * settings.chunkMinTokens ≤ 5 * window.length := by
    refine fillAll_closed_long fun unit hunit => ?_
    have hlengths := @spans_short settings.limits lengths
      (fun length hlength => by have := hshort length hlength; omega) 0
    exact hshort unit.length (hlengths ▸ List.mem_map_of_mem hunit)
  intro before window after hsplit hless
  have hlong := hfull window (hsplit ▸ List.mem_append_right _ List.mem_cons_self)
  omega

theorem chunkTextRun_lengths (settings : ChunkSettings) (isWord : Char → Bool)
    (run : List ParsedElement) :
    (chunkTextRun settings isWord run).map (fun chunk => chunk.rawContent.length) =
      (sectionWindows settings isWord run).map Window.length := by
  have hlengths := @packParagraphs_lengths _ settings.limits isSpace '\n' _
    (@paragraphsOf_ends isWord run)
  have hcontents := textChunks_contents settings (pageFor 0 (partsOf isWord run))
    (run.head?.bind ParsedElement.sectionTitle) 0
    (packText settings.limits (paragraphsOf (sectionText isWord run)))
  have hboth := congrArg (List.map List.length) hcontents
  rw [List.map_map, packText, hlengths, ← packText, ← chunkTextRun_eq] at hboth
  exact hboth

theorem forall_map_dropLast {α : Type*} {measure : α → ℕ} {items : List α} {bound : ℕ} :
    (∀ item ∈ items.dropLast, bound ≤ 5 * measure item) ↔
      ∀ length ∈ (items.map measure).dropLast, bound ≤ 5 * length := by
  rw [← List.map_dropLast, List.forall_mem_map]

/-- Every chunk of a section but the last has the minimum length exactly when the greedy
rule closes full windows only; so it has when every paragraph leaves room for the minimum
beside it. -/
theorem chunkTextRun_minimum_iff (settings : ChunkSettings) (isWord : Char → Bool)
    (run : List ParsedElement) :
    ((∀ chunk ∈ (chunkTextRun settings isWord run).dropLast,
        19 * settings.chunkMinTokens ≤ 5 * chunk.rawContent.length) ↔
      ClosesFull settings (fillParagraphs settings.limits
        ((paragraphsOf (sectionText isWord run)).map List.length))) ∧
    ((∀ paragraph ∈ paragraphsOf (sectionText isWord run),
        19 * settings.chunkMinTokens + 5 * (paragraph.length + 2) ≤
          5 * settings.limits.maxC) →
      ∀ chunk ∈ (chunkTextRun settings isWord run).dropLast,
        19 * settings.chunkMinTokens ≤ 5 * chunk.rawContent.length) := by
  have hminimum := windowsOf_minimum_iff settings (spans settings.limits 0
    ((paragraphsOf (sectionText isWord run)).map List.length))
  have hlengths := chunkTextRun_lengths settings isWord run
  have hiff : (∀ chunk ∈ (chunkTextRun settings isWord run).dropLast,
        19 * settings.chunkMinTokens ≤ 5 * chunk.rawContent.length) ↔
      ClosesFull settings (fillParagraphs settings.limits
        ((paragraphsOf (sectionText isWord run)).map List.length)) := by
    rw [fillParagraphs, ← hminimum,
      @forall_map_dropLast _ fun chunk : ChunkData => chunk.rawContent.length, hlengths,
      @forall_map_dropLast _ Window.length, ← fillParagraphs, ← sectionWindows]
  refine ⟨hiff, fun hshort => hiff.mpr (closesFull_of_short settings ?_)⟩
  intro length hlength
  obtain ⟨paragraph, hparagraph, rfl⟩ := List.mem_map.mp hlength
  exact hshort paragraph hparagraph

/-- Two paragraphs of 100 and 2270 characters: the text is long enough, and the first
chunk is its first paragraph. -/
theorem chunkTextRun_short_chunk :
    19 * ChunkSettings.default.chunkMinTokens ≤
        5 * (sectionText Char.isAlphanum
          [wordElement 'a' 100 none, wordElement 'b' 2270 none]).length ∧
    ¬ ∀ chunk ∈ (chunkTextRun ChunkSettings.default Char.isAlphanum
        [wordElement 'a' 100 none, wordElement 'b' 2270 none]).dropLast,
      19 * ChunkSettings.default.chunkMinTokens ≤ 5 * chunk.rawContent.length := by
  have hwords : ∀ element ∈ [wordElement 'a' 100 none, wordElement 'b' 2270 none],
      element.content ≠ [] ∧ ∀ char ∈ element.content, isSpace char = false := by
    simp only [List.forall_mem_cons, List.not_mem_nil, false_implies, implies_true, and_true]
    exact ⟨wordElement_unspaced rfl (by decide) _, wordElement_unspaced rfl (by decide) _⟩
  obtain ⟨hparts, hparagraphs⟩ :=
    paragraphsOf_unspaced Char.isAlphanum (List.cons_ne_nil _ _) hwords
  refine ⟨?_, fun hminimum => ?_⟩
  · rw [sectionText, hparts, List.map_map, List.map_cons, List.map_singleton, joined,
      List.intercalate_cons_cons, List.intercalate_singleton, List.length_append,
      List.length_append, length_blankLine]
    simp [ChunkSettings.default]
  · rw [@forall_map_dropLast _ fun chunk : ChunkData => chunk.rawContent.length,
      chunkTextRun_lengths, sectionWindows, hparagraphs, List.map_cons, List.map_singleton,
      List.map_cons, List.map_singleton, wordElement_length, wordElement_length, fillParagraphs,
      spans, spans, spans, cut_short (by decide), cut_short (by decide)] at hminimum
    revert hminimum
    decide

end AgenticRag.Chunker
