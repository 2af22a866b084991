import Mathlib.Data.List.Basic
import Mathlib.Data.List.Pairwise
import Mathlib.Order.Basic

/-!
# Windows of a list

A window is a stretch of a list named by where it starts and stops.  Two windows are in
order when the first neither starts nor stops behind the second; over a list whose keys
increase the same then holds of the keys that stand in them.
-/

namespace AgenticRag.Windows

structure Window where
  start : ℕ
  stop : ℕ

variable {α κ : Type*}

/-- What the window shows of a list. -/
def Window.of (window : Window) (whole : List α) : List α :=
  (whole.take window.stop).drop window.start

def Window.Precedes (first second : Window) : Prop :=
  first.start ≤ second.start ∧ first.stop ≤ second.stop

def Window.Inside (window : Window) (length : ℕ) : Prop :=
  window.start ≤ window.stop ∧ window.stop ≤ length

theorem Window.length_of {window : Window} {whole : List α}
    (hinside : window.Inside whole.length) :
    (window.of whole).length = window.stop - window.start := by
  rw [of, List.length_drop, List.length_take, Nat.min_eq_left hinside.2]

theorem Window.Inside.mono {window : Window} {length more : ℕ} (hinside : window.Inside length)
    (hless : length ≤ more) : window.Inside more :=
  ⟨hinside.1, Nat.le_trans hinside.2 hless⟩

/-- A window shows the same after the list has grown. -/
theorem Window.of_append {window : Window} {whole : List α}
    (hinside : window.Inside whole.length) (more : List α) :
    window.of (whole ++ more) = window.of whole := by
  rw [of, of, List.take_append_of_le_length hinside.2]

theorem Window.of_to_end (start : ℕ) (whole : List α) :
    Window.of ⟨start, whole.length⟩ whole = whole.drop start := by
  rw [of, List.take_length]

theorem Window.drop_of (window : Window) (whole : List α) (count : ℕ) :
    (window.of whole).drop count = Window.of ⟨window.start + count, window.stop⟩ whole := by
  rw [of, of, List.drop_drop]

theorem Window.take_of {window : Window} {count : ℕ}
    (hless : window.start + count ≤ window.stop) (whole : List α) :
    (window.of whole).take count = Window.of ⟨window.start, window.start + count⟩ whole := by
  rw [of, of, List.take_drop, List.take_take, Nat.min_eq_left hless]

theorem Window.mem_of_iff {window : Window} {whole : List α} {item : α} :
    item ∈ window.of whole ↔
      ∃ place, window.start ≤ place ∧ place < window.stop ∧ whole[place]? = some item := by
  rw [of, List.mem_iff_getElem?]
  constructor
  · intro hitem
    obtain ⟨offset, hoffset⟩ := hitem
    rw [List.getElem?_drop, List.getElem?_take] at hoffset
    split_ifs at hoffset with hless
    exact ⟨window.start + offset, Nat.le_add_right _ _, hless, hoffset⟩
  · intro hplace
    obtain ⟨place, hstart, hstop, hitem⟩ := hplace
    refine ⟨place - window.start, ?_⟩
    rw [List.getElem?_drop, Nat.add_sub_cancel' hstart, List.getElem?_take, if_pos hstop, hitem]

theorem Window.sublist (window : Window) (whole : List α) : (window.of whole).Sublist whole :=
  (List.drop_sublist _ _).trans (List.take_sublist _ _)

/-! ## Keys -/

section Keys

variable [Preorder κ] (key : α → Option κ)

/-- The keys of the list, where an item has one, increase. -/
def Increasing (whole : List α) : Prop :=
  (whole.filterMap key).Pairwise (· < ·)

/-- Neither begins nor ends the first part behind the second. -/
def InOrder (first second : List α) : Prop :=
  (∀ later ∈ second.filterMap key, ∃ earlier ∈ first.filterMap key, earlier ≤ later) ∧
    ∀ earlier ∈ first.filterMap key, ∃ later ∈ second.filterMap key, earlier ≤ later

variable {key}

theorem Increasing.sublist {part whole : List α} (hwhole : Increasing key whole)
    (hpart : part.Sublist whole) : Increasing key part :=
  List.Pairwise.sublist (hpart.filterMap key) hwhole

theorem Increasing.lt {whole : List α} (hwhole : Increasing key whole) {place later : ℕ}
    (hless : place < later) {one two : α} (hone : whole[place]? = some one)
    (htwo : whole[later]? = some two) {first second : κ} (hfirst : key one = some first)
    (hsecond : key two = some second) : first < second := by
  obtain ⟨hplace, rfl⟩ := List.getElem?_eq_some_iff.mp hone
  obtain ⟨hlater, rfl⟩ := List.getElem?_eq_some_iff.mp htwo
  rw [Increasing, List.pairwise_filterMap] at hwhole
  exact List.pairwise_iff_getElem.mp hwhole place later hplace hlater hless first hfirst
    second hsecond

/-- Windows in order show keys in order, if there are any. -/
theorem Window.Precedes.inOrder {first second : Window} {whole : List α}
    (hprecedes : first.Precedes second) (hwhole : Increasing key whole)
    (hfirst : (first.of whole).filterMap key ≠ [])
    (hsecond : (second.of whole).filterMap key ≠ []) :
    InOrder key (first.of whole) (second.of whole) := by
  constructor
  · intro later hlater
    obtain ⟨item, hitem, hkey⟩ := List.mem_filterMap.mp hlater
    obtain ⟨place, hstart, hstop, hplace⟩ := mem_of_iff.mp hitem
    by_cases hshared : place < first.stop
    · refine ⟨later, List.mem_filterMap.mpr ⟨item, ?_, hkey⟩, le_refl _⟩
      exact mem_of_iff.mpr ⟨place, Nat.le_trans hprecedes.1 hstart, hshared, hplace⟩
    · obtain ⟨earlier, hearlier⟩ := List.exists_mem_of_ne_nil _ hfirst
      obtain ⟨other, hother, hbefore⟩ := List.mem_filterMap.mp hearlier
      obtain ⟨spot, _, hspot, hfound⟩ := mem_of_iff.mp hother
      exact ⟨earlier, hearlier, (hwhole.lt (by omega) hfound hplace hbefore hkey).le⟩
  · intro earlier hearlier
    obtain ⟨item, hitem, hkey⟩ := List.mem_filterMap.mp hearlier
    obtain ⟨place, hstart, hstop, hplace⟩ := mem_of_iff.mp hitem
    by_cases hshared : second.start ≤ place
    · refine ⟨earlier, List.mem_filterMap.mpr ⟨item, ?_, hkey⟩, le_refl _⟩
      exact mem_of_iff.mpr ⟨place, hshared, Nat.lt_of_lt_of_le hstop hprecedes.2, hplace⟩
    · obtain ⟨later, hlater⟩ := List.exists_mem_of_ne_nil _ hsecond
      obtain ⟨other, hother, hbehind⟩ := List.mem_filterMap.mp hlater
      obtain ⟨spot, hspot, _, hfound⟩ := mem_of_iff.mp hother
      exact ⟨later, hlater, (hwhole.lt (by omega) hplace hfound hkey hbehind).le⟩

end Keys

end AgenticRag.Windows
