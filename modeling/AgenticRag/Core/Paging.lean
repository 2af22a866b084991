import Mathlib.Data.Finset.Card
import Mathlib.Data.List.Sort

/-!
# Paging through a store that changes

A reader takes the items of a store in the order of their keys, one page at a time, and goes
on from the key that the last page names.  The store may change between two pages.  No key
is read twice, an item that stays is read, and what is read was there; the pages come to an
end when only finitely many keys ever occur.
-/

namespace Paging

variable {α κ : Type*} [LinearOrder κ] (key : α → κ) (limit : ℕ)

/-- The items from the offset on, in the order of their keys. -/
def ahead (offset : Option κ) (items : List α) : List α :=
  (items.filter fun item => offset.all (· ≤ key item)).insertionSort
    fun first second => key first ≤ key second

/-- A page, and the key at which the next one begins. -/
def page (offset : Option κ) (items : List α) : List α × Option κ :=
  ((ahead key offset items).take limit, ((ahead key offset items).drop limit).head?.map key)

/-- Where a reader stands and what it has read. -/
structure Reader (α κ : Type*) where
  offset : Option κ := none
  finished : Bool := false
  read : List α := []

/-- The reader takes its next page from the items that are there now. -/
def Reader.advance (reader : Reader α κ) (items : List α) : Reader α κ where
  offset := (page key limit reader.offset items).2
  finished := (page key limit reader.offset items).2.isNone
  read := reader.read ++ (page key limit reader.offset items).1

variable {key limit}

/-! ## One page -/

section Page

variable {offset : Option κ} {items : List α} {item : α}

theorem mem_ahead :
    item ∈ ahead key offset items ↔ item ∈ items ∧ ∀ first ∈ offset, first ≤ key item := by
  rw [ahead, List.mem_insertionSort, List.mem_filter]
  cases offset with
  | none => simp
  | some first => simp

theorem ahead_increasing (hkeys : (items.map key).Nodup) :
    (ahead key offset items).Pairwise fun first second => key first < key second := by
  have hsorted : (ahead key offset items).Pairwise fun first second =>
      key first ≤ key second := by
    have htotal : Std.Total fun first second : α => key first ≤ key second :=
      ⟨fun first second => le_total (key first) (key second)⟩
    have htrans : IsTrans α fun first second => key first ≤ key second :=
      ⟨fun _ _ _ => le_trans⟩
    exact List.pairwise_insertionSort _ _
  have hdistinct : ((ahead key offset items).map key).Nodup := by
    have hperm := (List.perm_insertionSort (fun first second => key first ≤ key second)
      (items.filter fun item => offset.all (· ≤ key item))).map key
    exact hperm.nodup_iff.mpr (hkeys.sublist (List.filter_sublist.map key))
  have hne := List.pairwise_map.mp hdistinct
  exact (hsorted.and hne).imp fun hboth => lt_of_le_of_ne hboth.1 hboth.2

/-- What is read was there. -/
theorem mem_page (hitem : item ∈ (page key limit offset items).1) :
    item ∈ items ∧ ∀ first ∈ offset, first ≤ key item :=
  mem_ahead.mp (List.mem_of_mem_take hitem)

/-- The last page holds all that is ahead. -/
theorem page_last (hlast : (page key limit offset items).2 = none)
    (hitem : item ∈ items) (hahead : ∀ first ∈ offset, first ≤ key item) :
    item ∈ (page key limit offset items).1 := by
  rw [page, Option.map_eq_none_iff, List.head?_eq_none_iff, List.drop_eq_nil_iff] at hlast
  rw [page, List.take_of_length_le hlast]
  exact mem_ahead.mpr ⟨hitem, hahead⟩

/-- Another page is full, and the next one begins behind it with a key that is there. -/
theorem page_next {first : κ} (hnext : (page key limit offset items).2 = some first) :
    (page key limit offset items).1.length = limit ∧
      ∃ item ∈ items, key item = first ∧
        ∃ rest, ahead key offset items = (page key limit offset items).1 ++ item :: rest := by
  obtain ⟨item, hhead, hfirst⟩ := Option.map_eq_some_iff.mp hnext
  obtain ⟨rest, hdrop⟩ := List.head?_eq_some_iff.mp hhead
  have hsplit := List.take_append_drop limit (ahead key offset items)
  rw [hdrop] at hsplit
  have hmem : item ∈ ahead key offset items := by
    rw [← hsplit]
    exact List.mem_append_right _ List.mem_cons_self
  refine ⟨?_, item, (mem_ahead.mp hmem).1, hfirst, rest, hsplit.symm⟩
  have hlength := congrArg List.length hdrop
  rw [List.length_drop, List.length_cons] at hlength
  rw [page, List.length_take]
  omega

theorem page_before {first : κ} (hkeys : (items.map key).Nodup)
    (hnext : (page key limit offset items).2 = some first)
    (hitem : item ∈ (page key limit offset items).1) : key item < first := by
  obtain ⟨_, next, _, hfirst, rest, hsplit⟩ := page_next hnext
  have hincreasing := @ahead_increasing _ _ _ key offset items hkeys
  rw [hsplit] at hincreasing
  rw [← hfirst]
  exact (List.pairwise_append.mp hincreasing).2.2 item hitem next List.mem_cons_self

/-- What is ahead is on the page or comes with the next one. -/
theorem page_covers {first : κ} (hkeys : (items.map key).Nodup)
    (hnext : (page key limit offset items).2 = some first) (hitem : item ∈ items)
    (hahead : ∀ start ∈ offset, start ≤ key item) :
    item ∈ (page key limit offset items).1 ∨ first ≤ key item := by
  obtain ⟨_, next, _, hfirst, rest, hsplit⟩ := page_next hnext
  have hincreasing := @ahead_increasing _ _ _ key offset items hkeys
  have hmem : item ∈ ahead key offset items := mem_ahead.mpr ⟨hitem, hahead⟩
  rw [hsplit] at hincreasing hmem
  cases List.mem_append.mp hmem with
  | inl hpage => exact .inl hpage
  | inr hrest =>
      refine .inr ?_
      rw [← hfirst]
      cases List.mem_cons.mp hrest with
      | inl hsame => rw [hsame]
      | inr hlater =>
          have hbehind := (List.pairwise_append.mp hincreasing).2.1
          exact le_of_lt (List.rel_of_pairwise_cons hbehind hlater)

end Page

/-! ## A reader among changes -/

section Reading

variable {reader : Reader α κ} {items : List α} {item : α}

/-- The reader has read its keys in order, and stands behind the last of them. -/
structure Ordered (key : α → κ) (reader : Reader α κ) : Prop where
  increasing : reader.read.Pairwise fun first second => key first < key second
  behind : reader.finished = false → ∀ item ∈ reader.read,
    ∃ first, reader.offset = some first ∧ key item < first

theorem ordered_start : Ordered key ({} : Reader α κ) where
  increasing := List.Pairwise.nil
  behind := by simp

theorem Ordered.advance (hordered : Ordered key reader) (hopen : reader.finished = false)
    (hkeys : (items.map key).Nodup) : Ordered key (reader.advance key limit items) := by
  have hbetween : ∀ item ∈ reader.read, ∀ found ∈ (page key limit reader.offset items).1,
      key item < key found := by
    intro item hitem found hfound
    obtain ⟨first, hoffset, hbefore⟩ := hordered.behind hopen item hitem
    exact lt_of_lt_of_le hbefore ((mem_page hfound).2 first hoffset)
  refine ⟨?_, ?_⟩
  · rw [Reader.advance, List.pairwise_append]
    refine ⟨hordered.increasing, ?_, hbetween⟩
    exact (ahead_increasing hkeys).sublist (List.take_sublist _ _)
  · intro hfinished item hitem
    obtain ⟨first, hnext⟩ : ∃ first, (page key limit reader.offset items).2 = some first := by
      rw [← Option.isSome_iff_exists]
      simpa [Reader.advance] using hfinished
    refine ⟨first, hnext, ?_⟩
    cases List.mem_append.mp hitem with
    | inl hread =>
        obtain ⟨start, hoffset, hbefore⟩ := hordered.behind hopen item hread
        obtain ⟨_, next, _, hfirst, rest, hsplit⟩ := page_next hnext
        have hmem : next ∈ ahead key reader.offset items := by
          rw [hsplit]
          exact List.mem_append_right _ List.mem_cons_self
        rw [← hfirst]
        exact lt_of_lt_of_le hbefore ((mem_ahead.mp hmem).2 start hoffset)
    | inr hfound => exact page_before hkeys hnext hfound

/-- The reader has the item, or has it still before it. -/
def Keeps (key : α → κ) (reader : Reader α κ) (item : α) : Prop :=
  item ∈ reader.read ∨ (reader.finished = false ∧ ∀ first ∈ reader.offset, first ≤ key item)

theorem keeps_start (item : α) : Keeps key ({} : Reader α κ) item :=
  .inr ⟨rfl, by simp⟩

/-- An item that is there while a page is taken is not lost. -/
theorem Keeps.advance (hkeeps : Keeps key reader item) (hkeys : (items.map key).Nodup)
    (hitem : item ∈ items) : Keeps key (reader.advance key limit items) item := by
  cases hkeeps with
  | inl hread => exact .inl (List.mem_append_left _ hread)
  | inr hahead =>
      cases hnext : (page key limit reader.offset items).2 with
      | none => exact .inl (List.mem_append_right _ (page_last hnext hitem hahead.2))
      | some first =>
          cases page_covers hkeys hnext hitem hahead.2 with
          | inl hpage => exact .inl (List.mem_append_right _ hpage)
          | inr hlater =>
              refine .inr ⟨?_, ?_⟩
              · rw [Reader.advance, hnext]
                rfl
              · intro start hstart
                rw [Reader.advance, hnext] at hstart
                rw [← Option.some.inj hstart]
                exact hlater

theorem Keeps.read (hkeeps : Keeps key reader item) (hfinished : reader.finished = true) :
    item ∈ reader.read := by
  cases hkeeps with
  | inl hread => exact hread
  | inr hahead => exact absurd (hfinished.symm.trans hahead.1) (by decide)

/-- The keys the reader has come across are among these. -/
structure Within (key : α → κ) (keys : Finset κ) (reader : Reader α κ) : Prop where
  read : ∀ item ∈ reader.read, key item ∈ keys
  offset : ∀ first ∈ reader.offset, first ∈ keys

omit [LinearOrder κ] in
theorem within_start (keys : Finset κ) : Within key keys ({} : Reader α κ) where
  read := by simp
  offset := by simp

theorem Within.advance {keys : Finset κ} (hwithin : Within key keys reader)
    (hitems : ∀ item ∈ items, key item ∈ keys) :
    Within key keys (reader.advance key limit items) := by
  refine ⟨?_, ?_⟩
  · intro item hitem
    cases List.mem_append.mp hitem with
    | inl hread => exact hwithin.read item hread
    | inr hfound => exact hitems item (mem_page hfound).1
  · intro first hfirst
    obtain ⟨_, next, hnext, hkey, _⟩ := page_next hfirst
    rw [← hkey]
    exact hitems next hnext

/-- A page that is not the last one is full. -/
theorem length_advance (hopen : (reader.advance key limit items).finished = false) :
    (reader.advance key limit items).read.length = reader.read.length + limit := by
  obtain ⟨first, hnext⟩ : ∃ first, (page key limit reader.offset items).2 = some first := by
    rw [← Option.isSome_iff_exists]
    simpa [Reader.advance] using hopen
  rw [Reader.advance, List.length_append, (page_next hnext).1]

/-- A reader that goes on has read fewer items than there are keys. -/
theorem length_lt_of_open {keys : Finset κ} {first : κ} (hordered : Ordered key reader)
    (hwithin : Within key keys reader) (hopen : reader.finished = false)
    (hoffset : reader.offset = some first) : reader.read.length < keys.card := by
  have hnodup : (reader.read.map key).Nodup := by
    refine List.pairwise_map.mpr ?_
    exact hordered.increasing.imp fun hlt => ne_of_lt hlt
  have hsub : (reader.read.map key).toFinset ⊂ keys := by
    refine (Finset.ssubset_iff_of_subset ?_).mpr ⟨first, hwithin.offset first hoffset, ?_⟩
    · intro value hvalue
      obtain ⟨item, hitem, rfl⟩ := List.mem_map.mp (List.mem_toFinset.mp hvalue)
      exact hwithin.read item hitem
    · intro hmem
      obtain ⟨item, hitem, hkey⟩ := List.mem_map.mp (List.mem_toFinset.mp hmem)
      obtain ⟨start, hstart, hbefore⟩ := hordered.behind hopen item hitem
      rw [hoffset] at hstart
      cases hstart
      exact absurd hkey (ne_of_lt hbefore)
  calc reader.read.length = (reader.read.map key).toFinset.card := by
        rw [List.toFinset_card_of_nodup hnodup, List.length_map]
    _ < keys.card := Finset.card_lt_card hsub

end Reading

end Paging
