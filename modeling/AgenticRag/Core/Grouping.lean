import Mathlib.Algebra.BigOperators.Group.List.Lemmas
import Mathlib.Algebra.GroupWithZero.Nat
import Mathlib.Data.List.Nodup

/-!
# Grouping a list under keys

A fold that puts every item of a list into the group of its key: the first item of a key
opens the group, a later one changes it in place.  The groups stand in the order in which
they were opened.
-/

namespace AgenticRag.Grouping

variable {α κ β : Type*} [DecidableEq κ]

/-- Change the value of a key; a new key goes to the end. -/
def alter (key : κ) (change : Option β → β) : List (κ × β) → List (κ × β)
  | [] => [(key, change none)]
  | (other, value) :: rest =>
      if other = key then (other, change (some value)) :: rest
      else (other, value) :: alter key change rest

/-- The groups of the items. -/
def group (key : α → κ) (change : α → Option β → β) (items : List α) : List (κ × β) :=
  items.foldl (fun groups item => alter (key item) (change item) groups) []

/-- The items of one key, in the order of the list. -/
def members (key : α → κ) (name : κ) (items : List α) : List α :=
  items.filter fun item => key item = name

theorem mem_members_iff {key : α → κ} {name : κ} {items : List α} {item : α} :
    item ∈ members key name items ↔ item ∈ items ∧ key item = name := by
  simp [members]

theorem members_snoc (key : α → κ) (name : κ) (items : List α) (item : α) :
    members key name (items ++ [item]) =
      if key item = name then members key name items ++ [item]
      else members key name items := by
  by_cases hname : key item = name <;> simp [members, hname]

section Alter

variable {key name : κ} {value : β} {change : Option β → β} {groups : List (κ × β)}

theorem map_fst_alter :
    (alter key change groups).map Prod.fst =
      if key ∈ groups.map Prod.fst then groups.map Prod.fst
      else groups.map Prod.fst ++ [key] := by
  induction groups with
  | nil => rfl
  | cons entry rest ih =>
    obtain ⟨other, old⟩ := entry
    by_cases hkey : other = key
    · rw [alter, if_pos hkey, if_pos (by simp [hkey]), List.map_cons, List.map_cons]
    · have hskip : key ∈ ((other, old) :: rest).map Prod.fst ↔ key ∈ rest.map Prod.fst := by
        rw [List.map_cons, List.mem_cons, or_iff_right (Ne.symm hkey)]
      rw [alter, if_neg hkey, List.map_cons, ih]
      simp only [hskip]
      split_ifs <;> rfl

theorem nodup_alter (hnodup : (groups.map Prod.fst).Nodup) :
    ((alter key change groups).map Prod.fst).Nodup := by
  rw [map_fst_alter]
  split_ifs with hkey
  · exact hnodup
  · rw [List.nodup_append_comm]
    exact List.nodup_cons.mpr ⟨hkey, hnodup⟩

/-- The entries after a change: the others are kept, and the changed one has its value
from the old one, if there was one. -/
theorem mem_alter (hmem : (name, value) ∈ alter key change groups)
    (hnodup : (groups.map Prod.fst).Nodup) :
    (name ≠ key ∧ (name, value) ∈ groups) ∨
      name = key ∧ ((key ∉ groups.map Prod.fst ∧ value = change none) ∨
        ∃ old, (key, old) ∈ groups ∧ value = change (some old)) := by
  induction groups with
  | nil =>
    rw [alter, List.mem_singleton, Prod.mk.injEq] at hmem
    exact Or.inr ⟨hmem.1, Or.inl ⟨List.not_mem_nil, hmem.2⟩⟩
  | cons entry rest ih =>
    obtain ⟨other, old⟩ := entry
    obtain ⟨hother, hrest⟩ := List.nodup_cons.mp hnodup
    by_cases hkey : other = key
    · rw [alter, if_pos hkey] at hmem
      subst hkey
      cases hmem with
      | head => exact Or.inr ⟨rfl, Or.inr ⟨old, List.mem_cons_self, rfl⟩⟩
      | tail _ hlater =>
        refine Or.inl ⟨?_, List.mem_cons_of_mem _ hlater⟩
        intro hname
        exact hother (List.mem_map.mpr ⟨(name, value), hlater, hname⟩)
    · rw [alter, if_neg hkey] at hmem
      cases hmem with
      | head => exact Or.inl ⟨hkey, List.mem_cons_self⟩
      | tail _ hlater =>
        have hskip : key ∉ rest.map Prod.fst →
            key ∉ ((other, old) :: rest).map Prod.fst := by
          intro hnone
          rw [List.map_cons, List.mem_cons, not_or]
          exact ⟨Ne.symm hkey, hnone⟩
        cases ih hlater hrest with
        | inl hkept => exact Or.inl ⟨hkept.1, List.mem_cons_of_mem _ hkept.2⟩
        | inr hchanged =>
          obtain ⟨hname, hvalue⟩ := hchanged
          refine Or.inr ⟨hname, ?_⟩
          cases hvalue with
          | inl hnew => exact Or.inl ⟨hskip hnew.1, hnew.2⟩
          | inr hold =>
            obtain ⟨before, hbefore, heq⟩ := hold
            exact Or.inr ⟨before, List.mem_cons_of_mem _ hbefore, heq⟩

end Alter

section Group

variable {key : α → κ} {change : α → Option β → β} {items : List α}

theorem group_snoc (items : List α) (item : α) :
    group key change (items ++ [item]) =
      alter (key item) (change item) (group key change items) := by
  rw [group, List.foldl_append]
  rfl

theorem nodup_group (key : α → κ) (change : α → Option β → β) (items : List α) :
    ((group key change items).map Prod.fst).Nodup := by
  induction items using List.reverseRecOn with
  | nil => exact List.nodup_nil
  | append_singleton items item ih =>
    rw [group_snoc]
    exact nodup_alter ih

/-- There is a group for exactly the keys of the items. -/
theorem mem_keys_iff {name : κ} :
    name ∈ (group key change items).map Prod.fst ↔ ∃ item ∈ items, key item = name := by
  induction items using List.reverseRecOn with
  | nil => simp [group]
  | append_singleton items item ih =>
    rw [group_snoc, map_fst_alter]
    have hlast : (∃ other ∈ items ++ [item], key other = name) ↔
        (∃ other ∈ items, key other = name) ∨ key item = name := by
      simp [or_and_right, exists_or]
    rw [hlast, ← ih]
    split_ifs with hknown
    · rw [iff_self_or]
      intro heq
      exact heq ▸ hknown
    · rw [List.mem_append, List.mem_singleton, eq_comm]

/-- A property of the value of a group and its members holds of every group, if it holds
when the group is opened and is kept by every further member. -/
theorem group_induction {Describes : List α → β → Prop}
    (hopen : ∀ item, Describes [item] (change item none))
    (hstep : ∀ inside value item, Describes inside value →
      Describes (inside ++ [item]) (change item (some value)))
    {name : κ} {value : β} (hmem : (name, value) ∈ group key change items) :
    Describes (members key name items) value := by
  induction items using List.reverseRecOn generalizing name value with
  | nil => cases hmem
  | append_singleton items item ih =>
    rw [group_snoc] at hmem
    rw [members_snoc]
    cases mem_alter hmem (nodup_group key change items) with
    | inl hkept =>
      rw [if_neg (Ne.symm hkept.1)]
      exact ih hkept.2
    | inr hchanged =>
      obtain ⟨rfl, hvalue⟩ := hchanged
      rw [if_pos rfl]
      cases hvalue with
      | inl hnew =>
        have hnone : members key (key item) items = [] := by
          rw [List.eq_nil_iff_forall_not_mem]
          intro other hother
          have hother' := mem_members_iff.mp hother
          exact hnew.1 (mem_keys_iff.mpr ⟨other, hother'⟩)
        rw [hnone, hnew.2]
        exact hopen item
      | inr hold =>
        obtain ⟨before, hbefore, heq⟩ := hold
        rw [heq]
        exact hstep _ before item (ih hbefore)

/-- The groups share out the items. -/
theorem sum_length_members (key : α → κ) (change : α → Option β → β) (items : List α) :
    ((group key change items).map fun entry => (members key entry.1 items).length).sum =
      items.length := by
  have hperm : ((group key change items).map Prod.fst).Perm (items.map key).dedup := by
    rw [List.perm_ext_iff_of_nodup (nodup_group key change items) (List.nodup_dedup _)]
    intro name
    rw [mem_keys_iff, List.mem_dedup, List.mem_map]
  have hcount : ∀ name, (members key name items).length = (items.map key).count name := by
    intro name
    rw [members, ← List.countP_eq_length_filter, List.count, List.countP_map]
    rfl
  calc ((group key change items).map fun entry => (members key entry.1 items).length).sum
      = (((group key change items).map Prod.fst).map fun name =>
          (items.map key).count name).sum := by
        rw [List.map_map]
        congr 1
        apply List.map_congr_left
        intro entry _
        exact hcount entry.1
    _ = ((items.map key).dedup.map fun name => (items.map key).count name).sum :=
        (hperm.map _).sum_eq
    _ = (items.map key).length := List.sum_map_count_dedup_eq_length _
    _ = items.length := List.length_map key

end Group

end AgenticRag.Grouping
