import Mathlib.Algebra.Order.Ring.Nat
import Mathlib.Data.List.Basic

/-!
# Places of a list

What stands at a place of a list that grows by one item, or of which one item is replaced.
-/

namespace AgenticRag.Positions

variable {α : Type*} {list : List α} {place index : ℕ} {item old last value : α}

theorem getElem?_concat_iff : (list ++ [last])[index]? = some item ↔
    list[index]? = some item ∨ index = list.length ∧ last = item := by
  rcases Nat.lt_trichotomy index list.length with hbelow | hlast | habove
  · rw [List.getElem?_append_left hbelow]
    simp [Nat.ne_of_lt hbelow]
  · subst hlast
    simp
  · have hbeyond : (list ++ [last]).length ≤ index := by
      rw [List.length_append, List.length_singleton]
      exact habove
    rw [List.getElem?_eq_none hbeyond, List.getElem?_eq_none (Nat.le_of_lt habove)]
    simp [Nat.ne_of_gt habove]

/-- What stands in front of the last item was there before. -/
theorem getElem?_of_concat (hbelow : index < list.length)
    (hitem : (list ++ [last])[index]? = some item) : list[index]? = some item := by
  rwa [List.getElem?_append_left hbelow] at hitem

/-- After a replacement the new item stands at its place, and elsewhere what stood there. -/
theorem getElem?_set_cases (hold : list[place]? = some old)
    (hitem : (list.set place value)[index]? = some item) :
    index = place ∧ value = item ∨ index ≠ place ∧ list[index]? = some item := by
  by_cases hsame : index = place
  · have hplace := (List.getElem?_eq_some_iff.mp hold).1
    rw [hsame, List.getElem?_set_self hplace] at hitem
    exact .inl ⟨hsame, Option.some.inj hitem⟩
  · rw [List.getElem?_set_ne (Ne.symm hsame)] at hitem
    exact .inr ⟨hsame, hitem⟩

/-- A sum over a list of which one item is replaced. -/
theorem sum_map_set (weight : α → ℕ) (value : α) (hold : list[place]? = some old) :
    ((list.set place value).map weight).sum + weight old =
      (list.map weight).sum + weight value := by
  induction list generalizing place with
  | nil => cases hold
  | cons head rest ih =>
      cases place with
      | zero =>
          cases hold
          simp only [List.set_cons_zero, List.map_cons, List.sum_cons]
          omega
      | succ place =>
          have hrest := ih hold
          simp only [List.set_cons_succ, List.map_cons, List.sum_cons]
          omega

/-- The items of a kind in a list of which one item is replaced. -/
theorem countP_set_add (kind : α → Bool) (value : α) (hold : list[place]? = some old) :
    (list.set place value).countP kind + (if kind old then 1 else 0) =
      list.countP kind + (if kind value then 1 else 0) := by
  induction list generalizing place with
  | nil => cases hold
  | cons head rest ih =>
      cases place with
      | zero =>
          cases hold
          simp only [List.set_cons_zero, List.countP_cons]
          omega
      | succ place =>
          have hrest := ih hold
          simp only [List.set_cons_succ, List.countP_cons]
          omega

end AgenticRag.Positions
