import Mathlib.Data.List.Sort

/-!
# Two ranked lists in turn

A stable sort by descending score of two lists that are ranked by the same decreasing
scores takes their items in turn, the first list first, until one of them is used up.
-/

namespace AgenticRag.Alternation

section Turns

variable {α β : Type*}

/-- An item of the first list, one of the second, and so on; then the rest of the longer
list. -/
def alternate : List α → List β → List (α ⊕ β)
  | [], second => second.map Sum.inr
  | item :: first, [] => (item :: first).map Sum.inl
  | item :: first, other :: second => .inl item :: .inr other :: alternate first second

@[simp]
theorem alternate_nil (first : List α) :
    alternate first ([] : List β) = first.map Sum.inl := by
  cases first <;> rfl

/-- The turns up to the shorter length, and the rests. -/
theorem alternate_eq_zip (first : List α) (second : List β) :
    alternate first second =
      (first.zip second).flatMap (fun pair => [.inl pair.1, .inr pair.2]) ++
        ((first.drop second.length).map Sum.inl ++ (second.drop first.length).map Sum.inr) := by
  induction first generalizing second with
  | nil => simp [alternate]
  | cons item first ih =>
    cases second with
    | nil => simp
    | cons other second => simp [alternate, ih]

end Turns

section Sorting

variable {γ κ : Type*} [LinearOrder κ] {key : γ → κ}

/-- Best first. -/
def Leads (key : γ → κ) (left right : γ) : Prop :=
  key right ≤ key left

instance : DecidableRel (Leads key) :=
  fun left right => inferInstanceAs (Decidable (key right ≤ key left))

/-- An item that is better than all in front of it, and than none behind it worse, comes
first. -/
theorem insertionSort_append_cons {front behind : List γ} {item : γ}
    (hfront : ∀ other ∈ front, key other < key item)
    (hbehind : ∀ other ∈ behind, key other ≤ key item) :
    (front ++ item :: behind).insertionSort (Leads key) =
      item :: (front ++ behind).insertionSort (Leads key) := by
  induction front with
  | nil => exact List.insertionSort_cons_of_forall_rel (Leads key) hbehind
  | cons other front ih =>
    have hnot : ¬ Leads key other item := not_le.mpr (hfront other List.mem_cons_self)
    have hlater := ih fun third hthird => hfront third (List.mem_cons_of_mem other hthird)
    rw [List.cons_append, List.insertionSort_cons, hlater,
      List.orderedInsert_of_not_le (Leads key) _ hnot]
    rfl

/-- One turn: of two lists with equal heads and worse tails the two heads come first. -/
theorem insertionSort_turn {first second : γ} {firsts seconds : List γ}
    (hsame : key first = key second) (hfirsts : ∀ other ∈ firsts, key other < key first)
    (hseconds : ∀ other ∈ seconds, key other < key second) :
    (first :: firsts ++ second :: seconds).insertionSort (Leads key) =
      first :: second :: (firsts ++ seconds).insertionSort (Leads key) := by
  have hbest : ∀ other ∈ firsts ++ second :: seconds, Leads key first other := by
    intro other hother
    cases List.mem_append.mp hother with
    | inl hfirst => exact (hfirsts other hfirst).le
    | inr hrest =>
      cases List.mem_cons.mp hrest with
      | inl heq => rw [heq, Leads, hsame]
      | inr hsecond => exact (hsame ▸ hseconds other hsecond).le
  calc (first :: firsts ++ second :: seconds).insertionSort (Leads key)
      = first :: (firsts ++ second :: seconds).insertionSort (Leads key) :=
        List.insertionSort_cons_of_forall_rel (Leads key) hbest
    _ = first :: second :: (firsts ++ seconds).insertionSort (Leads key) := by
        rw [insertionSort_append_cons (fun other hother => hsame ▸ hfirsts other hother)
          fun other hother => (hseconds other hother).le]

end Sorting

end AgenticRag.Alternation
