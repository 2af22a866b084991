import Mathlib.Data.Finset.Sort
import Mathlib.Data.List.Sort

/-!
# Enumerating a finite set in increasing order

`ascending` is the list `sorted(s)`.  Insertion sort keeps it executable by
reduction, so that a definition built on it can be evaluated.
-/

namespace SortedSet

variable {α : Type*} [LinearOrder α]

theorem insertionSort_congr {left right : List α} (hperm : left.Perm right) :
    left.insertionSort (· ≤ ·) = right.insertionSort (· ≤ ·) := by
  apply List.Perm.eq_of_pairwise' (r := (· ≤ ·))
  · exact List.pairwise_insertionSort _ left
  · exact List.pairwise_insertionSort _ right
  · exact ((List.perm_insertionSort _ left).trans hperm).trans
      (List.perm_insertionSort _ right).symm

/-- The elements of a finite set, smallest first. -/
def ascending (set : Finset α) : List α :=
  Quot.liftOn set.val (fun list => list.insertionSort (· ≤ ·))
    fun _ _ => insertionSort_congr

theorem coe_ascending (set : Finset α) : (ascending set : Multiset α) = set.val := by
  obtain ⟨val, hnodup⟩ := set
  induction val using Quot.inductionOn with
  | h list =>
      exact Quot.sound (List.perm_insertionSort _ list)

@[simp]
theorem mem_ascending {set : Finset α} {element : α} :
    element ∈ ascending set ↔ element ∈ set := by
  rw [← Multiset.mem_coe, coe_ascending, Finset.mem_val]

/-- The enumeration determines the set. -/
theorem ascending_injective :
    Function.Injective (ascending : Finset α → List α) := by
  intro left right heq
  apply Finset.val_injective
  rw [← coe_ascending left, ← coe_ascending right, heq]

theorem ascending_pairwise (set : Finset α) : (ascending set).Pairwise (· < ·) := by
  have hsorted : (ascending set).Pairwise (· ≤ ·) := by
    obtain ⟨val, hnodup⟩ := set
    induction val using Quot.inductionOn with
    | h list => exact List.pairwise_insertionSort _ list
  have hnodup : (ascending set).Nodup := by
    rw [← Multiset.coe_nodup, coe_ascending]
    exact set.nodup
  exact (hsorted.and hnodup).imp fun h => lt_of_le_of_ne h.1 h.2

end SortedSet
