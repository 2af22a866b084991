import Mathlib.Data.List.Basic

/-!
# Rows with keys

Looking a row up by its key among the rows that a reader may see.
-/

namespace AgenticRag.Keyed

variable {α κ : Type*} [DecidableEq κ] {rows : List α} {key : α → κ}

/-- No two rows have the same key. -/
def Unique (rows : List α) (key : α → κ) : Prop :=
  ∀ first ∈ rows, ∀ second ∈ rows, key first = key second → first = second

theorem find?_spec {wanted : κ} {row : α}
    (hfind : rows.find? (fun found => key found = wanted) = some row) :
    row ∈ rows ∧ key row = wanted := by
  have hkey := List.find?_some hfind
  exact ⟨List.mem_of_find?_eq_some hfind, of_decide_eq_true hkey⟩

/-- With unique keys the lookup finds the row that has the key. -/
theorem find?_eq_some {wanted : κ} {row : α} (hunique : Unique rows key) (hrow : row ∈ rows)
    (hkey : key row = wanted) :
    rows.find? (fun found => key found = wanted) = some row := by
  have hsome : (rows.find? fun found => key found = wanted).isSome = true := by
    rw [List.find?_isSome]
    exact ⟨row, hrow, decide_eq_true hkey⟩
  obtain ⟨found, hfound⟩ := Option.isSome_iff_exists.mp hsome
  obtain ⟨hmem, hfoundKey⟩ := find?_spec hfound
  rw [hfound, hunique found hmem row hrow (hfoundKey.trans hkey.symm)]

/-- A reader who sees some of the rows finds the same row, or none where the row is not
among those. -/
theorem find?_filter (hunique : Unique rows key) (keep : α → Bool) (wanted : κ) :
    (rows.filter keep).find? (fun row => key row = wanted) =
      (rows.find? fun row => key row = wanted).filter keep := by
  cases hfind : rows.find? (fun row => key row = wanted) with
  | none =>
      rw [Option.filter_none, List.find?_eq_none]
      intro row hrow
      exact List.find?_eq_none.mp hfind row (List.mem_of_mem_filter hrow)
  | some row =>
      obtain ⟨hmem, hkey⟩ := find?_spec hfind
      cases hkeep : keep row with
      | true =>
          rw [Option.filter_some_pos hkeep]
          apply find?_eq_some ?_ (List.mem_filter.mpr ⟨hmem, hkeep⟩) hkey
          intro first hfirst second hsecond
          exact hunique first (List.mem_of_mem_filter hfirst) second
            (List.mem_of_mem_filter hsecond)
      | false =>
          rw [Option.filter_some_neg (by rw [hkeep]),
            List.find?_eq_none]
          intro other hother hsame
          obtain ⟨hotherMem, hkept⟩ := List.mem_filter.mp hother
          have heq := hunique other hotherMem row hmem
            ((of_decide_eq_true hsame).trans hkey.symm)
          rw [heq, hkeep] at hkept
          cases hkept

end AgenticRag.Keyed
