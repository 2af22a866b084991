import Mathlib.Data.List.Basic

/-!
# Items cut from a stream

A cutter takes the first complete item off the front of a text, and more text behind a
complete item does not change it.  A reader that gets the text in pieces and keeps what it
could not cut yet then finds the items of the whole text, however it is cut into pieces.
-/

namespace AgenticRag.Residual

structure Cutter (α β : Type*) where
  cut : List α → Option (β × List α)
  shorter : ∀ {text item rest}, cut text = some (item, rest) → rest.length < text.length
  stable : ∀ {text item rest}, cut text = some (item, rest) → ∀ more,
    cut (text ++ more) = some (item, rest ++ more)

variable {α β γ : Type*}

/-- The complete items of a text, and the text behind them. -/
def Cutter.drain (cutter : Cutter α β) (text : List α) : List β × List α :=
  match hcut : cutter.cut text with
  | none => ([], text)
  | some (item, rest) =>
      have := cutter.shorter hcut
      (item :: (cutter.drain rest).1, (cutter.drain rest).2)
  termination_by text.length

variable {cutter : Cutter α β} {text rest : List α} {item : β}

theorem Cutter.drain_of_none (hcut : cutter.cut text = none) :
    cutter.drain text = ([], text) := by
  rw [drain]
  split
  · rfl
  · next heq => rw [hcut] at heq; cases heq

theorem Cutter.drain_of_some (hcut : cutter.cut text = some (item, rest)) :
    cutter.drain text = (item :: (cutter.drain rest).1, (cutter.drain rest).2) := by
  rw [drain]
  split
  · next heq => rw [hcut] at heq; cases heq
  · next heq =>
    rw [hcut, Option.some.injEq, Prod.mk.injEq] at heq
    obtain ⟨rfl, rfl⟩ := heq
    rfl

/-- Induction along the items that are cut. -/
theorem Cutter.drain_induction {motive : List α → Prop}
    (stop : ∀ text, cutter.cut text = none → motive text)
    (step : ∀ text item rest, cutter.cut text = some (item, rest) → motive rest → motive text)
    (text : List α) : motive text := by
  induction hlength : text.length using Nat.strongRecOn generalizing text with
  | ind length ih =>
    cases hcut : cutter.cut text with
    | none => exact stop text hcut
    | some pair =>
      obtain ⟨item, rest⟩ := pair
      have hshorter := cutter.shorter hcut
      exact step text item rest hcut (ih rest.length (hlength ▸ hshorter) rest rfl)

/-- What is left can be completed by more text, what is cut cannot be changed by it. -/
theorem Cutter.drain_append (cutter : Cutter α β) (text more : List α) :
    cutter.drain (text ++ more) =
      ((cutter.drain text).1 ++ (cutter.drain ((cutter.drain text).2 ++ more)).1,
        (cutter.drain ((cutter.drain text).2 ++ more)).2) := by
  induction text using cutter.drain_induction with
  | stop text hcut => rw [drain_of_none hcut, List.nil_append]
  | step text item rest hcut ih =>
    rw [drain_of_some hcut, drain_of_some (cutter.stable hcut more), ih]
    rfl

/-- What is left is a part of the text. -/
theorem Cutter.drain_subset (cutter : Cutter α β)
    (hcut : ∀ {text item rest}, cutter.cut text = some (item, rest) → rest ⊆ text)
    (text : List α) : (cutter.drain text).2 ⊆ text := by
  induction text using cutter.drain_induction with
  | stop text hnone => rw [drain_of_none hnone]; exact List.Subset.refl text
  | step text item rest hsome ih =>
    rw [drain_of_some hsome]
    exact List.Subset.trans ih (hcut hsome)

/-- A text that is cut all the way, with more behind it. -/
theorem Cutter.drain_flatMap {items : List γ} {write : γ → List α} {read : γ → β}
    (hcut : ∀ item ∈ items, ∀ more, cutter.cut (write item ++ more) = some (read item, more))
    (hend : cutter.cut [] = none) :
    cutter.drain (items.flatMap write) = (items.map read, []) := by
  induction items with
  | nil => exact drain_of_none hend
  | cons item items ih =>
    rw [List.flatMap_cons, drain_of_some (hcut item List.mem_cons_self _),
      ih fun other hother => hcut other (List.mem_cons_of_mem item hother)]
    rfl

end AgenticRag.Residual
