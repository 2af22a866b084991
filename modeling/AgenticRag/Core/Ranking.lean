import Mathlib.Data.List.Sort

/-!
# The best of a list

A search that answers with the best items of a list, best first, and orders items of one
score as it likes.  A reader who takes the first item it accepts finds the best of those,
unless items it does not accept fill the answer.
-/

namespace AgenticRag.Ranking

variable {α κ : Type*} [LinearOrder κ]

/-- The answer is the head of an order of the items, best first. -/
def Top (score : α → κ) (limit : ℕ) (items response : List α) : Prop :=
  ∃ order : List α, order.Perm items ∧
    (order.Pairwise fun left right => score right ≤ score left) ∧
    response = order.take limit

section Reader

variable {score : α → κ} {accepts : α → Bool} {limit : ℕ} {items response order : List α}

/-- The items a reader does not accept and that are at least as good as a score. -/
def ahead (score : α → κ) (accepts : α → Bool) (least : κ) (item : α) : Bool :=
  least ≤ score item && !accepts item

/-- What is found is at least as good as any item the reader accepts, when fewer than
`limit` others are ahead of that one. -/
theorem exists_find?_take {best : α}
    (hsorted : order.Pairwise fun left right => score right ≤ score left)
    (hbest : best ∈ order) (haccepts : accepts best = true)
    (hfew : order.countP (ahead score accepts (score best)) < limit) :
    ∃ found, (order.take limit).find? accepts = some found ∧
      score best ≤ score found := by
  induction order generalizing limit with
  | nil => cases hbest
  | cons item rest ih =>
    obtain ⟨hitem, hrest⟩ := List.pairwise_cons.mp hsorted
    obtain ⟨below, rfl⟩ : ∃ below, limit = below + 1 :=
      Nat.exists_eq_add_one.mpr (Nat.zero_lt_of_lt hfew)
    have hbetter : score best ≤ score item := by
      cases hbest with
      | head => exact le_rfl
      | tail _ hlater => exact hitem best hlater
    by_cases htaken : accepts item = true
    · refine ⟨item, ?_, hbetter⟩
      rw [List.take_succ_cons, List.find?_cons_of_pos htaken]
    · have hlater : best ∈ rest := by
        cases hbest with
        | head => exact absurd haccepts htaken
        | tail _ hlater => exact hlater
      have hahead : ahead score accepts (score best) item = true := by
        simp [ahead, hbetter, htaken]
      rw [List.countP_cons_of_pos hahead] at hfew
      obtain ⟨found, hfound, hscore⟩ := ih hrest hlater (Nat.lt_of_succ_lt_succ hfew)
      refine ⟨found, ?_, hscore⟩
      rw [List.take_succ_cons, List.find?_cons_of_neg htaken, hfound]

theorem Top.exists_find? {best : α} (htop : Top score limit items response)
    (hbest : best ∈ items) (haccepts : accepts best = true)
    (hfew : items.countP (ahead score accepts (score best)) < limit) :
    ∃ found, response.find? accepts = some found ∧ score best ≤ score found := by
  obtain ⟨order, hperm, hsorted, rfl⟩ := htop
  rw [← hperm.countP_eq] at hfew
  exact exists_find?_take hsorted (hperm.mem_iff.mpr hbest) haccepts hfew

theorem Top.subset (htop : Top score limit items response) : response ⊆ items := by
  obtain ⟨order, hperm, -, rfl⟩ := htop
  intro item hitem
  exact hperm.mem_iff.mp (List.mem_of_mem_take hitem)

end Reader

section Answer

variable {score : α → κ} {limit : ℕ} {items response : List α}

theorem Top.pairwise (htop : Top score limit items response) :
    response.Pairwise fun left right => score right ≤ score left := by
  obtain ⟨order, -, hsorted, rfl⟩ := htop
  exact hsorted.sublist (List.take_sublist limit order)

theorem Top.length_eq (htop : Top score limit items response) :
    response.length = min limit items.length := by
  obtain ⟨order, hperm, -, rfl⟩ := htop
  rw [List.length_take, hperm.length_eq]

/-- An item is left out only of a full answer whose items are all at least as good. -/
theorem Top.left_out {item : α} (htop : Top score limit items response) (hitem : item ∈ items)
    (hout : item ∉ response) :
    response.length = limit ∧ ∀ hit ∈ response, score item ≤ score hit := by
  obtain ⟨order, hperm, hsorted, rfl⟩ := htop
  have horder : item ∈ order.take limit ++ order.drop limit := by
    rw [List.take_append_drop]
    exact hperm.mem_iff.mpr hitem
  have hlater : item ∈ order.drop limit := (List.mem_append.mp horder).resolve_left hout
  constructor
  · have hpositive := List.length_pos_of_mem hlater
    rw [List.length_drop] at hpositive
    rw [List.length_take]
    omega
  · intro hit hhit
    rw [← List.take_append_drop limit order, List.pairwise_append] at hsorted
    exact hsorted.2.2 hit hhit item hlater

end Answer

/-! ## The search that ranks what the reader does not accept first -/

section Adverse

variable (score : α → κ) (accepts : α → Bool)

/-- The better one first, and of one score the one that is not accepted. -/
def Leads (left right : α) : Prop :=
  score right < score left ∨
    score left = score right ∧ (accepts left = true → accepts right = true)

instance : DecidableRel (Leads score accepts) :=
  fun _ _ => inferInstanceAs (Decidable (_ ∨ _ ∧ (_ → _)))

instance : Std.Total (Leads score accepts) where
  total left right := by
    rcases lt_trichotomy (score left) (score right) with hlt | heq | hgt
    · exact Or.inr (Or.inl hlt)
    · by_cases hright : accepts right = true
      · exact Or.inl (Or.inr ⟨heq, fun _ => hright⟩)
      · exact Or.inr (Or.inr ⟨heq.symm, fun htaken => absurd htaken hright⟩)
    · exact Or.inl (Or.inl hgt)

instance : IsTrans α (Leads score accepts) where
  trans first second third hfirst hsecond := by
    cases hfirst with
    | inl hbetter =>
      cases hsecond with
      | inl hmore => exact Or.inl (hmore.trans hbetter)
      | inr htie => exact Or.inl (htie.1 ▸ hbetter)
    | inr htie =>
      cases hsecond with
      | inl hmore => exact Or.inl (htie.1 ▸ hmore)
      | inr hmore =>
        exact Or.inr ⟨htie.1.trans hmore.1, fun htaken => hmore.2 (htie.2 htaken)⟩

/-- The answer of the adverse search. -/
def adverse (limit : ℕ) (items : List α) : List α :=
  (items.insertionSort (Leads score accepts)).take limit

variable {score accepts} {limit : ℕ} {items order : List α}

theorem Leads.score_le {left right : α} (hleads : Leads score accepts left right) :
    score right ≤ score left := by
  cases hleads with
  | inl hbetter => exact hbetter.le
  | inr htie => exact htie.1.ge

theorem adverse_top (limit : ℕ) (items : List α) :
    Top score limit items (adverse score accepts limit items) := by
  refine ⟨_, List.perm_insertionSort _ items, ?_, rfl⟩
  exact (List.pairwise_insertionSort (Leads score accepts) items).imp Leads.score_le

/-- Nothing is accepted behind which `limit` others stand that are at least as good. -/
theorem not_accepts_of_mem_take {least : κ}
    (hsorted : order.Pairwise (Leads score accepts))
    (hmost : ∀ item ∈ order, accepts item = true → score item ≤ least)
    (hmany : limit ≤ order.countP (ahead score accepts least)) :
    ∀ item ∈ order.take limit, accepts item = false := by
  induction order generalizing limit with
  | nil => simp
  | cons first rest ih =>
    obtain ⟨hfirst, hrest⟩ := List.pairwise_cons.mp hsorted
    have hmostRest : ∀ item ∈ rest, accepts item = true → score item ≤ least :=
      fun item hitem => hmost item (List.mem_cons_of_mem first hitem)
    cases limit with
    | zero => simp
    | succ below =>
      have hnot : accepts first = false := by
        by_contra htaken
        rw [Bool.not_eq_false] at htaken
        have hnone : (first :: rest).countP (ahead score accepts least) = 0 := by
          rw [List.countP_eq_zero]
          intro item hitem hahead
          obtain ⟨hleast, hrefused⟩ : least ≤ score item ∧ accepts item = false := by
            simpa [ahead] using hahead
          cases hitem with
          | head => exact absurd htaken (by simp [hrefused])
          | tail _ hlater =>
            have hscore : score first ≤ score item :=
              (hmost first List.mem_cons_self htaken).trans hleast
            cases hfirst item hlater with
            | inl hbetter => exact absurd hbetter (not_lt.mpr hscore)
            | inr htie => exact absurd (htie.2 htaken) (by simp [hrefused])
        rw [hnone] at hmany
        exact absurd hmany (Nat.not_succ_le_zero below)
      have hmanyRest : below ≤ rest.countP (ahead score accepts least) := by
        have hstep : (first :: rest).countP (ahead score accepts least) ≤
            rest.countP (ahead score accepts least) + 1 := by
          rw [List.countP_cons]
          split_ifs <;> omega
        omega
      intro item hitem
      rw [List.take_succ_cons] at hitem
      cases hitem with
      | head => exact hnot
      | tail _ hlater => exact ih hrest hmostRest hmanyRest item hlater

/-- The adverse search answers with nothing the reader accepts. -/
theorem find?_adverse_eq_none {least : κ}
    (hmost : ∀ item ∈ items, accepts item = true → score item ≤ least)
    (hmany : limit ≤ items.countP (ahead score accepts least)) :
    (adverse score accepts limit items).find? accepts = none := by
  have hperm := List.perm_insertionSort (Leads score accepts) items
  rw [List.find?_eq_none]
  intro item hitem
  rw [Bool.not_eq_true]
  rw [← hperm.countP_eq] at hmany
  exact not_accepts_of_mem_take (List.pairwise_insertionSort _ items)
    (fun other hother => hmost other (hperm.mem_iff.mp hother)) hmany item hitem

end Adverse

end AgenticRag.Ranking
