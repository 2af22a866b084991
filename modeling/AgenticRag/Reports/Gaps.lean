import AgenticRag.Reports.Pairing

/-!
# What the knowledge gap report counts

The counting loop is the grouping of the gap pairs under their normalised questions, and
each group summarises its members.  The counts of the report follow from that.
-/

namespace AgenticRag.KnowledgeGaps

open AgenticRag.Grouping

/-! ## Gap pairs -/

/-- The answer has a thumbs-down in the feedback table. -/
def ThumbedDown (feedback : List FeedbackRow) (pair : Pair) : Prop :=
  ∃ row ∈ feedback, row.messageId = pair.answerId ∧ row.rating = "down"

instance (feedback : List FeedbackRow) (pair : Pair) :
    Decidable (ThumbedDown feedback pair) :=
  inferInstanceAs (Decidable (∃ row ∈ feedback, _))

/-- The answer is a gap by its text, or by the feedback on it. -/
def IsGap (lower : String → String) (feedback : List FeedbackRow) (pair : Pair) : Prop :=
  (classifyAnswer lower pair.answer).isSome ∨ ThumbedDown feedback pair

instance (lower : String → String) (feedback : List FeedbackRow) (pair : Pair) :
    Decidable (IsGap lower feedback pair) :=
  inferInstanceAs (Decidable (_ ∨ _))

def gapsOf (lower : String → String) (rows : List MessageRow)
    (feedback : List FeedbackRow) : List Pair :=
  (pairsOf rows).filter fun pair => IsGap lower feedback pair

/-- The group a pair belongs to. -/
def groupName (lower : String → String) (pair : Pair) : String :=
  normalizeQuestion lower pair.question

/-- The groups of the counting loop. -/
def groupsOf (lower : String → String) (rows : List MessageRow)
    (feedback : List FeedbackRow) : List (String × Group) :=
  (tallyOf lower (downsOf (pairsOf rows) feedback) (pairsOf rows)).groups

/-- The group counts its members and their askers, and its question, time and sample are
those of one member that none of the others was asked after. -/
structure Summarises (members : List Pair) (group : Group) : Prop where
  count : group.count = members.length
  users : group.users = (members.map (·.userId)).toFinset
  latest : ∃ pair ∈ members, group.question = pair.question ∧
    group.lastAsked = pair.askedAt ∧ group.sampleAnswer = pair.answer ∧
    ∀ other ∈ members, other.askedAt ≤ pair.askedAt

/-- The same of an item of the report, which shows how many asked and the head of the
sample. -/
structure ItemOf (members : List Pair) (item : Item) : Prop where
  count : item.count = members.length
  users : item.users = (members.map (·.userId)).toFinset.card
  latest : ∃ pair ∈ members, item.question = pair.question ∧
    item.lastAsked = pair.askedAt ∧
    item.sampleAnswer = String.ofList (pair.answer.toList.take sampleChars) ∧
    ∀ other ∈ members, other.askedAt ≤ pair.askedAt

/-- An item for each normalised question of the gap pairs, the most frequent first and among
equally frequent ones the one asked last. -/
structure Lists (lower : String → String) (gaps : List Pair)
    (entries : List (String × Item)) : Prop where
  distinct : (entries.map Prod.fst).Nodup
  named : ∀ name, name ∈ entries.map Prod.fst ↔ ∃ pair ∈ gaps, groupName lower pair = name
  summarised : ∀ entry ∈ entries, ItemOf (members (groupName lower) entry.1 gaps) entry.2
  sum : (entries.map fun entry => entry.2.count).sum = gaps.length
  sorted : entries.Pairwise fun left right => right.2.count < left.2.count ∨
    right.2.count = left.2.count ∧ right.2.lastAsked ≤ left.2.lastAsked

/-- The report over the gap pairs: of the items the first `limit` are shown. -/
structure Reports (lower : String → String) (rows : List MessageRow)
    (feedback : List FeedbackRow) (limit : ℕ) (report : Report) : Prop where
  total : report.totalQuestions = (pairsOf rows).length
  gaps : report.gapQuestions = (gapsOf lower rows feedback).length
  gaps_le : report.gapQuestions ≤ report.totalQuestions
  negative : report.negativeFeedback =
    (pairsOf rows).countP fun pair => ThumbedDown feedback pair
  negative_le : report.negativeFeedback ≤ report.gapQuestions
  items : ∃ entries, Lists lower (gapsOf lower rows feedback) entries ∧
    report.items = (entries.take limit).map Prod.snd

/-! ## The loops -/

section Loops

variable {lower : String → String} {rows : List MessageRow} {feedback : List FeedbackRow}
variable {downs : Uuid → Option (List String)} {pairs : List Pair} {pair : Pair}

theorem isSome_foldl_downStep (feedback : List FeedbackRow)
    (downs : Uuid → Option (List String)) (id : Uuid) :
    (feedback.foldl downStep downs id).isSome ↔
      (downs id).isSome ∨ ∃ row ∈ feedback, row.messageId = id := by
  induction feedback generalizing downs with
  | nil => simp
  | cons row rest ih =>
    rw [List.foldl_cons, ih]
    by_cases hid : row.messageId = id
    · simp [downStep, hid]
    · simp [downStep, hid, Ne.symm hid]

theorem downsOf_isSome_iff (hpair : pair ∈ pairs) :
    (downsOf pairs feedback pair.answerId).isSome ↔ ThumbedDown feedback pair := by
  rw [downsOf, isSome_foldl_downStep]
  constructor
  · intro hdown
    cases hdown with
    | inl hnone => cases hnone
    | inr hrow =>
      obtain ⟨row, hmem, hid⟩ := hrow
      obtain ⟨hrow, hkept⟩ := List.mem_filter.mp hmem
      exact ⟨row, hrow, hid, (of_decide_eq_true hkept).2⟩
  · rintro ⟨row, hrow, hid, hrating⟩
    have hasked : row.messageId ∈ pairs.map (·.answerId) :=
      List.mem_map.mpr ⟨pair, hpair, hid.symm⟩
    exact Or.inr ⟨row, List.mem_filter.mpr ⟨hrow, decide_eq_true ⟨hasked, hrating⟩⟩, hid⟩

theorem kindsOf_eq_empty_iff :
    kindsOf lower downs pair = ∅ ↔
      ¬ ((classifyAnswer lower pair.answer).isSome ∨ (downs pair.answerId).isSome) := by
  have htext : ∀ kind : Option GapKind, kind.toFinset = ∅ ↔ ¬ kind.isSome := by
    intro kind
    cases kind <;> simp
  have hdown : ∀ reasons : Option (List String),
      (if reasons.isSome then {GapKind.negativeFeedback} else (∅ : Finset GapKind)) = ∅ ↔
        ¬ reasons.isSome := by
    intro reasons
    cases reasons <;> simp
  rw [kindsOf, Finset.union_eq_empty, htext, hdown, not_or]

theorem tallyOf_snoc (lower : String → String) (downs : Uuid → Option (List String))
    (pairs : List Pair) (pair : Pair) :
    tallyOf lower downs (pairs ++ [pair]) =
      tallyStep lower downs (tallyOf lower downs pairs) pair := by
  simp only [tallyOf, List.foldl_append, List.foldl_cons, List.foldl_nil]

/-- The counting loop groups and counts the pairs that have a kind. -/
theorem tallyOf_eq (lower : String → String) (downs : Uuid → Option (List String))
    (pairs : List Pair) :
    let gaps := pairs.filter fun pair => kindsOf lower downs pair ≠ ∅
    tallyOf lower downs pairs =
      { groups := group (groupName lower) (counted lower downs) gaps
        gapQuestions := gaps.length
        negative := pairs.countP fun pair => (downs pair.answerId).isSome } := by
  induction pairs using List.reverseRecOn with
  | nil => rfl
  | append_singleton pairs pair ih =>
    intro gaps
    have hgaps : gaps = (pairs.filter fun pair => kindsOf lower downs pair ≠ ∅) ++
        [pair].filter fun pair => kindsOf lower downs pair ≠ ∅ :=
      List.filter_append _ _
    have hnegative : (pairs ++ [pair]).countP (fun pair => (downs pair.answerId).isSome) =
        if (downs pair.answerId).isSome then
          pairs.countP (fun pair => (downs pair.answerId).isSome) + 1
        else pairs.countP fun pair => (downs pair.answerId).isSome := by
      rw [List.countP_append, List.countP_singleton]
      split_ifs <;> rfl
    rw [tallyOf_snoc, ih, tallyStep, hnegative]
    by_cases hkinds : kindsOf lower downs pair = ∅
    · have hsame : gaps = pairs.filter fun pair => kindsOf lower downs pair ≠ ∅ := by
        rw [hgaps, List.filter_singleton]
        simp [hkinds]
      rw [if_pos hkinds, hsame]
    · have hmore : gaps = (pairs.filter fun pair => kindsOf lower downs pair ≠ ∅) ++
          [pair] := by
        rw [hgaps, List.filter_singleton]
        simp [hkinds]
      rw [if_neg hkinds, hmore, group_snoc, List.length_append, List.length_singleton]
      rfl

/-- The pairs with a kind are the gap pairs. -/
theorem filter_kindsOf (lower : String → String) (rows : List MessageRow)
    (feedback : List FeedbackRow) :
    ((pairsOf rows).filter fun pair =>
        kindsOf lower (downsOf (pairsOf rows) feedback) pair ≠ ∅) =
      gapsOf lower rows feedback := by
  apply List.filter_congr
  intro pair hpair
  rw [decide_eq_decide, ne_eq, kindsOf_eq_empty_iff, not_not, downsOf_isSome_iff hpair]
  rfl

theorem groupsOf_eq (lower : String → String) (rows : List MessageRow)
    (feedback : List FeedbackRow) :
    groupsOf lower rows feedback =
      group (groupName lower) (counted lower (downsOf (pairsOf rows) feedback))
        (gapsOf lower rows feedback) := by
  rw [groupsOf, tallyOf_eq, filter_kindsOf]

/-! ## A group and its members -/

theorem summarises_open (pair : Pair) :
    Summarises [pair] (counted lower downs pair none) where
  count := rfl
  users := rfl
  latest := by
    refine ⟨pair, List.mem_singleton_self pair, rfl, rfl, rfl, ?_⟩
    intro other hother
    rw [List.mem_singleton.mp hother]

/-- A later pair takes over the group, an earlier one is only counted. -/
theorem Summarises.step {inside : List Pair} {group : Group}
    (hgroup : Summarises inside group) (pair : Pair) :
    Summarises (inside ++ [pair]) (counted lower downs pair (some group)) := by
  obtain ⟨latest, hlatest, hquestion, hasked, hsample, hmost⟩ := hgroup.latest
  have hcount : (labelled pair (some group)).count = group.count := by
    rw [labelled]
    split_ifs <;> rfl
  have husers : (labelled pair (some group)).users = group.users := by
    rw [labelled]
    split_ifs <;> rfl
  refine { count := ?_, users := ?_, latest := ?_ }
  · rw [counted, hcount, hgroup.count, List.length_append, List.length_singleton]
  · rw [counted, husers, hgroup.users, List.map_append, List.toFinset_append,
      List.map_singleton, List.toFinset_cons, List.toFinset_nil, Finset.union_insert,
      Finset.union_empty]
  · by_cases hlater : group.lastAsked ≤ pair.askedAt
    · refine ⟨pair, List.mem_append_right _ (List.mem_singleton_self pair), ?_⟩
      rw [counted, labelled, if_pos hlater]
      refine ⟨rfl, rfl, rfl, ?_⟩
      intro other hother
      cases List.mem_append.mp hother with
      | inl hbefore => exact (hmost other hbefore).trans (hasked ▸ hlater)
      | inr hlast => rw [List.mem_singleton.mp hlast]
    · refine ⟨latest, List.mem_append_left _ hlatest, ?_⟩
      rw [counted, labelled, if_neg hlater]
      refine ⟨hquestion, hasked, hsample, ?_⟩
      intro other hother
      cases List.mem_append.mp hother with
      | inl hbefore => exact hmost other hbefore
      | inr hlast =>
        rw [List.mem_singleton.mp hlast, ← hasked]
        exact (not_le.mp hlater).le

theorem groupsOf_summarises {entry : String × Group}
    (hentry : entry ∈ groupsOf lower rows feedback) :
    Summarises (members (groupName lower) entry.1 (gapsOf lower rows feedback)) entry.2 := by
  rw [groupsOf_eq] at hentry
  exact group_induction summarises_open (fun _ _ pair hgroup => hgroup.step pair) hentry

theorem Summarises.item {inside : List Pair} {group : Group}
    (hgroup : Summarises inside group) : ItemOf inside group.item where
  count := hgroup.count
  users := by rw [Group.item, hgroup.users]
  latest := by
    obtain ⟨latest, hlatest, hquestion, hasked, hsample, hmost⟩ := hgroup.latest
    exact ⟨latest, hlatest, hquestion, hasked, by rw [Group.item, hsample], hmost⟩

/-! ## The order of the items -/

instance : Std.Total Precedes where
  total left right := by
    unfold Precedes
    omega

instance : IsTrans Group Precedes where
  trans first second third hfirst hsecond := by
    unfold Precedes at *
    omega

/-- The groups in the order of the report, under their names. -/
def entriesOf (groups : List (String × Group)) : List (String × Item) :=
  (groups.insertionSort fun left right => Precedes left.2 right.2).map
    fun entry => (entry.1, entry.2.item)

theorem entriesOf_perm (groups : List (String × Group)) :
    (entriesOf groups).Perm (groups.map fun entry => (entry.1, entry.2.item)) :=
  (List.perm_insertionSort (fun left right : String × Group => Precedes left.2 right.2)
    groups).map _

theorem map_snd_entriesOf (groups : List (String × Group)) :
    (entriesOf groups).map Prod.snd = (ordered groups).map Group.item := by
  rw [ordered, ← List.map_insertionSort (fun left right : String × Group =>
      Precedes left.2 right.2) Precedes Prod.snd groups (fun _ _ _ _ => Iff.rfl),
    entriesOf, List.map_map, List.map_map]
  rfl

theorem map_fst_entriesOf (groups : List (String × Group)) :
    ((entriesOf groups).map Prod.fst).Perm (groups.map Prod.fst) := by
  have hperm := (entriesOf_perm groups).map Prod.fst
  rwa [List.map_map] at hperm

theorem groupsOf_lists (lower : String → String) (rows : List MessageRow)
    (feedback : List FeedbackRow) :
    Lists lower (gapsOf lower rows feedback) (entriesOf (groupsOf lower rows feedback)) where
  distinct := by
    rw [(map_fst_entriesOf _).nodup_iff, groupsOf_eq]
    exact nodup_group _ _ _
  named := by
    intro name
    rw [(map_fst_entriesOf _).mem_iff, groupsOf_eq, mem_keys_iff]
  summarised := by
    intro entry hentry
    obtain ⟨source, hsource, rfl⟩ := List.mem_map.mp ((entriesOf_perm _).mem_iff.mp hentry)
    exact (groupsOf_summarises hsource).item
  sum := by
    have hcounts : ((groupsOf lower rows feedback).map fun entry => entry.2.count) =
        (groupsOf lower rows feedback).map fun entry =>
          (members (groupName lower) entry.1 (gapsOf lower rows feedback)).length :=
      List.map_congr_left fun entry hentry => (groupsOf_summarises hentry).count
    have hperm := (entriesOf_perm (groupsOf lower rows feedback)).map fun entry => entry.2.count
    rw [List.map_map] at hperm
    calc ((entriesOf (groupsOf lower rows feedback)).map fun entry => entry.2.count).sum
        = ((groupsOf lower rows feedback).map fun entry => entry.2.count).sum := hperm.sum_eq
      _ = (gapsOf lower rows feedback).length := by
          rw [hcounts, groupsOf_eq, sum_length_members]
  sorted := by
    have horder : (ordered (groupsOf lower rows feedback)).Pairwise Precedes :=
      List.pairwise_insertionSort _ _
    have hitems : ((entriesOf (groupsOf lower rows feedback)).map Prod.snd).Pairwise
        fun left right => right.count < left.count ∨
          right.count = left.count ∧ right.lastAsked ≤ left.lastAsked := by
      rw [map_snd_entriesOf]
      exact List.pairwise_map.mpr horder
    exact List.pairwise_map.mp hitems

end Loops

/-- The pairs of the report are exactly the answered questions, and the report counts the
groups of the gap pairs and shows the first of them in order. -/
theorem buildReport_exact (lower : String → String) (rate : ℕ → ℕ → ℚ) (days limit : ℕ)
    (rows : List MessageRow) (feedback : List FeedbackRow) :
    (∃ places, PairsAnswers rows (pairsOf rows) places) ∧
      Reports lower rows feedback limit (buildReport lower rate days limit rows feedback) := by
  set report := buildReport lower rate days limit rows feedback with hreport
  have htally := tallyOf_eq lower (downsOf (pairsOf rows) feedback) (pairsOf rows)
  have hgaps : report.gapQuestions = (gapsOf lower rows feedback).length := by
    rw [hreport, buildReport, htally, filter_kindsOf]
  have hnegative : report.negativeFeedback =
      (pairsOf rows).countP fun pair => ThumbedDown feedback pair := by
    rw [hreport, buildReport, htally]
    apply List.countP_congr
    intro pair hpair
    rw [decide_eq_true_eq, downsOf_isSome_iff hpair]
  refine ⟨exists_pairsAnswers rows, ?_⟩
  refine {
    total := rfl
    gaps := hgaps
    gaps_le := ?_
    negative := hnegative
    negative_le := ?_
    items := ⟨_, groupsOf_lists lower rows feedback, ?_⟩ }
  · rw [hgaps]
    exact List.length_filter_le _ _
  · rw [hnegative, hgaps, gapsOf, ← List.countP_eq_length_filter]
    apply List.countP_mono_left
    intro pair _ hdown
    exact decide_eq_true (Or.inr (of_decide_eq_true hdown))
  · rw [List.map_take, map_snd_entriesOf, ← List.map_take]
    rfl

/-- Three unanswered questions in two sessions, two of them the same but for their marks. -/
def unansweredRows : List MessageRow :=
  [⟨1, 10, .user, "wo?", 0, 5⟩, ⟨2, 10, .assistant, "", 1, 5⟩,
    ⟨3, 10, .user, "wann?", 2, 5⟩, ⟨4, 11, .user, "wann", 3, 6⟩,
    ⟨5, 10, .assistant, "", 4, 5⟩, ⟨6, 11, .assistant, "", 7, 6⟩]

theorem buildReport_exact_limited :
    Reports id unansweredRows [] 1 (buildReport id (fun _ _ => 1) 30 1 unansweredRows []) ∧
      (buildReport id (fun _ _ => 1) 30 1 unansweredRows []).items =
        [⟨"wann", 2, 2, 7, ["no_evidence"], "", []⟩] :=
  ⟨(buildReport_exact id (fun _ _ => 1) 30 1 unansweredRows []).2, by decide +kernel⟩

end AgenticRag.KnowledgeGaps
