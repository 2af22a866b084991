import AgenticRag.Core.Positions
import AgenticRag.Reports.KnowledgeGaps

/-!
# Which question an answer is paired with

The dictionary of the pairing loop holds, for every session, the question that stands
unanswered after the rows read so far.  Rows are named by their place, so that two rows of
one content are told apart.
-/

namespace AgenticRag.KnowledgeGaps

open AgenticRag.Positions

/-- The row at `place` asks the last question of the session, and nothing of the session
but system messages follows. -/
structure OpenAt (rows : List MessageRow) (session : Uuid) (place : ℕ)
    (question : MessageRow) : Prop where
  row : rows[place]? = some question
  asks : question.role = .user
  inSession : question.sessionId = session
  last : ∀ later row, place < later → rows[later]? = some row → row.sessionId = session →
    row.role = .system

/-- The row at `second` answers the one at `first`: that is the last user message before it
in its session, and no other assistant message of the session lies between them. -/
structure Answers (rows : List MessageRow) (first second : ℕ)
    (question answer : MessageRow) : Prop where
  questionRow : rows[first]? = some question
  answerRow : rows[second]? = some answer
  before : first < second
  asks : question.role = .user
  answers : answer.role = .assistant
  session : question.sessionId = answer.sessionId
  between : ∀ place row, first < place → place < second → rows[place]? = some row →
    row.sessionId = answer.sessionId → row.role ≠ .user ∧ row.role ≠ .assistant

/-- The pairs are those of the answering rows, in the order of the answers, each made of
its two rows. -/
structure PairsAnswers (rows : List MessageRow) (pairs : List Pair)
    (places : List (ℕ × ℕ)) : Prop where
  made : List.Forall₂ (fun place pair => ∃ question answer,
    Answers rows place.1 place.2 question answer ∧
      pair = pairOf question.content answer) places pairs
  complete : ∀ first second question answer, Answers rows first second question answer →
    (first, second) ∈ places
  ordered : places.Pairwise fun left right => left.2 < right.2
  questionsOnce : (places.map Prod.fst).Nodup

section Places

variable {rows : List MessageRow} {row question other answer : MessageRow}
variable {session : Uuid} {first second place : ℕ}

theorem getElem?_lt (hrow : rows[place]? = some row) : place < rows.length :=
  (List.getElem?_eq_some_iff.mp hrow).1

/-- A session has at most one open question. -/
theorem OpenAt.unique (hquestion : OpenAt rows session first question)
    (hother : OpenAt rows session second other) : first = second ∧ question = other := by
  have hplace : first = second := by
    rcases Nat.lt_trichotomy first second with hlt | heq | hgt
    · have hsystem := hquestion.last second other hlt hother.row hother.inSession
      rw [hother.asks] at hsystem
      cases hsystem
    · exact heq
    · have hsystem := hother.last first question hgt hquestion.row hquestion.inSession
      rw [hquestion.asks] at hsystem
      cases hsystem
  refine ⟨hplace, ?_⟩
  have hrow := hquestion.row
  rw [hplace, hother.row] at hrow
  exact (Option.some.inj hrow).symm

/-- An open question was not answered before. -/
theorem OpenAt.not_answers {asked : MessageRow} (hopen : OpenAt rows session place question)
    (hanswers : Answers rows place second asked answer) : False := by
  have hasked : asked = question := by
    have hrow := hanswers.questionRow
    rw [hopen.row] at hrow
    exact (Option.some.inj hrow).symm
  have hsystem := hopen.last second answer hanswers.before hanswers.answerRow
    (hanswers.session.symm.trans (hasked ▸ hopen.inSession))
  rw [hanswers.answers] at hsystem
  cases hsystem

/-- After one more row a question is open that the row asks, or that was open before when
the row is none of the session or a system message. -/
theorem openAt_snoc_iff :
    OpenAt (rows ++ [row]) session place question ↔
      (place = rows.length ∧ question = row ∧ row.role = .user ∧
          row.sessionId = session) ∨
        OpenAt rows session place question ∧
          (row.sessionId = session → row.role = .system) := by
  constructor
  · intro hopen
    cases getElem?_concat_iff.mp hopen.row with
    | inl hrow =>
      refine Or.inr ⟨?_, ?_⟩
      · exact {
          row := hrow
          asks := hopen.asks
          inSession := hopen.inSession
          last := fun later other hlater hother =>
            hopen.last later other hlater (getElem?_concat_iff.mpr (Or.inl hother)) }
      · exact hopen.last rows.length row (getElem?_lt hrow)
          (getElem?_concat_iff.mpr (Or.inr ⟨rfl, rfl⟩))
    | inr hlast =>
      obtain ⟨hplace, rfl⟩ := hlast
      exact Or.inl ⟨hplace, rfl, hopen.asks, hopen.inSession⟩
  · intro hcases
    cases hcases with
    | inl hnew =>
      obtain ⟨rfl, rfl, hasks, hsession⟩ := hnew
      refine {
        row := getElem?_concat_iff.mpr (Or.inr ⟨rfl, rfl⟩)
        asks := hasks
        inSession := hsession
        last := ?_ }
      intro later other hlater hother
      cases getElem?_concat_iff.mp hother with
      | inl hold => exact absurd (getElem?_lt hold) (Nat.not_lt_of_gt hlater)
      | inr hend => exact absurd hend.1 (Nat.ne_of_gt hlater)
    | inr hold =>
      obtain ⟨hopen, hquiet⟩ := hold
      refine {
        row := getElem?_concat_iff.mpr (Or.inl hopen.row)
        asks := hopen.asks
        inSession := hopen.inSession
        last := ?_ }
      intro later other hlater hother hsession
      cases getElem?_concat_iff.mp hother with
      | inl hbefore => exact hopen.last later other hlater hbefore hsession
      | inr hend =>
        obtain ⟨-, rfl⟩ := hend
        exact hquiet hsession

/-- An answer to the rows so far, or the new row answering an open question. -/
theorem answers_snoc_iff :
    Answers (rows ++ [row]) first second question answer ↔
      Answers rows first second question answer ∨
        second = rows.length ∧ answer = row ∧ row.role = .assistant ∧
          OpenAt rows row.sessionId first question := by
  have hsilent : ∀ role : MessageRole, role ≠ .user ∧ role ≠ .assistant ↔ role = .system := by
    intro role
    cases role <;> decide
  constructor
  · intro hanswers
    have hbefore := hanswers.before
    cases getElem?_concat_iff.mp hanswers.answerRow with
    | inl hold =>
      have hquestion : rows[first]? = some question :=
        getElem?_of_concat (hbefore.trans (getElem?_lt hold)) hanswers.questionRow
      exact Or.inl {
        questionRow := hquestion
        answerRow := hold
        before := hbefore
        asks := hanswers.asks
        answers := hanswers.answers
        session := hanswers.session
        between := fun place other hfirst hsecond hother =>
          hanswers.between place other hfirst hsecond
            (getElem?_concat_iff.mpr (Or.inl hother)) }
    | inr hnew =>
      obtain ⟨rfl, rfl⟩ := hnew
      have hquestion : rows[first]? = some question :=
        getElem?_of_concat hbefore hanswers.questionRow
      refine Or.inr ⟨rfl, rfl, hanswers.answers, ?_⟩
      exact {
        row := hquestion
        asks := hanswers.asks
        inSession := hanswers.session
        last := fun later other hlater hother hsession =>
          (hsilent _).mp (hanswers.between later other hlater (getElem?_lt hother)
            (getElem?_concat_iff.mpr (Or.inl hother)) hsession) }
  · intro hcases
    cases hcases with
    | inl hold =>
      exact {
        questionRow := getElem?_concat_iff.mpr (Or.inl hold.questionRow)
        answerRow := getElem?_concat_iff.mpr (Or.inl hold.answerRow)
        before := hold.before
        asks := hold.asks
        answers := hold.answers
        session := hold.session
        between := by
          intro place other hfirst hsecond hother
          have hplace := hsecond.trans (getElem?_lt hold.answerRow)
          exact hold.between place other hfirst hsecond (getElem?_of_concat hplace hother) }
    | inr hnew =>
      obtain ⟨rfl, rfl, hassistant, hopen⟩ := hnew
      exact {
        questionRow := getElem?_concat_iff.mpr (Or.inl hopen.row)
        answerRow := getElem?_concat_iff.mpr (Or.inr ⟨rfl, rfl⟩)
        before := getElem?_lt hopen.row
        asks := hopen.asks
        answers := hassistant
        session := hopen.inSession
        between := by
          intro place other hfirst hsecond hother hsession
          have hrow := getElem?_of_concat hsecond hother
          exact (hsilent _).mpr (hopen.last place other hfirst hrow hsession) }

end Places

/-! ## The loop -/

section Loop

variable {rows : List MessageRow} {row question : MessageRow} {session : Uuid}

theorem pairing_snoc (rows : List MessageRow) (row : MessageRow) :
    pairing (rows ++ [row]) = pairStep (pairing rows) row := by
  rw [pairing, List.foldl_append]
  rfl

/-- The dictionary holds the open question of every session. -/
theorem lastQuestion_eq_iff {content : String} :
    (pairing rows).lastQuestion session = some content ↔
      ∃ place question, OpenAt rows session place question ∧ question.content = content := by
  induction rows using List.reverseRecOn generalizing content with
  | nil =>
    refine iff_of_false (Option.some_ne_none content).symm ?_
    rintro ⟨place, question, hopen, -⟩
    cases hopen.row
  | append_singleton rows row ih =>
    rw [pairing_snoc]
    by_cases hsession : row.sessionId = session
    · subst hsession
      cases hrole : row.role with
      | user =>
        have hstep : (pairStep (pairing rows) row).lastQuestion row.sessionId =
            some row.content := by
          simp [pairStep, hrole]
        rw [hstep, Option.some.injEq]
        constructor
        · intro hcontent
          exact ⟨rows.length, row, openAt_snoc_iff.mpr (Or.inl ⟨rfl, rfl, hrole, rfl⟩),
            hcontent⟩
        · rintro ⟨place, question, hopen, rfl⟩
          cases openAt_snoc_iff.mp hopen with
          | inl hnew => rw [hnew.2.1]
          | inr hold =>
            have hsystem := hold.2 rfl
            rw [hrole] at hsystem
            cases hsystem
      | assistant =>
        have hstep : (pairStep (pairing rows) row).lastQuestion row.sessionId = none := by
          cases hlast : (pairing rows).lastQuestion row.sessionId <;>
            simp [pairStep, hrole, hlast]
        rw [hstep]
        refine iff_of_false (Option.some_ne_none content).symm ?_
        rintro ⟨place, question, hopen, -⟩
        cases openAt_snoc_iff.mp hopen with
        | inl hnew =>
          have huser := hnew.2.2.1
          rw [hrole] at huser
          cases huser
        | inr hold =>
          have hsystem := hold.2 rfl
          rw [hrole] at hsystem
          cases hsystem
      | system =>
        have hstep : pairStep (pairing rows) row = pairing rows := by
          simp [pairStep, hrole]
        rw [hstep, ih]
        simp [openAt_snoc_iff, hrole]
    · have hstep : (pairStep (pairing rows) row).lastQuestion session =
          (pairing rows).lastQuestion session := by
        cases hrole : row.role with
        | user => simp [pairStep, hrole, Ne.symm hsession]
        | assistant =>
          cases hlast : (pairing rows).lastQuestion row.sessionId <;>
            simp [pairStep, hrole, hlast, Ne.symm hsession]
        | system => simp [pairStep, hrole]
      rw [hstep, ih]
      simp [openAt_snoc_iff, hsession]

/-- A row that answers no open question adds no pair. -/
theorem pairsOf_snoc_of_not_open
    (hnone : row.role = .assistant → ∀ place question,
      ¬ OpenAt rows row.sessionId place question) :
    pairsOf (rows ++ [row]) = pairsOf rows := by
  rw [pairsOf, pairing_snoc]
  cases hrole : row.role with
  | user => simp [pairStep, hrole, pairsOf]
  | system => simp [pairStep, hrole, pairsOf]
  | assistant =>
    have hlast : (pairing rows).lastQuestion row.sessionId = none := by
      rw [Option.eq_none_iff_forall_ne_some]
      intro content hcontent
      obtain ⟨place, question, hopen, -⟩ := lastQuestion_eq_iff.mp hcontent
      exact hnone hrole place question hopen
    simp [pairStep, hrole, hlast, pairsOf]

/-- An answer to an open question adds the pair of the two. -/
theorem pairsOf_snoc_of_open {place : ℕ} (hrole : row.role = .assistant)
    (hopen : OpenAt rows row.sessionId place question) :
    pairsOf (rows ++ [row]) = pairsOf rows ++ [pairOf question.content row] := by
  have hlast := lastQuestion_eq_iff.mpr ⟨place, question, hopen, rfl⟩
  rw [pairsOf, pairing_snoc]
  simp [pairStep, hrole, hlast, pairsOf]

theorem PairsAnswers.mem_iff {pairs : List Pair} {places : List (ℕ × ℕ)}
    (hpairs : PairsAnswers rows pairs places) {place : ℕ × ℕ} :
    place ∈ places ↔
      ∃ question answer, Answers rows place.1 place.2 question answer := by
  constructor
  · intro hplace
    obtain ⟨index, hindex, rfl⟩ := List.getElem_of_mem hplace
    obtain ⟨question, answer, hanswers, -⟩ := hpairs.made.get hindex
      (hpairs.made.length_eq ▸ hindex)
    exact ⟨question, answer, hanswers⟩
  · rintro ⟨question, answer, hanswers⟩
    exact hpairs.complete _ _ question answer hanswers

/-- The rows that are paired stay so behind one more row. -/
theorem PairsAnswers.made_snoc {pairs : List Pair} {places : List (ℕ × ℕ)}
    (hpairs : PairsAnswers rows pairs places) :
    List.Forall₂ (fun place pair => ∃ question answer,
      Answers (rows ++ [row]) place.1 place.2 question answer ∧
        pair = pairOf question.content answer) places pairs := by
  apply hpairs.made.imp
  rintro place pair ⟨question, answer, hanswers, hpair⟩
  exact ⟨question, answer, answers_snoc_iff.mpr (Or.inl hanswers), hpair⟩

/-- A new answer to an open question is paired with it. -/
theorem PairsAnswers.snoc {pairs : List Pair} {places : List (ℕ × ℕ)} {place : ℕ}
    (hpairs : PairsAnswers rows pairs places) (hrole : row.role = .assistant)
    (hopen : OpenAt rows row.sessionId place question) :
    PairsAnswers (rows ++ [row]) (pairs ++ [pairOf question.content row])
      (places ++ [(place, rows.length)]) := by
  have hnew : Answers (rows ++ [row]) place rows.length question row :=
    answers_snoc_iff.mpr (Or.inr ⟨rfl, rfl, hrole, hopen⟩)
  refine {
    made := List.rel_append hpairs.made_snoc
      (List.Forall₂.cons ⟨question, row, hnew, rfl⟩ List.Forall₂.nil)
    complete := ?_
    ordered := ?_
    questionsOnce := ?_ }
  · intro first second asked answer hanswers
    rw [List.mem_append, List.mem_singleton]
    cases answers_snoc_iff.mp hanswers with
    | inl hold => exact Or.inl (hpairs.complete _ _ asked answer hold)
    | inr hlast =>
      obtain ⟨rfl, -, -, hasked⟩ := hlast
      obtain ⟨rfl, -⟩ := hopen.unique hasked
      exact Or.inr rfl
  · rw [List.pairwise_append]
    refine ⟨hpairs.ordered, List.pairwise_singleton _ _, ?_⟩
    intro left hleft right hright
    rw [List.mem_singleton] at hright
    subst hright
    obtain ⟨_, _, hanswers⟩ := hpairs.mem_iff.mp hleft
    exact getElem?_lt hanswers.answerRow
  · rw [List.map_append, List.map_singleton, List.nodup_append_comm]
    refine List.nodup_cons.mpr ⟨?_, hpairs.questionsOnce⟩
    intro hmem
    obtain ⟨earlier, hearlier, hplace⟩ := List.mem_map.mp hmem
    obtain ⟨asked, answer, hanswers⟩ := hpairs.mem_iff.mp hearlier
    rw [hplace] at hanswers
    exact hopen.not_answers hanswers

/-- A row that answers no open question changes nothing. -/
theorem PairsAnswers.snoc_of_not_open {pairs : List Pair} {places : List (ℕ × ℕ)}
    (hpairs : PairsAnswers rows pairs places)
    (hnone : row.role = .assistant → ∀ place question,
      ¬ OpenAt rows row.sessionId place question) :
    PairsAnswers (rows ++ [row]) pairs places where
  made := hpairs.made_snoc
  complete first second asked answer hanswers := by
    cases answers_snoc_iff.mp hanswers with
    | inl hold => exact hpairs.complete _ _ asked answer hold
    | inr hlast => exact absurd hlast.2.2.2 (hnone hlast.2.2.1 first asked)
  ordered := hpairs.ordered
  questionsOnce := hpairs.questionsOnce

/-- The pairs of the rows are exactly the answered questions. -/
theorem exists_pairsAnswers (rows : List MessageRow) :
    ∃ places, PairsAnswers rows (pairsOf rows) places := by
  induction rows using List.reverseRecOn with
  | nil =>
    refine ⟨[], ?_⟩
    exact {
      made := List.Forall₂.nil
      complete := fun first second question answer hanswers => by
        cases hanswers.questionRow
      ordered := List.Pairwise.nil
      questionsOnce := List.nodup_nil }
  | append_singleton rows row ih =>
    obtain ⟨places, hpairs⟩ := ih
    by_cases hopens : row.role = .assistant ∧
        ∃ place question, OpenAt rows row.sessionId place question
    · obtain ⟨hrole, place, question, hopen⟩ := hopens
      rw [pairsOf_snoc_of_open hrole hopen]
      exact ⟨_, hpairs.snoc hrole hopen⟩
    · have hnone : row.role = .assistant → ∀ place question,
          ¬ OpenAt rows row.sessionId place question :=
        fun hrole place question hopen => hopens ⟨hrole, place, question, hopen⟩
      rw [pairsOf_snoc_of_not_open hnone]
      exact ⟨places, hpairs.snoc_of_not_open hnone⟩

end Loop

end AgenticRag.KnowledgeGaps
