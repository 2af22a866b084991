import AgenticRag.Chat.Thread

/-!
# Two turns of one session at the same time

Nothing orders the turns of a session.  Of the checkpointer it is assumed that a
run loads the latest saved state when it begins, works on its own copy, and saves
the copy with every step.
-/

namespace AgenticRag.Chat.Concurrent

open AgenticRag.Graph

/-- The two turns. -/
inductive Side where
  | left
  | right
  deriving DecidableEq

def Side.other : Side → Side
  | .left => .right
  | .right => .left

@[simp]
theorem Side.other_other (side : Side) : side.other.other = side := by
  cases side <;> rfl

theorem Side.other_ne (side : Side) : side.other ≠ side := by
  cases side <;> decide

theorem Side.eq_or_other (side later : Side) : side = later ∨ side = later.other := by
  cases side <;> cases later <;> simp [Side.other]

/-- A turn in progress with the state it loaded. -/
structure Active where
  input : TurnInput
  loaded : GraphState
  turn : Turn

/-- The messages the turn has added: the question and what its nodes wrote. -/
def Active.added (active : Active) : List Message :=
  ⟨.user, active.input.query⟩ ::
    active.turn.log.flatMap fun execution => execution.update.messages

/-- The latest checkpoint of the thread and the turns. -/
structure Session where
  saved : GraphState
  turns : Side → Option Active := fun _ => none

inductive Event where
  | begin (side : Side) (input : TurnInput)
  | node (side : Side) (services : Services)

def Event.side : Event → Side
  | .begin side _ => side
  | .node side _ => side

/-- A step of a turn: its copy becomes the latest checkpoint. -/
def Session.put (session : Session) (side : Side) (active : Active) : Session where
  saved := active.turn.state
  turns := Function.update session.turns side (some active)

@[simp]
theorem Session.put_self (session : Session) (side : Side) (active : Active) :
    (session.put side active).turns side = some active :=
  Function.update_self ..

@[simp]
theorem Session.put_other (session : Session) (side : Side) (active : Active) :
    (session.put side active).turns side.other = session.turns side.other :=
  Function.update_of_ne (Side.other_ne side) _ _

/-- `START` merges the input into the loaded state; it and every node save. -/
def step (settings : Settings) (session : Session) : Event → Option Session
  | .begin side input =>
      match session.turns side with
      | some _ => none
      | none => some (session.put side ⟨input, session.saved, start session.saved input⟩)
  | .node side services =>
      (session.turns side).bind fun active =>
        (Graph.step settings active.turn services).map fun turn =>
          session.put side { active with turn := turn }

/-- A run of the session from a saved state of the thread. -/
def run (settings : Settings) (initial : GraphState) (events : List Event) :
    Option Session :=
  Transition.exec (step settings) { saved := initial } events

/-- Both turns ran to `END`. -/
def Finished (session : Session) : Prop :=
  ∀ side, ∃ active, session.turns side = some active ∧ active.turn.Completed

/-- The thread has the messages of both turns, one turn after the other. -/
def Serial (initial : GraphState) (session : Session) : Prop :=
  ∃ first one two, session.turns first = some one ∧ session.turns first.other = some two ∧
    session.saved.messages = initial.messages ++ one.added ++ two.added

/-! ## The condition -/

/-- The turn begins when the other one has begun. -/
def BeginsSecond (later : Side) (session : Session) (event : Event) : Prop :=
  (∃ input, event = .begin later input) ∧ session.turns later.other ≠ none

/-- A node of the turn adds a message. -/
def Adds (settings : Settings) (side : Side) (session : Session) (event : Event) : Prop :=
  ∃ services active turn, event = .node side services ∧ session.turns side = some active ∧
    Graph.step settings active.turn services = some turn ∧
    turn.state.messages ≠ active.turn.state.messages

section Steps

variable {settings : Settings} {session next : Session} {event : Event}

/-- Everything a step can do. -/
theorem step_cases (hstep : step settings session event = some next) :
    (∃ side input, event = .begin side input ∧ session.turns side = none ∧
      next = session.put side ⟨input, session.saved, start session.saved input⟩) ∨
    ∃ side services active turn, event = .node side services ∧
      session.turns side = some active ∧
      Graph.step settings active.turn services = some turn ∧
      next = session.put side { active with turn := turn } := by
  cases event with
  | begin side input =>
      cases hturn : session.turns side with
      | some active => simp [step, hturn] at hstep
      | none =>
          simp only [step, hturn, Option.some.injEq] at hstep
          exact Or.inl ⟨side, input, rfl, hturn, hstep.symm⟩
  | node side services =>
      obtain ⟨active, hactive, hnode⟩ := Option.bind_eq_some_iff.mp hstep
      obtain ⟨turn, hturn, rfl⟩ := Option.map_eq_some_iff.mp hnode
      exact Or.inr ⟨side, services, active, turn, rfl, hactive, hturn, rfl⟩

/-- A node execution adds the messages of its update. -/
theorem added_step {active : Active} {turn : Turn} {services : Services}
    (hturn : Graph.step settings active.turn services = some turn) :
    ∃ messages, turn.state.messages = active.turn.state.messages ++ messages ∧
      ({ active with turn := turn } : Active).added = active.added ++ messages := by
  obtain ⟨node, update, effects, _, _, _, hstate, hlog⟩ := Graph.step_cases hturn
  refine ⟨update.messages, by rw [hstate]; rfl, ?_⟩
  simp [Active.added, hlog]

end Steps

/-! ## Copies and checkpoints -/

/-- The second turn loaded what the first one had added so far. -/
def Followed (initial : GraphState) (first second : Active) : Prop :=
  first.loaded.messages = initial.messages ∧
    ∃ seen, seen ≠ [] ∧ seen <+: first.added ∧
      second.loaded.messages = initial.messages ++ seen

/-- What holds of the copies of the turns and of the latest checkpoint. -/
structure Copies (initial : GraphState) (past : List Event) (session : Session) : Prop where
  copy : ∀ side active, session.turns side = some active →
    active.turn.state.messages = active.loaded.messages ++ active.added
  fresh : past = [] → session = { saved := initial }
  saved : ∀ event, past.getLast? = some event → ∃ active,
    session.turns event.side = some active ∧ session.saved = active.turn.state
  alone : ∀ side active, session.turns side = some active →
    session.turns side.other = none → active.loaded.messages = initial.messages
  both : ∀ side one two, session.turns side = some one →
    session.turns side.other = some two → Followed initial one two ∨ Followed initial two one

section Runs

variable {settings : Settings} {initial : GraphState} {past events : List Event}
variable {session next : Session}

/-- The latest checkpoint before a turn begins: the initial state, or the copy of
the other turn. -/
theorem Copies.saved_messages (hcopies : Copies initial past session) {side : Side}
    (hnone : session.turns side = none) :
    (session.turns side.other = none ∧ session.saved = initial) ∨
      ∃ first, session.turns side.other = some first ∧
        first.loaded.messages = initial.messages ∧
        session.saved.messages = initial.messages ++ first.added := by
  cases hlast : past.getLast? with
  | none =>
      left
      rw [hcopies.fresh (List.getLast?_eq_none_iff.mp hlast)]
      exact ⟨rfl, rfl⟩
  | some event =>
      right
      obtain ⟨first, hfirst, hsaved⟩ := hcopies.saved event hlast
      have hside : event.side = side.other := by
        rcases Side.eq_or_other event.side side with heq | heq
        · rw [heq, hnone] at hfirst
          cases hfirst
        · exact heq
      rw [hside] at hfirst
      have hloaded := hcopies.alone side.other first hfirst (by rw [Side.other_other, hnone])
      exact ⟨first, hfirst, hloaded, by
        rw [hsaved, hcopies.copy side.other first hfirst, hloaded]⟩

theorem Copies.begin (hcopies : Copies initial past session) {side : Side}
    {input : TurnInput} (hnone : session.turns side = none) :
    Copies initial (past ++ [.begin side input])
      (session.put side ⟨input, session.saved, start session.saved input⟩) := by
  have hloaded := hcopies.saved_messages hnone
  constructor
  · intro which active hactive
    rcases Side.eq_or_other which side with rfl | rfl
    · rw [Session.put_self] at hactive
      cases hactive
      rfl
    · rw [Session.put_other] at hactive
      exact hcopies.copy side.other active hactive
  · intro hempty
    simp at hempty
  · intro event hevent
    rw [List.getLast?_concat] at hevent
    cases hevent
    exact ⟨_, Session.put_self .., rfl⟩
  · intro which active hactive halone
    rcases Side.eq_or_other which side with rfl | rfl
    · rw [Session.put_self] at hactive
      cases hactive
      rw [Session.put_other] at halone
      rcases hloaded with ⟨_, hsaved⟩ | ⟨first, hfirst, _⟩
      · rw [hsaved]
      · rw [halone] at hfirst
        cases hfirst
    · rw [Side.other_other, Session.put_self] at halone
      cases halone
  · have hfollowed : ∀ first, session.turns side.other = some first →
        Followed initial first ⟨input, session.saved, start session.saved input⟩ := by
      intro first hfirst
      rcases hloaded with ⟨hnever, _⟩ | ⟨found, hfound, hinitial, hsaved⟩
      · rw [hnever] at hfirst
        cases hfirst
      · rw [hfound] at hfirst
        cases hfirst
        exact ⟨hinitial, first.added, by simp [Active.added], List.prefix_refl _, hsaved⟩
    intro which one two hone htwo
    rcases Side.eq_or_other which side with rfl | rfl
    · rw [Session.put_self] at hone
      cases hone
      rw [Session.put_other] at htwo
      exact Or.inr (hfollowed two htwo)
    · rw [Side.other_other, Session.put_self] at htwo
      cases htwo
      rw [Session.put_other] at hone
      exact Or.inl (hfollowed one hone)

theorem Copies.node (hcopies : Copies initial past session) {side : Side}
    {services : Services} {active : Active} {turn : Turn}
    (hactive : session.turns side = some active)
    (hturn : Graph.step settings active.turn services = some turn) :
    Copies initial (past ++ [.node side services])
      (session.put side { active with turn := turn }) := by
  obtain ⟨messages, hstate, hadded⟩ := added_step hturn
  have hfirst : ∀ second, Followed initial active second →
      Followed initial { active with turn := turn } second := by
    rintro second ⟨hinitial, seen, hne, hprefix, hsecond⟩
    exact ⟨hinitial, seen, hne, by rw [hadded]; exact hprefix.trans (List.prefix_append _ _),
      hsecond⟩
  have hsecond : ∀ first, Followed initial first active →
      Followed initial first { active with turn := turn } := fun first hfollowed => hfollowed
  constructor
  · intro which other hother
    rcases Side.eq_or_other which side with rfl | rfl
    · rw [Session.put_self] at hother
      cases hother
      rw [hadded, ← List.append_assoc, ← hcopies.copy which active hactive]
      exact hstate
    · rw [Session.put_other] at hother
      exact hcopies.copy side.other other hother
  · intro hempty
    simp at hempty
  · intro event hevent
    rw [List.getLast?_concat] at hevent
    cases hevent
    exact ⟨_, Session.put_self .., rfl⟩
  · intro which other hother halone
    rcases Side.eq_or_other which side with rfl | rfl
    · rw [Session.put_self] at hother
      cases hother
      rw [Session.put_other] at halone
      exact hcopies.alone which active hactive halone
    · rw [Side.other_other, Session.put_self] at halone
      cases halone
  · intro which one two hone htwo
    rcases Side.eq_or_other which side with rfl | rfl
    · rw [Session.put_self] at hone
      cases hone
      rw [Session.put_other] at htwo
      exact (hcopies.both which active two hactive htwo).imp (hfirst two) (hsecond two)
    · rw [Side.other_other, Session.put_self] at htwo
      cases htwo
      rw [Session.put_other] at hone
      exact (hcopies.both side.other one active hone
        (by rw [Side.other_other, hactive])).imp (hsecond one) (hfirst one)

theorem run_copies (hrun : run settings initial events = some session) :
    Copies initial events session := by
  apply Transition.exec_induction (motive := Copies initial) ?_ ?_ hrun
  · constructor
    · intro side active hactive
      cases hactive
    · intro _
      rfl
    · intro event hevent
      cases hevent
    · intro side active hactive
      cases hactive
    · intro side one two hone
      cases hone
  · intro past session event next _ hcopies hstep
    rcases step_cases hstep with ⟨side, input, rfl, hnone, rfl⟩ |
      ⟨side, services, active, turn, rfl, hactive, hturn, rfl⟩
    · exact hcopies.begin hnone
    · exact hcopies.node hactive hturn

/-! ## Which messages survive -/

/-- The turn that began second has loaded all messages of the other one. -/
def CaughtUp (initial : GraphState) (later : Side) (session : Session) : Prop :=
  ∃ first second, session.turns later.other = some first ∧
    session.turns later = some second ∧
    second.loaded.messages = initial.messages ++ first.added

theorem added_ne_nil (active : Active) : active.added ≠ [] := by
  simp [Active.added]

/-- The turn that made the last step, and the other one. -/
theorem last_writer (hrun : run settings initial events = some session)
    (hfinished : Finished session) :
    ∃ later first second, events.getLast?.map Event.side = some later ∧
      session.turns later.other = some first ∧ session.turns later = some second ∧
      session.saved.messages = second.loaded.messages ++ second.added ∧
      (Followed initial first second ∨ Followed initial second first) := by
  have hcopies := run_copies hrun
  cases hlast : events.getLast? with
  | none =>
      obtain ⟨active, hactive, _⟩ := hfinished .left
      rw [hcopies.fresh (List.getLast?_eq_none_iff.mp hlast)] at hactive
      cases hactive
  | some event =>
      obtain ⟨second, hsecond, hsaved⟩ := hcopies.saved event hlast
      obtain ⟨first, hfirst, _⟩ := hfinished event.side.other
      refine ⟨event.side, first, second, rfl, hfirst, hsecond, ?_, ?_⟩
      · rw [hsaved, hcopies.copy event.side second hsecond]
      · exact hcopies.both event.side.other first second hfirst
          (by rw [Side.other_other, hsecond])

/-- The messages of both turns survive exactly when the turn that made the last
step had loaded all messages of the other one. -/
theorem serial_iff_caughtUp (hrun : run settings initial events = some session)
    (hfinished : Finished session) :
    Serial initial session ↔ ∃ later, CaughtUp initial later session ∧
      events.getLast?.map Event.side = some later := by
  obtain ⟨later, first, second, hlast, hfirst, hsecond, hsaved, hfollowed⟩ :=
    last_writer hrun hfinished
  constructor
  · rintro ⟨start, one, two, hone, htwo, hserial⟩
    refine ⟨later, ⟨first, second, hfirst, hsecond, ?_⟩, hlast⟩
    -- both orders of the two turns have as many messages
    have hlengths : one.added.length + two.added.length =
        first.added.length + second.added.length := by
      rcases Side.eq_or_other start later with rfl | rfl
      · rw [hsecond] at hone
        rw [hfirst] at htwo
        cases hone
        cases htwo
        exact Nat.add_comm _ _
      · rw [Side.other_other, hsecond] at htwo
        rw [hfirst] at hone
        cases hone
        cases htwo
        rfl
    have hcount := congrArg List.length (hsaved.symm.trans hserial)
    simp only [List.length_append] at hcount
    rcases hfollowed with ⟨_, seen, _, hprefix, hloaded⟩ | ⟨hinitial, _⟩
    · rw [hloaded, List.length_append] at hcount
      have hseen : seen = first.added := hprefix.eq_of_length (by omega)
      rw [hloaded, hseen]
    · rw [hinitial] at hcount
      have hpositive := List.length_pos_of_ne_nil (added_ne_nil first)
      omega
  · rintro ⟨writer, ⟨one, two, hone, htwo, hcaught⟩, hwriter⟩
    rw [hlast] at hwriter
    cases hwriter
    rw [hsecond] at htwo
    cases htwo
    exact ⟨later.other, one, second, hone, by rw [Side.other_other, hsecond],
      by rw [hsaved, hcaught]⟩

/-- A turn that begins second has caught up at once. -/
theorem caughtUp_of_begins {later : Side} {event : Event}
    (hcopies : Copies initial past session)
    (hstep : step settings session event = some next)
    (hbegins : BeginsSecond later session event) : CaughtUp initial later next := by
  obtain ⟨⟨input, rfl⟩, hother⟩ := hbegins
  rcases step_cases hstep with ⟨side, given, heq, hnone, rfl⟩ |
    ⟨side, services, active, turn, heq, _⟩
  · cases heq
    rcases hcopies.saved_messages hnone with ⟨hnever, _⟩ | ⟨first, hfirst, _, hsaved⟩
    · exact absurd hnever hother
    · exact ⟨first, _, by rw [Session.put_other, hfirst], Session.put_self .., hsaved⟩
  · cases heq

/-- A message of the other turn is missed. -/
theorem not_caughtUp_of_adds {later : Side} {event : Event}
    (hcopies : Copies initial past session)
    (hstep : step settings session event = some next)
    (hadds : Adds settings later.other session event) : ¬ CaughtUp initial later next := by
  obtain ⟨services, active, turn, rfl, hactive, hturn, hnew⟩ := hadds
  rcases step_cases hstep with ⟨side, given, heq, _⟩ |
    ⟨side, given, other, after, heq, hother, hafter, rfl⟩
  · cases heq
  · cases heq
    rw [hactive] at hother
    cases hother
    rw [hturn] at hafter
    cases hafter
    rintro ⟨first, second, hfirst, hsecond, hcaught⟩
    rw [Session.put_self] at hfirst
    cases hfirst
    have hkept := Session.put_other session later.other { active with turn := turn }
    rw [Side.other_other] at hkept
    rw [hkept] at hsecond
    obtain ⟨messages, hstate, hadded⟩ := added_step hturn
    have hmore : messages ≠ [] := fun hempty => hnew (by rw [hstate, hempty, List.append_nil])
    have hpositive := List.length_pos_of_ne_nil hmore
    have hcount := congrArg List.length hcaught
    rw [hadded] at hcount
    simp only [List.length_append] at hcount
    rcases hcopies.both later.other active second hactive (by rw [Side.other_other, hsecond])
      with ⟨_, seen, _, hprefix, hloaded⟩ | ⟨hinitial, _⟩
    · have hseen := hprefix.length_le
      rw [hloaded, List.length_append] at hcount
      omega
    · rw [hinitial] at hcount
      omega

/-- Every other step keeps it as it is. -/
theorem caughtUp_keep {later : Side} {event : Event}
    (hcopies : Copies initial past session)
    (hstep : step settings session event = some next)
    (hbegins : ¬ BeginsSecond later session event)
    (hadds : ¬ Adds settings later.other session event) :
    CaughtUp initial later next ↔ CaughtUp initial later session := by
  rcases step_cases hstep with ⟨side, input, rfl, hnone, rfl⟩ |
    ⟨side, services, active, turn, rfl, hactive, hturn, rfl⟩
  · have hbefore : ¬ CaughtUp initial later session := by
      rintro ⟨first, second, hfirst, hsecond, _⟩
      rcases Side.eq_or_other side later with rfl | rfl
      · rw [hnone] at hsecond
        cases hsecond
      · rw [hnone] at hfirst
        cases hfirst
    refine iff_of_false ?_ hbefore
    rintro ⟨first, second, hfirst, hsecond, hcaught⟩
    rcases Side.eq_or_other side later with rfl | rfl
    · rw [Session.put_other] at hfirst
      exact hbegins ⟨⟨input, rfl⟩, by rw [hfirst]; simp⟩
    · have hkept := Session.put_other session later.other
        ⟨input, session.saved, start session.saved input⟩
      rw [Side.other_other] at hkept
      rw [hkept] at hsecond
      have hinitial := hcopies.alone later second hsecond hnone
      rw [hinitial] at hcaught
      exact added_ne_nil first (List.self_eq_append_right.mp hcaught)
  · obtain ⟨messages, hstate, hadded⟩ := added_step hturn
    rcases Side.eq_or_other side later with rfl | rfl
    · -- the later turn keeps what it loaded
      simp only [CaughtUp, Session.put_self, Session.put_other, hactive, Option.some.injEq,
        exists_eq_left', exists_and_left]
    · have hsilent : messages = [] := by
        by_contra hmore
        apply hadds
        refine ⟨services, active, turn, rfl, hactive, hturn, ?_⟩
        rw [hstate]
        simpa using hmore
      have hkept := Session.put_other session later.other { active with turn := turn }
      rw [Side.other_other] at hkept
      rw [hsilent, List.append_nil] at hadded
      constructor
      · rintro ⟨first, second, hfirst, hsecond, hcaught⟩
        rw [Session.put_self] at hfirst
        cases hfirst
        rw [hkept] at hsecond
        rw [hadded] at hcaught
        exact ⟨active, second, hactive, hsecond, hcaught⟩
      · rintro ⟨first, second, hfirst, hsecond, hcaught⟩
        rw [hactive] at hfirst
        cases hfirst
        exact ⟨{ active with turn := turn }, second, Session.put_self .., by rw [hkept, hsecond],
          by rw [hadded, hcaught]⟩

/-- Who has caught up, in terms of the steps. -/
theorem caughtUp_iff (hrun : run settings initial events = some session) (later : Side) :
    CaughtUp initial later session ↔
      Transition.Unanswered (step settings) { saved := initial } events (BeginsSecond later)
        (Adds settings later.other) := by
  have hstart : ¬ CaughtUp initial later { saved := initial } := by
    rintro ⟨first, second, hfirst, _⟩
    cases hfirst
  rw [Transition.holds_iff_unanswered (motive := CaughtUp initial later)
    (fun _ _ _ _ hpast hstep hbegins => caughtUp_of_begins (run_copies hpast) hstep hbegins)
    (fun _ _ _ _ hpast hstep hadds => not_caughtUp_of_adds (run_copies hpast) hstep hadds)
    (fun _ _ _ _ hpast hstep => caughtUp_keep (run_copies hpast) hstep) hrun]
  exact or_iff_right fun h => hstart h.1

/-- The thread ends with the messages of both turns, one after the other, exactly
when one of them began behind the other, no node of the other one added a message
from then on, and the last step of all was its own. -/
theorem run_serial_iff (hrun : run settings initial events = some session)
    (hfinished : Finished session) :
    Serial initial session ↔ ∃ later,
      Transition.Unanswered (step settings) { saved := initial } events (BeginsSecond later)
        (Adds settings later.other) ∧
      events.getLast?.map Event.side = some later := by
  rw [serial_iff_caughtUp hrun hfinished]
  exact exists_congr fun later => and_congr_left fun _ => caughtUp_iff hrun later

end Runs

/-! ## Two questions at once -/

/-- The cache answers every question. -/
def hitServices (answer : String) : Services :=
  { emptyServices with
    cacheLookup := fun _ _ => .ok (some ⟨answer, "", 1, {7}, {3}, []⟩) }

/-- A turn that the cache answers has three nodes. -/
def answering (side : Side) (answer : String) : List Event :=
  List.replicate 3 (.node side (hitServices answer))

def leftInput : TurnInput :=
  ⟨"Wann ist das Rathaus offen?", [7], "left"⟩

def rightInput : TurnInput :=
  ⟨"Wo ist das Bauamt?", [7], "right"⟩

/-- The right turn begins before the left one has its answer. -/
def overlapping : List Event :=
  [.begin .left leftInput, .begin .right rightInput] ++
    answering .left "Bis 16 Uhr." ++ answering .right "Im zweiten Stock."

/-- The right turn begins when the left one has ended. -/
def inTurn : List Event :=
  [.begin .left leftInput] ++ answering .left "Bis 16 Uhr." ++
    [.begin .right rightInput] ++ answering .right "Im zweiten Stock."

/-- Both turns have ended, for evaluation. -/
def bothEnded (session : Session) : Bool :=
  [Side.left, Side.right].all fun side =>
    (session.turns side).any fun active => active.turn.node == none

theorem finished_of_bothEnded {session : Session} (hended : bothEnded session = true) :
    Finished session := by
  simp only [bothEnded, List.all_cons, List.all_nil, Bool.and_true, Bool.and_eq_true,
    Option.any_eq_true, beq_iff_eq] at hended
  intro side
  cases side with
  | left => exact hended.1
  | right => exact hended.2

theorem run_serial_iff_inTurn :
    ∃ session, run {} {} inTurn = some session ∧
      (Serial {} session ↔ ∃ later,
        Transition.Unanswered (step {}) { saved := {} } inTurn (BeginsSecond later)
          (Adds {} later.other) ∧
        inTurn.getLast?.map Event.side = some later) := by
  have hrun : (run {} {} inTurn).map bothEnded = some true := by decide +kernel
  obtain ⟨session, hsession, hended⟩ := Option.map_eq_some_iff.mp hrun
  exact ⟨session, hsession, run_serial_iff hsession (finished_of_bothEnded hended)⟩

/-- The answer of the left turn is saved, and then overwritten by the copy of the
right turn, which was loaded before. -/
theorem run_not_serial :
    ¬ ∀ (settings : Settings) (initial : GraphState) (events : List Event)
        (session : Session), run settings initial events = some session →
      Finished session → Serial initial session := by
  intro hclaim
  have hrun : (run {} {} overlapping).map (fun session =>
      (bothEnded session, session.saved.messages.length,
        (session.turns .left).map (·.added.length),
        (session.turns .right).map (·.added.length))) =
      some (true, 3, some 2, some 2) := by
    decide +kernel
  obtain ⟨session, hsession, hresult⟩ := Option.map_eq_some_iff.mp hrun
  simp only [Prod.mk.injEq] at hresult
  obtain ⟨hended, hlength, hleft, hright⟩ := hresult
  obtain ⟨first, one, two, hone, htwo, hserial⟩ :=
    hclaim {} {} overlapping session hsession (finished_of_bothEnded hended)
  have hcount := congrArg List.length hserial
  rw [List.length_append, List.length_append, hlength] at hcount
  cases first with
  | left =>
      rw [hone] at hleft
      rw [show session.turns .right = some two from htwo] at hright
      simp only [Option.map_some, Option.some.injEq] at hleft hright
      omega
  | right =>
      rw [hone] at hright
      rw [show session.turns .left = some two from htwo] at hleft
      simp only [Option.map_some, Option.some.injEq] at hleft hright
      omega

end AgenticRag.Chat.Concurrent
