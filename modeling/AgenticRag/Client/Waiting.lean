import AgenticRag.Client.Desk

/-!
# What the desk waits for

The desk waits for the answer to a question, or for a session it opens.  A run whose number
is not the newest any more brings neither.
-/

namespace AgenticRag.ChatApp

open AgenticRag.Client (Text trim)
open Transition

variable {κ : Type}

/-! ## An answer that nobody awaits -/

/-- The desk waits for an answer, and no run can bring it one. -/
def Stranded (desk : Desk κ) : Prop :=
  desk.busy = true ∧ ∀ ask ∈ desk.asks, ask.my = desk.reqId → ask.ended = true

/-- The stream that is waited for ends without a done event and without an error; or a
session that was open when its deletion was asked for is deleted, and a question has been
asked since. -/
def Strands (desk : Desk κ) : Event κ → Prop
  | .deleted deletion (.ok ()) =>
      deletion.sid = some deletion.target ∧ deletion.busy = false ∧ desk.busy = true
  | .ended my => desk.busy = true ∧ my = desk.reqId
  | _ => False

/-- The actions that abort a stream. -/
def Frees (_ : Desk κ) : Event κ → Prop
  | .openSession _ | .newQuestion | .stop => True
  | .deleted deletion (.ok ()) => deletion.sid = some deletion.target ∧ deletion.busy = true
  | _ => False

section

variable {server : Server κ} {desk next : Desk κ}

theorem not_stranded_of_running {my : ℕ} {ask : Ask} (hrunning : desk.running? my = some ask)
    (hmy : desk.reqId = my) : ¬ Stranded desk := by
  rintro ⟨_, hended⟩
  obtain ⟨hask, rfl, hopen⟩ := running?_spec hrunning
  rw [hended ask hask hmy.symm] at hopen
  cases hopen

theorem not_stranded_of_idle (hidle : desk.busy = false) : ¬ Stranded desk := by
  rintro ⟨hbusy, _⟩
  rw [hidle] at hbusy
  cases hbusy

/-- A run goes on, whatever this changes but its number and its end. -/
theorem stranded_updateAsk (my : ℕ) (change : Ask → Ask) (hmy : ∀ ask, (change ask).my = ask.my)
    (hended : ∀ ask, (change ask).ended = ask.ended) (hbusy : next.busy = desk.busy)
    (hreqId : next.reqId = desk.reqId) (hasks : next.asks = (desk.updateAsk my change).asks) :
    Stranded next ↔ Stranded desk := by
  have hchange : ∀ ask : Ask, (if ask.my = my then change ask else ask).my = ask.my ∧
      (if ask.my = my then change ask else ask).ended = ask.ended := by
    intro ask
    split
    · exact ⟨hmy ask, hended ask⟩
    · exact ⟨rfl, rfl⟩
  rw [Stranded, Stranded, hbusy, hreqId, hasks]
  apply and_congr_right
  intro _
  constructor
  · intro hall ask hask hcurrent
    rw [← (hchange ask).2]
    exact hall _ (List.mem_map_of_mem hask) ((hchange ask).1.trans hcurrent)
  · intro hall ask hask hcurrent
    obtain ⟨old, hold, rfl⟩ := List.mem_map.mp hask
    rw [(hchange old).1] at hcurrent
    rw [(hchange old).2]
    exact hall old hold hcurrent

/-- The end of a stream leaves the desk waiting where it is the one that is waited for. -/
theorem stranded_ended (desk : Desk κ) (my : ℕ) :
    Stranded (desk.updateAsk my Ask.close) ↔
      (desk.busy = true ∧ my = desk.reqId) ∨ Stranded desk := by
  constructor
  · rintro ⟨hbusy, hended⟩
    by_cases hcurrent : my = desk.reqId
    · exact Or.inl ⟨hbusy, hcurrent⟩
    · refine Or.inr ⟨hbusy, ?_⟩
      intro ask hask hmy
      have hother : ¬ ask.my = my := fun hsame => hcurrent (hsame.symm.trans hmy)
      exact hended ask (List.mem_map.mpr ⟨ask, hask, if_neg hother⟩) hmy
  · intro hcase
    have hbusy : desk.busy = true := hcase.elim And.left And.left
    refine ⟨hbusy, ?_⟩
    intro ask hask hmy
    obtain ⟨old, hold, rfl⟩ := List.mem_map.mp hask
    split at hmy
    next hold' =>
        rw [if_pos hold']
        rfl
    next hother =>
        rw [if_neg hother]
        rcases hcase with ⟨_, hcurrent⟩ | hstranded
        · exact absurd (hmy.trans hcurrent.symm) hother
        · exact hstranded.2 old hold hmy

theorem stranded_newQuestion (hnumbered : Numbered desk) (busy : Bool) :
    Stranded (desk.newQuestion busy) ↔ busy = false ∧ desk.busy = true := by
  cases busy with
  | true => exact iff_of_false (not_stranded_of_idle rfl) (by simp)
  | false =>
      constructor
      · intro hstranded
        exact ⟨rfl, hstranded.1⟩
      · rintro ⟨_, hbusy⟩
        refine ⟨hbusy, ?_⟩
        intro ask hask hcurrent
        have hbound := hnumbered.asks ask hask
        have hlater : (desk.newQuestion false).reqId = desk.reqId + 1 := rfl
        omega

theorem step_stranded {event : Event κ} (hnumbered : Numbered desk)
    (hstep : step server desk event = some next) :
    Stranded next ↔ Strands desk event ∨ (Stranded desk ∧ ¬ Frees desk event) := by
  cases event with
  | openSession id =>
      cases hstep
      simp [Strands, Frees, not_stranded_of_idle (openSession_busy desk id)]
  | opened my result =>
      obtain ⟨_, _, _, rfl, _⟩ := step_opened hstep
      simp only [Strands, Frees, not_false_eq_true, and_true, false_or, Desk.opened]
      split
      next => cases result <;> rfl
      next => rfl
  | newQuestion =>
      cases hstep
      rw [stranded_newQuestion hnumbered]
      cases desk.busy <;> simp [Strands, Frees]
  | deleteSession target =>
      cases hstep
      simp only [Strands, Frees, not_false_eq_true, and_true, false_or]
      rfl
  | deleted deletion result =>
      obtain ⟨_, rfl⟩ := step_deleted hstep
      cases result with
      | error message =>
          simp only [Strands, Frees, not_false_eq_true, and_true, false_or]
          rfl
      | ok _ =>
          simp only [Strands, Frees, Desk.deleted]
          by_cases hopen : deletion.sid = some deletion.target
          · rw [if_pos hopen, stranded_newQuestion (hnumbered.unlist deletion)]
            have hbusy : (desk.unlist deletion).busy = desk.busy := rfl
            cases deletion.busy with
            | true => simp [hopen]
            | false =>
                simp only [hopen, hbusy, true_and, Bool.false_eq_true, not_false_eq_true,
                  and_false, and_true]
                exact (or_iff_left_of_imp And.left).symm
          · rw [if_neg hopen]
            simp only [hopen, false_and, not_false_eq_true, and_true, false_or]
            rfl
  | ask text =>
      cases hstep
      simp only [Strands, Frees, not_false_eq_true, and_true, false_or, Desk.ask]
      split
      next => rfl
      next hasked =>
          rw [not_or, Bool.not_eq_true] at hasked
          apply iff_of_false ?_ (not_stranded_of_idle hasked.2)
          rintro ⟨_, hended⟩
          have hnew := hended (desk.newAsk (trim text))
            (List.mem_append_right _ (List.mem_singleton_self _)) rfl
          cases hnew
  | onToken my token =>
      obtain ⟨ask, _, rfl⟩ := Option.map_eq_some_iff.mp hstep
      simp only [Strands, Frees, not_false_eq_true, and_true, false_or, Desk.onToken]
      split
      next =>
          exact stranded_updateAsk ask.my (Ask.receive token) (fun _ => rfl)
            (fun _ => rfl) rfl rfl rfl
      next => rfl
  | onDone my payload =>
      obtain ⟨ask, hrunning, _, _, rfl⟩ := step_onDone hstep
      obtain ⟨_, hmy, _⟩ := running?_spec hrunning
      simp only [Strands, Frees, not_false_eq_true, and_true, false_or, Desk.onDone]
      split
      next hcurrent =>
          exact iff_of_false (not_stranded_of_idle rfl)
            (not_stranded_of_running hrunning (hcurrent.trans hmy))
      next =>
          exact stranded_updateAsk ask.my Ask.answer (fun _ => rfl)
            (fun _ => rfl) rfl rfl rfl
  | onError my message =>
      obtain ⟨ask, hrunning, rfl⟩ := Option.map_eq_some_iff.mp hstep
      obtain ⟨_, hmy, _⟩ := running?_spec hrunning
      simp only [Strands, Frees, not_false_eq_true, and_true, false_or, Desk.onError]
      split
      next => rfl
      next =>
          split
          next hcurrent =>
              exact iff_of_false (not_stranded_of_idle rfl)
                (not_stranded_of_running hrunning (hcurrent.trans hmy))
          next => rfl
  | ended my =>
      obtain ⟨_, _, rfl⟩ := Option.map_eq_some_iff.mp hstep
      simp only [Strands, Frees, not_false_eq_true, and_true]
      exact stranded_ended desk my
  | stop =>
      obtain ⟨_, rfl⟩ := step_stop hstep
      have hidle : desk.stop.busy = false := rfl
      simp [Strands, Frees, not_stranded_of_idle hidle]
  | listed result =>
      simp only [Strands, Frees, not_false_eq_true, and_true, false_or]
      cases result <;> cases hstep <;> rfl

/-- In any run the desk waits in vain exactly when a stream has ended silently, or an open
session has been deleted after a question was asked, and since then nothing has aborted the
stream. -/
theorem run_stranded_iff {events : List (Event κ)}
    (hrun : exec (step server) {} events = some desk) :
    Stranded desk ↔ Unanswered (step server) {} events Strands Frees := by
  refine iff_unanswered (not_stranded_of_idle rfl) ?_ hrun
  intro past state event next hpast hstep
  exact step_stranded (numbered_of_run hpast) hstep

end

theorem run_stranded_iff_sample :
    ∃ desk, exec (step sampleServer) {} sampleEvents = some desk ∧
      (Stranded desk ↔ Unanswered (step sampleServer) {} sampleEvents Strands Frees) := by
  obtain ⟨desk, hrun⟩ := sample_runs
  exact ⟨desk, hrun, run_stranded_iff hrun⟩

/-! ## A session that nobody opens -/

/-- The thread is hidden until a session is there, and no run can bring it. -/
def Hanging (desk : Desk κ) : Prop :=
  desk.loadingSession = true ∧ ∀ opening ∈ desk.openings, opening.my ≠ desk.reqId

/-- A question is asked while a session is opened. -/
def Hangs (desk : Desk κ) : Event κ → Prop
  | .ask text => trim text ≠ [] ∧ desk.busy = false ∧ desk.loadingSession = true
  | _ => False

/-- The actions that open another thread. -/
def Settles (_ : Desk κ) : Event κ → Prop
  | .openSession _ | .newQuestion => True
  | .deleted deletion (.ok ()) => deletion.sid = some deletion.target
  | _ => False

section

variable {server : Server κ} {desk next : Desk κ}

theorem not_hanging_of_shown (hshown : desk.loadingSession = false) : ¬ Hanging desk := by
  rintro ⟨hloading, _⟩
  rw [hshown] at hloading
  cases hloading

theorem newQuestion_loadingSession (desk : Desk κ) (busy : Bool) :
    (desk.newQuestion busy).loadingSession = false := by
  cases busy <;> rfl

/-- With a new number no session is awaited any more. -/
theorem hanging_of_lt (hnumbered : Numbered desk) (hloading : next.loadingSession = true)
    (hopenings : next.openings = desk.openings) (hreqId : desk.reqId < next.reqId) :
    Hanging next := by
  refine ⟨hloading, ?_⟩
  rw [hopenings]
  intro opening hopening hmy
  have hbound := hnumbered.openings opening hopening
  omega

theorem step_hanging {event : Event κ} (hnumbered : Numbered desk)
    (hstep : step server desk event = some next) :
    Hanging next ↔ Hangs desk event ∨ (Hanging desk ∧ ¬ Settles desk event) := by
  cases event with
  | openSession id =>
      cases hstep
      have hnot : ¬ Hanging (desk.openSession id) := by
        rintro ⟨_, hnone⟩
        refine hnone ⟨(desk.openSession id).reqId, id⟩ ?_ rfl
        rw [openSession_openings]
        exact List.mem_append_right _ (List.mem_singleton_self _)
      simp [Hangs, Settles, hnot]
  | opened my result =>
      obtain ⟨opening, hopening, hmy, rfl, _⟩ := step_opened hstep
      simp only [Hangs, Settles, not_false_eq_true, and_true, false_or, Desk.opened]
      split
      next hcurrent =>
          have hnot : ¬ Hanging desk := by
            rintro ⟨_, hnone⟩
            exact hnone opening hopening (hmy.trans hcurrent.symm)
          cases result <;> exact iff_of_false (not_hanging_of_shown rfl) hnot
      next hstale =>
          rw [Hanging, Hanging]
          apply and_congr_right
          intro _
          constructor
          · intro hnone found hfound hcurrent
            refine hnone found (List.mem_filter.mpr ⟨hfound, ?_⟩) hcurrent
            exact decide_eq_true fun hsame => hstale (hcurrent.symm.trans hsame)
          · intro hnone found hfound
            exact hnone found (List.mem_of_mem_filter hfound)
  | newQuestion =>
      cases hstep
      simp [Hangs, Settles, not_hanging_of_shown (newQuestion_loadingSession desk desk.busy)]
  | deleteSession target =>
      cases hstep
      simp only [Hangs, Settles, not_false_eq_true, and_true, false_or]
      rfl
  | deleted deletion result =>
      obtain ⟨_, rfl⟩ := step_deleted hstep
      cases result with
      | error message =>
          simp only [Hangs, Settles, not_false_eq_true, and_true, false_or]
          rfl
      | ok _ =>
          simp only [Hangs, Settles, Desk.deleted, false_or]
          by_cases hopen : deletion.sid = some deletion.target
          · rw [if_pos hopen]
            exact iff_of_false
              (not_hanging_of_shown (newQuestion_loadingSession (desk.unlist deletion) _))
              fun hold => hold.2 hopen
          · rw [if_neg hopen]
            simp only [hopen, not_false_eq_true, and_true]
            rfl
  | ask text =>
      cases hstep
      simp only [Hangs, Settles, not_false_eq_true, and_true, Desk.ask]
      split
      next hrefused =>
          have hno : ¬ (trim text ≠ [] ∧ desk.busy = false ∧ desk.loadingSession = true) := by
            rintro ⟨hasked, hidle, _⟩
            rw [hidle] at hrefused
            simp [hasked] at hrefused
          simp only [hno, false_or]
      next hasked =>
          rw [not_or, Bool.not_eq_true] at hasked
          constructor
          · rintro ⟨hloading, _⟩
            exact Or.inl ⟨hasked.1, hasked.2, hloading⟩
          · intro hcase
            have hloading : desk.loadingSession = true :=
              hcase.elim (fun hhangs => hhangs.2.2) And.left
            refine hanging_of_lt hnumbered ?_ rfl (Nat.lt_succ_self _)
            exact hloading
  | onToken my token =>
      obtain ⟨ask, _, rfl⟩ := Option.map_eq_some_iff.mp hstep
      simp only [Hangs, Settles, not_false_eq_true, and_true, false_or, Desk.onToken]
      split <;> rfl
  | onDone my payload =>
      obtain ⟨ask, _, _, _, rfl⟩ := step_onDone hstep
      simp only [Hangs, Settles, not_false_eq_true, and_true, false_or, Desk.onDone]
      split <;> rfl
  | onError my message =>
      obtain ⟨ask, _, rfl⟩ := Option.map_eq_some_iff.mp hstep
      simp only [Hangs, Settles, not_false_eq_true, and_true, false_or, Desk.onError]
      split
      next => rfl
      next => split <;> rfl
  | ended my =>
      obtain ⟨_, _, rfl⟩ := Option.map_eq_some_iff.mp hstep
      simp only [Hangs, Settles, not_false_eq_true, and_true, false_or]
      rfl
  | stop =>
      obtain ⟨hbusy, rfl⟩ := step_stop hstep
      simp only [Hangs, Settles, not_false_eq_true, and_true, false_or]
      constructor
      · rintro ⟨hloading, _⟩
        refine ⟨hloading, ?_⟩
        intro opening hopening hmy
        rw [hnumbered.idle opening hopening hmy] at hbusy
        cases hbusy
      · rintro ⟨hloading, _⟩
        exact hanging_of_lt hnumbered hloading rfl (Nat.lt_succ_self _)
  | listed result =>
      simp only [Hangs, Settles, not_false_eq_true, and_true, false_or]
      cases result <;> cases hstep <;> rfl

/-- In any run the thread stays hidden exactly when a question has been asked while a
session was opened, and since then no other thread has been opened. -/
theorem run_hanging_iff {events : List (Event κ)}
    (hrun : exec (step server) {} events = some desk) :
    Hanging desk ↔ Unanswered (step server) {} events Hangs Settles := by
  refine iff_unanswered (not_hanging_of_shown rfl) ?_ hrun
  intro past state event next hpast hstep
  exact step_hanging (numbered_of_run hpast) hstep

end

theorem run_hanging_iff_sample :
    ∃ desk, exec (step sampleServer) {}
        [.openSession 8, .ask "Wie oft?".toList, .opened 1 (.ok [])] = some desk ∧
      (Hanging desk ↔ Unanswered (step sampleServer) {}
        [.openSession 8, .ask "Wie oft?".toList, .opened 1 (.ok [])] Hangs Settles) := by
  obtain ⟨desk, hrun⟩ := Option.isSome_iff_exists.mp
    (show (exec (step sampleServer) {}
      [.openSession 8, .ask "Wie oft?".toList, .opened 1 (.ok [])]).isSome = true by decide +kernel)
  exact ⟨desk, hrun, run_hanging_iff hrun⟩

end AgenticRag.ChatApp
