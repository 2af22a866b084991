import AgenticRag.Ingestion.Dispatch
import Mathlib.Data.Prod.Lex
import Mathlib.Order.WellFounded

/-!
# The worker comes to an end

Left alone, the worker runs out of work: every command lowers the attempts that
are left, or leaves them and comes nearer to the end of the attempt.
-/

namespace AgenticRag.Ingestion

/-- The commands of the loops of a run. -/
def Plan.size (plan : Plan) : ℕ :=
  2 * plan.figures.length + plan.chunks.length + plan.pages.length

/-- More than the number of commands still to come. -/
def Command.left (plan : Plan) : Command → ℕ
  | .stageParsing => plan.size + 20
  | .readDocument => plan.size + 19
  | .ensureBuckets => plan.size + 18
  | .ensureCollection => plan.size + 17
  | .deleteRows => plan.size + 16
  | .deletePoints => plan.size + 15
  | .deleteObjects => plan.size + 14
  | .parse => plan.size + 13
  | .stageCaptioning _ _ rest =>
      2 * rest.length + plan.chunks.length + plan.pages.length + 12
  | .putFigure _ _ rest => 2 * rest.length + plan.chunks.length + plan.pages.length + 11
  | .buildChunks => plan.chunks.length + plan.pages.length + 10
  | .stageIndexing => plan.chunks.length + plan.pages.length + 9
  | .embed rest => rest.length + plan.pages.length + 8
  | .upsertPoints => plan.pages.length + 7
  | .ensurePages => plan.pages.length + 6
  | .clearPages => plan.pages.length + 5
  | .renderPages => plan.pages.length + 4
  | .putPage _ rest => rest.length + 3
  | .upsertPages => 2
  | .commit => 1

theorem Command.left_next {plan : Plan} {pagePass : Bool} {command following : Command}
    (hnext : command.next plan pagePass = some following) :
    following.left plan < command.left plan := by
  cases command with
  | parse =>
      cases hnext
      cases hfigures : plan.figures with
      | nil => simp [figuresFrom, left, Plan.size, hfigures]
      | cons page rest =>
          simp only [figuresFrom, left, Plan.size, hfigures, List.length_cons]
          omega
  | putFigure count page rest =>
      cases hnext
      cases rest with
      | nil => simp [figuresFrom, left]
      | cons page rest =>
          simp only [figuresFrom, left, List.length_cons]
          omega
  | stageIndexing =>
      cases hnext
      cases hchunks : plan.chunks <;> simp [embedFrom, left, hchunks]
  | embed rest =>
      cases hnext
      cases rest <;> simp [embedFrom, left]
  | upsertPoints =>
      cases hnext
      cases pagePass <;> simp [left]
  | renderPages =>
      cases hnext
      cases hpages : plan.pages <;> simp [pagesFrom, left, hpages]
  | putPage page rest =>
      cases hnext
      cases rest <;> simp [pagesFrom, left]
  | commit => cases hnext
  | stageParsing | readDocument | ensureBuckets | ensureCollection | deleteRows
    | deletePoints | deleteObjects | stageCaptioning _ _ _ | buildChunks
    | ensurePages | clearPages | upsertPages =>
      cases hnext
      simp [left]

/-- More than the number of commands a run has still to send. -/
def Run.left (run : Run) : ℕ :=
  match run.phase with
  | .loading => run.plan.size + 23
  | .marking _ => run.plan.size + 22
  | .running _ command => command.left run.plan + 1
  | .handling _ => 1
  | .returned _ | .raised _ => 0

theorem Command.left_pos (plan : Plan) (command : Command) : 0 < command.left plan := by
  cases command <;> simp [left]

section

variable {settings : Settings} {stores after : Stores} {worker next : Worker}

theorem Move.left {run : Run} {outcome : Outcome} {phase : Phase} {session : Session}
    (hmove : Move settings stores run outcome after phase session) :
    ({ run with phase := phase, session := session } : Run).left < run.left := by
  cases hmove with
  | load hphase => simp [Run.left, hphase]
  | mark hphase => simp [Run.left, hphase, Command.left]
  | abort message hphase =>
      rcases hphase with hphase | ⟨document, hphase⟩ <;> simp [Run.left, hphase]
  | proceed hphase hexecute hnext =>
      have hleft := Command.left_next hnext
      simpa [Run.left, hphase] using hleft
  | finish hphase => simp [Run.left, hphase]
  | markLate _ hphase => simp [Run.left, hphase]
  | @skipPages document command message hphase hpages
    | @skipPagesLate document command message _ _ hphase _ hpages =>
      cases command with
      | ensurePages | clearPages | renderPages | putPage _ _ | upsertPages =>
          simp [Run.left, hphase, Command.left]
      | _ => cases hpages
  | @fail document command message hphase hpages
    | @failLate document command message _ _ hphase _ hpages =>
      have hpos := Command.left_pos run.plan command
      simp [Run.left, hphase, hpos]
  | handle hphase | giveUp _ hphase => simp [Run.left, hphase]

/-! ## Attempts -/

variable (settings)

/-- The attempts a payload may still cost. -/
def QueueItem.tries (item : QueueItem) : ℕ :=
  settings.maxIndexingRetries - item.attempt + 1

/-- The attempts the worker may still make with the payload it has taken, the
present one apart. -/
def WorkerPhase.tries : WorkerPhase → ℕ
  | .idle | .burying _ _ => 0
  | .starting item | .requeueing item => item.tries settings
  | .indexing item _ | .finishing item _ | .failing item _ _ => item.tries settings - 1

/-- The commands before the worker takes the next payload. -/
def WorkerPhase.left : WorkerPhase → ℕ
  | .starting _ => 0
  | .idle => 1
  | .requeueing _ | .burying _ _ | .finishing _ _ => 2
  | .failing _ _ _ => 3
  | .indexing _ run => run.left + 4

def Worker.effort (worker : Worker) : ℕ ×ₗ ℕ :=
  toLex ((worker.queue.map (·.tries settings)).sum + worker.phase.tries settings,
    worker.phase.left)

variable {settings}

theorem tries_retry {item : QueueItem} {jobId : Option Uuid}
    (hretry : willRetry settings item = true) :
    ({ item with attempt := item.attempt + 1, jobId := jobId } : QueueItem).tries settings =
      item.tries settings - 1 := by
  have hleft : item.attempt + 1 < settings.maxIndexingRetries := by
    simpa [willRetry] using hretry
  simp only [QueueItem.tries]
  omega

theorem afterFailure_tries (item : QueueItem) (jobId : Option Uuid) (message : String) :
    (afterFailure settings item jobId message).tries settings ≤ item.tries settings - 1 ∧
      (afterFailure settings item jobId message).left = 2 := by
  unfold afterFailure
  split_ifs with hretry
  · exact ⟨(tries_retry hretry).le, rfl⟩
  · exact ⟨Nat.zero_le _, rfl⟩

theorem afterIndex_tries (item : QueueItem) (run : Run) :
    (afterIndex settings item run).tries settings ≤ item.tries settings - 1 ∧
      (afterIndex settings item run).left ≤ run.left + 4 := by
  unfold afterIndex
  split
  · split
    · exact ⟨Nat.zero_le _, by simp [WorkerPhase.left]⟩
    · exact ⟨le_rfl, by simp [WorkerPhase.left]⟩
  · split
    · obtain ⟨htries, hleft⟩ := @afterFailure_tries settings item none _
      exact ⟨htries, by omega⟩
    · exact ⟨le_rfl, by simp [WorkerPhase.left]⟩
  · exact ⟨le_rfl, le_rfl⟩

/-- Every command of the worker lowers its effort. -/
theorem WorkMove.effort {action : WorkerAction}
    (hmove : WorkMove settings stores worker action after next) :
    next.effort settings < worker.effort settings := by
  have hlex : ∀ {tries before : ℕ} {left earlier : ℕ}, tries ≤ before → left < earlier →
      (toLex (tries, left) : ℕ ×ₗ ℕ) < toLex (before, earlier) := by
    intro tries before left earlier htries hleft
    rcases htries.lt_or_eq with hless | rfl
    · exact Prod.Lex.toLex_lt_toLex.mpr (Or.inl hless)
    · exact Prod.Lex.toLex_lt_toLex.mpr (Or.inr ⟨rfl, hleft⟩)
  unfold Worker.effort
  cases hmove with
  | pop hphase hqueue =>
      apply hlex
      · simp [hphase, hqueue, WorkerPhase.tries, Nat.add_comm]
      · simp [hphase, WorkerPhase.left]
  | drop plan hphase hgone =>
      apply Prod.Lex.toLex_lt_toLex.mpr
      left
      simp [hphase, WorkerPhase.tries, QueueItem.tries]
  | start plan hphase hstarted =>
      apply Prod.Lex.toLex_lt_toLex.mpr
      left
      simp [hphase, WorkerPhase.tries, QueueItem.tries]
  | @index item run outcome after phase session hphase hmove =>
      obtain ⟨htries, hleft⟩ := @afterIndex_tries settings item
        { run with phase := phase, session := session }
      have hmoved := hmove.left
      apply hlex
      · simpa [hphase, WorkerPhase.tries] using htries
      · rw [hphase]
        calc (afterIndex settings item { run with phase := phase, session := session }).left
            _ ≤ Run.left { run with phase := phase, session := session } + 4 := hleft
            _ < run.left + 4 := Nat.add_lt_add_right hmoved 4
  | finish hphase =>
      apply hlex
      · simp [WorkerPhase.tries]
      · simp [hphase, WorkerPhase.left]
  | @fail item jobId message hphase =>
      obtain ⟨htries, hleft⟩ := @afterFailure_tries settings item (some jobId) message
      apply hlex
      · simpa [hphase, WorkerPhase.tries] using htries
      · rw [hphase]
        exact hleft.trans_lt (Nat.lt_succ_self 2)
  | requeue hphase =>
      apply hlex
      · simp [hphase, WorkerPhase.tries]
      · simp [hphase, WorkerPhase.left]
  | bury hphase =>
      apply hlex
      · simp [hphase, WorkerPhase.tries]
      · simp [hphase, WorkerPhase.left]

/-- A command of the worker leads from one state to the other. -/
def Works (settings : Settings) (state following : Dispatch) : Prop :=
  ∃ action, dispatchStep settings state (.work action) = some following

/-- The worker cannot go on for ever. -/
theorem works_wellFounded (settings : Settings) :
    WellFounded fun following state => Works settings state following := by
  refine Subrelation.wf ?_ (InvImage.wf (fun state : Dispatch => state.worker.effort settings)
    wellFounded_lt)
  rintro following state ⟨action, hstep⟩
  cases dispatchStep_moves hstep with
  | work hmove => exact hmove.effort

/-- The worker stands still with an empty queue only. -/
theorem works_of_busy {state : Dispatch} (htracked : state.Tracked)
    (hbusy : state.worker.phase ≠ .idle ∨ state.worker.queue ≠ []) :
    ∃ following, Works settings state following := by
  have henabled : ∀ action, state.worker.phase.faultless action = true →
      workerStep settings (state.stores, state.worker) action ≠ none →
        ∃ following, Works settings state following := by
    intro action hfaultless hstep
    obtain ⟨after, hafter⟩ := Option.ne_none_iff_exists'.mp hstep
    exact ⟨_, action, by simp [dispatchStep, hfaultless, hafter]; rfl⟩
  cases hphase : state.worker.phase with
  | idle =>
      obtain ⟨item, rest, hqueue⟩ := List.exists_cons_of_ne_nil
        (hbusy.resolve_left (fun hne => hne hphase))
      exact henabled .pop rfl (by simp [workerStep, hphase, hqueue])
  | starting item =>
      refine henabled (.start item.documentId ⟨[], [], 0, [], []⟩ .ok) rfl ?_
      cases hstarted : jobStarted item item.documentId state.stores with
      | none => simp [workerStep, hphase, hstarted]
      | some started => simp [workerStep, hphase, hstarted]
  | indexing item run =>
      refine henabled (.work (.raise "")) (by simp [WorkerPhase.faultless, hphase]) ?_
      have hrunning := htracked.phase
      rw [hphase] at hrunning
      cases hrun : run.phase with
      | loading | marking _ | handling _ => simp [workerStep, hphase, indexStep, hrun]
      | running document command =>
          cases hpages : command.inPagePass with
          | true => simp [workerStep, hphase, indexStep, hrun, hpages]
          | false => simp [workerStep, hphase, indexStep, hrun, hpages]
      | returned _ | raised _ => exact absurd (by simp [Run.Finished, hrun]) hrunning.1
  | finishing _ _ | failing _ _ _ | requeueing _ | burying _ _ =>
      exact henabled (.work .ok) (by simp [WorkerPhase.faultless, hphase])
        (by simp [workerStep, hphase])

end

end AgenticRag.Ingestion
