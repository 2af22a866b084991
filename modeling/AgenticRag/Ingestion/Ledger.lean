import AgenticRag.Core.Transition
import AgenticRag.Ingestion.Exhaustion

/-!
# What becomes of every payload

An observer numbers the payloads in the order in which they are pushed as first
attempts and follows each through the queue, the worker and the dead letters: which
attempts were made with it, under which job, and how it ended.  It also follows
every call of `requeue_dlq`.
-/

namespace AgenticRag.Ingestion

/-- How a payload leaves the system: its run has returned, or it is a dead letter,
with the status of its job at that time. -/
inductive Ending where
  | indexed
  | buried (letter : QueueItem × String) (status : Option IngestStatus)
  deriving DecidableEq

/-- What the observer knows of a call of `requeue_dlq`: the dead letters it found
and the payloads it has pushed.  It is `alone` while nobody else pushes or pops a
dead letter. -/
structure Requeue where
  limit : ℤ
  found : List QueueItem
  moved : List QueueItem := []
  alone : Bool := true
  deriving DecidableEq

/-- A call that has returned its count, with the dead letters it left. -/
structure Returned where
  requeue : Requeue
  count : ℕ
  left : List QueueItem
  deriving DecidableEq

/-- The notes of the observer.  `issued` are the payloads by number, `waiting` the
numbers of the payloads in the queue, `held` that of the worker's, `letters` those of
the dead letters and `popped` those of the dead letters that `requeue_dlq` has taken. -/
structure Ledger where
  issued : List QueueItem := []
  waiting : List ℕ := []
  held : Option ℕ := none
  attempts : ℕ → List ℕ := fun _ => []
  jobs : ℕ → Option Uuid := fun _ => none
  endings : ℕ → List Ending := fun _ => []
  letters : List ℕ := []
  popped : List ℕ := []
  requeues : ℕ → Option Requeue := fun _ => none
  returned : List Returned := []

namespace Ledger

variable (ledger : Ledger)

/-- A first attempt is pushed. -/
def issue (item : QueueItem) : Ledger :=
  { ledger with
    issued := ledger.issued ++ [item]
    waiting := ledger.waiting ++ [ledger.issued.length]
    jobs := Function.update ledger.jobs ledger.issued.length item.jobId }

/-- The worker takes the first payload. -/
def take : Ledger :=
  { ledger with held := ledger.waiting.head?, waiting := ledger.waiting.tail }

/-- `index_document` is called for the payload of the worker, tracked by this job. -/
def tried (attempt : ℕ) (jobId : Option Uuid) : Ledger :=
  match ledger.held with
  | none => ledger
  | some number =>
      { ledger with
        attempts := Function.update ledger.attempts number
          (ledger.attempts number ++ [attempt])
        jobs := Function.update ledger.jobs number jobId }

/-- The worker is rid of its payload, with this ending. -/
def close (ending : Ending) : Ledger :=
  match ledger.held with
  | none => ledger
  | some number =>
      { ledger with
        held := none
        endings := Function.update ledger.endings number
          (ledger.endings number ++ [ending]) }

/-- The payload of the worker is pushed as a dead letter. -/
def bury (letter : QueueItem × String) (status : Option IngestStatus) : Ledger :=
  { ledger.close (.buried letter status) with
    letters := ledger.letters ++ ledger.held.toList }

/-- The first dead letter is popped. -/
def lift : Ledger :=
  { ledger with
    letters := ledger.letters.tail
    popped := ledger.popped ++ ledger.letters.head?.toList }

/-- The worker puts its payload back. -/
def giveBack : Ledger :=
  { ledger with held := none, waiting := ledger.waiting ++ ledger.held.toList }

/-- The calls selected by `disturbed` are not alone with the dead letters. -/
def disturb (disturbed : ℕ → Bool) : Ledger :=
  { ledger with
    requeues := fun call => (ledger.requeues call).map fun requeue =>
      { requeue with alone := requeue.alone && !disturbed call } }

/-- A command of the worker. -/
def follow (before after : Dispatch) : Ledger :=
  match before.worker.phase, after.worker.phase with
  | .idle, _ => ledger.take
  | .starting item, .indexing _ run => ledger.tried item.attempt run.jobId
  | .starting _, _ => { ledger with held := none }
  | .indexing _ _, _ | .failing _ _ _, _ => ledger
  | .finishing _ _, _ => ledger.close .indexed
  | .requeueing _, _ => ledger.giveBack
  | .burying item message, _ =>
      (ledger.bury (item, message)
        ((item.jobId.bind after.stores.jobs).map (·.status))).disturb fun _ => true

/-- A command of a call of `requeue_dlq`. -/
def requeued (call : ℕ) (drain : Drain) (after : Dispatch) : Ledger :=
  match ledger.requeues call, drain.popped, after.drains call with
  | none, _, _ => ledger
  | some requeue, some item, _ =>
      { ledger.issue item.reset with
        requeues := Function.update ledger.requeues call
          (some { requeue with moved := requeue.moved ++ [item.reset] }) }
  | some _, none, some _ => ledger.lift.disturb fun other => other ≠ call
  | some requeue, none, none =>
      { ledger with
        requeues := Function.update ledger.requeues call none
        returned := ledger.returned ++
          [⟨requeue, drain.count, after.worker.deadLetters.map Prod.fst⟩] }

/-- The note of a step. -/
def note (before : Dispatch) (action : DispatchAction) (after : Dispatch) : Ledger :=
  match action with
  | .upload _ _ _ _ _ | .load _ | .reindex _ _ _ => ledger
  | .push item | .enqueue item => ledger.issue item
  | .work _ => ledger.follow before after
  | .requeueDlq call limit =>
      { ledger with
        requeues := Function.update ledger.requeues call
          (some { limit := limit, found := before.worker.deadLetters.map Prod.fst }) }
  | .drain call =>
      match before.drains call with
      | none => ledger
      | some drain => ledger.requeued call drain after

/-- The numbers of the payloads that have not ended. -/
def underway : List ℕ :=
  ledger.held.toList ++ ledger.waiting

/-- The document, the job and the attempts of a payload. -/
def view (number : ℕ) : Option Uuid × Option Uuid × List ℕ :=
  ((ledger.issued[number]?).map (·.documentId), ledger.jobs number, ledger.attempts number)

end Ledger

section

variable (settings : Settings)

/-- How often a payload is attempted at most. -/
def attemptLimit : ℕ :=
  max 1 settings.maxIndexingRetries

/-- The system with its observer. -/
def ledgerStep : Dispatch × Ledger → DispatchAction → Option (Dispatch × Ledger) :=
  Transition.observed (dispatchStep settings) Ledger.note

/-- The account of payload `number`: its attempts count up from zero, and it is
under way, or its run has returned, or it is one dead letter, with the payload's
document and last job and a failed job row. -/
inductive Ledger.Accounts (ledger : Ledger) (number : ℕ) : Prop where
  | underway (hunderway : ledger.underway.count number = 1)
      (hendings : ledger.endings number = [])
      (hletters : number ∉ ledger.popped ++ ledger.letters)
      (hattempts : ∃ made ≤ attemptLimit settings, ledger.attempts number = List.range made)
  | indexed (hgone : number ∉ ledger.underway)
      (hendings : ledger.endings number = [.indexed])
      (hletters : number ∉ ledger.popped ++ ledger.letters)
      (hattempts : ∃ made < attemptLimit settings,
        ledger.attempts number = List.range (made + 1))
  | buried (item : QueueItem) (error : String) (hgone : number ∉ ledger.underway)
      (hendings : ledger.endings number = [.buried (item, error) (some .failed)])
      (hletters : (ledger.popped ++ ledger.letters).count number = 1)
      (hdocument : (ledger.issued[number]?).map (·.documentId) = some item.documentId)
      (hjob : ledger.jobs number = item.jobId)
      (hlast : item.attempt + 1 = attemptLimit settings)
      (hattempts : ledger.attempts number = List.range (attemptLimit settings))

/-- The call has moved the first `limit` dead letters in their order, each as a first
attempt for its document and job, and has left the others. -/
structure Returned.Exact (returned : Returned) : Prop where
  moved : returned.requeue.moved =
    (returned.requeue.found.take returned.requeue.limit.toNat).map fun letter =>
      ⟨letter.documentId, 0, letter.jobId⟩
  left : returned.left = returned.requeue.found.drop returned.requeue.limit.toNat
  count : returned.count = min returned.requeue.limit.toNat returned.requeue.found.length

end

/-! ## The observer keeps pace -/

/-- The payload after one more attempt. -/
def QueueItem.tried (item : QueueItem) : QueueItem :=
  { item with attempt := item.attempt + 1 }

/-- The payload the worker has taken, with its job and the attempts made with it. -/
def WorkerPhase.made : WorkerPhase → Option QueueItem
  | .idle => none
  | .starting item | .requeueing item => some item
  | .indexing item run => some { item.tried with jobId := run.jobId }
  | .finishing item jobId | .failing item jobId _ => some { item.tried with jobId := some jobId }
  | .burying item _ => some item.tried

/-- The payload has attempts left, and is buried after the last one. -/
def WorkerPhase.Within (settings : Settings) : WorkerPhase → Prop
  | .idle => True
  | .burying item _ => item.attempt + 1 = attemptLimit settings
  | .starting item | .requeueing item | .indexing item _ | .finishing item _
  | .failing item _ _ => item.attempt < attemptLimit settings

/-- The view of a payload after all attempts before the one it counts. -/
def viewOf (item : QueueItem) : Option Uuid × Option Uuid × List ℕ :=
  (some item.documentId, item.jobId, List.range item.attempt)

/-- An ending fits the attempts. -/
def Ledger.Ended (settings : Settings) (ledger : Ledger) (number : ℕ) : Prop :=
  (ledger.endings number = [.indexed] ∧
    ∃ made < attemptLimit settings, ledger.attempts number = List.range (made + 1)) ∨
  ∃ item error, ledger.endings number = [.buried (item, error) (some .failed)] ∧
    item.attempt + 1 = attemptLimit settings ∧ ledger.view number = viewOf item.tried

/-- The notes fit the state. -/
structure Ledger.Fits (settings : Settings) (ledger : Ledger) (worker : Worker) : Prop where
  waiting : ledger.waiting.map ledger.view = worker.queue.map viewOf
  held : ledger.held.map ledger.view = worker.phase.made.map viewOf
  queue : ∀ item ∈ worker.queue, item.attempt < attemptLimit settings
  phase : worker.phase.Within settings
  nodup : ledger.underway.Nodup
  mem_underway : ∀ number, number ∈ ledger.underway ↔
    number < ledger.issued.length ∧ ledger.endings number = []
  ended : ∀ number, ledger.endings number ≠ [] → ledger.Ended settings number
  fresh : ∀ number, ledger.issued.length ≤ number →
    ledger.attempts number = [] ∧ ledger.endings number = []

section Fits

variable {settings : Settings} {ledger : Ledger} {worker : Worker} {item : QueueItem}

theorem attemptLimit_pos : 0 < attemptLimit settings :=
  lt_max_of_lt_left Nat.zero_lt_one

theorem Ledger.view_issue (item : QueueItem) {number : ℕ}
    (hnumber : number < ledger.issued.length) :
    (ledger.issue item).view number = ledger.view number := by
  simp [Ledger.view, Ledger.issue, List.getElem?_append_left hnumber,
    Function.update_of_ne hnumber.ne]

/-- A payload that is pushed gets the next number. -/
theorem Ledger.Fits.issue (hfits : ledger.Fits settings worker) (hfirst : item.attempt = 0) :
    (ledger.issue item).Fits settings (worker.push item) := by
  have hsame : ∀ number ∈ ledger.underway,
      (ledger.issue item).view number = ledger.view number := fun number hnumber =>
    Ledger.view_issue item ((hfits.mem_underway number).mp hnumber).1
  have hnew : (ledger.issue item).view ledger.issued.length = viewOf item := by
    have hnone := (hfits.fresh ledger.issued.length le_rfl).1
    simp [Ledger.view, Ledger.issue, hnone, viewOf, hfirst]
  have hunderway : (ledger.issue item).underway =
      ledger.underway ++ [ledger.issued.length] := by
    simp [Ledger.underway, Ledger.issue]
  have hunissued : ledger.issued.length ∉ ledger.underway := fun hmem =>
    absurd ((hfits.mem_underway _).mp hmem).1 (lt_irrefl _)
  refine ⟨?_, ?_, ?_, hfits.phase, ?_, ?_, ?_, ?_⟩
  · calc (ledger.waiting ++ [ledger.issued.length]).map (ledger.issue item).view
        = ledger.waiting.map ledger.view ++ [viewOf item] := by
          rw [List.map_append, List.map_singleton, hnew]
          congr 1
          exact List.map_congr_left fun number hnumber =>
            hsame number (List.mem_append_right _ hnumber)
      _ = (worker.queue ++ [item]).map viewOf := by
          rw [hfits.waiting, List.map_append, List.map_singleton]
  · refine Eq.trans (Option.map_congr fun number hnumber => ?_) hfits.held
    exact hsame number (List.mem_append_left _ (Option.mem_toList.mpr hnumber))
  · intro other hother
    rcases List.mem_append.mp hother with hold | hnew
    · exact hfits.queue other hold
    · rw [List.mem_singleton.mp hnew, hfirst]
      exact attemptLimit_pos
  · rw [hunderway]
    exact hfits.nodup.append (List.nodup_singleton _)
      (List.disjoint_singleton.mpr hunissued)
  · intro number
    rw [hunderway, List.mem_append, hfits.mem_underway, List.mem_singleton]
    simp only [Ledger.issue, List.length_append, List.length_singleton]
    constructor
    · rintro (⟨hless, hnone⟩ | rfl)
      · exact ⟨by omega, hnone⟩
      · exact ⟨by omega, (hfits.fresh _ le_rfl).2⟩
    · rintro ⟨hless, hnone⟩
      rcases Nat.lt_succ_iff_lt_or_eq.mp hless with hold | hsame
      · exact Or.inl ⟨hold, hnone⟩
      · exact Or.inr hsame
  · intro number hended
    have hissued : number < ledger.issued.length := by
      by_contra hlate
      exact hended (hfits.fresh number (Nat.le_of_not_lt hlate)).2
    rcases hfits.ended number hended with hindexed | ⟨letter, error, hburied, hlast, hview⟩
    · exact Or.inl hindexed
    · exact Or.inr ⟨letter, error, hburied, hlast, (Ledger.view_issue item hissued).trans hview⟩
  · intro number hlate
    simp only [Ledger.issue, List.length_append, List.length_singleton] at hlate
    exact hfits.fresh number (by omega)

/-- Of the worker only the queue and the progress with its payload matter. -/
theorem Ledger.Fits.of_eq {next : Worker} (hfits : ledger.Fits settings worker)
    (hqueue : next.queue = worker.queue) (hmade : next.phase.made = worker.phase.made)
    (hphase : next.phase.Within settings) : ledger.Fits settings next where
  waiting := by rw [hqueue, hfits.waiting]
  held := by rw [hmade, hfits.held]
  queue := by rw [hqueue]; exact hfits.queue
  phase := hphase
  nodup := hfits.nodup
  mem_underway := hfits.mem_underway
  ended := hfits.ended
  fresh := hfits.fresh

/-- The dead letters and the calls of `requeue_dlq` do not matter. -/
theorem Ledger.Fits.calls (hfits : ledger.Fits settings worker) (letters popped : List ℕ)
    (requeues : ℕ → Option Requeue) (returned : List Returned) :
    ({ ledger with
        letters := letters, popped := popped, requeues := requeues
        returned := returned } : Ledger).Fits settings worker :=
  ⟨hfits.waiting, hfits.held, hfits.queue, hfits.phase, hfits.nodup, hfits.mem_underway,
    hfits.ended, hfits.fresh⟩

/-- The number the worker holds is that of its payload. -/
theorem Ledger.Fits.number (hfits : ledger.Fits settings worker) {made : QueueItem}
    (hmade : worker.phase.made = some made) :
    ∃ number, ledger.held = some number ∧ ledger.view number = viewOf made ∧
      number ∉ ledger.waiting ∧ number < ledger.issued.length ∧ ledger.endings number = [] := by
  have hheld := hfits.held
  rw [hmade, Option.map_some] at hheld
  obtain ⟨number, hnumber, hview⟩ := Option.map_eq_some_iff.mp hheld
  have hnodup := hfits.nodup
  simp only [Ledger.underway, hnumber, Option.toList_some, List.singleton_append,
    List.nodup_cons] at hnodup
  have hunderway : number ∈ ledger.underway := by simp [Ledger.underway, hnumber]
  exact ⟨number, hnumber, hview, hnodup.1, (hfits.mem_underway number).mp hunderway⟩

theorem Ledger.Fits.take {rest : List QueueItem} (hfits : ledger.Fits settings worker)
    (hphase : worker.phase = .idle) (hqueue : worker.queue = item :: rest) :
    ledger.take.Fits settings { worker with phase := .starting item, queue := rest } := by
  have hheld : ledger.held = none := by
    have hnone := hfits.held
    rw [hphase] at hnone
    exact Option.map_eq_none_iff.mp hnone
  have hwaiting := hfits.waiting
  rw [hqueue, List.map_cons] at hwaiting
  obtain ⟨number, numbers, hnumbers, hview, hrest⟩ := List.map_eq_cons_iff.mp hwaiting
  have hsame : ledger.take.underway = ledger.underway := by
    simp [Ledger.underway, Ledger.take, hheld, hnumbers]
  refine ⟨?_, ?_, ?_, ?_, ?_, ?_, hfits.ended, hfits.fresh⟩
  · calc ledger.take.waiting.map ledger.view = numbers.map ledger.view := by
          rw [Ledger.take, hnumbers, List.tail_cons]
      _ = rest.map viewOf := hrest
  · calc ledger.take.held.map ledger.view = some (ledger.view number) := by
          rw [Ledger.take, hnumbers, List.head?_cons, Option.map_some]
      _ = some (viewOf item) := by rw [hview]
  · intro other hother
    exact hfits.queue other (by rw [hqueue]; exact List.mem_cons_of_mem _ hother)
  · exact hfits.queue item (by rw [hqueue]; exact List.mem_cons_self)
  · rw [hsame]
    exact hfits.nodup
  · rw [hsame]
    exact hfits.mem_underway

theorem Ledger.Fits.tried {run : Run} (hfits : ledger.Fits settings worker)
    (hphase : worker.phase = .starting item) :
    (ledger.tried item.attempt run.jobId).Fits settings
      { worker with phase := .indexing item run } := by
  have hmade : worker.phase.made = some item := by rw [hphase]; rfl
  obtain ⟨number, hheld, hview, hwaiting, hissued, hopen⟩ := hfits.number hmade
  have hwithin := hfits.phase
  rw [hphase] at hwithin
  have hmore : ledger.attempts number ++ [item.attempt] = List.range (item.attempt + 1) := by
    have hattempts : ledger.attempts number = List.range item.attempt :=
      congrArg (·.2.2) hview
    rw [hattempts, List.range_succ]
  have htried : ledger.tried item.attempt run.jobId =
      { ledger with
        attempts := Function.update ledger.attempts number (List.range (item.attempt + 1))
        jobs := Function.update ledger.jobs number run.jobId } := by
    rw [Ledger.tried, hheld, ← hmore]
  have hother : ∀ other, other ≠ number →
      (ledger.tried item.attempt run.jobId).view other = ledger.view other := by
    intro other hne
    simp [htried, Ledger.view, Function.update_of_ne hne]
  rw [htried] at hother ⊢
  refine ⟨?_, ?_, hfits.queue, hwithin, hfits.nodup, hfits.mem_underway, ?_, ?_⟩
  · refine Eq.trans (List.map_congr_left fun other hmem => hother other ?_) hfits.waiting
    exact fun hsame => hwaiting (hsame ▸ hmem)
  · have hdocument : (ledger.issued[number]?).map (·.documentId) = some item.documentId :=
      congrArg Prod.fst hview
    simp [hheld, Ledger.view, hdocument, WorkerPhase.made, viewOf, QueueItem.tried]
  · intro other hended
    have hne : other ≠ number := fun hsame => hended (by rw [hsame]; exact hopen)
    rcases hfits.ended other hended with
      ⟨hindexed, hmade⟩ | ⟨letter, error, hburied, hlast, hletter⟩
    · exact Or.inl ⟨hindexed, by simpa [Function.update_of_ne hne] using hmade⟩
    · exact Or.inr ⟨letter, error, hburied, hlast, (hother other hne).trans hletter⟩
  · intro other hlate
    have hne : other ≠ number := (hissued.trans_le hlate).ne'
    simpa [Function.update_of_ne hne] using hfits.fresh other hlate

/-- A payload that has ended is under way no longer. -/
theorem Ledger.Fits.close {next : Worker} {made : QueueItem} {ending : Ending}
    (hfits : ledger.Fits settings worker) (hmade : worker.phase.made = some made)
    (hending :
      (ending = .indexed ∧ ∃ before < attemptLimit settings, made.attempt = before + 1) ∨
      ∃ item error, ending = .buried (item, error) (some .failed) ∧
        item.attempt + 1 = attemptLimit settings ∧ made = item.tried)
    (hidle : next.phase = .idle) (hqueue : next.queue = worker.queue) :
    (ledger.close ending).Fits settings next := by
  obtain ⟨number, hheld, hview, hwaiting, hissued, hopen⟩ := hfits.number hmade
  have hclose : ledger.close ending =
      { ledger with
        held := none
        endings := Function.update ledger.endings number [ending] } := by
    simp only [Ledger.close, hheld, hopen, List.nil_append]
  have hunderway : ledger.underway = number :: ledger.waiting := by
    simp [Ledger.underway, hheld]
  rw [hclose]
  refine ⟨?_, ?_, ?_, ?_, ?_, ?_, ?_, ?_⟩
  · rw [hqueue]
    exact hfits.waiting
  · rw [hidle]
    rfl
  · rw [hqueue]
    exact hfits.queue
  · rw [hidle]
    exact trivial
  · have hnodup := hfits.nodup
    rw [hunderway] at hnodup
    exact hnodup.of_cons
  · intro other
    have hmem := hfits.mem_underway other
    rw [hunderway, List.mem_cons] at hmem
    by_cases hsame : other = number
    · simp [Ledger.underway, hsame, hwaiting]
    · simpa [Ledger.underway, hsame] using hmem
  · intro other hended
    by_cases hsame : other = number
    · rw [hsame]
      rcases hending with ⟨rfl, before, hless, hbefore⟩ | ⟨letter, error, rfl, hlast, hletter⟩
      · exact Or.inl ⟨by simp, before, hless, by rw [← hbefore]; exact congrArg (·.2.2) hview⟩
      · exact Or.inr ⟨letter, error, by simp, hlast, by rw [← hletter]; exact hview⟩
    · simp only [Function.update_of_ne hsame] at hended
      rcases hfits.ended other hended with
        ⟨hindexed, hattempts⟩ | ⟨letter, error, hburied, hrest⟩
      · exact Or.inl ⟨by simpa [Function.update_of_ne hsame] using hindexed, hattempts⟩
      · exact Or.inr ⟨letter, error, by simpa [Function.update_of_ne hsame] using hburied,
          hrest⟩
  · intro other hlate
    have hne : other ≠ number := (hissued.trans_le hlate).ne'
    simpa [Function.update_of_ne hne] using hfits.fresh other hlate

theorem Ledger.Fits.giveBack (hfits : ledger.Fits settings worker)
    (hphase : worker.phase = .requeueing item) :
    ledger.giveBack.Fits settings
      { worker with phase := .idle, queue := worker.queue ++ [item] } := by
  have hmade : worker.phase.made = some item := by rw [hphase]; rfl
  obtain ⟨number, hheld, hview, _⟩ := hfits.number hmade
  have hwithin := hfits.phase
  rw [hphase] at hwithin
  have hunderway : ledger.underway = [number] ++ ledger.waiting := by
    simp [Ledger.underway, hheld]
  have hback : ledger.giveBack.underway = ledger.waiting ++ [number] := by
    simp [Ledger.underway, Ledger.giveBack, hheld]
  have hperm : ledger.giveBack.underway.Perm ledger.underway := by
    rw [hback, hunderway]
    exact List.perm_append_comm
  refine ⟨?_, rfl, ?_, trivial, ?_, ?_, hfits.ended, hfits.fresh⟩
  · calc ledger.giveBack.waiting.map ledger.view
        = ledger.waiting.map ledger.view ++ [ledger.view number] := by
          simp [Ledger.giveBack, hheld]
      _ = (worker.queue ++ [item]).map viewOf := by
          rw [hfits.waiting, hview, List.map_append, List.map_singleton]
  · intro other hother
    rcases List.mem_append.mp hother with hold | hnew
    · exact hfits.queue other hold
    · rw [List.mem_singleton.mp hnew]
      exact hwithin
  · exact hperm.nodup_iff.mpr hfits.nodup
  · intro other
    rw [hperm.mem_iff]
    exact hfits.mem_underway other

theorem within_afterFailure {message : String} {jobId : Option Uuid}
    (hless : item.attempt < attemptLimit settings) :
    (afterFailure settings item jobId message).Within settings := by
  unfold afterFailure
  split_ifs with hretry
  · have hmore : item.attempt + 1 < settings.maxIndexingRetries := by
      simpa [willRetry] using hretry
    exact hmore.trans_le (Nat.le_max_right _ _)
  · have hlast : settings.maxIndexingRetries ≤ item.attempt + 1 := by
      simpa [willRetry] using hretry
    exact le_antisymm hless (Nat.max_le.mpr ⟨Nat.le_add_left _ _, hlast⟩)

theorem made_afterFailure {message : String} {jobId : Option Uuid} :
    (afterFailure settings item jobId message).made =
      some { item.tried with jobId := jobId } := by
  unfold afterFailure
  split_ifs
  · rfl
  · rfl

/-- A tracked run stays with its attempt. -/
theorem afterIndex_attempt {run : Run} {jobId : Uuid} (hown : run.jobId = some jobId)
    (hless : item.attempt < attemptLimit settings) :
    (afterIndex settings item run).made = some { item.tried with jobId := some jobId } ∧
      (afterIndex settings item run).Within settings := by
  unfold afterIndex
  split
  · simp only [hown]
    exact ⟨rfl, hless⟩
  · simp only [hown]
    exact ⟨rfl, hless⟩
  · exact ⟨by rw [WorkerPhase.made, hown], hless⟩

/-- The observer follows every command of the worker. -/
theorem Ledger.Fits.follow {state : Dispatch} {action : WorkerAction} {stores : Stores}
    {next : Worker} (hmove : WorkMove settings state.stores state.worker action stores next)
    (htracked : state.Tracked) (hfits : ledger.Fits settings state.worker) :
    (ledger.follow state { state with stores := stores, worker := next }).Fits settings next := by
  have hphase := htracked.phase
  have hwithin := hfits.phase
  cases hmove with
  | pop hidle hqueue =>
      simp only [Ledger.follow, hidle]
      exact hfits.take hidle hqueue
  | drop plan hstarting hgone =>
      have hmentioned : state.Mentions _ := Or.inl (Or.inr (Or.inl ⟨_, by rw [hstarting]; rfl, rfl⟩))
      refine absurd ?_ (htracked.documents _ hmentioned)
      unfold jobStarted at hgone
      split at hgone
      · cases hgone
      · split at hgone
        · assumption
        · cases hgone
  | @start item newJobId jobId plan after hstarting hstarted =>
      simp only [Ledger.follow, hstarting]
      exact @Ledger.Fits.tried settings ledger state.worker item
        { documentId := item.documentId, jobId := some jobId, plan := plan } hfits hstarting
  | @index item run outcome after phase session hindexing hmove =>
      rw [hindexing] at hphase hwithin
      obtain ⟨_, _, jobId, job, hown, _⟩ := hphase
      obtain ⟨hmade, hnext⟩ :=
        @afterIndex_attempt settings item { run with phase := phase, session := session } jobId
          hown hwithin
      simp only [Ledger.follow, hindexing]
      exact hfits.of_eq rfl
        (hmade.trans (by rw [hindexing, WorkerPhase.made, hown])) hnext
  | @finish item jobId hfinishing =>
      have hmade : state.worker.phase.made = some { item.tried with jobId := some jobId } := by
        rw [hfinishing]
        rfl
      rw [hfinishing] at hwithin
      simp only [Ledger.follow, hfinishing]
      exact hfits.close hmade (Or.inl ⟨rfl, item.attempt, hwithin, rfl⟩) rfl rfl
  | fail hfailing =>
      rw [hfailing] at hwithin
      simp only [Ledger.follow, hfailing]
      exact hfits.of_eq rfl (made_afterFailure.trans (by rw [hfailing]; rfl))
        (within_afterFailure hwithin)
  | requeue hrequeueing =>
      simp only [Ledger.follow, hrequeueing]
      exact hfits.giveBack hrequeueing
  | @bury item message hburying =>
      have hmade : state.worker.phase.made = some item.tried := by
        rw [hburying]
        rfl
      rw [hburying] at hphase hwithin
      obtain ⟨jobId, job, hown, hjob, hfailed⟩ := hphase
      have hstatus : (item.jobId.bind state.stores.jobs).map (·.status) = some .failed := by
        simp [hown, hjob, hfailed]
      simp only [Ledger.follow, hburying, hstatus]
      have hclosed : (ledger.close (.buried (item, message) (some .failed))).Fits settings
          { state.worker with
            phase := .idle
            deadLetters := state.worker.deadLetters ++ [(item, message)] } :=
        hfits.close hmade (Or.inr ⟨item, message, rfl, hwithin, rfl⟩) rfl rfl
      exact hclosed.calls _ _ _ _

end Fits

/-! ## The dead letters -/

/-- The notes fit the dead letters: each is the ending of one payload, and of no other. -/
structure Ledger.Buries (ledger : Ledger) (letters : List (QueueItem × String)) : Prop where
  letters : ledger.letters.map ledger.endings =
    letters.map fun letter => [.buried letter (some .failed)]
  nodup : (ledger.popped ++ ledger.letters).Nodup
  mem : ∀ number, number ∈ ledger.popped ++ ledger.letters ↔
    ∃ letter status, ledger.endings number = [.buried letter status]

section Buries

variable {settings : Settings} {ledger notes : Ledger} {letters : List (QueueItem × String)}
variable {number : ℕ}

theorem Ledger.Buries.of_eq (hburies : ledger.Buries letters)
    (hendings : notes.endings = ledger.endings) (hletters : notes.letters = ledger.letters)
    (hpopped : notes.popped = ledger.popped) : notes.Buries letters := by
  refine ⟨?_, ?_, ?_⟩
  · rw [hendings, hletters]
    exact hburies.letters
  · rw [hletters, hpopped]
    exact hburies.nodup
  · rw [hendings, hletters, hpopped]
    exact hburies.mem

theorem Ledger.Buries.notMem (hburies : ledger.Buries letters)
    (hopen : ledger.endings number = []) : number ∉ ledger.popped ++ ledger.letters := by
  intro hmem
  obtain ⟨letter, status, hburied⟩ := (hburies.mem number).mp hmem
  cases hopen.symm.trans hburied

/-- The ending of a payload that had none leaves those of the dead letters. -/
theorem Ledger.Buries.endings (hburies : ledger.Buries letters)
    (hopen : ledger.endings number = []) (ending : List Ending) :
    ledger.letters.map (Function.update ledger.endings number ending) =
      letters.map fun letter => [.buried letter (some .failed)] := by
  rw [← hburies.letters]
  refine List.map_congr_left fun other hother => Function.update_of_ne ?_ _ _
  rintro rfl
  exact hburies.notMem hopen (List.mem_append_right _ hother)

theorem Ledger.Buries.close (hburies : ledger.Buries letters)
    (hheld : ledger.held = some number) (hopen : ledger.endings number = []) :
    (ledger.close .indexed).Buries letters := by
  simp only [Ledger.close, hheld, hopen, List.nil_append]
  refine ⟨hburies.endings hopen _, hburies.nodup, ?_⟩
  intro other
  by_cases hsame : other = number
  · subst hsame
    refine iff_of_false (hburies.notMem hopen) ?_
    rintro ⟨letter, status, hburied⟩
    simp at hburied
  · dsimp only
    rw [Function.update_of_ne hsame]
    exact hburies.mem other

theorem Ledger.Buries.bury (hburies : ledger.Buries letters)
    (hheld : ledger.held = some number) (hopen : ledger.endings number = [])
    (letter : QueueItem × String) :
    (ledger.bury letter (some .failed)).Buries (letters ++ [letter]) := by
  simp only [Ledger.bury, Ledger.close, hheld, hopen, List.nil_append, Option.toList_some]
  refine ⟨?_, ?_, ?_⟩
  · simp only [List.map_append, List.map_singleton, Function.update_self]
    rw [hburies.endings hopen]
  · rw [← List.append_assoc]
    exact hburies.nodup.append (List.nodup_singleton _)
      (List.disjoint_singleton.mpr (hburies.notMem hopen))
  · intro other
    rw [← List.append_assoc, List.mem_append, List.mem_singleton]
    by_cases hsame : other = number
    · subst hsame
      exact iff_of_true (Or.inr rfl) ⟨letter, some .failed, by simp⟩
    · dsimp only
      rw [Function.update_of_ne hsame, or_iff_left hsame]
      exact hburies.mem other

/-- `LPOP` takes the first dead letter off the list. -/
theorem Ledger.Buries.lift {letter : QueueItem × String}
    (hburies : ledger.Buries (letter :: letters)) : ledger.lift.Buries letters := by
  have hmap := hburies.letters
  rw [List.map_cons] at hmap
  obtain ⟨first, others, hsplit, _, hothers⟩ := List.map_eq_cons_iff.mp hmap
  have hsame : ledger.lift.popped ++ ledger.lift.letters = ledger.popped ++ ledger.letters := by
    simp [Ledger.lift, hsplit]
  refine ⟨?_, ?_, ?_⟩
  · simpa [Ledger.lift, hsplit] using hothers
  · rw [hsame]
    exact hburies.nodup
  · rw [hsame]
    exact hburies.mem

/-- The observer follows every dead letter. -/
theorem Ledger.Buries.follow {state : Dispatch} {action : WorkerAction} {stores : Stores}
    {next : Worker} (hmove : WorkMove settings state.stores state.worker action stores next)
    (htracked : state.Tracked) (hfits : ledger.Fits settings state.worker)
    (hburies : ledger.Buries state.worker.deadLetters) :
    (ledger.follow state { state with stores := stores, worker := next }).Buries
      next.deadLetters := by
  have hphase := htracked.phase
  cases hmove with
  | pop hidle =>
      simp only [Ledger.follow, hidle]
      exact hburies.of_eq rfl rfl rfl
  | drop plan hstarting =>
      simp only [Ledger.follow, hstarting]
      exact hburies.of_eq rfl rfl rfl
  | start plan hstarting =>
      simp only [Ledger.follow, hstarting, Ledger.tried]
      split
      · exact hburies
      · exact hburies.of_eq rfl rfl rfl
  | index hindexing =>
      simp only [Ledger.follow, hindexing]
      exact hburies
  | fail hfailing =>
      simp only [Ledger.follow, hfailing]
      exact hburies
  | requeue hrequeueing =>
      simp only [Ledger.follow, hrequeueing]
      exact hburies.of_eq rfl rfl rfl
  | finish hfinishing =>
      obtain ⟨number, hheld, _, _, _, hopen⟩ := hfits.number (by rw [hfinishing]; rfl)
      simp only [Ledger.follow, hfinishing]
      exact hburies.close hheld hopen
  | @bury item message hburying =>
      obtain ⟨number, hheld, _, _, _, hopen⟩ := hfits.number (by rw [hburying]; rfl)
      rw [hburying] at hphase
      obtain ⟨jobId, job, hown, hjob, hfailed⟩ := hphase
      have hstatus : (item.jobId.bind state.stores.jobs).map (·.status) = some .failed := by
        simp [hown, hjob, hfailed]
      simp only [Ledger.follow, hburying, hstatus]
      exact (hburies.bury hheld hopen (item, message)).of_eq rfl rfl rfl

end Buries

/-! ## The calls of `requeue_dlq` -/

/-- The notes of a call fit it: the dead letters that are gone are pushed or popped. -/
structure Requeue.Fits (requeue : Requeue) (drain : Drain) (letters : List QueueItem) :
    Prop where
  count : drain.count = requeue.moved.length
  turns : drain.count + drain.popped.toList.length + drain.remaining = requeue.limit.toNat
  gone : requeue.alone = true → ∃ gone, requeue.found = gone ++ letters ∧
    requeue.moved ++ drain.popped.toList.map QueueItem.reset = gone.map QueueItem.reset

/-- There are fitting notes of every running call. -/
def CallsFit (requeues : ℕ → Option Requeue) (drains : ℕ → Option Drain)
    (letters : List QueueItem) : Prop :=
  ∀ call drain, drains call = some drain →
    ∃ requeue, requeues call = some requeue ∧ requeue.Fits drain letters

structure Ledger.Traces (ledger : Ledger) (state : Dispatch) : Prop where
  calls : CallsFit ledger.requeues state.drains (state.worker.deadLetters.map Prod.fst)
  returned : ∀ returned ∈ ledger.returned, returned.requeue.alone = true → returned.Exact

section Traces

variable {settings : Settings} {ledger : Ledger} {state next : Dispatch}
variable {requeue : Requeue} {drain : Drain} {letters : List QueueItem}

/-- Nothing is known of a call that is not alone. -/
theorem Requeue.Fits.disturbed (hfits : requeue.Fits drain letters) (others : List QueueItem) :
    ({ requeue with alone := requeue.alone && !true } : Requeue).Fits drain others :=
  ⟨hfits.count, hfits.turns, fun halone => by simp at halone⟩

theorem Requeue.Fits.start (limit : ℤ) (letters : List QueueItem) :
    ({ limit := limit, found := letters } : Requeue).Fits { remaining := limit.toNat } letters :=
  ⟨rfl, by simp, fun _ => ⟨[], rfl, rfl⟩⟩

theorem Requeue.Fits.rpush {item : QueueItem} (hfits : requeue.Fits drain letters)
    (hpopped : drain.popped = some item) :
    ({ requeue with moved := requeue.moved ++ [item.reset] } : Requeue).Fits
      { drain with popped := none, count := drain.count + 1 } letters := by
  obtain ⟨hcount, hturns, hgone⟩ := hfits
  rw [hpopped] at hturns hgone
  refine ⟨by simp [hcount], by simpa using hturns, fun halone => ?_⟩
  obtain ⟨gone, hfound, hmoved⟩ := hgone halone
  exact ⟨gone, hfound, by simpa using hmoved⟩

theorem Requeue.Fits.lpop {item : QueueItem} {remaining : ℕ}
    (hfits : requeue.Fits drain (item :: letters)) (hpopped : drain.popped = none)
    (hremaining : drain.remaining = remaining + 1) :
    requeue.Fits { drain with remaining := remaining, popped := some item } letters := by
  obtain ⟨hcount, hturns, hgone⟩ := hfits
  rw [hpopped, hremaining] at hturns
  rw [hpopped] at hgone
  refine ⟨hcount, ?_, fun halone => ?_⟩
  · simp only [Option.toList_none, List.length_nil, Option.toList_some,
      List.length_singleton] at hturns ⊢
    omega
  · obtain ⟨gone, hfound, hmoved⟩ := hgone halone
    refine ⟨gone ++ [item], by simp [hfound], ?_⟩
    simpa using hmoved

/-- A call that was alone returns with the first `limit` dead letters moved. -/
theorem Requeue.Fits.exact (hfits : requeue.Fits drain letters) (hpopped : drain.popped = none)
    (hdone : drain.remaining = 0 ∨ letters = []) (halone : requeue.alone = true) :
    (⟨requeue, drain.count, letters⟩ : Returned).Exact := by
  obtain ⟨hcount, hturns, hgone⟩ := hfits
  obtain ⟨gone, hfound, hmoved⟩ := hgone halone
  rw [hpopped] at hturns hmoved
  simp only [Option.toList_none, List.map_nil, List.append_nil, List.length_nil,
    Nat.add_zero] at hturns hmoved
  have hlength : drain.count = gone.length := by rw [hcount, hmoved, List.length_map]
  rcases hdone with hspent | hempty
  · have hlimit : requeue.limit.toNat = gone.length := by omega
    refine ⟨?_, ?_, ?_⟩
    · rw [hmoved, hfound, hlimit, List.take_left' rfl]
      rfl
    · rw [hfound, hlimit, List.drop_left']
      rfl
    · rw [hfound, hlimit, hlength, List.length_append, Nat.min_eq_left (Nat.le_add_right _ _)]
  · have hlimit : gone.length ≤ requeue.limit.toNat := by omega
    rw [hempty, List.append_nil] at hfound
    refine ⟨?_, ?_, ?_⟩
    · rw [hmoved, hfound, List.take_of_length_le hlimit]
      rfl
    · rw [hfound, List.drop_of_length_le hlimit, hempty]
    · rw [hfound, hlength, Nat.min_eq_right hlimit]

theorem CallsFit.update {requeues : ℕ → Option Requeue} {drains : ℕ → Option Drain}
    (hcalls : CallsFit requeues drains letters) (call : ℕ) (hfits : requeue.Fits drain letters) :
    CallsFit (Function.update requeues call (some requeue))
      (Function.update drains call (some drain)) letters := by
  intro other found hfound
  by_cases hcall : other = call
  · rw [hcall, Function.update_self] at hfound ⊢
    cases hfound
    exact ⟨requeue, rfl, hfits⟩
  · rw [Function.update_of_ne hcall] at hfound ⊢
    exact hcalls other found hfound

theorem CallsFit.remove {requeues : ℕ → Option Requeue} {drains : ℕ → Option Drain}
    (hcalls : CallsFit requeues drains letters) (call : ℕ) :
    CallsFit (Function.update requeues call none) (Function.update drains call none) letters := by
  intro other found hfound
  by_cases hcall : other = call
  · rw [hcall, Function.update_self] at hfound
    cases hfound
  · rw [Function.update_of_ne hcall] at hfound ⊢
    exact hcalls other found hfound

theorem Ledger.disturb_requeues {disturbed : ℕ → Bool} {call : ℕ}
    (hrequeue : ledger.requeues call = some requeue) :
    (ledger.disturb disturbed).requeues call =
      some { requeue with alone := requeue.alone && !disturbed call } := by
  simp only [Ledger.disturb, hrequeue, Option.map_some]

/-- A dead letter is pushed: every call is disturbed. -/
theorem CallsFit.bury {drains : ℕ → Option Drain}
    (hcalls : CallsFit ledger.requeues drains letters) (others : List QueueItem) :
    CallsFit (ledger.disturb fun _ => true).requeues drains others := by
  intro call drain hdrain
  obtain ⟨requeue, hrequeue, hfits⟩ := hcalls call drain hdrain
  exact ⟨_, Ledger.disturb_requeues hrequeue, hfits.disturbed others⟩

/-- A call pops a dead letter: the others are disturbed. -/
theorem CallsFit.pop {drains : ℕ → Option Drain} {call : ℕ} {others : List QueueItem}
    (hcalls : CallsFit ledger.requeues drains letters)
    (hrequeue : ledger.requeues call = some requeue) (hfits : requeue.Fits drain others) :
    CallsFit (ledger.disturb fun other => other ≠ call).requeues
      (Function.update drains call (some drain)) others := by
  intro other found hfound
  by_cases hcall : other = call
  · rw [hcall, Function.update_self] at hfound
    cases hfound
    refine ⟨requeue, ?_, hfits⟩
    rw [hcall, Ledger.disturb_requeues hrequeue]
    simp
  · rw [Function.update_of_ne hcall] at hfound
    obtain ⟨seen, hseen, hothers⟩ := hcalls other found hfound
    refine ⟨_, Ledger.disturb_requeues hseen, ?_⟩
    simpa [hcall] using hothers.disturbed others

/-- Only the step that buries a payload adds a dead letter. -/
theorem WorkMove.deadLetters {stores after : Stores} {worker following : Worker}
    {action : WorkerAction} (hmove : WorkMove settings stores worker action after following) :
    following.deadLetters = worker.deadLetters ∨
      ∃ item message, worker.phase = .burying item message := by
  cases hmove with
  | bury hphase => exact Or.inr ⟨_, _, hphase⟩
  | pop | drop | start | index | finish | fail | requeue => exact Or.inl rfl

theorem Ledger.tried_calls (attempt : ℕ) (jobId : Option Uuid) :
    (ledger.tried attempt jobId).requeues = ledger.requeues ∧
      (ledger.tried attempt jobId).returned = ledger.returned := by
  unfold Ledger.tried
  split
  · exact ⟨rfl, rfl⟩
  · exact ⟨rfl, rfl⟩

theorem Ledger.close_calls (ending : Ending) :
    (ledger.close ending).requeues = ledger.requeues ∧
      (ledger.close ending).returned = ledger.returned := by
  unfold Ledger.close
  split
  · exact ⟨rfl, rfl⟩
  · exact ⟨rfl, rfl⟩

/-- The commands that bury nothing disturb no call. -/
theorem Ledger.follow_calls (hphase : ∀ item message, state.worker.phase ≠ .burying item message) :
    (ledger.follow state next).requeues = ledger.requeues ∧
      (ledger.follow state next).returned = ledger.returned := by
  unfold Ledger.follow
  split
  · exact ⟨rfl, rfl⟩
  · exact Ledger.tried_calls _ _
  · exact ⟨rfl, rfl⟩
  · exact ⟨rfl, rfl⟩
  · exact ⟨rfl, rfl⟩
  · exact Ledger.close_calls _
  · exact ⟨rfl, rfl⟩
  · rename_i hburying
    exact absurd hburying (hphase _ _)

/-- A step that changes neither the calls nor the dead letters. -/
theorem Ledger.Traces.of_eq {notes : Ledger} (htraces : ledger.Traces state)
    (hrequeues : notes.requeues = ledger.requeues) (hreturned : notes.returned = ledger.returned)
    (hdrains : next.drains = state.drains)
    (hletters : next.worker.deadLetters = state.worker.deadLetters) : notes.Traces next where
  calls := by
    rw [hrequeues, hdrains, hletters]
    exact htraces.calls
  returned := by
    rw [hreturned]
    exact htraces.returned

/-- Every call is disturbed when a dead letter is pushed. -/
theorem Ledger.Traces.buried {notes : Ledger} (htraces : ledger.Traces state)
    (hrequeues : notes.requeues = ledger.requeues) (hreturned : notes.returned = ledger.returned)
    (hdrains : next.drains = state.drains) : (notes.disturb fun _ => true).Traces next where
  calls := by
    rw [hdrains]
    have hcalls := htraces.calls
    rw [← hrequeues] at hcalls
    exact hcalls.bury _
  returned := by
    intro returned hmem
    exact htraces.returned returned (by rw [← hreturned]; exact hmem)

/-- The observer follows every call. -/
theorem Ledger.Traces.note {action : DispatchAction}
    (hmove : DispatchMove settings state action next) (htraces : ledger.Traces state) :
    (ledger.note state action next).Traces next := by
  cases hmove with
  | upload | load | reindex | push | enqueue => exact htraces.of_eq rfl rfl rfl rfl
  | @work action stores worker hmove =>
      by_cases hphase : ∃ item message, state.worker.phase = .burying item message
      · obtain ⟨item, message, hburying⟩ := hphase
        simp only [Ledger.note, Ledger.follow, hburying]
        exact htraces.buried (Ledger.close_calls _).1 (Ledger.close_calls _).2 rfl
      · have hcalls := @Ledger.follow_calls ledger state
          { state with stores := stores, worker := worker } fun item message hburying =>
            hphase ⟨item, message, hburying⟩
        exact htraces.of_eq hcalls.1 hcalls.2 rfl (hmove.deadLetters.resolve_right hphase)
  | @requeueDlq call limit hdrain =>
      exact ⟨htraces.calls.update call (Requeue.Fits.start limit _), htraces.returned⟩
  | @rpush call drain item hdrain hpopped =>
      obtain ⟨requeue, hrequeue, hfits⟩ := htraces.calls call drain hdrain
      simp only [Ledger.note, hdrain, Ledger.requeued, hrequeue, hpopped]
      exact ⟨htraces.calls.update call (hfits.rpush hpopped), htraces.returned⟩
  | @lpop call remaining drain item error rest hdrain hpopped hremaining hletters =>
      obtain ⟨requeue, hrequeue, hfits⟩ := htraces.calls call drain hdrain
      rw [hletters] at hfits
      simp only [Ledger.note, hdrain, Ledger.requeued, hrequeue, hpopped, Function.update_self]
      exact ⟨htraces.calls.pop hrequeue (hfits.lpop hpopped hremaining), htraces.returned⟩
  | @finished call drain hdrain hpopped hdone =>
      obtain ⟨requeue, hrequeue, hfits⟩ := htraces.calls call drain hdrain
      simp only [Ledger.note, hdrain, Ledger.requeued, hrequeue, hpopped, Function.update_self]
      refine ⟨htraces.calls.remove call, ?_⟩
      intro returned hmem halone
      rcases List.mem_append.mp hmem with hold | hnew
      · exact htraces.returned returned hold halone
      · rw [List.mem_singleton.mp hnew] at halone ⊢
        exact hfits.exact hpopped (hdone.imp_right fun hempty => by rw [hempty]; rfl) halone

/-- So does it follow the dead letters. -/
theorem Ledger.Buries.note {action : DispatchAction}
    (hmove : DispatchMove settings state action next) (htracked : state.Tracked)
    (htraces : ledger.Traces state) (hfits : ledger.Fits settings state.worker)
    (hburies : ledger.Buries state.worker.deadLetters) :
    (ledger.note state action next).Buries next.worker.deadLetters := by
  cases hmove with
  | upload | load | reindex => exact hburies
  | push | enqueue | requeueDlq => exact hburies.of_eq rfl rfl rfl
  | work hmove => exact hburies.follow hmove htracked hfits
  | @rpush call drain item hdrain hpopped =>
      obtain ⟨requeue, hrequeue, _⟩ := htraces.calls call drain hdrain
      simp only [Ledger.note, hdrain, Ledger.requeued, hrequeue, hpopped]
      exact hburies.of_eq rfl rfl rfl
  | @lpop call remaining drain item error rest hdrain hpopped hremaining hletters =>
      obtain ⟨requeue, hrequeue, _⟩ := htraces.calls call drain hdrain
      simp only [Ledger.note, hdrain, Ledger.requeued, hrequeue, hpopped, Function.update_self]
      rw [hletters] at hburies
      exact hburies.lift.of_eq rfl rfl rfl
  | @finished call drain hdrain hpopped hdone =>
      obtain ⟨requeue, hrequeue, _⟩ := htraces.calls call drain hdrain
      simp only [Ledger.note, hdrain, Ledger.requeued, hrequeue, hpopped, Function.update_self]
      exact hburies.of_eq rfl rfl rfl

theorem Ledger.Fits.note {action : DispatchAction}
    (hmove : DispatchMove settings state action next) (htracked : state.Tracked)
    (htraces : ledger.Traces state) (hfits : ledger.Fits settings state.worker)
    (hfirst : ∀ item ∈ state.announced, item.attempt = 0) :
    (ledger.note state action next).Fits settings next.worker := by
  cases hmove with
  | upload | load | reindex => exact hfits
  | push hannounced => exact hfits.issue (hfirst _ hannounced)
  | enqueue hattempt => exact hfits.issue hattempt
  | work hmove => exact hfits.follow hmove htracked
  | requeueDlq => exact hfits.calls _ _ _ _
  | @rpush call drain item hdrain hpopped =>
      obtain ⟨requeue, hrequeue, _⟩ := htraces.calls call drain hdrain
      simp only [Ledger.note, hdrain, Ledger.requeued, hrequeue, hpopped]
      have hissued : (ledger.issue item.reset).Fits settings (state.worker.push item.reset) :=
        hfits.issue rfl
      exact hissued.calls _ _ _ _
  | @lpop call remaining drain item error rest hdrain hpopped hremaining hletters =>
      obtain ⟨requeue, hrequeue, _⟩ := htraces.calls call drain hdrain
      simp only [Ledger.note, hdrain, Ledger.requeued, hrequeue, hpopped, Function.update_self]
      have hsame : ledger.Fits settings { state.worker with deadLetters := rest } :=
        hfits.of_eq rfl rfl hfits.phase
      exact hsame.calls _ _ _ _
  | @finished call drain hdrain hpopped hdone =>
      obtain ⟨requeue, hrequeue, _⟩ := htraces.calls call drain hdrain
      simp only [Ledger.note, hdrain, Ledger.requeued, hrequeue, hpopped, Function.update_self]
      exact hfits.calls _ _ _ _

/-- Requests announce first attempts. -/
theorem DispatchMove.announced {action : DispatchAction}
    (hmove : DispatchMove settings state action next)
    (hfirst : ∀ item ∈ state.announced, item.attempt = 0) :
    ∀ item ∈ next.announced, item.attempt = 0 := by
  cases hmove with
  | upload | reindex =>
      intro item hitem
      rcases List.mem_append.mp hitem with hold | hnew
      · exact hfirst item hold
      · rw [List.mem_singleton.mp hnew]
  | push => exact fun item hitem => hfirst item (List.mem_of_mem_erase hitem)
  | load | enqueue | work | requeueDlq | rpush | lpop | finished => exact hfirst

end Traces

/-! ## The account of a run -/

/-- The account of all payloads and calls: what is in the queue and among the dead
letters, entry by entry, and what became of every payload.  When the worker has nothing
left to do, every payload has ended. -/
structure Ledger.Accounted (settings : Settings) (ledger : Ledger) (state : Dispatch) :
    Prop where
  queue : ledger.waiting.map ledger.view =
    state.worker.queue.map fun item =>
      (some item.documentId, item.jobId, List.range item.attempt)
  deadLetters : ledger.letters.map ledger.endings =
    state.worker.deadLetters.map fun letter => [.buried letter (some .failed)]
  payloads : ∀ number < ledger.issued.length, ledger.Accounts settings number
  calls : ∀ returned ∈ ledger.returned, returned.requeue.alone = true → returned.Exact
  ended : (¬ ∃ following, Works settings state following) →
    ∀ number < ledger.issued.length, ledger.endings number ≠ []

section Account

variable {settings : Settings} {stores : Stores} {ledger : Ledger} {finish : Dispatch}
variable {actions : List DispatchAction} {worker : Worker}

theorem within_made {phase : WorkerPhase} {made : QueueItem} (hwithin : phase.Within settings)
    (hmade : phase.made = some made) : made.attempt ≤ attemptLimit settings := by
  cases phase with
  | idle => cases hmade
  | burying item message =>
      cases hmade
      exact le_of_eq hwithin
  | indexing _ _ | finishing _ _ | failing _ _ _ =>
      cases hmade
      exact Nat.succ_le_of_lt hwithin
  | starting _ | requeueing _ =>
      cases hmade
      exact le_of_lt hwithin

/-- A payload under way has been attempted as often as its counter says. -/
theorem Ledger.Fits.attempts (hfits : ledger.Fits settings worker) {number : ℕ}
    (hunderway : number ∈ ledger.underway) :
    ∃ made ≤ attemptLimit settings, ledger.attempts number = List.range made := by
  rcases List.mem_append.mp hunderway with hheld | hwaiting
  · have hview := hfits.held
    rw [Option.mem_toList.mp hheld, Option.map_some] at hview
    obtain ⟨made, hmade, hsame⟩ := Option.map_eq_some_iff.mp hview.symm
    exact ⟨made.attempt, within_made hfits.phase hmade, (congrArg (·.2.2) hsame).symm⟩
  · have hview : ledger.view number ∈ ledger.waiting.map ledger.view :=
      List.mem_map_of_mem hwaiting
    rw [hfits.waiting] at hview
    obtain ⟨item, hitem, hsame⟩ := List.mem_map.mp hview
    exact ⟨item.attempt, (hfits.queue item hitem).le, (congrArg (·.2.2) hsame).symm⟩

theorem Ledger.Fits.accounts (hfits : ledger.Fits settings worker)
    (hburies : ledger.Buries worker.deadLetters) {number : ℕ}
    (hissued : number < ledger.issued.length) : ledger.Accounts settings number := by
  by_cases hended : ledger.endings number = []
  · have hunderway := (hfits.mem_underway number).mpr ⟨hissued, hended⟩
    exact .underway (List.count_eq_one_of_mem hfits.nodup hunderway) hended
      (hburies.notMem hended) (hfits.attempts hunderway)
  · have hgone : number ∉ ledger.underway := fun hunderway =>
      hended ((hfits.mem_underway number).mp hunderway).2
    rcases hfits.ended number hended with
      ⟨hindexed, hmade⟩ | ⟨item, error, hburied, hlast, hview⟩
    · refine .indexed hgone hindexed ?_ hmade
      intro hmem
      obtain ⟨letter, status, hburied⟩ := (hburies.mem number).mp hmem
      cases hindexed.symm.trans hburied
    · have hmem := (hburies.mem number).mpr ⟨_, _, hburied⟩
      refine .buried item error hgone hburied (List.count_eq_one_of_mem hburies.nodup hmem)
        (congrArg Prod.fst hview) (congrArg (·.2.1) hview) hlast ?_
      rw [← hlast]
      exact congrArg (·.2.2) hview

theorem Ledger.fits_empty : ({} : Ledger).Fits settings {} where
  waiting := rfl
  held := rfl
  queue := fun item hitem => by cases hitem
  phase := trivial
  nodup := List.nodup_nil
  mem_underway := fun number => by simp [Ledger.underway]
  ended := fun number hended => absurd rfl hended
  fresh := fun number _ => ⟨rfl, rfl⟩

theorem Ledger.buries_empty : ({} : Ledger).Buries [] where
  letters := rfl
  nodup := List.nodup_nil
  mem := fun number => by simp

theorem Ledger.traces_empty (stores : Stores) : ({} : Ledger).Traces { stores := stores } where
  calls := fun call drain hdrain => by cases hdrain
  returned := fun returned hmem => by cases hmem

/-- The notes fit after every run. -/
theorem exec_fits
    (hrun : Transition.exec (ledgerStep settings) ({ stores := stores }, {}) actions =
      some (finish, ledger)) :
    ledger.Fits settings finish.worker ∧ ledger.Buries finish.worker.deadLetters ∧
      ledger.Traces finish ∧ finish.Tracked := by
  have hkept := Transition.exec_invariant
    (motive := fun reached : Dispatch × Ledger =>
      reached.2.Fits settings reached.1.worker ∧
        reached.2.Buries reached.1.worker.deadLetters ∧ reached.2.Traces reached.1 ∧
          reached.1.Tracked ∧ ∀ item ∈ reached.1.announced, item.attempt = 0) ?_ hrun ?_
  · exact ⟨hkept.1, hkept.2.1, hkept.2.2.1, hkept.2.2.2.1⟩
  · rintro ⟨state, notes⟩ action reached ⟨hfits, hburies, htraces, htracked, hfirst⟩ hstep
    obtain ⟨next, hnext, rfl⟩ := Option.map_eq_some_iff.mp hstep
    have hmove := dispatchStep_moves hnext
    exact ⟨hfits.note hmove htracked htraces hfirst,
      hburies.note hmove htracked htraces hfits, htraces.note hmove, hmove.tracked htracked,
      hmove.announced hfirst⟩
  · exact ⟨Ledger.fits_empty, Ledger.buries_empty, Ledger.traces_empty stores,
      tracked_empty stores, fun item hitem => by cases hitem⟩

/-- Nothing is left to do only when the queue is empty and the worker idle. -/
theorem ended_of_idle (hfits : ledger.Fits settings finish.worker) (htracked : finish.Tracked)
    (hidle : ¬ ∃ following, Works settings finish following) {number : ℕ}
    (hissued : number < ledger.issued.length) : ledger.endings number ≠ [] := by
  intro hopen
  have hunderway := (hfits.mem_underway number).mpr ⟨hissued, hopen⟩
  apply hidle
  apply works_of_busy htracked
  rcases List.mem_append.mp hunderway with hheld | hwaiting
  · left
    intro hphase
    have hnone := hfits.held
    rw [hphase, Option.mem_toList.mp hheld] at hnone
    cases hnone
  · right
    intro hqueue
    have hnone := hfits.waiting
    rw [hqueue, List.map_nil, List.map_eq_nil_iff] at hnone
    rw [hnone] at hwaiting
    cases hwaiting

/-- Every payload is attempted as `0, 1, 2, …`, at most `max 1 max_indexing_retries`
times, and ends once: its run returns, or it is pushed as one dead letter with a failed
job.  A call of `requeue_dlq` that is alone with the dead letters moves the first
`limit` of them, each with its document and job and the attempt reset.  The worker
cannot go on for ever. -/
theorem payloads_accounted
    (hrun : Transition.exec (dispatchStep settings) { stores := stores } actions =
      some finish) :
    (∃ ledger, Transition.exec (ledgerStep settings) ({ stores := stores }, {}) actions =
      some (finish, ledger) ∧ ledger.Accounted settings finish) ∧
    WellFounded fun following state => Works settings state following := by
  refine ⟨?_, works_wellFounded settings⟩
  have hobserved := Transition.exec_observed (dispatchStep settings) Ledger.note
    { stores := stores } {} actions
  rw [hrun] at hobserved
  obtain ⟨⟨reached, ledger⟩, hrecorded, rfl⟩ := Option.map_eq_some_iff.mp hobserved
  obtain ⟨hfits, hburies, htraces, htracked⟩ := exec_fits hrecorded
  exact ⟨ledger, hrecorded,
    { queue := hfits.waiting
      deadLetters := hburies.letters
      payloads := fun number hissued => hfits.accounts hburies hissued
      calls := htraces.returned
      ended := fun hidle number hissued => ended_of_idle hfits htracked hidle hissued }⟩

/-- The worker takes the next item, and its run fails at once. -/
def sampleFailure (newJobId : Uuid) : List DispatchAction :=
  [.work .pop, .work (.start newJobId ⟨[], [], 0, [], []⟩ .ok),
    .work (.work (.raise "database is down")), .work (.work .ok), .work (.work .ok)]

/-- The only attempts of two documents fail, and the first dead letter is moved back. -/
def sampleBuried : List DispatchAction :=
  [.upload 7 1 3 "handbook.pdf" "pdf", .push ⟨7, 0, some 1⟩,
    .upload 8 2 3 "termine.txt" "txt", .push ⟨8, 0, some 2⟩] ++
  sampleFailure 9 ++ sampleFailure 10 ++ [.requeueDlq 0 1, .drain 0, .drain 0, .drain 0]

theorem payloads_accounted_buried :
    ∃ finish, Transition.exec (dispatchStep { maxIndexingRetries := 1 }) { stores := {} }
        sampleBuried = some finish ∧ finish.worker.queue = [⟨7, 0, some 1⟩] ∧
      finish.worker.deadLetters = [(⟨8, 0, some 2⟩, "database is down")] ∧
      ∃ ledger, Transition.exec (ledgerStep { maxIndexingRetries := 1 }) ({ stores := {} }, {})
          sampleBuried = some (finish, ledger) ∧
        ledger.Accounted { maxIndexingRetries := 1 } finish := by
  refine ⟨_, rfl, rfl, rfl, ?_⟩
  exact (payloads_accounted rfl).1

end Account

end AgenticRag.Ingestion
