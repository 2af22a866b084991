import AgenticRag.Ingestion.Remains
import AgenticRag.Lifecycle.Staleness

/-!
# What is left of a deleted document

`delete_document` clears the text points, the cached answers, the files and the
row; it never calls `PagesIndex.delete_by_document` or
`ObjectStore.delete_document`, which only a run of `index_document` does.  The
deletion runs beside the workers, chat turns and calls for this and other
documents.  Nothing of the document is left if whatever is written of it in the
points, pages, objects and cached answers is cleared afterwards and the file is
erased: the removal of an object or of the file can fail without an exception.
-/

namespace AgenticRag.Lifecycle

open AgenticRag.Graph AgenticRag.Cache AgenticRag.Ingestion

/-! ## Beside the deletion -/

/-- A command of another call of the document service, or of whatever else fills
the ingest queue.  Any command may come at any time. -/
inductive Traffic where
  | saveDocument (other : Uuid)
  | createDocument (other : Uuid) (document : Document) (jobId : Uuid)
  | reindexDocument (other jobId : Uuid) (phase : ReindexPhase) (outcome : Outcome)
  | deleteDocument (other : Uuid) (phase : DeletePhase) (outcome : Outcome)
  | enqueueIndex (item : QueueItem)
  deriving DecidableEq

/-- The effect of a command.  An upload has a new id. -/
def Traffic.perform (documentId : Uuid) (stores : Stores) (worker : Worker) :
    Traffic → Option (Stores × Worker)
  | .saveDocument other =>
      if other = documentId then none
      else some ({ stores with files := insert other stores.files }, worker)
  | .createDocument other document jobId =>
      if other = documentId ∨ stores.documents other ≠ none then none
      else
        some
          ((stores.setDocument other document).setJob jobId
            { documentId := other, status := .queued, attempt := 0 }, worker)
  | .reindexDocument other jobId phase outcome =>
      (reindexStep other jobId (stores, worker, phase) outcome).map
        fun (stores, worker, _) => (stores, worker)
  | .deleteDocument other phase outcome =>
      (deleteStep other (stores, phase) outcome).map fun (stores, _) => (stores, worker)
  | .enqueueIndex item => some (stores, { worker with queue := worker.queue ++ [item] })

/-- The deployment with further replicas of the worker, which take their items from
the one queue. -/
structure Cluster (V : Type) (size : ℕ) extends Deployment V where
  replicas : Fin size → WorkerPhase := fun _ => .idle

/-- A step of the deployment, of a replica or of another call. -/
inductive Activity (V : Type) (size : ℕ) where
  | deployment (event : Event V)
  | replica (index : Fin size) (action : WorkerAction)
  | traffic (traffic : Traffic)

namespace Cluster

variable {V : Type} {size : ℕ}

/-- A replica, with the queue that all share. -/
def replica (cluster : Cluster V size) (index : Fin size) : Worker :=
  { cluster.worker with phase := cluster.replicas index }

section Machine

variable (settings : Settings) (backend : Backend V) (documentId : Uuid)

def act (cluster : Cluster V size) : Activity V size → Option (Cluster V size)
  | .deployment event =>
      (cluster.step settings backend documentId event).map
        fun deployment => { cluster with toDeployment := deployment }
  | .replica index action =>
      (workerStep settings (cluster.stores, cluster.replica index) action).map
        fun (stores, worker) =>
          { cluster with
            stores := stores
            worker := { worker with phase := cluster.worker.phase }
            replicas := Function.update cluster.replicas index worker.phase }
  | .traffic traffic =>
      (traffic.perform documentId cluster.stores cluster.worker).map
        fun (stores, worker) => { cluster with stores := stores, worker := worker }

def history (start : Cluster V size) (activities : List (Activity V size)) :
    Option (Cluster V size) :=
  Transition.exec (act settings backend documentId) start activities

end Machine

/-- `delete_document` is called: any stores, any workers and any cache that its
callers can leave. -/
structure Called (start : Cluster V size) : Prop where
  handler : start.handler = .delete .loading
  evictor : start.evictor = none
  cache : ∃ actions, Machine.run actions = some start.service.cache

/-- The item being handled. -/
def handling : WorkerPhase → Option QueueItem
  | .idle => none
  | .starting item | .indexing item _ | .finishing item _ | .failing item _ _
  | .requeueing item | .burying item _ => some item

/-- `delete_document` has returned, and no indexing of the document is pending or
running. -/
structure Removed (documentId : Uuid) (cluster : Cluster V size) : Prop where
  deleted : cluster.handler = .delete .deleted
  running : ∀ item ∈ handling cluster.worker.phase, item.documentId ≠ documentId
  replicas : ∀ index, ∀ item ∈ handling (cluster.replicas index),
    item.documentId ≠ documentId
  pending : ∀ item ∈ cluster.worker.queue, item.documentId ≠ documentId

/-- Nothing of the document is left. -/
structure Vacant (documentId : Uuid) (cluster : Cluster V size) : Prop where
  ragPoints : cluster.stores.ragPointsOf documentId = []
  pagePoints : cluster.stores.pagePointsOf documentId = []
  objects : cluster.stores.objectsOf documentId = []
  answers : ∀ point ∈ cluster.service.cache.store.points,
    documentId ∉ point.payload.documentIds
  rows : cluster.stores.Rowless documentId
  file : documentId ∉ cluster.stores.files

/-! ## Events -/

section Events

variable (documentId : Uuid) (cluster : Cluster V size)

/-- The command of a run of the workers that takes effect in a step. -/
def executed : Activity V size → Option (Run × Document × Command)
  | .deployment (.worker action) => cluster.worker.executed action
  | .replica index action => (cluster.replica index).executed action
  | _ => none

/-- A run of the document executes such a command. -/
def Executes (kind : Run → Document → Command → Bool) (activity : Activity V size) : Prop :=
  ∃ found ∈ cluster.executed activity,
    found.1.documentId = documentId ∧ kind found.1 found.2.1 found.2.2 = true

/-- The command of a deletion of the document at such a phase takes effect. -/
def DeletesAt (phase : DeletePhase) : Activity V size → Prop
  | .deployment (.handle outcome) =>
      cluster.handler = .delete phase ∧ outcome.takesEffect = true
  | .traffic (.deleteDocument other sent outcome) =>
      other = documentId ∧ sent = phase ∧ outcome.takesEffect = true
  | _ => False

/-- A deletion of the document executes `delete_by_document`. -/
def Clears : Activity V size → Prop :=
  DeletesAt documentId cluster .clearingPoints

/-- `rmtree` erases the file of the document. -/
def ErasesFile : Activity V size → Prop :=
  DeletesAt documentId cluster .deletingFiles

/-- `QdrantIndex.delete_by_document`, of a deletion or of a run. -/
def ClearsPoints (activity : Activity V size) : Prop :=
  Clears documentId cluster activity ∨
    Executes documentId cluster (fun _ _ command => command = .deletePoints) activity

/-- `upsert_points` with at least one point. -/
def UpsertsPoints : Activity V size → Prop :=
  Executes documentId cluster fun run document command =>
    command = .upsertPoints && run.ragPoints document ≠ []

/-- `PagesIndex.delete_by_document` -/
def ClearsPages : Activity V size → Prop :=
  Executes documentId cluster fun _ _ command => command = .clearPages

/-- `upsert_pages` with at least one point. -/
def UpsertsPages : Activity V size → Prop :=
  Executes documentId cluster fun run document command =>
    command = .upsertPages && run.pagePoints document ≠ []

/-- `ObjectStore.delete_document`, and `remove_objects` reports no error for the
object. -/
def DeletesObject (object : StoredObject) : Activity V size → Prop :=
  Executes documentId cluster fun run _ command =>
    command = .deleteObjects && object ∉ run.plan.stuck

/-- `put_figure` or `put_page` of the object. -/
def PutsObject (object : StoredObject) : Activity V size → Prop :=
  Executes documentId cluster fun _ _ command => command.puts documentId = some object

/-- The answer of the request is from the document and escapes the deletion. -/
def EscapesDeletion (request : ℕ) : Activity V size → Prop
  | .deployment event => Deployment.Escapes documentId request cluster.toDeployment event
  | .replica _ _ | .traffic _ => False

instance [DecidableEq V] (request : ℕ) :
    ∀ activity, Decidable (EscapesDeletion documentId cluster request activity)
  | .deployment _ => inferInstanceAs (Decidable (Deployment.Escapes _ _ _ _))
  | .replica _ _ | .traffic _ => isFalse id

instance (kind : Run → Document → Command → Bool) (activity : Activity V size) :
    Decidable (Executes documentId cluster kind activity) :=
  inferInstanceAs (Decidable (∃ found ∈ cluster.executed activity, _))

instance (phase : DeletePhase) :
    ∀ activity, Decidable (DeletesAt documentId cluster phase activity)
  | .deployment (.handle _) => inferInstanceAs (Decidable (_ ∧ _))
  | .traffic (.deleteDocument _ _ _) => inferInstanceAs (Decidable (_ ∧ _ ∧ _))
  | .deployment (.chat _) | .deployment (.worker _) | .deployment (.invalidate _)
  | .replica _ _ | .traffic (.saveDocument _) | .traffic (.createDocument _ _ _)
  | .traffic (.reindexDocument _ _ _ _) | .traffic (.enqueueIndex _) => isFalse id

instance (activity : Activity V size) : Decidable (Clears documentId cluster activity) :=
  inferInstanceAs (Decidable (DeletesAt _ _ _ _))

instance (activity : Activity V size) : Decidable (ErasesFile documentId cluster activity) :=
  inferInstanceAs (Decidable (DeletesAt _ _ _ _))

instance (activity : Activity V size) : Decidable (ClearsPoints documentId cluster activity) :=
  inferInstanceAs (Decidable (_ ∨ _))

instance (activity : Activity V size) :
    Decidable (UpsertsPoints documentId cluster activity) :=
  inferInstanceAs (Decidable (Executes _ _ _ _))

instance (activity : Activity V size) : Decidable (ClearsPages documentId cluster activity) :=
  inferInstanceAs (Decidable (Executes _ _ _ _))

instance (activity : Activity V size) :
    Decidable (UpsertsPages documentId cluster activity) :=
  inferInstanceAs (Decidable (Executes _ _ _ _))

instance (object : StoredObject) (activity : Activity V size) :
    Decidable (DeletesObject documentId cluster object activity) :=
  inferInstanceAs (Decidable (Executes _ _ _ _))

instance (object : StoredObject) (activity : Activity V size) :
    Decidable (PutsObject documentId cluster object activity) :=
  inferInstanceAs (Decidable (Executes _ _ _ _))

end Events

/-- Whatever is written of the document in a store that indexing fills, or was
there before, is cleared later, no answer from it escapes, and the file is erased. -/
structure ClearedAfterwards (settings : Settings) (backend : Backend V)
    (documentId : Uuid) (start : Cluster V size) (activities : List (Activity V size)) :
    Prop where
  points : ¬ Transition.Unanswered (act settings backend documentId) start activities
    (UpsertsPoints documentId) (ClearsPoints documentId)
  pages : ¬ Transition.Unanswered (act settings backend documentId) start activities
    (UpsertsPages documentId) (ClearsPages documentId)
  oldPages : start.stores.pagePointsOf documentId = [] ∨
    Transition.Occurs (act settings backend documentId) start activities
      (ClearsPages documentId)
  objects : ∀ object,
    ¬ Transition.Unanswered (act settings backend documentId) start activities
      (fun cluster => PutsObject documentId cluster object)
      fun cluster => DeletesObject documentId cluster object
  oldObjects : ∀ object ∈ start.stores.objectsOf documentId,
    Transition.Occurs (act settings backend documentId) start activities
      fun cluster => DeletesObject documentId cluster object
  answers : ∀ request,
    ¬ Transition.Occurs (act settings backend documentId) start activities
      fun cluster => EscapesDeletion documentId cluster request
  file : documentId ∉ start.stores.files ∨
    Transition.Occurs (act settings backend documentId) start activities
      (ErasesFile documentId)

/-! ## What a step does -/

section Steps

variable {settings : Settings} {backend : Backend V} {documentId : Uuid}
variable {cluster next : Cluster V size} {activity : Activity V size}

theorem ne_nil_of_subset {α : Type} {items others : List α} (hsubset : items ⊆ others)
    (hsome : items ≠ []) : others ≠ [] := by
  rintro rfl
  exact hsome (List.subset_nil.mp hsubset)

theorem perform_spares {traffic : Traffic} {stores after : Stores} {worker moved : Worker}
    (hperform : traffic.perform documentId stores worker = some (after, moved)) :
    Spares documentId stores after := by
  have hrefl : Spares documentId stores stores := (Bookkeeping.refl stores).spares
  cases traffic with
  | saveDocument other =>
      simp only [Traffic.perform] at hperform
      split_ifs at hperform with hother
      cases hperform
      exact { hrefl with
        files := fun hfile =>
          (Finset.mem_insert.mp hfile).resolve_left fun hsame => hother hsame.symm
        rowless := fun hrowless => ⟨hrowless.document, hrowless.chunks, hrowless.jobs⟩ }
  | createDocument other document jobId =>
      simp only [Traffic.perform] at hperform
      split_ifs at hperform with hother
      cases hperform
      rw [not_or] at hother
      refine { hrefl with rowless := fun hrowless => ⟨?_, hrowless.chunks, ?_⟩ }
      · exact (Function.update_of_ne (Ne.symm hother.1) ..).trans hrowless.document
      · intro written job hjob
        by_cases hwritten : written = jobId
        · subst hwritten
          simp only [Stores.setJob, Function.update_self] at hjob
          cases hjob
          exact hother.1
        · simp only [Stores.setJob, Function.update_of_ne hwritten] at hjob
          exact hrowless.jobs written job hjob
  | reindexDocument other jobId phase outcome =>
      obtain ⟨⟨reached, following, _⟩, hstep, heq⟩ := Option.map_eq_some_iff.mp hperform
      cases heq
      exact reindexStep_spares hstep
  | deleteDocument other phase outcome =>
      obtain ⟨⟨reached, _⟩, hstep, heq⟩ := Option.map_eq_some_iff.mp hperform
      cases heq
      exact deleteStep_spares hstep
  | enqueueIndex item =>
      cases hperform
      exact hrefl

/-- A step is a command of the deletion, executes a command of a run, or writes
nothing of the document. -/
theorem act_cases (hact : cluster.act settings backend documentId activity = some next)
    {phase : DeletePhase} (hdelete : cluster.handler = .delete phase) :
    (∃ outcome following, activity = .deployment (.handle outcome) ∧
      deleteStep documentId (cluster.stores, phase) outcome =
        some (next.stores, following) ∧ next.handler = .delete following) ∨
    (next.handler = cluster.handler ∧ ∃ run document command session,
      cluster.executed activity = some (run, document, command) ∧
      run.execute document cluster.stores command = some (next.stores, session)) ∨
    (next.handler = cluster.handler ∧ cluster.executed activity = none ∧
      Spares documentId cluster.stores next.stores) := by
  have hrefl : Spares documentId cluster.stores cluster.stores :=
    (Bookkeeping.refl cluster.stores).spares
  cases activity with
  | traffic traffic =>
      obtain ⟨⟨after, moved⟩, hperform, rfl⟩ := Option.map_eq_some_iff.mp hact
      exact Or.inr (Or.inr ⟨rfl, rfl, perform_spares hperform⟩)
  | replica index action =>
      obtain ⟨⟨after, moved⟩, hworker, rfl⟩ := Option.map_eq_some_iff.mp hact
      rcases workerStep_executes hworker with
        ⟨run, document, command, session, hexecuted, hexecute⟩ | ⟨hnone, hbooks⟩
      · exact Or.inr (Or.inl ⟨rfl, run, document, command, session, hexecuted, hexecute⟩)
      · exact Or.inr (Or.inr ⟨rfl, hnone, hbooks.spares⟩)
  | deployment event =>
      obtain ⟨reached, hstep, rfl⟩ := Option.map_eq_some_iff.mp hact
      cases event with
      | chat event =>
          obtain ⟨_, _, rfl⟩ := Option.map_eq_some_iff.mp hstep
          exact Or.inr (Or.inr ⟨rfl, rfl, hrefl⟩)
      | invalidate caller =>
          simp only [Deployment.step] at hstep
          split_ifs at hstep
          obtain ⟨_, _, rfl⟩ := Option.map_eq_some_iff.mp hstep
          exact Or.inr (Or.inr ⟨rfl, rfl, hrefl⟩)
      | worker action =>
          obtain ⟨⟨after, moved⟩, hworker, rfl⟩ := Option.map_eq_some_iff.mp hstep
          rcases workerStep_executes hworker with
            ⟨run, document, command, session, hexecuted, hexecute⟩ | ⟨hnone, hbooks⟩
          · exact Or.inr (Or.inl ⟨rfl, run, document, command, session, hexecuted, hexecute⟩)
          · exact Or.inr (Or.inr ⟨rfl, hnone, hbooks.spares⟩)
      | handle outcome =>
          simp only [Deployment.step] at hstep
          split_ifs at hstep
          obtain ⟨⟨after, moved, handler⟩, hadvance, rfl⟩ := Option.map_eq_some_iff.mp hstep
          rw [hdelete] at hadvance
          obtain ⟨⟨cleared, following⟩, hdeletion, heq⟩ := Option.map_eq_some_iff.mp hadvance
          cases heq
          exact Or.inl ⟨outcome, following, rfl, hdeletion, rfl⟩

/-- The cache takes one of its own steps or none. -/
theorem act_cache (hact : cluster.act settings backend documentId activity = some next) :
    next.service.cache = cluster.service.cache ∨
      ∃ action, cluster.service.cache.step action = some next.service.cache := by
  cases activity with
  | traffic traffic =>
      obtain ⟨_, _, rfl⟩ := Option.map_eq_some_iff.mp hact
      exact Or.inl rfl
  | replica index action =>
      obtain ⟨_, _, rfl⟩ := Option.map_eq_some_iff.mp hact
      exact Or.inl rfl
  | deployment event =>
      obtain ⟨reached, hstep, rfl⟩ := Option.map_eq_some_iff.mp hact
      rcases Deployment.step_service hstep with hsame | ⟨event, hservice⟩
      · exact Or.inl (congrArg (·.cache) hsame)
      · rcases Chat.Service.step_cache hservice with
          hsame | ⟨action, _, hcache, _⟩ | ⟨_, _, _, _, _, _, hcache⟩
        · exact Or.inl hsame
        · exact Or.inr ⟨action, hcache⟩
        · exact Or.inr ⟨_, hcache⟩

/-- Only a store call brings an entry. -/
theorem act_point (hact : cluster.act settings backend documentId activity = some next)
    {request : ℕ} {point : Point V}
    (hpoint : (next.service.cache.process request).point = some point) :
    (cluster.service.cache.process request).point = some point ∨
      ∃ now entryId, activity = .deployment (.chat (.store request now entryId)) := by
  cases activity with
  | traffic traffic =>
      obtain ⟨_, _, rfl⟩ := Option.map_eq_some_iff.mp hact
      exact Or.inl hpoint
  | replica index action =>
      obtain ⟨_, _, rfl⟩ := Option.map_eq_some_iff.mp hact
      exact Or.inl hpoint
  | deployment event =>
      obtain ⟨reached, hstep, rfl⟩ := Option.map_eq_some_iff.mp hact
      cases event with
      | worker action =>
          obtain ⟨_, _, rfl⟩ := Option.map_eq_some_iff.mp hstep
          exact Or.inl hpoint
      | handle outcome =>
          simp only [Deployment.step] at hstep
          split_ifs at hstep
          obtain ⟨_, _, rfl⟩ := Option.map_eq_some_iff.mp hstep
          exact Or.inl hpoint
      | invalidate caller =>
          simp only [Deployment.step] at hstep
          split_ifs at hstep
          obtain ⟨_, hservice, rfl⟩ := Option.map_eq_some_iff.mp hstep
          obtain ⟨_, cache, hcache, rfl⟩ := Chat.Service.cache_cases hservice
          rcases Machine.step_point hcache hpoint with hbefore | hinvoked
          · exact Or.inl hbefore
          · cases hinvoked
      | chat event =>
          obtain ⟨_, hservice, rfl⟩ := Option.map_eq_some_iff.mp hstep
          rcases Chat.Service.step_cache hservice with
            hsame | ⟨action, _, hcache, hnone⟩ |
              ⟨storing, now, entryId, _, hstore, _, hcache⟩
          · exact Or.inl (hsame ▸ hpoint)
          · rcases Machine.step_point hcache hpoint with hbefore | hinvoked
            · exact Or.inl hbefore
            · exact absurd hinvoked (hnone request point)
          · rcases Machine.step_point hcache hpoint with hbefore | hinvoked
            · exact Or.inl hbefore
            · cases hinvoked
              cases event with
              | store _ _ _ =>
                  cases hstore
                  exact Or.inr ⟨now, entryId, rfl⟩
              | _ => cases hstore

/-- Only such commands of a run of the document fill such a part of the stores. -/
theorem act_fills {α : Type} {part : Stores → List α}
    {writes : Run → Document → Command → Bool} (hfilled : FilledBy documentId part writes)
    (hact : cluster.act settings backend documentId activity = some next)
    {phase : DeletePhase} (hdelete : cluster.handler = .delete phase)
    (hsome : part next.stores ≠ []) :
    part cluster.stores ≠ [] ∨ Executes documentId cluster writes activity := by
  rcases act_cases hact hdelete with
    ⟨_, _, _, hstep, _⟩ | ⟨_, run, document, command, session, hexecuted, hexecute⟩ |
      ⟨_, _, hspares⟩
  · exact Or.inl (ne_nil_of_subset (hfilled.spared (deleteStep_spares hstep)) hsome)
  · rcases hfilled.executed hexecute with hsubset | ⟨hown, hwrites⟩
    · exact Or.inl (ne_nil_of_subset hsubset hsome)
    · exact Or.inr ⟨_, hexecuted, hown, hwrites⟩
  · exact Or.inl (ne_nil_of_subset (hfilled.spared hspares) hsome)

/-- What a run of the document executes. -/
theorem act_executes (hact : cluster.act settings backend documentId activity = some next)
    {phase : DeletePhase} (hdelete : cluster.handler = .delete phase)
    {kind : Run → Document → Command → Bool}
    (hexecutes : Executes documentId cluster kind activity) :
    ∃ run document command session, run.documentId = documentId ∧
      kind run document command = true ∧
      run.execute document cluster.stores command = some (next.stores, session) := by
  obtain ⟨⟨run, document, command⟩, hfound, hown, hkind⟩ := hexecutes
  rcases act_cases hact hdelete with
    ⟨_, _, rfl, _, _⟩ | ⟨_, run', document', command', session, hexecuted, hexecute⟩ |
      ⟨_, hnone, _⟩
  · cases hfound
  · cases hexecuted.symm.trans hfound
    exact ⟨run, document, command, session, hown, hkind, hexecute⟩
  · cases hnone.symm.trans hfound

/-- A command of a deletion of the document that takes effect. -/
theorem act_deletesAt (hact : cluster.act settings backend documentId activity = some next)
    {phase : DeletePhase} (hdeletes : DeletesAt documentId cluster phase activity) :
    ∃ outcome stores following, next.stores = stores ∧ outcome.takesEffect = true ∧
      deleteStep documentId (cluster.stores, phase) outcome = some (stores, following) := by
  cases activity with
  | traffic traffic =>
      cases traffic with
      | deleteDocument other sent outcome =>
          obtain ⟨rfl, rfl, heffect⟩ := hdeletes
          obtain ⟨⟨reached, worker⟩, hperform, rfl⟩ := Option.map_eq_some_iff.mp hact
          obtain ⟨⟨after, following⟩, hstep, heq⟩ := Option.map_eq_some_iff.mp hperform
          cases heq
          exact ⟨outcome, _, following, rfl, heffect, hstep⟩
      | _ => exact hdeletes.elim
  | replica index action => exact hdeletes.elim
  | deployment event =>
      obtain ⟨reached, hstep, rfl⟩ := Option.map_eq_some_iff.mp hact
      cases event with
      | handle outcome =>
          obtain ⟨hphase, heffect⟩ := hdeletes
          simp only [Deployment.step] at hstep
          split_ifs at hstep
          obtain ⟨⟨after, moved, handler⟩, hadvance, rfl⟩ := Option.map_eq_some_iff.mp hstep
          rw [hphase] at hadvance
          obtain ⟨⟨cleared, following⟩, hdeletion, heq⟩ := Option.map_eq_some_iff.mp hadvance
          cases heq
          exact ⟨outcome, _, following, rfl, heffect, hdeletion⟩
      | _ => exact hdeletes.elim

/-- `delete_by_document` of a deletion of the document. -/
theorem act_clears (hact : cluster.act settings backend documentId activity = some next)
    (hclears : Clears documentId cluster activity) :
    next.stores = cluster.stores.deleteRagPoints documentId := by
  obtain ⟨outcome, stores, following, hstores, heffect, hstep⟩ := act_deletesAt hact hclears
  rw [hstores]
  cases outcome with
  | raise message => cases heffect
  | ok | late message =>
      cases hstep
      rfl

theorem act_erasesFile (hact : cluster.act settings backend documentId activity = some next)
    (herases : ErasesFile documentId cluster activity) :
    documentId ∉ next.stores.files := by
  obtain ⟨outcome, stores, following, hstores, heffect, hstep⟩ := act_deletesAt hact herases
  rw [hstores]
  cases outcome with
  | raise message => cases heffect
  | ok | late message =>
      cases hstep
      exact Finset.notMem_erase _ _

/-- No step brings the file back. -/
theorem act_file (hact : cluster.act settings backend documentId activity = some next)
    {phase : DeletePhase} (hdelete : cluster.handler = .delete phase)
    (hfile : documentId ∈ next.stores.files) : documentId ∈ cluster.stores.files := by
  rcases act_cases hact hdelete with
    ⟨_, _, _, hstep, _⟩ | ⟨_, run, document, command, session, _, hexecute⟩ |
      ⟨_, _, hspares⟩
  · have hspares : Spares documentId cluster.stores next.stores := deleteStep_spares hstep
    exact hspares.files hfile
  · rwa [execute_files hexecute] at hfile
  · exact hspares.files hfile

theorem act_clearsPoints
    (hact : cluster.act settings backend documentId activity = some next)
    {phase : DeletePhase} (hdelete : cluster.handler = .delete phase)
    (hclears : ClearsPoints documentId cluster activity) :
    next.stores.ragPointsOf documentId = [] := by
  rcases hclears with hdeletion | hexecutes
  · rw [act_clears hact hdeletion]
    exact Stores.ragPointsOf_deleteRagPoints
  · obtain ⟨run, document, command, session, rfl, hkind, hexecute⟩ :=
      act_executes hact hdelete hexecutes
    obtain rfl : command = .deletePoints := of_decide_eq_true hkind
    rw [← (Prod.mk.inj (Option.some.inj hexecute)).1]
    exact Stores.ragPointsOf_deleteRagPoints

theorem act_clearsPages
    (hact : cluster.act settings backend documentId activity = some next)
    {phase : DeletePhase} (hdelete : cluster.handler = .delete phase)
    (hclears : ClearsPages documentId cluster activity) :
    next.stores.pagePointsOf documentId = [] := by
  obtain ⟨run, document, command, session, rfl, hkind, hexecute⟩ :=
    act_executes hact hdelete hclears
  obtain rfl : command = .clearPages := of_decide_eq_true hkind
  rw [← (Prod.mk.inj (Option.some.inj hexecute)).1]
  exact Stores.pagePointsOf_deletePagePoints

theorem act_deletesObject
    (hact : cluster.act settings backend documentId activity = some next)
    {phase : DeletePhase} (hdelete : cluster.handler = .delete phase) {object : StoredObject}
    (hown : object.documentId = documentId)
    (hdeletes : DeletesObject documentId cluster object activity) :
    next.stores.objects.filter (· = object) = [] := by
  obtain ⟨run, document, command, session, hrun, hkind, hexecute⟩ :=
    act_executes hact hdelete hdeletes
  obtain ⟨hcommand, hremoved⟩ := Bool.and_eq_true_iff.mp hkind
  obtain rfl := of_decide_eq_true hcommand
  rw [← (Prod.mk.inj (Option.some.inj hexecute)).1, List.filter_eq_nil_iff]
  intro kept hkept hsame
  obtain rfl := of_decide_eq_true hsame
  rcases of_decide_eq_true (List.mem_filter.mp hkept).2 with hother | hstuck
  · exact hother (hown.trans hrun.symm)
  · exact of_decide_eq_true hremoved hstuck

end Steps

/-! ## What a run does -/

section Runs

variable {settings : Settings} {backend : Backend V} {documentId : Uuid}
variable {start cluster next : Cluster V size} {activities : List (Activity V size)}
variable {request : ℕ}

theorem history_cache (hcalled : start.Called)
    (hrun : history settings backend documentId start activities = some cluster) :
    ∃ actions, Machine.run actions = some cluster.service.cache := by
  obtain ⟨past, hpast⟩ := hcalled.cache
  obtain ⟨actions, hactions⟩ := Transition.exec_project
    (fun cluster : Cluster V size => cluster.service.cache) (fun _ _ _ => act_cache) hrun
  exact ⟨past ++ actions, Transition.exec_append_eq_some_iff.mpr ⟨_, hpast, hactions⟩⟩

theorem history_evicted (hcalled : start.Called)
    (hrun : history settings backend documentId start activities = some cluster)
    (hinvalidated : cluster.handler.invalidated = true) : cluster.evicted = true := by
  revert hinvalidated
  apply Transition.exec_invariant (motive := fun cluster : Cluster V size =>
    cluster.handler.invalidated = true → cluster.evicted = true) ?_ hrun
  · intro hinvalidated
    rw [hcalled.handler] at hinvalidated
    cases hinvalidated
  · intro before activity after hbefore hact
    cases activity with
    | deployment event =>
        obtain ⟨reached, hstep, rfl⟩ := Option.map_eq_some_iff.mp hact
        exact Deployment.step_invalidated hbefore hstep
    | replica index action =>
        obtain ⟨_, _, rfl⟩ := Option.map_eq_some_iff.mp hact
        exact hbefore
    | traffic traffic =>
        obtain ⟨_, _, rfl⟩ := Option.map_eq_some_iff.mp hact
        exact hbefore

theorem history_answered (hcalled : start.Called)
    (hrun : history settings backend documentId start activities = some cluster)
    (htimely : ¬ Transition.Occurs (act settings backend documentId) start activities
      fun cluster => EscapesDeletion documentId cluster request) :
    Deployment.Answered documentId request cluster.toDeployment := by
  apply Transition.exec_unless
    (motive := fun cluster => Deployment.Answered documentId request cluster.toDeployment)
    ?_ ?_ hrun htimely
  · intro caller hevictor
    rw [hcalled.evictor] at hevictor
    cases hevictor
  · intro past before activity after hpast hanswered hact htimely
    cases activity with
    | traffic traffic =>
        obtain ⟨_, _, rfl⟩ := Option.map_eq_some_iff.mp hact
        exact hanswered
    | replica index action =>
        obtain ⟨_, _, rfl⟩ := Option.map_eq_some_iff.mp hact
        exact hanswered
    | deployment event =>
        obtain ⟨reached, hstep, rfl⟩ := Option.map_eq_some_iff.mp hact
        obtain ⟨_, hcache⟩ := history_cache hcalled hpast
        exact Deployment.step_answered (Machine.run_wellNamed hcache) (Machine.run_owned hcache)
          hanswered hstep htimely

/-- What the deletion has done when it stands at a phase. -/
structure Progress (settings : Settings) (backend : Backend V) (documentId : Uuid)
    (start : Cluster V size) (activities : List (Activity V size)) (cluster : Cluster V size)
    (phase : DeletePhase) : Prop where
  handler : cluster.handler = .delete phase
  points : phase.pointsCleared = true →
    Transition.Occurs (act settings backend documentId) start activities
      (ClearsPoints documentId)
  rows : phase = .deleted → cluster.stores.Rowless documentId

theorem history_progress (hcalled : start.Called)
    (hrun : history settings backend documentId start activities = some cluster) :
    ∃ phase, Progress settings backend documentId start activities cluster phase := by
  apply Transition.exec_induction (motive := fun past cluster =>
    ∃ phase, Progress settings backend documentId start past cluster phase) ?_ ?_ hrun
  · exact ⟨.loading, hcalled.handler, nofun, nofun⟩
  · rintro past before activity after hpast ⟨phase, hphase⟩ hact
    have hkept : phase.pointsCleared = true →
        Transition.Occurs (act settings backend documentId) start (past ++ [activity])
          (ClearsPoints documentId) := fun hcleared =>
      (Transition.occurs_snoc hpast).mpr (Or.inl (hphase.points hcleared))
    rcases act_cases hact hphase.handler with
      ⟨outcome, following, rfl, hstep, hnext⟩ |
        ⟨hsame, run, document, command, session, _, hexecute⟩ | ⟨hsame, _, hspares⟩
    · refine ⟨following, hnext, ?_, ?_⟩
      · intro hcleared
        rcases deleteStep_cases hstep with ⟨hclearing, heffect, _⟩ | ⟨_, hbeside⟩
        · rw [Transition.occurs_snoc hpast]
          rw [hclearing] at hphase
          exact Or.inr (Or.inl ⟨hphase.handler, heffect⟩)
        · exact hkept (hbeside.cleared hcleared)
      · rintro rfl
        exact deleteStep_rowless hstep
    · exact ⟨phase, hsame.trans hphase.handler, hkept,
        fun hdeleted => execute_rowless (hphase.rows hdeleted) hexecute⟩
    · exact ⟨phase, hsame.trans hphase.handler, hkept,
        fun hdeleted => hspares.rowless (hphase.rows hdeleted)⟩

/-- The file is erased for good. -/
theorem history_file (hcalled : start.Called)
    (hrun : history settings backend documentId start activities = some cluster)
    (hfile : documentId ∈ cluster.stores.files) :
    documentId ∈ start.stores.files ∧
      ¬ Transition.Occurs (act settings backend documentId) start activities
        (ErasesFile documentId) := by
  revert hfile
  apply Transition.exec_induction (motive := fun past cluster =>
    documentId ∈ cluster.stores.files → documentId ∈ start.stores.files ∧
      ¬ Transition.Occurs (act settings backend documentId) start past
        (ErasesFile documentId)) ?_ ?_ hrun
  · exact fun hfile => ⟨hfile, Transition.not_occurs_nil _ _ _⟩
  · intro past before activity after hpast ih hact hfile
    obtain ⟨_, hbefore⟩ := history_progress hcalled hpast
    obtain ⟨hstart, hnone⟩ := ih (act_file hact hbefore.handler hfile)
    refine ⟨hstart, ?_⟩
    rw [Transition.occurs_snoc hpast, not_or]
    exact ⟨hnone, fun herases => act_erasesFile hact herases hfile⟩

/-- Once the deletion has returned, an entry from the document is there only if its
answer has escaped. -/
theorem removed_answers (hcalled : start.Called)
    (hrun : history settings backend documentId start activities = some cluster)
    (hremoved : cluster.Removed documentId)
    (htimely : ∀ request,
      ¬ Transition.Occurs (act settings backend documentId) start activities
        fun cluster => EscapesDeletion documentId cluster request) :
    ∀ point ∈ cluster.service.cache.store.points,
      documentId ∉ point.payload.documentIds := by
  intro point hpoint hdocument
  obtain ⟨_, hcache⟩ := history_cache hcalled hrun
  obtain ⟨request, pending, htagging⟩ := (Machine.run_coherent hcache).written point hpoint
  have hinvalidated : cluster.handler.invalidated = true := by
    rw [hremoved.deleted]
    rfl
  have hswept := history_answered hcalled hrun (htimely request)
  refine hswept.gone (history_evicted hcalled hrun hinvalidated) ?_
    (Payload.doc_mem_tags.mpr hdocument) hpoint
  rw [htagging]
  rfl

/-- What is left in such a part of the stores was there before or was written, and
not cleared since. -/
theorem history_fills {α : Type} {part : Stores → List α}
    {writes : Run → Document → Command → Bool}
    {clears : Cluster V size → Activity V size → Prop}
    (hfilled : FilledBy documentId part writes)
    (hclears : ∀ cluster activity next phase, cluster.handler = .delete phase →
      cluster.act settings backend documentId activity = some next →
      clears cluster activity → part next.stores = [])
    (hcalled : start.Called)
    (hrun : history settings backend documentId start activities = some cluster)
    (hsome : part cluster.stores ≠ []) :
    (part start.stores ≠ [] ∧
      ¬ Transition.Occurs (act settings backend documentId) start activities clears) ∨
    Transition.Unanswered (act settings backend documentId) start activities
      (fun cluster => Executes documentId cluster writes) clears := by
  apply Transition.unanswered_of_holds
    (motive := fun cluster : Cluster V size => part cluster.stores ≠ []) ?_ ?_ hrun hsome
  · intro past before activity after hpast hact hcleared hleft
    obtain ⟨_, hbefore⟩ := history_progress hcalled hpast
    exact hleft (hclears before activity after _ hbefore.handler hact hcleared)
  · intro past before activity after hpast hact hleft
    obtain ⟨_, hbefore⟩ := history_progress hcalled hpast
    exact act_fills hfilled hact hbefore.handler hleft

/-- Nothing of a deleted document is left when whatever is written of it is
cleared afterwards. -/
theorem removed_vacant (hcalled : start.Called)
    (hrun : history settings backend documentId start activities = some cluster)
    (hremoved : cluster.Removed documentId)
    (hcleared : ClearedAfterwards settings backend documentId start activities) :
    cluster.Vacant documentId := by
  obtain ⟨phase, hprogress⟩ := history_progress hcalled hrun
  obtain rfl : phase = .deleted :=
    Handler.delete.inj (hprogress.handler.symm.trans hremoved.deleted)
  refine ⟨?_, ?_, ?_, removed_answers hcalled hrun hremoved hcleared.answers,
    hprogress.rows rfl, ?_⟩
  · by_contra hpoints
    rcases history_fills (ragPointsOf_filledBy documentId)
        (fun _ _ _ _ hdelete hact => act_clearsPoints hact hdelete) hcalled hrun hpoints with
      ⟨_, hnone⟩ | hopen
    · exact hnone (hprogress.points rfl)
    · exact hcleared.points hopen
  · by_contra hpoints
    rcases history_fills (pagePointsOf_filledBy documentId)
        (fun _ _ _ _ hdelete hact => act_clearsPages hact hdelete) hcalled hrun hpoints with
      ⟨hold, hnone⟩ | hopen
    · exact hcleared.oldPages.elim hold hnone
    · exact hcleared.pages hopen
  · by_contra hobjects
    obtain ⟨object, hobject⟩ := List.exists_mem_of_ne_nil _ hobjects
    obtain ⟨hstored, hown⟩ := List.mem_filter.mp hobject
    have hleft : cluster.stores.objects.filter (· = object) ≠ [] :=
      List.ne_nil_of_mem (List.mem_filter.mpr ⟨hstored, decide_eq_true rfl⟩)
    rcases history_fills (object_filledBy (of_decide_eq_true hown))
        (fun _ _ _ _ hdelete hact =>
          act_deletesObject hact hdelete (of_decide_eq_true hown)) hcalled hrun hleft with
      ⟨hold, hnone⟩ | hopen
    · obtain ⟨old, hmem⟩ := List.exists_mem_of_ne_nil _ hold
      obtain ⟨hthere, hsame⟩ := List.mem_filter.mp hmem
      obtain rfl := of_decide_eq_true hsame
      exact hnone (hcleared.oldObjects old (List.mem_filter.mpr ⟨hthere, hown⟩))
    · exact hcleared.objects object hopen
  · intro hfile
    obtain ⟨hstart, hnone⟩ := history_file hcalled hrun hfile
    exact hcleared.file.elim (fun hgone => hgone hstart) hnone

/-- An entry that a store call holds was brought by that call. -/
theorem history_stored
    (hrun : history settings backend documentId start activities = some cluster)
    {point : Point V} (hpoint : (cluster.service.cache.process request).point = some point) :
    (start.service.cache.process request).point = some point ∨
      ∃ now entryId, .deployment (.chat (.store request now entryId)) ∈ activities := by
  revert hpoint
  apply Transition.exec_induction (motive := fun past cluster =>
    (cluster.service.cache.process request).point = some point →
    (start.service.cache.process request).point = some point ∨
      ∃ now entryId, .deployment (.chat (.store request now entryId)) ∈ past) ?_ ?_ hrun
  · exact Or.inl
  · intro past before activity after hpast ih hact hpoint
    have hold : (before.service.cache.process request).point = some point →
        (start.service.cache.process request).point = some point ∨
          ∃ now entryId, Activity.deployment (.chat (.store request now entryId)) ∈
            past ++ [activity] := by
      intro hbefore
      rcases ih hbefore with hstart | ⟨now, entryId, hmem⟩
      · exact Or.inl hstart
      · exact Or.inr ⟨now, entryId, List.mem_append_left _ hmem⟩
    rcases act_point hact hpoint with hbefore | ⟨now, entryId, rfl⟩
    · exact hold hbefore
    · exact Or.inr ⟨now, entryId, by simp⟩

/-- Only the answer of a store call of the run can escape. -/
theorem stored_of_escapes
    (hnone : ∀ request, (start.service.cache.process request).point = none)
    (hescapes : Transition.Occurs (act settings backend documentId) start activities
      fun cluster => EscapesDeletion documentId cluster request) :
    ∃ now entryId, .deployment (.chat (.store request now entryId)) ∈ activities := by
  obtain ⟨before, activity, after, state, rfl, hbefore, hescape⟩ := hescapes
  cases activity with
  | traffic traffic => exact hescape.elim
  | replica index action => exact hescape.elim
  | deployment event =>
      obtain ⟨hlate, _⟩ := hescape
      cases event with
      | chat event =>
          cases event with
          | store storing now entryId =>
              obtain ⟨rfl, _⟩ := hlate
              exact ⟨now, entryId, by simp⟩
          | cache action =>
              cases action with
              | proceed caller =>
                  obtain ⟨_, _, point, hpoint, _⟩ := hlate
                  rcases history_stored hbefore hpoint with hstart | ⟨now, entryId, hmem⟩
                  · cases (hnone request).symm.trans hstart
                  · exact ⟨now, entryId, List.mem_append_left _ hmem⟩
              | invoke _ _ => exact hlate.elim
          | _ => exact hlate.elim
      | _ => exact hlate.elim

end Runs

/-! ## A document with pages -/

open Deployment

/-- An uploaded document, which waits in the ingest queue of two workers. -/
def uploaded (filename fileType : String) : Cluster String 1 where
  toDeployment := opening feeReader
    { documents := fun id =>
        if id = 1 then
          some { collectionId := 7, filename := filename, fileType := fileType }
        else none
      jobs := fun id =>
        if id = 31 then some { documentId := 1, status := .queued, attempt := 0 } else none
      files := {1} }
    { queue := [⟨1, 0, some 31⟩] } (.delete .loading)

/-- The worker handles the item; the run and its tracking send so many commands. -/
def indexing (plan : Plan) (commands : ℕ) : List (Activity String 1) :=
  (Event.worker .pop :: .worker (.start 32 plan .ok) ::
    List.replicate commands (.worker (.work .ok))).map .deployment

/-- A text document of one chunk. -/
def feePlan : Plan where
  figures := []
  chunks := [(11, ⟨.text, "Die Gebühr beträgt 20 Euro.", "Die Gebühr beträgt 20 Euro.", 0,
    some 1, none, none⟩)]
  pageCount := 1
  pages := []

/-- A document with one figure and one page. -/
def mapPlan : Plan where
  figures := [some 1]
  chunks := [(11, ⟨.image, "Lageplan", "Lageplan", 0, some 1, none, none⟩)]
  pageCount := 1
  pages := [(1, some 21)]

/-- A text document of one chunk. -/
def datePlan : Plan where
  figures := []
  chunks := [(12, ⟨.text, "Die Frist endet im Mai.", "Die Frist endet im Mai.", 0,
    some 1, none, none⟩)]
  pageCount := 1
  pages := []

/-- Another document is uploaded, and the replica starts with it. -/
def otherUpload : List (Activity String 1) :=
  [.traffic (.saveDocument 2),
    .traffic (.createDocument 2
      { collectionId := 7, filename := "termine.txt", fileType := "txt" } 33),
    .traffic (.enqueueIndex ⟨2, 0, some 33⟩),
    .replica 0 .pop, .replica 0 (.start 34 datePlan .ok)] ++
    List.replicate 12 (.replica 0 (.work .ok))

instance (documentId : Uuid) (cluster : Cluster String 1) :
    Decidable (cluster.Removed documentId) :=
  decidable_of_iff (cluster.handler = .delete .deleted ∧
      (∀ item ∈ handling cluster.worker.phase, item.documentId ≠ documentId) ∧
      (∀ index, ∀ item ∈ handling (cluster.replicas index), item.documentId ≠ documentId) ∧
      ∀ item ∈ cluster.worker.queue, item.documentId ≠ documentId)
    ⟨fun ⟨hdeleted, hrunning, hreplicas, hpending⟩ =>
        ⟨hdeleted, hrunning, hreplicas, hpending⟩,
      fun hremoved =>
        ⟨hremoved.deleted, hremoved.running, hremoved.replicas, hremoved.pending⟩⟩

/-- The text document is indexed, a turn answers from it, another document comes,
and it is deleted. -/
def textHistory : List (Activity String 1) :=
  indexing feePlan 16 ++ (feeTurn ++ feeStore).map .deployment ++ otherUpload ++
    (feeDeletion 3).map .deployment

/-- The document with pages is indexed and deleted. -/
def mapHistory : List (Activity String 1) :=
  indexing mapPlan 23 ++ (feeDeletion 1).map .deployment

theorem removed_vacant_text :
    ∃ cluster, history {} exactBackend 1 (uploaded "gebuehren.txt" "txt") textHistory =
        some cluster ∧ cluster.Vacant 1 := by
  have hresult : ∃ cluster ∈
      history {} exactBackend 1 (uploaded "gebuehren.txt" "txt") textHistory,
      cluster.Removed 1 := by
    decide +kernel
  obtain ⟨cluster, hrun, hremoved⟩ := hresult
  refine ⟨cluster, hrun, removed_vacant ⟨rfl, rfl, [], rfl⟩ hrun hremoved ?_⟩
  have hputs : ¬ Transition.Occurs (act {} exactBackend 1) (uploaded "gebuehren.txt" "txt")
      textHistory fun cluster =>
        Executes 1 cluster fun _ _ command => (command.puts 1).isSome := by
    decide +kernel
  refine ⟨by decide +kernel, by decide +kernel, Or.inl rfl, ?_, nofun, ?_,
    Or.inr (by decide +kernel)⟩
  · intro object hopen
    refine hputs (hopen.occurs.mono ?_)
    rintro state activity ⟨found, hfound, hown, hkind⟩
    exact ⟨found, hfound, hown, by simp [of_decide_eq_true hkind]⟩
  intro request hescapes
  obtain ⟨now, entryId, hstored⟩ := stored_of_escapes (fun _ => rfl) hescapes
  have hzero : request = 0 := by
    simp [textHistory, indexing, feeTurn, feeStore, otherUpload, feeDeletion] at hstored
    exact hstored.1
  subst hzero
  revert hescapes
  decide +kernel

/-- The page point, the figure and the page image of the deleted document stay. -/
theorem removed_not_vacant :
    ¬ ∀ (size : ℕ) (settings : Settings) (backend : Backend String) (documentId : Uuid)
        (start : Cluster String size) (activities : List (Activity String size))
        (cluster : Cluster String size),
      start.Called →
      history settings backend documentId start activities = some cluster →
      cluster.Removed documentId → cluster.Vacant documentId := by
  intro hclaim
  have hresult : ∃ cluster ∈
      history { visualPath := .full } exactBackend 1 (uploaded "plan.pdf" "pdf") mapHistory,
      cluster.Removed 1 ∧ cluster.stores.pagePointsOf 1 ≠ [] ∧
        cluster.stores.objectsOf 1 ≠ [] := by
    decide +kernel
  obtain ⟨cluster, hrun, hremoved, hpages, _⟩ := hresult
  exact hpages (hclaim _ _ _ _ _ _ _ ⟨rfl, rfl, [], rfl⟩ hrun hremoved).pagePoints

end Cluster

end AgenticRag.Lifecycle
