import AgenticRag.Access.History
import AgenticRag.Core.Paging
import AgenticRag.Core.Transition
import AgenticRag.Ingestion.ObjectUris

/-!
# The audit of the retrievable points

`audit_collection` scrolls through a Qdrant collection and reports the points without the
keys that the permission filter reads.  Documents are indexed, cleared and deleted
meanwhile, and other clients may write points of their own.
-/

namespace AgenticRag.AclAudit

open Transition
open Paging (Reader)
open Ingestion (ChunkType RagPoint PagePoint)
open Clients (Json)
open History (Record)

/-! ## Points -/

/-- The collections of retrievable points. -/
inductive Name where
  | ragChunks
  | docsPages
  deriving DecidableEq

structure Point where
  id : Uuid
  payload : Option Record

/-- `REQUIRED_ACL_KEYS` -/
def requiredAclKeys : List String := ["collection_id", "document_id"]

/-- `[k for k in REQUIRED_ACL_KEYS if not payload.get(k)]` -/
def missing (point : Point) : List String :=
  requiredAclKeys.filter fun key => ! (Record.get (point.payload.getD []) key).truthy

structure AclViolation where
  collection : Name
  pointId : String
  missing : List String
  deriving DecidableEq

def violation (collection : Name) (point : Point) : Option AclViolation :=
  if missing point = [] then none else some ⟨collection, point.id.str, missing point⟩

/-! ## What the pipeline writes -/

/-- `ch.chunk_type.value` -/
def chunkTypeValue : ChunkType → String
  | .text => "text"
  | .table => "table"
  | .image => "image"
  | .chart => "chart"
  | .diagram => "diagram"
  | .form => "form"
  | .ocr => "ocr"

def optionalText : Option String → Json
  | none => .null
  | some text => .string text

def optionalNumber : Option ℕ → Json
  | none => .null
  | some number => .number number

/-- The point that `index_document` makes of a chunk. -/
def ragPoint (point : RagPoint) : Point where
  id := point.id
  payload := some
    [("document_id", .string point.documentId.str),
     ("collection_id", .string point.collectionId.str),
     ("chunk_id", .string point.id.str),
     ("chunk_type", .string (chunkTypeValue point.chunkType)),
     ("page_number", optionalNumber point.pageNumber),
     ("section_title", optionalText point.sectionTitle),
     ("file_name", .string point.fileName),
     ("file_type", .string point.fileType),
     ("content", .string point.content),
     ("image_uri", optionalText point.imageUri)]

/-- The point that `index_pages` makes of a page, by `page_payload`. -/
def pagePoint (point : PagePoint) : Point where
  id := point.id
  payload := some
    [("document_id", .string point.documentId.str),
     ("collection_id", .string point.collectionId.str),
     ("page_number", .number point.pageNumber),
     ("image_uri", .string (ObjectStore.toUri (ObjectStore.bucketName .pages)
       (ObjectStore.pageKey point.documentId point.pageNumber))),
     ("file_name", .string point.fileName),
     ("file_type", .string point.fileType),
     ("modality", .string "page_image")]

theorem truthy_str (id : Uuid) : (Json.string id.str).truthy = true := by
  have hne : id.str ≠ "" := by
    intro heq
    exact id.str_ne_empty (by rw [heq]; rfl)
  simp [Json.truthy, hne]

theorem missing_ragPoint (point : RagPoint) : missing (ragPoint point) = [] := by
  simp [missing, requiredAclKeys, ragPoint, Record.get, List.lookup_cons, truthy_str]

theorem missing_pagePoint (point : PagePoint) : missing (pagePoint point) = [] := by
  simp [missing, requiredAclKeys, pagePoint, Record.get, List.lookup_cons, truthy_str]

/-! ## The audit -/

/-- The next command of the audit. -/
inductive Task where
  | lookup (collection : Name)
  | scroll (collection : Name) (offset : Option Uuid)
  deriving DecidableEq

/-- `task` is `none` once the audit has returned. -/
structure Audit where
  task : Option Task
  later : List Name
  violations : List AclViolation := []
  deriving DecidableEq

/-- The collections that are still to audit, in this order. -/
def Audit.turnTo (violations : List AclViolation) : List Name → Audit
  | [] => ⟨none, [], violations⟩
  | collection :: later => ⟨some (.lookup collection), later, violations⟩

/-- `audit_collection` -/
def auditCollection (collection : Name) : Audit := .turnTo [] [collection]

/-- `audit_all` -/
def auditAll : Audit := .turnTo [] [.ragChunks, .docsPages]

abbrev Collections := Name → Option (List Point)

/-- One command of the audit and what it makes of the answer. -/
def Audit.step (batch : ℕ) (collections : Collections) (audit : Audit) : Option Audit :=
  match audit.task with
  | none => none
  | some (.lookup collection) =>
      match collections collection with
      | none => some (.turnTo audit.violations audit.later)
      | some _ => some { audit with task := some (.scroll collection none) }
  | some (.scroll collection offset) =>
      (collections collection).map fun points =>
        let page := Paging.page Point.id batch offset points
        let violations := audit.violations ++ page.1.filterMap (violation collection)
        match page.2 with
        | none => .turnTo violations audit.later
        | some next =>
            { task := some (.scroll collection (some next))
              later := audit.later
              violations := violations }

/-! ## The clients of the vector database -/

structure World where
  collections : Collections
  audit : Audit

/-- Write one point. -/
def put (points : List Point) (point : Point) : List Point :=
  points.filter (·.id ≠ point.id) ++ [point]

inductive Event where
  | audit
  | ensureCollection (collection : Name)
  | indexChunks (points : List RagPoint)
  | indexPages (points : List PagePoint)
  | foreign (collection : Name) (points : List Point)
  | delete (collection : Name) (ids : List Uuid)

def setCollection (world : World) (collection : Name) (points : List Point) : World :=
  { world with collections := Function.update world.collections collection (some points) }

@[simp]
theorem setCollection_self (world : World) (collection : Name) (points : List Point) :
    (setCollection world collection points).collections collection = some points :=
  Function.update_self _ _ _

theorem setCollection_of_ne {other collection : Name} (hother : other ≠ collection)
    (world : World) (points : List Point) :
    (setCollection world collection points).collections other = world.collections other :=
  Function.update_of_ne hother _ _

/-- `upsert_points` and `upsert_pages`; a collection that is absent makes them raise. -/
def upsert (world : World) (collection : Name) (points : List Point) : Option World :=
  if points = [] then some world
  else (world.collections collection).map fun held =>
    setCollection world collection (points.foldl put held)

def step (batch : ℕ) (world : World) : Event → Option World
  | .audit => (world.audit.step batch world.collections).map fun audit =>
      { world with audit := audit }
  | .ensureCollection collection =>
      match world.collections collection with
      | none => some (setCollection world collection [])
      | some _ => some world
  | .indexChunks points => upsert world .ragChunks (points.map ragPoint)
  | .indexPages points => upsert world .docsPages (points.map pagePoint)
  | .foreign collection points => upsert world collection points
  | .delete collection ids => (world.collections collection).map fun held =>
      setCollection world collection (held.filter (·.id ∉ ids))

/-- The collection holds the point. -/
def Holds (world : World) (collection : Name) (point : Point) : Prop :=
  ∃ points, world.collections collection = some points ∧ point ∈ points

/-- No two points of a collection have the same id. -/
def Keyed (world : World) : Prop :=
  ∀ collection points, world.collections collection = some points →
    (points.map Point.id).Nodup

/-! ## What the writes keep -/

section Writes

variable {batch : ℕ} {world next : World} {event : Event} {collection : Name} {point : Point}

theorem mem_put {points : List Point} {written : Point} (hpoint : point ∈ put points written) :
    point ∈ points ∨ point = written := by
  cases List.mem_append.mp hpoint with
  | inl hold => exact .inl (List.mem_of_mem_filter hold)
  | inr hnew => exact .inr (List.mem_singleton.mp hnew)

theorem put_keyed {points : List Point} {written : Point} (hkeyed : (points.map Point.id).Nodup) :
    ((put points written).map Point.id).Nodup := by
  rw [put, List.map_append, List.nodup_append]
  refine ⟨hkeyed.sublist (List.filter_sublist.map _), by simp, ?_⟩
  intro id hid other hother heq
  obtain ⟨kept, hkept, rfl⟩ := List.mem_map.mp hid
  rw [List.map_singleton, List.mem_singleton] at hother
  have hne := (List.mem_filter.mp hkept).2
  rw [heq, hother] at hne
  simp at hne

theorem mem_foldl_put {held points : List Point} (hpoint : point ∈ points.foldl put held) :
    point ∈ held ∨ point ∈ points := by
  induction points generalizing held with
  | nil => exact .inl hpoint
  | cons written points ih =>
      cases ih hpoint with
      | inl hmem =>
          cases mem_put hmem with
          | inl hold => exact .inl hold
          | inr hnew => exact .inr (hnew ▸ List.mem_cons_self)
      | inr hlater => exact .inr (List.mem_cons_of_mem _ hlater)

theorem foldl_put_keyed {held points : List Point} (hkeyed : (held.map Point.id).Nodup) :
    ((points.foldl put held).map Point.id).Nodup := by
  induction points generalizing held with
  | nil => exact hkeyed
  | cons written points ih => exact ih (put_keyed hkeyed)

/-- The points an event writes to a collection. -/
def Event.written (collection : Name) : Event → List Point
  | .indexChunks points => if collection = .ragChunks then points.map ragPoint else []
  | .indexPages points => if collection = .docsPages then points.map pagePoint else []
  | .foreign target points => if collection = target then points else []
  | .audit | .ensureCollection _ | .delete _ _ => []

/-- A step of another client: the audit stays where it is, and a collection gets some of its
points and some of those that are written. -/
structure Changes (world : World) (event : Event) (next : World) : Prop where
  audit : next.audit = world.audit
  points : ∀ collection point, Holds next collection point →
    Holds world collection point ∨ point ∈ event.written collection
  exist : ∀ collection, (world.collections collection).isSome = true →
    (next.collections collection).isSome = true
  keyed : Keyed world → Keyed next

theorem Changes.refl (world : World) (event : Event) : Changes world event world where
  audit := rfl
  points := fun _ _ hholds => .inl hholds
  exist := fun _ hexists => hexists
  keyed := id

theorem changes_setCollection {points : List Point}
    (hpoints : ∀ point ∈ points, Holds world collection point ∨
      point ∈ event.written collection)
    (hkeyed : Keyed world → (points.map Point.id).Nodup) :
    Changes world event (setCollection world collection points) := by
  refine ⟨rfl, ?_, ?_, ?_⟩
  · rintro other found ⟨held, hheld, hfound⟩
    by_cases hother : other = collection
    · rw [hother, setCollection_self] at hheld
      cases hheld
      rw [hother]
      exact hpoints found hfound
    · rw [setCollection_of_ne hother] at hheld
      exact .inl ⟨held, hheld, hfound⟩
  · intro other hexists
    by_cases hother : other = collection
    · rw [hother, setCollection_self]
      rfl
    · rw [setCollection_of_ne hother]
      exact hexists
  · intro hworld other held hheld
    by_cases hother : other = collection
    · rw [hother, setCollection_self] at hheld
      cases hheld
      exact hkeyed hworld
    · rw [setCollection_of_ne hother] at hheld
      exact hworld other held hheld

theorem changes_upsert {points : List Point}
    (hwritten : ∀ point ∈ points, point ∈ event.written collection)
    (hupsert : upsert world collection points = some next) : Changes world event next := by
  rw [upsert] at hupsert
  split_ifs at hupsert with hnone
  · cases hupsert
    exact Changes.refl world event
  · obtain ⟨held, hheld, rfl⟩ := Option.map_eq_some_iff.mp hupsert
    apply changes_setCollection
    · intro point hpoint
      cases mem_foldl_put hpoint with
      | inl hold => exact .inl ⟨held, hheld, hold⟩
      | inr hnew => exact .inr (hwritten point hnew)
    · intro hworld
      exact foldl_put_keyed (hworld collection held hheld)

/-- Everything an event other than a command of the audit does. -/
theorem step_changes (hother : event ≠ .audit) (hstep : step batch world event = some next) :
    Changes world event next := by
  cases event with
  | audit => exact absurd rfl hother
  | ensureCollection collection =>
      rw [step] at hstep
      cases hheld : world.collections collection with
      | none =>
          rw [hheld] at hstep
          cases hstep
          exact changes_setCollection (fun _ hpoint => absurd hpoint List.not_mem_nil)
            fun _ => List.nodup_nil
      | some held =>
          rw [hheld] at hstep
          cases hstep
          exact Changes.refl world _
  | indexChunks points =>
      apply changes_upsert ?_ hstep
      intro point hpoint
      rw [Event.written, if_pos rfl]
      exact hpoint
  | indexPages points =>
      apply changes_upsert ?_ hstep
      intro point hpoint
      rw [Event.written, if_pos rfl]
      exact hpoint
  | foreign collection points =>
      apply changes_upsert ?_ hstep
      intro point hpoint
      rw [Event.written, if_pos rfl]
      exact hpoint
  | delete collection ids =>
      obtain ⟨held, hheld, rfl⟩ := Option.map_eq_some_iff.mp hstep
      apply changes_setCollection
      · intro point hpoint
        exact .inl ⟨held, hheld, List.mem_of_mem_filter hpoint⟩
      · intro hworld
        exact (hworld collection held hheld).sublist (List.filter_sublist.map _)

theorem step_audit (hstep : step batch world .audit = some next) :
    next.collections = world.collections ∧
      world.audit.step batch world.collections = some next.audit := by
  obtain ⟨audit, haudit, rfl⟩ := Option.map_eq_some_iff.mp hstep
  exact ⟨rfl, haudit⟩

theorem step_keyed (hstep : step batch world event = some next) (hkeyed : Keyed world) :
    Keyed next := by
  by_cases haudit : event = .audit
  · rw [haudit] at hstep
    rw [Keyed, (step_audit hstep).1]
    exact hkeyed
  · exact (step_changes haudit hstep).keyed hkeyed

end Writes

/-! ## What a command of the audit does -/

section Commands

variable {batch : ℕ} {collections : Collections} {audit next : Audit}

/-- The audit goes on in its collection, or turns to the next one. -/
def Audit.goOn (audit : Audit) (collection : Name) (violations : List AclViolation)
    (reader : Reader Point Uuid) : Audit :=
  if reader.finished then .turnTo violations audit.later
  else { task := some (.scroll collection reader.offset)
         later := audit.later
         violations := violations }

/-- Everything a command of the audit does. -/
theorem audit_cases (hstep : audit.step batch collections = some next) :
    (∃ collection, audit.task = some (.lookup collection) ∧ collections collection = none ∧
      next = .turnTo audit.violations audit.later) ∨
    (∃ collection points, audit.task = some (.lookup collection) ∧
      collections collection = some points ∧
      next = { audit with task := some (.scroll collection none) }) ∨
    ∃ collection offset points, audit.task = some (.scroll collection offset) ∧
      collections collection = some points ∧
      ∀ reader : Reader Point Uuid, reader.offset = offset →
        next = audit.goOn collection
          (audit.violations ++ (Paging.page Point.id batch offset points).1.filterMap
            (violation collection))
          (reader.advance Point.id batch points) := by
  rw [Audit.step] at hstep
  cases htask : audit.task with
  | none =>
      rw [htask] at hstep
      cases hstep
  | some task =>
      rw [htask] at hstep
      cases task with
      | lookup collection =>
          dsimp only at hstep
          cases hpoints : collections collection with
          | none =>
              rw [hpoints] at hstep
              cases hstep
              exact .inl ⟨collection, rfl, hpoints, rfl⟩
          | some points =>
              rw [hpoints] at hstep
              cases hstep
              exact .inr (.inl ⟨collection, points, rfl, hpoints, rfl⟩)
      | scroll collection offset =>
          obtain ⟨points, hpoints, hnext⟩ := Option.map_eq_some_iff.mp hstep
          refine .inr (.inr ⟨collection, offset, points, rfl, hpoints, ?_⟩)
          intro reader hoffset
          rw [← hnext, Audit.goOn, Reader.advance, hoffset]
          cases hpage : (Paging.page Point.id batch offset points).2 with
          | none => simp [hpage]
          | some first => simp [hpage]

end Commands

/-! ## What a run of the audit reports -/

section Runs

variable {batch : ℕ} {names : List Name} {start world next : World} {past : List Event}

/-- A command of the audit while the collection holds the point. -/
def Meets (collection : Name) (point : Point) (world : World) (event : Event) : Prop :=
  event = .audit ∧ Holds world collection point

/-- The point stands in the collection all along. -/
def Stays (batch : ℕ) (start : World) (events : List Event) (collection : Name)
    (point : Point) : Prop :=
  ∀ past world, past <+: events → exec (step batch) start past = some world →
    Holds world collection point

theorem Stays.earlier {events rest : List Event} {collection : Name} {point : Point}
    (hstays : Stays batch start (events ++ rest) collection point) :
    Stays batch start events collection point :=
  fun past world hfront => hstays past world (hfront.trans (List.prefix_append _ _))

/-- What is known of a collection and the reader that went through it. -/
structure Entry (batch : ℕ) (start : World) (past : List Event)
    (entry : Name × Reader Point Uuid) : Prop where
  ordered : Paging.Ordered Point.id entry.2
  seen : ∀ point ∈ entry.2.read, Occurs (step batch) start past (Meets entry.1 point)
  keeps : ∀ point, Stays batch start past entry.1 point → Paging.Keeps Point.id entry.2 point

theorem Entry.later {entry : Name × Reader Point Uuid} (hentry : Entry batch start past entry)
    (event : Event) : Entry batch start (past ++ [event]) entry where
  ordered := hentry.ordered
  seen := fun point hpoint => (hentry.seen point hpoint).append [event]
  keeps := fun point hstays => hentry.keeps point hstays.earlier

/-- The collections that the audit has not turned to. -/
def Audit.pending (audit : Audit) : List Name :=
  match audit.task with
  | none => []
  | some (.lookup collection) => collection :: audit.later
  | some (.scroll _ _) => audit.later

@[simp]
theorem pending_turnTo (violations : List AclViolation) (later : List Name) :
    (Audit.turnTo violations later).pending = later := by
  cases later with
  | nil => rfl
  | cons collection later => rfl

@[simp]
theorem violations_turnTo (violations : List AclViolation) (later : List Name) :
    (Audit.turnTo violations later).violations = violations := by
  cases later with
  | nil => rfl
  | cons collection later => rfl

/-- The collections before the one in which the audit stands are done. -/
def Standing (log : List (Name × Reader Point Uuid)) : Option Task → Prop
  | none | some (.lookup _) => ∀ entry ∈ log, entry.2.finished = true
  | some (.scroll collection offset) =>
      ∃ front reader, log = front ++ [(collection, reader)] ∧
        (∀ entry ∈ front, entry.2.finished = true) ∧
        reader.finished = false ∧ reader.offset = offset

theorem standing_turnTo {log : List (Name × Reader Point Uuid)}
    (hdone : ∀ entry ∈ log, entry.2.finished = true) (violations : List AclViolation)
    (later : List Name) : Standing log (Audit.turnTo violations later).task := by
  cases later with
  | nil => exact hdone
  | cons collection later => exact hdone

/-- The violations of the collections that have been gone through. -/
def reported (log : List (Name × Reader Point Uuid)) : List AclViolation :=
  log.flatMap fun entry => entry.2.read.filterMap (violation entry.1)

theorem reported_snoc (log : List (Name × Reader Point Uuid)) (collection : Name)
    (reader : Reader Point Uuid) : reported (log ++ [(collection, reader)]) =
      reported log ++ reader.read.filterMap (violation collection) := by
  simp [reported]

/-- What the audit has done so far, by collection. -/
structure Account (batch : ℕ) (start : World) (names : List Name) (past : List Event)
    (audit : Audit) (log : List (Name × Reader Point Uuid)) : Prop where
  names : names = log.map Prod.fst ++ audit.pending
  violations : audit.violations = reported log
  entries : ∀ entry ∈ log, Entry batch start past entry
  standing : Standing log audit.task

theorem account_start (names : List Name) (hstart : start.audit = .turnTo [] names) :
    Account batch start names [] start.audit [] := by
  rw [hstart]
  refine ⟨?_, ?_, ?_, ?_⟩
  · rw [pending_turnTo, List.map_nil, List.nil_append]
  · exact violations_turnTo [] names
  · exact fun entry hentry => absurd hentry List.not_mem_nil
  · exact standing_turnTo (fun entry hentry => absurd hentry List.not_mem_nil) _ _

section Steps

variable {log : List (Name × Reader Point Uuid)} {collection : Name} {points : List Point}

/-- Another client's step. -/
theorem Account.other {audit : Audit} (haccount : Account batch start names past audit log)
    (event : Event) : Account batch start names (past ++ [event]) audit log where
  names := haccount.names
  violations := haccount.violations
  entries := fun entry hentry => (haccount.entries entry hentry).later event
  standing := haccount.standing

/-- The audit goes on with the reader of its collection. -/
theorem account_goOn {audit : Audit} {front : List (Name × Reader Point Uuid)}
    {reader : Reader Point Uuid} {violations : List AclViolation}
    (hnames : names = front.map Prod.fst ++ collection :: audit.later)
    (hfront : ∀ entry ∈ front, Entry batch start past entry)
    (hdone : ∀ entry ∈ front, entry.2.finished = true)
    (hentry : Entry batch start (past ++ [.audit]) (collection, reader))
    (hviolations : violations =
      reported front ++ reader.read.filterMap (violation collection)) :
    Account batch start names (past ++ [.audit]) (audit.goOn collection violations reader)
      (front ++ [(collection, reader)]) := by
  have hentries : ∀ entry ∈ front ++ [(collection, reader)],
      Entry batch start (past ++ [.audit]) entry := by
    intro entry hmem
    cases List.mem_append.mp hmem with
    | inl hearlier => exact (hfront entry hearlier).later _
    | inr hlast => exact List.mem_singleton.mp hlast ▸ hentry
  have hsplit : names = (front ++ [(collection, reader)]).map Prod.fst ++ audit.later := by
    rw [hnames, List.map_append, List.append_assoc]
    rfl
  rw [Audit.goOn]
  split_ifs with hfinished
  · refine ⟨?_, ?_, hentries, standing_turnTo ?_ _ _⟩
    · rw [pending_turnTo]
      exact hsplit
    · rw [violations_turnTo, reported_snoc]
      exact hviolations
    · intro entry hmem
      cases List.mem_append.mp hmem with
      | inl hearlier => exact hdone entry hearlier
      | inr hlast => exact List.mem_singleton.mp hlast ▸ hfinished
  · refine ⟨hsplit, ?_, hentries, front, reader, rfl, hdone, ?_, rfl⟩
    · rw [reported_snoc]
      exact hviolations
    · exact Bool.eq_false_iff.mpr hfinished

theorem Account.lookup (haccount : Account batch start names past world.audit log)
    (htask : world.audit.task = some (.lookup collection)) :
    names = log.map Prod.fst ++ collection :: world.audit.later ∧
      ∀ entry ∈ log, entry.2.finished = true := by
  have hnames := haccount.names
  have hstanding := haccount.standing
  rw [Audit.pending, htask] at hnames
  rw [htask] at hstanding
  exact ⟨hnames, hstanding⟩

/-- A collection that is absent is passed over. -/
theorem Account.absent (haccount : Account batch start names past world.audit log)
    (hpast : exec (step batch) start past = some world)
    (htask : world.audit.task = some (.lookup collection))
    (habsent : world.collections collection = none) :
    Account batch start names (past ++ [.audit])
      (.turnTo world.audit.violations world.audit.later)
      (log ++ [(collection, { finished := true })]) := by
  obtain ⟨hnames, hdone⟩ := haccount.lookup htask
  have hgoOn := @account_goOn batch names start past collection world.audit log
    { finished := true } world.audit.violations hnames haccount.entries hdone
  apply hgoOn
  · refine ⟨⟨List.Pairwise.nil, by simp⟩, by simp, ?_⟩
    intro point hstays
    obtain ⟨held, hheld, _⟩ := hstays past world (List.prefix_append _ _) hpast
    rw [habsent] at hheld
    cases hheld
  · rw [haccount.violations]
    simp

/-- A collection that exists is read from its first point on. -/
theorem Account.present (haccount : Account batch start names past world.audit log)
    (htask : world.audit.task = some (.lookup collection)) :
    Account batch start names (past ++ [.audit])
      { world.audit with task := some (.scroll collection none) }
      (log ++ [(collection, ({} : Reader Point Uuid))]) := by
  obtain ⟨hnames, hdone⟩ := haccount.lookup htask
  have hgoOn := @account_goOn batch names start past collection world.audit log
    {} world.audit.violations hnames haccount.entries hdone
  apply hgoOn
  · exact ⟨Paging.ordered_start, by simp, fun point _ => Paging.keeps_start point⟩
  · rw [haccount.violations]
    simp

/-- A page of the collection is read. -/
theorem Account.scroll (haccount : Account batch start names past world.audit log)
    (hpast : exec (step batch) start past = some world) (hkeyed : Keyed world)
    {offset : Option Uuid} (htask : world.audit.task = some (.scroll collection offset))
    (hpoints : world.collections collection = some points)
    (hnext : ∀ reader : Reader Point Uuid, reader.offset = offset →
      next.audit = world.audit.goOn collection
        (world.audit.violations ++ (Paging.page Point.id batch offset points).1.filterMap
          (violation collection))
        (reader.advance Point.id batch points)) :
    ∃ log, Account batch start names (past ++ [.audit]) next.audit log := by
  have hnames := haccount.names
  have hstanding := haccount.standing
  have hviolations := haccount.violations
  rw [Audit.pending, htask] at hnames
  rw [htask] at hstanding
  obtain ⟨front, reader, rfl, hdone, hopen, hoffset⟩ := hstanding
  have hentry := haccount.entries (collection, reader)
    (List.mem_append_right _ (List.mem_singleton.mpr rfl))
  have hunique := hkeyed collection points hpoints
  refine ⟨front ++ [(collection, reader.advance Point.id batch points)], ?_⟩
  rw [hnext reader hoffset]
  apply account_goOn
  · rw [hnames, List.map_append, List.append_assoc]
    rfl
  · exact fun entry hmem => haccount.entries entry (List.mem_append_left _ hmem)
  · exact hdone
  · refine ⟨hentry.ordered.advance hopen hunique, ?_, ?_⟩
    · intro point hpoint
      cases List.mem_append.mp hpoint with
      | inl hread => exact (hentry.seen point hread).append _
      | inr hfound =>
          refine ⟨past, .audit, [], world, rfl, hpast, rfl, points, hpoints, ?_⟩
          exact (Paging.mem_page hfound).1
    · intro point hstays
      obtain ⟨held, hheld, hmem⟩ := hstays past world (List.prefix_append _ _) hpast
      rw [hpoints] at hheld
      cases hheld
      exact (hentry.keeps point hstays.earlier).advance hunique hmem
  · rw [hviolations, reported_snoc, Reader.advance, hoffset, List.filterMap_append,
      List.append_assoc]

/-- One step of the world. -/
theorem Account.step (haccount : Account batch start names past world.audit log)
    (hpast : exec (step batch) start past = some world) (hkeyed : Keyed world) {event : Event}
    (hstep : step batch world event = some next) :
    ∃ log, Account batch start names (past ++ [event]) next.audit log := by
  by_cases haudit : event = .audit
  · rw [haudit] at hstep ⊢
    obtain ⟨_, hcommand⟩ := step_audit hstep
    cases audit_cases hcommand with
    | inl habsent =>
        obtain ⟨collection, htask, hnone, hnext⟩ := habsent
        rw [hnext]
        exact ⟨_, haccount.absent hpast htask hnone⟩
    | inr hexists =>
        cases hexists with
        | inl hpresent =>
            obtain ⟨collection, points, htask, _, hnext⟩ := hpresent
            rw [hnext]
            exact ⟨_, haccount.present htask⟩
        | inr hscroll =>
            obtain ⟨collection, offset, points, htask, hpoints, hnext⟩ := hscroll
            exact haccount.scroll hpast hkeyed htask hpoints hnext
  · rw [(step_changes haudit hstep).audit]
    exact ⟨log, haccount.other event⟩

end Steps

theorem run_keyed {events : List Event} (hkeyed : Keyed start)
    (hrun : exec (step batch) start events = some next) : Keyed next :=
  exec_invariant (fun _ _ _ hworld hstep => step_keyed hstep hworld) hrun hkeyed

theorem run_account {events : List Event} (hkeyed : Keyed start)
    (hstart : start.audit = .turnTo [] names)
    (hrun : exec (step batch) start events = some next) :
    ∃ log, Account batch start names events next.audit log := by
  apply exec_induction
    (motive := fun past state => ∃ log, Account batch start names past state.audit log) ?_ ?_ hrun
  · exact ⟨[], account_start names hstart⟩
  · intro past state event after hpast hlog hstep
    obtain ⟨log, haccount⟩ := hlog
    exact haccount.step hpast (run_keyed hkeyed hpast) hstep

/-- Another client writes the point itself. -/
def Foreign (collection : Name) (point : Point) (_ : World) (event : Event) : Prop :=
  ∃ points, event = .foreign collection points ∧ point ∈ points

/-- The pipeline writes no violation. -/
theorem foreign_of_written {collection : Name} {point : Point} {event : Event}
    (hmissing : missing point ≠ []) (hwritten : point ∈ event.written collection) :
    Foreign collection point world event := by
  cases event with
  | audit => exact absurd hwritten List.not_mem_nil
  | ensureCollection _ => exact absurd hwritten List.not_mem_nil
  | delete _ _ => exact absurd hwritten List.not_mem_nil
  | indexChunks points =>
      rw [Event.written] at hwritten
      split_ifs at hwritten
      · obtain ⟨chunk, _, rfl⟩ := List.mem_map.mp hwritten
        exact absurd (missing_ragPoint chunk) hmissing
      · exact absurd hwritten List.not_mem_nil
  | indexPages points =>
      rw [Event.written] at hwritten
      split_ifs at hwritten
      · obtain ⟨page, _, rfl⟩ := List.mem_map.mp hwritten
        exact absurd (missing_pagePoint page) hmissing
      · exact absurd hwritten List.not_mem_nil
  | foreign target points =>
      rw [Event.written] at hwritten
      split_ifs at hwritten with htarget
      · exact ⟨points, by rw [htarget], hwritten⟩
      · exact absurd hwritten List.not_mem_nil

/-- A point was there from the start, or some event wrote it. -/
theorem run_held {events : List Event} {collection : Name} {point : Point}
    (hrun : exec (step batch) start events = some next)
    (hholds : Holds next collection point) :
    Holds start collection point ∨
      Occurs (step batch) start events fun _ event => point ∈ event.written collection := by
  revert hholds
  apply exec_induction (motive := fun past state => Holds state collection point →
    Holds start collection point ∨
      Occurs (step batch) start past fun _ event => point ∈ event.written collection) ?_ ?_ hrun
  · exact fun hholds => .inl hholds
  · intro past state event after hpast ih hstep hholds
    rw [occurs_snoc hpast, ← or_assoc]
    by_cases haudit : event = .audit
    · rw [haudit] at hstep
      rw [Holds, (step_audit hstep).1] at hholds
      exact .inl (ih hholds)
    · cases (step_changes haudit hstep).points collection point hholds with
      | inl hold => exact .inl (ih hold)
      | inr hwritten => exact .inr hwritten

/-- A point without the keys was there from the start, or another client wrote it. -/
theorem run_foreign {events : List Event} {collection : Name} {point : Point}
    (hmissing : missing point ≠ []) (hrun : exec (step batch) start events = some next)
    (hholds : Holds next collection point) :
    Holds start collection point ∨
      Occurs (step batch) start events (Foreign collection point) := by
  cases run_held hrun hholds with
  | inl hinitial => exact .inl hinitial
  | inr hwritten =>
      exact .inr (hwritten.mono fun world event => foreign_of_written hmissing)

/-! ## Each violation once -/

theorem violation_eq_some {collection : Name} {point : Point} {found : AclViolation}
    (hfound : violation collection point = some found) :
    missing point ≠ [] ∧ found = ⟨collection, point.id.str, missing point⟩ := by
  rw [violation] at hfound
  split_ifs at hfound with hnone
  exact ⟨hnone, (Option.some.inj hfound).symm⟩

/-- Where a violation stands. -/
def AclViolation.place (found : AclViolation) : Name × String :=
  (found.collection, found.pointId)

theorem nodup_reader {collection : Name} {reader : Reader Point Uuid}
    (hordered : Paging.Ordered Point.id reader) :
    ((reader.read.filterMap (violation collection)).map AclViolation.place).Nodup := by
  refine List.pairwise_map.mpr (List.pairwise_filterMap.mpr ?_)
  refine hordered.increasing.imp ?_
  intro first second hlt left hleft right hright heq
  rw [(violation_eq_some hleft).2, (violation_eq_some hright).2] at heq
  have hids := Uuid.str_injective (Prod.mk.inj heq).2
  exact absurd hids (ne_of_lt hlt)

theorem nodup_reported {log : List (Name × Reader Point Uuid)}
    (hnames : (log.map Prod.fst).Nodup)
    (hordered : ∀ entry ∈ log, Paging.Ordered Point.id entry.2) :
    ((reported log).map AclViolation.place).Nodup := by
  rw [reported, List.map_flatMap, List.nodup_flatMap]
  refine ⟨fun entry hentry => nodup_reader (hordered entry hentry), ?_⟩
  refine (List.pairwise_map.mp hnames).imp ?_
  intro first second hne place hfirst hsecond
  obtain ⟨left, hleft, hplace⟩ := List.mem_map.mp hfirst
  obtain ⟨right, hright, heq⟩ := List.mem_map.mp hsecond
  obtain ⟨_, _, hleft⟩ := List.mem_filterMap.mp hleft
  obtain ⟨_, _, hright⟩ := List.mem_filterMap.mp hright
  rw [← hplace, (violation_eq_some hleft).2, (violation_eq_some hright).2] at heq
  exact hne (Prod.mk.inj heq).1.symm

/-- An audit that has returned among any writes of other clients has reported no point
twice, and only points that lacked a key when it read them and that the pipeline did not
write; every such point that stood in its collection all along is reported. -/
theorem run_audited {events : List Event} {finish : World} (hnames : names.Nodup)
    (hkeyed : Keyed start) (hstart : start.audit = .turnTo [] names)
    (hrun : exec (step batch) start events = some finish)
    (hdone : finish.audit.task = none) :
    (finish.audit.violations.map AclViolation.place).Nodup ∧
    (∀ found ∈ finish.audit.violations, ∃ collection ∈ names, ∃ point,
      violation collection point = some found ∧
      Occurs (step batch) start events (Meets collection point) ∧
      (Holds start collection point ∨
        Occurs (step batch) start events (Foreign collection point))) ∧
    ∀ collection ∈ names, ∀ point, Stays batch start events collection point →
      ∀ found, violation collection point = some found → found ∈ finish.audit.violations := by
  obtain ⟨log, haccount⟩ := run_account hkeyed hstart hrun
  have hlog : names = log.map Prod.fst := by
    have hpending := haccount.names
    rw [Audit.pending, hdone, List.append_nil] at hpending
    exact hpending
  have hfinished := haccount.standing
  rw [hdone] at hfinished
  rw [haccount.violations]
  refine ⟨?_, ?_, ?_⟩
  · rw [hlog] at hnames
    exact nodup_reported hnames fun entry hentry => (haccount.entries entry hentry).ordered
  · intro found hfound
    obtain ⟨entry, hentry, hmem⟩ := List.mem_flatMap.mp hfound
    obtain ⟨point, hread, hviolation⟩ := List.mem_filterMap.mp hmem
    have hseen := (haccount.entries entry hentry).seen point hread
    refine ⟨entry.1, ?_, point, hviolation, hseen, ?_⟩
    · rw [hlog]
      exact List.mem_map_of_mem hentry
    · obtain ⟨before, event, after, state, rfl, hbefore, _, hholds⟩ := hseen
      cases run_foreign (violation_eq_some hviolation).1 hbefore hholds with
      | inl hinitial => exact .inl hinitial
      | inr hwritten => exact .inr (hwritten.append _)
  · intro collection hcollection point hstays found hfound
    rw [hlog] at hcollection
    obtain ⟨entry, hentry, rfl⟩ := List.mem_map.mp hcollection
    have hkeeps := (haccount.entries entry hentry).keeps point hstays
    refine List.mem_flatMap.mpr ⟨entry, hentry, ?_⟩
    exact List.mem_filterMap.mpr ⟨point, hkeeps.read (hfinished entry hentry), hfound⟩

/-! ## The audit returns -/

/-- The commands for one collection: the look whether it exists, and its pages. -/
def share (batch : ℕ) (keys : Finset Uuid) : ℕ := keys.card / batch + 2

theorem two_le_share (batch : ℕ) (keys : Finset Uuid) : 2 ≤ share batch keys :=
  Nat.le_add_left _ _

/-- The commands of the audit so far, against the collections it is done with. -/
def Spent (batch : ℕ) (names : List Name) (keys : Finset Uuid) (commands : ℕ)
    (world : World) : Prop :=
  match world.audit.task with
  | none | some (.lookup _) => ∃ done, done + world.audit.pending.length = names.length ∧
      commands ≤ done * share batch keys
  | some (.scroll collection offset) => ∃ done reader pages,
      done + 1 + world.audit.later.length = names.length ∧
      commands ≤ done * share batch keys + 1 + pages ∧ pages ≤ keys.card / batch ∧
      Paging.Ordered Point.id reader ∧ Paging.Within Point.id keys reader ∧
      reader.finished = false ∧ reader.offset = offset ∧
      reader.read.length = pages * batch ∧ (world.collections collection).isSome = true

theorem spent_turnTo {keys : Finset Uuid} {commands done : ℕ} {violations : List AclViolation}
    {later : List Name} {collections : Collections}
    (hdone : done + later.length = names.length) (hspent : commands ≤ done * share batch keys) :
    Spent batch names keys commands ⟨collections, .turnTo violations later⟩ := by
  cases later with
  | nil => exact ⟨done, hdone, hspent⟩
  | cons collection later => exact ⟨done, hdone, hspent⟩

theorem Spent.other {keys : Finset Uuid} {commands : ℕ} {event : Event}
    (hspent : Spent batch names keys commands world) (hchanges : Changes world event next) :
    Spent batch names keys commands next := by
  rw [Spent, hchanges.audit]
  rw [Spent] at hspent
  split at hspent
  · exact hspent
  · exact hspent
  · obtain ⟨done, reader, pages, hdone, hcommands, hpages, hordered, hwithin, hopen, hoffset,
      hlength, hexists⟩ := hspent
    exact ⟨done, reader, pages, hdone, hcommands, hpages, hordered, hwithin, hopen, hoffset,
      hlength, hchanges.exist _ hexists⟩

theorem Spent.scroll {keys : Finset Uuid} {commands : ℕ} {collection : Name}
    {offset : Option Uuid} {points : List Point} {violations : List AclViolation}
    (hbatch : 0 < batch) (hspent : Spent batch names keys commands world)
    (htask : world.audit.task = some (.scroll collection offset))
    (hunique : (points.map Point.id).Nodup) (hkeys : ∀ point ∈ points, point.id ∈ keys)
    (hnext : ∀ reader : Reader Point Uuid, reader.offset = offset →
      next.audit = world.audit.goOn collection violations (reader.advance Point.id batch points))
    (hsame : next.collections = world.collections) :
    Spent batch names keys (commands + 1) next := by
  rw [Spent, htask] at hspent
  obtain ⟨done, reader, pages, hdone, hcommands, hpages, hordered, hwithin, hopen, hoffset,
    hlength, hexists⟩ := hspent
  have hgoOn := hnext reader hoffset
  have hordered' : Paging.Ordered Point.id (reader.advance Point.id batch points) :=
    hordered.advance hopen hunique
  have hwithin' : Paging.Within Point.id keys (reader.advance Point.id batch points) :=
    hwithin.advance hkeys
  have hshare : (done + 1) * share batch keys =
      done * share batch keys + keys.card / batch + 2 := by
    rw [Nat.succ_mul, share, Nat.add_assoc]
  rw [Audit.goOn] at hgoOn
  split_ifs at hgoOn with hfinished
  · obtain ⟨collections, audit⟩ := next
    dsimp only at hgoOn hsame
    rw [hgoOn]
    exact spent_turnTo hdone (by omega)
  · have hopen' := Bool.eq_false_iff.mpr hfinished
    have hlength' := Paging.length_advance hopen'
    have hfull : (reader.advance Point.id batch points).read.length = (pages + 1) * batch := by
      rw [hlength', hlength, Nat.succ_mul]
    obtain ⟨first, hfirst⟩ : ∃ first, (reader.advance Point.id batch points).offset =
        some first := by
      rw [← Option.isSome_iff_exists]
      simpa [Reader.advance] using hopen'
    have hlt := Paging.length_lt_of_open hordered' hwithin' hopen' hfirst
    have hpages' : pages + 1 ≤ keys.card / batch := by
      rw [Nat.le_div_iff_mul_le hbatch, ← hfull]
      exact le_of_lt hlt
    rw [Spent, hgoOn]
    refine ⟨done, reader.advance Point.id batch points, pages + 1, hdone, by omega, hpages',
      hordered', hwithin', hopen', rfl, hfull, ?_⟩
    rw [hsame]
    exact hexists

theorem Spent.audit {keys : Finset Uuid} {commands : ℕ} (hbatch : 0 < batch)
    (hspent : Spent batch names keys commands world) (hkeyed : Keyed world)
    (hkeys : ∀ collection point, Holds world collection point → point.id ∈ keys)
    (hstep : step batch world .audit = some next) :
    Spent batch names keys (commands + 1) next := by
  obtain ⟨hsame, hcommand⟩ := step_audit hstep
  have hlookup : ∀ collection, world.audit.task = some (.lookup collection) →
      ∃ done, done + 1 + world.audit.later.length = names.length ∧
        commands ≤ done * share batch keys := by
    intro collection htask
    rw [Spent, Audit.pending, htask] at hspent
    obtain ⟨done, hdone, hcommands⟩ := hspent
    dsimp only at hdone
    rw [List.length_cons] at hdone
    exact ⟨done, by omega, hcommands⟩
  obtain ⟨collections, audit⟩ := next
  dsimp only at hsame hcommand
  cases audit_cases hcommand with
  | inl habsent =>
      obtain ⟨collection, htask, _, hnext⟩ := habsent
      obtain ⟨done, hdone, hcommands⟩ := hlookup collection htask
      rw [hnext]
      refine spent_turnTo hdone ?_
      have htwo := two_le_share batch keys
      rw [Nat.succ_mul]
      omega
  | inr hexists =>
      cases hexists with
      | inl hpresent =>
          obtain ⟨collection, _, htask, hpoints, hnext⟩ := hpresent
          obtain ⟨done, hdone, hcommands⟩ := hlookup collection htask
          rw [Spent, hnext]
          refine ⟨done, {}, 0, hdone, by omega, Nat.zero_le _, Paging.ordered_start,
            Paging.within_start keys, rfl, rfl, by simp, ?_⟩
          dsimp only
          rw [hsame, hpoints]
          rfl
      | inr hscroll =>
          obtain ⟨collection, offset, points, htask, hpoints, hnext⟩ := hscroll
          refine hspent.scroll hbatch htask (hkeyed collection points hpoints) ?_ hnext
            hsame
          exact fun point hpoint => hkeys collection point ⟨points, hpoints, hpoint⟩

theorem Spent.le {keys : Finset Uuid} {commands : ℕ}
    (hspent : Spent batch names keys commands world) :
    commands ≤ names.length * share batch keys := by
  rw [Spent] at hspent
  split at hspent
  · obtain ⟨done, hdone, hcommands⟩ := hspent
    exact hcommands.trans (Nat.mul_le_mul_right _ (by omega))
  · obtain ⟨done, hdone, hcommands⟩ := hspent
    exact hcommands.trans (Nat.mul_le_mul_right _ (by omega))
  · obtain ⟨done, _, pages, hdone, hcommands, hpages, _⟩ := hspent
    calc commands ≤ done * share batch keys + 1 + pages := hcommands
      _ ≤ done * share batch keys + share batch keys := by
        rw [share]
        omega
      _ = (done + 1) * share batch keys := (Nat.succ_mul _ _).symm
      _ ≤ names.length * share batch keys := Nat.mul_le_mul_right _ (by omega)

/-- A command that the audit sends is answered. -/
theorem Spent.answered {keys : Finset Uuid} {commands : ℕ}
    (hspent : Spent batch names keys commands world) (hopen : world.audit.task ≠ none) :
    (step batch world .audit).isSome = true := by
  rw [step, Option.isSome_map, Audit.step]
  rw [Spent] at hspent
  cases htask : world.audit.task with
  | none => exact absurd htask hopen
  | some task =>
      cases task with
      | lookup collection =>
          dsimp only
          cases world.collections collection with
          | none => rfl
          | some points => rfl
      | scroll collection offset =>
          rw [htask] at hspent
          obtain ⟨_, _, _, _, _, _, _, _, _, _, _, hexists⟩ := hspent
          rw [Option.isSome_map]
          exact hexists

/-- However many points other clients write meanwhile, the audit sends at most
`keys / batch + 2` commands for each of its collections, where `keys` bounds the ids that
ever occur, and until it has returned its next command is answered. -/
theorem run_returns {keys : Finset Uuid} {events : List Event} {finish : World}
    (hbatch : 0 < batch) (hkeyed : Keyed start) (hstart : start.audit = .turnTo [] names)
    (hkeys : ∀ past world, past <+: events → exec (step batch) start past = some world →
      ∀ collection point, Holds world collection point → point.id ∈ keys)
    (hrun : exec (step batch) start events = some finish) :
    events.countP (· matches .audit) ≤ names.length * (keys.card / batch + 2) ∧
      (finish.audit.task ≠ none → (step batch finish .audit).isSome = true) := by
  have hspent : Spent batch names keys (events.countP (· matches .audit)) finish := by
    revert hkeys
    apply exec_induction (motive := fun past state =>
      (∀ front world, front <+: past → exec (step batch) start front = some world →
        ∀ collection point, Holds world collection point → point.id ∈ keys) →
      Spent batch names keys (past.countP (· matches .audit)) state) ?_ ?_ hrun
    · intro _
      obtain ⟨collections, audit⟩ := start
      dsimp only at hstart
      rw [hstart]
      exact @spent_turnTo batch names keys 0 0 [] names collections (by simp) (by simp)
    · intro past state event after hpast ih hstep hkeys
      have hold := ih fun front world hfront =>
        hkeys front world (hfront.trans (List.prefix_append _ _))
      rw [List.countP_append]
      by_cases haudit : event = .audit
      · rw [haudit] at hstep ⊢
        exact hold.audit hbatch (run_keyed hkeyed hpast)
          (hkeys past state (List.prefix_append _ _) hpast) hstep
      · have hzero : [event].countP (· matches .audit) = 0 := by
          cases event with
          | audit => exact absurd rfl haudit
          | ensureCollection _ | indexChunks _ | indexPages _ | foreign _ _ | delete _ _ => rfl
        rw [hzero, Nat.add_zero]
        exact hold.other (step_changes haudit hstep)
  exact ⟨hspent.le, hspent.answered⟩

end Runs

/-! ## A run -/

def samplePoint (id : Uuid) (payload : Record) : Point := ⟨id, some payload⟩

/-- Two points without a collection, with a complete one between them. -/
def sampleWorld : World where
  collections
    | .ragChunks => some
        [⟨1, none⟩, samplePoint 2 [("collection_id", .string "c"), ("document_id", .string "d")],
          samplePoint 4 [("collection_id", .string ""), ("document_id", .string "d")]]
    | .docsPages => none
  audit := auditAll

/-- A point is written behind the first page, another one is deleted before its page. -/
def sampleEvents : List Event :=
  [.audit, .audit, .foreign .ragChunks [samplePoint 3 [("document_id", .string "d")]],
    .audit, .delete .ragChunks [2], .audit, .audit, .audit]

theorem sample_keyed : Keyed sampleWorld := by
  intro collection points hpoints
  cases collection with
  | ragChunks =>
      cases hpoints
      decide
  | docsPages => cases hpoints

theorem sample_runs : ∃ finish,
    exec (step 1) sampleWorld sampleEvents = some finish ∧ finish.audit.task = none := by
  have hreturns : (exec (step 1) sampleWorld sampleEvents).map (fun world => world.audit.task) =
      some none := by
    decide +kernel
  exact Option.map_eq_some_iff.mp hreturns

theorem run_audited_sample : ∃ finish,
    exec (step 1) sampleWorld sampleEvents = some finish ∧
      ∀ found ∈ finish.audit.violations,
        ∃ collection ∈ [Name.ragChunks, .docsPages], ∃ point,
          violation collection point = some found ∧
          Occurs (step 1) sampleWorld sampleEvents (Meets collection point) ∧
          (Holds sampleWorld collection point ∨
            Occurs (step 1) sampleWorld sampleEvents (Foreign collection point)) := by
  obtain ⟨finish, hrun, hdone⟩ := sample_runs
  exact ⟨finish, hrun, (run_audited (by decide) sample_keyed rfl hrun hdone).2.1⟩

theorem sample_ids {past : List Event} {world : World} (hfront : past <+: sampleEvents)
    (hpast : exec (step 1) sampleWorld past = some world) {collection : Name} {point : Point}
    (hholds : Holds world collection point) : point.id ∈ ({1, 2, 3, 4} : Finset Uuid) := by
  cases run_held hpast hholds with
  | inl hinitial =>
      obtain ⟨points, hpoints, hpoint⟩ := hinitial
      cases collection with
      | docsPages => cases hpoints
      | ragChunks =>
          cases hpoints
          have hids : ∀ id ∈ (sampleWorld.collections .ragChunks).get!.map Point.id,
              id ∈ ({1, 2, 3, 4} : Finset Uuid) := by
            decide
          exact hids point.id (List.mem_map_of_mem hpoint)
  | inr hwritten =>
      obtain ⟨before, event, after, _, hsplit, _, hpoint⟩ := hwritten
      have hevent : event ∈ sampleEvents :=
        hfront.subset (by rw [hsplit]; exact List.mem_append_right _ List.mem_cons_self)
      have hids : ∀ event ∈ sampleEvents, ∀ id ∈ (event.written collection).map Point.id,
          id ∈ ({1, 2, 3, 4} : Finset Uuid) := by
        cases collection with
        | ragChunks => decide
        | docsPages => decide
      exact hids event hevent point.id (List.mem_map_of_mem hpoint)

theorem run_returns_sample :
    sampleEvents.countP (· matches .audit) ≤
      [Name.ragChunks, .docsPages].length * (({1, 2, 3, 4} : Finset Uuid).card / 1 + 2) := by
  obtain ⟨finish, hrun, _⟩ := sample_runs
  apply (run_returns Nat.one_pos sample_keyed rfl ?_ hrun).1
  intro past world hfront hpast collection point hholds
  exact sample_ids hfront hpast hholds

end AgenticRag.AclAudit
