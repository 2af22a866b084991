import AgenticRag.Core.FileTree
import AgenticRag.Core.Transition
import AgenticRag.Ingestion.FileTypes
import AgenticRag.Ingestion.ObjectUris

/-!
# The uploaded files

`save_document`, `read_document` and `delete_document_files` on the tree of the shared
volume.  Whatever names the clients send, the directory of a document is a table of its own.
-/

namespace AgenticRag.Storage

open AgenticRag.FileTypes (safeFilename)
open AgenticRag.Normalize
open AgenticRag.ObjectStore (slash_notMem_str)
open AgenticRag.PyString (isSpace stripWhere)
open FileTree

abbrev Bytes := List UInt8

/-! ## The calls -/

section Paths

variable (storageDir : List Char)

/-- `document_dir` -/
def documentDir (documentId : Uuid) : List Char :=
  join storageDir documentId.str.toList

/-- The path that `save_document` and `read_document` open. -/
def documentPath (documentId : Uuid) (filename : List Char) : List Char :=
  join (documentDir storageDir documentId) (safeFilename filename)

end Paths

/-- How far a call of `save_document` gets: `makedirs` or `open` raises, so many bytes are
written, or all. -/
inductive Saving where
  | unopened
  | cut (written : ℕ)
  | complete
  deriving DecidableEq

/-- The content of the file behind the call; `none` when it has not been opened. -/
def Saving.content (data : Bytes) : Saving → Option Bytes
  | .unopened => none
  | .cut written => some (data.take written)
  | .complete => some data

section Calls

variable (storageDir : List Char) (cwd : Place) (files : Files Bytes)

/-- `save_document`: the tree and the path, `none` for an exception. -/
def saveDocument (documentId : Uuid) (filename : List Char) (data : Bytes) (saving : Saving) :
    Files Bytes × Option (List Char) :=
  let path := documentPath storageDir documentId filename
  match saving.content data with
  | none => (files, none)
  | some content =>
      (replace files (resolve cwd path) (some content),
        if saving = .complete then some path else none)

/-- `read_document`; `none` for a `FileNotFoundError`. -/
def readDocument (documentId : Uuid) (filename : List Char) : Option Bytes :=
  files (resolve cwd (documentPath storageDir documentId filename))

/-- `delete_document_files`: `rmtree` with `ignore_errors` leaves what it cannot remove. -/
def deleteDocumentFiles (documentId : Uuid) (kept : Place → Bool) : Files Bytes :=
  prune files (resolve cwd (documentDir storageDir documentId)) kept

end Calls

/-- A call for a document, or a file that somebody else writes or removes outside the storage
directory. -/
inductive Action where
  | save (documentId : Uuid) (filename : List Char) (data : Bytes) (saving : Saving)
  | delete (documentId : Uuid) (kept : Place → Bool)
  | foreign (place : Place) (content : Option Bytes)

/-- The call is for this document. -/
def Action.of (documentId : Uuid) : Action → Bool
  | .save target _ _ _ | .delete target _ => target = documentId
  | .foreign _ _ => false

def step (storageDir : List Char) (cwd : Place) (files : Files Bytes) :
    Action → Option (Files Bytes)
  | .save documentId filename data saving =>
      some (saveDocument storageDir cwd files documentId filename data saving).1
  | .delete documentId kept =>
      some (deleteDocumentFiles storageDir cwd files documentId kept)
  | .foreign place content =>
      if resolve cwd storageDir <+: place then none else some (replace files place content)

/-! ## The table of a document -/

/-- The files of a document by their names. -/
abbrev Folder := Name → Option Bytes

/-- A call on the table. -/
def Folder.act (folder : Folder) : Action → Folder
  | .save _ filename data saving =>
      match saving.content data with
      | none => folder
      | some content => Function.update folder (safeFilename filename) (some content)
  | .delete _ kept => fun name => if kept [name] then folder name else none
  | .foreign _ _ => folder

/-! ## Names -/

theorem notMem_str {documentId : Uuid} {char : Char} (hhyphen : char ≠ '-')
    (hdigits : ∀ digit < 16, char ≠ Uuid.hexDigit digit) : char ∉ documentId.str.toList := by
  intro hmem
  cases Uuid.mem_str hmem with
  | inl heq => exact hhyphen heq
  | inr hhex =>
      obtain ⟨digit, hdigit, heq⟩ := hhex
      exact hdigits digit hdigit heq

theorem plain_str (documentId : Uuid) : Plain documentId.str.toList := by
  have hdot : '.' ∉ documentId.str.toList := notMem_str (by decide) (by decide)
  have hhead : ∀ rest : List Char, documentId.str.toList ≠ '.' :: rest := by
    intro rest heq
    rw [heq] at hdot
    exact hdot List.mem_cons_self
  exact ⟨documentId.str_ne_empty, hhead _, hhead _, slash_notMem_str documentId⟩

/-- The last component of the name a client sends. -/
theorem slash_notMem_component (filename : List Char) :
    '/' ∉ stripWhere isSpace (filename.rtakeWhile (· ≠ '/')) := by
  intro hmem
  have hkept := List.mem_rtakeWhile_imp ((infix_stripWhere _ _).subset hmem)
  exact absurd rfl (of_decide_eq_true hkept)

theorem plain_safeFilename (filename : List Char) : Plain (safeFilename filename) := by
  unfold safeFilename
  dsimp only
  split_ifs with hblank
  · exact ⟨by decide, by decide, by decide, by decide⟩
  · rw [not_or, not_or] at hblank
    exact ⟨hblank.1, hblank.2.1, hblank.2.2, slash_notMem_component _⟩

theorem safeFilename_of_clean {name : List Char} (hplain : Plain name) (hback : '\\' ∉ name)
    (hstrip : stripWhere isSpace name = name) : safeFilename name = name := by
  have hmap : (name.map fun char => if char = '\\' then '/' else char) = name := by
    conv_rhs => rw [← List.map_id name]
    apply List.map_congr_left
    intro char hchar
    rw [if_neg, id]
    rintro rfl
    exact hback hchar
  have htake : name.rtakeWhile (· ≠ '/') = name := by
    rw [List.rtakeWhile_eq_self_iff]
    intro char hchar
    exact decide_eq_true fun heq => hplain.slash_notMem (heq ▸ hchar)
  unfold safeFilename
  dsimp only
  rw [hmap, htake, hstrip, if_neg]
  rw [not_or, not_or]
  exact ⟨hplain.ne_nil, hplain.ne_dot, hplain.ne_dots⟩

theorem safeFilename_clean (filename : List Char) :
    '\\' ∉ safeFilename filename ∧
      stripWhere isSpace (safeFilename filename) = safeFilename filename := by
  unfold safeFilename
  dsimp only
  generalize hslashed : filename.map (fun char => if char = '\\' then '/' else char) = slashed
  split_ifs with hblank
  · decide
  · rw [not_or] at hblank
    have hback : '\\' ∉ slashed := by
      rw [← hslashed]
      intro hmem
      obtain ⟨char, _, heq⟩ := List.mem_map.mp hmem
      split_ifs at heq with hslash
      · exact absurd heq (by decide)
      · exact hslash heq
    constructor
    · intro hmem
      exact hback ((List.rtakeWhile_suffix _ _).subset ((infix_stripWhere _ _).subset hmem))
    · exact stripWhere_eq_of_ends (stripWhere_first hblank.1) (stripWhere_last hblank.1)

/-- The name in the row of a document is sanitized a second time and stays the same. -/
theorem safeFilename_idem (filename : List Char) :
    safeFilename (safeFilename filename) = safeFilename filename := by
  obtain ⟨hback, hstrip⟩ := safeFilename_clean filename
  exact safeFilename_of_clean (plain_safeFilename filename) hback hstrip

/-! ## Where the paths lead -/

section Places

variable {storageDir : List Char} {cwd : Place} {files next : Files Bytes}
  {documentId other : Uuid} {filename : List Char} {action : Action}

/-- The directory of a document. -/
def documentPlace (storageDir : List Char) (cwd : Place) (documentId : Uuid) : Place :=
  resolve cwd storageDir ++ [documentId.str.toList]

theorem resolve_documentDir :
    resolve cwd (documentDir storageDir documentId) =
      documentPlace storageDir cwd documentId :=
  resolve_join (plain_str documentId) cwd storageDir

/-- No name leads out of the directory of the document. -/
theorem resolve_documentPath :
    resolve cwd (documentPath storageDir documentId filename) =
      documentPlace storageDir cwd documentId ++ [safeFilename filename] := by
  rw [documentPath, resolve_join (plain_safeFilename filename), resolve_documentDir]

/-- The table of a document. -/
def folder (storageDir : List Char) (cwd : Place) (files : Files Bytes) (documentId : Uuid) :
    Folder := fun name =>
  files (documentPlace storageDir cwd documentId ++ [name])

theorem readDocument_eq :
    readDocument storageDir cwd files documentId filename =
      folder storageDir cwd files documentId (safeFilename filename) := by
  rw [readDocument, resolve_documentPath, folder]

theorem str_toList_injective : Function.Injective fun documentId : Uuid =>
    documentId.str.toList :=
  fun _ _ heq => Uuid.str_injective (String.toList_inj.mp heq)

theorem documentPlace_prefix_iff {rest : Place} :
    documentPlace storageDir cwd documentId <+: documentPlace storageDir cwd other ++ rest ↔
      documentId = other := by
  rw [documentPlace, documentPlace, List.append_assoc, List.singleton_append]
  exact drawer_prefix_iff str_toList_injective

theorem documentPlace_outside {place : Place}
    (houtside : ¬ resolve cwd storageDir <+: place) (rest : Place) :
    documentPlace storageDir cwd documentId ++ rest ≠ place := by
  rintro rfl
  rw [documentPlace, List.append_assoc] at houtside
  exact houtside (List.prefix_append _ _)

theorem documentPlace_entry_ne (hother : other ≠ documentId) (name last : Name) :
    documentPlace storageDir cwd documentId ++ [name] ≠
      documentPlace storageDir cwd other ++ [last] := by
  intro heq
  apply hother
  rw [← @documentPlace_prefix_iff storageDir cwd other documentId [name], heq]
  exact List.prefix_append _ _

theorem of_save {data : Bytes} {saving : Saving} :
    Action.of documentId (.save other filename data saving) = true ↔ other = documentId :=
  decide_eq_true_iff

theorem of_delete {kept : Place → Bool} :
    Action.of documentId (.delete other kept) = true ↔ other = documentId :=
  decide_eq_true_iff

/-- What a step does to the table of one document. -/
theorem folder_step (hstep : step storageDir cwd files action = some next) :
    folder storageDir cwd next documentId =
      if action.of documentId = true then (folder storageDir cwd files documentId).act action
      else folder storageDir cwd files documentId := by
  funext name
  cases action with
  | save target filename data saving =>
      rw [step, Option.some.injEq] at hstep
      subst hstep
      rw [saveDocument]
      cases hcontent : saving.content data with
      | none => simp [Folder.act, hcontent]
      | some content =>
          dsimp only
          rw [resolve_documentPath, folder]
          by_cases htarget : target = documentId
          · subst htarget
            rw [if_pos (of_save.mpr rfl), Folder.act, hcontent]
            dsimp only
            by_cases hname : name = safeFilename filename
            · rw [hname, replace_self, Function.update_self]
            · rw [replace_of_ne, Function.update_of_ne hname, folder]
              intro heq
              exact hname (List.singleton_inj.mp (List.append_cancel_left heq))
          · rw [if_neg (mt of_save.mp htarget),
              replace_of_ne (documentPlace_entry_ne htarget _ _), folder]
  | delete target kept =>
      rw [step, Option.some.injEq] at hstep
      subst hstep
      rw [deleteDocumentFiles, resolve_documentDir, folder]
      by_cases htarget : target = documentId
      · subst htarget
        rw [if_pos (of_delete.mpr rfl), prune_entry]
        rfl
      · rw [if_neg (mt of_delete.mp htarget), folder, prune_of_outside]
        rw [documentPlace_prefix_iff]
        exact htarget
  | foreign place content =>
      rw [step] at hstep
      split_ifs at hstep with hplace
      rw [Option.some.injEq] at hstep
      subst hstep
      have hother : ¬ Action.of documentId (.foreign place content) = true :=
        Bool.false_ne_true
      rw [folder, if_neg hother, folder, replace_of_ne (documentPlace_outside hplace [name])]

/-- A step changes nothing outside the directories of the documents, other than the file that
somebody else writes. -/
theorem step_outside {place : Place}
    (hplace : ∀ documentId, ¬ documentPlace storageDir cwd documentId <+: place)
    (hforeign : ∀ content, action ≠ .foreign place content)
    (hstep : step storageDir cwd files action = some next) : next place = files place := by
  cases action with
  | save target filename data saving =>
      rw [step, Option.some.injEq] at hstep
      subst hstep
      rw [saveDocument]
      cases hcontent : saving.content data with
      | none => rfl
      | some content =>
          dsimp only
          rw [resolve_documentPath, replace_of_ne]
          rintro rfl
          exact hplace target (List.prefix_append _ _)
  | delete target kept =>
      rw [step, Option.some.injEq] at hstep
      subst hstep
      rw [deleteDocumentFiles, resolve_documentDir, prune_of_outside (hplace target)]
  | foreign other content =>
      rw [step] at hstep
      split_ifs at hstep
      rw [Option.some.injEq] at hstep
      subst hstep
      rw [replace_of_ne]
      rintro rfl
      exact hforeign content rfl

end Places

/-! ## Runs -/

section Runs

variable {storageDir : List Char} {cwd : Place} {start finish : Files Bytes}
  {actions : List Action}

/-- The tables of the documents are independent of each other and of the rest of the tree. -/
theorem run_folder (hrun : Transition.exec (step storageDir cwd) start actions = some finish)
    (documentId : Uuid) :
    Transition.exec (fun folder action => some (Folder.act folder action))
        (folder storageDir cwd start documentId)
        (actions.filter (Action.of documentId)) =
      some (folder storageDir cwd finish documentId) := by
  refine Transition.exec_filter (motive := fun _ => True)
    (fun files => folder storageDir cwd files documentId) (Action.of documentId) ?_ ?_ ?_
    trivial hrun
  · intro _ _ _ _ _
    trivial
  · intro state action next _ hmine hstep
    rw [folder_step hstep, if_pos hmine]
  · intro state action next _ hother hstep
    rw [folder_step hstep, if_neg (by rw [hother]; decide)]

theorem run_outside (hrun : Transition.exec (step storageDir cwd) start actions = some finish)
    {place : Place}
    (hplace : ∀ documentId, ¬ documentPlace storageDir cwd documentId <+: place)
    (hforeign : ∀ content, .foreign place content ∉ actions) : finish place = start place := by
  induction actions generalizing start with
  | nil =>
      cases hrun
      rfl
  | cons action rest ih =>
      obtain ⟨next, hnext, hrest⟩ := Transition.exec_cons_eq_some_iff.mp hrun
      have hlater : ∀ content, .foreign place content ∉ rest :=
        fun content hmem => hforeign content (List.mem_cons_of_mem _ hmem)
      rw [ih hrest hlater]
      apply step_outside hplace ?_ hnext
      rintro content rfl
      exact hforeign content List.mem_cons_self

/-- The call leaves this data in the file of that name. -/
def Leaves (documentId : Uuid) (name : Name) (data : Bytes) (action : Action) : Prop :=
  ∃ filename sent saving, action = .save documentId filename sent saving ∧
    safeFilename filename = name ∧ saving.content sent = some data

/-- The call overwrites the file or removes it. -/
def Spoils (documentId : Uuid) (name : Name) (data : Bytes) (action : Action) : Prop :=
  (∃ other ≠ data, Leaves documentId name other action) ∨
    ∃ kept, action = .delete documentId kept ∧ kept [name] = false

theorem act_eq_some_iff {folder : Folder} {action : Action} {documentId : Uuid} {name : Name}
    {data : Bytes} (hmine : action.of documentId = true) :
    folder.act action name = some data ↔
      Leaves documentId name data action ∨
        folder name = some data ∧ ¬ Spoils documentId name data action := by
  cases action with
  | save target filename sent saving =>
      have htarget : target = documentId := of_decide_eq_true hmine
      subst htarget
      have hleaves : ∀ content, Leaves target name content (.save target filename sent saving) ↔
          safeFilename filename = name ∧ saving.content sent = some content := by
        intro content
        constructor
        · rintro ⟨_, _, _, hsame, hname, hcontent⟩
          cases hsame
          exact ⟨hname, hcontent⟩
        · exact fun hboth => ⟨filename, sent, saving, rfl, hboth⟩
      have hspoils : Spoils target name data (.save target filename sent saving) ↔
          safeFilename filename = name ∧ ∃ other ≠ data, saving.content sent = some other := by
        constructor
        · rintro (⟨other, hne, hother⟩ | ⟨kept, hsame, _⟩)
          · obtain ⟨hname, hcontent⟩ := (hleaves other).mp hother
            exact ⟨hname, other, hne, hcontent⟩
          · cases hsame
        · rintro ⟨hname, other, hne, hcontent⟩
          exact .inl ⟨other, hne, (hleaves other).mpr ⟨hname, hcontent⟩⟩
      rw [hleaves, hspoils, Folder.act]
      cases hcontent : saving.content sent with
      | none => simp
      | some content =>
          dsimp only
          by_cases hname : name = safeFilename filename
          · subst hname
            rw [Function.update_self]
            by_cases hsame : content = data
            · simp [hsame]
            · simp [hsame]
          · rw [Function.update_of_ne hname]
            simp [Ne.symm hname]
  | delete target kept =>
      have hleaves : ∀ content, ¬ Leaves documentId name content (.delete target kept) := by
        rintro content ⟨_, _, _, hsame, _⟩
        cases hsame
      have htarget : target = documentId := of_decide_eq_true hmine
      have hspoils : Spoils documentId name data (.delete target kept) ↔ kept [name] = false := by
        constructor
        · rintro (⟨other, _, hother⟩ | ⟨_, hsame, hkept⟩)
          · exact absurd hother (hleaves other)
          · cases hsame
            exact hkept
        · exact fun hkept => .inr ⟨kept, by rw [htarget], hkept⟩
      rw [hspoils, Folder.act]
      cases hkept : kept [name] with
      | true => simp [hkept, hleaves]
      | false => simp [hkept, hleaves]
  | foreign place content => cases hmine

theorem Leaves.of {documentId : Uuid} {name : Name} {data : Bytes} {action : Action}
    (hleaves : Leaves documentId name data action) : action.of documentId = true := by
  obtain ⟨filename, sent, saving, rfl, _⟩ := hleaves
  exact of_save.mpr rfl

theorem Spoils.of {documentId : Uuid} {name : Name} {data : Bytes} {action : Action}
    (hspoils : Spoils documentId name data action) : action.of documentId = true := by
  cases hspoils with
  | inl hother =>
      obtain ⟨_, _, hleaves⟩ := hother
      exact hleaves.of
  | inr hdelete =>
      obtain ⟨kept, rfl, _⟩ := hdelete
      exact of_delete.mpr rfl

theorem Spoils.not_leaves {documentId : Uuid} {name : Name} {data : Bytes} {action : Action}
    (hspoils : Spoils documentId name data action) : ¬ Leaves documentId name data action := by
  rintro ⟨filename, sent, saving, rfl, _, hcontent⟩
  cases hspoils with
  | inl hother =>
      obtain ⟨other, hne, _, _, _, hsame, _, hothercontent⟩ := hother
      cases hsame
      exact hne (Option.some.inj (hothercontent.symm.trans hcontent))
  | inr hdelete =>
      obtain ⟨kept, hsame, _⟩ := hdelete
      cases hsame

theorem folder_eq_some_iff {files next : Files Bytes} {documentId : Uuid} {name : Name}
    {data : Bytes} {action : Action} (hstep : step storageDir cwd files action = some next) :
    folder storageDir cwd next documentId name = some data ↔
      Leaves documentId name data action ∨
        folder storageDir cwd files documentId name = some data ∧
          ¬ Spoils documentId name data action := by
  rw [folder_step hstep]
  by_cases hmine : action.of documentId = true
  · rw [if_pos hmine]
    exact act_eq_some_iff hmine
  · rw [if_neg hmine]
    simp [mt Leaves.of hmine, mt Spoils.of hmine]

/-- Whatever names the clients send: a file outside the directories of the documents changes
only when somebody else writes it, the directory of a document changes as the table of its
file names under the calls for this document alone, and a name reads as the data that the last
call has left in the file of the sanitized name. -/
theorem run_stored (hrun : Transition.exec (step storageDir cwd) start actions = some finish) :
    (∀ place, (∀ documentId, ¬ documentPlace storageDir cwd documentId <+: place) →
      (∀ content, .foreign place content ∉ actions) → finish place = start place) ∧
    ∀ documentId,
      Transition.exec (fun folder action => some (Folder.act folder action))
          (folder storageDir cwd start documentId) (actions.filter (Action.of documentId)) =
        some (folder storageDir cwd finish documentId) ∧
      ∀ filename,
        readDocument storageDir cwd finish documentId (safeFilename filename) =
          readDocument storageDir cwd finish documentId filename ∧
        ∀ data, readDocument storageDir cwd finish documentId filename = some data ↔
          (readDocument storageDir cwd start documentId filename = some data ∧
            ¬ Transition.Occurs (step storageDir cwd) start actions
              fun _ => Spoils documentId (safeFilename filename) data) ∨
          Transition.Unanswered (step storageDir cwd) start actions
            (fun _ => Leaves documentId (safeFilename filename) data)
            fun _ => Spoils documentId (safeFilename filename) data := by
  refine ⟨fun place => run_outside hrun, fun documentId => ⟨run_folder hrun documentId, ?_⟩⟩
  intro filename
  refine ⟨by rw [readDocument_eq, readDocument_eq, safeFilename_idem], ?_⟩
  intro data
  rw [readDocument_eq, readDocument_eq]
  refine Transition.holds_iff_unanswered
    (motive := fun files =>
      folder storageDir cwd files documentId (safeFilename filename) = some data) ?_ ?_ ?_ hrun
  · intro past state action next _ hstep hleaves
    exact (folder_eq_some_iff hstep).mpr (.inl hleaves)
  · intro past state action next _ hstep hspoils hread
    cases (folder_eq_some_iff hstep).mp hread with
    | inl hleaves => exact hspoils.not_leaves hleaves
    | inr hboth => exact hboth.2 hspoils
  · intro past state action next _ hstep hleaves hspoils
    rw [folder_eq_some_iff hstep]
    simp [hleaves, hspoils]

/-- Two uploads whose names try to leave the directory, the second cut short. -/
def climbing : List Action :=
  [.save 1 "../../etc/passwd".toList [7, 8] .complete,
    .save 2 "..\\..\\etc\\passwd".toList [9, 9] (.cut 1), .delete 2 fun _ => false]

theorem run_stored_sample :
    ∃ finish, Transition.exec (step "/srv/uploads".toList []) (fun _ => none) climbing =
        some finish ∧
      finish ["etc".toList, "passwd".toList] = none ∧
      readDocument "/srv/uploads".toList [] finish 1 "../../etc/passwd".toList = some [7, 8] := by
  obtain ⟨finish, hrun⟩ : ∃ finish,
      Transition.exec (step "/srv/uploads".toList []) (fun _ => none) climbing = some finish :=
    ⟨_, rfl⟩
  obtain ⟨houtside, hfolders⟩ := run_stored hrun
  refine ⟨finish, hrun, ?_, ?_⟩
  · refine houtside _ ?_ (by simp [climbing])
    intro documentId hdirectory
    have hroot : resolve [] "/srv/uploads".toList = ["srv".toList, "uploads".toList] := by
      decide
    rw [documentPlace, hroot] at hdirectory
    exact absurd (List.cons_prefix_cons.mp hdirectory).1 (by decide)
  · rw [((hfolders 1).2 _).2, climbing, Transition.unanswered_cons_iff]
    refine .inr ⟨_, rfl, .inl ⟨⟨_, _, _, rfl, by decide, rfl⟩, ?_⟩⟩
    rintro ⟨before, action, after, _, hsplit, _, hspoils⟩
    have hmem : action ∈ before ++ action :: after :=
      List.mem_append_right _ List.mem_cons_self
    have hforeign : ∀ later ∈ climbing.tail, Action.of 1 later = false := by
      simp [climbing, Action.of]
      decide
    rw [← hsplit] at hmem
    exact Bool.false_ne_true ((hforeign action hmem).symm.trans hspoils.of)

end Runs

end AgenticRag.Storage
