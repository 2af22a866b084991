import Mathlib.Data.List.Infix
import Mathlib.Logic.Function.Basic

/-!
# Paths and the files of a tree

Where a path leads when there are no symbolic links, the files of a tree, and a tree in
which every owner has a directory of its own.
-/

namespace FileTree

abbrev Name := List Char

/-- The components on the way from the root. -/
abbrev Place := List Name

/-! ## Paths -/

/-- One component of a path. -/
def enter (place : Place) (part : Name) : Place :=
  if part = [] ∨ part = ['.'] then place
  else if part = ['.', '.'] then place.dropLast
  else place ++ [part]

/-- Where a path leads from a working directory. -/
def resolve (cwd : Place) (path : List Char) : Place :=
  (path.splitOn '/').foldl enter (if path.head? = some '/' then [] else cwd)

/-- `os.path.join` of two paths. -/
def join (path next : List Char) : List Char :=
  if next.head? = some '/' then next
  else if path = [] ∨ path.getLast? = some '/' then path ++ next
  else path ++ '/' :: next

/-- A component that leads to an entry of the directory. -/
structure Plain (part : Name) : Prop where
  ne_nil : part ≠ []
  ne_dot : part ≠ ['.']
  ne_dots : part ≠ ['.', '.']
  slash_notMem : '/' ∉ part

section Paths

variable {part : Name}

theorem Plain.enter (hpart : Plain part) (place : Place) :
    enter place part = place ++ [part] := by
  rw [FileTree.enter, if_neg (not_or.mpr ⟨hpart.ne_nil, hpart.ne_dot⟩), if_neg hpart.ne_dots]

theorem Plain.head?_ne (hpart : Plain part) : part.head? ≠ some '/' :=
  fun hhead => hpart.slash_notMem (List.mem_of_mem_head? hhead)

/-- A plain component behind a path leads to an entry of the directory of the path, whatever
the path is. -/
theorem resolve_join (hpart : Plain part) (cwd : Place) (path : List Char) :
    resolve cwd (join path part) = resolve cwd path ++ [part] := by
  have hsplit : part.splitOn '/' = [part] := List.splitOn_eq_singleton hpart.slash_notMem
  rw [join, if_neg hpart.head?_ne]
  by_cases hempty : path = []
  · subst hempty
    rw [if_pos (.inl rfl), List.nil_append, resolve, resolve, hsplit, if_neg hpart.head?_ne,
      List.foldl_cons, List.foldl_nil, hpart.enter]
    rfl
  · have hhead : ∀ rest, (path ++ rest).head? = path.head? :=
      fun rest => List.head?_append_of_ne_nil path hempty
    by_cases hslash : path.getLast? = some '/'
    · obtain ⟨front, rfl⟩ := List.getLast?_eq_some_iff.mp hslash
      rw [if_pos (.inr hslash), resolve, resolve, hhead, List.append_assoc,
        List.singleton_append, List.splitOn_append_cons_self, List.splitOn_append_cons_self,
        hsplit, List.foldl_append, List.foldl_append, List.foldl_cons, List.foldl_nil,
        hpart.enter]
      rfl
    · rw [if_neg (not_or.mpr ⟨hempty, hslash⟩), resolve, resolve, hhead,
        List.splitOn_append_cons_self, hsplit, List.foldl_append, List.foldl_cons,
        List.foldl_nil, hpart.enter]

end Paths

/-! ## Files -/

/-- The contents of the files, by place. -/
abbrev Files (β : Type*) := Place → Option β

section Files

variable {β : Type*}

/-- The tree with this file, or without it. -/
def replace (files : Files β) (place : Place) (content : Option β) : Files β :=
  Function.update files place content

/-- The tree without the files of a directory, other than those kept. -/
def prune (files : Files β) (dir : Place) (kept : Place → Bool) : Files β := fun place =>
  if dir <+: place ∧ kept (place.drop dir.length) = false then none else files place

theorem replace_self (files : Files β) (place : Place) (content : Option β) :
    replace files place content place = content := by
  rw [replace, Function.update_self]

theorem replace_of_ne {place other : Place} (hne : other ≠ place) (files : Files β)
    (content : Option β) : replace files place content other = files other := by
  rw [replace, Function.update_of_ne hne]

theorem prune_of_outside {dir place : Place} (houtside : ¬ dir <+: place) (files : Files β)
    (kept : Place → Bool) : prune files dir kept place = files place :=
  if_neg fun hboth => houtside hboth.1

theorem prune_entry (files : Files β) (dir : Place) (kept : Place → Bool) (name : Name) :
    prune files dir kept (dir ++ [name]) =
      if kept [name] then files (dir ++ [name]) else none := by
  rw [prune, List.drop_left' rfl]
  cases hkept : kept [name] with
  | true => simp
  | false => simp

end Files

/-! ## Directories of owners -/

section Owners

variable {ι : Type*} {β : Type*} {root : Place} {drawer : ι → Name} {owner other : ι}
  {name : Name}

/-- The directories of two owners have no place in common. -/
theorem drawer_prefix_iff (hdrawer : Function.Injective drawer) {rest : Place} :
    root ++ [drawer owner] <+: root ++ drawer other :: rest ↔ owner = other := by
  rw [List.prefix_append_right_inj, List.cons_prefix_cons]
  constructor
  · exact fun hboth => hdrawer hboth.1
  · rintro rfl
    exact ⟨rfl, List.nil_prefix⟩

end Owners

end FileTree
