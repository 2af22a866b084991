import Mathlib.Algebra.Order.Ring.Rat
import Mathlib.Logic.Function.Basic

/-!
# Counters that expire

A store of integer counters with per-key deadlines, in the manner of Redis: a
missing key reads as zero, counting creates it without a deadline and keeps the
deadline of an existing one, and a key disappears when its deadline is reached.
Clients are scripts of such commands; a command is answered or raises, and the
script goes on from there.
-/

namespace Counters

variable {κ ε α β : Type*}

structure Cell where
  value : ℤ
  deadline : Option ℚ := none
  deriving DecidableEq

/-- The clock of the store and the keys that exist. -/
structure Store (κ : Type*) where
  now : ℚ := 0
  cells : κ → Option Cell := fun _ => none

namespace Store

/-- The counter of a key; a missing key counts as zero. -/
def value (store : Store κ) (key : κ) : ℤ :=
  (store.cells key).elim 0 Cell.value

/-- The key exists and its deadline is reached at this time. -/
def Expires (store : Store κ) (time : ℚ) (key : κ) : Prop :=
  ∃ cell deadline, store.cells key = some cell ∧ cell.deadline = some deadline ∧
    deadline ≤ time

/-- The cell, unless its deadline is reached. -/
def keep (time : ℚ) (cell : Cell) : Option Cell :=
  if cell.deadline.any (· ≤ time) then none else some cell

/-- The clock moves on, and the keys that are due disappear. -/
def advance (store : Store κ) (time : ℚ) : Store κ where
  now := time
  cells key := (store.cells key).bind (keep time)

section Commands

variable [DecidableEq κ]

def put (store : Store κ) (key : κ) (cell : Cell) : Store κ :=
  { store with cells := Function.update store.cells key (some cell) }

/-- `INCR` and `DECR`. -/
def add (store : Store κ) (key : κ) (delta : ℤ) : Store κ :=
  store.put key ⟨store.value key + delta, (store.cells key).bind Cell.deadline⟩

/-- `EXPIRE`: nothing happens to a key that does not exist. -/
def expire (store : Store κ) (key : κ) (seconds : ℕ) : Store κ :=
  (store.cells key).elim store fun cell =>
    store.put key { cell with deadline := some (store.now + seconds) }

/-- `SET`: the key loses its deadline. -/
def set (store : Store κ) (key : κ) (value : ℤ) : Store κ :=
  store.put key ⟨value, none⟩

end Commands

/-! ### What the commands leave -/

theorem advance_cells (store : Store κ) (time : ℚ) (key : κ) :
    (store.advance time).cells key = (store.cells key).bind (keep time) := rfl

theorem keep_eq_some_iff {time : ℚ} {cell kept : Cell} :
    keep time cell = some kept ↔
      cell = kept ∧ ∀ deadline, cell.deadline = some deadline → time < deadline := by
  cases hdeadline : cell.deadline with
  | none => simp [keep, hdeadline]
  | some deadline =>
      by_cases hdue : deadline ≤ time
      · simp [keep, hdeadline, hdue]
      · simp [keep, hdeadline, hdue, not_le.mp hdue]

theorem expires_iff {store : Store κ} {time : ℚ} {key : κ} :
    store.Expires time key ↔
      ∃ cell, store.cells key = some cell ∧ (store.advance time).cells key = none := by
  constructor
  · rintro ⟨cell, deadline, hcell, hdeadline, hdue⟩
    exact ⟨cell, hcell, by simp [advance_cells, hcell, keep, hdeadline, hdue]⟩
  · rintro ⟨cell, hcell, hgone⟩
    rw [advance_cells, hcell, Option.bind_some] at hgone
    cases hdeadline : cell.deadline with
    | none => simp [keep, hdeadline] at hgone
    | some deadline =>
        refine ⟨cell, deadline, hcell, hdeadline, ?_⟩
        simpa [keep, hdeadline] using hgone

instance (store : Store κ) (time : ℚ) (key : κ) : Decidable (store.Expires time key) :=
  decidable_of_iff ((store.cells key).isSome ∧ ((store.advance time).cells key).isNone) (by
    rw [expires_iff, Option.isSome_iff_exists, Option.isNone_iff_eq_none]
    exact exists_and_right.symm)

/-- A key that does not expire is as it was. -/
theorem advance_cells_of_not_expires {store : Store κ} {time : ℚ} {key : κ}
    (hkept : ¬ store.Expires time key) :
    (store.advance time).cells key = store.cells key := by
  rw [advance_cells]
  cases hcell : store.cells key with
  | none => rfl
  | some cell =>
      rw [Option.bind_some, keep_eq_some_iff]
      refine ⟨rfl, fun deadline hdeadline => not_le.mp fun hdue => ?_⟩
      exact hkept ⟨cell, deadline, hcell, hdeadline, hdue⟩

theorem advance_value_of_not_expires {store : Store κ} {time : ℚ} {key : κ}
    (hkept : ¬ store.Expires time key) :
    (store.advance time).value key = store.value key := by
  rw [value, advance_cells_of_not_expires hkept]
  rfl

theorem advance_value_of_expires {store : Store κ} {time : ℚ} {key : κ}
    (hexpires : store.Expires time key) : (store.advance time).value key = 0 := by
  obtain ⟨_, _, hgone⟩ := expires_iff.mp hexpires
  rw [value, hgone]
  rfl

section Commands

variable [DecidableEq κ] {store : Store κ} {key other : κ}

@[simp]
theorem put_self (cell : Cell) : (store.put key cell).cells key = some cell :=
  Function.update_self ..

@[simp]
theorem put_of_ne (hne : other ≠ key) (cell : Cell) :
    (store.put key cell).cells other = store.cells other :=
  Function.update_of_ne hne _ _

@[simp]
theorem put_value_self (cell : Cell) : (store.put key cell).value key = cell.value := by
  simp [value]

@[simp]
theorem add_value_self (delta : ℤ) :
    (store.add key delta).value key = store.value key + delta :=
  put_value_self _

theorem add_cells_self (delta : ℤ) :
    (store.add key delta).cells key =
      some ⟨store.value key + delta, (store.cells key).bind Cell.deadline⟩ :=
  put_self _

@[simp]
theorem expire_now (seconds : ℕ) : (store.expire key seconds).now = store.now := by
  rw [expire]
  cases store.cells key with
  | none => rfl
  | some cell => rfl

theorem expire_cells_self (seconds : ℕ) :
    (store.expire key seconds).cells key = (store.cells key).map fun cell =>
      { cell with deadline := some (store.now + seconds) } := by
  rw [expire]
  cases hcell : store.cells key with
  | none => exact hcell
  | some cell => exact put_self _

theorem expire_cells_of_ne (hne : other ≠ key) (seconds : ℕ) :
    (store.expire key seconds).cells other = store.cells other := by
  rw [expire]
  cases store.cells key with
  | none => rfl
  | some cell => exact put_of_ne hne _

/-- `EXPIRE` counts nothing. -/
@[simp]
theorem expire_value (seconds : ℕ) :
    (store.expire key seconds).value other = store.value other := by
  by_cases heq : other = key
  · rw [heq, value, value, expire_cells_self]
    cases store.cells key with
    | none => rfl
    | some cell => rfl
  · rw [value, value, expire_cells_of_ne heq]

theorem set_cells_self (number : ℤ) :
    (store.set key number).cells key = some ⟨number, none⟩ :=
  put_self _

end Commands

end Store

/-! ## Scripts -/

inductive Command (κ : Type*) where
  | incr (key : κ)
  | decr (key : κ)
  | expire (key : κ) (seconds : ℕ)
  | set (key : κ) (value : ℤ)

/-- The store after a command, and the answer. -/
def Store.execute [DecidableEq κ] (store : Store κ) : Command κ → Store κ × ℤ
  | .incr key => (store.add key 1, store.value key + 1)
  | .decr key => (store.add key (-1), store.value key - 1)
  | .expire key seconds =>
      (store.expire key seconds, if (store.cells key).isSome then 1 else 0)
  | .set key value => (store.set key value, 1)

/-- A client: it is done, or waits for a command that is answered or raises. -/
inductive Script (κ ε α : Type*) where
  | done (result : Except ε α)
  | run (command : Command κ) (answered : Except ε ℤ → Script κ ε α)

namespace Script

def bind : Script κ ε α → (α → Script κ ε β) → Script κ ε β
  | .done (.ok result), next => next result
  | .done (.error error), _ => .done (.error error)
  | .run command answered, next => .run command fun answer => (answered answer).bind next

/-- `try` and `except`. -/
def handle : Script κ ε α → (ε → Script κ ε α) → Script κ ε α
  | .done (.ok result), _ => .done (.ok result)
  | .done (.error error), handler => handler error
  | .run command answered, handler =>
      .run command fun answer => (answered answer).handle handler

instance : Monad (Script κ ε) where
  pure result := .done (.ok result)
  bind := bind

instance : MonadExceptOf ε (Script κ ε) where
  throw error := .done (.error error)
  tryCatch := handle

/-- `await client.command(..)` -/
def await (command : Command κ) : Script κ ε ℤ :=
  .run command .done

/-- One command of a script against the store, which answers it. -/
def step [DecidableEq κ] (store : Store κ) : Script κ ε α → Option (Store κ × Script κ ε α)
  | .done _ => none
  | .run command answered =>
      some ((store.execute command).1, answered (.ok (store.execute command).2))

/-- The script alone with the store, from beginning to end. -/
def eval [DecidableEq κ] (store : Store κ) : Script κ ε α → Store κ × Except ε α
  | .done result => (store, result)
  | .run command answered =>
      (answered (.ok (store.execute command).2)).eval (store.execute command).1

theorem step_bind [DecidableEq κ] {store after : Store κ} {script rest : Script κ ε α}
    (hstep : script.step store = some (after, rest)) (next : α → Script κ ε β) :
    (script.bind next).step store = some (after, rest.bind next) := by
  cases script with
  | done result => cases hstep
  | run command answered =>
      cases hstep
      rfl

theorem step_handle [DecidableEq κ] {store after : Store κ} {script rest : Script κ ε α}
    (hstep : script.step store = some (after, rest)) (handler : ε → Script κ ε α) :
    (script.handle handler).step store = some (after, rest.handle handler) := by
  cases script with
  | done result => cases hstep
  | run command answered =>
      cases hstep
      rfl

end Script

end Counters
