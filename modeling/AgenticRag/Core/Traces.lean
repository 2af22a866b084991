import AgenticRag.Core.Counters

/-!
# Scripts whose commands may raise

A command is answered, or raises; one that raises may have been executed, when its
answer is lost or the caller is cancelled while it waits.  `Performs` relates a script
to the commands it sends, what becomes of each, and its result.  The answers are not
restricted, so that a trace may belong to any interleaving with other clients.
-/

namespace Counters

variable {κ ι η ε α β : Type*}

/-- What becomes of a command. -/
inductive Reply (η : Type*) where
  | answered (value : ℤ)
  | raised (error : η) (took : Bool)
  deriving DecidableEq

namespace Reply

/-- The command has been executed. -/
def took : Reply η → Bool
  | .answered _ => true
  | .raised _ took => took

/-- What the script sees, with the error as an exception of the script. -/
def outcome (wrap : η → ε) : Reply η → Except ε ℤ
  | .answered value => .ok value
  | .raised error _ => .error (wrap error)

end Reply

deriving instance DecidableEq for Command

/-- A command with its key renamed. -/
def Command.mapKey (rename : κ → ι) : Command κ → Command ι
  | .incr key => .incr (rename key)
  | .decr key => .decr (rename key)
  | .expire key seconds => .expire (rename key) seconds
  | .set key value => .set (rename key) value

/-- A command a script has sent, with what became of it. -/
abbrev Sent (κ η : Type*) := Command κ × Reply η

namespace Script

/-- A script with its keys renamed. -/
def mapKey (rename : κ → ι) : Script κ ε α → Script ι ε α
  | .done result => .done result
  | .run command answered =>
      .run (command.mapKey rename) fun answer => (answered answer).mapKey rename

/-- The script sends these commands, sees these replies, and comes to the result. -/
inductive Performs (wrap : η → ε) :
    Script κ ε α → List (Sent κ η) → Except ε α → Prop where
  | done (result : Except ε α) : Performs wrap (.done result) [] result
  | run {command : Command κ} {answered : Except ε ℤ → Script κ ε α} {reply : Reply η}
      {trace : List (Sent κ η)} {result : Except ε α}
      (hrest : Performs wrap (answered (reply.outcome wrap)) trace result) :
      Performs wrap (.run command answered) ((command, reply) :: trace) result

variable {wrap : η → ε} {script : Script κ ε α} {trace : List (Sent κ η)}

/-- A sequence of two scripts. -/
theorem performs_bind {next : α → Script κ ε β} {result : Except ε β}
    (hperforms : (script.bind next).Performs wrap trace result) :
    (∃ error, result = .error error ∧ script.Performs wrap trace (.error error)) ∨
      ∃ value first second, trace = first ++ second ∧
        script.Performs wrap first (.ok value) ∧
        (next value).Performs wrap second result := by
  induction script generalizing trace with
  | done done =>
      cases done with
      | error error =>
          cases hperforms
          exact Or.inl ⟨error, rfl, .done _⟩
      | ok value => exact Or.inr ⟨value, [], trace, rfl, .done _, hperforms⟩
  | run command answered ih =>
      cases hperforms with
      | run hrest =>
          rcases ih _ hrest with ⟨error, rfl, herror⟩ |
            ⟨value, first, second, rfl, hfirst, hsecond⟩
          · exact Or.inl ⟨error, rfl, .run herror⟩
          · exact Or.inr ⟨value, _ :: first, second, rfl, .run hfirst, hsecond⟩

/-- A command and what follows its answer. -/
theorem performs_await {command : Command κ} {next : ℤ → Script κ ε β}
    {result : Except ε β}
    (hperforms : ((await command).bind next).Performs wrap trace result) :
    (∃ error took, trace = [(command, .raised error took)] ∧ result = .error (wrap error)) ∨
      ∃ value rest, trace = (command, .answered value) :: rest ∧
        (next value).Performs wrap rest result := by
  cases hperforms with
  | @run _ _ reply rest _ hrest =>
      cases reply with
      | answered value => exact Or.inr ⟨value, rest, rfl, hrest⟩
      | raised error took =>
          cases hrest
          exact Or.inl ⟨error, took, rfl, rfl⟩

/-- A script with a handler. -/
theorem performs_handle {handler : ε → Script κ ε α} {result : Except ε α}
    (hperforms : (script.handle handler).Performs wrap trace result) :
    (∃ value, result = .ok value ∧ script.Performs wrap trace (.ok value)) ∨
      ∃ error first second, trace = first ++ second ∧
        script.Performs wrap first (.error error) ∧
        (handler error).Performs wrap second result := by
  induction script generalizing trace with
  | done done =>
      cases done with
      | ok value =>
          cases hperforms
          exact Or.inl ⟨value, rfl, .done _⟩
      | error error => exact Or.inr ⟨error, [], trace, rfl, .done _, hperforms⟩
  | run command answered ih =>
      cases hperforms with
      | run hrest =>
          rcases ih _ hrest with ⟨value, rfl, hvalue⟩ |
            ⟨error, first, second, rfl, hfirst, hsecond⟩
          · exact Or.inl ⟨value, rfl, .run hvalue⟩
          · exact Or.inr ⟨error, _ :: first, second, rfl, .run hfirst, hsecond⟩

theorem mapKey_bind (rename : κ → ι) (script : Script κ ε α) (next : α → Script κ ε β) :
    (script.bind next).mapKey rename =
      (script.mapKey rename).bind fun value => (next value).mapKey rename := by
  induction script with
  | done result => cases result <;> rfl
  | run command answered ih =>
      rw [bind, mapKey, mapKey, bind]
      exact congrArg _ (funext ih)

theorem mapKey_await_bind (rename : κ → ι) (command : Command κ) (next : ℤ → Script κ ε β) :
    ((await command).bind next).mapKey rename =
      (await (command.mapKey rename)).bind fun value => (next value).mapKey rename :=
  mapKey_bind rename (await command) next

theorem mapKey_handle (rename : κ → ι) (script : Script κ ε α) (handler : ε → Script κ ε α) :
    (script.handle handler).mapKey rename =
      (script.mapKey rename).handle fun error => (handler error).mapKey rename := by
  induction script with
  | done result => cases result <;> rfl
  | run command answered ih =>
      rw [handle, mapKey, mapKey, handle]
      exact congrArg _ (funext ih)

end Script

/-! ## Executed commands -/

section Executed

variable [DecidableEq κ]

/-- How often the command has been executed in a trace. -/
def executed (command : Command κ) (trace : List (Sent κ η)) : ℕ :=
  trace.countP fun sent => sent.1 = command ∧ sent.2.took = true

@[simp]
theorem executed_nil (command : Command κ) : executed command ([] : List (Sent κ η)) = 0 := rfl

@[simp]
theorem executed_cons (command : Command κ) (sent : Sent κ η) (trace : List (Sent κ η)) :
    executed command (sent :: trace) =
      executed command trace + if sent.1 = command ∧ sent.2.took = true then 1 else 0 := by
  simp [executed, List.countP_cons]

theorem executed_append (command : Command κ) (first second : List (Sent κ η)) :
    executed command (first ++ second) = executed command first + executed command second :=
  List.countP_append

/-- What has been added to a counter and not taken back. -/
def outstanding (key : κ) (trace : List (Sent κ η)) : ℤ :=
  executed (.incr key) trace - executed (.decr key) trace

theorem outstanding_append (key : κ) (first second : List (Sent κ η)) :
    outstanding key (first ++ second) = outstanding key first + outstanding key second := by
  simp only [outstanding, executed_append]
  omega

end Executed

end Counters
