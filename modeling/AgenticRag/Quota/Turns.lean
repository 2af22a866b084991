import AgenticRag.Core.Positions
import AgenticRag.Quota.Balance

/-!
# Graph runs and their slots

The slots of a request live as long as its `rate_limit` dependency, its graph run
as long as a thread.  Assumed of the runtime: a thread runs on when the wait for it
is cut short, and the dependency is torn down when the endpoint function has
returned its response and before the body of the response is iterated.
-/

namespace AgenticRag.Quota.Turns

open Counters Positions

inductive Endpoint where
  | chat
  | chatStream
  deriving DecidableEq

/-- Where the task of a request is. -/
inductive Stage where
  /-- `acquire_inflight` -/
  | entering
  /-- `acquire_global_slot` -/
  | admitting
  /-- `release_inflight` after the refusal of the global slot -/
  | rejecting
  /-- the endpoint function -/
  | serving
  /-- `asyncio.wait_for(asyncio.to_thread(graph.invoke, ..))` -/
  | waiting
  /-- `release_global_slot` -/
  | leaving
  /-- `release_inflight` -/
  | finishing
  | responding
  | streaming
  | refused (exception : HttpException)
  deriving DecidableEq

/-- A request past `check_request_rate`: `running` while its graph run executes,
`body` when the endpoint has returned an event stream. -/
structure Request where
  user : Uuid
  endpoint : Endpoint
  stage : Stage := .entering
  running : Bool := false
  body : Bool := false
  deriving DecidableEq

/-- What happens to a request apart from the commands of `rate_limit`. -/
inductive Action where
  | launch
  | finish
  | leave
  | respond
  | cut
  | iterate
  deriving DecidableEq

/-- The requests with their calls: request `index` acquires its own slot in call
`2 * index` and the global one in call `2 * index + 1`. -/
structure Service where
  quota : QuotaState := {}
  requests : List Request := []

inductive Event where
  | arrive (user : Uuid) (endpoint : Endpoint)
  | command (index : ℕ)
  | act (index : ℕ) (action : Action)
  | tick (time : ℚ)

/-- The call whose command comes next in `rate_limit`. -/
def Stage.call (index : ℕ) : Stage → Option ℕ
  | .entering | .rejecting | .finishing => some (2 * index)
  | .admitting | .leaving => some (2 * index + 1)
  | _ => none

/-- The stage after a command that brought its call to this phase. -/
def Stage.after : Stage → Phase → Stage
  | .entering, .holding => .admitting
  | .entering, .rejected => .refused tooManyRequests
  | .admitting, .holding => .serving
  | .admitting, .rejected => .rejecting
  | .rejecting, .released => .refused atCapacity
  | .leaving, .released => .finishing
  | .finishing, .released => .responding
  | stage, _ => stage

def Request.advance (request : Request) : Action → Option Request
  | .launch =>
      if request.endpoint = .chat ∧ request.stage = .serving then
        some { request with stage := .waiting, running := true }
      else none
  | .finish => if request.running then some { request with running := false } else none
  -- the endpoint function returns or raises
  | .leave =>
      if request.stage = .serving ∨ (request.stage = .waiting ∧ request.running = false) then
        some { request with stage := .leaving }
      else none
  -- it returns its `EventSourceResponse`
  | .respond =>
      if request.endpoint = .chatStream ∧ request.stage = .serving then
        some { request with stage := .leaving, body := true }
      else none
  -- the wait for the thread times out or is cancelled
  | .cut =>
      if request.stage = .waiting ∧ request.running = true then
        some { request with stage := .leaving }
      else none
  -- the body starts the producer thread
  | .iterate =>
      if request.stage = .responding ∧ request.body = true then
        some { request with stage := .streaming, running := true }
      else none

def step (settings : QuotaSettings) (service : Service) : Event → Option Service
  | .arrive user endpoint =>
      some { quota := { service.quota with
               calls := service.quota.calls ++ [{ slot := .inflight user }] ++
                 [{ slot := .global }] }
             requests := service.requests ++ [{ user, endpoint }] }
  | .command index =>
      service.requests[index]?.bind fun request =>
        (request.stage.call index).bind fun position =>
          (Quota.step settings service.quota (.command position)).bind fun quota =>
            quota.calls[position]?.map fun call =>
              { quota, requests := service.requests.set index
                  { request with stage := request.stage.after call.phase } }
  | .act index action =>
      service.requests[index]?.bind fun request =>
        (request.advance action).map fun moved =>
          { service with requests := service.requests.set index moved }
  | .tick time =>
      (Quota.step settings service.quota (.tick time)).map fun quota =>
        { service with quota }

def run (settings : QuotaSettings) (events : List Event) : Option Service :=
  Transition.exec (step settings) {} events

/-! ## The promise -/

/-- The request holds its own slot and the global one. -/
def Holds (service : Service) (index : ℕ) (request : Request) : Prop :=
  ∃ own shared, service.quota.calls[2 * index]? = some own ∧
    service.quota.calls[2 * index + 1]? = some shared ∧
    own.slot = .inflight request.user ∧ own.Held ∧ shared.slot = .global ∧ shared.Held

/-- Every graph run that executes holds its slots, and there are not too many. -/
structure Bounded (settings : QuotaSettings) (service : Service) : Prop where
  slots : ∀ index request, service.requests[index]? = some request →
    request.running = true → Holds service index request
  few : service.requests.countP (fun request => request.running) ≤ settings.globalMaxInflight

/-- A counter expires while increments on it are outstanding. -/
def ExpiresOutstanding (service : Service) : Event → Prop
  | .tick time => ExpiresHeld service.quota (.tick time) ∨
      ExpiresAcquiring service.quota (.tick time)
  | _ => False

/-- The body of a stream is iterated, or the global slot of a request is given back
after the wait was cut short and before the graph run has ended. -/
def Outruns (service : Service) : Event → Prop
  | .act _ action => action = .iterate
  | .command index => ∃ request ∈ service.requests[index]?,
      request.stage = .leaving ∧ request.running = true
  | _ => False

instance (service : Service) (event : Event) :
    Decidable (ExpiresOutstanding service event) := by
  unfold ExpiresOutstanding
  split <;> infer_instance

instance (service : Service) (event : Event) : Decidable (Outruns service event) := by
  unfold Outruns
  split <;> infer_instance

/-! ## Stages and phases -/

/-- What the stage of a request says about its two calls. -/
def Stage.Agrees (own shared : Phase) : Stage → Prop
  | .entering => own.Acquires ∧ shared = .idle
  | .admitting => own = .holding ∧ shared.Acquires
  | .rejecting | .finishing => own.Releases
  | .serving | .waiting => own = .holding ∧ shared = .holding
  | .leaving => own = .holding ∧ shared.Releases
  | .responding => own = .released
  | .streaming | .refused _ => True

/-- A request and its two calls. -/
def LinkedAt (calls : List Call) (index : ℕ) (request : Request) : Prop :=
  ∃ own shared, calls[2 * index]? = some own ∧ calls[2 * index + 1]? = some shared ∧
    own.slot = .inflight request.user ∧ shared.slot = .global ∧
    request.stage.Agrees own.phase shared.phase

structure Linked (service : Service) : Prop where
  length : service.quota.calls.length = 2 * service.requests.length
  each : ∀ index request, service.requests[index]? = some request →
    LinkedAt service.quota.calls index request

section Steps

variable {settings : QuotaSettings} {service next : Service} {event : Event}

/-- Everything a step can do. -/
theorem step_cases (hstep : step settings service event = some next) :
    (∃ user endpoint, event = .arrive user endpoint ∧ next =
      { quota := { service.quota with
          calls := service.quota.calls ++ [{ slot := .inflight user }] ++ [{ slot := .global }] }
        requests := service.requests ++ [{ user, endpoint }] }) ∨
    (∃ index request position call store after, event = .command index ∧
      service.requests[index]? = some request ∧ request.stage.call index = some position ∧
      service.quota.calls[position]? = some call ∧ call.ended = none ∧
      call.Moves settings service.quota.store store after ∧
      next = ⟨⟨store, service.quota.calls.set position after⟩, service.requests.set index
        { request with stage := request.stage.after after.phase }⟩) ∨
    (∃ index action request moved, event = .act index action ∧
      service.requests[index]? = some request ∧ request.advance action = some moved ∧
      next = { service with requests := service.requests.set index moved }) ∨
    ∃ time, event = .tick time ∧ service.quota.store.now ≤ time ∧
      next = { service with
        quota := { service.quota with store := service.quota.store.advance time } } := by
  cases event with
  | arrive user endpoint =>
      cases hstep
      exact Or.inl ⟨user, endpoint, rfl, rfl⟩
  | command index =>
      obtain ⟨request, hrequest, hrest⟩ := Option.bind_eq_some_iff.mp hstep
      obtain ⟨position, hposition, hrest⟩ := Option.bind_eq_some_iff.mp hrest
      obtain ⟨quota, hquota, hrest⟩ := Option.bind_eq_some_iff.mp hrest
      obtain ⟨found, hfound, rfl⟩ := Option.map_eq_some_iff.mp hrest
      rcases Quota.step_cases hquota with ⟨_, heq, _⟩ | ⟨_, call, store, after, heq, hcall,
        halive, hmoves, rfl⟩ | ⟨_, _, heq, _⟩ | ⟨_, heq, _⟩
      · cases heq
      · cases heq
        have hlength := (List.getElem?_eq_some_iff.mp hcall).1
        rw [List.getElem?_set_self hlength] at hfound
        cases hfound
        exact Or.inr (Or.inl ⟨index, request, position, call, store, found, rfl, hrequest,
          hposition, hcall, halive, hmoves, rfl⟩)
      · cases heq
      · cases heq
  | act index action =>
      obtain ⟨request, hrequest, hrest⟩ := Option.bind_eq_some_iff.mp hstep
      obtain ⟨moved, hmoved, rfl⟩ := Option.map_eq_some_iff.mp hrest
      exact Or.inr (Or.inr (Or.inl ⟨index, action, request, moved, rfl, hrequest, hmoved, rfl⟩))
  | tick time =>
      obtain ⟨quota, hquota, rfl⟩ := Option.map_eq_some_iff.mp hstep
      rcases Quota.step_cases hquota with ⟨_, heq, _⟩ | ⟨_, _, _, _, heq, _⟩ |
        ⟨_, _, heq, _⟩ | ⟨_, heq, hlater, rfl⟩
      · cases heq
      · cases heq
      · cases heq
      · cases heq
        exact Or.inr (Or.inr (Or.inr ⟨time, rfl, hlater, rfl⟩))

/-- Everything that can happen to a request apart from `rate_limit`. -/
theorem Request.advance_cases {request moved : Request} {action : Action}
    (hadvance : request.advance action = some moved) :
    moved.user = request.user ∧
    ((action = .launch ∧ request.stage = .serving ∧ moved.stage = .waiting) ∨
      (action = .finish ∧ moved.running = false ∧ moved.stage = request.stage) ∨
      (request.stage = .serving ∧ moved.stage = .leaving ∧ moved.running = request.running) ∨
      (request.stage = .waiting ∧ moved.stage = .leaving ∧ moved.running = request.running) ∨
      (action = .iterate ∧ request.stage = .responding ∧ moved.stage = .streaming ∧
        moved.running = true)) := by
  cases action with
  | launch =>
      obtain ⟨hguard, hmoved⟩ := Option.ite_none_right_eq_some.mp hadvance
      cases hmoved
      exact ⟨rfl, Or.inl ⟨rfl, hguard.2, rfl⟩⟩
  | finish =>
      obtain ⟨hguard, hmoved⟩ := Option.ite_none_right_eq_some.mp hadvance
      cases hmoved
      exact ⟨rfl, Or.inr (Or.inl ⟨rfl, rfl, rfl⟩)⟩
  | leave =>
      obtain ⟨hserving | hwaiting, hmoved⟩ := Option.ite_none_right_eq_some.mp hadvance
      · cases hmoved
        exact ⟨rfl, Or.inr (Or.inr (Or.inl ⟨hserving, rfl, rfl⟩))⟩
      · cases hmoved
        exact ⟨rfl, Or.inr (Or.inr (Or.inr (Or.inl ⟨hwaiting.1, rfl, rfl⟩)))⟩
  | respond =>
      obtain ⟨hguard, hmoved⟩ := Option.ite_none_right_eq_some.mp hadvance
      cases hmoved
      exact ⟨rfl, Or.inr (Or.inr (Or.inl ⟨hguard.2, rfl, rfl⟩))⟩
  | cut =>
      obtain ⟨hguard, hmoved⟩ := Option.ite_none_right_eq_some.mp hadvance
      cases hmoved
      exact ⟨rfl, Or.inr (Or.inr (Or.inr (Or.inl ⟨hguard.1, rfl, rfl⟩)))⟩
  | iterate =>
      obtain ⟨hguard, hmoved⟩ := Option.ite_none_right_eq_some.mp hadvance
      cases hmoved
      exact ⟨rfl, Or.inr (Or.inr (Or.inr (Or.inr ⟨rfl, hguard.1, rfl, rfl⟩)))⟩

theorem Stage.call_eq {stage : Stage} {index position : ℕ}
    (hcall : stage.call index = some position) :
    ((stage = .entering ∨ stage = .rejecting ∨ stage = .finishing) ∧ position = 2 * index) ∨
      ((stage = .admitting ∨ stage = .leaving) ∧ position = 2 * index + 1) := by
  cases stage <;> cases hcall <;> simp

/-- A call in the middle of its acquire keeps its request where it is. -/
theorem Stage.after_of_acquires {phase : Phase} (hphase : phase.Acquires) (stage : Stage) :
    stage.after phase = stage := by
  cases phase with
  | idle => cases stage <;> rfl
  | counted current => cases stage <;> rfl
  | refused => cases stage <;> rfl
  | rejected => cases hphase
  | holding => cases hphase
  | clamping => cases hphase
  | released => cases hphase

theorem Stage.agrees_after_own {stage : Stage} {shared : Phase} {call after : Call}
    {store changed : Store Slot}
    (hstage : stage = .entering ∨ stage = .rejecting ∨ stage = .finishing)
    (hagrees : stage.Agrees call.phase shared) (hmoves : call.Moves settings store changed after) :
    (stage.after after.phase).Agrees after.phase shared := by
  rcases hstage with rfl | rfl | rfl
  · obtain ⟨hphase, hshared⟩ := hagrees
    rcases (hmoves.acquiring hphase).2 with hacquires | hheld | hrejected
    · rw [Stage.after_of_acquires hacquires]
      exact ⟨hacquires, hshared⟩
    · rw [hheld]
      exact ⟨rfl, by rw [hshared]; trivial⟩
    · rw [hrejected]
      trivial
  · rcases (hmoves.releasing hagrees).2 with hclamping | hreleased
    · rw [hclamping]
      trivial
    · rw [hreleased]
      trivial
  · rcases (hmoves.releasing hagrees).2 with hclamping | hreleased
    · rw [hclamping]
      trivial
    · rw [hreleased]
      rfl

theorem Stage.agrees_after_shared {stage : Stage} {own : Phase} {call after : Call}
    {store changed : Store Slot} (hstage : stage = .admitting ∨ stage = .leaving)
    (hagrees : stage.Agrees own call.phase) (hmoves : call.Moves settings store changed after) :
    (stage.after after.phase).Agrees own after.phase := by
  rcases hstage with rfl | rfl
  · obtain ⟨hown, hphase⟩ := hagrees
    rcases (hmoves.acquiring hphase).2 with hacquires | hheld | hrejected
    · rw [Stage.after_of_acquires hacquires]
      exact ⟨hown, hacquires⟩
    · rw [hheld]
      exact ⟨hown, rfl⟩
    · rw [hrejected, hown]
      trivial
  · obtain ⟨hown, hphase⟩ := hagrees
    rcases (hmoves.releasing hphase).2 with hclamping | hreleased
    · rw [hclamping]
      exact ⟨hown, trivial⟩
    · rw [hreleased, hown]
      trivial

/-- A command of a request and what its stage says. -/
theorem LinkedAt.command {calls : List Call} {index position : ℕ} {request : Request}
    {call after : Call} {store changed : Store Slot} (hlinked : LinkedAt calls index request)
    (hposition : request.stage.call index = some position)
    (hcall : calls[position]? = some call) (hmoves : call.Moves settings store changed after) :
    LinkedAt (calls.set position after) index
      { request with stage := request.stage.after after.phase } := by
  obtain ⟨own, shared, hown, hshared, hownSlot, hsharedSlot, hagrees⟩ := hlinked
  have hlength := (List.getElem?_eq_some_iff.mp hcall).1
  have hslot := hmoves.slot_eq
  rcases Stage.call_eq hposition with ⟨hstage, rfl⟩ | ⟨hstage, rfl⟩
  · rw [hown] at hcall
    cases hcall
    refine ⟨after, shared, List.getElem?_set_self hlength, ?_, hslot.trans hownSlot,
      hsharedSlot, ?_⟩
    · rw [List.getElem?_set_ne (by omega), hshared]
    · exact Stage.agrees_after_own hstage hagrees hmoves
  · rw [hshared] at hcall
    cases hcall
    refine ⟨own, after, ?_, List.getElem?_set_self hlength, hownSlot,
      hslot.trans hsharedSlot, ?_⟩
    · rw [List.getElem?_set_ne (by omega), hown]
    · exact Stage.agrees_after_shared hstage hagrees hmoves

/-- The calls of a request are not those of another one. -/
theorem LinkedAt.set_other {calls : List Call} {index other position : ℕ} {request : Request}
    {stage : Stage} (hlinked : LinkedAt calls other request)
    (hposition : stage.call index = some position) (hne : other ≠ index) (after : Call) :
    LinkedAt (calls.set position after) other request := by
  obtain ⟨own, shared, hown, hshared, hrest⟩ := hlinked
  have hapart : position ≠ 2 * other ∧ position ≠ 2 * other + 1 := by
    rcases Stage.call_eq hposition with ⟨_, rfl⟩ | ⟨_, rfl⟩ <;> omega
  refine ⟨own, shared, ?_, ?_, hrest⟩
  · rw [List.getElem?_set_ne hapart.1, hown]
  · rw [List.getElem?_set_ne hapart.2, hshared]

theorem LinkedAt.append {calls : List Call} {index : ℕ} {request : Request}
    (hlinked : LinkedAt calls index request) (more : List Call) :
    LinkedAt (calls ++ more) index request := by
  obtain ⟨own, shared, hown, hshared, hrest⟩ := hlinked
  refine ⟨own, shared, ?_, ?_, hrest⟩
  · rw [List.getElem?_append_left (List.getElem?_eq_some_iff.mp hown).1, hown]
  · rw [List.getElem?_append_left (List.getElem?_eq_some_iff.mp hshared).1, hshared]

theorem LinkedAt.advance {calls : List Call} {index : ℕ} {request moved : Request}
    {action : Action} (hlinked : LinkedAt calls index request)
    (hadvance : request.advance action = some moved) : LinkedAt calls index moved := by
  obtain ⟨own, shared, hown, hshared, hownSlot, hsharedSlot, hagrees⟩ := hlinked
  obtain ⟨huser, hcases⟩ := Request.advance_cases hadvance
  refine ⟨own, shared, hown, hshared, by rw [hownSlot, huser], hsharedSlot, ?_⟩
  rcases hcases with ⟨_, hserving, hmoved⟩ | ⟨_, _, hsame⟩ | ⟨hserving, hmoved, _⟩ |
    ⟨hwaiting, hmoved, _⟩ | ⟨_, _, hmoved, _⟩
  · rw [hserving] at hagrees
    rw [hmoved]
    exact hagrees
  · rw [hsame]
    exact hagrees
  · rw [hserving] at hagrees
    rw [hmoved]
    exact ⟨hagrees.1, by rw [hagrees.2]; trivial⟩
  · rw [hwaiting] at hagrees
    rw [hmoved]
    exact ⟨hagrees.1, by rw [hagrees.2]; trivial⟩
  · rw [hmoved]
    trivial

theorem Linked.step (hlinked : Linked service)
    (hstep : step settings service event = some next) : Linked next := by
  rcases step_cases hstep with ⟨user, endpoint, rfl, rfl⟩ | ⟨index, request, position, call, store,
    after, rfl, hrequest, hposition, hcall, _, hmoves, rfl⟩ | ⟨index, action, request, moved, rfl,
    hrequest, hadvance, rfl⟩ | ⟨time, rfl, _, rfl⟩
  · constructor
    · simp only [List.length_append, List.length_singleton, hlinked.length]
      omega
    · intro index request hrequest
      rcases getElem?_concat_iff.mp hrequest with hold | ⟨rfl, rfl⟩
      · rw [List.append_assoc]
        exact (hlinked.each index request hold).append _
      · refine ⟨{ slot := .inflight user }, { slot := .global }, ?_, ?_, rfl, rfl, trivial, rfl⟩
        · rw [← hlinked.length, List.getElem?_append_left (by simp),
            List.getElem?_concat_length]
        · rw [← hlinked.length, List.getElem?_append_right (by simp)]
          simp
  · constructor
    · simp only [List.length_set, hlinked.length]
    · intro other found hfound
      rcases getElem?_set_cases hrequest hfound with ⟨rfl, rfl⟩ | ⟨hother, hkept⟩
      · exact (hlinked.each other request hrequest).command hposition hcall hmoves
      · exact (hlinked.each other found hkept).set_other hposition hother after
  · constructor
    · simp only [List.length_set, hlinked.length]
    · intro other found hfound
      rcases getElem?_set_cases hrequest hfound with ⟨rfl, rfl⟩ | ⟨_, hkept⟩
      · exact (hlinked.each other request hrequest).advance hadvance
      · exact hlinked.each other found hkept
  · exact ⟨hlinked.length, hlinked.each⟩

theorem run_linked {events : List Event} (hrun : run settings events = some service) :
    Linked service := by
  apply Transition.exec_invariant (motive := Linked) ?_ hrun
  · constructor
    · rfl
    · intro index request hrequest
      cases hrequest
  · intro service event next hlinked hstep
    exact hlinked.step hstep

/-- The quota layer under the requests. -/
theorem sound_step (hsound : Sound settings service.quota)
    (hstep : step settings service event = some next)
    (hexpires : ¬ ExpiresOutstanding service event) : Sound settings next.quota := by
  rcases step_cases hstep with ⟨user, endpoint, rfl, rfl⟩ | ⟨index, request, position, call, store,
    after, rfl, hrequest, hposition, hcall, _, hmoves, rfl⟩ | ⟨index, action, request, moved, rfl,
    hrequest, hadvance, rfl⟩ | ⟨time, rfl, hlater, rfl⟩
  · exact (hsound.start (.inflight user)).start .global
  · exact hsound.command hcall hmoves
  · exact hsound
  · obtain ⟨hheld, hacquiring⟩ := not_or.mp hexpires
    have htick : Quota.step settings service.quota (.tick time) =
        some { service.quota with store := service.quota.store.advance time } :=
      if_pos hlater
    exact hsound.step htick hheld hacquiring

/-! ## Running requests -/

/-- A graph run that executes is waited for, or its slots are about to be given
back. -/
def Covered (service : Service) : Prop :=
  ∀ index request, service.requests[index]? = some request → request.running = true →
    (request.stage = .waiting ∨ request.stage = .leaving) ∧ Holds service index request

theorem Covered.arrive (hcovered : Covered service) (calls : List Call) {request : Request}
    (hidle : request.running = false) :
    Covered { quota := { service.quota with calls := service.quota.calls ++ calls }
              requests := service.requests ++ [request] } := by
  intro index found hfound hrunning
  rcases getElem?_concat_iff.mp hfound with hold | ⟨_, rfl⟩
  · obtain ⟨hstage, own, shared, hown, hshared, hrest⟩ := hcovered index found hold hrunning
    refine ⟨hstage, own, shared, ?_, ?_, hrest⟩
    · rw [List.getElem?_append_left (List.getElem?_eq_some_iff.mp hown).1, hown]
    · rw [List.getElem?_append_left (List.getElem?_eq_some_iff.mp hshared).1, hshared]
  · rw [hidle] at hrunning
    cases hrunning

/-- The request that executes a command has no graph run, and the slots of the
others are not touched. -/
theorem Covered.command (hcovered : Covered service) {index position : ℕ} {request moved : Request}
    (hrequest : service.requests[index]? = some request)
    (hposition : request.stage.call index = some position)
    (hinside : ¬ (request.stage = .leaving ∧ request.running = true))
    (hmoved : moved.running = request.running) (store : Store Slot) (after : Call) :
    Covered ⟨⟨store, service.quota.calls.set position after⟩,
      service.requests.set index moved⟩ := by
  intro other found hfound hrunning
  rcases getElem?_set_cases hrequest hfound with ⟨rfl, rfl⟩ | ⟨_, hkept⟩
  · rw [hmoved] at hrunning
    rcases (hcovered other request hrequest hrunning).1 with hwaiting | hleaving
    · rw [hwaiting] at hposition
      cases hposition
    · exact absurd ⟨hleaving, hrunning⟩ hinside
  · obtain ⟨hstage, own, shared, hown, hshared, hrest⟩ := hcovered other found hkept hrunning
    have hapart : position ≠ 2 * other ∧ position ≠ 2 * other + 1 := by
      rcases Stage.call_eq hposition with ⟨_, rfl⟩ | ⟨_, rfl⟩ <;> omega
    refine ⟨hstage, own, shared, ?_, ?_, hrest⟩
    · rw [List.getElem?_set_ne hapart.1, hown]
    · rw [List.getElem?_set_ne hapart.2, hshared]

theorem Covered.act (hcovered : Covered service) (hlinked : Linked service) {index : ℕ}
    {request moved : Request} {action : Action}
    (hrequest : service.requests[index]? = some request)
    (hadvance : request.advance action = some moved) (hbody : action ≠ .iterate) :
    Covered { service with requests := service.requests.set index moved } := by
  intro other found hfound hrunning
  rcases getElem?_set_cases hrequest hfound with ⟨rfl, rfl⟩ | ⟨_, hkept⟩
  · obtain ⟨huser, hcases⟩ := Request.advance_cases hadvance
    have hholds : Holds service other request → Holds service other moved := by
      intro hheld
      rw [Holds, huser]
      exact hheld
    rcases hcases with ⟨_, hserving, hmoved⟩ | ⟨_, hended, _⟩ | ⟨hserving, _, hkept⟩ |
      ⟨_, hmoved, hkept⟩ | ⟨hiterate, _⟩
    · obtain ⟨own, shared, hown, hshared, hownSlot, hsharedSlot, hagrees⟩ :=
        hlinked.each other request hrequest
      rw [hserving] at hagrees
      exact ⟨Or.inl hmoved, hholds ⟨own, shared, hown, hshared, hownSlot, hagrees.1,
        hsharedSlot, hagrees.2⟩⟩
    · rw [hended] at hrunning
      cases hrunning
    · rw [hkept] at hrunning
      rcases (hcovered other request hrequest hrunning).1 with hstage | hstage
      · rw [hserving] at hstage
        cases hstage
      · rw [hserving] at hstage
        cases hstage
    · rw [hkept] at hrunning
      exact ⟨Or.inr hmoved, hholds (hcovered other request hrequest hrunning).2⟩
    · exact absurd hiterate hbody
  · exact hcovered other found hkept hrunning

theorem Covered.step (hcovered : Covered service) (hlinked : Linked service)
    (hstep : step settings service event = some next) (hinside : ¬ Outruns service event) :
    Covered next := by
  rcases step_cases hstep with ⟨user, endpoint, rfl, rfl⟩ | ⟨index, request, position, call, store,
    after, rfl, hrequest, hposition, hcall, _, hmoves, rfl⟩ | ⟨index, action, request, moved, rfl,
    hrequest, hadvance, rfl⟩ | ⟨time, rfl, hlater, rfl⟩
  · rw [List.append_assoc]
    exact hcovered.arrive _ rfl
  · refine hcovered.command hrequest hposition ?_ ?_ store after
    · exact fun hout => hinside ⟨request, hrequest, hout⟩
    · rfl
  · exact hcovered.act hlinked hrequest hadvance hinside
  · exact hcovered

/-- Each of the counted items has a counted item of its own in the other list. -/
theorem countP_le_of_odd {α β : Type} {requests : List α} {calls : List β} {p : α → Bool}
    {q : β → Bool} (hodd : ∀ index request, requests[index]? = some request →
      p request = true → ∃ call, calls[2 * index + 1]? = some call ∧ q call = true) :
    requests.countP p ≤ calls.countP q := by
  induction requests generalizing calls with
  | nil => exact Nat.zero_le _
  | cons request rest ih =>
      have hrest : rest.countP p ≤ (calls.drop 2).countP q := by
        apply ih
        intro index later hlater hcounted
        obtain ⟨call, hcall, hq⟩ := hodd (index + 1) later hlater hcounted
        refine ⟨call, ?_, hq⟩
        rw [List.getElem?_drop, ← hcall]
        congr 1
        omega
      have hfirst : (if p request then 1 else 0) ≤ (calls.take 2).countP q := by
        by_cases hcounted : p request = true
        · rw [if_pos hcounted]
          obtain ⟨call, hcall, hq⟩ := hodd 0 request rfl hcounted
          apply List.one_le_countP_iff.mpr
          refine ⟨call, List.mem_of_getElem? (i := 1) ?_, hq⟩
          rw [List.getElem?_take_of_lt (by decide)]
          exact hcall
        · rw [if_neg hcounted]
          exact Nat.zero_le _
      calc (request :: rest).countP p
          = rest.countP p + (if p request then 1 else 0) := List.countP_cons
        _ ≤ (calls.drop 2).countP q + (calls.take 2).countP q := Nat.add_le_add hrest hfirst
        _ = calls.countP q := by
            rw [Nat.add_comm, ← List.countP_append, List.take_append_drop]

/-- Covered runs are no more than the granted global slots. -/
theorem Covered.bounded (hcovered : Covered service) (hsound : Sound settings service.quota) :
    Bounded settings service where
  slots index request hrequest hrunning := (hcovered index request hrequest hrunning).2
  few := by
    refine le_trans (countP_le_of_odd fun index request hrequest hrunning => ?_)
      (hsound.bounded .global)
    obtain ⟨_, own, shared, _, hshared, _, _, hslot, hheld⟩ :=
      hcovered index request hrequest hrunning
    have hgranted : shared.Granted settings := by
      rw [Call.Held] at hheld
      simp [Call.Granted, hheld]
    exact ⟨shared, hshared, decide_eq_true ⟨hslot, hgranted⟩⟩

/-- A graph run that outruns its slots executes without them. -/
theorem not_bounded_of_outruns (hlinked : Linked service)
    (hstep : step settings service event = some next) (houtruns : Outruns service event) :
    ¬ Bounded settings next := by
  intro hbounded
  rcases step_cases hstep with ⟨user, endpoint, rfl, _⟩ | ⟨index, request, position, call, store,
    after, rfl, hrequest, hposition, hcall, _, hmoves, rfl⟩ | ⟨index, action, request, moved, rfl,
    hrequest, hadvance, rfl⟩ | ⟨time, rfl, _⟩
  · exact houtruns
  · obtain ⟨found, hfound, hleaving, hrunning⟩ := houtruns
    rw [Option.mem_def, hrequest] at hfound
    cases hfound
    obtain ⟨_, shared, _, hshared, _, _, hagrees⟩ := hlinked.each index request hrequest
    rw [hleaving] at hagrees hposition
    cases hposition
    rw [hshared] at hcall
    cases hcall
    obtain ⟨_, released, _, hreleased, _, _, _, hheld⟩ := hbounded.slots index _
      (List.getElem?_set_self (List.getElem?_eq_some_iff.mp hrequest).1) hrunning
    rw [List.getElem?_set_self (List.getElem?_eq_some_iff.mp hshared).1] at hreleased
    cases hreleased
    rw [Call.Held] at hheld
    rcases (hmoves.releasing hagrees.2).2 with hclamping | hdone
    · rw [hclamping] at hheld
      cases hheld
    · rw [hdone] at hheld
      cases hheld
  · rw [Outruns] at houtruns
    rw [houtruns] at hadvance
    obtain ⟨⟨hresponding, _⟩, hmoved⟩ := Option.ite_none_right_eq_some.mp hadvance
    cases hmoved
    obtain ⟨own, _, hown, _, _, _, hagrees⟩ := hlinked.each index request hrequest
    rw [hresponding] at hagrees
    have hreleased : own.phase = .released := hagrees
    obtain ⟨found, _, hfound, _, _, hheld, _⟩ := hbounded.slots index _
      (List.getElem?_set_self (List.getElem?_eq_some_iff.mp hrequest).1) rfl
    rw [show service.quota.calls[2 * index]? = some found from hfound] at hown
    cases hown
    rw [Call.Held, hreleased] at hheld
    cases hheld
  · exact houtruns

end Steps

/-! ## The stages are points of `rate_limit` -/

/-- What is left of `rate_limit` up to its `yield`, or after it. -/
def Stage.program (settings : QuotaSettings) (user : Uuid) (own shared : Phase) :
    Stage → Program Unit
  | .entering => do
      (Slot.inflight user).acquiring settings own
      tryCatch (Slot.global.acquiring settings shared) (giveBack user)
  | .admitting => tryCatch (Slot.global.acquiring settings shared) (giveBack user)
  | .rejecting => do
      (Slot.inflight user).releasing own
      throw (.http atCapacity)
  | .leaving => do
      Slot.global.releasing shared
      (Slot.inflight user).releasing own
  | .finishing => (Slot.inflight user).releasing own
  | .refused exception => throw (.http exception)
  | .serving | .waiting | .responding | .streaming => pure ()

theorem program_entering (settings : QuotaSettings) (user : Uuid) :
    Stage.entering.program settings user .idle .idle = rateLimit settings user := rfl

theorem program_leaving (settings : QuotaSettings) (user : Uuid) :
    Stage.leaving.program settings user .holding .holding = rateLimitExit user := rfl

section Programs

variable {settings : QuotaSettings} {own shared : Phase} {call after : Call}
variable {store changed : Store Slot} {stage : Stage}

/-- A command on the slot of the user is the next command of `rate_limit`. -/
theorem program_step_own (user : Uuid) (hslot : call.slot = .inflight user)
    (hstage : stage = .entering ∨ stage = .rejecting ∨ stage = .finishing)
    (hagrees : stage.Agrees call.phase shared) (hmoves : call.Moves settings store changed after) :
    (stage.program settings user call.phase shared).step store =
      some (changed, (stage.after after.phase).program settings user after.phase shared) := by
  rcases hstage with rfl | rfl | rfl
  · obtain ⟨hstep, hphase⟩ := hmoves.acquiring hagrees.1
    rw [hslot] at hstep
    rw [Stage.program]
    refine (Script.step_bind hstep _).trans ?_
    rcases hphase with hacquires | hheld | hrejected
    · rw [Stage.after_of_acquires hacquires]
      rfl
    · rw [hheld]
      rfl
    · rw [hrejected]
      rfl
  · obtain ⟨hstep, hphase⟩ := hmoves.releasing hagrees
    rw [hslot] at hstep
    rw [Stage.program]
    refine (Script.step_bind hstep _).trans ?_
    rcases hphase with hclamping | hreleased
    · rw [hclamping]
      rfl
    · rw [hreleased]
      rfl
  · obtain ⟨hstep, hphase⟩ := hmoves.releasing hagrees
    rw [hslot] at hstep
    refine hstep.trans ?_
    rcases hphase with hclamping | hreleased
    · rw [hclamping]
      rfl
    · rw [hreleased]
      rfl

/-- And so is a command on the global slot. -/
theorem program_step_shared (user : Uuid) (hslot : call.slot = .global)
    (hstage : stage = .admitting ∨ stage = .leaving) (hagrees : stage.Agrees own call.phase)
    (hmoves : call.Moves settings store changed after) :
    (stage.program settings user own call.phase).step store =
      some (changed, (stage.after after.phase).program settings user own after.phase) := by
  rcases hstage with rfl | rfl
  · obtain ⟨hown, hacquiring⟩ := hagrees
    obtain ⟨hstep, hphase⟩ := hmoves.acquiring hacquiring
    rw [hslot] at hstep
    rw [Stage.program]
    refine (Script.step_handle hstep _).trans ?_
    rcases hphase with hacquires | hheld | hrejected
    · rw [Stage.after_of_acquires hacquires]
      rfl
    · rw [hheld]
      rfl
    · rw [hrejected, hown]
      rfl
  · obtain ⟨hstep, hphase⟩ := hmoves.releasing hagrees.2
    rw [hslot] at hstep
    rw [Stage.program]
    refine (Script.step_bind hstep _).trans ?_
    rcases hphase with hclamping | hreleased
    · rw [hclamping]
      rfl
    · rw [hreleased]
      rfl

/-- The program of a request in a state of the service. -/
def Service.program (settings : QuotaSettings) (service : Service) (index : ℕ) :
    Option (Program Unit) := do
  let request ← service.requests[index]?
  let own ← service.quota.calls[2 * index]?
  let shared ← service.quota.calls[2 * index + 1]?
  some (request.stage.program settings request.user own.phase shared.phase)

/-- A command of a request in any run of the service is the next command of
`rate_limit`, executed against the counters. -/
theorem command_program {events : List Event} {service next : Service} {index : ℕ}
    (hrun : run settings events = some service)
    (hstep : step settings service (.command index) = some next) :
    ∃ before rest, service.program settings index = some before ∧
      next.program settings index = some rest ∧
      before.step service.quota.store = some (next.quota.store, rest) := by
  rcases step_cases hstep with ⟨_, _, heq, _⟩ | ⟨_, request, position, call, store,
    after, heq, hrequest, hposition, hcall, _, hmoves, rfl⟩ | ⟨_, _, _, _, heq, _⟩ | ⟨_, heq, _⟩
  · cases heq
  · cases heq
    obtain ⟨own, shared, hown, hshared, hownSlot, hsharedSlot, hagrees⟩ :=
      (run_linked hrun).each index request hrequest
    have hlength := (List.getElem?_eq_some_iff.mp hcall).1
    have hmoved := List.getElem?_set_self (a := { request with
      stage := request.stage.after after.phase }) (List.getElem?_eq_some_iff.mp hrequest).1
    rcases Stage.call_eq hposition with ⟨hstage, rfl⟩ | ⟨hstage, rfl⟩
    · rw [hown] at hcall
      cases hcall
      refine ⟨_, _, ?_, ?_, program_step_own request.user hownSlot hstage hagrees hmoves⟩
      · simp only [Service.program, hrequest, hown, hshared]
        rfl
      · simp only [Service.program, hmoved, List.getElem?_set_self hlength,
          List.getElem?_set_ne (show 2 * index ≠ 2 * index + 1 by omega), hshared]
        rfl
    · rw [hshared] at hcall
      cases hcall
      refine ⟨_, _, ?_, ?_, program_step_shared request.user hsharedSlot hstage
        hagrees hmoves⟩
      · simp only [Service.program, hrequest, hown, hshared]
        rfl
      · simp only [Service.program, hmoved, List.getElem?_set_self hlength,
          List.getElem?_set_ne (show 2 * index + 1 ≠ 2 * index by omega), hown]
        rfl
  · cases heq
  · cases heq

end Programs

section Runs

variable {settings : QuotaSettings} {service : Service} {events : List Event}

theorem run_sound (hrun : run settings events = some service)
    (hexpires : ¬ Transition.Occurs (step settings) {} events ExpiresOutstanding) :
    Sound settings service.quota := by
  apply Transition.exec_unless (motive := fun service => Sound settings service.quota)
    sound_start ?_ hrun hexpires
  intro past service event next _ hsound hstep hquiet
  exact sound_step hsound hstep hquiet

theorem run_covered (hrun : run settings events = some service)
    (hinside : ¬ Transition.Occurs (step settings) {} events Outruns) : Covered service := by
  apply Transition.exec_unless (motive := Covered) ?_ ?_ hrun hinside
  · intro index request hrequest
    cases hrequest
  · intro past service event next hpast hcovered hstep hinside
    exact hcovered.step (run_linked hpast) hstep hinside

/-- While no counter expires under outstanding increments, every graph run holds
its slots at every moment of a run of the service exactly when no stream body is
iterated and no slot is given back before a graph run that is no longer waited for
has ended. -/
theorem run_bounded_iff (hrun : run settings events = some service)
    (hexpires : ¬ Transition.Occurs (step settings) {} events ExpiresOutstanding) :
    (∀ past reached, past <+: events → run settings past = some reached →
        Bounded settings reached) ↔
      ¬ Transition.Occurs (step settings) {} events Outruns := by
  apply Transition.always_iff_not_occurs (motive := Bounded settings) ?_ ?_ hrun
  · intro past reached event next hpast hstep houtruns
    exact not_bounded_of_outruns (run_linked hpast) hstep houtruns
  · rintro past reached ⟨rest, rfl⟩ hreached hinside
    apply (run_covered hreached hinside).bounded (run_sound hreached ?_)
    exact fun hoccurs => hexpires (hoccurs.append rest)

end Runs

/-! ## A stream -/

/-- A request of a user enters the endpoint. -/
def entering (index : ℕ) (endpoint : Endpoint) : List Event :=
  [.arrive 7 endpoint] ++ List.replicate 4 (.command index)

/-- A turn that is waited for to its end. -/
def waited : List Event :=
  entering 0 .chat ++ [.act 0 .launch, .tick 20, .act 0 .finish, .act 0 .leave] ++
    List.replicate 2 (.command 0)

/-- The slots are given back, and the body of the stream starts its graph run. -/
def streamed (index : ℕ) : List Event :=
  entering index .chatStream ++ [.act index .respond] ++ List.replicate 2 (.command index) ++
    [.act index .iterate]

theorem run_bounded_iff_waited :
    ∃ service, run {} waited = some service ∧
      ((∀ past reached, past <+: waited → run {} past = some reached →
          Bounded {} reached) ↔
        ¬ Transition.Occurs (step {}) {} waited Outruns) := by
  have hrun : (run {} waited).isSome = true := by decide +kernel
  obtain ⟨service, hservice⟩ := Option.isSome_iff_exists.mp hrun
  exact ⟨service, hservice, run_bounded_iff hservice (by decide +kernel)⟩

/-- A wait that is cut short: the slots are free, and the graph run goes on. -/
def timedOut : List Event :=
  entering 0 .chat ++ [.act 0 .launch, .tick 90, .act 0 .cut] ++ List.replicate 2 (.command 0)

example : (run {} timedOut).map (fun service =>
    (service.requests.map (·.running), service.quota.store.value .global)) =
      some ([true], 0) := by
  decide +kernel

/-- Forty-one graph runs of one user at the same time. -/
theorem run_not_bounded :
    ¬ ∀ (settings : QuotaSettings) (events : List Event) (service : Service),
        run settings events = some service → Bounded settings service := by
  intro hclaim
  have hrun : (run {} ((List.range 41).flatMap streamed)).map (fun service =>
      service.requests.countP fun request => request.running) = some 41 := by
    decide +kernel
  obtain ⟨service, hservice, hcount⟩ := Option.map_eq_some_iff.mp hrun
  have hfew := (hclaim {} _ service hservice).few
  rw [hcount] at hfew
  exact absurd hfew (by decide)

end AgenticRag.Quota.Turns
