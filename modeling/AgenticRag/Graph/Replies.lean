import AgenticRag.Graph.Clients

/-!
# What the language model client makes of a reply

The methods of `OpenAILLM` as they run, on what the call to the backend did: the text of
the completion, which may be anything, or the exception.  The handler of `_json` covers
the call, the parser and the access to the key; what a caller does with the value of the
key runs outside of it.
-/

namespace AgenticRag.OpenAILLM

open AgenticRag.PyString AgenticRag.Clients

/-! ## Values of a reply -/

/-- `hash(value)` does not raise. -/
def Hashable : Json → Prop
  | .null | .bool _ | .number _ | .string _ => True
  | .array _ | .object _ => False

/-- `for part in value` does not raise. -/
def Iterable : Json → Prop
  | .null | .bool _ | .number _ => False
  | .string _ | .array _ | .object _ => True

/-- `value in names` for a set of names, which hashes the value first. -/
def isIn (names : List String) : Json → Except Failure Bool
  | .string text => .ok (text ∈ names)
  | .null | .bool _ | .number _ => .ok false
  | .array _ | .object _ => .error "TypeError"

/-- The parts a `for` runs over. -/
def iterate (value : Json) : Except Failure (List Json) :=
  match value.parts with
  | some parts => .ok parts
  | none => .error "TypeError"

/-- An optional label as a value: `None` or the string. -/
def ofLabel : Option String → Json
  | none => .null
  | some label => .string label

/-! ## Methods -/

section Methods

variable (config : Config) (completion : Except Failure String)

/-- `_chat` -/
def chat : Except Failure String := do
  let content ← completion
  return strip content

/-- `_chat_stream` -/
def chatStream (streamed : Streamed) : Except Failure String :=
  match streamed.raised with
  | some failure => .error failure
  | none => .ok (strip (String.join streamed.deltas))

/-- `json.loads` -/
def loads (text : String) : Except Failure Json :=
  match config.loads text with
  | some reply => .ok reply
  | none => .error "JSONDecodeError"

/-- `_json` -/
def jsonField (key : String) (default : Json) : Except Failure Json :=
  tryCatch
    (do
      let out ← chat completion
      let reply ← loads config (extractObject out)
      reply.get key default)
    fun _ => return default

/-- `ROUTES` -/
def routes : List String :=
  ["simple_rag", "complex_multi_step", "summarization", "comparison", "table_question",
    "chart_question", "diagram_question", "image_question", "unsupported"]

def route : Except Failure Json := do
  let route ← jsonField config completion "route" (.string "simple_rag")
  let known ← isIn routes route
  return if known then route else .string "simple_rag"

def routeIntent : Except Failure Json := do
  let out ← jsonField config completion "intent" .null
  match out with
  | .string _ => return out
  | .null | .bool _ | .number _ | .array _ | .object _ => return .null

def plan (query : String) : Except Failure (List String) := do
  let steps ← jsonField config completion "steps" (.array [.string query])
  let parts ← iterate steps
  let texts := (parts.map config.str).take 3
  return if texts = [] then [query] else texts

def rewriteQuery (query : String) : Except Failure String :=
  tryCatch
    (do
      let text ← chat completion
      return if text = "" then query else text)
    fun _ => return query

/-- `generate`; with a writer for the tokens it reads the stream. -/
def generate (streamed : Option Streamed) : Except Failure String :=
  tryCatch
    (match streamed with
      | some streamed => chatStream streamed
      | none => chat completion)
    fun _ => return ""

def gradeRelevance (contexts : List String) : Except Failure Bool := do
  if contexts = [] then return false
  let relevant ← jsonField config completion "relevant" (.bool true)
  return relevant.truthy

def gradeGrounded (answer : String) : Except Failure Bool := do
  if answer = "" then return false
  let grounded ← jsonField config completion "grounded" (.bool true)
  return grounded.truthy

end Methods

/-! ## The handler of `_json` -/

section Handler

variable {config : Config} {completion : Except Failure String} {key : String}
variable {default value : Json}

/-- The call succeeded, and the object in its reply has the value under the key. -/
def Replied (config : Config) (completion : Except Failure String) (key : String)
    (value : Json) : Prop :=
  ∃ (content : String) (fields : List (String × Json)),
    completion = .ok content ∧
      config.loads (extractObject (strip content)) = some (.object fields) ∧
      fields.lookup key = some value

theorem tryCatch_ok {α : Type} (result : α) (handle : Failure → Except Failure α) :
    tryCatch (Except.ok result) handle = .ok result := rfl

theorem tryCatch_error {α : Type} (failure : Failure)
    (handle : Failure → Except Failure α) :
    tryCatch (Except.error failure) handle = handle failure := rfl

theorem exists_of_bind_ok {α β : Type} (body : Except Failure α)
    {next : α → Except Failure β} {result : β} (hok : body >>= next = .ok result) :
    ∃ value, body = .ok value ∧ next value = .ok result := by
  cases body with
  | error failure => cases hok
  | ok value => exact ⟨value, rfl, hok⟩

/-- A handler that returns keeps the whole from raising. -/
theorem exists_tryCatch_return {α : Type} (body : Except Failure α) (fallback : α) :
    ∃ result, tryCatch body (fun _ => (return fallback : Except Failure α)) =
      .ok result := by
  cases body with
  | error failure => exact ⟨fallback, rfl⟩
  | ok result => exact ⟨result, rfl⟩

theorem exists_jsonField (config : Config) (completion : Except Failure String)
    (key : String) (default : Json) :
    ∃ value, jsonField config completion key default = .ok value :=
  exists_tryCatch_return _ default

theorem jsonField_of_replied (hreplied : Replied config completion key value) :
    jsonField config completion key default = .ok value := by
  obtain ⟨content, fields, rfl, hloads, hlookup⟩ := hreplied
  have hget : Json.get (.object fields) key default = .ok value := by
    rw [Json.get, hlookup, Option.getD_some]
  have hload : loads config (extractObject (strip content)) = .ok (.object fields) := by
    rw [loads, hloads]
  calc jsonField config (.ok content) key default
      = tryCatch (do
          let reply ← loads config (extractObject (strip content))
          reply.get key default) fun _ => return default := rfl
    _ = tryCatch (Json.get (.object fields) key default) fun _ => return default := by
        rw [hload]
        rfl
    _ = .ok value := by
        rw [hget]
        rfl

/-- Without a value under the key the default is returned, whatever went wrong. -/
theorem jsonField_of_not_replied
    (hnone : ∀ value, ¬ Replied config completion key value) :
    jsonField config completion key default = .ok default := by
  cases hcompletion : completion with
  | error failure => rfl
  | ok content =>
    change tryCatch (do
      let reply ← loads config (extractObject (strip content))
      reply.get key default) (fun _ => return default) = .ok default
    cases hloads : config.loads (extractObject (strip content)) with
    | none =>
      rw [loads, hloads]
      rfl
    | some reply =>
      rw [loads, hloads]
      cases reply with
      | null | bool | number | string | array => rfl
      | object fields =>
        have hlookup : fields.lookup key = none := by
          by_contra hfound
          obtain ⟨value, hvalue⟩ := Option.ne_none_iff_exists'.mp hfound
          exact hnone value ⟨content, fields, hcompletion, hloads, hvalue⟩
        change tryCatch (Json.get (.object fields) key default) _ = _
        rw [Json.get, hlookup]
        rfl

/-- A caller that only raises on some values raises exactly on such a value of the
reply, when its default is none of them. -/
theorem forall_jsonField_iff {Accepts : Json → Prop} (hdefault : Accepts default) :
    (∃ value, jsonField config completion key default = .ok value ∧ Accepts value) ↔
      ∀ value, Replied config completion key value → Accepts value := by
  constructor
  · rintro ⟨value, hfield, haccepts⟩ other hreplied
    have hother : jsonField config completion key default = .ok other :=
      jsonField_of_replied hreplied
    rw [hfield, Except.ok.injEq] at hother
    exact hother ▸ haccepts
  · intro haccepts
    by_cases hreplied : ∃ value, Replied config completion key value
    · obtain ⟨value, hvalue⟩ := hreplied
      exact ⟨value, jsonField_of_replied hvalue, haccepts value hvalue⟩
    · exact ⟨default, jsonField_of_not_replied (not_exists.mp hreplied), hdefault⟩

end Handler


/-! ## What the methods return -/

section Results

variable {config : Config} {completion : Except Failure String}

theorem isIn_ok_iff {names : List String} {value : Json} :
    (∃ known, isIn names value = .ok known) ↔ Hashable value := by
  cases value <;> simp [isIn, Hashable]

theorem iterate_ok_iff {value : Json} :
    (∃ parts, iterate value = .ok parts) ↔ Iterable value := by
  cases value <;> simp [iterate, Json.parts, Iterable]

/-- A value the membership test accepts is a route or is replaced by one. -/
theorem route_of_field {value : Json} (hhashable : Hashable value)
    (hfield : jsonField config completion "route" (.string "simple_rag") = .ok value) :
    ∃ name ∈ routes, route config completion = .ok (.string name) := by
  have hsimple : "simple_rag" ∈ routes := by decide
  have hroute : route config completion = (do
      let known ← isIn routes value
      return if known then value else .string "simple_rag") := by
    rw [route, hfield]
    rfl
  cases value with
  | null | bool | number => exact ⟨"simple_rag", hsimple, hroute⟩
  | string text =>
    by_cases hknown : text ∈ routes
    · refine ⟨text, hknown, hroute.trans ?_⟩
      simp [isIn, hknown, bind, Except.bind, pure, Except.pure]
    · refine ⟨"simple_rag", hsimple, hroute.trans ?_⟩
      simp [isIn, hknown, bind, Except.bind, pure, Except.pure]
  | array | object => exact hhashable.elim

/-- The router returns one of the routes unless the reply has a value it cannot hash. -/
theorem route_mem_iff :
    (∃ name ∈ routes, route config completion = .ok (.string name)) ↔
      ∀ value, Replied config completion "route" value → Hashable value := by
  have hdefault : Hashable (.string "simple_rag") := trivial
  rw [← forall_jsonField_iff hdefault]
  constructor
  · rintro ⟨name, -, hroute⟩
    obtain ⟨value, hfield⟩ :=
      exists_jsonField config completion "route" (.string "simple_rag")
    rw [route, hfield] at hroute
    obtain ⟨known, hknown, -⟩ := exists_of_bind_ok (isIn routes value) hroute
    exact ⟨value, hfield, isIn_ok_iff.mp ⟨known, hknown⟩⟩
  · rintro ⟨value, hfield, hhashable⟩
    exact route_of_field hhashable hfield

theorem routeIntent_label (config : Config) (completion : Except Failure String) :
    ∃ label, routeIntent config completion = .ok (ofLabel label) := by
  obtain ⟨value, hfield⟩ := exists_jsonField config completion "intent" .null
  rw [routeIntent, hfield]
  cases value with
  | string label => exact ⟨some label, rfl⟩
  | null | bool | number | array | object => exact ⟨none, rfl⟩

/-- The first three of the parts, or the query when there is none. -/
theorem length_plan (texts : List String) (query : String) :
    let steps := if texts.take 3 = [] then [query] else texts.take 3
    1 ≤ steps.length ∧ steps.length ≤ 3 := by
  intro steps
  by_cases hnil : texts.take 3 = []
  · simp [steps, hnil]
  · have hpositive : 0 < (texts.take 3).length := List.length_pos_iff.mpr hnil
    have hmost : (texts.take 3).length ≤ 3 := List.length_take_le 3 texts
    simp only [steps, if_neg hnil]
    exact ⟨hpositive, hmost⟩

/-- A planner that returns has run over the steps of its reply. -/
theorem iterable_of_plan {query : String} {steps : List String}
    (hplan : plan config completion query = .ok steps) :
    ∀ value, Replied config completion "steps" value → Iterable value := by
  have hdefault : Iterable (.array [.string query]) := trivial
  rw [← forall_jsonField_iff hdefault]
  obtain ⟨value, hfield⟩ :=
    exists_jsonField config completion "steps" (.array [.string query])
  rw [plan, hfield] at hplan
  obtain ⟨parts, hparts, -⟩ := exists_of_bind_ok (iterate value) hplan
  exact ⟨value, hfield, iterate_ok_iff.mp ⟨parts, hparts⟩⟩

/-- The planner returns one to three steps unless the reply has a value it cannot run
over. -/
theorem plan_length_iff {query : String} :
    (∃ steps, plan config completion query = .ok steps ∧ 1 ≤ steps.length ∧
        steps.length ≤ 3) ↔
      ∀ value, Replied config completion "steps" value → Iterable value := by
  constructor
  · rintro ⟨steps, hplan, -⟩
    exact iterable_of_plan hplan
  · intro hall
    have hdefault : Iterable (.array [.string query]) := trivial
    obtain ⟨value, hfield, hiterable⟩ := (forall_jsonField_iff hdefault).mpr hall
    obtain ⟨parts, hparts⟩ := iterate_ok_iff.mpr hiterable
    refine ⟨_, ?_, length_plan (parts.map config.str) query⟩
    rw [plan, hfield]
    change (iterate value >>= _) = _
    rw [hparts]
    rfl

theorem exists_rewriteQuery (completion : Except Failure String) (query : String) :
    ∃ text, rewriteQuery completion query = .ok text :=
  exists_tryCatch_return _ query

theorem exists_generate (completion : Except Failure String)
    (streamed : Option Streamed) :
    ∃ text, generate completion streamed = .ok text :=
  exists_tryCatch_return _ ""

theorem exists_gradeRelevance (config : Config) (completion : Except Failure String)
    (contexts : List String) :
    ∃ relevant, gradeRelevance config completion contexts = .ok relevant := by
  by_cases hnone : contexts = []
  · exact ⟨false, by rw [gradeRelevance, if_pos hnone]; rfl⟩
  · obtain ⟨value, hfield⟩ :=
      exists_jsonField config completion "relevant" (.bool true)
    refine ⟨value.truthy, ?_⟩
    rw [gradeRelevance, if_neg hnone]
    rw [hfield]
    rfl

theorem exists_gradeGrounded (config : Config) (completion : Except Failure String)
    (answer : String) :
    ∃ grounded, gradeGrounded config completion answer = .ok grounded := by
  by_cases hnone : answer = ""
  · exact ⟨false, by rw [gradeGrounded, if_pos hnone]; rfl⟩
  · obtain ⟨value, hfield⟩ :=
      exists_jsonField config completion "grounded" (.bool true)
    refine ⟨value.truthy, ?_⟩
    rw [gradeGrounded, if_neg hnone]
    rw [hfield]
    rfl

/-- On this outcome of the call every method returns a value of its declared type, the
router one of the routes and the planner one to three steps. -/
structure Returns (config : Config) (completion : Except Failure String) : Prop where
  route : ∃ name ∈ routes, route config completion = .ok (.string name)
  routeIntent : ∃ label, routeIntent config completion = .ok (ofLabel label)
  plan : ∀ query, ∃ steps, plan config completion query = .ok steps ∧
    1 ≤ steps.length ∧ steps.length ≤ 3
  rewriteQuery : ∀ query, ∃ text, rewriteQuery completion query = .ok text
  generate : ∀ streamed, ∃ text, generate completion streamed = .ok text
  gradeRelevance : ∀ contexts, ∃ relevant,
    gradeRelevance config completion contexts = .ok relevant
  gradeGrounded : ∀ answer, ∃ grounded,
    gradeGrounded config completion answer = .ok grounded

/-- The methods are defensive exactly on the replies whose `route`, if there is one, can
be hashed and whose `steps`, if there are any, can be run over. -/
theorem returns_iff (config : Config) (completion : Except Failure String) :
    Returns config completion ↔
      (∀ value, Replied config completion "route" value → Hashable value) ∧
        ∀ value, Replied config completion "steps" value → Iterable value := by
  constructor
  · intro hreturns
    exact ⟨route_mem_iff.mp hreturns.route, plan_length_iff.mp (hreturns.plan "")⟩
  · rintro ⟨hroute, hsteps⟩
    exact {
      route := route_mem_iff.mpr hroute
      routeIntent := routeIntent_label config completion
      plan := fun _ => plan_length_iff.mpr hsteps
      rewriteQuery := exists_rewriteQuery completion
      generate := exists_generate completion
      gradeRelevance := exists_gradeRelevance config completion
      gradeGrounded := exists_gradeGrounded config completion }

/-- A parser that knows one text: the object with `null` under `steps`. -/
def nullSteps : Config where
  sha256 := id
  loads text :=
    if text = "\x7b\"steps\": null\x7d" then some (.object [("steps", .null)]) else none
  str := Json.str

/-- A reply of the planner without steps raises. -/
theorem returns_null_steps :
    ¬ Returns nullSteps (.ok "\x7b\"steps\": null\x7d") := by
  intro hreturns
  have hout : extractObject (strip "\x7b\"steps\": null\x7d") =
      "\x7b\"steps\": null\x7d" := by
    decide +kernel
  have hloads : nullSteps.loads (extractObject (strip "\x7b\"steps\": null\x7d")) =
      some (.object [("steps", .null)]) := by
    rw [hout]
    simp only [nullSteps, if_true]
  have hreplied : Replied nullSteps (.ok "\x7b\"steps\": null\x7d") "steps" .null :=
    ⟨_, [("steps", .null)], rfl, hloads, rfl⟩
  exact plan_length_iff.mp (hreturns.plan "") .null hreplied

end Results

/-! ## The collaborators of the graph -/

section Collaborators

variable {V : Type} (config : Config) (backends : Backends V)

theorem jsonField_backends (prompt : Prompt) (user key : String) (default : Json) :
    jsonField config (backends.chat { prompt := prompt, user := user }) key default =
      .ok (Clients.jsonField config backends prompt user key default) := by
  rw [Clients.jsonField, Clients.chat]
  cases backends.chat { prompt := prompt, user := user } with
  | error failure => rfl
  | ok content =>
    change tryCatch (do
      let reply ← loads config (extractObject (strip content))
      reply.get key default) (fun _ => return default) = _
    simp only [Except.map, loads]
    cases config.loads (extractObject (strip content)) with
    | none => rfl
    | some reply => cases reply <;> rfl

theorem routeIntent_backends (query : String) :
    routeIntent config (backends.chat { prompt := .intentRouter, user := query }) =
      .ok (ofLabel (Clients.routeIntent config backends query)) := by
  rw [routeIntent, jsonField_backends, Clients.routeIntent]
  cases Clients.jsonField config backends .intentRouter query "intent" .null <;> rfl

theorem plan_backends (query : String) :
    plan config (backends.chat { prompt := .planner, user := query }) query =
      (servicesOf config backends).plan query := by
  change _ = Clients.plan config backends query
  rw [plan, jsonField_backends, Clients.plan, ← planSteps]
  change (iterate (planSteps config backends query) >>= _) = _
  rw [iterate]
  cases (planSteps config backends query).parts <;> rfl

theorem rewriteQuery_backends (query : String) :
    rewriteQuery (backends.chat { prompt := .rewrite, user := query }) query =
      .ok (Clients.rewriteQuery backends query) := by
  rw [Clients.rewriteQuery, Clients.chat]
  cases backends.chat { prompt := .rewrite, user := query } <;> rfl

/-- The stream is read when there is a writer for its tokens. -/
theorem generate_backends (call : GenerateCall) :
    let request : ChatRequest :=
      { prompt := .generator call.query
        user := Prompts.generatorUser call.query call.contexts call.history
        images := call.images }
    generate (backends.chat request)
        (if config.streaming then some (backends.chatStream request) else none) =
      .ok (Clients.generate config backends call).text := by
  intro request
  rw [Clients.generate]
  by_cases hstreaming : config.streaming = true
  · rw [if_pos hstreaming, if_pos hstreaming]
    change tryCatch (chatStream (backends.chatStream request)) _ = _
    rw [chatStream]
    cases hraised : (backends.chatStream request).raised with
    | none => simp [request, hraised, tryCatch_ok]
    | some failure => simp [request, hraised, tryCatch_error, pure, Except.pure]
  · rw [if_neg hstreaming, if_neg hstreaming, Clients.chat]
    change tryCatch (chat (backends.chat request)) _ = _
    cases hchat : backends.chat request <;> rfl

theorem gradeRelevance_backends (query : String) (contexts : List String) :
    gradeRelevance config (backends.chat
        { prompt := .relevance, user := relevanceUser query (contexts.headD "") })
        contexts =
      .ok (Clients.gradeRelevance config backends query contexts) := by
  cases contexts with
  | nil => rfl
  | cons first rest =>
    rw [gradeRelevance, if_neg (List.cons_ne_nil first rest), List.headD_cons,
      jsonField_backends]
    rfl

theorem gradeGrounded_backends (answer : String) (contexts : List String) :
    gradeGrounded config (backends.chat
        { prompt := .grounded, user := Graph.groundedUser answer contexts }) answer =
      .ok (Clients.gradeGrounded config backends answer contexts) := by
  rw [gradeGrounded, Clients.gradeGrounded]
  by_cases hnone : answer = ""
  · rw [if_pos hnone, if_pos hnone]
    rfl
  · rw [if_neg hnone, if_neg hnone, jsonField_backends]
    rfl

/-- The language model of the graph is this client: its services are the methods, on what
the backend does with their requests. -/
structure Serves (services : Services) : Prop where
  routeIntent : ∀ query, (services.routeIntent query).map ofLabel =
    routeIntent config (backends.chat { prompt := .intentRouter, user := query })
  plan : ∀ query, services.plan query =
    plan config (backends.chat { prompt := .planner, user := query }) query
  rewriteQuery : ∀ query, services.rewriteQuery query =
    rewriteQuery (backends.chat { prompt := .rewrite, user := query }) query
  generate : ∀ call : GenerateCall,
    let request : ChatRequest :=
      { prompt := .generator call.query
        user := Prompts.generatorUser call.query call.contexts call.history
        images := call.images }
    (services.generate call).map (·.text) =
      generate (backends.chat request)
        (if config.streaming then some (backends.chatStream request) else none)
  gradeRelevance : ∀ query contexts, services.gradeRelevance query contexts =
    gradeRelevance config (backends.chat
      { prompt := .relevance, user := relevanceUser query (contexts.headD "") }) contexts
  gradeGrounded : ∀ answer contexts, services.gradeGrounded answer contexts =
    gradeGrounded config (backends.chat
      { prompt := .grounded, user := Graph.groundedUser answer contexts }) answer

theorem servicesOf_serves : Serves config backends (servicesOf config backends) where
  routeIntent query := (routeIntent_backends config backends query).symm
  plan query := (plan_backends config backends query).symm
  rewriteQuery query := (rewriteQuery_backends backends query).symm
  generate call := (generate_backends config backends call).symm
  gradeRelevance query contexts := (gradeRelevance_backends config backends query contexts).symm
  gradeGrounded answer contexts := (gradeGrounded_backends config backends answer contexts).symm

end Collaborators

end AgenticRag.OpenAILLM
