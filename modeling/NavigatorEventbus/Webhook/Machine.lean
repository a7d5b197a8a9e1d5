import NavigatorEventbus.Lib.History
import NavigatorEventbus.Lib.Program
import NavigatorEventbus.Webhook.Core

/-!
# The ingest pipeline

The pipeline of a webhook receiver as a program (`WebhookIngestMixin._ingest` in
`hooks/webhook/receiver.py`, with `_handle_webhook` of `listener.py` and `_handle_post` of `provider.py`),
whose commands are the stages that read or change the receiver, wait, or call code of the application.
Each delivery has a number, under which the history knows it.  The counters of an endpoint and the log lines
are left out: no stage reads them.
-/

namespace NavigatorEventbus.Webhook

open Interleave

open Bus (Exc Outcome)

/-- What the environment supplies with a command: the times, how a wait or a call of foreign code ends,
and whether the parser gives up on the nesting of a body. -/
structure Input where
  time : ℚ := 0
  monotonic : ℚ := 0
  wait : Outcome Unit := .ok ()
  parser : Outcome Unit := .ok ()
  preprocessor : Outcome Returned := .ok .nothing
  override : Outcome (Option Text) := .ok none
  normalized : Outcome Json := .ok .null
  callback : Outcome Unit := .ok ()

/-- A webhook hook: the settings of its receiver, and its override points. -/
structure Hook where
  maxBodyBytes : ℕ := 1048576
  maxInflight : ℕ := 64
  background : Bool := false
  dedupTtl : ℕ := 0
  dedupCacheSize : ℕ := 1024
  hookId : Text
  hookType : Text := "webhook".toList
  targetType : Option Text := none
  targetId : Option Text := none
  metadata : Members := []
  classifyEvent : Request → WebhookEndpointConfig → Members → Input → Outcome (Option Text)
  normalizePayload : Request → WebhookEndpointConfig → Members → Text → Input → Outcome Json
  buildTask : WebhookEndpointConfig → Text → Json → Input → Outcome (Option Text)
  dedupCacheSize_pos : 0 < dedupCacheSize

/-- The default of `_classify_event`. -/
def classifyEvent (request : Request) (endpoint : WebhookEndpointConfig) (_ : Members) (_ : Input) :
    Outcome (Option Text) :=
  match endpoint.eventTypeHeader with
  | none | some [] => .ok (some endpoint.eventType)
  | some header =>
    match getHeader request.headers header with
    | none | some [] => .ok (some endpoint.eventType)
    | some value => .ok (some (strip value))

/-- The default of `_normalize_payload`. -/
def normalizePayload (_ : Request) (_ : WebhookEndpointConfig) (payload : Members) (_ : Text) (_ : Input) :
    Outcome Json :=
  .ok (.obj payload)

/-- The default of `_build_task`. -/
def buildTask (_ : WebhookEndpointConfig) (_ : Text) (_ : Json) (_ : Input) : Outcome (Option Text) := .ok none

/-- What the history records of a delivery. -/
inductive Event where
  | received (delivery : ℕ)
  | verified (delivery : ℕ)
  | remembered (delivery : ℕ) (path key : Text)
  | duplicate (delivery : ℕ) (path key : Text)
  | dispatched (delivery : ℕ)
  | ended (delivery : ℕ) (success : Bool)
  deriving DecidableEq

/-- The state of a receiver. `spawned` are the background dispatches that have not run yet. -/
structure State where
  endpoints : List (Text × WebhookEndpointConfig) := []
  schemes : Text → Option SignatureScheme := fun _ => none
  hookTypes : List Text := []
  callback : Bool := false
  semaphore : Asyncio.Semaphore := {}
  dedup : DedupCache := []
  spawned : List (ℕ × HookEvent) := []
  deliveries : ℕ := 0
  log : History Event := []

/-- The commands of the tasks of a receiver. -/
inductive Cmd where
  | receive
  | endpoint (key : Text)
  | enter
  | leave
  | chunk
  | verify (delivery : ℕ) (request : Request) (endpoint : WebhookEndpointConfig) (body : Bytes)
  | duplicate (delivery : ℕ) (path key : Text)
  | parse (delivery : ℕ) (body : Bytes) (contentType : Text) (allowNonJson : Bool)
  | preprocess (delivery : ℕ) (endpoint : WebhookEndpointConfig) (payload : Members) (context : WebhookContext)
  | classify (delivery : ℕ) (request : Request) (endpoint : WebhookEndpointConfig) (payload : Members)
  | normalize (delivery : ℕ) (request : Request) (endpoint : WebhookEndpointConfig) (payload : Members)
      (eventType : Text)
  | task (delivery : ℕ) (endpoint : WebhookEndpointConfig) (eventType : Text) (payload : Json)
  | build (delivery : ℕ) (payload : Json) (event : HookEvent)
  | dispatch (delivery : ℕ) (event : HookEvent)
  | spawn (delivery : ℕ) (event : HookEvent)
  | boot

namespace Cmd

/-- The reply of a command. -/
@[reducible] def Reply : Cmd → Type
  | receive => ℕ
  | endpoint _ => Option WebhookEndpointConfig
  | enter => Bool
  | leave => Unit
  | chunk => Outcome Unit
  | verify _ _ _ _ => Outcome SignatureCheck
  | duplicate _ _ _ => Bool
  | parse _ _ _ _ => Outcome (Option Members)
  | preprocess _ _ _ _ => Outcome PreprocessResult
  | classify _ _ _ _ => Outcome (Option Text)
  | normalize _ _ _ _ _ => Outcome Json
  | task _ _ _ _ => Outcome (Option Text)
  | build _ _ _ => Option HookEvent
  | dispatch _ _ => Outcome Unit
  | spawn _ _ => Unit
  | boot => Option (ℕ × HookEvent)

end Cmd

/-- The commands of a receiver. -/
abbrev tasks : Signature := ⟨Cmd, Cmd.Reply⟩

/-- A coroutine. -/
abbrev Coro (α : Type) : Type := Prog tasks α

/-- A single command. -/
abbrev Cmd.await (c : Cmd) : Coro c.Reply := Prog.cmd (S := tasks) c

/-! ## Commands -/

namespace State

variable (hook : Hook) (σ : State)

/-- An event enters the history. -/
def record (p : ℕ) (event : Event) : State := { σ with log := (p, event) :: σ.log }

/-- `_verify_signature`, with the scheme that is registered under the name of the endpoint's. -/
def verify (p delivery : ℕ) (request : Request) (endpoint : WebhookEndpointConfig) (body : Bytes) (i : Input) :
    Outcome SignatureCheck × State :=
  match endpoint.secret, σ.schemes endpoint.signatureScheme with
  | some secret, some scheme =>
    let r := scheme.verify secret body request.headers endpoint.signatureHeader endpoint.toleranceSeconds i.time
    (r, match r with
      | .ok { verdict := .ok, .. } => σ.record p (.verified delivery)
      | _ => σ)
  | _, _ => (.error (.exception "KeyError" (some "Unknown signature scheme")), σ)

/-- `_is_duplicate` for a delivery id that is not empty. -/
def duplicate (p delivery : ℕ) (path key : Text) (i : Input) : Bool × State :=
  let r := σ.dedup.check hook.dedupTtl hook.dedupCacheSize i.monotonic (fullKey path key)
  (r.1, { σ with dedup := r.2 }.record p
    (if r.1 then .duplicate delivery path key else .remembered delivery path key))

/-- The end of `on_event`: an exception of the callback is logged. -/
def onEvent : Outcome Unit → Outcome Unit
  | .error exc =>
    if exc.isException then
      match exc.text with
      | some _ => .ok ()
      | none => .error (.exception "Exception" none)
    else .error exc
  | .ok () => .ok ()

/-- Execution of a command by the task `p`. -/
def exec (p : ℕ) (c : Cmd) (i : Input) : c.Reply × State :=
  match c with
  | .receive => (σ.deliveries, { σ with deliveries := σ.deliveries + 1 }.record p (.received σ.deliveries))
  | .endpoint key => (σ.endpoints.lookup key, σ)
  | .enter =>
    if hook.maxInflight = 0 then (true, σ)
    else if σ.semaphore.Locked then (false, σ)
    else (true, { σ with semaphore := (σ.semaphore.acquire p).2 })
  | .leave => ((), if hook.maxInflight = 0 then σ else { σ with semaphore := σ.semaphore.release })
  | .chunk => (i.wait, σ)
  | .verify delivery request endpoint body => σ.verify p delivery request endpoint body i
  | .duplicate delivery path key => σ.duplicate hook p delivery path key i
  | .parse _ body contentType allowNonJson =>
    (match i.parser with
      | .ok () => .ok (parseBody body contentType allowNonJson)
      | .error exc => .error exc, σ)
  | .preprocess _ endpoint payload _ => (runPreprocessor endpoint payload i.preprocessor, σ)
  | .classify _ request endpoint payload => (hook.classifyEvent request endpoint payload i, σ)
  | .normalize _ request endpoint payload eventType =>
    (hook.normalizePayload request endpoint payload eventType i, σ)
  | .task _ endpoint eventType payload => (hook.buildTask endpoint eventType payload i, σ)
  | .build _ payload event =>
    (match payload with
      | .obj payload => if event.hookType ∈ σ.hookTypes then some { event with payload } else none
      | _ => none, σ)
  | .dispatch delivery _ =>
    if σ.callback then (onEvent i.callback, σ.record p (.dispatched delivery)) else (.ok (), σ)
  | .spawn delivery event => ((), { σ with spawned := σ.spawned ++ [(delivery, event)] })
  | .boot =>
    match σ.spawned with
    | [] => (none, σ)
    | first :: rest => (some first, { σ with spawned := rest })

end State

/-- A receiver as a machine. -/
abbrev machine (hook : Hook) : Machine tasks where
  State := State
  Input := Input
  exec p c i σ := σ.exec hook p c i

/-! ## The pipeline -/

/-- A body as `read_capped` leaves it. -/
inductive Body where
  | tooLarge (size limit : ℕ)
  | bytes (body : Bytes)

/-- The loop of `read_capped`. -/
def readChunks (limit : ℕ) (broken : Option Exc) (buffer : Bytes) : List Bytes → Coro (Outcome Body)
  | [] => do
    match ← Cmd.chunk.await, broken with
    | .error exc, _ => return .error exc
    | .ok (), some exc => return .error exc
    | .ok (), none => return .ok (.bytes buffer)
  | chunk :: chunks => do
    match ← Cmd.chunk.await with
    | .error exc => return .error exc
    | .ok () =>
      let buffer := buffer ++ chunk
      if limit < buffer.length then return .ok (.tooLarge buffer.length limit)
      else readChunks limit broken buffer chunks

/-- `read_capped`. -/
def readCapped (request : Request) (limit : ℕ) : Coro (Outcome Body) :=
  match request.contentLength with
  | some declared =>
    if limit < declared then .pure (.ok (.tooLarge declared limit))
    else readChunks limit request.broken [] request.chunks
  | none => readChunks limit request.broken [] request.chunks

/-- The network allow-list lets the client in. -/
def addressAllowed (request : Request) (endpoint : WebhookEndpointConfig) : Bool :=
  endpoint.parsedNetworks.isEmpty ||
    ipAllowed (clientIp request endpoint.trustForwardedFor) endpoint.parsedNetworks

/-- What the checks in front of the pipeline decide. -/
inductive Admission where
  | refused (r : Response)
  | admitted (body : Bytes)

namespace Hook

variable (hook : Hook)

/-- The cap on the body of a delivery. -/
def limit (endpoint : WebhookEndpointConfig) : ℕ := endpoint.maxBodyBytes.getD hook.maxBodyBytes

/-- The first stages of `_ingest`: enabled, source address, raw body, signature. -/
def checkRequest (delivery : ℕ) (request : Request) (endpoint : WebhookEndpointConfig) : Coro (Outcome Admission) :=
  if endpoint.enabled then
    if addressAllowed request endpoint then do
      match ← readCapped request (hook.limit endpoint) with
      | .error exc => return .error exc
      | .ok (.tooLarge _ limit) =>
        return .ok (.refused (jsonError 413 "payload_too_large" [("limit", .int limit)]))
      | .ok (.bytes body) =>
        if endpoint.key = none then return .ok (.admitted body)
        else
          match ← (Cmd.verify delivery request endpoint body).await with
          | .error exc => return .error exc
          | .ok check =>
            if check.verdict = .ok then return .ok (.admitted body)
            else return .ok (.refused (verdictResponse check.verdict))
    else .pure (.ok (.refused (jsonError 403 "forbidden")))
  else .pure (.ok (.refused (jsonError 503 "disabled" [] [("Retry-After", "60")])))

/-- `_is_duplicate`. -/
def isDuplicate (delivery : ℕ) (request : Request) (endpoint : WebhookEndpointConfig) : Coro Bool :=
  if hook.dedupTtl = 0 then .pure false
  else
    match endpoint.deliveryId request with
    | none | some [] => .pure false
    | some key => (Cmd.duplicate delivery endpoint.path key).await

/-- The event type of a delivery; `none` when it is ignored. -/
def eventType (delivery : ℕ) (request : Request) (endpoint : WebhookEndpointConfig) (pre : PreprocessResult) :
    Coro (Outcome (Option Text)) :=
  match pre.eventType with
  | some (c :: eventType) => .pure (.ok (some (c :: eventType)))
  | _ => do
    match ← (Cmd.classify delivery request endpoint pre.payload).await with
    | .error exc => return .error exc
    | .ok none => return .ok none
    | .ok (some classified) =>
      match endpoint.eventTypePrefix with
      | none | some [] => return .ok (some classified)
      | some eventTypePrefix => return .ok (some (eventTypePrefix ++ '.' :: classified))

/-- The metadata of the event of a delivery. -/
def eventMetadata (request : Request) (endpoint : WebhookEndpointConfig) (pre : PreprocessResult) : Members :=
  let metadata := update (update hook.metadata endpoint.metadata) pre.metadata
  let metadata := setDefault metadata "webhook_path" (textJson endpoint.path)
  match endpoint.deliveryId request with
  | none | some [] => metadata
  | some key => setDefault metadata "delivery_id" (textJson key)

/-- `a or b`. -/
def orElse : Option Text → Option Text → Option Text
  | some (c :: s), _ => some (c :: s)
  | _, b => b

/-- The task of the event of a delivery. -/
def eventTask (delivery : ℕ) (endpoint : WebhookEndpointConfig) (pre : PreprocessResult) (eventType : Text)
    (payload : Json) : Coro (Outcome (Option Text)) :=
  match pre.task with
  | some (c :: task) => .pure (.ok (some (c :: task)))
  | _ => (Cmd.task delivery endpoint eventType payload).await

/-- The response to a delivery whose event was dispatched. -/
def accepted (pre : PreprocessResult) (eventType : Text) : Response where
  status := 202
  body := [("status", .str "accepted"), ("event_type", textJson eventType), ("hook_id", textJson hook.hookId)] ++
    if ∃ m ∈ pre.metadata, m.1 = "preprocessor_error" then [("preprocessor", .str "failed")] else []

/-- `web.json_response({"status": status})`. -/
def acknowledged (status : String) : Response := { status := 200, body := [("status", .str status)] }

/-- The dispatch of an event, or its background task. -/
def deliver (delivery : ℕ) (event : HookEvent) : Coro (Outcome Unit) :=
  if hook.background then do
    (Cmd.spawn delivery event).await
    return .ok ()
  else (Cmd.dispatch delivery event).await

/-- The stages of `_ingest` from the classification on. -/
def emit (delivery : ℕ) (request : Request) (endpoint : WebhookEndpointConfig) (pre : PreprocessResult) :
    Coro (Outcome Response) := do
  match ← eventType delivery request endpoint pre with
  | .error exc => return .error exc
  | .ok none => return .ok (acknowledged "ignored")
  | .ok (some eventType) =>
    match ← (Cmd.normalize delivery request endpoint pre.payload eventType).await with
    | .error exc => return .error exc
    | .ok payload =>
      match ← eventTask delivery endpoint pre eventType payload with
      | .error exc => return if exc.isException then .ok (jsonError 500 "error") else .error exc
      | .ok task =>
        let event : HookEvent :=
          { hookId := hook.hookId, hookType := hook.hookType, eventType, payload := []
            metadata := hook.eventMetadata request endpoint pre
            targetType := orElse endpoint.targetType hook.targetType
            targetId := orElse endpoint.targetId hook.targetId, task }
        match ← (Cmd.build delivery payload event).await with
        | none => return .ok (jsonError 500 "error")
        | some event =>
          match ← hook.deliver delivery event with
          | .error exc => return .error exc
          | .ok () => return .ok (hook.accepted pre eventType)

/-- The stages of `_ingest` after the checks in front. -/
def process (delivery : ℕ) (request : Request) (endpoint : WebhookEndpointConfig) (body : Bytes) :
    Coro (Outcome Response) := do
  if ← hook.isDuplicate delivery request endpoint then return .ok (acknowledged "duplicate")
  else
    let contentType := (getHeader request.headers "Content-Type".toList).getD []
    match ← (Cmd.parse delivery body contentType endpoint.allowNonJson).await with
    | .error exc => return .error exc
    | .ok none => return .ok (jsonError 400 "invalid_payload")
    | .ok (some payload) =>
      let context : WebhookContext :=
        { headers := request.headers, path := endpoint.path
          remote := clientIp request endpoint.trustForwardedFor, contentType
          endpointName := orElse endpoint.name (some endpoint.path) |>.getD [], method := request.method }
      match ← (Cmd.preprocess delivery endpoint payload context).await with
      | .error exc => return .error exc
      | .ok pre => if pre.ignore then return .ok (acknowledged "ignored") else hook.emit delivery request endpoint pre

/-- `_ingest`. -/
def ingest (delivery : ℕ) (request : Request) (endpoint : WebhookEndpointConfig) : Coro (Outcome Response) := do
  match ← hook.checkRequest delivery request endpoint with
  | .error exc => return .error exc
  | .ok (.refused r) => return .ok r
  | .ok (.admitted body) => hook.process delivery request endpoint body

/-- `_guarded_ingest`: an unexpected exception becomes a response. -/
def guardedIngest (delivery : ℕ) (request : Request) (endpoint : WebhookEndpointConfig) :
    Coro (Outcome Response) := do
  match ← hook.ingest delivery request endpoint with
  | .ok r => return .ok r
  | .error exc => return if exc.isException then .ok (jsonError 500 "error") else .error exc

end Hook

/-- The key of a request in the registry of endpoints. -/
def Request.endpointKey (request : Request) : Text :=
  '/' :: ((request.webhookId.dropWhile (· = '/')).reverse.dropWhile (· = '/')).reverse

namespace Hook

variable (hook : Hook)

/-- `_handle_webhook`. -/
def handleWebhook (delivery : ℕ) (request : Request) : Coro (Outcome Response) := do
  match ← (Cmd.endpoint request.endpointKey).await with
  | none => return .ok (jsonError 404 "unknown_endpoint" [("path", textJson request.endpointKey)])
  | some endpoint =>
    if ← Cmd.enter.await then
      let r ← hook.guardedIngest delivery request endpoint
      Cmd.leave.await
      return r
    else return .ok (jsonError 503 "busy" [] [("Retry-After", "1")])

/-- `_handle_post` of a hook with one endpoint. -/
def handlePost (delivery : ℕ) (request : Request) (endpoint : WebhookEndpointConfig) :
    Coro (Outcome Response) :=
  hook.guardedIngest delivery request endpoint

/-- A background dispatch. -/
def backgroundTask : Coro (Outcome Unit) := do
  match ← Cmd.boot.await with
  | none => return .ok ()
  | some (delivery, event) => (Cmd.dispatch delivery event).await

end Hook

/-! ## Requests side by side -/

/-- The calls of the tasks of a receiver. -/
inductive Call where
  | webhook (request : Request)
  | post (request : Request) (endpoint : WebhookEndpointConfig)
  | background

/-- The program of a call, with the number of its delivery. -/
def Call.code (hook : Hook) : Call → Coro (Option ℕ × Outcome (Option Response))
  | webhook request => do
    let delivery ← Cmd.receive.await
    let r ← hook.handleWebhook delivery request
    return (some delivery, r.map some)
  | post request endpoint => do
    let delivery ← Cmd.receive.await
    let r ← hook.handlePost delivery request endpoint
    return (some delivery, r.map some)
  | background => do
    let r ← Hook.backgroundTask
    return (none, r.map fun _ => none)

/-- What happens to a receiver besides its requests: endpoints come and go, schemes and hook types are
registered, the hook gets a callback, and its background tasks are cancelled. -/
inductive Disturbance where
  | install (endpoint : WebhookEndpointConfig)
  | unregister (path : Text)
  | scheme (name : Text) (scheme : SignatureScheme)
  | hookType (name : Text) (registered : Bool)
  | setCallback (registered : Bool)
  | drain

namespace State

variable (σ : State)

/-- A disturbance happens. -/
def disturb : Disturbance → State
  | .install endpoint =>
    { σ with endpoints := (endpoint.path, endpoint) :: σ.endpoints.filter fun entry => entry.1 ≠ endpoint.path }
  | .unregister path => { σ with endpoints := σ.endpoints.filter fun entry => some entry.1 ≠ normalizePath path }
  | .scheme name scheme => { σ with schemes := Function.update σ.schemes name (some scheme) }
  | .hookType name registered =>
    { σ with
      hookTypes := if registered then name :: σ.hookTypes else σ.hookTypes.filter (· ≠ name) }
  | .setCallback registered => { σ with callback := registered }
  | .drain => { σ with spawned := [] }

/-- A request has its answer, or ends without one. -/
def note (p : ℕ) : Option ℕ × Outcome (Option Response) → State
  | (some delivery, .ok (some r)) => σ.record p (.ended delivery (decide r.Success))
  | (some delivery, _) => σ.record p (.ended delivery false)
  | (none, _) => σ

end State

/-- The requests to a receiver. -/
abbrev receiver (hook : Hook) : Service (machine hook) where
  Call := Call
  Result := Option ℕ × Outcome (Option Response)
  Phase := Unit
  idle := ()
  code := Call.code hook
  phase _ _ := ()
  accepts _ _ := true
  note p _ r σ := σ.note p r
  Disturbance := Disturbance
  disturb d σ := σ.disturb d

/-- A receiver without endpoints. -/
def Hook.new (hook : Hook) : Pool (receiver hook) where
  shared := { semaphore := { value := hook.maxInflight } }
  actors _ := .resting ()

end NavigatorEventbus.Webhook
