import NavigatorEventbus.Lib.Asyncio
import NavigatorEventbus.Subscribers.Audit

/-!
# The webhook delivery subscriber

`WebhookDeliverySubscriber` (`subscribers/webhook.py`) over `HttpDelivery` (`subscribers/_delivery.py`): the
bounded buffer of envelopes, the workers that deliver them with retries, the notice of a failed delivery, and
`aclose`.  A command is a piece of code without an `await` in between; one with an `await` in front is executed
when the wait is over (`Ready`).  Delays are left out: a sleep, and the time-out of `aclose`, may be over at
any time.  Of the bus only the calls of `_on_envelope` are left, at any time and for any envelope, and what
`publish` raises.
-/

namespace NavigatorEventbus.Outgoing

open Interleave

open Asyncio (Queue)

open Bus (Exc Outcome)

export Bus (Exc Outcome)

open Lifecycle (Value)

/-! ## Requests -/

/-- What the subscriber reads of an envelope. -/
structure Envelope extends Audit.Envelope where
  schemaVersion : ℤ := 1

namespace Envelope

/-- A text, when there is one. -/
def optionalText : Option Text → Value
  | some s => .str s
  | none => .null

/-- `EventEnvelope.to_dict`. -/
def toDict (e : Envelope) : Value :=
  let member (key : String) (v : Value) : Value × Value := (.str key.toList, v)
  .dict [member "topic" (.str e.topic), member "payload" e.payload, member "event_id" (.str e.eventId),
    member "timestamp" (.str e.timestamp.1.isoformat), member "source" (optionalText e.source),
    member "severity" (.int e.severity.value), member "priority" (.int e.priority.value),
    member "correlation_id" (optionalText e.correlationId),
    member "trace_context" (e.traceContext.getD .null), member "metadata" e.metadata,
    member "schema_version" (.int e.schemaVersion)]

end Envelope

mutual

/-- Whether `json.dumps(..., default=str)` takes a value: one of another type is written by its `str`. -/
def dumpsDefaultStr : Value → Outcome Unit
  | .list items | .tuple items => dumpsDefaultStrItems items
  | .dict members => dumpsDefaultStrMembers members
  | .broken exc => .error exc
  | _ => .ok ()

/-- The items of a list. -/
def dumpsDefaultStrItems : List Value → Outcome Unit
  | [] => .ok ()
  | v :: items => dumpsDefaultStr v >>= fun _ => dumpsDefaultStrItems items

/-- The members of a dictionary. -/
def dumpsDefaultStrMembers : List (Value × Value) → Outcome Unit
  | [] => .ok ()
  | (key, v) :: members =>
    key.dumpsKey >>= fun _ => dumpsDefaultStr v >>= fun _ => dumpsDefaultStrMembers members

end

/-- Headers, in their order; a later one replaces an earlier one of its name. -/
abbrev Headers := List (String × String)

/-- A request. The body is the value whose text is sent. -/
structure Request where
  body : Value
  headers : Headers

/-- The settings of a subscriber. `sign` is the signature scheme. -/
structure WebhookDeliveryConfig where
  name : String := "webhook_delivery"
  url : String
  secret : Option String := none
  sign : String → Value → Outcome Headers := fun _ _ => .ok []
  signatureHeader : Option String := none
  headers : Headers := []
  maxAttempts : ℕ := 3
  retryStatuses : List ℤ := [429]
  queueSize : ℕ := 1000
  concurrency : ℕ := 4
  transforms : Bool := false
  emitFailureMeta : Bool := true
  maxAttempts_pos : 1 ≤ maxAttempts := by decide
  queueSize_pos : 0 < queueSize := by decide
  concurrency_pos : 1 ≤ concurrency := by decide

/-- Result of one delivery attempt sequence. -/
structure DeliveryOutcome where
  delivered : Bool
  attempts : ℕ
  status : Option ℤ := none
  error : Option String := none
  deriving DecidableEq

/-- The payload of a `bus.webhook_delivery_failed` event. -/
structure Notice where
  subscriber : String
  url : String
  topic : Text
  eventId : Text
  attempts : ℕ
  status : Option ℤ
  error : Option String
  deriving DecidableEq

namespace WebhookDeliveryConfig

variable (config : WebhookDeliveryConfig)

/-- A setting that is there and not empty. -/
def given : Option String → Option String
  | some s => if s = "" then none else some s
  | none => none

/-- The signature of a body, under the header that the operator chose. -/
def signed (secret : String) (body : Value) : Outcome Headers := do
  let signed ← config.sign secret body
  match given config.signatureHeader with
  | none => return signed
  | some header =>
    match signed with
    | [(_, value)] => return [(header, value)]
    | _ => .error (.exception "ValueError" (some "wrong number of values to unpack (expected 1)"))

/-- Serialize a payload and build the signed request headers. -/
def request (payload : Value) : Outcome Request := do
  dumpsDefaultStr payload
  let headers := ("Content-Type", "application/json") :: config.headers
  match given config.secret with
  | none => return ⟨payload, headers⟩
  | some secret => do
    let signed ← config.signed secret payload
    return ⟨payload, headers ++ signed⟩

/-- `_build_request`, where `transformed` is what the transform function makes of the envelope. -/
def buildRequest (e : Envelope) (transformed : Outcome Value) : Outcome Request := do
  let payload ← if config.transforms then transformed else .ok e.toDict
  config.request payload

/-- Whether a status warrants another attempt. -/
def shouldRetry (status : ℤ) : Bool :=
  decide (500 ≤ status) || (if config.retryStatuses = [] then [429] else config.retryStatuses).contains status

/-- The notice of a failed delivery. -/
def notice (e : Envelope) (outcome : DeliveryOutcome) : Notice where
  subscriber := config.name
  url := config.url
  topic := e.topic
  eventId := e.eventId
  attempts := outcome.attempts
  status := outcome.status
  error := outcome.error

end WebhookDeliveryConfig

/-! ## State -/

/-- How far a worker is with the envelope that it took. -/
inductive Stage where
  | delivering (e : Envelope)
  | announcing (notice : Notice)
  | finished

/-- `stats`. -/
structure Stats where
  delivered : ℕ
  failed : ℕ
  dropped : ℕ
  retries : ℕ
  queued : ℕ
  deriving DecidableEq

/-- What the history records: an envelope came to be buffered, a delivery was counted failed, its notice was
published or the attempt logged, a worker was done with an envelope that it had not counted or a notice that
it had not published, and an `aclose` returned when so many envelopes had come, with the counters of then. -/
inductive Event where
  | buffered
  | failed (notice : Notice)
  | published (notice : Notice)
  | warned (notice : Notice)
  | abandoned
  | unannounced (notice : Notice)
  | closed (buffered : ℕ) (stats : Stats)
  deriving DecidableEq

/-- The state of a subscriber. `workers` are its worker tasks, `pending` the tasks that have not begun,
`running` those that actors execute, and `cancelled` those that `aclose` cancelled. `closing` are the actors in
the middle of an `aclose`, `drained` those of them that saw the queue finished. -/
structure State where
  queue : Queue Envelope
  unfinished : ℕ := 0
  workers : List ℕ := []
  tasks : ℕ := 0
  pending : List ℕ := []
  running : History ℕ := []
  cancelled : List ℕ := []
  core : Bool := false
  closed : Bool := false
  closing : List ℕ := []
  drained : List ℕ := []
  delivered : ℕ := 0
  failed : ℕ := 0
  dropped : ℕ := 0
  retries : ℕ := 0
  handling : History Stage := []
  log : History Event := []

/-- The answer to a request: a status, an error of the transport with its text, or another exception. -/
inductive Response where
  | status (code : ℤ)
  | transport (error : String)
  | raised (exc : Exc)
  deriving DecidableEq

/-- What the environment supplies with a command: how its wait ends, and what it returns. -/
structure Input where
  outcome : Outcome Unit := .ok ()
  transformed : Outcome Value := .ok .null
  response : Response := .status 200
  timedOut : Bool := false

/-- What an `aclose` finds. -/
inductive Closing where
  | already
  | idle
  | draining
  deriving DecidableEq

/-- The commands of a subscriber; those of a worker carry its task. -/
inductive Cmd where
  | onEnvelope (e : Envelope)
  | attach
  | start (task : ℕ)
  | get (task : ℕ)
  | build (e : Envelope)
  | post (task : ℕ) (request : Request)
  | sleep (task : ℕ)
  | count (outcome : DeliveryOutcome)
  | publish (task : ℕ)
  | taskDone
  | ended
  | close
  | join
  | gather (tasks : List ℕ)
  | release

/-- The reply of a command. -/
@[reducible] def Cmd.Reply : Cmd → Type
  | onEnvelope _ => Unit
  | attach => Unit
  | start _ => Outcome Unit
  | get _ => Outcome Envelope
  | build _ => Outcome Request
  | post _ _ => Response
  | sleep _ => Outcome Unit
  | count _ => Unit
  | publish _ => Outcome Unit
  | taskDone => Unit
  | ended => Unit
  | close => Closing
  | join => Outcome (List ℕ)
  | gather _ => Outcome Unit
  | release => Outcome Unit

/-- The commands of a subscriber. -/
abbrev calls : Signature := ⟨Cmd, Cmd.Reply⟩

/-- A coroutine. -/
abbrev Coro (α : Type) : Type := Prog calls α

/-- A single command. -/
abbrev Cmd.await (c : Cmd) : Coro c.Reply := Prog.cmd (S := calls) c

namespace State

variable (config : WebhookDeliveryConfig) (p : ℕ) (σ : State)

/-- An event of the task `p` happens. -/
def record (e : Event) : State := { σ with log := (p, e) :: σ.log }

/-- The envelopes that came to be buffered. -/
def buffered : ℕ := History.total (fun | .buffered => 1 | _ => 0) σ.log

/-- `stats`. -/
def stats : Stats where
  delivered := σ.delivered
  failed := σ.failed
  dropped := σ.dropped
  retries := σ.retries
  queued := σ.queue.items.length

/-- `put_nowait`; `none` when the queue is full. -/
def put (e : Envelope) : Option State :=
  (σ.queue.putNowait e).map fun queue => { σ with queue := queue, unfinished := σ.unfinished + 1 }

/-- `task_done`: who waits for the queue to be finished goes on when nothing is left. -/
def finish : State :=
  if σ.unfinished - 1 = 0 then { σ with unfinished := 0, drained := σ.closing ++ σ.drained }
  else { σ with unfinished := σ.unfinished - 1 }

/-- The oldest envelope makes place. -/
def dropOldest : State :=
  match σ.queue.getNowait with
  | some (_, queue) => { σ with queue := queue, dropped := σ.dropped + 1 }.finish
  | none => σ

/-- `_on_envelope`. -/
def onEnvelope (e : Envelope) : State :=
  if σ.closed then σ
  else
    let σ := σ.record p .buffered
    match σ.put e with
    | some σ => σ
    | none =>
      let σ := σ.dropOldest
      match σ.put e with
      | some σ => σ
      | none => { σ with dropped := σ.dropped + 1 }

/-- `attach`, with the tasks of the workers when there are none. -/
def attach : State :=
  let σ := { σ with core := true, closed := false }
  if σ.workers = [] then
    let tasks := List.range' σ.tasks config.concurrency
    { σ with workers := tasks, pending := σ.pending ++ tasks, tasks := σ.tasks + config.concurrency }
  else σ

/-- A worker task begins. -/
def start (task : ℕ) : State :=
  { σ with pending := σ.pending.erase task, running := (p, task) :: σ.running }

/-- The end of a `get`. -/
def get (r : Outcome Unit) : Outcome Envelope × State :=
  match r with
  | .error exc => (.error exc, σ)
  | .ok () =>
    match σ.queue.getNowait with
    | none => (.error (.exception "QueueEmpty" (some "")), σ)
    | some (e, queue) => (.ok e, { σ with queue := queue, handling := (p, .delivering e) :: σ.handling })

/-- The task `p` comes to another stage. -/
def turn (stage : Stage) : State := { σ with handling := (p, stage) :: σ.handling.pop p }

/-- The counters after a delivery. -/
def count (outcome : DeliveryOutcome) : State :=
  match σ.handling.lookup p with
  | some (.delivering e) =>
    let σ := { σ with retries := σ.retries + (outcome.attempts - 1) }
    if outcome.delivered then { σ with delivered := σ.delivered + 1 }.turn p .finished
    else
      let notice := config.notice e outcome
      ({ σ with failed := σ.failed + 1 }.record p (.failed notice)).turn p
        (if config.emitFailureMeta then .announcing notice else .finished)
  | _ => σ

/-- The end of `_emit_failure`: a failure of `publish` is logged. -/
def publish (r : Outcome Unit) : Outcome Unit × State :=
  match σ.handling.lookup p with
  | some (.announcing notice) =>
    if σ.core then
      match r with
      | .ok () => (.ok (), (σ.record p (.published notice)).turn p .finished)
      | .error exc =>
        if exc.isException then (.ok (), (σ.record p (.warned notice)).turn p .finished) else (.error exc, σ)
    else (.ok (), (σ.record p (.unannounced notice)).turn p .finished)
  | _ => (r, σ)

/-- A worker is done with its envelope. -/
def taskDone : State :=
  match σ.handling.lookup p with
  | none => σ
  | some stage =>
    let σ := { σ with handling := σ.handling.pop p }.finish
    match stage with
    | .delivering _ => σ.record p .abandoned
    | .announcing notice => σ.record p (.unannounced notice)
    | .finished => σ

/-- The beginning of `aclose`. -/
def close : Closing × State :=
  if σ.closed then (.already, σ.record p (.closed σ.buffered σ.stats))
  else
    let σ := { σ with closed := true, closing := p :: σ.closing }
    if σ.workers = [] then (.idle, σ)
    else (.draining, if σ.unfinished = 0 then { σ with drained := p :: σ.drained } else σ)

/-- The task `p` leaves `aclose`. -/
def leave : State :=
  { σ with closing := σ.closing.filter (· ≠ p), drained := σ.drained.filter (· ≠ p) }

/-- The end of the wait of `aclose` for its queue: the workers are cancelled. -/
def join (r : Outcome Unit) : Outcome (List ℕ) × State :=
  match r with
  | .ok () => (.ok σ.workers, { σ with cancelled := σ.workers ++ σ.cancelled })
  | .error exc => (.error exc, σ.leave p)

/-- The end of the wait of `aclose` for its workers. -/
def gather (r : Outcome Unit) : Outcome Unit × State :=
  match r with
  | .ok () => (.ok (), { σ with workers := [] })
  | .error exc => (.error exc, σ.leave p)

/-- The end of `aclose`, when the session is closed. -/
def release (r : Outcome Unit) : Outcome Unit × State :=
  match r with
  | .ok () => (.ok (), (σ.leave p).record p (.closed σ.buffered σ.stats))
  | .error exc => (.error exc, σ.leave p)

/-- Execution of a command by the task `p`. -/
def exec (c : Cmd) (i : Input) : c.Reply × State :=
  match c with
  | .onEnvelope e => ((), σ.onEnvelope p e)
  | .attach => ((), σ.attach config)
  | .start task => (i.outcome, σ.start p task)
  | .get _ => σ.get p i.outcome
  | .build e => (config.buildRequest e i.transformed, σ)
  | .post _ _ => (i.response, σ)
  | .sleep _ => (i.outcome, σ)
  | .count outcome => ((), σ.count config p outcome)
  | .publish _ => σ.publish p i.outcome
  | .taskDone => ((), σ.taskDone p)
  | .ended => ((), { σ with running := σ.running.pop p })
  | .close => σ.close p
  | .join => σ.join p i.outcome
  | .gather _ => σ.gather p i.outcome
  | .release => σ.release p i.outcome

/-- A wait of a worker ends in a cancellation when its task is cancelled, and not otherwise. -/
def Interrupted (task : ℕ) (r : Outcome Unit) : Prop := r = .error .cancelled ↔ task ∈ σ.cancelled

instance (task : ℕ) (r : Outcome Unit) : Decidable (σ.Interrupted task r) := inferInstanceAs (Decidable (_ ↔ _))

/-- The wait raises nothing but a cancellation. -/
def Cancels (r : Outcome Unit) : Prop := r = .ok () ∨ r = .error .cancelled

instance (r : Outcome Unit) : Decidable (Cancels r) := inferInstanceAs (Decidable (_ ∨ _))

/-- The wait in front of a command is over. -/
def Ready (c : Cmd) (i : Input) : Prop :=
  match c with
  | .start task => task ∈ σ.pending ∧ Cancels i.outcome ∧ σ.Interrupted task i.outcome
  | .get task => (i.outcome = .ok () → σ.queue.items ≠ []) ∧ Cancels i.outcome ∧ σ.Interrupted task i.outcome
  | .post task _ => i.response = .raised .cancelled ↔ task ∈ σ.cancelled
  | .sleep task => Cancels i.outcome ∧ σ.Interrupted task i.outcome
  | .publish task => σ.Interrupted task i.outcome
  | .join => i.outcome = .ok () → i.timedOut = false → p ∈ σ.drained
  | .gather tasks => i.outcome = .ok () → ∀ task ∈ tasks, task ∉ σ.pending ∧ ∀ x ∈ σ.running, x.2 ≠ task
  | _ => True

instance (c : Cmd) (i : Input) : Decidable (σ.Ready p c i) := by
  unfold Ready
  cases c <;> infer_instance

end State

/-- A subscriber as a machine. -/
abbrev machine (config : WebhookDeliveryConfig) : Machine calls where
  State := State
  Input := Input
  exec p c i σ := σ.exec config p c i

/-! ## Deliveries -/

/-- The backoff before `rest`, when there are attempts left. -/
def backoff (task left : ℕ) (rest : Coro (Outcome DeliveryOutcome)) : Coro (Outcome DeliveryOutcome) := do
  if left = 0 then rest
  else
    match ← (Cmd.sleep task).await with
    | .error exc => return .error exc
    | .ok () => rest

/-- The attempts of `HttpDelivery.post` that are left, from the one with this number. -/
def attempts (config : WebhookDeliveryConfig) (task : ℕ) (request : Request) :
    ℕ → ℕ → Option ℤ → Option String → Coro (Outcome DeliveryOutcome)
  | 0, _, status, error =>
    .pure (.ok ⟨false, config.maxAttempts, status, some (error.getD "exhausted")⟩)
  | n + 1, attempt, status, error => do
    match ← (Cmd.post task request).await with
    | .status code =>
      if 200 ≤ code ∧ code < 300 then return .ok ⟨true, attempt, some code, none⟩
      else if config.shouldRetry code then
        backoff task n (attempts config task request n (attempt + 1) (some code) error)
      else return .ok ⟨false, attempt, some code, some "permanent"⟩
    | .transport text => backoff task n (attempts config task request n (attempt + 1) status (some text))
    | .raised exc => return .error exc

/-- `HttpDelivery.post`. -/
def post (config : WebhookDeliveryConfig) (task : ℕ) (request : Request) : Coro (Outcome DeliveryOutcome) :=
  attempts config task request config.maxAttempts 1 none none

/-- `_deliver`. -/
def deliver (config : WebhookDeliveryConfig) (task : ℕ) (e : Envelope) : Coro (Outcome Unit) := do
  match ← (Cmd.build e).await with
  | .error exc => return .error exc
  | .ok request =>
    match ← post config task request with
    | .error exc => return .error exc
    | .ok outcome =>
      (Cmd.count outcome).await
      if outcome.delivered then return .ok ()
      else if config.emitFailureMeta then (Cmd.publish task).await
      else return .ok ()

/-- The loop of `_run_worker` for so many turns. -/
def runWorker (config : WebhookDeliveryConfig) (task : ℕ) : ℕ → Coro (Outcome Unit)
  | 0 => .hang
  | n + 1 => do
    match ← (Cmd.get task).await with
    | .error exc => return .error exc
    | .ok e =>
      let r ← deliver config task e
      Cmd.taskDone.await
      match r with
      | .ok () => runWorker config task n
      | .error exc => if exc.isException then runWorker config task n else return .error exc

/-- A worker task. -/
def worker (config : WebhookDeliveryConfig) (task turns : ℕ) : Coro (Outcome Unit) := do
  match ← (Cmd.start task).await with
  | .error exc =>
    Cmd.ended.await
    return .error exc
  | .ok () =>
    let r ← runWorker config task turns
    Cmd.ended.await
    return r

/-- `aclose`. -/
def aclose : Coro (Outcome Unit) := do
  match ← Cmd.close.await with
  | .already => return .ok ()
  | .idle => Cmd.release.await
  | .draining =>
    match ← Cmd.join.await with
    | .error exc => return .error exc
    | .ok tasks =>
      match ← (Cmd.gather tasks).await with
      | .error exc => return .error exc
      | .ok () => Cmd.release.await

/-! ## Calls -/

/-- What a task does with a subscriber. -/
inductive Call where
  | attach
  | onEnvelope (e : Envelope)
  | worker (task turns : ℕ)
  | aclose

/-- A task is there, or it was destroyed in the middle of a call. -/
inductive Phase where
  | there
  | gone
  deriving DecidableEq

/-- A command that cannot fail, as a call. -/
def plainly (x : Coro Unit) : Coro (Outcome Unit) := do
  x
  return .ok ()

/-- The program of a call. -/
def Call.code (config : WebhookDeliveryConfig) : Call → Coro (Outcome Unit)
  | attach => plainly Cmd.attach.await
  | onEnvelope e => plainly (Cmd.onEnvelope e).await
  | worker task turns => Outgoing.worker config task turns
  | aclose => Outgoing.aclose

/-- The tasks of a subscriber. -/
abbrev subscriber (config : WebhookDeliveryConfig) : Service (machine config) where
  Call := Call
  Result := Outcome Unit
  Phase := Phase
  idle := .gone
  code := Call.code config
  phase _ _ := .there
  accepts φ _ := decide (φ = .there)
  note _ _ _ σ := σ
  Disturbance := Empty
  disturb d _ := d.elim

/-- A new subscriber. -/
def WebhookDeliveryConfig.new (config : WebhookDeliveryConfig) : Pool (subscriber config) where
  shared := { queue := { maxsize := config.queueSize } }
  actors _ := .resting .there

/-- The commands wait for what they have to. -/
def Awaits (config : WebhookDeliveryConfig) (p : ℕ) (_o : Call) (c : Cmd) (i : Input)
    (σ : (machine config).State) : Prop :=
  State.Ready p σ c i

instance (config : WebhookDeliveryConfig) (p : ℕ) (o : Call) (c : Cmd) (i : Input) (σ : State) :
    Decidable (Awaits config p o c i σ) :=
  inferInstanceAs (Decidable (σ.Ready p c i))

end NavigatorEventbus.Outgoing
