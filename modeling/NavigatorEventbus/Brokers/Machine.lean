import NavigatorEventbus.Brokers.Core
import NavigatorEventbus.Lib.Program

/-!
# The RabbitMQ connection

`RabbitMQConnection` as programs (`brokers/rabbitmq/connection.py`): connecting with its backoff, publishing,
and the handler around the callback of a consumer.  The commands are what a connection, a producer or a bridge
reads and changes of its own state, what it asks of the broker and of Redis, and the calls of code of the
application; how these end is an input.  The monitor task reconnects at its own times, which is a move of
another task here.  The history records what authorisation and deduplication decided and what was published;
the numbers of deliveries are only for the history.
-/

namespace NavigatorEventbus.Brokers

open Interleave

open Bus (Exc Outcome)

/-- How a callback ends: it returns, raises `RejectDelivery`, or raises something else. -/
inductive Ended where
  | returned
  | rejected
  | raised (exc : Exc)
  deriving DecidableEq

/-- A request to the endpoint of a producer. -/
structure Request where
  headers : List (Text × Text) := []
  body : Bytes := []
  deriving DecidableEq

/-- An event in the queue of a producer. `rest` are the further arguments of `queue_event`. -/
structure Queued where
  body : Body
  queueName : Json
  routingKey : Json
  rest : List (String × Json)

/-- A log line of a worker about an attempt to publish. -/
inductive WorkerLine where
  | published
  | retrying (delay : ℕ)
  | failed
  deriving DecidableEq

/-- The settings of a connection, a producer and a bridge. -/
structure Broker where
  codec : Codec
  maxReconnectAttempts : ℕ := 3
  reconnectDelay : ℕ := 1
  authCallable : Bool := true
  /-- An instance of `ValueError` or `RuntimeError`. -/
  unauthorized : Exc → Bool := fun exc => decide (exc.typeName = "ValueError" ∨ exc.typeName = "RuntimeError")
  acceptedSchemaVersions : List ℤ := [1]
  maxBatchSize : ℤ := 200
  enforceEmployeeId : Bool := true
  employeeEventsExchange : Text := "employee.events".toList

/-- What the environment supplies with a command. `expired` are the keys that Redis has dropped. -/
structure Input where
  closed : Bool := false
  connect : Outcome Unit := .ok ()
  channel : Outcome Unit := .ok ()
  wait : Outcome Unit := .ok ()
  publish : Outcome Unit := .ok ()
  settle : Outcome Unit := .ok ()
  callback : Ended := .returned
  session : Outcome Json := .ok .null
  redis : Outcome Unit := .ok ()
  stored : Bool := false
  expired : List Text := []

/-- A wait that ends, or is cancelled. -/
def Input.interrupt (i : Input) : Outcome Unit :=
  match i.wait with
  | .error exc => if exc.isException then .ok () else .error exc
  | .ok () => .ok ()

theorem Input.isException_of_interrupt {i : Input} {exc : Exc} (h : i.interrupt = .error exc) :
    exc.isException = false := by
  unfold Input.interrupt at h
  split at h
  · split_ifs at h with exception
    cases h
    simpa using exception
  · cases h

/-- What the history records. -/
inductive Event where
  | decided (request : Request) (answer : Outcome Json) (authorized : Bool)
  | received (delivery : ℕ) (message : Message) (body : Decoded)
  | marked (delivery : ℕ) (key : Text)
  | unguarded (delivery : ℕ) (key : Text)
  | duplicate (delivery : ℕ) (key : Text)
  | published (delivery : ℕ) (payload : Payload)
  | ended (delivery : ℕ) (returned : Bool)

/-- The state of a connection, with that of the producer or the bridge that it belongs to. A channel is known
by its number. -/
structure State where
  connected : Bool := false
  channel : Option ℕ := none
  channels : ℕ := 0
  reconnectAttempts : ℕ := 0
  userid : Json := .null
  eventQueue : Asyncio.Queue Queued := { maxsize := 1000 }
  unfinished : ℕ := 0
  redis : Bool := false
  keys : List Text := []
  deliveries : ℕ := 0
  log : History Event := []

/-- The commands of a connection, a producer and a bridge. -/
inductive Cmd where
  | closed
  | dial
  | attempt
  | sleep (seconds : ℕ)
  | declare (exchange : Json) (type : String)
  | publish (delivery : Option ℕ) (payload : Payload)
  | channel
  | ack (channel tag : ℕ)
  | nack (channel tag : ℕ) (requeue : Bool)
  | reject (tag : ℕ) (requeue : Bool)
  | republish (channel : ℕ) (exchange routingKey : Text) (body : Bytes) (properties : Properties)
  | callback (message : Message) (body : Decoded)
  | authenticate (request : Request)
  | authorize (request : Request) (session : Json)
  | json (request : Request)
  | enqueue (event : Queued)
  | get
  | taskDone
  | report (line : WorkerLine)
  | receive (message : Message) (body : Decoded)
  | dedup (delivery : ℕ) (key : Text)

/-- The reply of a command. -/
@[reducible] def Cmd.Reply : Cmd → Type
  | closed => Bool
  | dial => Outcome Unit
  | attempt => Option ℕ
  | sleep _ => Outcome Unit
  | declare _ _ => Outcome Unit
  | publish _ _ => Outcome Unit
  | channel => Option ℕ
  | ack _ _ => Outcome Unit
  | nack _ _ _ => Outcome Unit
  | reject _ _ => Outcome Unit
  | republish _ _ _ _ _ => Outcome Unit
  | callback _ _ => Ended
  | authenticate _ => Outcome Json
  | authorize _ _ => Outcome Unit
  | json _ => Outcome Json
  | enqueue _ => Bool
  | get => Outcome (Option Queued)
  | taskDone => Unit
  | report _ => Unit
  | receive _ _ => ℕ
  | dedup _ _ => Outcome Bool

/-- The commands of a connection. -/
abbrev calls : Signature := ⟨Cmd, Cmd.Reply⟩

/-- A coroutine. -/
abbrev Coro (α : Type) : Type := Prog calls α

/-- A single command. -/
abbrev Cmd.await (c : Cmd) : Coro c.Reply := Prog.cmd (S := calls) c

/-- `RuntimeError` with a text. -/
def runtimeError (text : String) : Exc := .exception "RuntimeError" (some text)

/-! ## Commands -/

namespace State

variable (broker : Broker) (σ : State)

/-- An event enters the history. -/
def record (p : ℕ) (event : Event) : State := { σ with log := (p, event) :: σ.log }

/-- `connect` under its lock. -/
def dial (i : Input) : Outcome Unit × State :=
  match i.connect with
  | .error exc => (.error exc, σ)
  | .ok () =>
    let σ := { σ with connected := true, reconnectAttempts := 0 }
    match i.channel with
    | .error exc => (.error exc, σ)
    | .ok () => (.ok (), { σ with channel := some σ.channels, channels := σ.channels + 1 })

/-- The decision of `service_auth` on the answer of the auth callable. -/
def authorize (p : ℕ) (request : Request) (session : Json) : Outcome Unit × State :=
  let decide (σ : State) : Outcome Unit × State :=
    if truthy σ.userid then (.ok (), σ.record p (.decided request (.ok session) true))
    else
      (.error (.exception "HTTPUnauthorized" (some "User ID not found in session")),
        σ.record p (.decided request (.ok session) false))
  if truthy session then
    match session with
    | .obj members =>
      match members.lookup "user_id" with
      | some userid => decide { σ with userid := userid }
      | none => (.error (runtimeError "User ID is not found in the session."),
          σ.record p (.decided request (.ok session) false))
    | _ => (.error (.exception "TypeError" (some "session is not subscriptable by name")),
        σ.record p (.decided request (.ok session) false))
  else decide σ

/-- `_dedup_set`. -/
def dedup (p delivery : ℕ) (key : Text) (i : Input) : Outcome Bool × State :=
  if σ.redis then
    let σ := { σ with keys := σ.keys.filter fun k => k ∉ i.expired }
    match i.redis with
    | .error exc =>
      if exc.isException then
        let σ := if i.stored ∧ key ∉ σ.keys then { σ with keys := key :: σ.keys }.record p (.marked delivery key) else σ
        (.ok true, σ.record p (.unguarded delivery key))
      else (.error exc, σ)
    | .ok () =>
      if key ∈ σ.keys then (.ok false, σ.record p (.duplicate delivery key))
      else (.ok true, { σ with keys := key :: σ.keys }.record p (.marked delivery key))
  else (.ok true, σ.record p (.unguarded delivery key))

/-- Execution of a command by the task `p`. -/
def exec (p : ℕ) (c : Cmd) (i : Input) : c.Reply × State :=
  match c with
  | .closed => (¬ σ.connected ∨ i.closed, σ)
  | .dial => σ.dial i
  | .attempt =>
    if σ.reconnectAttempts < broker.maxReconnectAttempts then
      (some (broker.reconnectDelay * 2 ^ σ.reconnectAttempts),
        { σ with reconnectAttempts := σ.reconnectAttempts + 1 })
    else (none, σ)
  | .sleep _ => (i.interrupt, σ)
  | .declare _ _ =>
    (match σ.channel with
      | some _ => i.interrupt
      | none => .ok (), σ)
  | .publish delivery payload =>
    match σ.channel, i.publish with
    | none, _ => (.error (runtimeError "RabbitMQ channel is not open"), σ)
    | some _, .error exc => (.error exc, σ)
    | some _, .ok () =>
      (.ok (), match delivery with
        | some delivery => σ.record p (.published delivery payload)
        | none => σ)
  | .channel => (σ.channel, σ)
  | .ack _ _ => (i.settle, σ)
  | .nack _ _ _ => (i.settle, σ)
  | .reject _ _ =>
    (match σ.channel with
      | none => .error (runtimeError "RabbitMQ channel is not open")
      | some _ => i.settle, σ)
  | .republish _ _ _ _ _ => (i.publish, σ)
  | .callback _ _ => (i.callback, σ)
  | .authenticate request =>
    (i.session, match i.session with
      | .error _ => σ.record p (.decided request i.session false)
      | .ok _ => σ)
  | .authorize request session => σ.authorize p request session
  | .json request =>
    (match i.wait, (Utf8.decode request.body).bind Json.parse with
      | .error exc, _ => .error exc
      | .ok (), some data => .ok data
      | .ok (), none => .error (.exception "JSONDecodeError" (some "Expecting value")), σ)
  | .enqueue event =>
    match σ.eventQueue.putNowait event with
    | none => (false, σ)
    | some queue => (true, { σ with eventQueue := queue, unfinished := σ.unfinished + 1 })
  | .get =>
    match i.interrupt, σ.eventQueue.getNowait with
    | .error exc, _ => (.error exc, σ)
    | .ok (), none => (.ok none, σ)
    | .ok (), some (event, queue) => (.ok (some event), { σ with eventQueue := queue })
  | .taskDone => ((), { σ with unfinished := σ.unfinished - 1 })
  | .report _ => ((), σ)
  | .receive message body =>
    (σ.deliveries, { σ with deliveries := σ.deliveries + 1 }.record p (.received σ.deliveries message body))
  | .dedup delivery key => σ.dedup p delivery key i

end State

/-- A connection as a machine. -/
abbrev machine (broker : Broker) : Machine calls where
  State := State
  Input := Input
  exec p c i σ := σ.exec broker p c i

/-! ## Connecting and publishing -/

/-- `connect` and `schedule_reconnect`, for as many attempts as the bound says. -/
def connect : ℕ → Coro (Outcome Unit)
  | 0 => .hang
  | fuel + 1 => do
    match ← Cmd.dial.await with
    | .ok () => return .ok ()
    | .error exc =>
      if exc.isException then
        match ← Cmd.attempt.await with
        | none => return .error (runtimeError "Unable to connect to RabbitMQ Server.")
        | some delay =>
          match ← (Cmd.sleep delay).await with
          | .error exc => return .error exc
          | .ok () => connect fuel
      else return .error exc

/-- `ensure_connection`. -/
def ensureConnection (fuel : ℕ) : Coro (Outcome Unit) := do
  if ← Cmd.closed.await then connect fuel else return .ok ()

/-- The commands that connecting consists of. -/
def Cmd.Connects : Cmd → Prop
  | closed | dial | attempt | sleep _ => True
  | _ => False

theorem all_connect (fuel : ℕ) : (connect fuel).All Cmd.Connects := by
  induction fuel with
  | zero => trivial
  | succ fuel ih =>
    refine .cmd_bind trivial fun dialled => ?_
    cases dialled with
    | ok => trivial
    | error exc =>
      dsimp only
      split_ifs
      · refine .cmd_bind trivial fun delay => ?_
        cases delay with
        | none => trivial
        | some delay =>
          refine .cmd_bind trivial fun waited => ?_
          cases waited with
          | error => trivial
          | ok => exact ih
      · trivial

theorem all_ensureConnection (fuel : ℕ) : (ensureConnection fuel).All Cmd.Connects := by
  refine .cmd_bind trivial fun closed => ?_
  split_ifs
  · exact all_connect fuel
  · trivial

/-- `create_exchange` and `ensure_exchange`. -/
def ensureExchange (exchange : Json) (type : String := "topic") : Coro (Outcome Unit) :=
  (Cmd.declare exchange type).await

/-- The end of `publish_message`. -/
def basicPublish (delivery : Option ℕ) (payload : Payload) : Coro (Outcome Unit) := do
  match ← (Cmd.publish delivery payload).await with
  | .ok () => return .ok ()
  | .error exc => return if exc.isException then .ok () else .error exc

/-- `publish_message`. -/
def publishMessage (codec : Codec) (fuel : ℕ) (delivery : Option ℕ) (publication : Publication) :
    Coro (Outcome Unit) :=
  match publication.queueName, publication.routingKey with
  | .null, _ | _, .null =>
    .pure (.error (.exception "ValueError"
      (some "publish_message() requires queue_name (exchange) and routing_key")))
  | _, _ => do
    match ← ensureConnection fuel with
    | .error exc => return .error exc
    | .ok () =>
      match ← ensureExchange publication.queueName with
      | .error exc => return .error exc
      | .ok () =>
        match publication.payload codec with
        | .error exc => return .error exc
        | .ok payload => basicPublish delivery payload

/-! ## Consuming -/

/-- The `try` block of the handler: decode, call back, acknowledge. -/
def attend (codec : Codec) (callback : Message → Decoded → Coro Ended) (channel tag : ℕ) (message : Message) :
    Coro Ended :=
  match message.process codec with
  | .error exc => .pure (.raised exc)
  | .ok body => do
    match ← callback message body with
    | .returned =>
      match ← (Cmd.ack channel tag).await with
      | .ok () => return .returned
      | .error exc => return .raised exc
    | .rejected => return .rejected
    | .raised exc => return .raised exc

/-- The handler of an ordinary exception: reject the message and republish it, or discard it. -/
def retry (codec : Codec) (maxRetries : ℤ) (channel tag : ℕ) (message : Message) : Coro (Outcome Unit) :=
  match message.retryCount codec with
  | .error exc => .pure (.error exc)
  | .ok n => do
    if n + 1 ≤ maxRetries then
      match ← (Cmd.nack channel tag false).await with
      | .error exc => return .error exc
      | .ok () =>
        (Cmd.republish channel (message.exchange.getD []) (message.routingKey.getD []) message.body
          (message.retryProperties (n + 1))).await
    else (Cmd.nack channel tag false).await

/-- `wrapped_callback`. -/
def wrapCallback (codec : Codec) (callback : Message → Decoded → Coro Ended) (maxRetries : ℤ)
    (message : Message) : Coro (Outcome Unit) :=
  match message.deliveryTag with
  | none => .pure (.error (runtimeError "Delivered message carries no delivery_tag"))
  | some tag => do
    match ← Cmd.channel.await with
    | none => return .error (runtimeError "RabbitMQ channel is not open")
    | some channel =>
      match ← attend codec callback channel tag message with
      | .returned => return .ok ()
      | .rejected => (Cmd.reject tag false).await
      | .raised exc => if exc.isException then retry codec maxRetries channel tag message else return .error exc

/-- A callback of the application. -/
def application (message : Message) (body : Decoded) : Coro Ended := (Cmd.callback message body).await

end NavigatorEventbus.Brokers
