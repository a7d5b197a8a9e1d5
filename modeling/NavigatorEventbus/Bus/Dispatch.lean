import NavigatorEventbus.Bus.Machine

/-!
# Publishing, dispatching and the tasks of a bus

The tasks of a bus as programs: `publish`, the fan-out to the transport and the relay of the outbox, the
dispatch of an envelope with its retries, the dead-letter callback (`dlq.py`), the loop of a worker, the
transport callback, `start` and `close`.
-/

namespace NavigatorEventbus.Bus

open Interleave

open State (Enqueued Confirmed Taken)

/-- A coroutine. -/
abbrev Coro (α : Type) : Type := Prog tasks α

/-- A single command. -/
abbrev Cmd.await (c : Cmd) : Coro c.Reply := Prog.cmd (S := tasks) c

def busClosedError : Exc := .exception "BusClosedError" (some "BusCore is closing — publish() rejected")

def outboxFullError : Exc := .exception "OutboxFullError" (some "outbox full")

def backpressureError (e : Envelope) : Exc :=
  .exception "BackpressureError"
    (some s!"Queue for priority {priorityName e.priority} is full (policy=reject, topic={String.ofList e.topic})")

/-- The exception of an exception whose `str` raises. -/
def strError : Exc := .exception "Exception" none

/-- The exception of `2 ** n` as a factor of a float. -/
def overflowError : Exc := .exception "OverflowError" (some "int too large to convert to float")

namespace BusCore

variable (core : BusCore)

/-- What a publish does when its envelope has come to its queue. -/
def finishPublish (call : ℕ) (e : Envelope) : Enqueued → Coro (Outcome Unit)
  | .done => .pure (.ok ())
  | .rejected => .pure (.error (backpressureError e))
  | .blocked => (Cmd.slot call e).await

/-- `publish`. -/
def publish (e : Envelope) (inMeta : Bool) : Coro (Outcome Unit) := do
  match ← (Cmd.publish e inMeta).await with
  | .closed => return .error busClosedError
  | .enqueued call r => finishPublish call e r
  | .appending ticket call =>
    match ← (Cmd.appended ticket call e inMeta).await with
    | .cancelled => return .error .cancelled
    | .outboxFull => return .error outboxFullError
    | .enqueued r => finishPublish call e r

/-! ## Fan-outs and the relay -/

/-- `_backend_publish`, with whether the backend confirmed. -/
def backendPublish (e : Envelope) (timed : Bool) : Coro (Outcome Bool) := do
  match ← (Cmd.backendPublished e timed).await with
  | .raised exc => return .error exc
  | .done confirmed => return .ok confirmed
  | .settling ticket confirmed =>
    match ← (Cmd.settled ticket e confirmed timed).await with
    | .error exc => return .error exc
    | .ok () => return .ok confirmed

/-- The task of a fan-out. -/
def fanOutTask : Coro (Outcome Unit) := do
  match ← Cmd.bootPublish.await with
  | none => return .ok ()
  | some e =>
    match ← backendPublish e false with
    | .error exc => return .error exc
    | .ok _ => return .ok ()

/-- The rows of a pass of the relay; it ends with the first that the backend does not confirm. -/
def relayEach (timed : Bool) : List Envelope → Coro (Outcome Unit)
  | [] => .pure (.ok ())
  | e :: es => do
    if ← (Cmd.relayPick e).await then
      match ← backendPublish e timed with
      | .error exc => return .error exc
      | .ok true => relayEach timed es
      | .ok false => return .ok ()
    else relayEach timed es

/-- `except Exception` around a call whose failure is only logged. -/
def isolate : Outcome Unit → Outcome Unit
  | .error exc => if exc.isException then .ok () else .error exc
  | .ok () => .ok ()

/-- A pass of the relay, without the refresh of the counters at its end. -/
def relayPass (timed : Bool) : Coro (Outcome Unit) := do
  match ← Cmd.relayDue.await with
  | none => return .ok ()
  | some ticket =>
    match ← (Cmd.relayRows ticket timed).await with
    | .cancelled => return .error .cancelled
    | .failed => return .ok ()
    | .rows es =>
      let r ← relayEach timed es
      return isolate r

/-- The end of a pass. -/
def relayRefresh (timed : Bool) : Coro (Outcome Unit) := do
  match ← Cmd.relayStats.await with
  | none => return .ok ()
  | some ticket => (Cmd.relayRefreshed ticket timed).await

/-- `_relay_once`. -/
def relayOnce (timed : Bool) : Coro (Outcome Unit) := do
  let r ← relayPass timed
  match ← relayRefresh timed with
  | .error exc => return .error exc
  | .ok () => return r

/-! ## Dead letters -/

/-- The envelope on `bus.dlq`. -/
def dlqEnvelope (eventId : String) (now : Instant) (e : Envelope) (failure : Failure) : Envelope :=
  .make eventId "bus.dlq".toList
    (.obj [("envelope", e.wire.toDict), ("failure", .obj [("attempts", .int failure.attempts),
      ("error_type", .str failure.errorType), ("error_message", .str failure.errorMessage),
      ("failed_subscriber", .str failure.failedSubscriber),
      ("original_topic", .str (String.ofList failure.originalTopic))])])
    (.str "bus-dlq") .warning .high e.wire.correlationId now

/-- `DLQHandler.on_dlq`. -/
def onDlqHandler (dsn : Bool) (e : Envelope) (sub : Subscription) (error : Exc) (inMeta : Bool) :
    Coro (Outcome Unit) :=
  match error.text with
  | none => .pure (.error strError)
  | some message => do
    let failure : Failure :=
      { attempts := core.retryAttempts, errorType := error.typeName, errorMessage := message,
        failedSubscriber := sub.subscriberId, originalTopic := e.topic }
    let eventId ← Cmd.uuid.await
    let now ← Cmd.instant.await
    match ← publish (dlqEnvelope eventId now e failure) inMeta with
    | .error .cancelled => return .error .cancelled
    | .error .exit => return .error .exit
    | _ =>
      if dsn then (Cmd.persist e failure).await
      return .ok ()

/-- The dead-letter callback. -/
def callback (cb : DlqCallback) (e : Envelope) (sub : Subscription) (error : Exc) (inMeta : Bool) :
    Coro (Outcome Unit) :=
  match cb with
  | .custom => Cmd.callback.await
  | .dlqHandler dsn => core.onDlqHandler dsn e sub error inMeta

/-- `_invoke_dlq`. -/
def invokeDlq (e : Envelope) (sub : Subscription) (error : Exc) (inMeta : Bool) : Coro (Outcome Unit) :=
  match core.onDlq with
  | none => .pure (.ok ())
  | some cb =>
    if e.isMeta then .pure (.ok ())
    else do
      (Cmd.deadLetter e sub core.retryAttempts error).await
      let r ← core.callback cb e sub error inMeta
      return isolate r

/-- `_emit_subscriber_error`. -/
def emitSubscriberError (e : Envelope) (sub : Subscription) (error : Exc) (inMeta : Bool) :
    Coro (Outcome Unit) :=
  if inMeta then .pure (.ok ())
  else
    match error.text with
    | none => .pure (.error strError)
    | some message => do
      let _ ← (Cmd.publishMeta topicSubscriberError (.obj
        [("original_topic", .str (String.ofList e.topic)), ("original_event_id", .str e.eventId),
          ("subscriber_id", .str sub.subscriberId), ("pattern", .str (String.ofList sub.pattern)),
          ("error_type", .str error.typeName), ("error_message", .str message),
          ("attempts", .int core.retryAttempts)])).await
      return .ok ()

/-! ## Dispatch -/

/-- What follows when the attempts are exhausted. -/
def exhausted (sub : Subscription) (e : Envelope) (inMeta : Bool) (error : Exc) : Coro (Outcome Unit) := do
  match ← core.emitSubscriberError e sub error inMeta with
  | .error exc => return .error exc
  | .ok () => core.invokeDlq e sub error inMeta

/-- `asyncio.sleep` of the base delay times `2 ** (attempt - 1)`. -/
def retryDelay (attempt : ℕ) : Coro (Outcome Unit) :=
  if 1024 < attempt then .pure (.error overflowError) else Cmd.sleep.await

/-- The attempts from `attempt` on, `left + 1` of them. -/
def attempts (sub : Subscription) (e : Envelope) (inMeta : Bool) (attempt : ℕ) :
    (left : ℕ) → Coro (Outcome Unit)
  | 0 => do
    let run ← (Cmd.handler sub e attempt).await
    match run.outcome with
    | .ok () => return .ok ()
    | .error exc => if exc.isException then core.exhausted sub e inMeta exc else return .error exc
  | left + 1 => do
    let run ← (Cmd.handler sub e attempt).await
    match run.outcome with
    | .ok () => return .ok ()
    | .error exc =>
      if exc.isException then
        match ← retryDelay attempt with
        | .error exc => return .error exc
        | .ok () => attempts sub e inMeta (attempt + 1) left
      else return .error exc

/-- `_invoke_with_retry`. -/
def invokeWithRetry (sub : Subscription) (e : Envelope) (inMeta : Bool) : Coro (Outcome Unit) :=
  core.attempts sub e inMeta 1 (core.retryAttempts - 1)

/-- The severity floor of a subscription is met. -/
def severityMet (sub : Subscription) (e : Envelope) : Bool :=
  match sub.minSeverity with
  | none => true
  | some floor => decide (floor.value ≤ e.severity.value)

/-- `filter_fn` of a subscription lets the envelope through. -/
def passes (sub : Subscription) (e : Envelope) : Coro (Outcome Bool) :=
  if sub.filtered then do
    match ← (Cmd.filter sub e).await with
    | .ok b => return .ok b
    | .error exc => return if exc.isException then .ok false else .error exc
  else .pure (.ok true)

/-- The dispatch to one subscription. -/
def serve (sub : Subscription) (e : Envelope) (inMeta : Bool) : Coro (Outcome Unit) :=
  if severityMet sub e then do
    match ← passes sub e with
    | .error exc => return .error exc
    | .ok false => return .ok ()
    | .ok true => core.invokeWithRetry sub e inMeta
  else .pure (.ok ())

/-- The dispatch to subscriptions, one after the other. -/
def serveAll (e : Envelope) (inMeta : Bool) : List Subscription → Coro (Outcome Unit)
  | [] => .pure (.ok ())
  | sub :: subs => do
    match ← core.serve sub e inMeta with
    | .error exc => return .error exc
    | .ok () => serveAll e inMeta subs

/-- `_dispatch` of a task whose `_in_meta_dispatch` is `ambient`. -/
def dispatch (e : Envelope) (ambient : Bool) : Coro (Outcome Unit) := do
  let subs ← (Cmd.matching e.topic).await
  core.serveAll e (e.isMeta || ambient) subs

/-! ## Tasks -/

/-- How a turn of the loop of a worker or of the relay ends. -/
inductive Turn where
  | again
  | stopped
  | raised (exc : Exc)
  deriving DecidableEq

/-- The rest of a turn of the loop of `_worker`, with what it found. -/
def afterTake : Taken → Coro Turn
  | .nothing true => return .stopped
  | .nothing false => return .again
  | .envelope e ambient => do
    let r ← core.dispatch e ambient
    Cmd.endDispatch.await
    match r with
    | .ok () => return .again
    | .error exc => return .raised exc

/-- The rest of a turn of the loop of `_worker`, after its `acquire`. -/
def turn : Outcome Unit → Coro Turn
  | .error exc => return .raised exc
  | .ok () => do
    let t ← Cmd.take.await
    core.afterTake t

/-- A turn of the loop of `_worker`. -/
def worker : Coro Turn := do
  if ← Cmd.acquire.await then core.turn (.ok ())
  else do
    let r ← Cmd.acquired.await
    core.turn r

/-- How a turn of the loop of `_relay_loop` ends. -/
def Turn.ofOutcome : Outcome Unit → Turn
  | .ok () => .again
  | .error exc => .raised exc

/-- The first pass of `_relay_loop`. -/
def relayFirst : Coro Turn := do
  Cmd.bootRelay.await
  let r ← relayOnce false
  return Turn.ofOutcome r

/-- A turn of `_relay_loop`. -/
def relayTurn : Coro Turn := do
  if ← Cmd.relayGoesOn.await then
    match ← Cmd.sleep.await with
    | .error exc => return .raised exc
    | .ok () =>
      let r ← relayOnce false
      return Turn.ofOutcome r
  else return .stopped

/-- `_on_transport_envelope`. -/
def onTransportEnvelope (e : Envelope) : Coro (Outcome Unit) := do
  match ← (Cmd.arrive e).await with
  | .echo | .closing => return .ok ()
  | .dispatch ambient =>
    let r ← core.dispatch e ambient
    Cmd.endDispatch.await
    return r

/-- `start`. -/
def start (inMeta : Bool) : Coro (Outcome Unit) := do
  if ← (Cmd.start inMeta).await then
    let r ← if core.backend && !core.publishOnly then Cmd.consumerStarted.await else .pure (.ok ())
    match r with
    | .error exc => return .error exc
    | .ok () =>
      if core.outbox then Cmd.spawnRelay.await
      return .ok ()
  else return .ok ()

/-- The last pass of the relay, with its deadline. -/
def lastPass : Coro (Outcome Unit) := do
  match ← relayOnce true with
  | .error .cancelled => if ← Cmd.timedOut.await then return .ok () else return .error .cancelled
  | r => return isolate r

/-- `_stop_relay`. -/
def stopRelay : Coro (Outcome Unit) :=
  if core.outbox then do
    Cmd.stopRelay.await
    Cmd.relayEnded.await
    match ← Cmd.publishesEnded.await with
    | .error exc => return .error exc
    | .ok () =>
      match ← lastPass with
      | .error exc => return .error exc
      | .ok () =>
        match ← Cmd.closeOutbox.await with
        | none => return .ok ()
        | some ticket => (Cmd.outboxClosed ticket).await
  else .pure (.ok ())

/-- The wait of `close` for the workers. -/
def awaitRunner : Coro (Outcome Unit) := do
  match ← Cmd.runnerDone.await with
  | .ended => return .ok ()
  | .timeout =>
    Cmd.runnerEnded.await
    return .ok ()
  | .cancelled =>
    Cmd.runnerEnded.await
    return .error .cancelled

/-- The part of `close` after the workers. -/
def closeRest (r : Outcome Unit) : Coro (Outcome Unit) := do
  match ← core.stopRelay with
  | .error exc => return .error exc
  | .ok () =>
    let s ← if core.backend then Cmd.backendClosed.await else .pure (.ok ())
    match isolate s with
    | .error exc => return .error exc
    | .ok () =>
      Cmd.closed.await
      return r

/-- `close`. -/
def close (drainTimeout : Json) : Coro (Outcome Unit) := do
  if ← Cmd.beginClose.await then
    match ← (Cmd.drained drainTimeout).await with
    | .error exc => return .error exc
    | .ok () =>
      let r ← awaitRunner
      core.closeRest r
  else return .ok ()

end BusCore

/-! ## The tasks side by side -/

/-- The calls of the tasks of a bus. A worker task runs `boot` once, then turns of its loop; the task of the
relay its first pass, then turns. -/
inductive Call where
  | publish (e : Envelope) (inMeta : Bool)
  | fanOut
  | transport (e : Envelope)
  | start (inMeta : Bool)
  | close (drainTimeout : Json)
  | boot
  | turn
  | relayFirst
  | relayTurn

/-- What a call gives back. -/
inductive Result where
  | outcome (r : Outcome Unit)
  | turn (t : BusCore.Turn)

/-- What a task that rests may call: workers and the relay go on with their loops. -/
inductive Phase where
  | free
  | worker
  | relay
  deriving DecidableEq

/-- What happens to a bus besides its tasks: subscriptions come and go, the application cancels a task of
its own or a fan-out, a blocked put is resumed when its place is taken again, and the thread of the outbox
executes a call whose task was cancelled. -/
inductive Disturbance where
  | subscribe (sub : Subscription)
  | unsubscribe (subscriberId : String)
  | cancel (p : ℕ)
  | cancelSpawned (n : ℕ)
  | resume (p : ℕ)
  | thread (i : Input)

namespace State

variable (core : BusCore) (σ : State)

/-- `sub` joins a list that is sorted by priority. -/
def insertSubscription (subs : List Subscription) (sub : Subscription) : List Subscription :=
  (subs ++ [sub]).mergeSort fun a b => decide (b.priority ≤ a.priority)

/-- `subscribe`. -/
def subscribe (sub : Subscription) : State :=
  if '*' ∈ sub.pattern ∨ '?' ∈ sub.pattern then
    { σ with patternSubscriptions := insertSubscription σ.patternSubscriptions sub }
  else if ∃ entry ∈ σ.subscriptions, entry.1 = sub.pattern then
    { σ with
      subscriptions := σ.subscriptions.map fun entry =>
        if entry.1 = sub.pattern then (entry.1, insertSubscription entry.2 sub) else entry }
  else { σ with subscriptions := σ.subscriptions ++ [(sub.pattern, [sub])] }

/-- The first subscription with this id goes. -/
def dropSubscription (subscriberId : String) (subs : List Subscription) : List Subscription :=
  subs.eraseP fun sub => sub.subscriberId = subscriberId

/-- `unsubscribe`. -/
def unsubscribe (subscriberId : String) : State :=
  match σ.subscriptions.findIdx? fun entry => entry.2.any fun sub => sub.subscriberId = subscriberId with
  | some n =>
    { σ with
      subscriptions := σ.subscriptions.modify n fun entry =>
        (entry.1, dropSubscription subscriberId entry.2) }
  | none => { σ with patternSubscriptions := dropSubscription subscriberId σ.patternSubscriptions }

/-- A disturbance happens. A fan-out that is cancelled before it has run never runs. -/
def disturb : Disturbance → State
  | .subscribe sub => σ.subscribe sub
  | .unsubscribe subscriberId => σ.unsubscribe subscriberId
  | .cancel p => if p ∈ σ.live then σ else { σ with cancelling := Function.update σ.cancelling p true }
  | .cancelSpawned n => { σ with spawnedPublishes := σ.spawnedPublishes.eraseIdx n }
  | .resume p => { σ with queues := fun priority => (σ.queues priority).rewait p }
  | .thread i => σ.thread core i

/-- The task of the relay ends. -/
def endRelay (p : ℕ) : State := if σ.relayTask = some p then { σ with relayTask := none } else σ

/-- A task returns. The end of a worker leaves the others alone when it stopped or was cancelled; after
any other exception the task group cancels them. -/
def note (p : ℕ) (o : Call) (r : Result) : State :=
  let σ := σ.resumed p
  match o, r with
  | _, .outcome _ | _, .turn .again => σ
  | .relayFirst, .turn _ | .relayTurn, .turn _ => σ.endRelay p
  | _, .turn .stopped | _, .turn (.raised .cancelled) => { σ with live := σ.live.filter (· ≠ p) }
  | _, .turn (.raised _) => { σ with live := σ.live.filter (· ≠ p) }.cancelWorkers

end State

/-- The calls that a task may make in its phase. -/
def Phase.accepts : Phase → Call → Bool
  | worker, .turn => true
  | worker, _ => false
  | relay, .relayTurn => true
  | relay, _ => false
  | free, .turn => false
  | free, .relayTurn => false
  | free, _ => true

/-- The phase that a call leaves its task in. -/
def Call.phase : Call → Result → Phase
  | boot, _ => .worker
  | turn, .turn .again => .worker
  | relayFirst, .turn .again => .relay
  | relayTurn, .turn .again => .relay
  | _, _ => .free

/-- The program of a call. -/
def Call.code (core : BusCore) : Call → Coro Result
  | publish e inMeta => do return .outcome (← BusCore.publish e inMeta)
  | fanOut => do return .outcome (← BusCore.fanOutTask)
  | transport e => do return .outcome (← core.onTransportEnvelope e)
  | start inMeta => do return .outcome (← core.start inMeta)
  | close drainTimeout => do return .outcome (← core.close drainTimeout)
  | boot => do
    Cmd.boot.await
    return .outcome (.ok ())
  | turn => do return .turn (← core.worker)
  | relayFirst => do return .turn (← BusCore.relayFirst)
  | relayTurn => do return .turn (← BusCore.relayTurn)

/-- The tasks of a bus. -/
abbrev bus (core : BusCore) : Service (machine core) where
  Call := Call
  Result := Result
  Phase := Phase
  idle := .free
  code := Call.code core
  phase := Call.phase
  accepts := Phase.accepts
  note p o r σ := σ.note p o r
  Disturbance := Disturbance
  disturb d σ := σ.disturb core d

/-- A new bus over a store, with no task. -/
def BusCore.new (core : BusCore) (store : SqliteOutbox) : Pool (bus core) where
  shared := State.init core store
  actors _ := .resting .free

/-- The commands wait for what they have to. -/
def Awaits (p : ℕ) (_o : Call) (c : Cmd) (i : Input) (σ : State) : Prop := σ.Ready p c i

instance (p : ℕ) (o : Call) (c : Cmd) (i : Input) (σ : State) : Decidable (Awaits p o c i σ) :=
  inferInstanceAs (Decidable (σ.Ready p c i))

end NavigatorEventbus.Bus
