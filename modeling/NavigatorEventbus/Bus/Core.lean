import NavigatorEventbus.Events.Outbox
import NavigatorEventbus.Lib.Asyncio
import NavigatorEventbus.Lib.Fnmatch
import NavigatorEventbus.Lib.History

/-!
# The dispatcher core

The settings and the state of a `BusCore`, and the pieces of its methods that change the state without an
`await` in between (`core.py`).  Beside what the source keeps, the state numbers the calls of `publish`, so
that each envelope in a queue is known by its call, and has a history of what happened.

The outbox runs its calls on a thread of its own, one after the other, and the tasks that wait for them
resume in the same order.  Only these calls touch the store, so here a call is executed when its task
resumes; the call of a task that was cancelled is left to the thread, or taken back.
-/

namespace NavigatorEventbus.Bus

open Interleave

/-- A Python exception. The text is its `str`; `none` when that raises. -/
inductive Exc where
  | exception (type : String) (text : Option String)
  | cancelled
  | exit
  deriving DecidableEq

/-- An instance of `Exception`: what `except Exception` catches. -/
def Exc.isException : Exc → Bool
  | exception _ _ => true
  | _ => false

/-- `type(exc).__name__`. -/
def Exc.typeName : Exc → String
  | exception type _ => type
  | cancelled => "CancelledError"
  | exit => "SystemExit"

/-- `str(exc)`. -/
def Exc.text : Exc → Option String
  | exception _ text => text
  | _ => some ""

/-- How a call ends. -/
abbrev Outcome (α : Type) := Except Exc α

/-! ## Envelopes and settings -/

/-- A time that is aware of its offset. -/
abbrev Instant := { t : IsoTime.DateTime // t.Aware }

/-- The beginning of 1970. -/
def epoch : Instant :=
  ⟨⟨1970, 1, 1, 0, 0, 0, 0, some 0, by decide, IsoTime.midnight_ok, IsoTime.utc_ok⟩, by decide⟩

/-- An envelope whose id and topic are texts, as its annotations say. -/
structure Envelope where
  wire : EventEnvelope
  eventId : String
  topic : List Char
  eventId_eq : wire.eventId = .str eventId
  topic_eq : wire.topic = .str (String.ofList topic)

namespace Envelope

variable (e : Envelope)

def severity : Severity := e.wire.severity

def priority : EventPriority := e.wire.priority

/-- `topic.startswith("bus.")`. -/
def isMeta : Bool := "bus.".toList.isPrefixOf e.topic

/-- `EventEnvelope(...)` at the time `now`. -/
def make (eventId : String) (topic : List Char) (payload source : Json) (severity : Severity)
    (priority : EventPriority) (correlationId : Json) (now : Instant) : Envelope where
  wire :=
    { topic := .str (String.ofList topic), payload, eventId := .str eventId, timestamp := now.1, source,
      severity, priority, correlationId, traceContext := .null, metadata := .obj [],
      schemaVersion := .int envelopeSchemaVersion, aware := now.2 }
  eventId := eventId
  topic := topic
  eventId_eq := rfl
  topic_eq := rfl

/-- A decoded envelope, when its id and topic are texts. -/
def ofWire (w : EventEnvelope) : Option Envelope :=
  match hid : w.eventId, ht : w.topic with
  | .str eventId, .str topic =>
    some ⟨w, eventId, topic.toList, hid, by rw [ht, String.ofList_toList]⟩
  | _, _ => none

end Envelope

/-- `_BusSubscription`. The handler is what the environment answers for it. -/
structure Subscription where
  subscriberId : String
  pattern : List Char
  priority : ℤ := 0
  filtered : Bool := false
  minSeverity : Option Severity := none
  asyncHandler : Bool := true
  deriving DecidableEq

/-- The backpressure policies. -/
inductive Policy where
  | block
  | dropOldest
  | reject
  deriving DecidableEq

def Policy.name : Policy → String
  | block => "block"
  | dropOldest => "drop_oldest"
  | reject => "reject"

def priorityName : EventPriority → String
  | .low => "LOW"
  | .normal => "NORMAL"
  | .high => "HIGH"
  | .critical => "CRITICAL"

/-- The dead-letter callback: one of the application, or `DLQHandler.on_dlq` with or without a DSN. -/
inductive DlqCallback where
  | custom
  | dlqHandler (dsn : Bool)
  deriving DecidableEq

/-- The settings of a `BusCore`, with what Python makes of foreign numbers and times. -/
structure BusCore where
  workers : ℕ
  queueSize : ℕ
  retryAttempts : ℕ
  backpressure : List (List Char × Policy)
  defaultBackpressure : Policy
  onDlq : Option DlqCallback
  backend : Bool
  outbox : Bool
  relayInterval : ℤ
  relayBatch : ℕ
  relayMaxBackoff : ℤ
  publishOnly : Bool
  py : Readings
  workers_pos : 0 < workers
  retryAttempts_pos : 0 < retryAttempts
  relayBatch_pos : 0 < relayBatch
  outbox_backend : outbox = true → backend = true

namespace BusCore

/-- `BusCore.__init__`. -/
def init (workers queueSize retryAttempts : ℕ) (backpressure : List (List Char × Policy))
    (defaultBackpressure : Policy) (onDlq : Option DlqCallback) (backend outbox : Bool)
    (relayInterval : ℤ) (relayBatch : ℕ) (relayMaxBackoff : ℤ) (publishOnly : Bool) (py : Readings) :
    BusCore where
  workers := max 1 workers
  queueSize := queueSize
  retryAttempts := max 1 retryAttempts
  backpressure := backpressure
  defaultBackpressure := defaultBackpressure
  onDlq := onDlq
  backend := backend
  outbox := outbox && backend
  relayInterval := relayInterval
  relayBatch := max 1 relayBatch
  relayMaxBackoff := relayMaxBackoff
  publishOnly := publishOnly
  py := py
  workers_pos := by omega
  retryAttempts_pos := by omega
  relayBatch_pos := by omega
  outbox_backend := by simp

/-- `_policy_for`: the exact topic, its class, the default. -/
def policyFor (core : BusCore) (topic : List Char) : Policy :=
  match core.backpressure.lookup topic with
  | some policy => policy
  | none => (core.backpressure.lookup (topic.takeWhile (· ≠ '.'))).getD core.defaultBackpressure

/-- `_backoff`. From the 1025th attempt on the power is too large for a float. -/
def backoff (core : BusCore) (attempts : ℕ) : Option ℤ :=
  if 1024 < attempts then none
  else some (min core.relayMaxBackoff (core.relayInterval * 2 ^ (attempts - 1)))

end BusCore

/-- `_FANOUT_ECHO_CAP`. -/
def fanoutEchoCap : ℕ := 2048

def topicSubscriberError : String := "bus.subscriber_error"

def topicBackpressure : String := "bus.backpressure"

def topicShutdownIncomplete : String := "bus.shutdown_incomplete"

/-- What the dead-letter callback is told about a failure. -/
structure Failure where
  attempts : ℕ
  errorType : String
  errorMessage : String
  failedSubscriber : String
  originalTopic : List Char

/-! ## State -/

/-- `stats`. -/
structure Stats where
  outboxPending : ℤ := 0
  outboxAcked : ℕ := 0
  outboxRetried : ℕ := 0
  outboxRejected : ℕ := 0
  outboxAppendFailed : ℕ := 0
  backendFailures : ℕ := 0

/-- An envelope in a queue, with the number of the `publish` that put it there. -/
structure Item where
  call : Option ℕ
  envelope : Envelope

/-- A call of the outbox. -/
inductive Job where
  | append (e : Envelope)
  | ack (eventId : String)
  | nack (eventId error : String) (nextTryAt : ℤ)
  | due (now : ℤ) (limit : ℕ)
  | stats
  | close

/-- A call that waits for the thread of the outbox. The task of an abandoned one waits no more. -/
structure Ticket where
  number : ℕ
  job : Job
  abandoned : Bool := false

/-- What a call of the outbox returns. -/
inductive JobResult where
  | done
  | full
  | failed
  | rows (es : List Envelope)
  | pending (n : ℤ)

/-- What the history records. -/
inductive Event where
  | appending (ticket : ℕ) (eventId : String)
  | stored (ticket : ℕ) (eventId : String)
  | purged (eventId : String)
  | published (eventId : String)
  | fannedOut (eventId : String)
  | arrived (eventId : String) (dispatched : Bool)
  | put (call : ℕ)
  | taken (call : ℕ)
  | replaced (call : ℕ)
  | counted (calls : List ℕ)
  | closed
  deriving DecidableEq

/-- The state of a bus. `spawned` counts the worker tasks that have not run yet, `live` lists those that
have, until they end; `spawnedPublishes` and `publishing` do so for the fan-outs. `ambient` is the value of
`_in_meta_dispatch` where `start` was called. -/
structure State where
  queues : EventPriority → Asyncio.Queue Item
  store : SqliteOutbox
  items : Asyncio.Semaphore := {}
  subscriptions : List (List Char × List Subscription) := []
  patternSubscriptions : List Subscription := []
  started : Bool := false
  closing : Bool := false
  stopping : Bool := false
  inFlight : ℕ := 0
  droppedOnClose : ℕ := 0
  fannedOut : List String := []
  outboxInflight : List String := []
  outboxAttempts : String → ℕ := fun _ => 0
  stats : Stats := {}
  jobs : List Ticket := []
  tickets : ℕ := 0
  executorDown : Bool := false
  spawnedPublishes : List Envelope := []
  publishing : List (ℕ × Envelope) := []
  relaySpawned : Bool := false
  relayTask : Option ℕ := none
  persists : List (Envelope × Failure) := []
  ambient : Bool := false
  spawned : ℕ := 0
  live : List ℕ := []
  cancelling : ℕ → Bool := fun _ => false
  calls : ℕ := 0
  log : History Event := []

/-- A new bus over a store. -/
def State.init (core : BusCore) (store : SqliteOutbox) : State where
  queues _ := { maxsize := core.queueSize }
  store := store

/-- How an attempt of a handler ends: whether its deadline passed before, and with what. -/
structure HandlerRun where
  expired : Bool := false
  result : Outcome Unit := .ok ()

/-- `asyncio.timeout` around the handler. -/
def HandlerRun.outcome (run : HandlerRun) : Outcome Unit :=
  match run.result with
  | .error .cancelled => if run.expired then .error (.exception "TimeoutError" (some "")) else .error .cancelled
  | result => result

/-- Where the database fails during a call: nowhere, at its first statement, or after one that deletes. -/
inductive Fault where
  | none
  | early
  | late
  deriving DecidableEq

/-- What the environment supplies with a command: a fresh id, the time, how a call of foreign code ends,
whether a deadline has passed, and whether the thread has begun with a call that is cancelled. -/
structure Input where
  uuid : String := ""
  instant : Instant := epoch
  now : ℤ := 0
  handler : HandlerRun := {}
  filter : Outcome Bool := .ok true
  callback : Outcome Unit := .ok ()
  backend : Outcome Unit := .ok ()
  fault : Fault := .none
  deadline : Bool := false
  running : Bool := false

/-! ## The outbox -/

/-- A call of the outbox, executed on its store. -/
def runJob (core : BusCore) (i : Input) (store : SqliteOutbox) : Job → JobResult × SqliteOutbox
  | .append e =>
    match i.fault, store.append e.wire i.now with
    | .early, _ => (.failed, store)
    | _, (.error .outboxFullError, store) => (.full, store)
    | .none, (.ok (), store) => (.done, store)
    | _, _ => (.failed, store.makeRoom.2)
  | .ack eventId => if i.fault = .none then (.done, store.ack eventId) else (.failed, store)
  | .nack eventId error nextTryAt =>
    if i.fault = .none then (.done, store.nack eventId error nextTryAt) else (.failed, store)
  | .due now limit =>
    match i.fault with
    | .early => (.failed, store)
    | .late => (.failed, store.purge now)
    | .none =>
      let r := store.due core.py i.uuid now limit
      (.rows (r.1.filterMap Envelope.ofWire), r.2)
  | .stats => if i.fault = .none then (.pending store.pending, store) else (.failed, store)
  | .close => (.done, store)

/-- The event ids of the rows. -/
def rowIds (store : SqliteOutbox) : List String := store.rows.map OutboxRow.eventId

/-- What the history records of a call: rows that other calls than `ack` deleted, and the event that an
append stored. -/
def jobEvents (p number : ℕ) (before after : SqliteOutbox) : Job → JobResult → History Event
  | .append e, r =>
    (match r with
      | .done => [(p, .stored number e.eventId)]
      | _ => []) ++
      ((rowIds before).filter (· ∉ rowIds after)).map fun id => (p, .purged id)
  | .due _ _, _ => ((rowIds before).filter (· ∉ rowIds after)).map fun id => (p, .purged id)
  | _, _ => []

namespace State

variable (core : BusCore) (σ : State)

/-- A call is handed to the thread of the outbox; its number, unless the thread is shut down. -/
def submit (job : Job) : Option ℕ × State :=
  if σ.executorDown then (none, σ)
  else
    (some σ.tickets,
      { σ with tickets := σ.tickets + 1, jobs := σ.jobs ++ [{ number := σ.tickets, job }] })

/-- The call with a number is executed. -/
def perform (p : ℕ) (i : Input) (number : ℕ) : JobResult × State :=
  match σ.jobs.find? fun t => t.number = number with
  | none => (.failed, σ)
  | some t =>
    let r := runJob core i σ.store t.job
    (r.1, { σ with
      store := r.2
      jobs := σ.jobs.filter fun t => t.number ≠ number
      log := jobEvents p number σ.store r.2 t.job r.1 ++ σ.log })

/-- The task of the call with a number waits no more. The thread goes on with it when it has begun. -/
def abandonJob (running : Bool) (number : ℕ) : State :=
  { σ with
    jobs :=
      if running then
        σ.jobs.map fun t => if t.number = number then { t with abandoned := true } else t
      else σ.jobs.filter fun t => t.number ≠ number }

/-- The thread executes an abandoned call. -/
def thread (i : Input) : State :=
  match σ.jobs with
  | t :: _ => if t.abandoned then (σ.perform core 0 i t.number).2 else σ
  | [] => σ

/-- The next call of the thread is the one with this number. -/
def Turn (number : ℕ) : Prop := σ.jobs.head?.map Ticket.number = some number

instance (number : ℕ) : Decidable (σ.Turn number) := inferInstanceAs (Decidable (_ = _))

end State

/-! ## Queues -/

namespace State

variable (core : BusCore) (σ : State)

/-- The queue of a priority becomes `q`. -/
def setQueue (priority : EventPriority) (q : Asyncio.Queue Item) : State :=
  { σ with queues := Function.update σ.queues priority q }

@[simp] theorem setQueue_self (priority : EventPriority) (q : Asyncio.Queue Item) :
    (σ.setQueue priority q).queues priority = q := Function.update_self ..

theorem setQueue_of_ne {priority other : EventPriority} (h : other ≠ priority)
    (q : Asyncio.Queue Item) : (σ.setQueue priority q).queues other = σ.queues other :=
  Function.update_of_ne h ..

def release : State := { σ with items := σ.items.release }

/-- An event enters the history. -/
def record (p : ℕ) (event : Event) : State := { σ with log := (p, event) :: σ.log }

/-- `_publish_meta`, with whether the queue had space. -/
def publishMeta (topic : String) (payload : Json) (i : Input) : Bool × State :=
  let e := Envelope.make i.uuid topic.toList payload (.str "bus-core") .info .high .null i.instant
  match (σ.queues .high).putNowait ⟨none, e⟩ with
  | some q => (true, (σ.setQueue .high q).release)
  | none => (false, σ)

/-- `_emit_backpressure_meta`. -/
def emitBackpressureMeta (e : Envelope) (policy : Policy) (inMeta : Bool) (i : Input) : State :=
  if inMeta then σ
  else
    (σ.publishMeta topicBackpressure
      (.obj [("topic", .str (String.ofList e.topic)), ("event_id", .str e.eventId),
        ("priority", .str (priorityName e.priority)), ("policy", .str policy.name),
        ("queue_size", .int core.queueSize)]) i).2

/-- The envelope of a call enters its queue, which becomes `q`. -/
def enter (p call : ℕ) (e : Envelope) (q : Asyncio.Queue Item) : State :=
  ((σ.setQueue e.priority (q.push ⟨some call, e⟩)).release).record p (.put call)

/-- What the history records of an item that is replaced. -/
def replace (p : ℕ) (item : Item) : State :=
  match item.call with
  | some call => σ.record p (.replaced call)
  | none => σ

/-- What became of an envelope at its queue. -/
inductive Enqueued where
  | done
  | rejected
  | blocked
  deriving DecidableEq

/-- `_enqueue_local` of the task `p`, until the envelope is in its queue or the task waits. -/
def enqueueLocal (p call : ℕ) (e : Envelope) (inMeta : Bool) (i : Input) : Enqueued × State :=
  if (σ.queues e.priority).Full then
    let policy := core.policyFor e.topic
    let σ := σ.emitBackpressureMeta core e policy inMeta i
    match policy with
    | .reject => (.rejected, σ)
    | .dropOldest =>
      match (σ.queues e.priority).getNowait with
      | some (dropped, q) => (.done, (σ.replace p dropped).enter p call e q)
      | none => (.done, σ.enter p call e (σ.queues e.priority))
    | .block => (.blocked, σ.setQueue e.priority ((σ.queues e.priority).wait p))
  else (.done, σ.enter p call e (σ.queues e.priority))

/-! ## Publishing -/

/-- `_remember_fanout`. -/
def rememberFanout (p : ℕ) (eventId : String) : State :=
  let ids := if eventId ∈ σ.fannedOut then σ.fannedOut else σ.fannedOut ++ [eventId]
  { σ with
    fannedOut := ids.drop (ids.length - fanoutEchoCap)
    log := (p, .fannedOut eventId) :: σ.log }

/-- The fan-out to the transport: the id is remembered, and a task publishes the envelope. -/
def fanOut (p : ℕ) (e : Envelope) : State :=
  { σ.rememberFanout p e.eventId with spawnedPublishes := σ.spawnedPublishes ++ [e] }

@[simp] theorem queues_fanOut (p : ℕ) (e : Envelope) : (σ.fanOut p e).queues = σ.queues := by
  rw [fanOut, rememberFanout]

/-- How far a publish came before its first `await`; with the number of the call. -/
inductive Publishing where
  | closed
  | appending (ticket call : ℕ)
  | enqueued (call : ℕ) (r : Enqueued)
  deriving DecidableEq

/-- How far a publish came after `outbox.append`. -/
inductive Appended where
  | cancelled
  | outboxFull
  | enqueued (r : Enqueued)
  deriving DecidableEq

/-- The rest of a publish after an append that failed: it goes on without the outbox. -/
def publishDegraded (p call : ℕ) (e : Envelope) (inMeta : Bool) (i : Input) : Enqueued × State :=
  let σ := { σ with stats := { σ.stats with outboxAppendFailed := σ.stats.outboxAppendFailed + 1 } }
  (σ.fanOut p e).enqueueLocal core p call e inMeta i

/-- `publish`, until its first `await`. -/
def publish (p : ℕ) (e : Envelope) (inMeta : Bool) (i : Input) : Publishing × State :=
  if σ.closing then (.closed, σ)
  else
    let call := σ.calls
    let σ := { σ with calls := σ.calls + 1 }
    if core.outbox then
      match σ.submit (.append e) with
      | (some ticket, σ) => (.appending ticket call, σ.record p (.appending ticket e.eventId))
      | (none, σ) =>
        let r := σ.publishDegraded core p call e inMeta i
        (.enqueued call r.1, r.2)
    else
      let σ := if core.backend then σ.fanOut p e else σ
      let r := σ.enqueueLocal core p call e inMeta i
      (.enqueued call r.1, r.2)

/-- The wait of a task is over, with the cancellation that it may find. -/
def resumed (p : ℕ) : State := { σ with cancelling := Function.update σ.cancelling p false }

/-- `publish` after `outbox.append`. -/
def appended (p ticket call : ℕ) (e : Envelope) (inMeta : Bool) (i : Input) : Appended × State :=
  if σ.cancelling p then (.cancelled, (σ.resumed p).abandonJob i.running ticket)
  else
    match σ.perform core p i ticket with
    | (.full, σ) =>
      (.outboxFull, { σ with stats := { σ.stats with outboxRejected := σ.stats.outboxRejected + 1 } })
    | (.done, σ) =>
      let σ := { σ with outboxInflight := σ.outboxInflight.insert e.eventId }
      let r := (σ.fanOut p e).enqueueLocal core p call e inMeta i
      (.enqueued r.1, r.2)
    | (_, σ) =>
      let r := σ.publishDegraded core p call e inMeta i
      (.enqueued r.1, r.2)

/-- The end of `queue.put`: the task has its place, or is cancelled. -/
def slot (p call : ℕ) (e : Envelope) : Outcome Unit × State :=
  if σ.cancelling p then
    (.error .cancelled, (σ.resumed p).setQueue e.priority ((σ.queues e.priority).cancelPut p))
  else (.ok (), σ.enter p call e ((σ.queues e.priority).leave p))

/-! ## Fan-outs and the relay -/

/-- How far a fan-out came when `backend.publish` ended. -/
inductive Confirmed where
  | raised (exc : Exc)
  | settling (ticket : ℕ) (confirmed : Bool)
  | done (confirmed : Bool)

/-- The fan-out of task `p` is over; the id is in flight no more. -/
def endPublish (p : ℕ) (eventId : String) : State :=
  { σ with
    outboxInflight := σ.outboxInflight.filter (· ≠ eventId)
    publishing := σ.publishing.filter fun t => t.1 ≠ p }

/-- A spawned fan-out begins. -/
def bootPublish (p : ℕ) : Option Envelope × State :=
  match σ.spawnedPublishes with
  | [] => (none, σ)
  | e :: rest => (some e, { σ with spawnedPublishes := rest, publishing := (p, e) :: σ.publishing })

/-- The outbox keeps track of the event. -/
def Tracked (eventId : String) : Prop := core.outbox = true ∧ eventId ∈ σ.outboxInflight

instance (eventId : String) : Decidable (σ.Tracked core eventId) := inferInstanceAs (Decidable (_ ∧ _))

/-- The outbox is told how `backend.publish` ended, unless its thread is shut down. -/
def settle (p : ℕ) (e : Envelope) (confirmed : Bool) (job : Job) : Confirmed × State :=
  match σ.submit job with
  | (some ticket, σ) => (.settling ticket confirmed, σ)
  | (none, σ) => (.done confirmed, σ.endPublish p e.eventId)

/-- `_backend_publish` from the end of `backend.publish` on, until the outbox has answered. A pass of the
relay with a deadline is cancelled by it. -/
def backendPublished (p : ℕ) (e : Envelope) (timed : Bool) (i : Input) : Confirmed × State :=
  if σ.cancelling p || (timed && i.deadline) then (.raised .cancelled, (σ.resumed p).endPublish p e.eventId)
  else
    match i.backend with
    | .ok () =>
      let σ := σ.record p (.published e.eventId)
      if σ.Tracked core e.eventId then σ.settle p e true (.ack e.eventId)
      else (.done true, σ.endPublish p e.eventId)
    | .error exc =>
      if exc.isException then
        let σ := { σ with stats := { σ.stats with backendFailures := σ.stats.backendFailures + 1 } }
        if σ.Tracked core e.eventId then
          let attempts := σ.outboxAttempts e.eventId + 1
          let σ := { σ with outboxAttempts := Function.update σ.outboxAttempts e.eventId attempts }
          match core.backoff attempts with
          | some delay => σ.settle p e false (.nack e.eventId exc.typeName (i.now + delay))
          | none => (.done false, σ.endPublish p e.eventId)
        else (.done false, σ.endPublish p e.eventId)
      else (.raised exc, σ.endPublish p e.eventId)

/-- The end of `_backend_publish`, when the outbox has answered. -/
def settled (p ticket : ℕ) (e : Envelope) (confirmed timed : Bool) (i : Input) : Outcome Unit × State :=
  if σ.cancelling p || (timed && i.deadline) then
    (.error .cancelled, ((σ.resumed p).abandonJob i.running ticket).endPublish p e.eventId)
  else
    match σ.perform core p i ticket with
    | (.done, σ) =>
      let σ :=
        if confirmed then
          { σ with
            outboxAttempts := Function.update σ.outboxAttempts e.eventId 0
            stats := { σ.stats with outboxAcked := σ.stats.outboxAcked + 1 } }
        else σ
      (.ok (), σ.endPublish p e.eventId)
    | (_, σ) => (.ok (), σ.endPublish p e.eventId)

/-- What the relay gets from `outbox.due`. -/
inductive Due where
  | cancelled
  | failed
  | rows (es : List Envelope)

/-- The relay after `outbox.due`. -/
def relayRows (p ticket : ℕ) (timed : Bool) (i : Input) : Due × State :=
  if σ.cancelling p || (timed && i.deadline) then (.cancelled, (σ.resumed p).abandonJob i.running ticket)
  else
    match σ.perform core p i ticket with
    | (.rows es, σ) => (.rows es, σ)
    | (_, σ) => (.failed, σ)

/-- The relay takes a row, unless its event is in flight. -/
def relayPick (p : ℕ) (e : Envelope) : Bool × State :=
  if e.eventId ∈ σ.outboxInflight then (false, σ)
  else
    let σ := { σ with outboxInflight := σ.outboxInflight.insert e.eventId }
    let σ := σ.rememberFanout p e.eventId
    (true, { σ with stats := { σ.stats with outboxRetried := σ.stats.outboxRetried + 1 } })

/-- The relay after `outbox.stats`. -/
def relayRefreshed (p ticket : ℕ) (timed : Bool) (i : Input) : Outcome Unit × State :=
  if σ.cancelling p || (timed && i.deadline) then
    (.error .cancelled, (σ.resumed p).abandonJob i.running ticket)
  else
    match σ.perform core p i ticket with
    | (.pending n, σ) =>
      (.ok (), { σ with
        stats := { σ.stats with outboxPending := n }
        outboxAttempts := if n = 0 then fun _ => 0 else σ.outboxAttempts })
    | (_, σ) => (.ok (), σ)

/-! ## Workers -/

/-- The end of `acquire` for a worker that had to wait. -/
def acquired (p : ℕ) : Outcome Unit × State :=
  if σ.cancelling p then (.error .cancelled, { σ.resumed p with items := σ.items.cancel p })
  else (.ok (), { σ with items := σ.items.resume p })

/-- `_pop_next`: the highest priority first. -/
def popNext : Option (Item × State) :=
  [EventPriority.critical, .high, .normal, .low].findSome? fun priority =>
    (σ.queues priority).getNowait.map fun (item, q) => (item, σ.setQueue priority q)

/-- What a worker with a permit found. -/
inductive Taken where
  | envelope (e : Envelope) (ambient : Bool)
  | nothing (stopping : Bool)

/-- What the history records of an item that a worker takes. -/
def noteTaken (p : ℕ) (item : Item) : State :=
  match item.call with
  | some call => σ.record p (.taken call)
  | none => σ

/-- What a worker does with its permit. One that finds nothing and is to stop ends here. -/
def take (p : ℕ) : Taken × State :=
  match σ.popNext with
  | some (item, σ) =>
    let σ := σ.noteTaken p item
    (.envelope item.envelope σ.ambient, { σ with inFlight := σ.inFlight + 1 })
  | none => (.nothing σ.stopping, if σ.stopping then { σ with live := σ.live.filter (· ≠ p) } else σ)

/-- `_matching_subscriptions`. -/
def matchingSubscriptions (topic : List Char) : List Subscription :=
  let exact := (σ.subscriptions.lookup topic).getD []
  let patterns := σ.patternSubscriptions.filter fun sub => Fnmatch.fnmatch topic sub.pattern
  (exact ++ patterns).mergeSort fun a b => decide (b.priority ≤ a.priority)

/-- What becomes of an envelope that arrives from the transport. -/
inductive Arrived where
  | echo
  | closing
  | dispatch (ambient : Bool)
  deriving DecidableEq

/-- `_on_transport_envelope`, until the dispatch. -/
def arrive (p : ℕ) (e : Envelope) : Arrived × State :=
  if e.eventId ∈ σ.fannedOut then
    (.echo, { σ with fannedOut := σ.fannedOut.filter (· ≠ e.eventId) }.record p (.arrived e.eventId false))
  else if σ.closing then (.closing, σ.record p (.arrived e.eventId false))
  else
    (.dispatch σ.ambient, { σ with inFlight := σ.inFlight + 1 }.record p (.arrived e.eventId true))

/-! ## Start and close -/

/-- `start`, with whether the bus was started. -/
def start (inMeta : Bool) : Bool × State :=
  if σ.started then (false, σ)
  else
    (true, { σ with
      started := true
      closing := false
      stopping := false
      ambient := inMeta
      spawned := core.workers })

/-- `close`, until its first `await`, with whether it goes on. -/
def beginClose (p : ℕ) : Bool × State :=
  if σ.closing then (false, σ.record p .closed) else (true, { σ with closing := true })

/-- The condition that `_drain` waits for. -/
def Drained : Prop := (∀ priority, (σ.queues priority).items = []) ∧ σ.inFlight = 0

/-- What is in the queues, by priority. -/
def queued : List Item :=
  (σ.queues .critical).items ++ (σ.queues .high).items ++ (σ.queues .normal).items ++ (σ.queues .low).items

instance : Decidable σ.Drained :=
  decidable_of_iff ((∀ priority ∈ EventPriority.all, (σ.queues priority).items.isEmpty = true) ∧
    σ.inFlight = 0) <| by
    simp only [List.isEmpty_iff]
    refine and_congr_left fun _ => ⟨fun h priority => h priority ?_, fun h priority _ => h priority⟩
    cases priority <;> decide

/-- The drain has taken too long: what is left is counted as dropped. -/
def abandon (p : ℕ) (drainTimeout : Json) (i : Input) : State :=
  let σ' := { σ with droppedOnClose := σ.droppedOnClose + σ.queued.length }
  let σ' := σ'.record p (.counted (σ.queued.filterMap Item.call))
  (σ'.publishMeta topicShutdownIncomplete
    (.obj [("pending", .int σ.queued.length), ("drain_timeout", drainTimeout)]) i).2

/-- The workers are told to stop. -/
def stop : State :=
  { σ with stopping := true, items := Nat.iterate Asyncio.Semaphore.release core.workers σ.items }

/-- `close` after the drain or its deadline. -/
def drained (p : ℕ) (drainTimeout : Json) (i : Input) : Outcome Unit × State :=
  if σ.cancelling p then (.error .cancelled, σ.resumed p)
  else if i.deadline then (.ok (), (σ.abandon p drainTimeout i).stop core)
  else (.ok (), σ.stop core)

/-- No worker task is left. -/
def Ended : Prop := σ.spawned = 0 ∧ σ.live = []

instance : Decidable σ.Ended := inferInstanceAs (Decidable (_ ∧ _))

/-- The worker tasks are cancelled; those that have not run yet end at once. -/
def cancelWorkers : State :=
  { σ with
    spawned := 0
    cancelling := fun p => p ∈ σ.live || σ.cancelling p }

/-- How the wait for the workers ends. -/
inductive Waited where
  | ended
  | timeout
  | cancelled
  deriving DecidableEq

/-- `close` after waiting for the workers, which are cancelled when they take too long or the close is
cancelled. -/
def runnerDone (p : ℕ) : Waited × State :=
  if σ.cancelling p then (.cancelled, (σ.resumed p).cancelWorkers)
  else if σ.Ended then (.ended, σ)
  else (.timeout, σ.cancelWorkers)

/-- The relay task is cancelled; one that has not run yet ends at once. -/
def stopRelay : State :=
  { σ with
    relaySpawned := false
    cancelling := fun p => σ.relayTask = some p || σ.cancelling p }

/-- The outbox has closed its connection; its thread takes no more calls. -/
def outboxClosed (p ticket : ℕ) (i : Input) : Outcome Unit × State :=
  if σ.cancelling p then
    (.error .cancelled, { (σ.resumed p).abandonJob i.running ticket with executorDown := true })
  else (.ok (), { (σ.perform core p i ticket).2 with executorDown := true })

end State

end NavigatorEventbus.Bus
