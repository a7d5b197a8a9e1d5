import NavigatorEventbus.Lib.History
import NavigatorEventbus.Lifecycle.Registry

/-!
# The audit subscriber

`AuditSubscriber` (`subscribers/audit.py`): the buffer of rows with its bound, the flushes that persist a batch
of it, the task that flushes while the subscriber runs, and `close`.  A command is a piece of code without an
`await` in between; one with an `await` in front is executed when the wait is over (`Ready`), and may raise
what the environment supplies.  The interval of the flusher is left out: its wait may be over at any time.  Of
the bus only the calls of `_on_envelope` are left, at any time and for any envelope.
-/

namespace NavigatorEventbus.Audit

open Interleave

open Bus (Exc Outcome Instant)

export Bus (Exc Outcome)

open Lifecycle (Value)

/-! ## Envelopes and rows -/

/-- What the subscriber reads of an envelope. -/
structure Envelope where
  eventId : Text
  topic : Text
  payload : Value
  severity : Severity := .info
  priority : EventPriority := .normal
  source : Option Text := none
  correlationId : Option Text := none
  traceContext : Option Value := none
  metadata : Value := .dict []
  timestamp : Instant

/-- The parameters of an insert. A JSON column keeps the value whose text is written to it. -/
structure Row where
  eventId : Text
  topic : Text
  payload : Value
  severity : ℤ
  priority : ℤ
  source : Option Text
  correlationId : Option Text
  traceContext : Option Value
  metadata : Value
  eventTs : Instant

/-- `_row_for`. -/
def rowFor (e : Envelope) : Outcome Row := do
  e.payload.dumps
  match e.traceContext with
  | some context => context.dumps
  | none => pure ()
  e.metadata.dumps
  return {
    eventId := e.eventId
    topic := e.topic
    payload := e.payload
    severity := e.severity.value
    priority := e.priority.value
    source := e.source
    correlationId := e.correlationId
    traceContext := e.traceContext
    metadata := e.metadata
    eventTs := e.timestamp }

/-! ## Settings and state -/

/-- The settings of a subscriber. -/
structure AuditSubscriber where
  dsn : Option String
  includeBusInternal : Bool
  batchSize : ℕ
  queueSize : ℤ
  batchSize_pos : 1 ≤ batchSize

namespace AuditSubscriber

/-- `AuditSubscriber(...)`, where `default` is the DSN of the configuration. -/
def create (dsn default : Option String) (includeBusInternal : Bool := false) (batchSize : ℤ := 100)
    (queueSize : ℤ := 10000) : AuditSubscriber where
  dsn := dsn.or default
  includeBusInternal := includeBusInternal
  batchSize := (max 1 batchSize).toNat
  queueSize := queueSize
  batchSize_pos := by omega

/-- `bool(self._dsn)`. -/
def enabled (audit : AuditSubscriber) : Bool :=
  match audit.dsn with
  | some dsn => decide (dsn ≠ "")
  | none => false

/-- The topic is one that is audited. -/
def Audits (audit : AuditSubscriber) (e : Envelope) : Prop :=
  ¬ ("bus.".toList.isPrefixOf e.topic ∧ ¬ audit.includeBusInternal)

instance (audit : AuditSubscriber) (e : Envelope) : Decidable (audit.Audits e) :=
  inferInstanceAs (Decidable (¬ _))

end AuditSubscriber

/-- A flush that has taken its rows, and whether it is the final drain of a `close`. -/
structure Flush where
  final : Bool
  rows : List Row

/-- What the history records: a row joined the buffer, an envelope failed with the rows that it removed, a
flush was reported failed or left by an exception that it does not catch, and a `close` ended its drain with
the rows that are left. -/
inductive Event where
  | appended
  | unbuffered (removed : ℕ)
  | failed (rows : ℕ)
  | interrupted (rows : ℕ)
  | closed (left : ℕ)
  deriving DecidableEq

/-- The state of a subscriber. `flushing` are the flushes in progress by their tasks, `ended` the tasks of
the flusher that are done, and `table` is the audit table. -/
structure State where
  buffer : List Row := []
  wakeup : Bool := false
  running : Bool := false
  flushTask : Option ℕ := none
  tasks : ℕ := 0
  ended : List (ℕ × Outcome Unit) := []
  tableReady : Bool := false
  ddlLock : Bool := false
  table : List Row := []
  dropped : ℕ := 0
  persisted : ℕ := 0
  flushing : History Flush := []
  log : History Event := []

/-- `stats`. -/
structure Stats where
  persisted : ℕ
  dropped : ℕ
  buffered : ℕ

/-- What the environment supplies with a command: how its wait ends. -/
structure Input where
  outcome : Outcome Unit := .ok ()

/-- What a flush found: nothing to do, with `_running` as its caller reads it next, or its rows. -/
inductive Taken where
  | nothing (running : Bool)
  | rows (rows : List Row)

/-- A statement of the subscriber. -/
inductive Statement where
  | ddl
  | insert (row : Row)

/-- The commands of a subscriber. -/
inductive Cmd where
  | onEnvelope (e : Envelope)
  | attach
  | started
  | waited
  | take (final : Bool)
  | isTableReady
  | lock
  | unlock (r : Outcome Unit)
  | connection
  | execute (s : Statement)
  | leave
  | settle (r : Outcome Unit)
  | ended (task : ℕ) (r : Outcome Unit)
  | stop
  | join (task : ℕ)

/-- The reply of a command. -/
@[reducible] def Cmd.Reply : Cmd → Type
  | onEnvelope _ => Outcome Unit
  | attach => Option ℕ
  | started => Outcome Bool
  | waited => Outcome Unit
  | take _ => Taken
  | isTableReady => Bool
  | lock => Outcome Unit
  | unlock _ => Unit
  | connection => Outcome Unit
  | execute _ => Outcome Unit
  | leave => Outcome Unit
  | settle _ => Outcome Bool
  | ended _ _ => Unit
  | stop => Option ℕ
  | join _ => Outcome Unit

/-- The commands of a subscriber. -/
abbrev calls : Signature := ⟨Cmd, Cmd.Reply⟩

/-- A coroutine. -/
abbrev Coro (α : Type) : Type := Prog calls α

/-- A single command. -/
abbrev Cmd.await (c : Cmd) : Coro c.Reply := Prog.cmd (S := calls) c

namespace State

variable (audit : AuditSubscriber) (p : ℕ) (σ : State)

/-- An event of the task `p` happens. -/
def record (e : Event) : State := { σ with log := (p, e) :: σ.log }

/-- `stats`. -/
def stats : Stats := { persisted := σ.persisted, dropped := σ.dropped, buffered := σ.buffer.length }

/-- `len(self._buffer) >= self._queue_size`. -/
def Full : Prop := audit.queueSize ≤ σ.buffer.length

instance : Decidable (σ.Full audit) := inferInstanceAs (Decidable (_ ≤ _))

/-- `_flush_wakeup` is set when a batch is buffered. -/
def wakeIfBatch : State := if audit.batchSize ≤ σ.buffer.length then { σ with wakeup := true } else σ

/-- A row is appended to the buffer. -/
def append (row : Row) : State := { σ with buffer := σ.buffer ++ [row] }.record p .appended

/-- The end of `_on_envelope`, after it removed so many rows. -/
def buffer_ (e : Envelope) (removed : ℕ) : Outcome Unit × State :=
  match rowFor e with
  | .ok row => (.ok (), (σ.append p row).wakeIfBatch audit)
  | .error exc => (if exc.isException then .ok () else .error exc, σ.record p (.unbuffered removed))

/-- `_on_envelope`. With an empty buffer there is no oldest row, and `popleft` raises. -/
def onEnvelope (e : Envelope) : Outcome Unit × State :=
  if audit.Audits e then
    if σ.Full audit then
      match σ.buffer with
      | [] => (.ok (), σ.record p (.unbuffered 0))
      | _ :: rest => { σ with buffer := rest, dropped := σ.dropped + 1 }.buffer_ audit p e 1
    else σ.buffer_ audit p e 0
  else (.ok (), σ)

/-- `attach`, with the task that it creates. -/
def attach : Option ℕ × State :=
  if audit.enabled then
    match σ.flushTask with
    | some _ => (none, { σ with running := true })
    | none => (some σ.tasks, { σ with running := true, flushTask := some σ.tasks, tasks := σ.tasks + 1 })
  else (none, σ)

/-- The end of the wait of the flusher. -/
def waited (r : Outcome Unit) : Outcome Unit × State :=
  match r with
  | .ok () => (.ok (), { σ with wakeup := false })
  | .error exc => (.error exc, σ)

/-- A `close` has ended its drain. -/
def drained (final : Bool) : State := if final then σ.record p (.closed σ.buffer.length) else σ

/-- The beginning of `_flush`. -/
def take (final : Bool) : Taken × State :=
  if σ.buffer = [] ∨ ¬ audit.enabled then (.nothing σ.running, σ.drained p final)
  else
    let rows := σ.buffer.take audit.batchSize
    (.rows rows,
      { σ with buffer := σ.buffer.drop audit.batchSize, flushing := (p, ⟨final, rows⟩) :: σ.flushing })

/-- The flush of the task `p` is over. -/
def release : State := { σ with flushing := σ.flushing.pop p }

/-- The end of `_flush` after an attempt at its rows. -/
def settle (r : Outcome Unit) : Outcome Bool × State :=
  match σ.flushing.lookup p with
  | none => (.ok σ.running, σ)
  | some flush =>
    let rows := flush.rows.length
    match r with
    | .ok () =>
      (.ok σ.running,
        ({ σ.release p with persisted := σ.persisted + rows }.wakeIfBatch audit).drained p flush.final)
    | .error exc =>
      if exc.isException then
        (.ok σ.running, (((σ.release p).record p (.failed rows)).wakeIfBatch audit).drained p flush.final)
      else (.error exc, (σ.release p).record p (.interrupted rows))

/-- A statement is executed. -/
def execute (s : Statement) (r : Outcome Unit) : Outcome Unit × State :=
  match s, r with
  | .insert row, .ok () => (.ok (), { σ with table := σ.table ++ [row] })
  | _, r => (r, σ)

/-- The lock of the DDL is taken. -/
def lock (r : Outcome Unit) : Outcome Unit × State :=
  match r with
  | .ok () => (.ok (), { σ with ddlLock := true })
  | .error exc => (.error exc, σ)

/-- The lock of the DDL is given back, with the table created when all went well. -/
def unlock (r : Outcome Unit) : State :=
  match r with
  | .ok () => { σ with ddlLock := false, tableReady := true }
  | .error _ => { σ with ddlLock := false }

/-- The beginning of `close`, with the task to wait for. -/
def stop : Option ℕ × State := (σ.flushTask, { σ with running := false, wakeup := true })

/-- The end of the wait of a `close` for the flusher: a cancellation is passed over. -/
def join (task : ℕ) : Outcome Unit × State :=
  match σ.ended.lookup task with
  | some (.error exc) => if exc = .cancelled then (.ok (), { σ with flushTask := none }) else (.error exc, σ)
  | _ => (.ok (), { σ with flushTask := none })

/-- Execution of a command by the task `p`. -/
def exec (c : Cmd) (i : Input) : c.Reply × State :=
  match c with
  | .onEnvelope e => σ.onEnvelope audit p e
  | .attach => σ.attach audit
  | .started => (i.outcome.map fun _ => σ.running, σ)
  | .waited => σ.waited i.outcome
  | .take final => σ.take audit p final
  | .isTableReady => (σ.tableReady, σ)
  | .lock => σ.lock i.outcome
  | .unlock r => ((), σ.unlock r)
  | .connection => (i.outcome, σ)
  | .execute s => σ.execute s i.outcome
  | .leave => (i.outcome, σ)
  | .settle r => σ.settle audit p r
  | .ended task r => ((), { σ with ended := (task, r) :: σ.ended })
  | .stop => σ.stop
  | .join task => σ.join task

/-- The wait in front of a command is over. -/
def Ready (c : Cmd) (i : Input) : Prop :=
  match c with
  | .lock => i.outcome.isOk = true → σ.ddlLock = false
  | .join task => (σ.ended.lookup task).isSome = true
  | _ => True

instance (c : Cmd) (i : Input) : Decidable (σ.Ready c i) := by
  unfold Ready
  cases c <;> infer_instance

end State

/-- A subscriber as a machine. -/
abbrev machine (audit : AuditSubscriber) : Machine calls where
  State := State
  Input := Input
  exec p c i σ := σ.exec audit p c i

/-! ## Flushing -/

/-- `async with await db.connection()` around `body`. -/
def withConnection (body : Coro (Outcome Unit)) : Coro (Outcome Unit) := do
  match ← Cmd.connection.await with
  | .error exc => return .error exc
  | .ok () =>
    let r ← body
    match ← Cmd.leave.await with
    | .error exc => return .error exc
    | .ok () => return r

/-- The creation of the table, under the lock. -/
def createTable : Coro (Outcome Unit) := do
  if ← Cmd.isTableReady.await then return .ok ()
  else withConnection (Cmd.execute .ddl).await

/-- `_ensure_table`. -/
def ensureTable : Coro (Outcome Unit) := do
  if ← Cmd.isTableReady.await then return .ok ()
  else
    match ← Cmd.lock.await with
    | .error exc => return .error exc
    | .ok () =>
      let r ← createTable
      (Cmd.unlock r).await
      return r

/-- The inserts of a flush. -/
def insertAll : List Row → Coro (Outcome Unit)
  | [] => .pure (.ok ())
  | row :: rows => do
    match ← (Cmd.execute (.insert row)).await with
    | .error exc => return .error exc
    | .ok () => insertAll rows

/-- The attempt of a flush to persist its rows. -/
def persist (rows : List Row) : Coro (Outcome Unit) := do
  match ← ensureTable with
  | .error exc => return .error exc
  | .ok () => withConnection (insertAll rows)

/-- `_flush`. The result is `_running`, as the loop of the flusher reads it next. -/
def flush (final : Bool) : Coro (Outcome Bool) := do
  match ← (Cmd.take final).await with
  | .nothing running => return .ok running
  | .rows rows =>
    let r ← persist rows
    (Cmd.settle r).await

/-- The loop of `_run_flusher` for so many turns. -/
def runFlusher : ℕ → Coro (Outcome Unit)
  | 0 => .hang
  | n + 1 => do
    match ← Cmd.waited.await with
    | .error exc => return .error exc
    | .ok () =>
      match ← flush false with
      | .error exc => return .error exc
      | .ok running => if running then runFlusher n else return .ok ()

/-- The task of the flusher. -/
def flusher (turns : ℕ) : Coro (Outcome Unit) := do
  match ← Cmd.started.await with
  | .error exc => return .error exc
  | .ok running => if running then runFlusher turns else return .ok ()

/-! ## Calls -/

/-- `attach`, with the task of the flusher when it creates one. -/
def attach (turns : ℕ) : Coro (Outcome Unit) := do
  match ← Cmd.attach.await with
  | none => return .ok ()
  | some task =>
    let r ← flusher turns
    (Cmd.ended task r).await
    return r

/-- `close` after the flusher has ended. -/
def drain : Coro (Outcome Unit) := do
  match ← flush true with
  | .error exc => return .error exc
  | .ok _ => return .ok ()

/-- `close`. -/
def close : Coro (Outcome Unit) := do
  match ← Cmd.stop.await with
  | none => drain
  | some task =>
    match ← (Cmd.join task).await with
    | .error exc => return .error exc
    | .ok () => drain

/-- What a task does with a subscriber. -/
inductive Call where
  | attach (turns : ℕ)
  | onEnvelope (e : Envelope)
  | close

/-- A task is there, or it was destroyed in the middle of a call. -/
inductive Phase where
  | there
  | gone
  deriving DecidableEq

/-- The program of a call. -/
def Call.code : Call → Coro (Outcome Unit)
  | attach turns => Audit.attach turns
  | onEnvelope e => (Cmd.onEnvelope e).await
  | close => Audit.close

/-- The tasks of a subscriber. -/
abbrev subscriber (audit : AuditSubscriber) : Service (machine audit) where
  Call := Call
  Result := Outcome Unit
  Phase := Phase
  idle := .gone
  code := Call.code
  phase _ _ := .there
  accepts φ _ := decide (φ = .there)
  note _ _ _ σ := σ
  Disturbance := Empty
  disturb d _ := d.elim

/-- A new subscriber. -/
def AuditSubscriber.new (audit : AuditSubscriber) : Pool (subscriber audit) where
  shared := {}
  actors _ := .resting .there

/-- The commands wait for what they have to. -/
def Awaits (audit : AuditSubscriber) (_p : ℕ) (_o : Call) (c : Cmd) (i : Input) (σ : (machine audit).State) : Prop :=
  State.Ready σ c i

instance (audit : AuditSubscriber) (p : ℕ) (o : Call) (c : Cmd) (i : Input) (σ : State) :
    Decidable (Awaits audit p o c i σ) :=
  inferInstanceAs (Decidable (σ.Ready c i))

end NavigatorEventbus.Audit
