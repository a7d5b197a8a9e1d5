import NavigatorEventbus.Bus.Core
import NavigatorEventbus.Lib.Program

/-!
# The dead-letter table

The table of dead letters with its statements, and the tasks that work on it (`dlq.py`): the persistence of
an envelope that exhausted its retries, which `on_dlq` spawns, and `replay`.  Any number of handlers share
one table.  Every statement succeeds unless a value does not fit its column; the DDL, the connections and
the log are left out, and the clock never goes back.
-/

namespace NavigatorEventbus.Bus.Dlq

open Interleave

/-! ## The table -/

/-- A time is not later than another. -/
def NotAfter (t t' : Instant) : Prop := t.1.micros ≤ t'.1.micros

instance (t t' : Instant) : Decidable (NotAfter t t') := inferInstanceAs (Decidable (_ ≤ _))

theorem NotAfter.refl (t : Instant) : NotAfter t t := le_refl t.1.micros

theorem NotAfter.trans {t t' t'' : Instant} (h : NotAfter t t') (h' : NotAfter t' t'') : NotAfter t t'' :=
  le_trans h h'

/-- A row of `navigator.evb_dlq`. A JSON column keeps the value whose text is written to it. -/
structure Row where
  eventId : String
  topic : String
  payload : Json
  severity : ℤ
  priority : ℤ
  source : Option String
  correlationId : Option String
  traceContext : Option Json
  metadata : Json
  schemaVersion : ℤ
  failureReason : String
  attempts : ℕ
  replayedAt : Option Instant := none
  failedAt : Instant

/-- What a nullable text column keeps of a value, when the value fits. -/
def asText : Json → Option (Option String)
  | .null => some none
  | .str s => some (some s)
  | _ => none

/-- What an integer column keeps of a value, when the value fits. -/
def asInt : Json → Option ℤ
  | .int n => some n
  | _ => none

/-- What a nullable JSON column keeps of a value. -/
def asJson : Json → Option Json
  | .null => none
  | v => some v

/-- The row that `_persist` inserts, when its values fit the columns. -/
def Row.of (e : Envelope) (failure : Failure) (now : Instant) : Option Row := do
  let source ← asText e.wire.source
  let correlationId ← asText e.wire.correlationId
  let schemaVersion ← asInt e.wire.schemaVersion
  return {
    eventId := e.eventId
    topic := String.ofList e.topic
    payload := e.wire.payload
    severity := e.severity.value
    priority := e.priority.value
    source := source
    correlationId := correlationId
    traceContext := asJson e.wire.traceContext
    metadata := e.wire.metadata
    schemaVersion := schemaVersion
    failureReason := s!"{failure.errorType}: {failure.errorMessage}"
    attempts := failure.attempts
    failedAt := now }

theorem Row.of_eq_some {e : Envelope} {failure : Failure} {now : Instant} {row : Row}
    (h : Row.of e failure now = some row) :
    row.eventId = e.eventId ∧ row.failedAt = now ∧ row.replayedAt = none := by
  simp only [Row.of, Option.bind_eq_bind, Option.bind_eq_some_iff, Option.pure_def, Option.some.injEq] at h
  obtain ⟨source, -, correlationId, -, schemaVersion, -, rfl⟩ := h
  exact ⟨rfl, rfl, rfl⟩

/-- The statement that selects by id. -/
def selectById (rows : List Row) (eventId : String) : List Row :=
  rows.filter fun row => row.eventId = eventId ∧ row.replayedAt = none

/-- The statement that selects by time. -/
def selectSince (rows : List Row) (since : Instant) : List Row :=
  (rows.filter fun row => NotAfter since row.failedAt ∧ row.replayedAt = none).mergeSort
    fun a b => decide (NotAfter a.failedAt b.failedAt)

/-- The statement that marks the row of an event as replayed. -/
def markReplayed (rows : List Row) (eventId : String) (now : Instant) : List Row :=
  rows.map fun row => if row.eventId = eventId then { row with replayedAt := some now } else row

/-! ## Rows as envelopes -/

/-- The truth value of a JSON value. -/
def truthy (py : Readings) : Json → Bool
  | .null => false
  | .str s => s ≠ ""
  | .arr items => !items.isEmpty
  | .obj members => !members.isEmpty
  | v => py.number v ≠ some 0

/-- `value or {}`. -/
def orEmpty (py : Readings) (v : Json) : Json := if truthy py v then v else .obj []

/-- A nullable text. -/
def ofText : Option String → Json
  | none => .null
  | some s => .str s

/-- `_row_to_envelope`. The rows have a schema version and an aware time. -/
def rowToEnvelope (py : Readings) (row : Row) : Except CodecExc Envelope := do
  let schemaVersion ← EventEnvelope.validateSchemaVersion (.int row.schemaVersion)
  let severity ← (py.enum Severity.all Severity.value (.int row.severity)).elim (.error .valueError) .ok
  let priority ←
    (py.enum EventPriority.all EventPriority.value (.int row.priority)).elim (.error .valueError) .ok
  return {
    wire :=
      { topic := .str row.topic, payload := orEmpty py row.payload, eventId := .str row.eventId,
        timestamp := row.failedAt.1, source := ofText row.source, severity, priority,
        correlationId := ofText row.correlationId, traceContext := row.traceContext.getD .null,
        metadata := orEmpty py row.metadata, schemaVersion, aware := row.failedAt.2 }
    eventId := row.eventId
    topic := row.topic.toList
    eventId_eq := rfl
    topic_eq := by rw [String.ofList_toList] }

theorem eventId_rowToEnvelope {py : Readings} {row : Row} {e : Envelope}
    (h : rowToEnvelope py row = .ok e) : e.eventId = row.eventId := by
  simp only [rowToEnvelope, bind, Except.bind, pure, Except.pure] at h
  split at h
  · cases h
  split at h
  · cases h
  split at h
  · cases h
  cases h
  rfl

/-! ## State and commands -/

/-- What the history records: an envelope exhausted its retries, its persistence was done and maybe stored a
row, and `replay` published an envelope and marked its row. -/
inductive Event where
  | exhausted (failure : ℕ) (eventId : String) (at_ : Instant)
  | persisted (failure : ℕ)
  | stored (eventId : String)
  | republished (eventId : String)
  | marked (eventId : String)
  deriving DecidableEq

/-- The table, the clock and the history. -/
structure State where
  rows : List Row := []
  now : Instant := epoch
  failures : ℕ := 0
  log : History Event := []

/-- What the environment supplies with a command: fresh ids, the text of an exception, and how a publish
ends. -/
structure Input where
  uuid : String := ""
  error : String := ""
  published : Outcome Unit := .ok ()

/-- How a failure is known to its persistence: its number and its time. -/
structure Ticket where
  failure : ℕ
  at_ : Instant

/-- What selects the rows of a replay. -/
inductive Selector where
  | eventId (id : String)
  | since (t : Instant)

/-- The commands. -/
inductive Cmd where
  | exhausted (e : Envelope)
  | now
  | uuid
  | errorText
  | insert (t : Ticket) (row : Row)
  | publish (e : Envelope)
  | select (s : Selector)
  | republish (e : Envelope)
  | mark (eventId : String)

namespace Cmd

/-- The reply of a command. -/
@[reducible] def Reply : Cmd → Type
  | exhausted _ => Ticket
  | now => Instant
  | uuid => String
  | errorText => String
  | insert _ _ => Unit
  | publish _ => Outcome Unit
  | select _ => List Row
  | republish _ => Outcome Unit
  | mark _ => Unit

end Cmd

/-- The commands of the dead-letter handlers. -/
abbrev commands : Signature := ⟨Cmd, Cmd.Reply⟩

namespace State

variable (σ : State)

/-- An event enters the history. -/
def record (p : ℕ) (event : Event) : State := { σ with log := (p, event) :: σ.log }

/-- An envelope has exhausted its retries. -/
def exhaust (p : ℕ) (e : Envelope) : Ticket × State :=
  (⟨σ.failures, σ.now⟩,
    { σ with failures := σ.failures + 1 }.record p (.exhausted σ.failures e.eventId σ.now))

/-- `INSERT ... ON CONFLICT (event_id) DO NOTHING` of a row. -/
def insert (p : ℕ) (t : Ticket) (row : Row) : State :=
  if ∃ r ∈ σ.rows, r.eventId = row.eventId then σ.record p (.persisted t.failure)
  else
    ({ σ with rows := σ.rows ++ [row] }.record p (.stored row.eventId)).record p (.persisted t.failure)

/-- The rows of a replay. -/
def select : Selector → List Row
  | .eventId id => selectById σ.rows id
  | .since t => selectSince σ.rows t

/-- `publish` of an envelope that is replayed. -/
def republish (p : ℕ) (e : Envelope) (i : Input) : State :=
  match i.published with
  | .ok () => σ.record p (.republished e.eventId)
  | .error _ => σ

/-- Execution of a command. -/
def exec (p : ℕ) (c : Cmd) (i : Input) : c.Reply × State :=
  match c with
  | .exhausted e => σ.exhaust p e
  | .now => (σ.now, σ)
  | .uuid => (i.uuid, σ)
  | .errorText => (i.error, σ)
  | .insert t row => ((), σ.insert p t row)
  | .publish _ => (i.published, σ)
  | .select s => (σ.select s, σ)
  | .republish e => (i.published, σ.republish p e i)
  | .mark eventId => ((), { σ with rows := markReplayed σ.rows eventId σ.now }.record p (.marked eventId))

end State

/-- The table as a machine. -/
abbrev machine : Machine commands where
  State := State
  Input := Input
  exec p c i σ := σ.exec p c i

/-! ## The handler -/

/-- A coroutine. -/
abbrev Coro (α : Type) : Type := Prog commands α

/-- A single command. -/
abbrev Cmd.await (c : Cmd) : Coro c.Reply := Prog.cmd (S := commands) c

/-- A `DLQHandler`: whether it has a DSN, and what Python makes of foreign numbers and times. -/
structure DLQHandler where
  dsn : Bool
  py : Readings

namespace DLQHandler

/-- The envelope on `bus.dlq_error`. -/
def dlqErrorEnvelope (uuid : String) (now : Instant) (e : Envelope) (error : String) : Envelope :=
  .make uuid "bus.dlq_error".toList (.obj [("event_id", .str e.eventId), ("error", .str error)])
    (.str "bus-dlq") .warning .normal .null now

/-- The exceptions that `except Exception` lets pass. -/
def escaping : Outcome Unit → Outcome Unit
  | .error exc => if exc.isException then .ok () else .error exc
  | .ok () => .ok ()

/-- `_persist`. -/
def persist (t : Ticket) (e : Envelope) (failure : Failure) : Coro (Outcome Unit) := do
  let now ← Cmd.now.await
  match Row.of e failure now with
  | some row =>
    (Cmd.insert t row).await
    return .ok ()
  | none =>
    let error ← Cmd.errorText.await
    let uuid ← Cmd.uuid.await
    let now ← Cmd.now.await
    let r ← (Cmd.publish (dlqErrorEnvelope uuid now e error)).await
    return escaping r

variable (handler : DLQHandler)

/-- An envelope exhausts its retries and is persisted. The publish on `bus.dlq` in between may take any
time; when it is cancelled, nothing is persisted. -/
def deadLetter (e : Envelope) (failure : Failure) (dlqEnvelope : Envelope) : Coro (Outcome Unit) := do
  let t ← (Cmd.exhausted e).await
  match escaping (← (Cmd.publish dlqEnvelope).await) with
  | .error exc => return .error exc
  | .ok () => if handler.dsn then persist t e failure else return .ok ()

/-- The rows of a replay from the first, with the number of those replayed. -/
def replayRows : List Row → ℕ → Coro (Outcome ℕ)
  | [], replayed => .pure (.ok replayed)
  | row :: rows, replayed =>
    match rowToEnvelope handler.py row with
    | .error _ => replayRows rows replayed
    | .ok e => do
      match ← (Cmd.republish e).await with
      | .ok () =>
        (Cmd.mark e.eventId).await
        replayRows rows (replayed + 1)
      | .error exc => if exc.isException then replayRows rows replayed else return .error exc

def oneSelectorError : Exc :=
  .exception "ValueError" (some "replay() needs exactly one of event_id/since")

def noDsnError : Exc := .exception "ValueError" (some "DLQ persistence is disabled (no DSN)")

/-- The selector of a replay. -/
def selector : Option String → Option Instant → Option Selector
  | some id, none => some (.eventId id)
  | none, some t => some (.since t)
  | _, _ => none

/-- `replay`. -/
def replay (eventId : Option String) (since : Option Instant) : Coro (Outcome ℕ) :=
  match selector eventId since with
  | none => .pure (.error oneSelectorError)
  | some s =>
    if handler.dsn then do
      let rows ← (Cmd.select s).await
      handler.replayRows rows 0
    else .pure (.error noDsnError)

end DLQHandler

/-! ## Handlers side by side -/

/-- The calls of the handlers of a table. -/
inductive Call where
  | deadLetter (handler : DLQHandler) (e : Envelope) (failure : Failure) (dlqEnvelope : Envelope)
  | replay (handler : DLQHandler) (eventId : Option String) (since : Option Instant)

/-- The program of a call. -/
def Call.code : Call → Coro (Outcome ℕ)
  | deadLetter handler e failure dlqEnvelope => do
    match ← handler.deadLetter e failure dlqEnvelope with
    | .ok () => return .ok 0
    | .error exc => return .error exc
  | replay handler eventId since => handler.replay eventId since

/-- The clock shows a time that is not before the last. -/
def State.tick (t : Instant) (σ : State) : State := if NotAfter σ.now t then { σ with now := t } else σ

/-- The handlers of a table. -/
abbrev handlers : Service machine where
  Call := Call
  Result := Outcome ℕ
  Phase := Unit
  idle := ()
  code := Call.code
  phase _ _ := ()
  accepts _ _ := true
  note _ _ _ σ := σ
  Disturbance := Instant
  disturb := State.tick

/-- An empty table, with no call in progress. -/
def start : Pool handlers where
  shared := {}
  actors _ := .resting ()

end NavigatorEventbus.Bus.Dlq
