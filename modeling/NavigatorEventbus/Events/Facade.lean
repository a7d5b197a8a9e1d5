import NavigatorEventbus.Events.Ingress

/-!
# The event bus facade

The legacy `Event` with its converter (`converters.py`), and `emit` and `publish` of the facade over the
core (`evb.py`).  The history that the facade keeps and the count of matching subscribers that it returns
are left out; how the core starts and what its `publish` raises are parameters.
-/

namespace NavigatorEventbus

open IsoTime

/-- Represents an event on the bus. -/
structure LegacyEvent where
  eventType : String
  payload : List (String × Json)
  eventId : String
  timestamp : DateTime
  source : Option String
  priority : EventPriority
  correlationId : Option String
  metadata : List (String × Json)

/-- The keyword arguments of `emit`; an absent one has the default of `Event`. -/
structure EmitKwargs where
  eventId : Option String := none
  timestamp : Option DateTime := none
  source : Option String := none
  priority : Option EventPriority := none
  correlationId : Option String := none
  metadata : Option (List (String × Json)) := none
  severity : Option Severity := none

/-- `Event(event_type=..., payload=..., **kwargs)`. -/
def EmitKwargs.event (kwargs : EmitKwargs) (uuid : String) (now : DateTime) (eventType : String)
    (payload : List (String × Json)) : LegacyEvent where
  eventType := eventType
  payload := payload
  eventId := kwargs.eventId.getD uuid
  timestamp := kwargs.timestamp.getD now
  source := kwargs.source
  priority := kwargs.priority.getD .normal
  correlationId := kwargs.correlationId
  metadata := kwargs.metadata.getD []

/-- Convert a legacy event to an envelope. -/
def fromLegacyEvent (event : LegacyEvent) (severity : Severity := .info) : EventEnvelope where
  topic := .str event.eventType
  payload := .obj event.payload
  eventId := .str event.eventId
  timestamp := coerceNaiveToUtc event.timestamp
  source := IngressEnvelope.orNull .str event.source
  severity := severity
  priority := event.priority
  correlationId := IngressEnvelope.orNull .str event.correlationId
  traceContext := .null
  metadata := .obj event.metadata
  schemaVersion := .int envelopeSchemaVersion
  aware := aware_coerceNaiveToUtc event.timestamp

/-- What the facade raises to the emitter. -/
inductive BusExc where
  | busClosedError
  | raised (text : String)
  deriving DecidableEq

/-- A facade at a moment: its flags, how its core would start and what the core's `publish` does. -/
structure Facade where
  closed : Bool := false
  started : Bool := true
  start : Except BusExc Unit := .ok ()
  corePublish : EventEnvelope → Except BusExc Unit := fun _ => .ok ()

/-- A call of the facade: the envelope that reaches `BusCore.publish`, if one does, and how it ends. -/
structure Emission where
  reached : Option EventEnvelope
  result : Except BusExc Unit

namespace Facade

variable (bus : Facade)

/-- Auto-start the core. -/
def ensureStarted : Except BusExc Unit :=
  if bus.closed then .error .busClosedError
  else if bus.started then .ok ()
  else bus.start

/-- Publish an event to the bus. -/
def publish (event : LegacyEvent) (severity : Option Severity) : Emission :=
  match bus.ensureStarted with
  | .error exc => ⟨none, .error exc⟩
  | .ok () =>
    let envelope := fromLegacyEvent event (severity.getD .info)
    ⟨some envelope, bus.corePublish envelope⟩

/-- Shortcut to publish events. -/
def emit (uuid : String) (now : DateTime) (eventType : String) (payload : List (String × Json))
    (kwargs : EmitKwargs) : Emission :=
  bus.publish (kwargs.event uuid now eventType payload) kwargs.severity

theorem publish_reached {event : LegacyEvent} {severity : Option Severity} {e : EventEnvelope}
    (h : (bus.publish event severity).reached = some e) :
    e = fromLegacyEvent event (severity.getD .info) := by
  unfold publish at h
  cases hstart : bus.ensureStarted with
  | error exc =>
    rw [hstart] at h
    cases h
  | ok _ =>
    rw [hstart] at h
    exact (Option.some.inj h).symm

end Facade

end NavigatorEventbus
