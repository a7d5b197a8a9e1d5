import NavigatorEventbus.Events.Envelope

/-!
# Event ingress

The boundary model of externally submitted events (`ingress_models.py`).  What Pydantic makes of a
member that is to be a number, a time or an enumeration is the parameter `Pydantic`.
-/

namespace NavigatorEventbus

open IsoTime

/-- The readings of Pydantic; `none` is a validation error. -/
structure Pydantic where
  int : Json → Option ℤ
  datetime : Json → Option DateTime
  severity : Json → Option Severity
  priority : Json → Option EventPriority

/-- A time that is taken to be UTC when it is naive. -/
def coerceNaiveToUtc (t : DateTime) : DateTime :=
  match t.offset with
  | some _ => t
  | none => { t with offset := some 0, offset_ok := utc_ok }

theorem aware_coerceNaiveToUtc (t : DateTime) : (coerceNaiveToUtc t).Aware := by
  unfold coerceNaiveToUtc DateTime.Aware
  cases h : t.offset with
  | some o => simp [h]
  | none => rfl

/-- Strict validation model for externally-submitted events. -/
structure IngressEnvelope where
  topic : String
  payload : List (String × Json)
  eventId : String
  timestamp : DateTime
  source : Option String
  severity : Severity
  priority : EventPriority
  correlationId : Option String
  traceContext : Option (List (String × Json))
  metadata : List (String × Json)
  schemaVersion : ℤ
  topic_ne : topic ≠ ""
  aware : timestamp.Aware

namespace IngressEnvelope

/-- Every other member of a request is forbidden. -/
def fieldNames : List String :=
  ["topic", "payload", "event_id", "timestamp", "source", "severity", "priority", "correlation_id",
    "trace_context", "metadata", "schema_version"]

/-- The field `key`: its default when the request has none. -/
def field {α : Type} (data : Json) (key : String) (default : α) (read : Json → Option α) : Option α :=
  match data.member key with
  | some v => read v
  | none => some default

/-- A string. -/
def asStr : Json → Option String
  | .str s => some s
  | _ => none

/-- A dict. -/
def asDict : Json → Option (List (String × Json))
  | .obj members => some members
  | _ => none

/-- A value or `None`. -/
def optional {α : Type} (read : Json → Option α) : Json → Option (Option α)
  | .null => some none
  | v => (read v).map some

/-- The members of a request, one field after another. -/
def readFields (pydantic : Pydantic) (uuid : String) (now : DateTime) (data : Json) :
    Option IngressEnvelope := do
  let topic ← asStr (← data.member "topic")
  let payload ← field data "payload" [] asDict
  let eventId ← field data "event_id" uuid asStr
  let timestamp ← field data "timestamp" now pydantic.datetime
  let source ← field data "source" none (optional asStr)
  let severity ← field data "severity" .info pydantic.severity
  let priority ← field data "priority" .normal pydantic.priority
  let correlationId ← field data "correlation_id" none (optional asStr)
  let traceContext ← field data "trace_context" none (optional asDict)
  let metadata ← field data "metadata" [] asDict
  let schemaVersion ← field data "schema_version" 1 pydantic.int
  if topic_ne : topic ≠ "" then
    some { topic, payload, eventId, timestamp := coerceNaiveToUtc timestamp, source, severity, priority,
           correlationId, traceContext, metadata, schemaVersion, topic_ne,
           aware := aware_coerceNaiveToUtc timestamp }
  else none

/-- `IngressEnvelope.model_validate`, with a fresh id and the time of the request. -/
def modelValidate (pydantic : Pydantic) (uuid : String) (now : DateTime) : Json → Option IngressEnvelope
  | .obj members =>
    if ∀ m ∈ members, m.1 ∈ fieldNames then readFields pydantic uuid now (.obj members) else none
  | _ => none

/-- `None` as a JSON value. -/
def orNull {α : Type} (write : α → Json) : Option α → Json
  | some a => write a
  | none => .null

/-- Convert the validated boundary model to the core envelope. -/
def toEnvelope (i : IngressEnvelope) : EventEnvelope where
  topic := .str i.topic
  payload := .obj i.payload
  eventId := .str i.eventId
  timestamp := i.timestamp
  source := orNull .str i.source
  severity := i.severity
  priority := i.priority
  correlationId := orNull .str i.correlationId
  traceContext := orNull .obj i.traceContext
  metadata := .obj i.metadata
  schemaVersion := .int i.schemaVersion
  aware := i.aware

/-! ## An accepted request is a JSON value -/

section Validated

variable {pydantic : Pydantic} {uuid : String} {now : DateTime} {data : Json} {i : IngressEnvelope}

end Validated

end IngressEnvelope

end NavigatorEventbus
