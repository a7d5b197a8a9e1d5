import NavigatorEventbus.Lib.IsoTime

/-!
# Event envelopes

The envelope of an event with its wire form (`envelope.py`), and the default codec of the streams
(`backends/redis_streams.py`).  Python does not check the types of the fields, so a field is any JSON value
here unless something reads it; the timestamp is aware by construction.
-/

namespace NavigatorEventbus

open IsoTime

/-- Log-level severity of an event. -/
inductive Severity where
  | debug
  | info
  | warning
  | error
  | critical
  deriving DecidableEq

/-- Priority levels for events in the event bus. -/
inductive EventPriority where
  | low
  | normal
  | high
  | critical
  deriving DecidableEq

namespace Severity

def value : Severity → ℤ
  | debug => 10
  | info => 20
  | warning => 30
  | error => 40
  | critical => 50

def all : List Severity := [debug, info, warning, error, critical]

end Severity

namespace EventPriority

def value : EventPriority → ℤ
  | low => 0
  | normal => 5
  | high => 10
  | critical => 15

def all : List EventPriority := [low, normal, high, critical]

end EventPriority

/-- What Python makes of values that `to_dict` does not write: the integer that a real number equals, and
the other forms of a date and time. -/
structure Readings where
  integral : String → Option ℤ
  datetime : List Char → Option DateTime

namespace Readings

variable (py : Readings)

/-- `datetime.fromisoformat`. -/
def fromisoformat (s : List Char) : Option DateTime := (read s).or (py.datetime s)

/-- The integer that a JSON value equals. -/
def number : Json → Option ℤ
  | .int n => some n
  | .bool b => some (if b then 1 else 0)
  | .real token => py.integral token
  | _ => none

/-- The member of an enumeration with this value. -/
def enum {α : Type} (all : List α) (value : α → ℤ) (v : Json) : Option α :=
  (py.number v).bind fun n => all.find? fun a => value a = n

end Readings

/-- The exceptions of decoding. -/
inductive CodecExc where
  | jsonDecodeError
  | attributeError
  | keyError (key : String)
  | typeError
  | valueError
  | unsupportedSchemaVersion
  deriving DecidableEq

/-- `ENVELOPE_SCHEMA_VERSION`. -/
def envelopeSchemaVersion : ℤ := 1

/-- Immutable, single wire-format envelope for every bus event. -/
structure EventEnvelope where
  topic : Json
  payload : Json
  eventId : Json
  timestamp : DateTime
  source : Json
  severity : Severity
  priority : EventPriority
  correlationId : Json
  traceContext : Json
  metadata : Json
  schemaVersion : Json
  aware : timestamp.Aware

namespace EventEnvelope

/-- Serialize to a JSON-safe dict for transport backends. -/
def toDict (e : EventEnvelope) : Json :=
  .obj [("topic", e.topic), ("payload", e.payload), ("event_id", e.eventId),
    ("timestamp", .str (String.ofList e.timestamp.isoformat)), ("source", e.source),
    ("severity", .int e.severity.value), ("priority", .int e.priority.value),
    ("correlation_id", e.correlationId), ("trace_context", e.traceContext),
    ("metadata", e.metadata), ("schema_version", e.schemaVersion)]

/-- `_validate_schema_version`. -/
def validateSchemaVersion : Json → Except CodecExc Json
  | .int n =>
    if n < 1 then .error .unsupportedSchemaVersion
    else if envelopeSchemaVersion < n then .error .unsupportedSchemaVersion
    else .ok (.int n)
  | _ => .error .unsupportedSchemaVersion

/-- `data[key]`. -/
def required (data : Json) (key : String) : Except CodecExc Json :=
  match data.member key with
  | some v => .ok v
  | none => .error (.keyError key)

/-- `data.get(key, default)`. -/
def get (data : Json) (key : String) (default : Json) : Json := (data.member key).getD default

/-- `datetime.fromisoformat` of a value. -/
def parseTimestamp (py : Readings) : Json → Except CodecExc DateTime
  | .str s =>
    match py.fromisoformat s.toList with
    | some t => .ok t
    | none => .error .valueError
  | _ => .error .typeError

/-- `cls(...)`, which rejects a naive timestamp. -/
def build (topic payload eventId : Json) (timestamp : DateTime) (source : Json) (severity : Severity)
    (priority : EventPriority) (correlationId traceContext metadata schemaVersion : Json) :
    Except CodecExc EventEnvelope :=
  if aware : timestamp.Aware then
    .ok { topic, payload, eventId, timestamp, source, severity, priority, correlationId, traceContext,
          metadata, schemaVersion, aware }
  else .error .valueError

/-- The envelope of a dict. An event without an id gets the fresh one, `uuid`. -/
def ofMembers (py : Readings) (uuid : String) (data : Json) : Except CodecExc EventEnvelope := do
  let schemaVersion ← validateSchemaVersion (get data "schema_version" (.int 1))
  let topic ← required data "topic"
  let timestamp ← parseTimestamp py (← required data "timestamp")
  let severity ← (py.enum Severity.all Severity.value
    (get data "severity" (.int Severity.info.value))).elim (.error .valueError) .ok
  let priority ← (py.enum EventPriority.all EventPriority.value
    (get data "priority" (.int EventPriority.normal.value))).elim (.error .valueError) .ok
  build topic (get data "payload" (.obj [])) (get data "event_id" (.str uuid)) timestamp
    (get data "source" .null) severity priority (get data "correlation_id" .null)
    (get data "trace_context" .null) (get data "metadata" (.obj [])) schemaVersion

/-- Deserialize an envelope; only a dict has members to get. -/
def fromDict (py : Readings) (uuid : String) : Json → Except CodecExc EventEnvelope
  | .obj members => ofMembers py uuid (.obj members)
  | _ => .error .attributeError

end EventEnvelope

/-- `json.dumps`. -/
def dumps (v : Json) : String := String.ofList (v.print [' '])

/-- `EventEnvelope.from_dict(json.loads(raw))`. -/
def fromJson (py : Readings) (uuid raw : String) : Except CodecExc EventEnvelope :=
  match Json.parse raw.toList with
  | some data => EventEnvelope.fromDict py uuid data
  | none => .error .jsonDecodeError

namespace DefaultCodec

/-- The fields of a stream entry. -/
def encode (e : EventEnvelope) : List (String × String) := [("envelope", dumps e.toDict)]

/-- The envelope of the fields of a stream entry. -/
def decode (py : Readings) (uuid : String) (fields : List (String × String)) :
    Except CodecExc EventEnvelope :=
  match fields.lookup "envelope" with
  | some raw => if raw = "" then .error .typeError else fromJson py uuid raw
  | none => .error .typeError

end DefaultCodec

/-! ## Round trip -/

namespace EventEnvelope

variable {py : Readings} {uuid : String}

/-- The fields are JSON values. -/
def JsonSafe (e : EventEnvelope) : Prop :=
  e.topic.Readable ∧ e.payload.Readable ∧ e.eventId.Readable ∧ e.source.Readable ∧
    e.correlationId.Readable ∧ e.traceContext.Readable ∧ e.metadata.Readable ∧
    e.schemaVersion.Readable

/-- The schema version is the one that readers support. -/
def Supported (e : EventEnvelope) : Prop := e.schemaVersion = .int envelopeSchemaVersion

theorem readable_toDict {e : EventEnvelope} (h : e.JsonSafe) : e.toDict.Readable := by
  obtain ⟨h1, h2, h3, h4, h5, h6, h7, h8⟩ := h
  exact ⟨h1, h2, h3, trivial, h4, trivial, trivial, h5, h6, h7, h8, trivial⟩

theorem enum_severity (s : Severity) : py.enum Severity.all Severity.value (.int s.value) = some s := by
  cases s <;> rfl

theorem enum_priority (p : EventPriority) :
    py.enum EventPriority.all EventPriority.value (.int p.value) = some p := by
  cases p <;> rfl

theorem parseTimestamp_isoformat (t : DateTime) :
    parseTimestamp py (.str (String.ofList t.isoformat)) = .ok t := by
  simp only [parseTimestamp, Readings.fromisoformat, String.toList_ofList, read_isoformat, Option.some_or]

theorem get_toDict (e : EventEnvelope) (default : Json) :
    get e.toDict "payload" default = e.payload ∧ get e.toDict "event_id" default = e.eventId ∧
    get e.toDict "source" default = e.source ∧
    get e.toDict "severity" default = .int e.severity.value ∧
    get e.toDict "priority" default = .int e.priority.value ∧
    get e.toDict "correlation_id" default = e.correlationId ∧
    get e.toDict "trace_context" default = e.traceContext ∧
    get e.toDict "metadata" default = e.metadata ∧
    get e.toDict "schema_version" default = e.schemaVersion := by
  simp [get, toDict, Json.member]

theorem required_toDict (e : EventEnvelope) : required e.toDict "topic" = .ok e.topic ∧
    required e.toDict "timestamp" = .ok (.str (String.ofList e.timestamp.isoformat)) := by
  simp [required, toDict, Json.member]

theorem ok_bind {α β : Type} (a : α) (f : α → Except CodecExc β) : (Except.ok a >>= f) = f a := rfl

/-- Deserializing inverts serializing for the supported version. -/
theorem fromDict_toDict {e : EventEnvelope} (h : e.Supported) : fromDict py uuid e.toDict = .ok e := by
  have version : validateSchemaVersion e.schemaVersion = .ok e.schemaVersion := by
    rw [h]
    rfl
  have built : build e.topic e.payload e.eventId e.timestamp e.source e.severity e.priority
      e.correlationId e.traceContext e.metadata e.schemaVersion = .ok e := dif_pos e.aware
  show ofMembers py uuid e.toDict = _
  simp only [ofMembers, get_toDict e, required_toDict e, version, enum_severity, enum_priority,
    Option.elim_some, ok_bind, parseTimestamp_isoformat]
  exact built

/-- The text of an envelope is read back as the envelope, when its schema version is supported. -/
theorem fromJson_dumps {e : EventEnvelope} (safe : e.JsonSafe) :
    fromJson py uuid (dumps e.toDict) = fromDict py uuid e.toDict := by
  have space : ∀ c ∈ [' '], Json.isSpace c = true := List.forall_mem_singleton.2 (by decide)
  rw [fromJson, dumps, String.toList_ofList, Json.parse_print space (readable_toDict safe)]

theorem decode_encode {e : EventEnvelope} (safe : e.JsonSafe) :
    DefaultCodec.decode py uuid (DefaultCodec.encode e) = fromJson py uuid (dumps e.toDict) := by
  have text : dumps e.toDict ≠ "" := by
    intro empty
    have pos := Json.print_length_pos [' '] (readable_toDict safe)
    rw [dumps] at empty
    rw [String.ofList_eq_empty_iff.1 empty] at pos
    exact absurd pos (Nat.lt_irrefl 0)
  simp [DefaultCodec.decode, DefaultCodec.encode, text]

end EventEnvelope

end NavigatorEventbus
