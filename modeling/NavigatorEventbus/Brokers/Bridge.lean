import NavigatorEventbus.Brokers.Machine

/-!
# The employee-events bridge

`EmployeeEventsBridge` (`brokers/rabbitmq/bridge.py`): the checks of an envelope, the dead letter of one that
is refused, and the handler that publishes an event, or each position of a batch, unless its key is already in
Redis.
-/

namespace NavigatorEventbus.Brokers

open Interleave

open Bus (Exc Outcome)

/-! ## Envelopes -/

/-- A body that is refused. -/
structure Rejection where
  body : Json
  reason : Text
  kind : String

/-- An envelope that passed the checks. -/
structure Envelope where
  data : List (String × Json)
  eventId : Json
  employeeId : Text
  type : Json

/-- A text as a JSON value. -/
def textJson (s : Text) : Json := .str (String.ofList s)

namespace Envelope

variable (e : Envelope)

/-- `body.get(key)`. -/
def get (key : String) : Json := ((Json.obj e.data).member key).getD .null

/-- `body.get("positions", [])`. -/
def positions : Json := ((Json.obj e.data).member "positions").getD (.arr [])

/-- An envelope of type `location.batch`. -/
def isBatch : Bool :=
  match e.type with
  | .str type => decide (type = "location.batch")
  | _ => false

end Envelope

/-- The dictionary that a body is read as, or the text that is no JSON. -/
def Decoded.dictionary (codec : Codec) : Decoded → Outcome (Text ⊕ List (String × Json))
  | json (.obj members) => .ok (.inr members)
  | json (.str s) => loads s.toList
  | text s => loads s
  | json _ | object => .ok (.inr [])
where
  loads (s : Text) : Outcome (Text ⊕ List (String × Json)) :=
    match codec.parserFails s with
    | some exc => .error exc
    | none =>
      match Json.parse s with
      | none => .ok (.inl s)
      | some (.obj members) => .ok (.inr members)
      | some _ => .error (.exception "AttributeError" (some "object has no attribute 'get'"))

/-- `int(schema_version)`, or `-1`. -/
def schemaVersionInt (codec : Codec) : Json → Outcome ℤ
  | .int n => .ok n
  | .bool b => .ok (if b then 1 else 0)
  | .real token =>
    match Float64.ofToken token with
    | .infinite _ => .error (.exception "OverflowError" (some "cannot convert float infinity to integer"))
    | x => .ok (x.integral.getD (-1))
  | .str s => .ok ((readInt codec.beyond s.toList).getD (-1))
  | _ => .ok (-1)

/-- The checks of `_handle_envelope`. -/
def Broker.envelope (broker : Broker) (message : Message) (body : Decoded) : Outcome (Rejection ⊕ Envelope) :=
  match body.dictionary broker.codec with
  | .error exc => .error exc
  | .ok (.inl s) =>
    .ok (.inl { body := .obj [("raw", textJson s)], reason := "non-json body".toList, kind := "envelope" })
  | .ok (.inr data) =>
    let get key := (Json.obj data).member key
    let eventId := (get "eventId").getD .null
    let employeeId := broker.codec.str ((get "employeeId").getD (.str ""))
    let type := (get "type").getD .null
    let missing : Outcome (Rejection ⊕ Envelope) :=
      .ok (.inl { body := .obj data, reason := "missing required fields".toList, kind := "envelope" })
    match get "schemaVersion" with
    | none | some .null => missing
    | some schemaVersion =>
      if truthy eventId ∧ employeeId ≠ [] ∧ truthy type then
        match schemaVersionInt broker.codec schemaVersion with
        | .error exc => .error exc
        | .ok version =>
          if version ∉ broker.acceptedSchemaVersions then
            .ok (.inl {
              body := .obj data
              reason := "unsupported schemaVersion=".toList ++ broker.codec.str schemaVersion
              kind := "schema" })
          else
            match message.props.userId with
            | some mqttUsername =>
              if broker.enforceEmployeeId ∧ mqttUsername ≠ employeeId then
                .ok (.inl {
                  body := .obj data
                  reason := "employeeId mismatch: mqtt=".toList ++ mqttUsername ++ " envelope=".toList ++ employeeId
                  kind := "employee_id_mismatch" })
              else .ok (.inr { data, eventId, employeeId, type })
            | none => .ok (.inr { data, eventId, employeeId, type })
      else missing

/-! ## What is published -/

/-- `_TYPE_TO_ROUTING_KEY.get(msg_type)`. -/
def typeToRoutingKey : Json → Outcome (Option String)
  | .str type => .ok ([("status", "employee.status.updated"), ("events.check-in", "employee.checkin.recorded"),
      ("events/check-in", "employee.checkin.recorded"), ("events.incidents", "employee.incident.created"),
      ("events/incidents", "employee.incident.created")].lookup type)
  | .arr _ | .obj _ => .error (.exception "TypeError" (some "unhashable type"))
  | _ => .ok none

namespace Envelope

variable (broker : Broker) (e : Envelope)

/-- The key of an event in Redis. -/
def dedupKey : Text := "mqtt:dedup:".toList ++ broker.codec.str e.eventId

/-- The key of a position in Redis. -/
def perPosKey (idx : ℕ) : Text := e.dedupKey broker ++ ':' :: Json.natural idx

/-- The event that is republished. -/
def event (routingKey : String) : Publication where
  body := .json (.obj [("employeeId", textJson e.employeeId), ("type", e.type), ("payload", e.get "payload"),
    ("timestamp", e.get "timestamp")])
  queueName := textJson broker.employeeEventsExchange
  routingKey := .str routingKey
  headers := some (.obj [("eventId", e.eventId)])

/-- A position that is republished. -/
def position (batchSize idx : ℕ) (position : List (String × Json)) : Publication :=
  let get key := ((Json.obj position).member key).getD .null
  let tenantId := if truthy (e.get "tenantId") then [("tenantId", e.get "tenantId")] else []
  { body := .json (.obj ([("employeeId", textJson e.employeeId), ("lat", get "lat"), ("lng", get "lng"),
      ("ts", get "ts")] ++ tenantId))
    queueName := textJson broker.employeeEventsExchange
    routingKey := .str "employee.location.updated"
    headers := some (.obj ([("eventId", e.eventId), ("positionIndex", .int idx), ("batchSize", .int batchSize)] ++
      tenantId)) }

/-- The dead letter of an envelope. -/
def rejection (reason : Text) (kind : String) : Rejection := { body := .obj e.data, reason, kind }

end Envelope

/-- The exchange of a dead letter. -/
def Rejection.exchange (r : Rejection) : Json := .str ("employee.events.dlq." ++ r.kind)

/-- The dead letter of a body. -/
def Rejection.publication (r : Rejection) : Publication where
  body := .json r.body
  queueName := r.exchange
  routingKey := .str ""
  headers := some (.obj [("rejection_reason", textJson r.reason)])

/-! ## The handler -/

/-- `_to_dlq`. -/
def toDlq (codec : Codec) (reconnects delivery : ℕ) (r : Rejection) : Coro (Outcome Unit) := do
  match ← ensureExchange r.exchange "direct" with
  | .error exc => return if exc.isException then .ok () else .error exc
  | .ok () =>
    match ← publishMessage codec reconnects (some delivery) r.publication with
    | .error exc => return if exc.isException then .ok () else .error exc
    | .ok () => return .ok ()

/-- The loop of `_handle_location_batch` over the positions from `idx` on. -/
def publishPositions (broker : Broker) (reconnects delivery : ℕ) (e : Envelope) (batchSize : ℕ) :
    ℕ → List Json → Coro (Outcome Unit)
  | _, [] => .pure (.ok ())
  | idx, position :: rest => do
    match ← (Cmd.dedup delivery (e.perPosKey broker idx)).await with
    | .error exc => return .error exc
    | .ok false => publishPositions broker reconnects delivery e batchSize (idx + 1) rest
    | .ok true =>
      match position with
      | .obj members =>
        match ← publishMessage broker.codec reconnects (some delivery) (e.position broker batchSize idx members) with
        | .error exc => return .error exc
        | .ok () => publishPositions broker reconnects delivery e batchSize (idx + 1) rest
      | _ => return .error (.exception "AttributeError" (some "object has no attribute 'get'"))

/-- `_handle_location_batch`. -/
def handleLocationBatch (broker : Broker) (reconnects delivery : ℕ) (e : Envelope) : Coro (Outcome Unit) :=
  match e.positions with
  | .arr (position :: rest) =>
    if broker.maxBatchSize < (position :: rest).length then
      toDlq broker.codec reconnects delivery (e.rejection ("batch too large: ".toList ++
        Json.natural (position :: rest).length ++ " > ".toList ++ Json.integer broker.maxBatchSize) "batch_size")
    else publishPositions broker reconnects delivery e (position :: rest).length 0 (position :: rest)
  | _ => toDlq broker.codec reconnects delivery (e.rejection "empty positions array".toList "empty_batch")

/-- `_handle_envelope`. -/
def handleEnvelope (broker : Broker) (reconnects delivery : ℕ) (message : Message) (body : Decoded) :
    Coro (Outcome Unit) :=
  match broker.envelope message body with
  | .error exc => .pure (.error exc)
  | .ok (.inl r) => toDlq broker.codec reconnects delivery r
  | .ok (.inr e) => do
    match ← (Cmd.dedup delivery (e.dedupKey broker)).await with
    | .error exc => return .error exc
    | .ok isNew =>
      if e.isBatch then handleLocationBatch broker reconnects delivery e
      else if isNew then
        match typeToRoutingKey e.type with
        | .error exc => return .error exc
        | .ok none =>
          toDlq broker.codec reconnects delivery
            (e.rejection ("unknown type=".toList ++ broker.codec.str e.type) "unknown_type")
        | .ok (some routingKey) =>
          publishMessage broker.codec reconnects (some delivery) (e.event broker routingKey)
      else return .ok ()

/-! ## Bridges -/

namespace Bridge

/-- What the tasks of a bridge do: handle a delivery, or connect again. -/
inductive Call where
  | deliver (message : Message) (body : Decoded) (reconnects : ℕ)
  | monitor (reconnects : ℕ)

/-- The program of a call. A delivery gets a number first. -/
def Call.code (broker : Broker) : Call → Coro (Option (ℕ × Outcome Unit))
  | .deliver message body reconnects => do
    let delivery ← (Cmd.receive message body).await
    let r ← handleEnvelope broker reconnects delivery message body
    return some (delivery, r)
  | .monitor reconnects => do
    let _ ← ensureConnection reconnects
    return none

/-- What may happen to a bridge: its connection is closed, or it gets a Redis client. -/
inductive Disturbance where
  | disconnected
  | redis (client : Bool)

/-- The effect of a disturbance. -/
def Disturbance.apply (σ : State) : Disturbance → State
  | disconnected => { σ with connected := false, channel := none }
  | redis client => { σ with redis := client }

/-- The end of a delivery enters the history, unless its task was cancelled. -/
def note (σ : State) (p : ℕ) : Option (ℕ × Outcome Unit) → State
  | some (delivery, .ok ()) => σ.record p (.ended delivery true)
  | some (delivery, .error exc) => if exc.isException then σ.record p (.ended delivery false) else σ
  | none => σ

end Bridge

/-- The tasks of a bridge. -/
abbrev bridge (broker : Broker) : Service (machine broker) where
  Call := Bridge.Call
  Result := Option (ℕ × Outcome Unit)
  Phase := Unit
  idle := ()
  code := Bridge.Call.code broker
  phase _ _ := ()
  accepts _ _ := true
  note p _ r σ := Bridge.note σ p r
  Disturbance := Bridge.Disturbance
  disturb d σ := d.apply σ

/-- A bridge that has not seen a delivery. -/
def Broker.started (broker : Broker) : Pool (bridge broker) where
  shared := {}
  actors _ := .resting ()

end NavigatorEventbus.Brokers
