import NavigatorEventbus.Events.Facade
import NavigatorEventbus.Queues.Config

/-!
# Entry points of external events

The three ways by which a validated event enters the bus: the gRPC servicer (`ingress/grpc.py`), the
WebSocket endpoint (`ingress/websocket.py`) and the mirror of the queue API (`queues/api.py`), with the
message that the queue stores.  Each copies the event into arguments of `emit`; the envelope that reaches
the core is compared with `to_envelope`.
-/

namespace NavigatorEventbus

open IsoTime

/-- A string that is not empty. -/
def nonEmpty (s : String) : Option String := if s = "" then none else some s

/-- The token of a bearer header. -/
def bearer (header : String) : Option String :=
  if "Bearer ".toList <+: header.toList then some (String.ofList (header.toList.drop 7)) else none

/-- `_token_matches`. -/
def tokenMatches (token : String) (candidate : Option String) : Bool := candidate = some token

/-- A value of a dict that is built from pairs. -/
def dictGet (pairs : List (String × String)) (key : String) : Option String :=
  (pairs.reverse.find? fun m => m.1 = key).map Prod.snd

/-- The arguments that an entry point copies into `emit`, with its own topic, default source and
metadata. -/
def emitIngress (bus : Facade) (uuid : String) (now : DateTime) (ingress : IngressEnvelope)
    (topic source : String) (metadata : List (String × Json)) : Emission :=
  bus.emit uuid now topic ingress.payload
    { eventId := some ingress.eventId
      timestamp := some ingress.timestamp
      source := some ((ingress.source.bind nonEmpty).getD source)
      priority := some ingress.priority
      correlationId := ingress.correlationId
      metadata := some metadata
      severity := some ingress.severity }

/-! ## gRPC -/

/-- A `PublishRequest`. -/
structure PublishRequest where
  topic : String
  payloadJson : String := ""
  eventId : String := ""
  timestamp : String := ""
  source : String := ""
  severity : Option ℤ := none
  priority : Option ℤ := none
  correlationId : String := ""
  metadataJson : String := ""
  traceContextJson : String := ""

/-- Why a request is rejected. -/
inductive Rejection where
  | malformedJson (key : String)
  | notAnObject (key : String)
  | invalidTimestamp
  | validationError
  deriving DecidableEq

/-- A JSON object in a field of the request. -/
def jsonField (key raw : String) : Except Rejection (Option (List (String × Json))) :=
  if raw = "" then .ok none
  else
    match Json.parse raw.toList with
    | none => .error (.malformedJson key)
    | some (.obj members) => .ok (some members)
    | some _ => .error (.notAnObject key)

/-- The time of the request. -/
def timestampField (py : Readings) (now : DateTime) (raw : String) : Except Rejection DateTime :=
  if raw = "" then .ok now
  else (py.fromisoformat raw.toList).elim (.error .invalidTimestamp) .ok

/-- A number of the request as a member of an enumeration. -/
def enumField {α : Type} (read : Json → Option α) (default : α) : Option ℤ → Except Rejection α
  | none => .ok default
  | some n => (read (.int n)).elim (.error .validationError) .ok

/-- Validate a request at the Pydantic boundary. -/
def validatePublishRequest (pydantic : Pydantic) (py : Readings) (uuid : String) (now : DateTime)
    (request : PublishRequest) : Except Rejection IngressEnvelope := do
  let payload ← jsonField "payload_json" request.payloadJson
  let metadata ← jsonField "metadata_json" request.metadataJson
  let traceContext ← jsonField "trace_context_json" request.traceContextJson
  let timestamp ← timestampField py now request.timestamp
  let severity ← enumField pydantic.severity .info request.severity
  let priority ← enumField pydantic.priority .normal request.priority
  if topic_ne : request.topic ≠ "" then
    .ok { topic := request.topic, payload := payload.getD [],
          eventId := (nonEmpty request.eventId).getD uuid,
          timestamp := coerceNaiveToUtc timestamp, source := nonEmpty request.source, severity, priority,
          correlationId := nonEmpty request.correlationId, traceContext, metadata := metadata.getD [],
          schemaVersion := 1, topic_ne, aware := aware_coerceNaiveToUtc timestamp }
  else .error .validationError

/-- How a call of the servicer ends. -/
inductive PublishOutcome where
  | unauthenticated
  | rejected (reason : Rejection)
  | raised (exc : BusExc)
  | accepted (eventId : String)
  deriving DecidableEq

/-- The gRPC ingress: its id and its token. -/
structure GrpcIngress where
  hookId : String
  authToken : Option String

namespace GrpcIngress

variable (hook : GrpcIngress)

/-- Check the shared token in the invocation metadata. -/
def authorized (metadata : List (String × String)) : Bool :=
  match hook.authToken.bind nonEmpty with
  | none => false
  | some token =>
    tokenMatches token (bearer ((dictGet metadata "authorization").getD "")) ||
      tokenMatches token (dictGet metadata "x-api-key")

/-- Publish a validated envelope through the facade. -/
def publish (bus : Facade) (uuid : String) (now : DateTime) (ingress : IngressEnvelope) : Emission :=
  emitIngress bus uuid now ingress ingress.topic s!"grpc:{hook.hookId}" ingress.metadata

/-- Handle one request: the envelope that reaches the core, and the outcome of the call. -/
def handle (pydantic : Pydantic) (py : Readings) (bus : Facade) (uuid : String) (now : DateTime)
    (metadata : List (String × String)) (request : PublishRequest) :
    Option EventEnvelope × PublishOutcome :=
  if hook.authorized metadata then
    match validatePublishRequest pydantic py uuid now request with
    | .error reason => (none, .rejected reason)
    | .ok ingress =>
      let emission := hook.publish bus uuid now ingress
      match emission.result with
      | .error exc => (emission.reached, .raised exc)
      | .ok () => (emission.reached, .accepted ingress.eventId)
  else (none, .unauthenticated)

end GrpcIngress

/-! ## WebSocket -/

/-- The answer to a frame. -/
inductive FrameReply where
  | rejected
  | error (text : String)
  | accepted (eventId : String)
  deriving DecidableEq

/-- The WebSocket ingress: its id and its token. -/
structure WebSocketIngress where
  hookId : String
  authToken : Option String

namespace WebSocketIngress

variable (hook : WebSocketIngress)

/-- Check the shared token of an upgrade request: its headers, then its query. -/
def authorized (authorization apiKey queryToken : Option String) : Bool :=
  match hook.authToken.bind nonEmpty with
  | none => false
  | some token =>
    tokenMatches token (bearer (authorization.getD "")) || tokenMatches token apiKey ||
      tokenMatches token queryToken

/-- The event of a frame. -/
def validateFrame (pydantic : Pydantic) (uuid : String) (now : DateTime) (raw : String) :
    Option IngressEnvelope :=
  (Json.parse raw.toList).bind (IngressEnvelope.modelValidate pydantic uuid now)

/-- Publish the event of a frame. -/
def publish (bus : Facade) (uuid : String) (now : DateTime) (ingress : IngressEnvelope) : Emission :=
  emitIngress bus uuid now ingress ingress.topic s!"ws:{hook.hookId}" ingress.metadata

/-- Validate one frame and publish: the envelope that reaches the core, and the reply. -/
def processMessage (pydantic : Pydantic) (bus : Facade) (uuid : String) (now : DateTime) (raw : String) :
    Option EventEnvelope × FrameReply :=
  match validateFrame pydantic uuid now raw with
  | none => (none, .rejected)
  | some ingress =>
    let emission := hook.publish bus uuid now ingress
    match emission.result with
    | .error _ => (emission.reached, .error "internal publish failure")
    | .ok () => (emission.reached, .accepted ingress.eventId)

/-- Handle one connection: `none` when the upgrade is refused, else what becomes of each frame; it comes
with the facade, the fresh id and the time that it finds. -/
def handleWs (pydantic : Pydantic) (authorization apiKey queryToken : Option String)
    (frames : List (Facade × String × DateTime × String)) :
    Option (List (Option EventEnvelope × FrameReply)) :=
  if hook.authorized authorization apiKey queryToken then
    some (frames.map fun (bus, uuid, now, raw) => hook.processMessage pydantic bus uuid now raw)
  else none

end WebSocketIngress

/-! ## The mirror of a queue -/

/-- A queue with its mirror. The prefix of topics is `none` when the configuration does not set it. -/
structure MirroredQueue extends QueueConfig where
  mirrorToBus : Bool := false
  topicPrefix : Option (Option String) := none

/-- Namespace applied to mirrored topics. -/
def MirroredQueue.effectiveTopicPrefix (config : MirroredQueue) : Option String :=
  config.topicPrefix.getD (some s!"queue.{config.name}")

/-- The topic of a mirrored event. -/
def MirroredQueue.mirroredTopic (config : MirroredQueue) (topic : String) : String :=
  match config.effectiveTopicPrefix.bind nonEmpty with
  | some namespaced => s!"{namespaced}.{topic}"
  | none => topic

/-- What the store makes of an envelope: the id of the message, or the text of an exception. -/
abbrev StoreSend := EventEnvelope → Except String String

/-- One message of a producer: the envelope that the store gets, what it answers, and the envelope that
reaches the core. -/
structure Sent where
  ingress : IngressEnvelope
  stored : EventEnvelope
  answer : Except String String
  reached : Option EventEnvelope

/-- How a send request ends. -/
inductive SendReply where
  | invalidPayload
  | unavailable
  | created (messageId eventId : String)
  deriving DecidableEq

namespace QueueApi

variable (config : MirroredQueue) (bus : Option Facade) (uuid : String) (now : DateTime)

/-- The metadata that a mirrored event gets; a later member replaces an earlier one of its name. -/
def queueMetadata (messageId : String) : List (String × Json) :=
  [("queue", .str config.name), ("message_id", .str messageId)]

/-- Optionally also emit onto the bus; what `emit` raises is logged. -/
def mirror (ingress : IngressEnvelope) (messageId : String) : Option EventEnvelope :=
  if config.mirrorToBus then
    match bus with
    | none => none
    | some bus =>
      (emitIngress bus uuid now ingress (config.mirroredTopic ingress.topic) s!"queue:{config.name}"
        (ingress.metadata ++ queueMetadata config messageId)).reached
  else none

/-- Append one message and mirror it. -/
def sendMessage (send : StoreSend) (ingress : IngressEnvelope) : Sent :=
  let envelope := ingress.toEnvelope
  match send envelope with
  | .error text => ⟨ingress, envelope, .error text, none⟩
  | .ok messageId => ⟨ingress, envelope, .ok messageId, mirror config bus uuid now ingress messageId⟩

/-- `_handle_send`, once the body is read. -/
def handleSend (pydantic : Pydantic) (send : StoreSend) (data : Json) : Option Sent × SendReply :=
  match IngressEnvelope.modelValidate pydantic uuid now data with
  | none => (none, .invalidPayload)
  | some ingress =>
    let sent := sendMessage config bus uuid now send ingress
    match sent.answer with
    | .error _ => (some sent, .unavailable)
    | .ok messageId => (some sent, .created messageId ingress.eventId)

/-- `_handle_send_batch`, once the batch is validated: its entries one after another, each with the store
and the facade that it finds. -/
def handleSendBatch (entries : List (StoreSend × Option Facade × IngressEnvelope)) : List Sent :=
  entries.map fun (send, bus, ingress) => sendMessage config bus uuid now send ingress

end QueueApi

/-! ## What reaches the core -/

namespace IngressEnvelope

/-- The envelope of an event under the documented changes: its topic, a default of its source, and extra
metadata. -/
def entering (i : IngressEnvelope) (topic source : String) (extra : List (String × Json)) :
    EventEnvelope :=
  { i.toEnvelope with
    topic := .str topic
    source := .str ((i.source.bind nonEmpty).getD source)
    metadata := .obj (i.metadata ++ extra) }

/-- The event says nothing in the fields that the legacy `Event` lacks. -/
def LegacyShaped (i : IngressEnvelope) : Prop :=
  i.traceContext = none ∧ i.schemaVersion = envelopeSchemaVersion

variable {i : IngressEnvelope} {e : EventEnvelope} {topic source : String} {extra : List (String × Json)}

theorem coerceNaiveToUtc_timestamp (i : IngressEnvelope) : coerceNaiveToUtc i.timestamp = i.timestamp := by
  have aware := i.aware
  unfold DateTime.Aware at aware
  unfold coerceNaiveToUtc
  split
  · rfl
  · rename_i naive
    rw [naive] at aware
    cases aware

theorem orNull_obj_eq_null {context : Option (List (String × Json))} :
    orNull .obj context = .null ↔ context = none := by
  cases context <;> simp [orNull]

/-- The legacy event carries every field but the trace context and the schema version. -/
theorem emitIngress_reached {bus : Facade} {uuid : String} {now : DateTime}
    (h : (emitIngress bus uuid now i topic source (i.metadata ++ extra)).reached = some e) :
    e = { i.entering topic source extra with
          traceContext := .null
          schemaVersion := .int envelopeSchemaVersion } := by
  rw [bus.publish_reached h]
  simp only [fromLegacyEvent, EmitKwargs.event, Option.getD_some, entering, toEnvelope,
    coerceNaiveToUtc_timestamp, orNull]

/-- What reaches the core is what the documentation promises exactly when nothing was lost. -/
theorem emitIngress_faithful {bus : Facade} {uuid : String} {now : DateTime}
    (h : (emitIngress bus uuid now i topic source (i.metadata ++ extra)).reached = some e) :
    e = i.entering topic source extra ↔ i.LegacyShaped := by
  rw [emitIngress_reached h]
  constructor
  · intro same
    have trace : orNull .obj i.traceContext = .null := (congrArg EventEnvelope.traceContext same).symm
    have version : Json.int i.schemaVersion = .int envelopeSchemaVersion :=
      (congrArg EventEnvelope.schemaVersion same).symm
    exact ⟨orNull_obj_eq_null.1 trace, Json.int.inj version⟩
  · rintro ⟨trace, version⟩
    simp only [entering, toEnvelope, trace, version, orNull]

end IngressEnvelope

theorem GrpcIngress.handle_reached {hook : GrpcIngress} {pydantic : Pydantic} {py : Readings}
    {bus : Facade} {uuid : String} {now : DateTime} {metadata : List (String × String)}
    {request : PublishRequest} {e : EventEnvelope}
    (h : (hook.handle pydantic py bus uuid now metadata request).1 = some e) :
    ∃ i, validatePublishRequest pydantic py uuid now request = .ok i ∧
      (hook.publish bus uuid now i).reached = some e := by
  unfold handle at h
  split_ifs at h with authorized
  cases hv : validatePublishRequest pydantic py uuid now request with
  | error reason =>
    rw [hv] at h
    cases h
  | ok i =>
    rw [hv] at h
    refine ⟨i, rfl, ?_⟩
    dsimp only at h
    split at h <;> exact h

theorem WebSocketIngress.processMessage_reached {hook : WebSocketIngress} {pydantic : Pydantic}
    {bus : Facade} {uuid : String} {now : DateTime} {raw : String} {e : EventEnvelope}
    (h : (hook.processMessage pydantic bus uuid now raw).1 = some e) :
    ∃ i, validateFrame pydantic uuid now raw = some i ∧
      (hook.publish bus uuid now i).reached = some e := by
  unfold processMessage at h
  cases hv : validateFrame pydantic uuid now raw with
  | none =>
    rw [hv] at h
    cases h
  | some i =>
    rw [hv] at h
    refine ⟨i, rfl, ?_⟩
    dsimp only at h
    split at h <;> exact h

namespace QueueApi

variable {config : MirroredQueue} {bus : Option Facade} {uuid : String} {now : DateTime}

theorem stored_sendMessage (send : StoreSend) (i : IngressEnvelope) :
    (sendMessage config bus uuid now send i).ingress = i ∧
      (sendMessage config bus uuid now send i).stored = i.toEnvelope := by
  unfold sendMessage
  dsimp only
  split <;> exact ⟨rfl, rfl⟩

theorem reached_sendMessage {send : StoreSend} {i : IngressEnvelope} {e : EventEnvelope}
    (h : (sendMessage config bus uuid now send i).reached = some e) :
    ∃ facade messageId, (sendMessage config bus uuid now send i).answer = .ok messageId ∧
      (emitIngress facade uuid now i (config.mirroredTopic i.topic) s!"queue:{config.name}"
        (i.metadata ++ queueMetadata config messageId)).reached = some e := by
  unfold sendMessage at h ⊢
  dsimp only at h ⊢
  cases hsend : send i.toEnvelope with
  | error text =>
    rw [hsend] at h
    cases h
  | ok messageId =>
    rw [hsend] at h
    dsimp only at h
    unfold mirror at h
    split_ifs at h with mirrored
    cases bus with
    | none => cases h
    | some facade => exact ⟨facade, messageId, rfl, h⟩

theorem handleSend_sent {pydantic : Pydantic} {send : StoreSend} {data : Json} {sent : Sent}
    (h : (handleSend config bus uuid now pydantic send data).1 = some sent) :
    ∃ i, IngressEnvelope.modelValidate pydantic uuid now data = some i ∧
      sent = sendMessage config bus uuid now send i := by
  unfold handleSend at h
  cases hv : IngressEnvelope.modelValidate pydantic uuid now data with
  | none =>
    rw [hv] at h
    cases h
  | some i =>
    rw [hv] at h
    refine ⟨i, rfl, ?_⟩
    dsimp only at h
    split at h <;> exact (Option.some.inj h).symm

end QueueApi

/-- What the mirror promises of a message: the store gets the envelope itself, and the core gets it under
the documented changes exactly when the event says nothing that the legacy `Event` lacks. -/
def Sent.Mirrors (config : MirroredQueue) (sent : Sent) : Prop :=
  sent.stored = sent.ingress.toEnvelope ∧
    ∀ e, sent.reached = some e → ∃ messageId, sent.answer = .ok messageId ∧
      (e = sent.ingress.entering (config.mirroredTopic sent.ingress.topic) s!"queue:{config.name}"
          (QueueApi.queueMetadata config messageId) ↔ sent.ingress.LegacyShaped)

theorem QueueApi.mirrors_sendMessage {config : MirroredQueue} {bus : Option Facade} {uuid : String}
    {now : DateTime} (send : StoreSend) (i : IngressEnvelope) :
    (sendMessage config bus uuid now send i).Mirrors config := by
  obtain ⟨hi, stored⟩ := @stored_sendMessage config bus uuid now send i
  refine ⟨by rw [hi]; exact stored, fun e reached => ?_⟩
  obtain ⟨facade, messageId, answer, emitted⟩ := reached_sendMessage reached
  refine ⟨messageId, answer, ?_⟩
  rw [hi]
  exact i.emitIngress_faithful emitted

theorem ingress_faithful_iff (pydantic : Pydantic) (uuid : String) (now : DateTime) :
    (∀ (hook : GrpcIngress) py bus metadata request e,
      (hook.handle pydantic py bus uuid now metadata request).1 = some e →
        ∃ i, validatePublishRequest pydantic py uuid now request = .ok i ∧
          (e = i.entering i.topic s!"grpc:{hook.hookId}" [] ↔ i.LegacyShaped)) ∧
    (∀ (hook : WebSocketIngress) bus raw e,
      (hook.processMessage pydantic bus uuid now raw).1 = some e →
        ∃ i, WebSocketIngress.validateFrame pydantic uuid now raw = some i ∧
          (e = i.entering i.topic s!"ws:{hook.hookId}" [] ↔ i.LegacyShaped)) ∧
    (∀ config bus send data sent,
      (QueueApi.handleSend config bus uuid now pydantic send data).1 = some sent →
        IngressEnvelope.modelValidate pydantic uuid now data = some sent.ingress ∧ sent.Mirrors config) ∧
    ∀ config entries, ∀ sent ∈ QueueApi.handleSendBatch config uuid now entries,
      sent.Mirrors config := by
  refine ⟨?_, ?_, ?_, ?_⟩
  · intro hook py bus metadata request e h
    obtain ⟨i, validated, reached⟩ := GrpcIngress.handle_reached h
    rw [GrpcIngress.publish, ← List.append_nil i.metadata] at reached
    exact ⟨i, validated, IngressEnvelope.emitIngress_faithful reached⟩
  · intro hook bus raw e h
    obtain ⟨i, validated, reached⟩ := WebSocketIngress.processMessage_reached h
    rw [WebSocketIngress.publish, ← List.append_nil i.metadata] at reached
    exact ⟨i, validated, IngressEnvelope.emitIngress_faithful reached⟩
  · intro config bus send data sent h
    obtain ⟨i, validated, rfl⟩ := QueueApi.handleSend_sent h
    refine ⟨?_, QueueApi.mirrors_sendMessage send i⟩
    rw [(QueueApi.stored_sendMessage send i).1]
    exact validated
  · intro config entries sent mem
    obtain ⟨⟨send, bus, i⟩, -, rfl⟩ := List.mem_map.1 mem
    exact QueueApi.mirrors_sendMessage send i

namespace Traced

/-- Pydantic on integers and enumerations. -/
def pydantic : Pydantic where
  int
    | .int n => some n
    | _ => none
  datetime := fun _ => none
  severity
    | .int n => Severity.all.find? fun s => s.value = n
    | _ => none
  priority
    | .int n => EventPriority.all.find? fun p => p.value = n
    | _ => none

def py : Readings := ⟨fun _ => none, fun _ => none⟩

def now : DateTime := newYear

def hook : GrpcIngress := ⟨"edge", some "secret"⟩

def metadata : List (String × String) := [("x-api-key", "secret")]

/-- The trace context of the request. -/
def context : List (String × Json) := [("traceparent", .str "00-abc-def-01")]

def plain : PublishRequest where
  topic := "order.created"

def request : PublishRequest where
  topic := "order.created"
  traceContextJson := dumps (.obj context)

/-- A message of the other two entry points. -/
def message : Json := .obj [("topic", .str "order.created")]

theorem parse_dumps {v : Json} (readable : v.Readable) : Json.parse (dumps v).toList = some v := by
  have space : ∀ c ∈ [' '], Json.isSpace c = true := List.forall_mem_singleton.2 (by decide)
  rw [dumps, String.toList_ofList, Json.parse_print space readable]

theorem jsonField_context : jsonField "trace_context_json" request.traceContextJson = .ok (some context) := by
  have parsed : Json.parse (dumps (.obj context)).toList = some (.obj context) := parse_dumps ⟨trivial, trivial⟩
  have text : dumps (.obj context) ≠ "" := by
    intro empty
    rw [empty] at parsed
    cases parsed
  show jsonField _ (dumps (.obj context)) = _
  rw [jsonField, if_neg text, parsed]

/-- The event of the request. -/
def accepted (traceContext : Option (List (String × Json))) : IngressEnvelope where
  topic := "order.created"
  payload := []
  eventId := "e1"
  timestamp := now
  source := none
  severity := .info
  priority := .normal
  correlationId := none
  traceContext := traceContext
  metadata := []
  schemaVersion := 1
  topic_ne := by decide
  aware := rfl

theorem validate_request :
    validatePublishRequest pydantic py "e1" now request = .ok (accepted (some context)) := by
  unfold validatePublishRequest
  rw [jsonField_context]
  rfl

theorem validate_plain : validatePublishRequest pydantic py "e1" now plain = .ok (accepted none) := rfl

theorem handle_plain : hook.handle pydantic py {} "e1" now metadata plain =
    (some ((accepted none).entering "order.created" "grpc:edge" []), .accepted "e1") := by
  have allowed : hook.authorized metadata = true := by decide +kernel
  unfold GrpcIngress.handle
  rw [if_pos allowed, validate_plain]
  rfl

theorem handle_request : hook.handle pydantic py {} "e1" now metadata request =
    (some { (accepted (some context)).entering "order.created" "grpc:edge" [] with traceContext := .null },
      .accepted "e1") := by
  have allowed : hook.authorized metadata = true := by decide +kernel
  unfold GrpcIngress.handle
  rw [if_pos allowed, validate_request]
  rfl

theorem processMessage_message :
    (WebSocketIngress.processMessage ⟨"edge", some "secret"⟩ pydantic {} "e1" now (dumps message)).1 =
      some ((accepted none).entering "order.created" "ws:edge" []) := by
  have readable : message.Readable := ⟨trivial, trivial⟩
  unfold WebSocketIngress.processMessage WebSocketIngress.validateFrame
  rw [parse_dumps readable]
  rfl

/-- A queue that mirrors its messages. -/
def queue : MirroredQueue where
  name := "orders"
  groups := [{ name := "billing" }]
  mirrorToBus := true
  groups_ne := QueueConfig.brief.groups_ne
  groups_nodup := QueueConfig.brief.groups_nodup
  default_nonneg := by decide
  max_pos := by decide
  maxReceives_pos := QueueConfig.brief.maxReceives_pos
  maxlen_pos := QueueConfig.brief.maxlen_pos
  default_le_max := by decide
  delete_single := QueueConfig.brief.delete_single

end Traced

open Traced in
theorem ingress_faithful_iff_witness :
    (∃ i, validatePublishRequest pydantic py "e1" now plain = .ok i ∧
      ((accepted none).entering "order.created" "grpc:edge" [] = i.entering i.topic "grpc:edge" [] ↔
        i.LegacyShaped)) ∧
    (∃ i, WebSocketIngress.validateFrame pydantic "e1" now (dumps message) = some i ∧
      ((accepted none).entering "order.created" "ws:edge" [] = i.entering i.topic "ws:edge" [] ↔
        i.LegacyShaped)) ∧
    IngressEnvelope.modelValidate pydantic "e1" now message = some (accepted none) ∧
    Sent.Mirrors queue (QueueApi.sendMessage queue (some {}) "e1" now (fun _ => .ok "1-0") (accepted none)) :=
  ⟨(ingress_faithful_iff pydantic "e1" now).1 hook py {} metadata plain _ (congrArg Prod.fst handle_plain),
    (ingress_faithful_iff pydantic "e1" now).2.1 ⟨"edge", some "secret"⟩ {} (dumps message) _
      processMessage_message,
    (ingress_faithful_iff pydantic "e1" now).2.2.1 queue (some {}) (fun _ => .ok "1-0") message _ rfl⟩

theorem trace_context_lost : ¬ ∀ (hook : GrpcIngress) pydantic py bus uuid now metadata request i e,
    validatePublishRequest pydantic py uuid now request = .ok i →
      (hook.handle pydantic py bus uuid now metadata request).1 = some e →
        e = i.entering i.topic s!"grpc:{hook.hookId}" [] := by
  intro h
  have same := h Traced.hook Traced.pydantic Traced.py {} "e1" Traced.now Traced.metadata Traced.request _ _
    Traced.validate_request (congrArg Prod.fst Traced.handle_request)
  cases congrArg EventEnvelope.traceContext same

end NavigatorEventbus
