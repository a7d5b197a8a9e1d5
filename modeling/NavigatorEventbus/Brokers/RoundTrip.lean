import NavigatorEventbus.Brokers.Core
import NavigatorEventbus.Lib.Utf8

/-!
# Bodies through a broker

What `publish_message` makes of a body and `process_message` of what comes back, for the Redis, RabbitMQ and SQS
connections (`brokers/redis/connection.py`, `brokers/rabbitmq/connection.py`, `brokers/sqs/connection.py`).  Texts,
lists and dictionaries come back as they went.  The bytes of msgpack do not: the Redis client decodes every
answer to a text, which `unpack` refuses, and SQS carries texts only (`givesBack_iff`).  The libraries and the
SQS client are parameters, and a text has no lone surrogates.
-/

namespace NavigatorEventbus.Brokers.RoundTrip

open Bus (Exc Outcome)

/-! ## Values and libraries -/

/-- A value of a plain kind. -/
inductive Plain where
  | null
  | bool (b : Bool)
  | int (n : ℤ)
  | float (x : Float64)
  | str (s : Text)
  | bytes (b : Bytes)
  | list (items : List Json)
  | dict (members : List (String × Json))

/-- A value that `process_message` returns. -/
inductive Value where
  | plain (v : Plain)
  | object

/-- `packed_body`, a `Union[bytes, str]`. -/
inductive Wire where
  | bytes (b : Bytes)
  | text (s : Text)

/-- The value that the JSON parser read. -/
def Plain.ofJson : Json → Plain
  | .null => .null
  | .bool b => .bool b
  | .int n => .int n
  | .real token => .float (Float64.ofToken token)
  | .str s => .str s.toList
  | .arr items => .list items
  | .obj members => .dict members

/-- The JSON value of a list or a dictionary. -/
def Plain.tree? : Plain → Option Json
  | .list items => some (.arr items)
  | .dict members => some (.obj members)
  | _ => none

/-- The kinds that are packed with msgpack. -/
def Plain.Packed : Plain → Prop
  | .str _ | .list _ | .dict _ => False
  | _ => True

def Value.ofDecoded : Decoded → Value
  | .json v => .plain (.ofJson v)
  | .text s => .plain (.str s)
  | .object => .object

/-- `v == body`. A NaN equals nothing. -/
def Value.Equals (v : Value) (body : Plain) : Prop := v = .plain body ∧ body ≠ .float .nan

/-- The serializers, with msgpack and `str` of a float or of bytes. `safe` are the values that JSON has. Each
library reads what it wrote, and `msgpack.unpackb` takes no text. -/
structure Libraries extends Codec where
  pack : Plain → Outcome Bytes
  unpack : Wire → Option Value
  text : Plain → Text
  safe : Json → Prop
  loads_dumps : ∀ {v s}, safe v → dumps v = .ok s → loads s = some v
  unpack_pack : ∀ {v b}, v.Packed → pack v = .ok b → unpack (.bytes b) = some (.plain v)
  unpack_text : ∀ s, unpack (.text s) = none

/-- `text.encode("utf-8")`. -/
def encode (s : Text) : Bytes := s.flatMap Utf8.encodeChar

theorem decode_encode (s : Text) : Utf8.decode (encode s) = some s := Utf8.decode_encode s

/-- A body to publish: a plain value, or an object with what `serialize` makes of it. -/
inductive Content where
  | plain (v : Plain)
  | model (serialized : Outcome Text)
  | wrapper (serialized : Outcome Text)
  | other (serialized : Outcome Text)

section Serializers

variable (lib : Libraries)

/-- The body that Redis and SQS are given, with its content type. -/
def packBody : Content → Outcome (Wire × Text)
  | .plain (.str s) => .ok (.text s, "text/plain".toList)
  | .plain (.list items) => (lib.dumps (.arr items)).map fun s => (.text s, "application/json".toList)
  | .plain (.dict members) => (lib.dumps (.obj members)).map fun s => (.text s, "application/json".toList)
  | .plain v => (lib.pack v).map fun b => (.bytes b, "application/msgpack".toList)
  | .model serialized | .wrapper serialized | .other serialized =>
    serialized.map fun s => (.text s, "application/cloudpickle".toList)

/-- The value that Redis and SQS make of a text: the text itself, where a library raises or the type is unknown. -/
def unpackBody (unpack : Text → Option Value) (contentType body : Text) : Value :=
  if contentType = "application/json".toList then
    ((lib.loads body).map fun v => .plain (.ofJson v)).getD (.plain (.str body))
  else if contentType = "application/msgpack".toList then (unpack body).getD (.plain (.str body))
  else if contentType = "application/jsonpickle".toList then
    ((lib.decode body).map .ofDecoded).getD (.plain (.str body))
  else if contentType = "application/cloudpickle".toList then
    ((lib.unserialize body).map .ofDecoded).getD (.plain (.str body))
  else .plain (.str body)

variable {lib} {unpack : Text → Option Value}

theorem unpackBody_json (s : Text) :
    unpackBody lib unpack "application/json".toList s =
      ((lib.loads s).map fun v => .plain (.ofJson v)).getD (.plain (.str s)) := rfl

theorem unpackBody_msgpack (s : Text) :
    unpackBody lib unpack "application/msgpack".toList s = (unpack s).getD (.plain (.str s)) := rfl

theorem unpackBody_plain (s : Text) : unpackBody lib unpack "text/plain".toList s = .plain (.str s) := rfl

end Serializers

/-! ## Redis -/

namespace Redis

/-- The fields of an entry of the stream. -/
abbrev Fields := List (Text × Wire)

/-- The fields that `publish_message` adds. -/
def publishMessage (lib : Libraries) (body : Content) : Outcome Fields :=
  (packBody lib body).map fun (packed, contentType) =>
    [("body".toList, packed), ("ContentType".toList, .text contentType)]

/-- What a client made with `decode_responses=True` and `encoding="utf-8"` sends and reads back; `none` when it
raises. -/
def received : Wire → Option Text
  | .bytes b => Utf8.decode b
  | .text s => Utf8.decode (encode s)

def receivedFields (fields : Fields) : Option (List (Text × Text)) :=
  fields.mapM fun field => do
    let name ← received (.text field.1)
    let value ← received field.2
    return (name, value)

/-- `process_message`. -/
def processMessage (lib : Libraries) (messageData : List (Text × Text)) : Value :=
  match messageData.lookup "body".toList with
  | none => .plain .null
  | some body =>
    unpackBody lib (fun s => lib.unpack (.text s))
      ((messageData.lookup "ContentType".toList).getD "text/plain".toList) body

/-- The value of a body that went through the stream. -/
def roundTrip (lib : Libraries) (body : Content) : Option Value := do
  let fields ← (publishMessage lib body).toOption
  let messageData ← receivedFields fields
  return processMessage lib messageData

theorem received_text (s : Text) : received (.text s) = some s := decode_encode s

theorem receivedFields_entry (packed : Wire) (contentType : Text) :
    receivedFields [("body".toList, packed), ("ContentType".toList, .text contentType)] =
      (received packed).map fun s => [("body".toList, s), ("ContentType".toList, contentType)] := by
  simp only [receivedFields, List.mapM_cons, List.mapM_nil, received_text]
  cases received packed <;> rfl

theorem roundTrip_eq {lib : Libraries} {body : Content} {packed : Wire} {contentType : Text}
    (h : packBody lib body = .ok (packed, contentType)) :
    roundTrip lib body =
      (received packed).map (unpackBody lib (fun s => lib.unpack (.text s)) contentType) := by
  have published : publishMessage lib body =
      .ok [("body".toList, packed), ("ContentType".toList, .text contentType)] := by
    rw [publishMessage, h]
    rfl
  rw [roundTrip, published]
  change (receivedFields [("body".toList, packed), ("ContentType".toList, .text contentType)]).bind _ = _
  rw [receivedFields_entry, Option.bind_map]
  cases received packed <;> rfl

end Redis

/-! ## SQS -/

namespace Sqs

/-- Attributes of a message: each has members such as `StringValue`. -/
abbrev Attributes := List (Text × List (Text × Text))

/-- The client with the queue behind it. Bodies of the queue are texts: bytes that the client takes come back as
the text that they encode. -/
structure Client where
  takes : Bytes → Option Text
  encode_takes : ∀ {b s}, takes b = some s → encode s = b

/-- The body of a sent message as it is received; `none` when the client refuses it. -/
def Client.received (client : Client) : Wire → Option Text
  | .bytes b => client.takes b
  | .text s => some s

/-- `attributes[name] = value`. -/
def Attributes.set (name : Text) (value : List (Text × Text)) : Attributes → Attributes
  | [] => [(name, value)]
  | (key, v) :: rest => if key = name then (key, value) :: rest else (key, v) :: Attributes.set name value rest

/-- The message that `publish_message` sends. -/
def publishMessage (lib : Libraries) (attributes : Attributes) (body : Content) : Outcome (Wire × Attributes) :=
  (packBody lib body).map fun (packed, contentType) =>
    (packed, attributes.set "ContentType".toList
      [("StringValue".toList, contentType), ("DataType".toList, "String".toList)])

/-- `process_message`. -/
def processMessage (lib : Libraries) (body : Text) (attributes : Attributes) : Value :=
  let contentType :=
    (((attributes.lookup "ContentType".toList).getD []).lookup "StringValue".toList).getD "text/plain".toList
  unpackBody lib (fun s => lib.unpack (.bytes (encode s))) contentType body

/-- The value of a body that went through the queue. -/
def roundTrip (lib : Libraries) (client : Client) (attributes : Attributes) (body : Content) : Option Value := do
  let message ← (publishMessage lib attributes body).toOption
  let received ← client.received message.1
  return processMessage lib received message.2

theorem lookup_set (name : Text) (value : List (Text × Text)) (attributes : Attributes) :
    (attributes.set name value).lookup name = some value := by
  induction attributes with
  | nil => simp [Attributes.set]
  | cons entry attributes ih =>
    obtain ⟨key, v⟩ := entry
    by_cases same : key = name
    · simp [Attributes.set, same]
    · have other : (name == key) = false := by simpa using Ne.symm same
      rw [Attributes.set, if_neg same, List.lookup_cons, other]
      exact ih

theorem roundTrip_eq {lib : Libraries} {client : Client} {body : Content} {packed : Wire} {contentType : Text}
    (attributes : Attributes) (h : packBody lib body = .ok (packed, contentType)) :
    roundTrip lib client attributes body =
      (client.received packed).map (unpackBody lib (fun s => lib.unpack (.bytes (encode s))) contentType) := by
  rw [roundTrip, publishMessage, h]
  change (client.received packed).bind _ = _
  cases client.received packed with
  | none => rfl
  | some s =>
    have read := lookup_set "ContentType".toList
      [("StringValue".toList, contentType), ("DataType".toList, "String".toList)] attributes
    simp only [Option.bind_some, Option.map_some, processMessage, read, Option.getD_some]
    rfl

end Sqs

/-! ## RabbitMQ -/

namespace Rabbitmq

/-- The body, as `publish_message` tells bodies apart. -/
def bodyOf (lib : Libraries) : Plain → Body
  | .null => .json .null
  | .bool b => .json (.bool b)
  | .int n => .json (.int n)
  | .str s => .json (.str (String.ofList s))
  | .list items => .json (.arr items)
  | .dict members => .json (.obj members)
  | v => .other (.ok (lib.text v))

/-- The header of a table as a delivery has it. -/
def headerOf : Json → HeaderValue
  | .str s => .str s.toList
  | .int n => .int n
  | .bool b => .bool b
  | .real token => .float (Float64.ofToken token).integral
  | _ => .other

/-- Where a publication goes, and the delivery it becomes. -/
structure Route where
  queueName : Text
  routingKey : Text
  channel : ℕ
  deliveryTag : ℕ

/-- What `publish_message` sends of a body. -/
def publishMessage (lib : Libraries) (route : Route) (body : Body) : Outcome Payload :=
  Publication.payload lib.toCodec {
    body
    queueName := .str (String.ofList route.queueName)
    routingKey := .str (String.ofList route.routingKey) }

/-- The delivery of a payload. -/
def delivered (route : Route) (payload : Payload) : Message where
  channel := route.channel
  deliveryTag := some route.deliveryTag
  properties := some {
    contentType := some payload.contentType.toList
    headers := some (payload.headers.map fun header => (header.1.toList, headerOf header.2))
    deliveryMode := some 2 }
  exchange := some route.queueName
  routingKey := some route.routingKey
  body := encode payload.body

/-- The value of a body that went through the exchange. -/
def roundTrip (lib : Libraries) (route : Route) (body : Body) : Option Value := do
  let payload ← (publishMessage lib route body).toOption
  let v ← ((delivered route payload).process lib.toCodec).toOption
  return .ofDecoded v

theorem process_json (lib : Libraries) (route : Route) {payload : Payload}
    (h : payload.contentType = "application/json") :
    (delivered route payload).process lib.toCodec =
      .ok (((lib.loads payload.body).map .json).getD (.text payload.body)) := by
  simp only [Message.process, delivered, Message.props, Option.getD_some, decode_encode, h]
  rfl

theorem process_plain (lib : Libraries) (route : Route) {payload : Payload}
    (h : payload.contentType = "text/plain") :
    (delivered route payload).process lib.toCodec = .ok (.text payload.body) := by
  simp only [Message.process, delivered, Message.props, Option.getD_some, decode_encode, h]
  rfl

theorem roundTrip_eq {lib : Libraries} {route : Route} {body : Body} {payload : Payload} {v : Decoded}
    (h : publishMessage lib route body = .ok payload)
    (hv : (delivered route payload).process lib.toCodec = .ok v) :
    roundTrip lib route body = some (.ofDecoded v) := by
  rw [roundTrip, h]
  change (((delivered route payload).process lib.toCodec).toOption.bind _) = _
  rw [hv]
  rfl

end Rabbitmq

/-! ## The three connections -/

inductive Connection where
  | redis
  | rabbitmq
  | sqs

/-- What a round trip depends on beside the body and the libraries. -/
structure Setup where
  client : Sqs.Client
  attributes : Sqs.Attributes
  route : Rabbitmq.Route

namespace Connection

variable (lib : Libraries) (setup : Setup)

/-- The value that `process_message` returns for a published body; `none` when none is read. -/
def roundTrip : Connection → Plain → Option Value
  | redis, body => Redis.roundTrip lib (.plain body)
  | rabbitmq, body => Rabbitmq.roundTrip lib setup.route (Rabbitmq.bodyOf lib body)
  | sqs, body => Sqs.roundTrip lib setup.client setup.attributes (.plain body)

/-- The bodies of the supported plain kinds. -/
def Supports : Connection → Plain → Prop
  | _, .str _ => True
  | _, .list items => lib.safe (.arr items)
  | _, .dict members => lib.safe (.obj members)
  | rabbitmq, _ => False
  | _, _ => True

/-- The value that comes back equals the body. -/
def GivesBack (connection : Connection) (body : Plain) : Prop :=
  ∃ v, connection.roundTrip lib setup body = some v ∧ v.Equals body

/-- The bodies that come back: texts, what JSON writes, and for SQS what it takes from msgpack. -/
def Keeps : Connection → Plain → Prop
  | _, .str _ => True
  | _, .list items => ∃ s, lib.dumps (.arr items) = .ok s
  | _, .dict members => ∃ s, lib.dumps (.obj members) = .ok s
  | sqs, v => v ≠ .float .nan ∧ ∃ b s, lib.pack v = .ok b ∧ setup.client.takes b = some s
  | _, _ => False

end Connection

section RoundTrips

variable {lib : Libraries} {setup : Setup} {body : Plain}

theorem ofJson_tree {v : Json} (tree : body.tree? = some v) : Plain.ofJson v = body := by
  cases body <;> cases tree <;> rfl

theorem packBody_tree {v : Json} (tree : body.tree? = some v) :
    packBody lib (.plain body) = (lib.dumps v).map fun s => (.text s, "application/json".toList) := by
  cases body <;> cases tree <;> rfl

theorem encode_tree {v : Json} (tree : body.tree? = some v) :
    (Rabbitmq.bodyOf lib body).encode lib.toCodec = (lib.dumps v).map fun s => (s, "application/json") := by
  cases body <;> cases tree <;> rfl

theorem packBody_packed (packed : body.Packed) :
    packBody lib (.plain body) = (lib.pack body).map fun b => (.bytes b, "application/msgpack".toList) := by
  cases body <;> first | rfl | exact packed.elim

theorem publishMessage_of_encode {route : Rabbitmq.Route} {b : Body} {s : Text} {contentType : String}
    (h : b.encode lib.toCodec = .ok (s, contentType)) :
    ∃ payload, Rabbitmq.publishMessage lib route b = .ok payload ∧ payload.body = s ∧
      payload.contentType = contentType := by
  rw [Rabbitmq.publishMessage, Publication.payload, h]
  exact ⟨_, rfl, rfl, rfl⟩

/-- A text comes back through every connection. -/
theorem roundTrip_str (connection : Connection) (s : Text) :
    connection.roundTrip lib setup (.str s) = some (.plain (.str s)) := by
  have packed : packBody lib (.plain (.str s)) = .ok (.text s, "text/plain".toList) := rfl
  cases connection with
  | redis =>
    rw [Connection.roundTrip, Redis.roundTrip_eq packed, Redis.received_text, Option.map_some, unpackBody_plain]
  | rabbitmq =>
    have encoded : (Rabbitmq.bodyOf lib (.str s)).encode lib.toCodec = .ok (s, "text/plain") := by
      simp only [Rabbitmq.bodyOf, Body.encode, Codec.str, String.toList_ofList]
    obtain ⟨payload, published, rfl, plain⟩ := @publishMessage_of_encode _ setup.route _ _ _ encoded
    exact Rabbitmq.roundTrip_eq published (Rabbitmq.process_plain lib setup.route plain)
  | sqs => rw [Connection.roundTrip, Sqs.roundTrip_eq _ packed, Sqs.Client.received, Option.map_some, unpackBody_plain]

/-- What JSON writes is read by the JSON parser, through every connection. -/
theorem roundTrip_tree (connection : Connection) {v : Json} {s : Text} (tree : body.tree? = some v)
    (written : lib.dumps v = .ok s) (read : lib.loads s = some v) :
    connection.roundTrip lib setup body = some (.plain body) := by
  have packed : packBody lib (.plain body) = .ok (.text s, "application/json".toList) := by
    rw [packBody_tree tree, written]
    rfl
  cases connection with
  | redis =>
    rw [Connection.roundTrip, Redis.roundTrip_eq packed, Redis.received_text, Option.map_some, unpackBody_json, read,
      Option.map_some, Option.getD_some, ofJson_tree tree]
  | rabbitmq =>
    have encoded : (Rabbitmq.bodyOf lib body).encode lib.toCodec = .ok (s, "application/json") := by
      rw [encode_tree tree, written]
      rfl
    obtain ⟨payload, published, rfl, json⟩ := @publishMessage_of_encode _ setup.route _ _ _ encoded
    have processed := Rabbitmq.process_json lib setup.route json
    rw [read, Option.map_some, Option.getD_some] at processed
    rw [Connection.roundTrip, Rabbitmq.roundTrip_eq published processed, Value.ofDecoded, ofJson_tree tree]
  | sqs =>
    rw [Connection.roundTrip, Sqs.roundTrip_eq _ packed, Sqs.Client.received, Option.map_some, unpackBody_json, read,
      Option.map_some, Option.getD_some, ofJson_tree tree]

/-- What JSON refuses is not published. -/
theorem roundTrip_refused (connection : Connection) {v : Json} {exc : Exc} (tree : body.tree? = some v)
    (refused : lib.dumps v = .error exc) : connection.roundTrip lib setup body = none := by
  have packed : packBody lib (.plain body) = .error exc := by
    rw [packBody_tree tree, refused]
    rfl
  cases connection with
  | redis =>
    rw [Connection.roundTrip, Redis.roundTrip, Redis.publishMessage, packed]
    rfl
  | rabbitmq =>
    have encoded : (Rabbitmq.bodyOf lib body).encode lib.toCodec = .error exc := by
      rw [encode_tree tree, refused]
      rfl
    rw [Connection.roundTrip, Rabbitmq.roundTrip, Rabbitmq.publishMessage, Publication.payload, encoded]
    rfl
  | sqs =>
    rw [Connection.roundTrip, Sqs.roundTrip, Sqs.publishMessage, packed]
    rfl

theorem givesBack_tree (connection : Connection) {v : Json} (tree : body.tree? = some v) (safe : lib.safe v) :
    connection.GivesBack lib setup body ↔ ∃ s, lib.dumps v = .ok s := by
  constructor
  · rintro ⟨w, back, -⟩
    cases written : lib.dumps v with
    | ok s => exact ⟨s, rfl⟩
    | error exc =>
      rw [roundTrip_refused connection tree written] at back
      cases back
  · rintro ⟨s, written⟩
    have finite : body ≠ .float .nan := by
      rintro rfl
      cases tree
    exact ⟨.plain body, roundTrip_tree connection tree written (lib.loads_dumps safe written), rfl, finite⟩

/-- The Redis client never gives bytes to `unpack`, so that a packed body comes back as a text, if at all. -/
theorem redis_packed {v : Value} (packed : body.Packed)
    (back : Connection.redis.roundTrip lib setup body = some v) : ∃ s, v = .plain (.str s) := by
  cases written : lib.pack body with
  | error exc =>
    rw [Connection.roundTrip, Redis.roundTrip, Redis.publishMessage, packBody_packed packed, written] at back
    cases back
  | ok b =>
    have sent : packBody lib (.plain body) = .ok (.bytes b, "application/msgpack".toList) := by
      rw [packBody_packed packed, written]
      rfl
    rw [Connection.roundTrip, Redis.roundTrip_eq sent] at back
    obtain ⟨s, -, value⟩ := Option.map_eq_some_iff.1 back
    rw [unpackBody_msgpack, lib.unpack_text, Option.getD_none] at value
    exact ⟨s, value.symm⟩

theorem not_givesBack_redis (packed : body.Packed) : ¬ Connection.redis.GivesBack lib setup body := by
  rintro ⟨v, back, rfl, -⟩
  obtain ⟨s, same⟩ := redis_packed packed back
  cases same
  exact packed

/-- SQS gives a packed body back as soon as its client takes the bytes. -/
theorem sqs_packed (packed : body.Packed) {b : Bytes} (written : lib.pack body = .ok b) :
    Connection.sqs.roundTrip lib setup body = (setup.client.takes b).map fun _ => .plain body := by
  have sent : packBody lib (.plain body) = .ok (.bytes b, "application/msgpack".toList) := by
    rw [packBody_packed packed, written]
    rfl
  rw [Connection.roundTrip, Sqs.roundTrip_eq _ sent, Sqs.Client.received]
  cases taken : setup.client.takes b with
  | none => rfl
  | some s =>
    rw [Option.map_some, Option.map_some, unpackBody_msgpack, setup.client.encode_takes taken, lib.unpack_pack packed written,
      Option.getD_some]

theorem givesBack_sqs (packed : body.Packed) :
    Connection.sqs.GivesBack lib setup body ↔
      body ≠ .float .nan ∧ ∃ b s, lib.pack body = .ok b ∧ setup.client.takes b = some s := by
  constructor
  · rintro ⟨v, back, -, finite⟩
    cases written : lib.pack body with
    | error exc =>
      rw [Connection.roundTrip, Sqs.roundTrip, Sqs.publishMessage, packBody_packed packed, written] at back
      cases back
    | ok b =>
      rw [sqs_packed packed written] at back
      obtain ⟨s, taken, -⟩ := Option.map_eq_some_iff.1 back
      exact ⟨finite, b, s, rfl, taken⟩
  · rintro ⟨finite, b, s, written, taken⟩
    refine ⟨.plain body, ?_, rfl, finite⟩
    rw [sqs_packed packed written, taken, Option.map_some]

end RoundTrips

/-- A supported body comes back equal if and only if it is a text, JSON writes it, or SQS takes its packed bytes. -/
theorem givesBack_iff (lib : Libraries) (setup : Setup) (connection : Connection) (body : Plain)
    (supported : connection.Supports lib body) :
    connection.GivesBack lib setup body ↔ connection.Keeps lib setup body := by
  cases body with
  | str s =>
    have finite : Plain.str s ≠ .float .nan := fun h => by cases h
    exact ⟨fun _ => trivial, fun _ => ⟨_, roundTrip_str connection s, rfl, finite⟩⟩
  | list items => exact givesBack_tree connection rfl supported
  | dict members => exact givesBack_tree connection rfl supported
  | _ =>
    cases connection with
    | redis =>
      constructor
      · exact not_givesBack_redis trivial
      · exact False.elim
    | rabbitmq => exact supported.elim
    | sqs => exact givesBack_sqs trivial

/-! ## Small libraries -/

/-- The bytes of `None`, of a boolean and of a small number. -/
def packSmall : Plain → Outcome Bytes
  | .null => .ok [0xc0]
  | .bool b => .ok [if b then 0xc3 else 0xc2]
  | .int n => if 0 ≤ n ∧ n < 0x80 then .ok [.ofNat n.toNat] else .error (.exception "RuntimeError" none)
  | _ => .error (.exception "RuntimeError" none)

def unpackSmall : Wire → Option Value
  | .bytes [b] =>
    if b = 0xc0 then some (.plain .null)
    else if b = 0xc2 then some (.plain (.bool false))
    else if b = 0xc3 then some (.plain (.bool true))
    else if b.toNat < 0x80 then some (.plain (.int b.toNat))
    else none
  | _ => none

theorem unpackSmall_number {n : ℕ} (h : n < 0x80) :
    unpackSmall (.bytes [.ofNat n]) = some (.plain (.int n)) := by
  have value : (UInt8.ofNat n).toNat = n := Utf8.toNat_ofNat (by omega)
  have ne : ∀ b : UInt8, 0x80 ≤ b.toNat → UInt8.ofNat n ≠ b := by
    rintro b low rfl
    omega
  rw [unpackSmall, if_neg (ne _ (by decide)), if_neg (ne _ (by decide)), if_neg (ne _ (by decide)), value, if_pos h]

theorem unpackSmall_pack {v : Plain} {b : Bytes} (h : packSmall v = .ok b) :
    unpackSmall (.bytes b) = some (.plain v) := by
  cases v with
  | null =>
    cases h
    rfl
  | bool v => cases v <;> cases h <;> rfl
  | int n =>
    rw [packSmall] at h
    split_ifs at h with small
    cases h
    rw [unpackSmall_number (by omega), Int.toNat_of_nonneg small.1]
  | _ => cases h

/-- JSON as it is printed without spaces, and msgpack for a few values. -/
def libraries : Libraries where
  loads := Json.parse
  decode _ := none
  unserialize _ := none
  dumps v := .ok (Json.print [] v)
  pack := packSmall
  unpack := unpackSmall
  text _ := []
  safe := Json.Readable
  loads_dumps := by
    rintro v s readable written
    cases written
    exact Json.parse_print (fun c hc => by cases hc) readable
  unpack_pack _ h := unpackSmall_pack h
  unpack_text _ := rfl

/-- A client that takes no bytes, and one place for all bodies. -/
def setup : Setup where
  client := ⟨fun _ => none, fun h => by cases h⟩
  attributes := []
  route := ⟨"exchange".toList, "key".toList, 1, 1⟩

theorem givesBack_order : Connection.rabbitmq.GivesBack libraries setup (.dict [("order", .arr [.int 5, .null])]) ↔
    ∃ s, libraries.dumps (.obj [("order", .arr [.int 5, .null])]) = .ok s :=
  givesBack_iff libraries setup .rabbitmq _ ⟨⟨trivial, trivial, trivial⟩, trivial⟩

/-- Redis gives the number 5 back as the control character that its byte encodes. -/
theorem number_as_text : Connection.redis.Supports libraries (.int 5) ∧
    Connection.redis.roundTrip libraries setup (.int 5) = some (.plain (.str [Char.ofNat 5])) ∧
    ¬ Connection.redis.GivesBack libraries setup (.int 5) := by
  refine ⟨trivial, ?_, not_givesBack_redis trivial⟩
  rfl

end NavigatorEventbus.Brokers.RoundTrip
