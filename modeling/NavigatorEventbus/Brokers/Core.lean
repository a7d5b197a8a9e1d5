import Mathlib.Data.Int.Log
import Mathlib.Data.Rat.Floor
import NavigatorEventbus.Bus.Core
import NavigatorEventbus.Lib.Utf8
import NavigatorEventbus.Queues.Names

/-!
# Messages of a broker

Deliveries, their headers and bodies, and what the RabbitMQ connection reads and writes of them without an
`await` (`brokers/rabbitmq/connection.py`): the retry count in a header, the decoding of a body, the encoding
of a payload.  The serializers are code of other packages.
-/

namespace NavigatorEventbus.Brokers

open Bus (Exc Outcome)

export Bus (Exc Outcome)

/-! ## Integers in texts -/

/-- The value of a digit. `beyond` knows the digits beyond ASCII. -/
def digitValue (beyond : Char → Option ℕ) (c : Char) : Option ℕ :=
  if c.isDigit then some (Json.decimalValue c) else if c.toNat < 128 then none else beyond c

/-- The number so far with the digits that follow. -/
def readDigits (beyond : Char → Option ℕ) (n : ℕ) : Text → Option ℕ
  | [] => some n
  | '_' :: c :: rest => (digitValue beyond c).bind fun d => readDigits beyond (10 * n + d) rest
  | c :: rest => (digitValue beyond c).bind fun d => readDigits beyond (10 * n + d) rest

/-- A number without a sign. -/
def readNatural (beyond : Char → Option ℕ) : Text → Option ℕ
  | [] => none
  | c :: rest => (digitValue beyond c).bind fun d => readDigits beyond d rest

/-- `int(s)`; `none` when that raises. -/
def readInt (beyond : Char → Option ℕ) (s : Text) : Option ℤ :=
  if 4300 < s.countP (fun c => (digitValue beyond c).isSome) then none
  else
    match strip s with
    | '-' :: rest => (readNatural beyond rest).map fun n : ℕ => -(n : ℤ)
    | '+' :: rest => (readNatural beyond rest).map fun n : ℕ => (n : ℤ)
    | rest => (readNatural beyond rest).map fun n : ℕ => (n : ℤ)

section Integers

variable {beyond : Char → Option ℕ}

theorem digitValue_of_isDigit {c : Char} (h : c.isDigit = true) :
    digitValue beyond c = some (Json.decimalValue c) := by
  rw [digitValue, if_pos h]

theorem readDigits_of_digits {s : Text} (h : ∀ c ∈ s, c.isDigit = true) (n : ℕ) :
    readDigits beyond n s = some (s.foldl (fun n c => 10 * n + Json.decimalValue c) n) := by
  induction s generalizing n with
  | nil => rfl
  | cons c rest ih =>
    have digit := h c (List.mem_cons_self ..)
    rw [readDigits]
    · rw [digitValue_of_isDigit digit]
      exact ih (fun c hc => h c (List.mem_cons_of_mem _ hc)) _
    · rintro d rest' rfl -
      exact absurd digit (by decide)

theorem foldl_decimal (s : Text) (n : ℕ) :
    s.foldl (fun n c => 10 * n + Json.decimalValue c) n = 10 ^ s.length * n + Json.ofDecimal s := by
  induction s generalizing n with
  | nil => simp [Json.ofDecimal]
  | cons c rest ih =>
    rw [List.foldl_cons, ih]
    simp only [Json.ofDecimal, List.reverse_cons, List.map_append, List.map_cons, List.map_nil,
      Nat.ofDigits_append, List.length_map, List.length_reverse, List.length_cons, Nat.ofDigits_singleton]
    ring

theorem readNatural_natural (n : ℕ) : readNatural beyond (Json.natural n) = some n := by
  have value := Json.ofDecimal_natural n
  have digits : ∀ c ∈ Json.natural n, c.isDigit = true := fun c hc => Json.mem_natural hc
  cases hs : Json.natural n with
  | nil => exact absurd hs (Json.natural_ne_nil n)
  | cons c rest =>
    rw [hs] at value digits
    rw [readNatural, digitValue_of_isDigit (digits c (List.mem_cons_self ..)), Option.bind_some,
      readDigits_of_digits fun c hc => digits c (List.mem_cons_of_mem _ hc)]
    have whole := foldl_decimal (c :: rest) 0
    rw [List.foldl_cons] at whole
    simpa [value] using whole

theorem strip_eq_self {s : Text} (h : ∀ c ∈ s, isStripped c = false) : strip s = s := by
  have same : ∀ {l : Text}, (∀ c ∈ l, isStripped c = false) → l.dropWhile isStripped = l := by
    intro l hl
    cases l with
    | nil => rfl
    | cons c l => rw [List.dropWhile_cons_of_neg (by simp [hl c (List.mem_cons_self ..)])]
  rw [strip, same h, same fun c hc => h c (List.mem_reverse.1 hc), List.reverse_reverse]

theorem isStripped_of_isDigit {c : Char} (h : c.isDigit = true) : isStripped c = false := by
  have bounds : 48 ≤ c.toNat ∧ c.toNat ≤ 57 := by
    unfold Char.isDigit at h
    simp only [Bool.and_eq_true, decide_eq_true_eq] at h
    exact ⟨UInt32.le_iff_toNat_le.1 h.1, UInt32.le_iff_toNat_le.1 h.2⟩
  simp only [isStripped, Bool.or_eq_false_iff, Bool.and_eq_false_iff, decide_eq_false_iff_not]
  omega

/-- `int` reads a written integer, unless it has too many digits. -/
theorem readInt_eq (n : ℤ) :
    readInt beyond (Json.integer n) =
      if 4300 < (Json.integer n).countP (fun c => (digitValue beyond c).isSome) then none else some n := by
  have digits : ∀ c ∈ Json.natural n.natAbs, c.isDigit = true := fun c hc => Json.mem_natural hc
  have solid : ∀ c ∈ Json.integer n, isStripped c = false := by
    intro c hc
    unfold Json.integer at hc
    split_ifs at hc
    · rcases List.mem_cons.1 hc with rfl | hc
      · decide
      · exact isStripped_of_isDigit (digits c hc)
    · exact isStripped_of_isDigit (digits c hc)
  rw [readInt, strip_eq_self solid]
  refine if_congr Iff.rfl rfl ?_
  by_cases negative : n < 0
  · have written : Json.integer n = '-' :: Json.natural n.natAbs := if_pos negative
    have value : -((n.natAbs : ℕ) : ℤ) = n := by omega
    simp only [written, readNatural_natural, Option.map_some, value]
  · have written : Json.integer n = Json.natural n.natAbs := if_neg negative
    have value : ((n.natAbs : ℕ) : ℤ) = n := by omega
    rw [written]
    split
    · rename_i rest hs
      exact absurd (digits '-' (hs ▸ List.mem_cons_self ..)) (by decide)
    · rename_i rest hs
      exact absurd (digits '+' (hs ▸ List.mem_cons_self ..)) (by decide)
    · rw [readNatural_natural, Option.map_some, value]

/-- What `int` reads of a written integer is this integer. -/
theorem readInt_integer {n k : ℤ} (h : readInt beyond (Json.integer n) = some k) : k = n := by
  rw [readInt_eq, Option.ite_none_left_eq_some, Option.some_inj] at h
  exact h.2.symm

theorem readInt_of_short {n : ℤ} (short : n.natAbs < 10 ^ 4300) : readInt beyond (Json.integer n) = some n := by
  have length : (Json.natural n.natAbs).length ≤ 4300 := by
    unfold Json.natural
    split_ifs
    · decide
    · rw [List.length_map, List.length_reverse]
      exact (Nat.digits_length_le_iff (by decide) _).2 short
  have sign : (digitValue beyond '-').isSome = false := rfl
  have few : (Json.integer n).countP (fun c => (digitValue beyond c).isSome) ≤ 4300 := by
    refine le_trans ?_ length
    unfold Json.integer
    split_ifs
    · rw [List.countP_cons_of_neg (by rw [sign]; decide)]
      exact List.countP_le_length
    · exact List.countP_le_length
  rw [readInt_eq, if_neg (not_lt.2 few)]

end Integers

/-! ## Floats -/

/-- A float. A finite one is a rational number. -/
inductive Float64 where
  | finite (q : ℚ)
  | infinite (negative : Bool)
  | nan

namespace Float64

/-- The nearest integer, the even one of two. -/
def roundEven (q : ℚ) : ℤ :=
  let below := ⌊q⌋
  if q - below < 1 / 2 ∨ (q - below = 1 / 2 ∧ below % 2 = 0) then below else below + 1

/-- The float nearest to a number that is not negative. -/
def nearest (q : ℚ) : Float64 :=
  let unit : ℚ := 2 ^ max (Int.log 2 q - 52) (-1074)
  let r := roundEven (q / unit) * unit
  if (2 : ℚ) ^ 1024 ≤ r then infinite false else finite r

/-- The opposite. -/
def neg : Float64 → Float64
  | finite q => finite (-q)
  | infinite negative => infinite (¬ negative)
  | nan => nan

/-- The float that the token of a number without a sign denotes. -/
def ofUnsigned (s : List Char) : Float64 :=
  let whole := s.takeWhile Char.isDigit
  let rest := s.dropWhile Char.isDigit
  let fraction := match rest with
    | '.' :: rest => rest.takeWhile Char.isDigit
    | _ => []
  let exponent : ℤ := match rest.dropWhile fun c => c ≠ 'e' ∧ c ≠ 'E' with
    | _ :: '-' :: digits => -(Json.ofDecimal digits : ℤ)
    | _ :: '+' :: digits => Json.ofDecimal digits
    | _ :: digits => Json.ofDecimal digits
    | [] => 0
  nearest (Json.ofDecimal (whole ++ fraction) * (10 : ℚ) ^ (exponent - fraction.length))

/-- The float that the token of a JSON number denotes. -/
def ofToken (token : String) : Float64 :=
  if token = "NaN" then nan
  else if token = "Infinity" then infinite false
  else if token = "-Infinity" then infinite true
  else
    match token.toList with
    | '-' :: rest => (ofUnsigned rest).neg
    | rest => ofUnsigned rest

/-- `n >= x`. -/
def leNat (x : Float64) (n : ℕ) : Bool :=
  match x with
  | finite q => decide (q ≤ n)
  | infinite negative => negative
  | nan => false

/-- `int(x)`; `none` when that raises. -/
def integral : Float64 → Option ℤ
  | finite q => some (if q < 0 then ⌈q⌉ else ⌊q⌋)
  | _ => none

/-- `bool(x)`. -/
def truthy : Float64 → Bool
  | finite q => decide (q ≠ 0)
  | _ => true

end Float64

/-- `bool(v)`. -/
def truthy : Json → Bool
  | .null => false
  | .bool b => b
  | .int n => decide (n ≠ 0)
  | .real token => (Float64.ofToken token).truthy
  | .str s => decide (s ≠ "")
  | .arr items => decide (items ≠ [])
  | .obj members => decide (members ≠ [])

/-! ## Deliveries -/

/-- Raw bytes. -/
abbrev Bytes := List UInt8

/-- The value of a header. A `float` is known by its integral part; it has none when it is infinite or not a
number. -/
inductive HeaderValue where
  | bytes (b : Bytes)
  | str (s : Text)
  | int (n : ℤ)
  | bool (b : Bool)
  | float (integral : Option ℤ)
  | other
  deriving DecidableEq

/-- A table of headers. -/
abbrev Headers := List (Text × HeaderValue)

/-- `headers[name] = value`. -/
def Headers.set (headers : Headers) (name : Text) (value : HeaderValue) : Headers :=
  if ∃ h ∈ headers, h.1 = name then headers.map fun h => if h.1 = name then (name, value) else h
  else headers ++ [(name, value)]

/-- `aiormq.spec.Basic.Properties`. -/
structure Properties where
  contentType : Option Text := none
  contentEncoding : Option Text := none
  headers : Option Headers := none
  deliveryMode : Option ℕ := none
  priority : Option ℕ := none
  correlationId : Option Text := none
  replyTo : Option Text := none
  expiration : Option Text := none
  messageId : Option Text := none
  timestamp : Option ℤ := none
  messageType : Option Text := none
  userId : Option Text := none
  appId : Option Text := none
  deriving DecidableEq

/-- `aiormq.abc.DeliveredMessage`, with the channel that it was delivered on. -/
structure Message where
  channel : ℕ
  deliveryTag : Option ℕ
  properties : Option Properties := none
  exchange : Option Text := none
  routingKey : Option Text := none
  body : Bytes
  deriving DecidableEq

/-- What a decoder makes of a body: JSON, a text, or an object of the application. -/
inductive Decoded where
  | json (v : Json)
  | text (s : Text)
  | object

/-- The serializers, with the digits that `int` reads beyond ASCII, the texts of floats, lists and dictionaries,
and the texts that the JSON parser gives up on. A decoder that raises has no value. -/
structure Codec where
  loads : Text → Option Json
  decode : Text → Option Decoded
  unserialize : Text → Option Decoded
  dumps : Json → Outcome Text
  beyond : Char → Option ℕ := fun _ => none
  repr : Json → Text := fun _ => []
  parserFails : Text → Option Exc := fun _ => none

/-- `str(v)`. -/
def Codec.str (codec : Codec) : Json → Text
  | .null => "None".toList
  | .bool b => (if b then "True" else "False").toList
  | .int n => Json.integer n
  | .str s => s.toList
  | v => codec.repr v

namespace Message

variable (codec : Codec) (message : Message)

/-- `message.header.properties or Properties()`. -/
def props : Properties := message.properties.getD {}

/-- `dict(properties.headers or {})`. -/
def headers : Headers := message.props.headers.getD []

/-- The retries that a header counts; it may not be a number. -/
def retryCount : Outcome ℤ :=
  match (message.headers.lookup "x-retry".toList).getD (.int 0) with
  | .bytes b =>
    match Utf8.decode b with
    | none => .error (.exception "UnicodeDecodeError" (some "invalid start byte"))
    | some s => (readInt codec.beyond s).elim (.error (.exception "ValueError" (some "invalid literal"))) .ok
  | .str s => (readInt codec.beyond s).elim (.error (.exception "ValueError" (some "invalid literal"))) .ok
  | .int n => .ok n
  | .bool b => .ok (if b then 1 else 0)
  | .float (some n) => .ok n
  | .float none => .error (.exception "ValueError" (some "cannot convert float to integer"))
  | .other => .ok 0

/-- The properties of the republished message. -/
def retryProperties (retryCount : ℤ) : Properties :=
  { message.props with
    headers := some (Headers.set message.headers "x-retry".toList (.str (Json.integer retryCount))) }

/-- `process_message`. -/
def process : Outcome Decoded :=
  let contentType := match message.props.contentType with
    | none | some [] => "text/plain".toList
    | some contentType => contentType
  match Utf8.decode message.body with
  | none => .error (.exception "UnicodeDecodeError" (some "invalid start byte"))
  | some body =>
    if contentType = "application/json".toList then .ok (((codec.loads body).map .json).getD (.text body))
    else if contentType = "application/jsonpickle".toList then .ok ((codec.decode body).getD (.text body))
    else if contentType = "application/cloudpickle".toList then .ok ((codec.unserialize body).getD (.text body))
    else if contentType = "text/plain".toList then .ok (.text body)
    else .error (.exception "RuntimeError" (some s!"Unsupported content type: {String.ofList contentType}"))

end Message

section Retries

variable {codec : Codec}

theorem lookup_set (headers : Headers) (name : Text) (value : HeaderValue) :
    (headers.set name value).lookup name = some value := by
  unfold Headers.set
  split_ifs with found
  · induction headers with
    | nil => obtain ⟨h, mem, -⟩ := found; cases mem
    | cons h headers ih =>
      rw [List.map_cons]
      by_cases hn : h.1 = name
      · simp [hn]
      · obtain ⟨h', mem, hn'⟩ := found
        rcases List.mem_cons.1 mem with rfl | rest
        · exact absurd hn' hn
        · obtain ⟨key, v⟩ := h
          have ne : (name == key) = false := by simpa using Ne.symm hn
          simp only [hn, if_false, List.lookup_cons, ne]
          exact ih ⟨h', rest, hn'⟩
  · rw [List.lookup_append]
    have none : headers.lookup name = none := by
      rw [List.lookup_eq_none_iff]
      intro h mem
      simpa using fun heq : name = h.1 => found ⟨h, mem, heq.symm⟩
    simp [none]

/-- The republished message counts the retry that it is, if its header is read at all. -/
theorem retryCount_retry {message retried : Message} {n k : ℤ}
    (hr : retried.properties = some (message.retryProperties n)) (hk : retried.retryCount codec = .ok k) :
    k = n := by
  have header : (retried.headers.lookup "x-retry".toList).getD (.int 0) = .str (Json.integer n) := by
    simp only [Message.headers, Message.props, hr, Option.getD_some, Message.retryProperties, lookup_set]
  simp only [Message.retryCount, header] at hk
  cases hread : readInt codec.beyond (Json.integer n) with
  | none => simp [hread] at hk
  | some m =>
    simp only [hread, Option.elim_some, Except.ok.injEq] at hk
    rw [← hk]
    exact readInt_integer hread

end Retries

/-! ## Payloads -/

/-- A body to publish: a JSON value, a model, a wrapper, or another value, with what its serializer or `str`
makes of it. -/
inductive Body where
  | json (v : Json)
  | model (encoded : Outcome Text)
  | wrapper (serialized : Outcome Text)
  | other (text : Outcome Text)

/-- The arguments of `publish_message`. Those beside the body, the exchange and the routing key are passed
on, the headers too. -/
structure Publication where
  body : Body
  queueName : Json
  routingKey : Json
  headers : Option Json := none
  arguments : List (String × Json) := []

/-- What goes to the exchange. -/
structure Payload where
  exchange : Json
  routingKey : Json
  body : Text
  contentType : String
  headers : List (String × Json)
  arguments : List (String × Json)

/-- The body of a publication, with its content type. -/
def Body.encode (codec : Codec) : Body → Outcome (Text × String)
  | json v =>
    match v with
    | .obj _ | .arr _ => (codec.dumps v).map fun s => (s, "application/json")
    | _ => .ok (codec.str v, "text/plain")
  | model encoded => encoded.map fun s => (s, "application/jsonpickle")
  | wrapper serialized => serialized.map fun s => (s, "application/cloudpickle")
  | other text => text.map fun s => (s, "text/plain")

namespace Publication

variable (codec : Codec) (publication : Publication)

/-- The headers after `headers.setdefault("x-retry", "0")`. -/
def retryHeaders : Outcome (List (String × Json)) :=
  match publication.headers with
  | none => .ok [("x-retry", .str "0")]
  | some (.obj headers) =>
    .ok (if ∃ h ∈ headers, h.1 = "x-retry" then headers else headers ++ [("x-retry", .str "0")])
  | some _ => .error (.exception "AttributeError" (some "object has no attribute 'setdefault'"))

/-- `{"mandatory": True, "timeout": None, **kwargs}`. -/
def args (headers : List (String × Json)) : List (String × Json) :=
  let given := (if publication.headers.isSome then [("headers", .obj headers)] else []) ++ publication.arguments
  [("mandatory", .bool true), ("timeout", .null)].filter (fun a => ¬ ∃ g ∈ given, g.1 = a.1) ++ given

/-- The payload of a publication. -/
def payload : Outcome Payload := do
  let headers ← publication.retryHeaders
  let body ← publication.body.encode codec
  return {
    exchange := publication.queueName
    routingKey := publication.routingKey
    body := body.1
    contentType := body.2
    headers
    arguments := publication.args headers }

end Publication

end NavigatorEventbus.Brokers
