import Mathlib.Data.Rat.Defs
import NavigatorEventbus.Bus.Core
import NavigatorEventbus.Lib.IpAddress
import NavigatorEventbus.Lib.Trim
import NavigatorEventbus.Lib.Utf8
import NavigatorEventbus.Queues.Names

/-!
# Webhook receivers

The settings of a webhook receiver and the pieces of its pipeline that need no state
(`hooks/webhook/models.py`, `receiver.py`, `preprocess.py`): the client address and the allow-list, the
parser of bodies, the result of a preprocessor, the cache of delivery ids.  Signature schemes and the
preprocessor are code of the application.
-/

namespace NavigatorEventbus.Webhook

open Bus (Exc Outcome)

export Bus (Exc Outcome)

/-- Raw bytes. -/
abbrev Bytes := List UInt8

/-- The members of a Python dictionary with texts as keys. -/
abbrev Members := List (String × Json)

/-- A text as a JSON value. -/
def textJson (s : Text) : Json := .str (String.ofList s)

/-- `d.setdefault(key, value)`. -/
def setDefault (d : Members) (key : String) (value : Json) : Members :=
  if ∃ m ∈ d, m.1 = key then d else d ++ [(key, value)]

/-- `d.update(other)`. -/
def update (d other : Members) : Members :=
  other.foldl (fun d m => if ∃ m' ∈ d, m'.1 = m.1 then d.map (fun m' => if m'.1 = m.1 then m else m') else d ++ [m]) d

theorem strip_eq_trim (s : Text) : strip s = Trim.trim isStripped s := rfl

theorem strip_strip (s : Text) : strip (strip s) = strip s := Trim.trim_trim s

/-! ## Requests and responses -/

/-- The headers of a request, in the order of the wire. -/
abbrev Headers := List (Text × Text)

/-- `headers.get(name)`, whatever the case of the letters. -/
def getHeader (headers : Headers) (name : Text) : Option Text :=
  (headers.find? fun h => h.1.map Char.toLower = name.map Char.toLower).map Prod.snd

/-- A request. Its body arrives in chunks; `broken` is what the stream raises at the end instead of
ending. -/
structure Request where
  webhookId : Text
  headers : Headers
  remote : Option Text
  contentLength : Option ℕ
  method : Text := "POST".toList
  chunks : List Bytes
  broken : Option Exc := none

/-- The raw body. -/
def Request.body (request : Request) : Bytes := request.chunks.flatten

/-- A response with a JSON body. -/
structure Response where
  status : ℕ
  body : Members
  headers : List (String × String) := []

/-- `json_error`. -/
def jsonError (status : ℕ) (slug : String) (extra : Members := []) (headers : List (String × String) := []) :
    Response where
  status := status
  body := ("status", .str slug) :: extra
  headers := headers

/-- A response that tells the sender that its delivery was received. -/
def Response.Success (r : Response) : Prop := 200 ≤ r.status ∧ r.status < 300

instance (r : Response) : Decidable r.Success := inferInstanceAs (Decidable (_ ∧ _))

/-! ## Signatures -/

/-- `SignatureVerdict`. -/
inductive SignatureVerdict where
  | ok
  | missing
  | malformed
  | mismatch
  | stale
  deriving DecidableEq

/-- `SignatureCheck`. -/
structure SignatureCheck where
  verdict : SignatureVerdict
  detail : Option String := none
  deriving DecidableEq

/-- A signature scheme: `verify` of a secret, the body, the headers, the header that overrides the scheme's
own, the tolerance in seconds and the time. -/
structure SignatureScheme where
  verify : Text → Bytes → Headers → Option Text → ℕ → ℚ → Outcome SignatureCheck

/-- `_VERDICT_RESPONSES`. -/
def verdictResponse : SignatureVerdict → Response
  | .missing => jsonError 401 "unauthorized" [("reason", .str "missing_signature")]
  | .malformed => jsonError 400 "bad_signature_format"
  | .stale => jsonError 401 "unauthorized" [("reason", .str "stale")]
  | .mismatch | .ok => jsonError 401 "unauthorized"

/-! ## Endpoints -/

/-- `normalize_path`; `none` when that raises. -/
def normalizePath (value : Text) : Option Text :=
  let candidate := strip value
  if candidate = [] ∨ '\\' ∈ candidate then none
  else
    let inner := ((candidate.dropWhile (· = '/')).reverse.dropWhile (· = '/')).reverse
    if inner = [] then some ['/']
    else if ∀ segment ∈ inner.splitOn '/', segment ≠ [] ∧ segment ≠ ['.'] ∧ segment ≠ ['.', '.'] then
      some ('/' :: inner)
    else none

/-- `WebhookEndpointConfig`, as its validators leave it. `preprocessor` says whether there is one. -/
structure WebhookEndpointConfig where
  path : Text
  name : Option Text := none
  enabled : Bool := true
  secret : Option Text := none
  signatureScheme : Text := "generic".toList
  signatureHeader : Option Text := none
  requireSignature : Bool := true
  toleranceSeconds : ℕ := 300
  allowedIps : List Text := []
  trustForwardedFor : Bool := false
  eventType : Text := "received".toList
  eventTypeHeader : Option Text := none
  eventTypePrefix : Option Text := none
  preprocessor : Bool := false
  allowNonJson : Bool := true
  maxBodyBytes : Option ℕ := none
  dedupHeader : Option Text := none
  targetType : Option Text := none
  targetId : Option Text := none
  metadata : Members := []
  parsedNetworks : List IpAddress.Network := []
  path_eq : ∃ value, normalizePath value = some path
  signed : requireSignature = true → secret ≠ none ∧ secret ≠ some []
  parsed : allowedIps.mapM IpAddress.parseNetwork = some parsedNetworks
  maxBodyBytes_pos : ∀ n, maxBodyBytes = some n → 0 < n

theorem unsigned_ok : false = true → (none : Option Text) ≠ none ∧ (none : Option Text) ≠ some [] := by decide

theorem unlimited_pos : ∀ n, (none : Option ℕ) = some n → 0 < n := by simp

namespace WebhookEndpointConfig

variable (endpoint : WebhookEndpointConfig)

/-- The secret that deliveries have to be signed with. -/
def key : Option Text := if endpoint.secret = some [] then none else endpoint.secret

/-- `_delivery_id`. -/
def deliveryId (request : Request) : Option Text :=
  match endpoint.dedupHeader with
  | none | some [] => none
  | some header => getHeader request.headers header

end WebhookEndpointConfig

/-- `client_ip`. -/
def clientIp (request : Request) (trustForwardedFor : Bool) : Option Text :=
  if trustForwardedFor then
    match getHeader request.headers "X-Forwarded-For".toList with
    | some forwarded =>
      let first := strip (forwarded.takeWhile (· ≠ ','))
      if first = [] then request.remote else some first
    | none => request.remote
  else request.remote

/-- `ip_allowed`. -/
def ipAllowed (ip : Option Text) (networks : List IpAddress.Network) : Bool :=
  match networks, ip with
  | [], _ => true
  | _, none | _, some [] => false
  | networks, some ip =>
    match IpAddress.parse ip with
    | none => false
    | some address => networks.any fun network => network.contains address

/-! ## Bodies -/

/-- A parsed JSON text as a payload; `None` is not one. -/
def jsonPayload (text : Text) : Option Members :=
  match Json.parse text with
  | none | some .null => none
  | some (.obj members) => some members
  | some v => some [("data", v)]

/-- The part of a content type before its parameters. -/
def baseType (contentType : Text) : Text := (strip (contentType.takeWhile (· ≠ ';'))).map Char.toLower

/-- `parse_body`; `none` when that raises `ValueError`. -/
def parseBody (body : Bytes) (contentType : Text) (allowNonJson : Bool) : Option Members :=
  let base := baseType contentType
  let text := Utf8.decode body
  let parsed : Option Members :=
    match text with
    | none => none
    | some text =>
      if base = "application/x-www-form-urlencoded".toList then
        some ((Utf8.parseQsl text).foldl (fun d m => update d [(String.ofList m.1, textJson m.2)]) [])
      else jsonPayload text
  match parsed with
  | some payload => some payload
  | none =>
    if allowNonJson then
      some [("raw", textJson (text.getD (Utf8.hex body))), ("content_type", textJson contentType),
        ("encoding", .str (if text.isSome then "utf-8" else "hex"))]
    else none

/-! ## Preprocessors -/

/-- `WebhookContext`. -/
structure WebhookContext where
  headers : Headers
  path : Text
  remote : Option Text
  contentType : Text
  endpointName : Text
  method : Text

/-- `PreprocessResult`. -/
structure PreprocessResult where
  payload : Members := []
  eventType : Option Text := none
  task : Option Text := none
  metadata : Members := []
  ignore : Bool := false

/-- What a preprocessor returns. A value of another type is known by the name of its type. -/
inductive Returned where
  | nothing
  | result (r : PreprocessResult)
  | dict (payload : Members)
  | pair (payload : Except String Members) (eventType : Except String (Option Text))
  | other (typeName : String)

/-- `_coerce`, with the text of its `TypeError`. -/
def coerce (payload : Members) : Returned → Except String PreprocessResult
  | .nothing => .ok { payload }
  | .result r => .ok r
  | .dict payload => .ok { payload }
  | .pair (.error typeName) _ =>
    .error s!"Preprocessor 2-tuple must be (dict, str | None); first element was {typeName}"
  | .pair (.ok _) (.error typeName) =>
    .error s!"Preprocessor 2-tuple must be (dict, str | None); second element was {typeName}"
  | .pair (.ok payload) (.ok eventType) => .ok { payload, eventType }
  | .other typeName =>
    .error
      s!"Preprocessor must return None, a dict, a (dict, str | None) tuple, or a PreprocessResult; got {typeName}"

/-- The result for a preprocessor that failed: the payload as it was. -/
def failSoft (payload : Members) (typeName text : String) : PreprocessResult :=
  { payload, metadata := [("preprocessor_error", .str s!"{typeName}: {text}")] }

/-- `run_preprocessor`, where the preprocessor of the endpoint returns or raises `r`. -/
def runPreprocessor (endpoint : WebhookEndpointConfig) (payload : Members) (r : Outcome Returned) :
    Outcome PreprocessResult :=
  if endpoint.preprocessor then
    match r with
    | .ok v =>
      match coerce payload v with
      | .ok pre => .ok pre
      | .error text => .ok (failSoft payload "TypeError" text)
    | .error exc =>
      if exc.isException then
        match exc.text with
        | some text => .ok (failSoft payload exc.typeName text)
        | none => .error (.exception "Exception" none)
      else .error exc
  else .ok { payload }

/-! ## Delivery ids -/

/-- The cache of delivery ids: an `OrderedDict` with the time of each entry. -/
abbrev DedupCache := List (Text × ℚ)

/-- The key of a delivery id. -/
def fullKey (path key : Text) : Text := path ++ ':' :: key

/-- The cache without the entries at its front that are too old. -/
def DedupCache.prune (cache : DedupCache) (ttl : ℕ) (now : ℚ) : DedupCache :=
  cache.dropWhile fun entry => ¬ now - entry.2 ≤ ttl

/-- The rest of `_is_duplicate`, for a delivery id at the time `now`. -/
def DedupCache.check (cache : DedupCache) (ttl size : ℕ) (now : ℚ) (key : Text) : Bool × DedupCache :=
  let cache := cache.prune ttl now
  if ∃ entry ∈ cache, entry.1 = key then (true, cache)
  else
    let cache := cache ++ [(key, now)]
    (false, cache.drop (cache.length - size))

/-! ## Events -/

/-- `HookEvent`. -/
structure HookEvent where
  hookId : Text
  hookType : Text
  eventType : Text
  payload : Members
  metadata : Members
  targetType : Option Text
  targetId : Option Text
  task : Option Text

end NavigatorEventbus.Webhook
