import NavigatorEventbus.Brokers.Machine

/-!
# The producer

`BrokerProducer` over a RabbitMQ connection (`brokers/producer.py`): the endpoint that authenticates a request
and puts its event into the queue, and the workers that publish what they take from it.  A call of a worker is
one turn of its loop.
-/

namespace NavigatorEventbus.Brokers

open Interleave

open Bus (Exc Outcome)

/-! ## The endpoint -/

/-- The response to a request that was authorised. -/
structure Response where
  status : ℕ
  state : String
  message : Text

/-- The response to a request that is refused. -/
def unprocessable (message : String) : Response := { status := 422, state := "error", message := message.toList }

/-- The items of an object under other names, each name once. -/
def others (names : List String) (members : List (String × Json)) : List (String × Json) :=
  (members.foldr (fun m rest => if ∃ m' ∈ rest, m'.1 = m.1 then rest else m :: rest) []).filter (·.1 ∉ names)

/-- The event that the data of a request describes, or the response that refuses it. -/
def eventOf (data : Json) : Outcome (Response ⊕ Queued) :=
  match data with
  | .obj members =>
    match data.member "routing_key" with
    | none => .ok (.inl (unprocessable "routing_key is required."))
    | some routingKey =>
      if truthy routingKey then
        match data.member "body" with
        | none => .error (.exception "KeyError" (some "'body'"))
        | some body =>
          if truthy body then
            if (data.member "self").isSome then
              .error (.exception "TypeError" (some "queue_event() got multiple values for argument 'self'"))
            else
              .ok (.inr {
                body := .json body
                queueName := (data.member "queue_name").getD (.str "navigator")
                routingKey
                rest := others ["queue_name", "routing_key", "body"] members })
          else .ok (.inl (unprocessable "Message Body for Broker is required."))
      else .ok (.inl (unprocessable "routing_key is required."))
  | .arr _ => .error (.exception "TypeError" (some "pop expected at most 1 argument, got 2"))
  | _ => .error (.exception "AttributeError" (some "object has no attribute 'pop'"))

/-- The body of `event_publisher`. -/
def eventPublisher (codec : Codec) (request : Request) : Coro (Outcome Response) := do
  match ← (Cmd.json request).await with
  | .error exc => return .error exc
  | .ok data =>
    match eventOf data with
    | .error exc => return .error exc
    | .ok (.inl response) => return .ok response
    | .ok (.inr event) =>
      if ← (Cmd.enqueue event).await then
        return .ok {
          status := 200
          state := "success"
          message := "Event ".toList ++ codec.str event.queueName ++ '.' :: codec.str event.routingKey ++
            " Published Successfully.".toList }
      else
        return .ok { status := 429, state := "error", message := "Event queue is full. Please try again later.".toList }

/-- `web.HTTPUnauthorized`. -/
def httpUnauthorized (reason : Option String) : Exc := .exception "HTTPUnauthorized" reason

/-- `service_auth` around an endpoint. -/
def serviceAuth (broker : Broker) (fn : Request → Coro (Outcome Response)) (request : Request) :
    Coro (Outcome Response) :=
  if broker.authCallable then do
    match ← (Cmd.authenticate request).await with
    | .error exc => return .error (if broker.unauthorized exc then httpUnauthorized exc.text else exc)
    | .ok session =>
      match ← (Cmd.authorize request session).await with
      | .error exc => return .error exc
      | .ok () => fn request
  else .pure (.error (httpUnauthorized (some "No authentication configured")))

/-- The endpoint. -/
def endpoint (broker : Broker) (request : Request) : Coro (Outcome Response) :=
  serviceAuth broker (eventPublisher broker.codec) request

/-! ## The workers -/

namespace Queued

/-- What a worker publishes for an event. -/
def publication (event : Queued) : Publication where
  body := event.body
  queueName := event.queueName
  routingKey := event.routingKey
  headers := event.rest.lookup "headers"
  arguments := event.rest.filter fun a => a.1 ≠ "headers" ∧ a.1 ≠ "max_retries"

/-- The attempts that an event is worth. -/
def maxRetries (event : Queued) : Json := (event.rest.lookup "max_retries").getD (.int 5)

end Queued

/-- `retry_count >= max_retries`; `none` when that raises. -/
def exhausted (retryCount : ℕ) : Json → Option Bool
  | .bool b => some (decide ((if b then 1 else 0) ≤ retryCount))
  | .int n => some (decide (n ≤ retryCount))
  | .real token => some ((Float64.ofToken token).leNat retryCount)
  | _ => none

/-- The retry loop of `_event_broker` after `retryCount` failures, for as many attempts as the bound says. -/
def publishRetrying (codec : Codec) (reconnects : ℕ) (event : Queued) : ℕ → ℕ → ℕ → Coro (Outcome Unit)
  | 0, _, _ => .hang
  | fuel + 1, retryCount, retryDelay => do
    match ← publishMessage codec reconnects none event.publication with
    | .ok () =>
      (Cmd.report .published).await
      return .ok ()
    | .error exc =>
      if exc.isException then
        match exhausted (retryCount + 1) event.maxRetries with
        | none => return .error (.exception "TypeError" (some "'>=' not supported"))
        | some true =>
          (Cmd.report .failed).await
          return .ok ()
        | some false =>
          (Cmd.report (.retrying retryDelay)).await
          match ← (Cmd.sleep retryDelay).await with
          | .error exc => return .error exc
          | .ok () => publishRetrying codec reconnects event fuel (retryCount + 1) (2 * retryDelay)
      else return .error exc

/-- A turn of `_event_broker`. -/
def eventBroker (codec : Codec) (reconnects fuel : ℕ) : Coro (Outcome Unit) := do
  match ← Cmd.get.await with
  | .error exc => return .error exc
  | .ok none => return .ok ()
  | .ok (some event) =>
    let r ← publishRetrying codec reconnects event fuel 0 1
    Cmd.taskDone.await
    match r with
    | .ok () => return .ok ()
    | .error exc => return if exc.isException then .ok () else .error exc

/-! ## Producers -/

/-- What the tasks of a producer do: handle a request, put or publish an event of the application, work, or
connect again. -/
inductive Call where
  | serve (request : Request)
  | queueEvent (event : Queued)
  | publishEvent (reconnects : ℕ) (publication : Publication)
  | worker (reconnects fuel : ℕ)
  | monitor (reconnects : ℕ)

/-- The program of a call. -/
def Call.code (broker : Broker) : Call → Coro Unit
  | .serve request => do
    let _ ← endpoint broker request
  | .queueEvent event => do
    let _ ← (Cmd.enqueue event).await
  | .publishEvent reconnects publication => do
    let _ ← publishMessage broker.codec reconnects none publication
  | .worker reconnects fuel => do
    let _ ← eventBroker broker.codec reconnects fuel
  | .monitor reconnects => do
    let _ ← ensureConnection reconnects

/-- The tasks of a producer. Its connection may be closed at any time. -/
abbrev producer (broker : Broker) : Service (machine broker) where
  Call := Call
  Result := Unit
  Phase := Unit
  idle := ()
  code := Call.code broker
  phase _ _ := ()
  accepts _ _ := true
  note _ _ _ σ := σ
  Disturbance := Unit
  disturb _ σ := { σ with connected := false, channel := none }

/-- A producer that has not served a request. -/
def Broker.idle (broker : Broker) : Pool (producer broker) where
  shared := {}
  actors _ := .resting ()

end NavigatorEventbus.Brokers
