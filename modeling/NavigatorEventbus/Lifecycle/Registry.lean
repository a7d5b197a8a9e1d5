import Mathlib.Data.List.Infix
import NavigatorEventbus.Bus.Core
import NavigatorEventbus.Lib.Program
import NavigatorEventbus.Queues.Names

/-!
# The registry of lifecycle events

Lifecycle events, their serialisation, and `EventRegistry.emit` (`lifecycle/base.py`, `lifecycle/registry.py`)
as a program.  Its commands are the reads of the registry, the calls of code of the application (predicates,
subscribers, serializers) and the tasks that it starts.  The names of event classes do not identify them, so
a class has a number besides.
-/

namespace NavigatorEventbus.Lifecycle

open Interleave

open Bus (Exc Outcome)

export Bus (Exc Outcome)

/-! ## Events -/

/-- `TraceContext`. -/
structure TraceContext where
  traceId : Text
  spanId : Text
  traceFlags : ℤ := 1
  traceState : Text := []
  parentSpanId : Option Text := none

/-- The value of a field. `broken` is one that `json.dumps` fails on in another way than by its type, as a
list that contains itself. -/
inductive Value where
  | null
  | bool (b : Bool)
  | int (n : ℤ)
  | real (token : String)
  | str (s : Text)
  | list (items : List Value)
  | tuple (items : List Value)
  | dict (members : List (Value × Value))
  | datetime (isoformat : Text)
  | trace (context : TraceContext)
  | object (typeName : String)
  | broken (exc : Exc)

/-- The members of a dictionary with texts as keys. -/
abbrev Dict := List (String × Value)

namespace Value

/-- The type error of `json.dumps`. -/
def notSerializable (typeName : String) : Exc :=
  .exception "TypeError" (some s!"Object of type {typeName} is not JSON serializable")

/-- What `json.dumps` says of a key. -/
def dumpsKey : Value → Outcome Unit
  | .null | .bool _ | .int _ | .real _ | .str _ => .ok ()
  | .broken exc => .error exc
  | _ => .error (.exception "TypeError" (some "keys must be str, int, float, bool or None"))

mutual

/-- Whether `json.dumps` takes a value. -/
def dumps : Value → Outcome Unit
  | .null | .bool _ | .int _ | .real _ | .str _ => .ok ()
  | .list items | .tuple items => dumpsItems items
  | .dict members => dumpsMembers members
  | .datetime _ => .error (notSerializable "datetime")
  | .trace _ => .error (notSerializable "TraceContext")
  | .object typeName => .error (notSerializable typeName)
  | .broken exc => .error exc

/-- `dumps` of the items of a list. -/
def dumpsItems : List Value → Outcome Unit
  | [] => .ok ()
  | v :: items => v.dumps >>= fun _ => dumpsItems items

/-- `dumps` of the members of a dictionary. -/
def dumpsMembers : List (Value × Value) → Outcome Unit
  | [] => .ok ()
  | (key, v) :: members => key.dumpsKey >>= fun _ => v.dumps >>= fun _ => dumpsMembers members

end

/-- `TraceContext.to_dict`. -/
def ofTrace (context : TraceContext) : Value :=
  .dict [(.str "trace_id".toList, .str context.traceId), (.str "span_id".toList, .str context.spanId),
    (.str "trace_flags".toList, .int context.traceFlags), (.str "trace_state".toList, .str context.traceState),
    (.str "parent_span_id".toList, match context.parentSpanId with | some s => .str s | none => .null)]

/-- The value of a field in the dictionary of an event. -/
def convert : Value → Value
  | .trace context => ofTrace context
  | .datetime isoformat => .str isoformat
  | .tuple items => .list items
  | v => v

end Value

/-- A class of events: its name, the classes that it derives from, itself among them, and its own `to_dict`
when it has one. -/
structure EventClass where
  number : ℕ
  name : Text
  mro : List ℕ
  override : Option (Dict → Outcome Dict) := none
  number_mem : number ∈ mro

/-- `issubclass(a, b)`. -/
def EventClass.IsSubclass (a b : EventClass) : Prop := b.number ∈ a.mro

instance (a b : EventClass) : Decidable (a.IsSubclass b) := inferInstanceAs (Decidable (_ ∈ _))

/-- An instance of a class derived from `LifecycleEvent`, with its fields in their order. -/
structure Event where
  cls : EventClass
  fields : Dict

namespace Event

variable (event : Event)

/-- `event.trace_context`. -/
def traceContext : Value := (event.fields.lookup "trace_context").getD .null

/-- `LifecycleEvent.to_dict`. -/
def baseToDict : Outcome Dict :=
  let out := event.fields.map (fun f => (f.1, f.2.convert)) ++ [("event_class", .str event.cls.name)]
  match (Value.dict (out.map fun f => (.str f.1.toList, f.2))).dumps with
  | .ok () => .ok out
  | .error (.exception "TypeError" text) =>
    .error (.exception "TypeError" (text.map fun text =>
      s!"{String.ofList event.cls.name}.to_dict() produced a non-JSON-serializable value: {text}"))
  | .error exc => .error exc

/-- `event.to_dict()`. -/
def toDict : Outcome Dict :=
  match event.cls.override with
  | none => event.baseToDict
  | some toDict => toDict event.fields

/-- Subscribers of this event are served in the reverse order. -/
def reversed : Bool := "After".toList.isPrefixOf event.cls.name || decide ("Failed".toList <:+: event.cls.name)

end Event

/-! ## The registry -/

/-- A serializer of the application; `none` skips the publish. -/
abbrev BusSerializer := Event → Outcome (Option Dict)

/-- `_Subscription`. `repr` is the `repr` of its callback. -/
structure Subscription where
  subscriptionId : ℕ
  eventType : EventClass
  repr : Outcome String
  predicate : Option (Event → Outcome Bool) := none
  forwardToBus : Bool := false
  order : ℕ
  busSerializer : Option BusSerializer := none

/-- `s.where is None or s.where(event)`. -/
def Subscription.holds (sub : Subscription) (event : Event) : Outcome Bool :=
  match sub.predicate with
  | none => .ok true
  | some holds => holds event

/-- `SubscriberErrorEvent`. -/
structure SubscriberErrorEvent where
  traceContext : Value
  failedSubscriber : String
  originalEventClass : Text
  errorType : String
  errorMessage : String
  traceback : String

/-- A task that a registry starts. -/
inductive Task where
  | bus (channel : Text) (payload : Dict)
  | error (event : SubscriberErrorEvent)
  | forward (event : Event)

/-- The state of a registry. `isGlobal` says whether it is the global one, and `globalTypes` are the event
types of the subscriptions of the global one. -/
structure State where
  subscriptions : List Subscription := []
  eventBus : Bool := false
  busChannelPrefix : Text := "lifecycle".toList
  forwardToGlobal : Bool := true
  busSerializer : Option BusSerializer := none
  isGlobal : Bool := false
  globalTypes : List EventClass := []
  tasks : List Task := []

/-- What the environment supplies with a command: how the callback of a subscriber ends, and the text of the
traceback. -/
structure Input where
  callback : Outcome Unit := .ok ()
  traceback : String := ""

/-- The commands of `emit`. -/
inductive Cmd where
  | subscriptions
  | predicate (sub : Subscription) (event : Event)
  | callback (sub : Subscription) (event : Event)
  | report (event : Event) (sub : Subscription) (exc : Exc)
  | dualEmit (sub : Subscription) (event : Event)
  | forward (event : Event)

/-- The reply of a command. -/
@[reducible] def Cmd.Reply : Cmd → Type
  | subscriptions => List Subscription
  | predicate _ _ => Outcome Bool
  | callback _ _ => Outcome Unit
  | report _ _ _ => Outcome Unit
  | dualEmit _ _ => Outcome Unit
  | forward _ => Unit

/-- The commands of a registry. -/
abbrev calls : Signature := ⟨Cmd, Cmd.Reply⟩

/-- A coroutine. -/
abbrev Coro (α : Type) : Type := Prog calls α

/-- A single command. -/
abbrev Cmd.await (c : Cmd) : Coro c.Reply := Prog.cmd (S := calls) c

namespace State

variable (σ : State)

/-- A task is started. -/
def start (task : Task) : State := { σ with tasks := σ.tasks ++ [task] }

/-- `has_subscribers` of the global registry. -/
def hasSubscribers (cls : EventClass) : Bool :=
  σ.globalTypes.any fun type => decide (cls.IsSubclass type ∨ type.IsSubclass cls)

/-- `_forward_to_global_safely`, when the registry forwards to the global one. -/
def forward (event : Event) : State :=
  if σ.forwardToGlobal ∧ ¬ σ.isGlobal ∧ σ.hasSubscribers event.cls then σ.start (.forward event) else σ

/-- The serializer for a subscription: its own, or that of the registry. -/
def serializer (sub : Subscription) : Option BusSerializer := sub.busSerializer <|> σ.busSerializer

/-- `_bus_payload`. -/
def busPayload (sub : Subscription) (event : Event) : Outcome (Option Dict) :=
  match σ.serializer sub with
  | none => event.toDict.map some
  | some serializer =>
    match serializer event with
    | .ok payload => .ok payload
    | .error exc => if exc.isException then .ok none else .error exc

/-- The publish of an event on the bus for a subscriber. -/
def dualEmit (sub : Subscription) (event : Event) : Outcome Unit × State :=
  if sub.forwardToBus ∧ σ.eventBus then
    match σ.busPayload sub event with
    | .error exc => (.error exc, σ)
    | .ok none => (.ok (), σ)
    | .ok (some payload) => (.ok (), σ.start (.bus (σ.busChannelPrefix ++ '.' :: event.cls.name) payload))
  else (.ok (), σ)

/-- The log line of a failed subscriber and `_emit_subscriber_error`. -/
def report (event : Event) (sub : Subscription) (exc : Exc) (i : Input) : Outcome Unit × State :=
  match sub.repr, exc.text with
  | .error raised, _ => (.error raised, σ)
  | .ok _, none => (.error (.exception "Exception" none), σ)
  | .ok repr, some text =>
    (.ok (), σ.start (.error
      { traceContext := event.traceContext, failedSubscriber := repr, originalEventClass := event.cls.name
        errorType := exc.typeName, errorMessage := text, traceback := i.traceback }))

/-- Execution of a command. -/
def exec (c : Cmd) (i : Input) : c.Reply × State :=
  match c with
  | .subscriptions => (σ.subscriptions, σ)
  | .predicate sub event => (sub.holds event, σ)
  | .callback _ _ => (i.callback, σ)
  | .report event sub exc => σ.report event sub exc i
  | .dualEmit sub event => σ.dualEmit sub event
  | .forward event => ((), σ.forward event)

end State

/-- A registry as a machine. -/
abbrev machine : Machine calls where
  State := State
  Input := Input
  exec _ c i σ := σ.exec c i

/-! ## Emitting -/

variable (event : Event)

/-- The subscriptions that match an event. -/
def matching : List Subscription → Coro (Outcome (List Subscription))
  | [] => .pure (.ok [])
  | sub :: rest =>
    if event.cls.IsSubclass sub.eventType then do
      match ← (Cmd.predicate sub event).await with
      | .error exc => return .error exc
      | .ok holds =>
        match ← matching rest with
        | .error exc => return .error exc
        | .ok matched => return .ok (if holds then sub :: matched else matched)
    else matching rest

/-- The handler around the callback of a subscriber. -/
def contain (sub : Subscription) : Outcome Unit → Coro (Outcome Unit)
  | .ok () => .pure (.ok ())
  | .error exc => if exc.isException then (Cmd.report event sub exc).await else .pure (.error exc)

/-- The loop over the matching subscribers. -/
def serve : List Subscription → Coro (Outcome Unit)
  | [] => .pure (.ok ())
  | sub :: rest => do
    let r ← (Cmd.callback sub event).await
    match ← contain event sub r with
    | .error exc => return .error exc
    | .ok () =>
      match ← (Cmd.dualEmit sub event).await with
      | .error exc => return .error exc
      | .ok () => serve rest

/-- The order in which the matching subscribers are served. -/
def dispatchOrder (matched : List Subscription) : List Subscription :=
  if event.reversed then matched.reverse else matched

/-- `emit`. -/
def emit : Coro (Outcome Unit) := do
  let subscriptions ← Cmd.subscriptions.await
  match ← matching event subscriptions with
  | .error exc => return .error exc
  | .ok matched =>
    -- without matching subscribers there is nothing to serve, and the event is forwarded at once
    match ← serve event (dispatchOrder event matched) with
    | .error exc => return .error exc
    | .ok () =>
      (Cmd.forward event).await
      return .ok ()

end NavigatorEventbus.Lifecycle
