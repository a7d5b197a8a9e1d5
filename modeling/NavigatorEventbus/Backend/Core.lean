import NavigatorEventbus.Backend.Codec
import NavigatorEventbus.Redis.Deliveries

/-!
# The streams backend

The settings of a `RedisStreamsBackend`, what its instances share in Redis, what each keeps for itself, and
the commands of its tasks (`backends/redis_streams.py`).  Any call of Redis may fail, with or without an
effect; what a blocking call waits for is left out, and it may return at any time.  The trimmer by age and
the connection itself are left out.
-/

namespace NavigatorEventbus.Bus.Streams

open Interleave

/-! ## Settings -/

/-- The settings of an instance of the backend. -/
structure RedisStreamsBackend where
  group : String := "evb-bus"
  consumer : String
  streamPrefix : String := "evb:stream:"
  dedupPrefix : String := "evb:events:dedup:"
  batchCount : ℕ := 32
  minIdleTime : ℤ := 60000
  maxlen : ℕ := 100000
  broadcast : Bool := false
  codec : Codec
  streamKeyFn : Option (List Char → String) := none
  streams : Option (List String) := none
  retention : Bool := false
  maxDeliveries : Option ℕ := none
  onDlq : Bool := false
  broadcast_unbounded : broadcast = true → maxDeliveries = none := by simp

namespace RedisStreamsBackend

variable (backend : RedisStreamsBackend)

/-- `_stream_for`. -/
def streamFor (topic : List Char) : String :=
  match backend.streamKeyFn with
  | some key => key topic
  | none => backend.streamPrefix ++ String.ofList (topic.takeWhile (· ≠ '.'))

/-- The dedup key of an event. -/
def dedupKey (eventId : String) : String := backend.dedupPrefix ++ eventId

/-- `if self._explicit_streams`. -/
def seeds : List String := backend.streams.getD []

/-- The fields can be decoded. -/
def Decodable (fields : Fields) : Prop := (backend.codec.decode "" fields).isSome

instance (fields : Fields) : Decidable (backend.Decodable fields) := inferInstanceAs (Decidable (_ = true))

end RedisStreamsBackend

/-! ## State -/

/-- A position in a stream that `XREAD` understands: after an entry, or `$`. -/
inductive Cursor where
  | id (id : EntryId)
  | tail
  deriving DecidableEq

/-- What an instance keeps. -/
structure Instance where
  running : Bool := false
  streams : List String := []
  groupsReady : List String := []
  lastIds : String → Option Cursor := fun _ => none

/-- What the history records. Everything but the entries that are added is about an instance, the first
number. -/
inductive Event where
  | added (stream : String) (id : EntryId) (fields : Fields)
  | ensured (inst : ℕ) (stream : String) (reading : Bool)
  | failed (inst : ℕ) (known : List String)
  | read (inst : ℕ) (stream : String)
  | listed (inst : ℕ) (stream : String) (entries : List (EntryId × ℕ))
  | claimed (inst : ℕ) (stream : String) (id : EntryId) (count : ℕ)
  | handed (inst : ℕ) (stream : String) (id : EntryId)
  | parked (inst : ℕ) (stream : String) (id : EntryId)
  | acked (inst : ℕ) (stream : String) (id : EntryId)
  | swept (inst : ℕ) (stream : String)
  | marked (inst : ℕ) (key : String)
  | discovered (inst : ℕ) (stream : String)
  | asked (inst : ℕ) (stream : String) (after : EntryId)
  deriving DecidableEq

/-- The streams and the dedup keys in Redis, its clock in milliseconds, the instances and the history. -/
structure State where
  streams : String → Stream Fields := fun _ => {}
  dedup : List String := []
  now : ℤ := 0
  instances : ℕ → Instance := fun _ => {}
  log : History Event := []

/-- How a call of Redis fails: not at all, without an effect, or after its effect. -/
inductive Fault where
  | none
  | lost
  | unanswered
  deriving DecidableEq

/-- What the environment supplies with a command: a fresh id, how a call of Redis fails, the stream names
that a call returns, whether `SCAN` fails after them, whether the refresh interval has passed, up to which
entry a stream is trimmed, and how a callback ends. -/
structure Input where
  uuid : String := ""
  fault : Fault := .none
  names : List String := []
  broken : Bool := false
  due : Bool := false
  trim : EntryId := 0
  callback : Outcome Unit := .ok ()

namespace State

variable (σ : State)

/-- A stream becomes `s`. -/
def setStream (stream : String) (s : Stream Fields) : State :=
  { σ with streams := Function.update σ.streams stream s }

/-- An instance becomes `x`. -/
def setInstance (n : ℕ) (x : Instance) : State := { σ with instances := Function.update σ.instances n x }

/-- An event enters the history. -/
def record (p : ℕ) (event : Event) : State := { σ with log := (p, event) :: σ.log }

/-- Events enter the history, the first one first. -/
def recordAll (p : ℕ) (events : List Event) : State :=
  { σ with log := (events.map fun e => (p, e)).reverse ++ σ.log }

/-- A call of Redis with this reply and effect. -/
def call {α : Type} (i : Input) (reply : α) (σ' : State) : Option α × State :=
  match i.fault with
  | .none => (some reply, σ')
  | .lost => (none, σ)
  | .unanswered => (none, σ')

/-! ## Redis -/

/-- `XADD`, with `MAXLEN ~` unless the retention is by age. -/
def xadd (p : ℕ) (stream : String) (fields : Fields) (maxlen : Option ℕ) (i : Input) : Option Unit × State :=
  let s := σ.streams stream
  let s' :=
    match maxlen with
    | some maxlen => s.add fields maxlen i.trim
    | none => s.add fields 0 0
  σ.call i () ((σ.setStream stream s').record p (.added stream (s.lastId + 1) fields))

/-- `XGROUP CREATE ... 0 MKSTREAM`, with whether the group was made or exists. -/
def xgroupCreate (stream group : String) (i : Input) : Option Unit × State :=
  let s := σ.streams stream
  σ.call i () (if (s.groups group).isSome then σ else σ.setStream stream (s.setGroup group {}))

/-- The group exists on the stream. -/
def HasGroup (group stream : String) : Prop := ((σ.streams stream).groups group).isSome

instance (group stream : String) : Decidable (σ.HasGroup group stream) :=
  inferInstanceAs (Decidable (_ = true))

/-- The entries of some streams that a consumer of a group gets. -/
def readGroup (group consumer : String) (count : ℕ) (now : ℤ) (streams : String → Stream Fields) :
    List String → List (String × List (EntryId × Fields)) × (String → Stream Fields)
  | [] => ([], streams)
  | name :: names =>
    let r := (streams name).read group consumer count now
    let rest := readGroup group consumer count now (Function.update streams name r.2) names
    ((name, r.1) :: rest.1, rest.2)

/-- `XREADGROUP` of new entries. It fails when a stream lacks the group. -/
def xreadgroup (p n : ℕ) (backend : RedisStreamsBackend) (names : List String) (i : Input) :
    Option (List (String × List (EntryId × Fields))) × State :=
  if ∀ name ∈ names, σ.HasGroup backend.group name then
    let chosen := names.filter (· ∈ i.names)
    let r := readGroup backend.group backend.consumer backend.batchCount σ.now σ.streams chosen
    σ.call i r.1 ({ σ with streams := r.2 }.recordAll p (chosen.map fun name => .read n name))
  else (none, σ)

/-- `XPENDING` with an idle time, of the whole range. -/
def xpendingRange (p n : ℕ) (backend : RedisStreamsBackend) (stream : String) (i : Input) :
    Option (List (EntryId × ℕ)) × State :=
  if σ.HasGroup backend.group stream then
    let r := (σ.streams stream).pendingIdle backend.group σ.now backend.minIdleTime backend.batchCount
    σ.call i r (σ.record p (.listed n stream r))
  else (none, σ)

/-- The delivery counter of a pending entry. -/
def counter (group stream : String) (id : EntryId) : ℕ :=
  (((σ.streams stream).group group).pending id).elim 0 Pending.timesDelivered

/-- `XAUTOCLAIM` from the beginning. The history records the counters that it finds. -/
def xautoclaim (p n : ℕ) (backend : RedisStreamsBackend) (stream : String) (i : Input) :
    Option (List (EntryId × Fields)) × State :=
  if σ.HasGroup backend.group stream then
    let r := (σ.streams stream).autoclaim backend.group backend.consumer backend.minIdleTime
      backend.batchCount σ.now
    σ.call i r.1 ((σ.setStream stream r.2).recordAll p
      (r.1.map fun m => .claimed n stream m.1 (σ.counter backend.group stream m.1)))
  else (none, σ)

/-- `XACK`. -/
def xack (p n : ℕ) (group stream : String) (id : EntryId) (i : Input) : Option Unit × State :=
  σ.call i () ((σ.setStream stream ((σ.streams stream).ack group id)).record p (.acked n stream id))

/-- `SET` of a dedup key. -/
def mark (p n : ℕ) (key : String) (i : Input) : Option Unit × State :=
  σ.call i () ({ σ with dedup := σ.dedup.insert key }.record p (.marked n key))

/-- `XREVRANGE ... COUNT 1`. -/
def xrevrange (stream : String) (i : Input) : Option (Option EntryId) × State :=
  σ.call i ((σ.streams stream).after 0).getLast? σ

/-- What an `XREAD` reads after: `$` is the last id that the stream has had. -/
def resolve (stream : String) : Cursor → EntryId
  | .id id => id
  | .tail => (σ.streams stream).lastId

/-- An `XREAD` begins to wait. -/
def beginXread (p n : ℕ) (cursors : List (String × Cursor)) : List (String × EntryId) × State :=
  let asked := cursors.map fun c => (c.1, σ.resolve c.1 c.2)
  (asked, σ.recordAll p (asked.map fun a => .asked n a.1 a.2))

/-- An `XREAD` returns the entries of some of its streams. -/
def xread (asked : List (String × EntryId)) (count : ℕ) (i : Input) :
    Option (List (String × List (EntryId × Fields))) × State :=
  σ.call i ((asked.filter fun a => a.1 ∈ i.names).map fun a =>
    (a.1, (((σ.streams a.1).after a.2).take count).filterMap fun id =>
      ((σ.streams a.1).entries id).map fun f => (id, f))) σ

/-! ## Instances -/

/-- `_groups_ready.add` and `_streams.add`. -/
def ready (p n : ℕ) (stream : String) (reading : Bool) : State :=
  let x := σ.instances n
  (σ.setInstance n { x with
    groupsReady := x.groupsReady.insert stream
    streams := if stream ∈ x.streams then x.streams else x.streams ++ [stream] }).record p
      (.ensured n stream reading)

/-- The error path of the reader of a group, with whether the reader goes on. -/
def readerFailed (p n : ℕ) : Bool × State :=
  let x := σ.instances n
  let σ := σ.record p (.failed n x.streams)
  if x.running then (true, σ.setInstance n { x with groupsReady := [] }) else (false, σ)

/-- A stream joins `_streams`, unless it is there. -/
def discover (p n : ℕ) (stream : String) : Bool × State :=
  let x := σ.instances n
  if stream ∈ x.streams then (false, σ)
  else (true, (σ.setInstance n { x with streams := x.streams ++ [stream] }).record p (.discovered n stream))

/-- `_last_ids[stream] = cursor`. -/
def setCursor (n : ℕ) (stream : String) (cursor : Cursor) : State :=
  let x := σ.instances n
  σ.setInstance n { x with lastIds := Function.update x.lastIds stream (some cursor) }

/-- `{stream: self._last_ids[stream] for stream in self._streams}`, unless a key is missing. -/
def cursors (n : ℕ) : Option (List (String × Cursor)) :=
  (σ.instances n).streams.mapM fun stream => ((σ.instances n).lastIds stream).map fun c => (stream, c)

/-- The reader of a broadcast moves on to an entry; it is handed out when it can be decoded. -/
def advance (p n : ℕ) (backend : RedisStreamsBackend) (stream : String) (id : EntryId) (fields : Fields)
    (i : Input) : Option Envelope × State :=
  let σ := σ.setCursor n stream (.id id)
  match backend.codec.decode i.uuid fields with
  | some e => (some e, σ.record p (.handed n stream id))
  | none => (none, σ)

end State

/-! ## Commands -/

/-- The commands of the tasks; the number is the instance. -/
inductive Cmd where
  | running (n : ℕ)
  | start (n : ℕ)
  | stop (n : ℕ)
  | known (n : ℕ)
  | isKnown (n : ℕ) (stream : String)
  | isReady (n : ℕ) (stream : String)
  | ready (n : ℕ) (stream : String) (reading : Bool)
  | refreshDue (n : ℕ)
  | readerFailed (n : ℕ)
  | discover (n : ℕ) (stream : String)
  | setCursor (n : ℕ) (stream : String) (cursor : Cursor)
  | cursors (n : ℕ)
  | advance (n : ℕ) (stream : String) (id : EntryId) (fields : Fields)
  | decode (n : ℕ) (fields : Fields)
  | hand (n : ℕ) (stream : String) (id : EntryId)
  | callback (e : Envelope)
  | park (n : ℕ) (stream : String) (id : EntryId)
  | dlqCallback (e : Envelope) (attempts : ℕ)
  | swept (n : ℕ) (stream : String)
  | sleep
  | connect
  | scan (n : ℕ)
  | xgroupCreate (n : ℕ) (stream : String)
  | xadd (n : ℕ) (e : Envelope)
  | xreadgroup (n : ℕ) (names : List String)
  | xpendingRange (n : ℕ) (stream : String)
  | xautoclaim (n : ℕ) (stream : String)
  | xack (n : ℕ) (stream : String) (id : EntryId)
  | seen (n : ℕ) (eventId : String)
  | mark (n : ℕ) (eventId : String)
  | xrevrange (stream : String)
  | beginXread (n : ℕ) (cursors : List (String × Cursor))
  | xread (n : ℕ) (asked : List (String × EntryId))
  | add (stream : String) (fields : Fields) (maxlen : Option ℕ)
  | evict (key : String)
  | loseStream (stream : String)
  | loseGroup (stream group : String)

namespace Cmd

/-- The reply of a command. -/
@[reducible] def Reply : Cmd → Type
  | running _ => Bool
  | start _ => Unit
  | stop _ => Unit
  | known _ => List String
  | isKnown _ _ => Bool
  | isReady _ _ => Bool
  | ready _ _ _ => Unit
  | refreshDue _ => Bool
  | readerFailed _ => Bool
  | discover _ _ => Bool
  | setCursor _ _ _ => Unit
  | cursors _ => Option (List (String × Cursor))
  | advance _ _ _ _ => Option Envelope
  | decode _ _ => Option Envelope
  | hand _ _ _ => Unit
  | callback _ => Outcome Unit
  | park _ _ _ => Unit
  | dlqCallback _ _ => Outcome Unit
  | swept _ _ => Unit
  | sleep => Unit
  | connect => Bool
  | scan _ => List String × Bool
  | xgroupCreate _ _ => Option Unit
  | xadd _ _ => Option Unit
  | xreadgroup _ _ => Option (List (String × List (EntryId × Fields)))
  | xpendingRange _ _ => Option (List (EntryId × ℕ))
  | xautoclaim _ _ => Option (List (EntryId × Fields))
  | xack _ _ _ => Option Unit
  | seen _ _ => Option Bool
  | mark _ _ => Option Unit
  | xrevrange _ => Option (Option EntryId)
  | beginXread _ _ => List (String × EntryId)
  | xread _ _ => Option (List (String × List (EntryId × Fields)))
  | add _ _ _ => Unit
  | evict _ => Unit
  | loseStream _ => Unit
  | loseGroup _ _ => Unit

end Cmd

/-- The commands of the backend. -/
abbrev commands : Signature := ⟨Cmd, Cmd.Reply⟩

namespace State

variable (cfg : ℕ → RedisStreamsBackend) (σ : State)

/-- Execution of a command by the task `p`. -/
def exec (p : ℕ) (c : Cmd) (i : Input) : c.Reply × State :=
  match c with
  | .running n => ((σ.instances n).running, σ)
  | .start n => ((), σ.setInstance n { σ.instances n with running := true })
  | .stop n => ((), σ.setInstance n { σ.instances n with running := false })
  | .known n => ((σ.instances n).streams, σ)
  | .isKnown n stream => (decide (stream ∈ (σ.instances n).streams), σ)
  | .isReady n stream => (decide (stream ∈ (σ.instances n).groupsReady), σ)
  | .ready n stream reading => ((), σ.ready p n stream reading)
  | .refreshDue n => ((σ.instances n).streams.isEmpty || i.due, σ)
  | .readerFailed n => σ.readerFailed p n
  | .discover n stream => σ.discover p n stream
  | .setCursor n stream cursor => ((), σ.setCursor n stream cursor)
  | .cursors n => (σ.cursors n, σ)
  | .advance n stream id fields => σ.advance p n (cfg n) stream id fields i
  | .decode n fields => ((cfg n).codec.decode i.uuid fields, σ)
  | .hand n stream id => ((), σ.record p (.handed n stream id))
  | .callback _ => (i.callback, σ)
  | .park n stream id => ((), σ.record p (.parked n stream id))
  | .dlqCallback _ _ => (i.callback, σ)
  | .swept n stream => ((), σ.record p (.swept n stream))
  | .sleep => ((), σ)
  | .connect => (i.fault = .none, σ)
  | .scan n => ((i.names.filter fun name => (cfg n).streamPrefix.toList.isPrefixOf name.toList, !i.broken), σ)
  | .xgroupCreate n stream => σ.xgroupCreate stream (cfg n).group i
  | .xadd n e => σ.xadd p ((cfg n).streamFor e.topic) ((cfg n).codec.encode e)
      (if (cfg n).retention then none else some (cfg n).maxlen) i
  | .xreadgroup n names => σ.xreadgroup p n (cfg n) names i
  | .xpendingRange n stream => σ.xpendingRange p n (cfg n) stream i
  | .xautoclaim n stream => σ.xautoclaim p n (cfg n) stream i
  | .xack n stream id => σ.xack p n (cfg n).group stream id i
  | .seen n eventId => σ.call i (decide ((cfg n).dedupKey eventId ∈ σ.dedup)) σ
  | .mark n eventId => σ.mark p n ((cfg n).dedupKey eventId) i
  | .xrevrange stream => σ.xrevrange stream i
  | .beginXread n cursors => σ.beginXread p n cursors
  | .xread n asked => σ.xread asked (cfg n).batchCount i
  | .add stream fields maxlen => ((), (σ.xadd p stream fields maxlen i).2)
  | .evict key => ((), { σ with dedup := σ.dedup.filter (· ≠ key) })
  | .loseStream stream => ((), σ.setStream stream {})
  | .loseGroup stream group =>
    ((), σ.setStream stream { σ.streams stream with
      groups := Function.update (σ.streams stream).groups group none })

end State

/-- The backend as a machine. -/
abbrev machine (cfg : ℕ → RedisStreamsBackend) : Machine commands where
  State := State
  Input := Input
  exec p c i σ := σ.exec cfg p c i

end NavigatorEventbus.Bus.Streams
