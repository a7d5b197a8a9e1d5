import NavigatorEventbus.Backend.Core
import NavigatorEventbus.Lib.Program

/-!
# The tasks of the streams backend

`publish`, `start_consumer` and `close`, a turn of the reader of a group with the handling of a message, a
pass of the sweeper, and a turn of the reader of a broadcast.  A task that is cancelled stops where it is.
-/

namespace NavigatorEventbus.Bus.Streams

open Interleave

/-- What a task raises: an `Exception`, or something that `except Exception` lets pass. -/
inductive Raised where
  | exception
  | escaped
  deriving DecidableEq

/-- A coroutine that may raise. -/
abbrev Task (α : Type) : Type := ExceptT Raised (Prog commands) α

/-- A single command. -/
def ask (c : Cmd) : Task c.Reply := ExceptT.lift (Prog.cmd (S := commands) c)

/-- The result of a call that raises when it has none. -/
def orRaise {α : Type} : Option α → Task α
  | some a => pure a
  | none => throw .exception

/-- `except Exception` around a callback, with whether it returned. -/
def isolated : Outcome Unit → Task Bool
  | .ok () => pure true
  | .error exc => if exc.isException then pure false else throw .escaped

/-- `_ensure_connection`. -/
def ensureConnection : Task Unit := do
  if ← ask .connect then return () else throw .exception

/-- `_ack`; an `XACK` that fails is logged. -/
def ack (n : ℕ) (stream : String) (id : EntryId) : Task Unit := do
  let _ ← ask (.xack n stream id)

/-- `_ensure_group`; `reading` is whether `_refresh_streams` calls it. -/
def ensureGroup (n : ℕ) (stream : String) (reading : Bool) : Task Unit := do
  if ← ask (.isReady n stream) then return ()
  else
    orRaise (← ask (.xgroupCreate n stream))
    ask (.ready n stream reading)

namespace RedisStreamsBackend

variable (backend : RedisStreamsBackend) (n : ℕ)

/-- `publish`. -/
def publish (e : Envelope) : Task Unit := do
  ensureConnection
  if !backend.broadcast then ensureGroup n (backend.streamFor e.topic) false
  orRaise (← ask (.xadd n e))

/-! ## The reader of a group -/

/-- `_handle_message`. -/
def handleMessage (stream : String) (id : EntryId) (fields : Fields) : Task Unit := do
  match ← ask (.decode n fields) with
  | none => ack n stream id
  | some e =>
    if ← orRaise (← ask (.seen n e.eventId)) then ack n stream id
    else
      ask (.hand n stream id)
      if ← isolated (← ask (.callback e)) then
        let _ ← ask (.mark n e.eventId)
        ack n stream id

/-- The messages of a stream. -/
def handleEach (stream : String) : List (EntryId × Fields) → Task Unit
  | [] => pure ()
  | (id, fields) :: messages => do
    handleMessage n stream id fields
    handleEach stream messages

/-- The result of an `XREADGROUP`. -/
def handleAll : List (String × List (EntryId × Fields)) → Task Unit
  | [] => pure ()
  | (stream, messages) :: results => do
    handleEach n stream messages
    handleAll results

/-- The groups of the streams that are not known. -/
def joinEach : List String → Task Unit
  | [] => pure ()
  | stream :: streams => do
    if !(← ask (.isKnown n stream)) then ensureGroup n stream true
    joinEach streams

/-- `_refresh_streams`. -/
def refreshStreams : Task Unit :=
  if backend.streams.isSome then pure ()
  else do
    let r ← ask (.scan n)
    joinEach n r.1
    if !r.2 then throw .exception

/-- The body of the loop of `_run_consumer`. -/
def consume : Task Unit := do
  ensureConnection
  if ← ask (.refreshDue n) then backend.refreshStreams n
  let names ← ask (.known n)
  if names.isEmpty then ask .sleep
  else
    let results ← orRaise (← ask (.xreadgroup n names))
    handleAll n results

/-! ## The sweeper -/

/-- `_park_to_dlq`. -/
def parkToDlq (stream : String) (id : EntryId) (fields : Fields) (attempts : ℕ) : Task Unit := do
  match ← ask (.decode n fields) with
  | none => ack n stream id
  | some e =>
    if backend.onDlq then
      ask (.park n stream id)
      let _ ← isolated (← ask (.dlqCallback e attempts))
    ack n stream id

/-- The messages that a pass has claimed. -/
def sweepEach (stream : String) (above : List (EntryId × ℕ)) : List (EntryId × Fields) → Task Unit
  | [] => pure ()
  | (id, fields) :: messages => do
    match above.lookup id with
    | some attempts => backend.parkToDlq n stream id fields attempts
    | none => handleMessage n stream id fields
    sweepEach stream above messages

/-- The entries over the bound. -/
def overThreshold (stream : String) : Task (List (EntryId × ℕ)) :=
  match backend.maxDeliveries with
  | none => pure []
  | some bound => do
    let pending ← orRaise (← ask (.xpendingRange n stream))
    return pending.filter fun entry => bound < entry.2

/-- The pass of `_run_sweeper` over a stream. -/
def sweepStream (stream : String) : Task Unit := do
  let above ← backend.overThreshold n stream
  let messages ← orRaise (← ask (.xautoclaim n stream))
  backend.sweepEach n stream above messages
  ask (.swept n stream)

/-- A pass over some streams. -/
def sweepAll : List String → Task Unit
  | [] => pure ()
  | stream :: streams => do
    backend.sweepStream n stream
    sweepAll streams

/-- The body of the loop of `_run_sweeper`. -/
def sweep : Task Unit := do
  ask .sleep
  ensureConnection
  backend.sweepAll n (← ask (.known n))

/-! ## The reader of a broadcast -/

/-- `_resolve_tail_id`. -/
def resolveTailId (stream : String) : Task Cursor := do
  match ← ask (.xrevrange stream) with
  | none => return .tail
  | some none => return .id 0
  | some (some id) => return .id id

/-- The streams that are not known are read from their tails on. -/
def discoverEach : List String → Task Unit
  | [] => pure ()
  | stream :: streams => do
    if ← ask (.discover n stream) then
      let cursor ← resolveTailId stream
      ask (.setCursor n stream cursor)
    discoverEach streams

/-- `_refresh_streams_broadcast`. -/
def refreshStreamsBroadcast : Task Unit :=
  if backend.streams.isSome then pure ()
  else do
    let r ← ask (.scan n)
    discoverEach n r.1
    if !r.2 then throw .exception

/-- An entry of a broadcast. -/
def broadcastEntry (stream : String) (id : EntryId) (fields : Fields) : Task Unit := do
  match ← ask (.advance n stream id fields) with
  | none => return ()
  | some e =>
    let _ ← isolated (← ask (.callback e))

/-- The entries of a stream. -/
def broadcastEach (stream : String) : List (EntryId × Fields) → Task Unit
  | [] => pure ()
  | (id, fields) :: messages => do
    broadcastEntry n stream id fields
    broadcastEach stream messages

/-- The result of an `XREAD`. -/
def broadcastAll : List (String × List (EntryId × Fields)) → Task Unit
  | [] => pure ()
  | (stream, messages) :: results => do
    broadcastEach n stream messages
    broadcastAll results

/-- The body of the loop of `_run_broadcast`. -/
def broadcastOnce : Task Unit := do
  ensureConnection
  if ← ask (.refreshDue n) then backend.refreshStreamsBroadcast n
  let names ← ask (.known n)
  if names.isEmpty then ask .sleep
  else
    let cursors ← orRaise (← ask (.cursors n))
    let asked ← ask (.beginXread n cursors)
    let results ← orRaise (← ask (.xread n asked))
    broadcastAll n results

/-! ## Loops -/

/-- A coroutine that does not raise. -/
abbrev Coro (α : Type) : Type := Prog commands α

/-- How a turn of a loop ends. -/
inductive Turn where
  | again
  | stopped
  deriving DecidableEq

/-- The end of a turn whose error path is `failed`, with whether the loop goes on. -/
def ended (failed : Coro Bool) : Except Raised Unit → Coro Turn
  | .ok () => return .again
  | .error .escaped => return .stopped
  | .error .exception => do if ← failed then return .again else return .stopped

/-- A turn of a loop. -/
def turn (body : Task Unit) (failed : Coro Bool) : Coro Turn := do
  if ← Prog.cmd (S := commands) (.running n) then
    let r ← body.run
    ended failed r
  else return .stopped

/-- A turn of `_run_consumer`. -/
def consumerTurn : Coro Turn := turn n (backend.consume n) (Prog.cmd (S := commands) (.readerFailed n))

/-- A turn of `_run_sweeper`, which a broadcast does not have. -/
def sweeperTurn : Coro Turn :=
  if backend.broadcast then return .stopped
  else turn n (backend.sweep n) (Prog.cmd (S := commands) (.running n))

/-- A turn of `_run_broadcast`. -/
def broadcastTurn : Coro Turn := turn n (backend.broadcastOnce n) (Prog.cmd (S := commands) (.running n))

/-- A turn of the reader. -/
def readerTurn : Coro Turn := if backend.broadcast then backend.broadcastTurn n else backend.consumerTurn n

/-- `_ensure_group` for some streams. -/
def ensureEach : List String → Task Unit
  | [] => pure ()
  | stream :: streams => do
    ensureGroup n stream false
    ensureEach streams

/-- `start_consumer`, until the tasks are spawned. -/
def startConsumer : Task Unit := do
  ask (.start n)
  if !backend.seeds.isEmpty then
    ensureConnection
    if backend.broadcast then discoverEach n backend.seeds else ensureEach n backend.seeds

end RedisStreamsBackend

/-! ## The tasks side by side -/

/-- What happens in Redis besides the tasks: others add entries, keys expire, and data is lost. -/
inductive Foreign where
  | add (stream : String) (fields : Fields) (maxlen : Option ℕ)
  | evict (key : String)
  | loseStream (stream : String)
  | loseGroup (stream group : String)

/-- The command of a foreign event. -/
def Foreign.cmd : Foreign → Cmd
  | add stream fields maxlen => .add stream fields maxlen
  | evict key => .evict key
  | loseStream stream => .loseStream stream
  | loseGroup stream group => .loseGroup stream group

/-- The calls of the tasks; the number is the instance. `close` cancels the tasks of the loops. -/
inductive Call where
  | start (n : ℕ)
  | close (n : ℕ)
  | publish (n : ℕ) (e : Envelope)
  | reader (n : ℕ)
  | sweeper (n : ℕ)
  | foreign (f : Foreign)

/-- What a call gives back. -/
inductive Result where
  | returned (r : Except Raised Unit)
  | turn (t : RedisStreamsBackend.Turn)

/-- The program of a call. -/
def Call.code (cfg : ℕ → RedisStreamsBackend) : Call → Prog commands Result
  | start n => do return .returned (← ((cfg n).startConsumer n).run)
  | close n => do return .returned (← (ask (.stop n)).run)
  | publish n e => do return .returned (← ((cfg n).publish n e).run)
  | reader n => do return .turn (← (cfg n).readerTurn n)
  | sweeper n => do return .turn (← (cfg n).sweeperTurn n)
  | foreign f => do
    let _ ← Prog.cmd (S := commands) f.cmd
    return .returned (.ok ())

/-- The tasks of the instances of a backend, while time passes. -/
abbrev backends (cfg : ℕ → RedisStreamsBackend) : Service (machine cfg) where
  Call := Call
  Result := Result
  Phase := Unit
  idle := ()
  code := Call.code cfg
  phase _ _ := ()
  accepts _ _ := true
  note _ _ _ σ := σ
  Disturbance := ℕ
  disturb ms σ := { σ with now := σ.now + ms }

/-- An empty Redis, with instances that are not started. -/
def start (cfg : ℕ → RedisStreamsBackend) : Pool (backends cfg) where
  shared := {}
  actors _ := .resting ()

/-- The reader of instance `n`, with its start, is the task `n`. -/
def Sole (p : ℕ) : Call → Prop
  | .start n | .reader n => p = n
  | _ => True

instance (p : ℕ) (o : Call) : Decidable (Sole p o) := by
  cases o <;> unfold Sole <;> infer_instance

namespace Shop

/-- An order with this id. -/
def order (eventId : String) : Envelope :=
  .make eventId "order.created".toList (.obj [("total", .int 3)]) .null .info .normal .null epoch

/-- The stream of the orders. -/
def orders : String := "evb:stream:order"

/-- A codec that keeps the id of an order. -/
def codec : Codec where
  encode e := [("event_id", e.eventId)]
  decode _ fields := (fields.lookup "event_id").map order
  fresh _ _ := rfl

variable {cfg : ℕ → RedisStreamsBackend}

/-- So many commands of a task. -/
def steps (p k : ℕ) (i : Input) : List (Act (backends cfg)) := List.replicate k (.exec p i)

/-- A call of a task that issues so many commands. -/
def whole (p : ℕ) (o : Call) (k : ℕ) (i : Input) : List (Act (backends cfg)) :=
  .call p o :: (steps p k i ++ [.ret p])

end Shop

end NavigatorEventbus.Bus.Streams
