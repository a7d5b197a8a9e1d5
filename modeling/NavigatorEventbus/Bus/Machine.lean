import NavigatorEventbus.Bus.Core
import NavigatorEventbus.Lib.Program

/-!
# The commands of a bus

A task of a bus is a program whose commands are pieces of code without an `await` in between; a command
with an `await` in front is executed when the wait is over (`Ready`).  Between two commands other tasks may
run, also where the event loop would not switch: the model has every run of the program, and some more.
-/

namespace NavigatorEventbus.Bus

open Interleave

open State (Enqueued Publishing Appended Confirmed Due Taken Arrived Waited)

/-- The commands of the tasks of a bus. -/
inductive Cmd where
  | uuid
  | instant
  | publish (e : Envelope) (inMeta : Bool)
  | appended (ticket call : ℕ) (e : Envelope) (inMeta : Bool)
  | slot (call : ℕ) (e : Envelope)
  | publishMeta (topic : String) (payload : Json)
  | bootPublish
  | backendPublished (e : Envelope) (timed : Bool)
  | settled (ticket : ℕ) (e : Envelope) (confirmed timed : Bool)
  | bootRelay
  | relayGoesOn
  | relayDue
  | relayRows (ticket : ℕ) (timed : Bool)
  | relayPick (e : Envelope)
  | relayStats
  | relayRefreshed (ticket : ℕ) (timed : Bool)
  | boot
  | acquire
  | acquired
  | take
  | endDispatch
  | matching (topic : List Char)
  | filter (sub : Subscription) (e : Envelope)
  | handler (sub : Subscription) (e : Envelope) (attempt : ℕ)
  | sleep
  | deadLetter (e : Envelope) (sub : Subscription) (attempts : ℕ) (error : Exc)
  | callback
  | persist (e : Envelope) (failure : Failure)
  | arrive (e : Envelope)
  | start (inMeta : Bool)
  | consumerStarted
  | spawnRelay
  | beginClose
  | drained (drainTimeout : Json)
  | runnerDone
  | runnerEnded
  | stopRelay
  | relayEnded
  | publishesEnded
  | timedOut
  | closeOutbox
  | outboxClosed (ticket : ℕ)
  | backendClosed
  | closed

namespace Cmd

/-- The reply of a command. -/
@[reducible] def Reply : Cmd → Type
  | uuid => String
  | instant => Instant
  | publish _ _ => Publishing
  | appended _ _ _ _ => Appended
  | slot _ _ => Outcome Unit
  | publishMeta _ _ => Bool
  | bootPublish => Option Envelope
  | backendPublished _ _ => Confirmed
  | settled _ _ _ _ => Outcome Unit
  | bootRelay => Unit
  | relayGoesOn => Bool
  | relayDue => Option ℕ
  | relayRows _ _ => Due
  | relayPick _ => Bool
  | relayStats => Option ℕ
  | relayRefreshed _ _ => Outcome Unit
  | boot => Unit
  | acquire => Bool
  | acquired => Outcome Unit
  | take => Taken
  | endDispatch => Unit
  | matching _ => List Subscription
  | filter _ _ => Outcome Bool
  | handler _ _ _ => HandlerRun
  | sleep => Outcome Unit
  | deadLetter _ _ _ _ => Unit
  | callback => Outcome Unit
  | persist _ _ => Unit
  | arrive _ => Arrived
  | start _ => Bool
  | consumerStarted => Outcome Unit
  | spawnRelay => Unit
  | beginClose => Bool
  | drained _ => Outcome Unit
  | runnerDone => Waited
  | runnerEnded => Unit
  | stopRelay => Unit
  | relayEnded => Unit
  | publishesEnded => Outcome Unit
  | timedOut => Bool
  | closeOutbox => Option ℕ
  | outboxClosed _ => Outcome Unit
  | backendClosed => Outcome Unit
  | closed => Unit

end Cmd

/-- The commands of a bus. -/
abbrev tasks : Signature := ⟨Cmd, Cmd.Reply⟩

namespace State

variable (core : BusCore) (σ : State)

/-- The end of a wait for foreign code, which a cancellation cuts short. -/
def awaited (p : ℕ) (r : Outcome Unit) : Outcome Unit × State :=
  (if σ.cancelling p then .error .cancelled else r, σ.resumed p)

/-- Execution of a command by the task `p`. -/
def exec (p : ℕ) (c : Cmd) (i : Input) : c.Reply × State :=
  match c with
  | .uuid => (i.uuid, σ)
  | .instant => (i.instant, σ)
  | .publish e inMeta => σ.publish core p e inMeta i
  | .appended ticket call e inMeta => σ.appended core p ticket call e inMeta i
  | .slot call e => σ.slot p call e
  | .publishMeta topic payload => σ.publishMeta topic payload i
  | .bootPublish => σ.bootPublish p
  | .backendPublished e timed => σ.backendPublished core p e timed i
  | .settled ticket e confirmed timed => σ.settled core p ticket e confirmed timed i
  | .bootRelay => ((), { σ.resumed p with relaySpawned := false, relayTask := some p })
  | .relayGoesOn => (!σ.stopping, σ)
  | .relayDue => σ.submit (.due i.now core.relayBatch)
  | .relayRows ticket timed => σ.relayRows core p ticket timed i
  | .relayPick e => σ.relayPick p e
  | .relayStats => σ.submit .stats
  | .relayRefreshed ticket timed => σ.relayRefreshed core p ticket timed i
  | .boot => ((), { σ.resumed p with spawned := σ.spawned - 1, live := p :: σ.live })
  | .acquire => ((σ.items.acquire p).1, { σ with items := (σ.items.acquire p).2 })
  | .acquired => σ.acquired p
  | .take => σ.take p
  | .endDispatch => ((), { σ with inFlight := σ.inFlight - 1 })
  | .matching topic => (σ.matchingSubscriptions topic, σ)
  | .filter _ _ => (i.filter, σ)
  | .handler sub _ _ =>
    ({ i.handler with expired := i.handler.expired && sub.asyncHandler && !σ.cancelling p }, σ.resumed p)
  | .sleep => σ.awaited p (.ok ())
  | .deadLetter _ _ _ _ => ((), σ)
  | .callback => (i.callback, σ.resumed p)
  | .persist e failure => ((), { σ with persists := (e, failure) :: σ.persists })
  | .arrive e => σ.arrive p e
  | .start inMeta => σ.start core inMeta
  | .consumerStarted => σ.awaited p i.backend
  | .spawnRelay => ((), { σ with relaySpawned := true })
  | .beginClose => σ.beginClose p
  | .drained drainTimeout => σ.drained core p drainTimeout i
  | .runnerDone => σ.runnerDone p
  | .runnerEnded => ((), σ.resumed p)
  | .stopRelay => ((), σ.stopRelay)
  | .relayEnded => ((), σ.resumed p)
  | .publishesEnded => σ.awaited p (.ok ())
  | .timedOut => (i.deadline, σ)
  | .closeOutbox => σ.submit .close
  | .outboxClosed ticket => σ.outboxClosed core p ticket i
  | .backendClosed => σ.awaited p i.backend
  | .closed => ((), { σ with started := false }.record p .closed)

/-- The wait in front of a command is over. The gathered fan-outs of a close are not waited for here. -/
def Ready (p : ℕ) (c : Cmd) (i : Input) : Prop :=
  match c with
  | .appended ticket _ _ _ => σ.cancelling p = true ∨ σ.Turn ticket
  | .slot _ e => σ.cancelling p = true ∨ p ∈ (σ.queues e.priority).woken ∧ ¬ (σ.queues e.priority).Full
  | .bootPublish => σ.spawnedPublishes ≠ []
  | .settled ticket _ _ timed => (σ.cancelling p || (timed && i.deadline)) = true ∨ σ.Turn ticket
  | .bootRelay => σ.relaySpawned = true
  | .relayRows ticket timed => (σ.cancelling p || (timed && i.deadline)) = true ∨ σ.Turn ticket
  | .relayRefreshed ticket timed => (σ.cancelling p || (timed && i.deadline)) = true ∨ σ.Turn ticket
  | .boot => 0 < σ.spawned
  | .acquired => σ.cancelling p = true ∨ p ∈ σ.items.granted
  | .drained _ => σ.cancelling p = true ∨ i.deadline = true ∨ σ.Drained
  | .runnerDone => σ.cancelling p = true ∨ i.deadline = true ∨ σ.Ended
  | .runnerEnded => σ.Ended
  | .relayEnded => σ.relaySpawned = false ∧ σ.relayTask = none
  | .outboxClosed ticket => σ.cancelling p = true ∨ σ.Turn ticket
  | _ => True

instance (p : ℕ) (c : Cmd) (i : Input) : Decidable (σ.Ready p c i) := by
  unfold Ready
  cases c <;> infer_instance

end State

/-- A bus as a machine. -/
abbrev machine (core : BusCore) : Machine tasks where
  State := State
  Input := Input
  exec p c i σ := σ.exec core p c i

end NavigatorEventbus.Bus
