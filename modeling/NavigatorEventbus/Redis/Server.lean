import NavigatorEventbus.Lib.Program
import NavigatorEventbus.Redis.Streams

/-!
# The Redis server

The machine under every program of the model: the keys of one keyed queue, the streams, and the
server's clock.  A script is a program over its commands; reading a client's clock is a command too,
whose reply the environment supplies.
-/

namespace NavigatorEventbus

open Interleave

/-- The state of the server. -/
structure Server where
  keyed : Keyspace := {}
  plane : Plane := {}
  now : ℤ := 0

/-- Everything that a program does which others can observe, or that observes others. -/
inductive Cmd where
  | now
  | keyed (c : KeyedCmd)
  | stream (c : StreamCmd)

namespace Cmd

/-- The reply of a command. -/
@[reducible] def Reply : Cmd → Type
  | now => ℤ
  | keyed c => c.Reply
  | stream c => c.Reply

end Cmd

/-- The commands of the server. -/
abbrev redis : Signature := ⟨Cmd, Cmd.Reply⟩

/-- A program over the commands of the server. -/
abbrev Script (α : Type) : Type := Prog redis α

namespace Server

/-- Execution of one command by actor `p`. -/
def exec (p : ℕ) (c : Cmd) (i : Input) (σ : Server) : c.Reply × Server :=
  match c with
  | .now => (i.now, σ)
  | .keyed c => ((σ.keyed.exec p σ.now i c).1, { σ with keyed := (σ.keyed.exec p σ.now i c).2 })
  | .stream c => ((σ.plane.exec p σ.now i c).1, { σ with plane := (σ.plane.exec p σ.now i c).2 })

end Server

/-- The server as a machine. -/
abbrev server : Machine redis where
  State := Server
  Input := Input
  exec := Server.exec

/-- What the server does by itself. A lock or a marker may end at any time: the passing of time is
not tied to the TTLs here. -/
inductive Disturbance where
  | advance (ms : ℕ)
  | lapse (k : Key)
  | dropSig (k : Key)
  | endPause
  | endThrottle

namespace Server

/-- The effect of a disturbance. -/
def disturb (σ : Server) : Disturbance → Server
  | .advance ms => { σ with now := σ.now + ms }
  | .lapse k => { σ with keyed := σ.keyed.lapse k }
  | .dropSig k => { σ with plane := { σ.plane with sig := Function.update σ.plane.sig k ∅ } }
  | .endPause => { σ with plane := { σ.plane with paused := none } }
  | .endThrottle => { σ with plane := { σ.plane with recover := none } }

end Server

/-! ## Commands as scripts -/

namespace Script

/-- The reading of the client's clock, in milliseconds. -/
def now : Script ℤ := Prog.cmd (S := redis) Cmd.now

/-- A command on the keys of the keyed queue. -/
def keyed (c : KeyedCmd) : Script c.Reply := Prog.cmd (S := redis) (Cmd.keyed c)

/-- A command on the streams. -/
def stream (c : StreamCmd) : Script c.Reply := Prog.cmd (S := redis) (Cmd.stream c)

theorem now_eq : now = .op Cmd.now .pure := rfl

theorem keyed_eq (c : KeyedCmd) : keyed c = .op (Cmd.keyed c) .pure := rfl

theorem stream_eq (c : StreamCmd) : stream c = .op (Cmd.stream c) .pure := rfl

end Script

end NavigatorEventbus
