import NavigatorEventbus.Redis.Keyspace

/-!
# Streams and consumer groups

The Redis streams behind the pull queues, with the consumer-group commands that `QueueStore` uses,
and the remaining keys of a keyed queue (`sig:<k>`, `paused`, `recover`).  A pending entry keeps the
server time from which its idle time counts: `XCLAIM ... IDLE` moves that time back.
-/

namespace NavigatorEventbus

open Interleave

/-- What the queues read of an event envelope. -/
structure Envelope where
  topic : String
  payload : List (String × String)
  schemaVersion : ℤ := 1
  deriving DecidableEq

/-- The fields of a stream entry; `none` for fields that hold no envelope. -/
abbrev Fields := Option Envelope

/-- `DefaultCodec.encode`. -/
def encode (e : Envelope) : Fields := some e

/-- `DefaultCodec.decode`, which refuses an unsupported schema version. -/
def decode (f : Fields) : Option Envelope := f.filter fun e => e.schemaVersion = 1

/-- An entry of a group's pending list. -/
structure Pending where
  consumer : String
  deliveredAt : ℤ
  timesDelivered : ℕ
  deriving DecidableEq

/-- A consumer group. -/
structure Group where
  lastDelivered : EntryId := 0
  pending : EntryId → Option Pending := fun _ => none

/-- A stream. Its entries hold fields `φ` and have ids from `1` to `lastId`; a deleted or trimmed one is
`none`. -/
structure Stream (φ : Type := Fields) where
  lastId : EntryId := 0
  entries : EntryId → Option φ := fun _ => none
  groups : String → Option Group := fun _ => none

namespace Group

/-- The pending entry `id` at server time `t` has been idle for `ms`. -/
def IdleFor (g : Group) (t ms : ℤ) (id : EntryId) : Prop :=
  ∃ e, g.pending id = some e ∧ ms ≤ t - e.deliveredAt

instance (g : Group) (t ms : ℤ) (id : EntryId) : Decidable (g.IdleFor t ms id) :=
  match h : g.pending id with
  | none => isFalse fun ⟨_, he, _⟩ => by simp [h] at he
  | some e => decidable_of_iff (ms ≤ t - e.deliveredAt) (by simp [IdleFor, h])

/-- Pending entry `id` becomes `e`. -/
def setPending (g : Group) (id : EntryId) (e : Option Pending) : Group :=
  { g with pending := Function.update g.pending id e }

end Group

namespace Stream

variable {φ : Type}

/-- The ids handed out so far, in order. -/
def ids (s : Stream φ) : List EntryId := (List.range s.lastId).map (· + 1)

/-- The group named `name` (an empty one when it does not exist). -/
def group (s : Stream φ) (name : String) : Group := (s.groups name).getD {}

/-- The group named `name` becomes `g`. -/
def setGroup (s : Stream φ) (name : String) (g : Group) : Stream φ :=
  { s with groups := Function.update s.groups name (some g) }

/-- The entries after `id`, in order. -/
def after (s : Stream φ) (id : EntryId) : List EntryId :=
  s.ids.filter fun e => id < e ∧ (s.entries e).isSome

/-- `XADD` with an approximate `MAXLEN`: the entries up to `trim` go when enough others stay. -/
def add (s : Stream φ) (f : φ) (maxlen : ℕ) (trim : EntryId) : Stream φ :=
  let s' := { s with lastId := s.lastId + 1, entries := Function.update s.entries (s.lastId + 1) (some f) }
  if maxlen ≤ (s'.after trim).length then
    { s' with entries := fun e => if e ≤ trim then none else s'.entries e }
  else s'

/-- `XREADGROUP ... >`: the first `count` entries after the last delivered one become pending. -/
def read (s : Stream φ) (name consumer : String) (count : ℕ) (t : ℤ) :
    List (EntryId × φ) × Stream φ :=
  let g := s.group name
  let ids := (s.after g.lastDelivered).take count
  (ids.filterMap fun id => (s.entries id).map fun f => (id, f),
    s.setGroup name
      { lastDelivered := ids.getLast?.getD g.lastDelivered
        pending := fun id =>
          if id ∈ ids then some ⟨consumer, t, 1⟩ else g.pending id })

/-- `XPENDING` with an idle filter: the first `count` entries idle for `ms`, with their counters. -/
def pendingIdle (s : Stream φ) (name : String) (t ms : ℤ) (count : ℕ) : List (EntryId × ℕ) :=
  ((s.ids.filter fun id => (s.group name).IdleFor t ms id).take count).filterMap fun id =>
    ((s.group name).pending id).map fun e => (id, e.timesDelivered)

/-- The scan of `XAUTOCLAIM` over the pending ids in order. It examines at most `attempts` pending
entries and stops after `count` results. An entry that is no longer in the stream leaves the pending
list and counts as a result; one that is idle for `ms` is claimed. -/
def claimScan (s : Stream φ) (g : Group) (t ms : ℤ) :
    List EntryId → (attempts count : ℕ) → List EntryId × List EntryId
  | [], _, _ => ([], [])
  | _, 0, _ => ([], [])
  | _, _, 0 => ([], [])
  | id :: rest, attempts + 1, count + 1 =>
    if (g.pending id).isNone then s.claimScan g t ms rest (attempts + 1) (count + 1)
    else if (s.entries id).isNone then
      ((s.claimScan g t ms rest attempts count).1, id :: (s.claimScan g t ms rest attempts count).2)
    else if g.IdleFor t ms id then
      (id :: (s.claimScan g t ms rest attempts count).1, (s.claimScan g t ms rest attempts count).2)
    else s.claimScan g t ms rest attempts (count + 1)

/-- `XAUTOCLAIM` from the start of the pending list: the claimed entries get the consumer, the
current time and one more delivery. -/
def autoclaim (s : Stream φ) (name consumer : String) (ms : ℤ) (count : ℕ) (t : ℤ) :
    List (EntryId × φ) × Stream φ :=
  let g := s.group name
  let scan := s.claimScan g t ms s.ids (10 * count) count
  (scan.1.filterMap fun id => (s.entries id).map fun f => (id, f),
    s.setGroup name
      { g with
        pending := fun id =>
          if id ∈ scan.1 then (g.pending id).map fun e => ⟨consumer, t, e.timesDelivered + 1⟩
          else if id ∈ scan.2 then none
          else g.pending id })

/-- `XCLAIM ... 0 ids IDLE idle JUSTID`: owner and idle time change, the counter does not. An entry
that is no longer in the stream leaves the pending list. -/
def claim (s : Stream φ) (name consumer : String) (ids : List EntryId) (idle t : ℤ) : Stream φ :=
  match s.groups name with
  | none => s
  | some g => s.setGroup name { g with
      pending := fun id =>
        if id ∉ ids then g.pending id
        else if (s.entries id).isNone then none
        else (g.pending id).map fun e => ⟨consumer, t - idle, e.timesDelivered⟩ }

/-- `XACK`. -/
def ack (s : Stream φ) (name : String) (id : EntryId) : Stream φ :=
  match s.groups name with
  | none => s
  | some g => s.setGroup name (g.setPending id none)

/-- `XDEL`. -/
def delete (s : Stream φ) (id : EntryId) : Stream φ :=
  { s with entries := Function.update s.entries id none }

end Stream

/-! ## Commands -/

/-- The commands of the pull plane, and those on the signal markers, the pause and the recover
throttle of a keyed queue. `warnParked` is the line that the store logs when it parks a message. -/
inductive StreamCmd where
  | xgroupCreate (stream group : String)
  | xadd (stream : String) (f : Fields) (maxlen : ℕ)
  | xreadgroup (stream group consumer : String) (count : ℕ)
  | xpendingIdle (stream group : String) (count : ℕ) (idle : ℤ)
  | xpendingEntry (stream group : String) (id : EntryId)
  | xautoclaim (stream group consumer : String) (minIdle : ℤ) (count : ℕ)
  | xclaim (stream group consumer : String) (ids : List EntryId) (idle : ℤ)
  | xack (stream group : String) (id : EntryId)
  | xdel (stream : String) (id : EntryId)
  | xinfoGroup (stream group : String)
  | xrangeAfter (stream : String) (id : EntryId)
  | onDlq (envelope : Envelope) (attempts : ℕ) (error subscriberId : String)
  | warnParked (stream group : String) (id : EntryId) (attempts : ℕ)
  | zaddSig (k : Key) (entry : EntryId) (deadline : ℤ)
  | pexpireSig (k : Key) (ms : ℤ)
  | zremSig (k : Key) (entry : EntryId)
  | zremrangebyscoreSig (k : Key) (upTo : ℤ)
  | zcardSig (k : Key)
  | getPaused
  | setPaused (reason : String) (px : ℤ)
  | deletePaused
  | setRecover (consumer : String) (px : ℤ)

namespace StreamCmd

/-- The reply of a command; where the source catches a failing command, `none` is the failure. -/
@[reducible] def Reply : StreamCmd → Type
  | xgroupCreate _ _ => Unit
  | xadd _ _ _ => EntryId
  | xreadgroup _ _ _ _ => List (EntryId × Fields)
  | xpendingIdle _ _ _ _ => Option (List (EntryId × ℕ))
  | xpendingEntry _ _ _ => Option (List Pending)
  | xautoclaim _ _ _ _ _ => Option (List (EntryId × Fields))
  | xclaim _ _ _ _ _ => Option Unit
  | xack _ _ _ => Option Unit
  | xdel _ _ => Option Unit
  | xinfoGroup _ _ => Option (Option (EntryId × Option ℕ))
  | xrangeAfter _ _ => Bool
  | onDlq _ _ _ _ => Unit
  | warnParked _ _ _ _ => Unit
  | zaddSig _ _ _ => Unit
  | pexpireSig _ _ => Unit
  | zremSig _ _ => Unit
  | zremrangebyscoreSig _ _ => Unit
  | zcardSig _ => ℕ
  | getPaused => Option String
  | setPaused _ _ => Unit
  | deletePaused => Unit
  | setRecover _ _ => Bool

end StreamCmd

/-- What the history records of a stream command; `returned` are the entries that a call handed out,
with the generations in their receipts. -/
inductive StreamEvent where
  | ensured (stream group : String)
  | sent (stream : String) (id : EntryId) (f : Fields)
  | listed (stream group : String) (entries : List (EntryId × ℕ))
  | granted (stream group : String) (id : EntryId) (delivered : ℕ)
  | deadLetter (envelope : Envelope) (attempts : ℕ)
  | parked (stream group : String) (id : EntryId)
  | returned (stream group : String) (entries : List (EntryId × ℕ))
  deriving DecidableEq

/-- The streams, the signal markers, the pause and the recover throttle. -/
structure Plane where
  streams : String → Stream := fun _ => {}
  sig : Key → SortedSet EntryId ℤ := fun _ => ∅
  paused : Option String := none
  recover : Option String := none
  log : History StreamEvent := []

namespace Plane

/-- The stream named `name` becomes `s`. -/
def setStream (π : Plane) (name : String) (s : Stream) : Plane :=
  { π with streams := Function.update π.streams name s }

/-- The ids granted to actor `p`, with the counters that the grant left, enter the history. -/
def grant (π : Plane) (p : ℕ) (stream group : String) (ids : List EntryId) : Plane :=
  { π with log :=
      (ids.map fun id => (p, .granted stream group id
        ((((π.streams stream).group group).pending id).elim 0 Pending.timesDelivered))) ++ π.log }

/-- Execution of one command by actor `p` at server time `t`. -/
def exec (p : ℕ) (t : ℤ) (i : Input) (π : Plane) : (c : StreamCmd) → c.Reply × Plane
  | .xgroupCreate stream group =>
    let π' := if ((π.streams stream).groups group).isSome then π
      else π.setStream stream ((π.streams stream).setGroup group {})
    ((), { π' with log := (p, .ensured stream group) :: π'.log })
  | .xadd stream f maxlen =>
    ((π.streams stream).lastId + 1,
      { π.setStream stream ((π.streams stream).add f maxlen i.trim) with
        log := (p, .sent stream ((π.streams stream).lastId + 1) f) :: π.log })
  | .xreadgroup stream group consumer count =>
    let r := (π.streams stream).read group consumer count t
    (r.1, (π.setStream stream r.2).grant p stream group (r.1.map Prod.fst))
  | .xpendingIdle stream group count idle =>
    if i.fails then (none, π)
    else
      let r := (π.streams stream).pendingIdle group t idle count
      (some r, { π with log := (p, .listed stream group r) :: π.log })
  | .xpendingEntry stream group id =>
    (if i.fails then none else some (((π.streams stream).group group).pending id).toList, π)
  | .xautoclaim stream group consumer minIdle count =>
    if i.fails then (none, π)
    else
      let r := (π.streams stream).autoclaim group consumer minIdle count t
      (some r.1, (π.setStream stream r.2).grant p stream group (r.1.map Prod.fst))
  | .xclaim stream group consumer ids idle =>
    if i.fails then (none, π)
    else (some (), π.setStream stream ((π.streams stream).claim group consumer ids idle t))
  | .xack stream group id =>
    if i.fails then (none, π) else (some (), π.setStream stream ((π.streams stream).ack group id))
  | .xdel stream id =>
    if i.fails then (none, π) else (some (), π.setStream stream ((π.streams stream).delete id))
  | .xinfoGroup stream group =>
    (if i.fails then none
      else some (((π.streams stream).groups group).map fun g => (g.lastDelivered, i.lag)), π)
  | .xrangeAfter stream id => (decide ((π.streams stream).after id ≠ []), π)
  | .onDlq e attempts _ _ => ((), { π with log := (p, .deadLetter e attempts) :: π.log })
  | .warnParked stream group id _ => ((), { π with log := (p, .parked stream group id) :: π.log })
  | .zaddSig k entry deadline =>
    ((), { π with sig := Function.update π.sig k ((π.sig k).add entry deadline) })
  | .pexpireSig _ _ => ((), π)
  | .zremSig k entry => ((), { π with sig := Function.update π.sig k ((π.sig k).remove entry) })
  | .zremrangebyscoreSig k upTo =>
    ((), { π with sig := Function.update π.sig k ((π.sig k).dropUpTo upTo) })
  | .zcardSig k => ((π.sig k).card, π)
  | .getPaused => (π.paused, π)
  | .setPaused reason _ => ((), { π with paused := some reason })
  | .deletePaused => ((), { π with paused := none })
  | .setRecover consumer _ =>
    if π.recover.isSome then (false, π) else (true, { π with recover := some consumer })

end Plane

end NavigatorEventbus
