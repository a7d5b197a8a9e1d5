import NavigatorEventbus.Keyed.Store
import NavigatorEventbus.Lib.RelyGuarantee
import NavigatorEventbus.Redis.Effects

/-!
# Actors on a keyed queue

Producers, consumers, drainers, operators and recover passes on one keyed queue (`actors`): each makes
one call after another, and every command of a call is interleaved with those of the others.  A
consumer that has leased a message holds the lease until it applies an outcome, and may extend it,
give it up, or go on without it; an extension may be cut off after any number of commands.
-/

namespace NavigatorEventbus

open Interleave

/-- An operation of a keyed queue. `fuel` bounds the loops that the source leaves unbounded. -/
inductive KeyedOp where
  | push (key : Key) (body : Body) (mid : MsgId) (order : Option ℚ)
  | lease (fuel : ℕ)
  | leaseKey (key : Key) (ignoreDue : Bool) (fuel : ℕ)
  | extend (lease : KeyedLease) (additionalMs : Option ℤ) (commands : Option ℕ)
  | apply (lease : KeyedLease) (outcome : Outcome)
  | abandon (lease : KeyedLease)
  | expireHead (key : Key) (message : KeyedMessage)
  | promoteDue (limit : Option ℕ)
  | recover (force : Bool) (fuel : ℕ)
  | releaseHold (key : Key)
  | pause (ttlMs : Option ℤ) (reason : String)
  | resume

/-- A call: an operation, through an instance of the queue. -/
structure KeyedCall where
  queue : KeyedQueue
  op : KeyedOp

/-- The result of an operation. -/
inductive KeyedResult where
  | pushed (r : Except Exc MsgId)
  | leased (r : Except Exc (Option KeyedLease))
  | leasedKey (r : Except Exc (Option KeyedLease × LeaseReason))
  | extended (r : Except Exc Unit)
  | applied (r : Except Exc Unit)
  | expired (r : Except Exc Bool)
  | sent (n : ℕ)
  | recovered (r : Except Exc ℕ)
  | released (r : Bool)
  | done

/-- What an actor has between two calls. -/
inductive KeyedPhase where
  | idle
  | holding (lease : KeyedLease)

namespace KeyedCall

/-- The program of a call. -/
def code (o : KeyedCall) : Script KeyedResult :=
  match o.op with
  | .push key body mid order => do return .pushed (← o.queue.push key body mid order)
  | .lease fuel => do return .leased (← o.queue.lease fuel)
  | .leaseKey key ignoreDue fuel => do
    return .leasedKey (← o.queue.leaseKeyDetailed key none ignoreDue fuel)
  | .extend lease additionalMs commands =>
    let extended : Script KeyedResult := do return .extended (← o.queue.extend lease additionalMs)
    match commands with
    | none => extended
    | some n => extended.cutoff .done n
  | .apply lease outcome => do return .applied (← o.queue.apply lease outcome)
  | .abandon lease => do
    KeyedQueue.release lease.key lease.lock
    return .done
  | .expireHead key message => do return .expired (← o.queue.expireHead key message none)
  | .promoteDue limit => do return .sent (← o.queue.promoteDue limit)
  | .recover force fuel => do return .recovered (← o.queue.recover force fuel)
  | .releaseHold key => do return .released (← o.queue.releaseHold key)
  | .pause ttlMs reason => do
    o.queue.pause ttlMs reason
    return .done
  | .resume => do
    KeyedQueue.resume
    return .done

/-- What a returned call leaves its actor with. -/
def phase (o : KeyedCall) (r : KeyedResult) : KeyedPhase :=
  match o.op, r with
  | .lease _, .leased (.ok (some lease)) => .holding lease
  | .leaseKey _ _ _, .leasedKey (.ok (some lease, _)) => .holding lease
  | .extend lease _ _, _ => .holding lease
  | .apply lease _, .applied (.error _) => .holding lease
  | _, _ => .idle

/-- A lease can be extended, applied to and abandoned only by the actor that holds it. -/
def accepted (φ : KeyedPhase) (o : KeyedCall) : Bool :=
  match o.op, φ with
  | .extend lease _ _, .holding lease' => lease = lease'
  | .apply lease _, .holding lease' => lease = lease'
  | .abandon lease, .holding lease' => lease = lease'
  | .extend _ _ _, .idle => false
  | .apply _ _, .idle => false
  | .abandon _, .idle => false
  | _, _ => true

end KeyedCall

/-- The service of one keyed queue. -/
abbrev actors : Service server where
  Call := KeyedCall
  Result := KeyedResult
  Phase := KeyedPhase
  idle := .idle
  code := KeyedCall.code
  phase := KeyedCall.phase
  accepts := KeyedCall.accepted
  note _ _ _ σ := σ
  Disturbance := Disturbance
  disturb d σ := σ.disturb d

/-- The pools of actors on one keyed queue. -/
abbrev KeyedPool := Pool actors

/-- Nobody has called yet. -/
def KeyedPool.start : KeyedPool := ⟨{}, fun _ => .resting .idle⟩

end NavigatorEventbus
