import NavigatorEventbus.Keyed.Drainer
import NavigatorEventbus.Keyed.Runs
import NavigatorEventbus.Lib.Plans

/-!
# The worker loop over a keyed queue

`KeyedConsumer` (`queues/keyed/consumer.py`) runs a handler over leased heads.  An iteration (`runOnce`) is a plan over
the calls of the queue: the handler is code of the application, and what an iteration sees of it is how it ends
and which extensions of the lock the keeper has begun by then.  Whatever any number of consumers do with the queue, side
by side with producers and operators, actors of the queue can do (`consumers_refine`).
-/

namespace NavigatorEventbus

open Interleave

/-- A run of a handler: the extensions that the keeper begins meanwhile, each whole or cut off after some commands, and
how the handler ends. -/
structure Handling where
  ticks : List (Option ℕ)
  ending : HandlerEnd

/-- What a `run_once` comes to. -/
inductive Iteration where
  | returned (outcome : Option Outcome)
  | raised (e : Exc)
  | cancelled

/-- A consumer of a queue, with the `call_timeout_ms` of its configuration. -/
structure KeyedConsumer where
  queue : KeyedQueue
  callTimeoutMs : ℤ := 30000

namespace KeyedConsumer

variable (c : KeyedConsumer)

/-- An operation of the consumer's queue. -/
def call (op : KeyedOp) : Plan actors KeyedResult := Plan.call ⟨c.queue, op⟩

/-- Extend lock and signal again and again, until the lease is lost or the handler ends. -/
def keepExtended (lease : KeyedLease) : List (Option ℕ) → Plan actors Unit
  | [] => return ()
  | tick :: ticks => do
    match ← c.call (.extend lease none tick) with
    | .extended (.error (.leaseLost _)) => return ()
    | _ => keepExtended lease ticks

/-- Run the handler with the lock kept extended; a cancellation is raised. -/
def handle (handling : Handling) (lease : KeyedLease) : Plan actors (Option Outcome) := do
  c.keepExtended lease handling.ticks
  return runHandler c.callTimeoutMs handling.ending

/-- Apply the outcome of a handler; a lost lease is only logged. -/
def conclude (lease : KeyedLease) (outcome : Outcome) : Plan actors Iteration := do
  match ← c.call (.apply lease outcome) with
  | .applied (.error e) => if e.isLeaseLost then return .returned none else return .raised e
  | _ => return .returned (some outcome)

/-- The handler and what follows it. -/
def serve (handler : KeyedMessage → Handling) (lease : KeyedLease) : Plan actors Iteration := do
  match ← c.handle (handler lease.message) lease with
  | none =>
    -- do not leave the key locked for `lock_ttl_ms`
    let _ ← c.call (.abandon lease)
    return .cancelled
  | some outcome => c.conclude lease outcome

/-- One iteration: paused, recover, promote_due, lease, handle, apply. -/
def runOnce (handler : KeyedMessage → Handling) (fuel : ℕ) : Plan actors Iteration := do
  if (← Plan.look (V := actors) (.stream .getPaused) : Option String).isSome then return .returned none
  match ← c.call (.recover false fuel) with
  | .recovered (.error e) => return .raised e
  | _ =>
    let _ ← c.call (.promoteDue none)
    match ← c.call (.lease fuel) with
    | .leased (.error e) => return .raised e
    | .leased (.ok (some lease)) => c.serve handler lease
    | _ => return .returned none

end KeyedConsumer

/-! ## Consumers among others -/

/-- A call of an actor beside a keyed queue: an iteration of a consumer, or an operation that the actor makes itself. -/
inductive ConsumerCall where
  | runOnce (c : KeyedConsumer) (handler : KeyedMessage → Handling) (fuel : ℕ)
  | direct (o : KeyedCall)

/-- The result of such a call. -/
inductive ConsumerResult where
  | iteration (r : Iteration)
  | direct (r : KeyedResult)

namespace ConsumerCall

/-- The plan of a call. -/
def plan : ConsumerCall → Plan actors ConsumerResult
  | runOnce c handler fuel => do return .iteration (← c.runOnce handler fuel)
  | direct o => do return .direct (← Plan.call o)

/-- What a returned call leaves its actor with; an iteration leaves nothing to be used. -/
def phase : ConsumerCall → ConsumerResult → KeyedPhase
  | direct o, .direct r => o.phase r
  | _, _ => .idle

/-- An iteration can always begin; of the operations, `others` are made. -/
def accepted (others : KeyedCall → Bool) (φ : KeyedPhase) : ConsumerCall → Bool
  | runOnce _ _ _ => true
  | direct o => others o && o.accepted φ

end ConsumerCall

/-- The service of consumers beside one keyed queue, with the operations that others make. -/
abbrev consumers (others : KeyedCall → Bool) : Service server where
  Call := ConsumerCall
  Result := ConsumerResult
  Phase := KeyedPhase
  idle := .idle
  code w := w.plan.code
  phase := ConsumerCall.phase
  accepts := ConsumerCall.accepted others
  note _ _ _ σ := σ
  Disturbance := Disturbance
  disturb d σ := σ.disturb d

/-- The pools of consumers and others. -/
abbrev ConsumerPool (others : KeyedCall → Bool) := Pool (consumers others)

/-- Nobody has called yet. -/
def ConsumerPool.start (others : KeyedCall → Bool) : ConsumerPool others := ⟨{}, fun _ => .resting .idle⟩

/-! ## Iterations as calls -/

/-- An operation that consumers make. -/
def KeyedCall.OfConsumer (o : KeyedCall) : Prop :=
  match o.op with
  | .recover _ _ | .promoteDue _ | .lease _ | .extend _ _ _ | .apply _ _ | .abandon _ => True
  | _ => False

/-- What a phase allows, another allows too. -/
def KeyedPhase.Covers (φ ψ : KeyedPhase) : Prop := ∀ o : KeyedCall, o.accepted ψ = true → o.accepted φ = true

theorem KeyedPhase.covers_idle (φ : KeyedPhase) : φ.Covers .idle := by
  rintro ⟨q, op⟩ h
  cases op <;> first | rfl | cases h

namespace KeyedConsumer

variable (c : KeyedConsumer) (others : KeyedCall → Bool)

/-- The calls of an iteration, and those of the others. -/
abbrev Made (o : KeyedCall) : Prop := o.OfConsumer ∨ others o = true

theorem obeys_keepExtended (lease : KeyedLease) (ticks : List (Option ℕ)) :
    Plan.Obeys (V := actors) (Made others) (fun φ _ => φ = .holding lease) (KeyedPhase.holding lease)
      (c.keepExtended lease ticks) := by
  induction ticks with
  | nil => exact (rfl : KeyedPhase.holding lease = _)
  | cons tick ticks ih =>
    refine .call_bind (.inl trivial) (decide_eq_true rfl) fun r => ?_
    split
    · exact (rfl : KeyedPhase.holding lease = _)
    · exact ih

theorem obeys_serve (handler : KeyedMessage → Handling) (lease : KeyedLease) :
    Plan.Obeys (V := actors) (Made others) (fun _ _ => True) (KeyedPhase.holding lease) (c.serve handler lease) := by
  have handled : Plan.Obeys (V := actors) (Made others) (fun φ _ => φ = .holding lease) (KeyedPhase.holding lease)
      (c.handle (handler lease.message) lease) :=
    (c.obeys_keepExtended others lease _).bind fun _ _ h => h
  refine handled.bind ?_
  rintro _ outcome rfl
  cases outcome with
  | none => exact .call_bind (.inl trivial) (decide_eq_true rfl) fun _ => trivial
  | some outcome =>
    refine .call_bind (.inl trivial) (decide_eq_true rfl) fun r => ?_
    split
    · split_ifs <;> trivial
    · trivial

theorem obeys_runOnce (handler : KeyedMessage → Handling) (fuel : ℕ) (φ : KeyedPhase) :
    Plan.Obeys (V := actors) (Made others) (fun _ _ => True) φ (c.runOnce handler fuel) := by
  refine .look_bind (fun _ _ _ => rfl) fun paused => ?_
  split_ifs
  · trivial
  · refine .call_bind (.inl trivial) ?_ fun r => ?_
    · exact KeyedPhase.covers_idle φ ⟨c.queue, .recover false fuel⟩ rfl
    split
    · trivial
    · refine .call_bind (.inl trivial) rfl fun _ => .call_bind (.inl trivial) rfl fun leased => ?_
      split
      · trivial
      · exact c.obeys_serve others handler _
      · trivial

end KeyedConsumer

/-- Consumers make the calls of their plans. -/
def carrier (others : KeyedCall → Bool) : Carrier (consumers others) actors (KeyedConsumer.Made others) where
  plan := ConsumerCall.plan
  Stands ψ φ := φ.Covers ψ
  disturb := id
  code_plan _ := rfl
  disturb_eq _ _ := rfl
  note_eq _ _ _ _ := rfl
  note_eq' _ _ _ _ := rfl
  stands_idle _ := id
  obeys w ψ φ accepts stands := by
    cases w with
    | runOnce c handler fuel => exact (c.obeys_runOnce others handler fuel φ).bind fun φ _ _ => φ.covers_idle
    | direct o =>
      obtain ⟨made, accepted⟩ := Bool.and_eq_true_iff.1 accepts
      exact .call_bind (.inr made) (stands o accepted) fun _ _ => id

/-- Whatever consumers running handlers and others do with a keyed queue, command by command, actors that make calls of
the queue can do, with the same state of the server; they make the calls of a consumer and those of the others. -/
theorem consumers_refine {others : KeyedCall → Bool} {A : ConsumerPool others → Act (consumers others) → Prop}
    {P : ConsumerPool others} (hr : Pool.Reach A (ConsumerPool.start others) P) :
    ∃ Q : KeyedPool, Q.shared = P.shared ∧
      Pool.Reach (Pool.Meets fun _ (o : KeyedCall) _ _ _ => o.OfConsumer ∨ others o = true) KeyedPool.start Q := by
  have start : (carrier others).Simulates (ConsumerPool.start others) KeyedPool.start :=
    ⟨rfl, fun _ => .resting fun _ => id⟩
  obtain ⟨Q, reach, shared, -⟩ := start.reach hr
  exact ⟨Q, shared.symm, reach⟩

namespace Scenario

/-- A handler that acks, after one extension of the lock. -/
def acking : KeyedMessage → Handling := fun _ => ⟨[none], .returned .ack⟩

/-- A message is pushed, and one iteration of a consumer leases and acks it. -/
def consumed : List (Act (consumers fun _ => true)) :=
  .call 0 (.direct ⟨queue, push⟩) :: List.replicate 8 (.exec 0 {}) ++
    [.ret 0, .call 0 (.runOnce { queue } acking 2)] ++ List.replicate 45 (.exec 0 {})

/-- The iteration has returned `ack`. -/
def acked : Actor redis ConsumerCall ConsumerResult KeyedPhase → Bool
  | .calling (.runOnce _ _ _) (.pure (.iteration (.returned (some .ack)))) => true
  | _ => false

theorem acked_eq_true {a : Actor redis ConsumerCall ConsumerResult KeyedPhase} (h : acked a = true) :
    ∃ c handler fuel, a = .calling (.runOnce c handler fuel) (.pure (.iteration (.returned (some .ack)))) := by
  unfold acked at h
  split at h
  · exact ⟨_, _, _, rfl⟩
  · cases h

end Scenario

open Scenario in
theorem consumers_refine_witness : ∃ Q : KeyedPool,
    (0, .committed (.ack "k" "a" ⟨0, 0⟩ false) 0) ∈ Q.shared.keyed.log ∧
      Pool.Reach (Pool.Meets fun _ (o : KeyedCall) _ _ _ => o.OfConsumer ∨ (fun _ => true) o = true)
        KeyedPool.start Q := by
  have run : ∃ P ∈ (ConsumerPool.start fun _ => true).runIf (fun _ _ _ _ _ => True) consumed,
      (0, .committed (.ack "k" "a" ⟨0, 0⟩ false) 0) ∈ P.shared.keyed.log := by decide +kernel
  obtain ⟨P, hP, acked⟩ := run
  obtain ⟨Q, shared, reach⟩ := consumers_refine (.of_runIf hP)
  exact ⟨Q, shared ▸ acked, reach⟩

end NavigatorEventbus
