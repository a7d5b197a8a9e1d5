import Mathlib
import NavigatorEventbus.Bus.Core
import NavigatorEventbus.Lib.Double

/-!
# The back-off of the relay

The delays are floats, the power of two is an integer that is made a float for the product, and the counter
of attempts grows for as long as the backend is down.  A power of two has an exact product with every float,
up to the overflow that the maximum absorbs, so the delay is `min(max, interval * 2 ** (attempts - 1))` as long
as the power is a float (`backoff_eq_exact_iff`).  The 1025th failure in a row raises an `OverflowError` where
the delay is computed, before the outbox is told of the failure, and so do all later ones (`backoff_total_iff`).
-/

namespace NavigatorEventbus.Bus

/-- The settings of the relay, floats above zero. -/
structure Relay where
  relayInterval : WithTop ℚ
  relayMaxBackoff : WithTop ℚ
  interval_positive : Double.Positive relayInterval
  maxBackoff_positive : Double.Positive relayMaxBackoff

namespace Relay

variable (relay : Relay)

/-- `_backoff`; `none` is the `OverflowError` of the conversion. -/
def backoff (attempts : ℕ) : Option (WithTop ℚ) :=
  (Double.ofNat (2 ^ (attempts - 1))).map fun (power : ℚ) =>
    min relay.relayMaxBackoff (Double.mul relay.relayInterval power)

/-- The delay in exact arithmetic. -/
def exact (attempts : ℕ) : WithTop ℚ :=
  min relay.relayMaxBackoff (relay.relayInterval * (2 ^ (attempts - 1) : ℚ))

/-- The product of the interval and the power is a float. -/
def Finite (attempts : ℕ) : Prop :=
  relay.relayInterval = ⊤ ∨ relay.relayInterval * (2 ^ (attempts - 1) : ℚ) ≤ Double.greatest

theorem backoff_eq {attempts : ℕ} (le : attempts ≤ 1024) :
    relay.backoff attempts =
      some (min relay.relayMaxBackoff (Double.mul relay.relayInterval (2 ^ (attempts - 1) : ℚ))) := by
  rw [backoff, Double.ofNat_two_pow, if_pos (by omega)]
  rfl

theorem backoff_eq_none {attempts : ℕ} (lt : 1024 < attempts) : relay.backoff attempts = none := by
  rw [backoff, Double.ofNat_two_pow, if_neg (by omega)]
  rfl

theorem backoff_isSome_iff (attempts : ℕ) : (relay.backoff attempts).isSome ↔ attempts ≤ 1024 := by
  by_cases le : attempts ≤ 1024
  · simp [backoff_eq relay le, le]
  · simp [backoff_eq_none relay (not_le.1 le), le]

theorem backoff_le {attempts : ℕ} {delay : WithTop ℚ} (h : relay.backoff attempts = some delay) :
    delay ≤ relay.relayMaxBackoff := by
  have le : attempts ≤ 1024 := by
    rw [← backoff_isSome_iff relay, h]
    rfl
  rw [backoff_eq relay le, Option.some_inj] at h
  rw [← h]
  exact min_le_left _ _

/-- The product with a power of two is exact, or it overflows. -/
theorem mul_two_pow {x : ℚ} (h : Double.IsDouble x) (k : ℕ) :
    Double.mul x (2 ^ k : ℚ) = if x * 2 ^ k ≤ Double.greatest then ((x * 2 ^ k : ℚ) : WithTop ℚ) else ⊤ :=
  (h.mul_two_pow k).nearest

theorem mul_two_pow_pos (k : ℕ) : 0 < Double.mul relay.relayInterval (2 ^ k : ℚ) := by
  by_cases infinite : relay.relayInterval = ⊤
  · rw [infinite]
    exact WithTop.top_pos
  · obtain ⟨x, hx⟩ := WithTop.ne_top_iff_exists.1 infinite
    have pos : 0 < x := by
      apply WithTop.coe_pos.1
      rw [hx]
      exact relay.interval_positive.pos
    rw [← hx, mul_two_pow (relay.interval_positive.double x hx.symm).1]
    split_ifs
    · exact WithTop.coe_pos.2 (mul_pos pos (pow_pos two_pos k))
    · exact WithTop.top_pos

theorem backoff_pos {attempts : ℕ} {delay : WithTop ℚ} (h : relay.backoff attempts = some delay) :
    0 < delay := by
  rw [backoff, Option.map_eq_some_iff] at h
  obtain ⟨power, hp, rfl⟩ := h
  rw [Double.ofNat_two_pow] at hp
  obtain ⟨-, eq⟩ := Option.ite_none_right_eq_some.1 hp
  cases eq
  exact lt_min relay.maxBackoff_positive.pos (mul_two_pow_pos relay _)

theorem min_mul_eq_iff {attempts : ℕ} :
    min relay.relayMaxBackoff (Double.mul relay.relayInterval (2 ^ (attempts - 1) : ℚ)) = relay.exact attempts ↔
      (relay.relayMaxBackoff = ⊤ → relay.Finite attempts) := by
  by_cases infinite : relay.relayInterval = ⊤
  · have power : ((2 ^ (attempts - 1) : ℚ) : WithTop ℚ) ≠ 0 :=
      (WithTop.coe_pos.2 (pow_pos two_pos _)).ne'
    have product : relay.relayInterval * ((2 ^ (attempts - 1) : ℚ) : WithTop ℚ) = ⊤ := by
      rw [infinite]
      exact WithTop.top_mul power
    have float : Double.mul relay.relayInterval ((2 ^ (attempts - 1) : ℚ) : WithTop ℚ) = ⊤ := by
      rw [infinite]
      rfl
    rw [exact, product, float]
    exact iff_of_true rfl fun _ => .inl infinite
  · obtain ⟨x, hx⟩ := WithTop.ne_top_iff_exists.1 infinite
    have double := relay.interval_positive.double x hx.symm
    have product : relay.relayInterval * ((2 ^ (attempts - 1) : ℚ) : WithTop ℚ) = (x * 2 ^ (attempts - 1) : ℚ) := by
      rw [← hx]
      exact (WithTop.coe_mul _ _).symm
    rw [exact, product, ← hx, mul_two_pow double.1]
    by_cases fits : x * 2 ^ (attempts - 1) ≤ Double.greatest
    · rw [if_pos fits]
      refine iff_of_true rfl fun _ => .inr ?_
      rw [product]
      exact WithTop.coe_le_coe.2 fits
    · rw [if_neg fits]
      by_cases unbounded : relay.relayMaxBackoff = ⊤
      · -- the float product is infinite, the exact one is not
        have misfit : ¬relay.Finite attempts := by
          rintro (top | le)
          · exact infinite top
          · rw [product] at le
            exact fits (WithTop.coe_le_coe.1 le)
        refine iff_of_false ?_ fun all => misfit (all unbounded)
        rw [unbounded, top_inf_eq, top_inf_eq]
        exact WithTop.top_ne_coe
      · obtain ⟨y, hy⟩ := WithTop.ne_top_iff_exists.1 unbounded
        have bounded : y ≤ x * 2 ^ (attempts - 1) :=
          ((relay.maxBackoff_positive.double y hy.symm).2.trans_lt (not_le.1 fits)).le
        refine iff_of_true ?_ fun top => absurd top unbounded
        rw [← hy, inf_top_eq, inf_eq_left.2 (WithTop.coe_le_coe.2 bounded)]

theorem backoff_eq_exact_iff (attempts : ℕ) :
    relay.backoff attempts = some (relay.exact attempts) ↔
      attempts ≤ 1024 ∧ (relay.relayMaxBackoff = ⊤ → relay.Finite attempts) := by
  by_cases le : attempts ≤ 1024
  · rw [backoff_eq relay le, Option.some_inj, min_mul_eq_iff]
    exact (and_iff_right le).symm
  · rw [backoff_eq_none relay (not_le.1 le)]
    exact iff_of_false (by simp) fun h => le h.1

end Relay

/-- With whole seconds the delay is the one of the bus machine. -/
theorem BusCore.backoff_eq_relay (core : BusCore) (relay : Relay)
    (interval : relay.relayInterval = (core.relayInterval : ℚ))
    (maxBackoff : relay.relayMaxBackoff = (core.relayMaxBackoff : ℚ)) (attempts : ℕ) :
    relay.backoff attempts = (core.backoff attempts).map fun delay => (((delay : ℤ) : ℚ) : WithTop ℚ) := by
  by_cases le : attempts ≤ 1024
  · have exact := (relay.backoff_eq_exact_iff attempts).2
      ⟨le, fun top => absurd (maxBackoff.symm.trans top) (WithTop.coe_ne_top)⟩
    rw [exact, BusCore.backoff, if_neg (by omega), Relay.exact, interval, maxBackoff, Option.map_some,
      Option.some_inj, ← WithTop.coe_mul, ← WithTop.coe_min, Int.cast_min]
    push_cast
    rfl
  · rw [relay.backoff_eq_none (not_le.1 le), BusCore.backoff, if_pos (not_le.1 le)]
    rfl

/-- What the bus keeps of the rows of the outbox: `_outbox_inflight` and `_outbox_attempts`. -/
structure Rows where
  inflight : List String := []
  attempts : String → ℕ := fun _ => 0

/-- A call of `outbox.nack`. -/
structure Nack where
  eventId : String
  error : String
  nextTryAt : WithTop ℚ

/-- A failed attempt to relay a row, and the nack that it recorded. -/
structure FailedAttempt where
  eventId : String
  error : String
  now : ℚ
  attempts : ℕ
  nack : Option Nack

/-- What happens to the rows. -/
inductive RowEvent where
  | taken (eventId : String)
  | confirmed (eventId : String) (acked : Bool)
  | failed (eventId error : String) (now : ℚ) (clock : 0 < now)
  | left (eventId : String)
  | drained

namespace Rows

variable (relay : Relay) (rows : Rows)

/-- `_outbox_nack`. The attempt is counted before the delay is computed. -/
def outboxNack (eventId error : String) (now : ℚ) : Rows × Option FailedAttempt :=
  if eventId ∈ rows.inflight then
    let attempts := rows.attempts eventId + 1
    ({ rows with attempts := Function.update rows.attempts eventId attempts },
      some ⟨eventId, error, now, attempts,
        (relay.backoff attempts).map fun delay => ⟨eventId, error, Double.add now delay⟩⟩)
  else (rows, none)

theorem outboxNack_tracked {rows : Rows} {eventId error : String} {now : ℚ} (tracked : eventId ∈ rows.inflight) :
    rows.outboxNack relay eventId error now =
      ({ rows with attempts := Function.update rows.attempts eventId (rows.attempts eventId + 1) },
        some ⟨eventId, error, now, rows.attempts eventId + 1,
          (relay.backoff (rows.attempts eventId + 1)).map fun delay => ⟨eventId, error, Double.add now delay⟩⟩) :=
  if_pos tracked

/-- `_outbox_ack`, by the answer of the outbox. -/
def outboxAck (eventId : String) (acked : Bool) : Rows :=
  if eventId ∈ rows.inflight ∧ acked then { rows with attempts := Function.update rows.attempts eventId 0 }
  else rows

/-- The rows after an event: `_backend_publish` takes a row in flight, ends well or badly and lets go of it,
and a pass of the relay that finds the outbox empty forgets all attempts. -/
def step : RowEvent → Rows × Option FailedAttempt
  | .taken eventId => ({ rows with inflight := rows.inflight.insert eventId }, none)
  | .confirmed eventId acked => (rows.outboxAck eventId acked, none)
  | .failed eventId error now _ => rows.outboxNack relay eventId error now
  | .left eventId => ({ rows with inflight := rows.inflight.filter (· ≠ eventId) }, none)
  | .drained => ({ rows with attempts := fun _ => 0 }, none)

/-- The failed attempts of a run. -/
def failures (rows : Rows) : List RowEvent → List FailedAttempt
  | [] => []
  | event :: events => (rows.step relay event).2.toList ++ failures (rows.step relay event).1 events

end Rows

/-- The nack of the attempt is recorded, for a time within `_relay_max_backoff`. -/
def FailedAttempt.Scheduled (relay : Relay) (a : FailedAttempt) : Prop :=
  ∃ nack, a.nack = some nack ∧ nack.eventId = a.eventId ∧ nack.error = a.error ∧
    nack.nextTryAt ≤ Double.add a.now relay.relayMaxBackoff

/-- The relay tries one row at each of the times, with the backend down. -/
def outage (eventId error : String) (times : List {now : ℚ // 0 < now}) : List RowEvent :=
  times.flatMap fun now => [.taken eventId, .failed eventId error now.1 now.2, .left eventId]

section Runs

variable (relay : Relay)

/-- A delay within the maximum is scheduled within the maximum, in float additions. -/
theorem scheduled_iff {a : FailedAttempt} (clock : 0 < a.now)
    (nack : a.nack = (relay.backoff a.attempts).map fun delay => ⟨a.eventId, a.error, Double.add a.now delay⟩) :
    a.Scheduled relay ↔ a.attempts ≤ 1024 := by
  rw [← relay.backoff_isSome_iff]
  constructor
  · rintro ⟨_, recorded, -⟩
    rw [nack, Option.map_eq_some_iff] at recorded
    obtain ⟨_, delay, -⟩ := recorded
    rw [delay]
    rfl
  · intro defined
    obtain ⟨delay, hd⟩ := Option.isSome_iff_exists.1 defined
    rw [hd] at nack
    refine ⟨_, nack, rfl, rfl, ?_⟩
    exact Double.add_le_add_left (WithTop.coe_pos.2 clock) (relay.backoff_pos hd) (relay.backoff_le hd)

/-- What a step tells of a failed attempt. -/
theorem step_failed {rows : Rows} {event : RowEvent} {a : FailedAttempt}
    (h : (rows.step relay event).2 = some a) :
    0 < a.now ∧
      a.nack = (relay.backoff a.attempts).map fun delay => ⟨a.eventId, a.error, Double.add a.now delay⟩ := by
  cases event with
  | failed eventId error now clock =>
    rw [Rows.step] at h
    by_cases tracked : eventId ∈ rows.inflight
    · rw [Rows.outboxNack_tracked relay tracked, Option.some_inj] at h
      subst h
      exact ⟨clock, rfl⟩
    · rw [Rows.outboxNack, if_neg tracked] at h
      cases h
  | taken | confirmed | left | drained => cases h

theorem scheduled_of_mem {rows : Rows} {events : List RowEvent} {a : FailedAttempt}
    (h : a ∈ rows.failures relay events) : a.Scheduled relay ↔ a.attempts ≤ 1024 := by
  induction events generalizing rows with
  | nil => cases h
  | cons event events ih =>
    rw [Rows.failures, List.mem_append, Option.mem_toList] at h
    rcases h with first | later
    · obtain ⟨clock, nack⟩ := step_failed relay first
      exact scheduled_iff relay clock nack
    · exact ih later

/-- The attempts of an outage are counted from the last one before. -/
theorem attempts_outage (rows : Rows) (eventId error : String) (times : List {now : ℚ // 0 < now}) :
    (rows.failures relay (outage eventId error times)).map FailedAttempt.attempts =
      List.range' (rows.attempts eventId + 1) times.length := by
  induction times generalizing rows with
  | nil => rfl
  | cons now times ih =>
    let taken : Rows := { rows with inflight := rows.inflight.insert eventId }
    have tracked : eventId ∈ taken.inflight := List.mem_insert_self
    let after : Rows :=
      { inflight := taken.inflight.filter (· ≠ eventId)
        attempts := Function.update rows.attempts eventId (rows.attempts eventId + 1) }
    have first : rows.failures relay (outage eventId error (now :: times)) =
        (taken.outboxNack relay eventId error now).2.toList ++
          ({ (taken.outboxNack relay eventId error now).1 with
            inflight := (taken.outboxNack relay eventId error now).1.inflight.filter (· ≠ eventId) } : Rows).failures
              relay (outage eventId error times) := rfl
    have counted : after.attempts eventId = rows.attempts eventId + 1 := Function.update_self ..
    have rest := ih after
    rw [counted] at rest
    rw [first, Rows.outboxNack_tracked relay tracked, List.length_cons, List.range'_succ]
    exact congrArg _ rest

/-- All failures of an outage are scheduled when there are at most 1024. -/
theorem outage_scheduled_iff (eventId error : String) (times : List {now : ℚ // 0 < now}) :
    (∀ a ∈ Rows.failures relay {} (outage eventId error times), a.Scheduled relay) ↔ times.length ≤ 1024 := by
  have counts := attempts_outage relay {} eventId error times
  have none : ({} : Rows).attempts eventId = 0 := rfl
  rw [none, Nat.zero_add] at counts
  constructor
  · intro all
    by_contra long
    have last : times.length ∈ (Rows.failures relay {} (outage eventId error times)).map FailedAttempt.attempts := by
      rw [counts, List.mem_range'_1]
      omega
    obtain ⟨a, ha, eq⟩ := List.mem_map.1 last
    have le := (scheduled_of_mem relay ha).1 (all a ha)
    omega
  · intro short a ha
    have one := List.mem_map_of_mem (f := FailedAttempt.attempts) ha
    rw [counts, List.mem_range'_1] at one
    apply (scheduled_of_mem relay ha).2
    omega

/-- The delay is `min(max, interval * 2 ** (attempts - 1))`, and each failure of a run is recorded with a time
within the maximum, up to the 1024th attempt: so in an outage of 1025 attempts one is not. -/
theorem backoff_total_iff :
    (∀ attempts, 1 ≤ attempts →
      (relay.backoff attempts = some (relay.exact attempts) ↔
        attempts ≤ 1024 ∧ (relay.relayMaxBackoff = ⊤ → relay.Finite attempts))) ∧
    (∀ rows events, ∀ a ∈ Rows.failures relay rows events, a.Scheduled relay ↔ a.attempts ≤ 1024) ∧
    ∀ eventId error times,
      (∀ a ∈ Rows.failures relay {} (outage eventId error times), a.Scheduled relay) ↔ times.length ≤ 1024 :=
  ⟨fun attempts _ => relay.backoff_eq_exact_iff attempts, fun _ _ _ => scheduled_of_mem relay,
    outage_scheduled_iff relay⟩

end Runs

/-- The defaults: `relay_interval=5.0` and `relay_max_backoff=300.0`. -/
def Relay.default : Relay where
  relayInterval := (5 : ℚ)
  relayMaxBackoff := (300 : ℚ)
  interval_positive := by
    refine ⟨by decide, fun q h => ?_⟩
    obtain rfl := WithTop.coe_inj.1 h
    exact ⟨Double.isDouble_intCast (m := 5) (by decide),
      le_trans (by norm_num) (Double.two_pow_le_greatest.2 (by decide : 3 ≤ 1023))⟩
  maxBackoff_positive := by
    refine ⟨by decide, fun q h => ?_⟩
    obtain rfl := WithTop.coe_inj.1 h
    exact ⟨Double.isDouble_intCast (m := 300) (by decide),
      le_trans (by norm_num) (Double.two_pow_le_greatest.2 (by decide : 9 ≤ 1023))⟩

/-- The third attempt with the default settings is delayed by 20 seconds. -/
theorem backoff_total_default : Relay.default.backoff 3 = some ((20 : ℚ) : WithTop ℚ) := by
  have finite : Relay.default.relayMaxBackoff ≠ ⊤ := WithTop.coe_ne_top
  have exact := ((backoff_total_iff Relay.default).1 3 (by decide)).2 ⟨by decide, fun top => absurd top finite⟩
  rw [exact]
  refine congrArg some ?_
  show min ((300 : ℚ) : WithTop ℚ) ((5 : ℚ) * (2 ^ 2 : ℚ)) = (20 : ℚ)
  rw [← WithTop.coe_mul, ← WithTop.coe_min]
  norm_num

/-- With the default settings the 1025th attempt has no delay, and in an outage of that length a failure goes
unrecorded. -/
theorem backoff_overflows :
    Relay.default.backoff 1025 = none ∧
      ∃ a ∈ Rows.failures Relay.default {} (outage "e" "ConnectionError" (List.replicate 1025 ⟨1, one_pos⟩)),
        ¬a.Scheduled Relay.default := by
  refine ⟨Relay.default.backoff_eq_none (by decide), ?_⟩
  by_contra all
  push Not at all
  have short := (outage_scheduled_iff Relay.default _ _ _).1 all
  rw [List.length_replicate] at short
  omega

end NavigatorEventbus.Bus
