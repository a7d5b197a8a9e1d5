import NavigatorEventbus.Brokers.Machine

/-!
# Settlement of deliveries

The runs of the handler around a callback, one constructor for each way through it (`Attended`, `Retried`,
`Handled`), and what they settle and republish.  A delivery is settled at most once and neither lost nor
repeated exactly when no settlement succeeds on a channel that is not the delivery's, and a republish succeeds
just when the callback had not (`settlement_iff`): the handler rejects a failed message before it republishes
it, and a failed acknowledgement sends a message that was processed the same way.
-/

namespace NavigatorEventbus.Brokers

open Interleave

open Bus (Exc Outcome)

section Handler

variable {broker : Broker}

/-! ## What a run settles and republishes -/

/-- The delivery that a call settles when it succeeds: its channel and its tag. -/
def settles (s : Issued (machine broker)) : Option (ℕ × ℕ) :=
  match s.cmd with
  | .ack channel tag | .nack channel tag _ => if s.input.settle.isOk then some (channel, tag) else none
  | .reject tag _ =>
    match s.before.channel with
    | some channel => if s.input.settle.isOk then some (channel, tag) else none
    | none => none
  | _ => none

/-- The properties of a message that a call republishes when it succeeds. -/
def republishes (s : Issued (machine broker)) : Option (Text × Text × Bytes × Properties) :=
  match s.cmd with
  | .republish _ exchange routingKey body properties =>
    if s.input.publish.isOk then some (exchange, routingKey, body, properties) else none
  | _ => none

/-- The way that a callback ends. -/
def callsBack (s : Issued (machine broker)) : Option Ended :=
  match s.cmd with
  | .callback _ _ => some s.input.callback
  | _ => none

/-- The callback ended so. -/
def CallbackEnded (e : Ended) (t : List (Issued (machine broker))) : Prop := e ∈ t.filterMap callsBack

instance (e : Ended) (t : List (Issued (machine broker))) : Decidable (CallbackEnded e t) :=
  inferInstanceAs (Decidable (e ∈ t.filterMap callsBack))

/-- The message that a retry republishes. -/
def Message.again (message : Message) (retryCount : ℤ) : Text × Text × Bytes × Properties :=
  (message.exchange.getD [], message.routingKey.getD [], message.body, message.retryProperties retryCount)

/-- A handler that executed `t` settled its own delivery at most once and no other one; the delivery is still
unsettled, or was republished once with the next retry count, unless the callback succeeded or rejected it or
its retries are used up; and it was not republished when the callback succeeded. -/
structure Settled (maxRetries : ℤ) (message : Message) (t : List (Issued (machine broker))) : Prop where
  once : t.filterMap settles = [] ∨
    ∃ tag, message.deliveryTag = some tag ∧ t.filterMap settles = [(message.channel, tag)]
  kept : CallbackEnded .returned t ∨ CallbackEnded .rejected t ∨
    (∃ n, message.retryCount broker.codec = .ok n ∧ maxRetries ≤ n) ∨
    (t.filterMap settles = [] ∧ t.filterMap republishes = []) ∨
    ∃ n, message.retryCount broker.codec = .ok n ∧ n + 1 ≤ maxRetries ∧
      t.filterMap republishes = [message.again (n + 1)]
  unrepeated : CallbackEnded .returned t → t.filterMap republishes = []

/-- A step of a handler: no settlement succeeds on another channel than the delivery's, and a republish
succeeds just when the callback has not. -/
def Orderly (message : Message) (t : List (Issued (machine broker))) (s : Issued (machine broker)) : Prop :=
  match s.cmd with
  | .ack channel _ | .nack channel _ _ => channel = message.channel ∨ s.input.settle.isOk = false
  | .reject _ _ => s.before.channel = some message.channel ∨ s.before.channel = none ∨ s.input.settle.isOk = false
  | .republish _ _ _ _ _ => s.input.publish.isOk = true ↔ ¬ CallbackEnded .returned t
  | _ => True

instance (message : Message) (t : List (Issued (machine broker))) (s : Issued (machine broker)) :
    Decidable (Orderly message t s) := by
  unfold Orderly
  split <;> infer_instance

/-! ## The ways through the handler -/

variable {maxRetries : ℤ} {message : Message} {channel tag p : ℕ} {E : State → State → Prop} {σ σ' : State}
  {t : List (Issued (machine broker))}

/-- The ways through the `try` block. -/
inductive Attended (channel tag : ℕ) (message : Message) : List (Issued (machine broker)) → Ended → Prop where
  | undecoded {exc : Exc} (h : message.process broker.codec = .error exc) :
      Attended channel tag message [] (.raised exc)
  | rejected {s : Issued (machine broker)} {body : Decoded} (cmd : s.cmd = .callback message body)
      (ended : s.input.callback = .rejected) : Attended channel tag message [s] .rejected
  | raised {s : Issued (machine broker)} {body : Decoded} {exc : Exc} (cmd : s.cmd = .callback message body)
      (ended : s.input.callback = .raised exc) : Attended channel tag message [s] (.raised exc)
  | acknowledged {s s' : Issued (machine broker)} {body : Decoded} (cmd : s.cmd = .callback message body)
      (ended : s.input.callback = .returned) (ack : s'.cmd = .ack channel tag) (ok : s'.input.settle = .ok ()) :
      Attended channel tag message [s, s'] .returned
  | unacknowledged {s s' : Issued (machine broker)} {body : Decoded} {exc : Exc}
      (cmd : s.cmd = .callback message body) (ended : s.input.callback = .returned)
      (ack : s'.cmd = .ack channel tag) (failed : s'.input.settle = .error exc) :
      Attended channel tag message [s, s'] (.raised exc)

/-- The ways through the handler of an exception. -/
inductive Retried (maxRetries : ℤ) (channel tag : ℕ) (message : Message) :
    List (Issued (machine broker)) → Prop where
  | unread {exc : Exc} (h : message.retryCount broker.codec = .error exc) : Retried maxRetries channel tag message []
  | unsettled {s : Issued (machine broker)} {exc : Exc} (cmd : s.cmd = .nack channel tag false)
      (failed : s.input.settle = .error exc) : Retried maxRetries channel tag message [s]
  | again {s s' : Issued (machine broker)} {n : ℤ} (h : message.retryCount broker.codec = .ok n)
      (le : n + 1 ≤ maxRetries) (cmd : s.cmd = .nack channel tag false) (ok : s.input.settle = .ok ())
      (cmd' : s'.cmd = .republish channel (message.exchange.getD []) (message.routingKey.getD []) message.body
        (message.retryProperties (n + 1))) : Retried maxRetries channel tag message [s, s']
  | discarded {s : Issued (machine broker)} {n : ℤ} (h : message.retryCount broker.codec = .ok n)
      (lt : maxRetries ≤ n) (cmd : s.cmd = .nack channel tag false) (ok : s.input.settle = .ok ()) :
      Retried maxRetries channel tag message [s]

/-- The ways through the handler. -/
inductive Handled (maxRetries : ℤ) (message : Message) : List (Issued (machine broker)) → Prop where
  | untagged : Handled maxRetries message []
  | closed {s : Issued (machine broker)} (cmd : s.cmd = .channel) : Handled maxRetries message [s]
  | returned {s : Issued (machine broker)} {t : List (Issued (machine broker))} {channel tag : ℕ}
      (cmd : s.cmd = .channel) (hasTag : message.deliveryTag = some tag)
      (attended : Attended channel tag message t .returned) : Handled maxRetries message (s :: t)
  | rejected {s s' : Issued (machine broker)} {t : List (Issued (machine broker))} {channel tag : ℕ}
      (cmd : s.cmd = .channel) (hasTag : message.deliveryTag = some tag)
      (attended : Attended channel tag message t .rejected) (cmd' : s'.cmd = .reject tag false) :
      Handled maxRetries message (s :: (t ++ [s']))
  | raised {s : Issued (machine broker)} {t t' : List (Issued (machine broker))} {channel tag : ℕ} {exc : Exc}
      (cmd : s.cmd = .channel) (hasTag : message.deliveryTag = some tag)
      (attended : Attended channel tag message t (.raised exc))
      (retried : Retried maxRetries channel tag message t') : Handled maxRetries message (s :: (t ++ t'))
  | escaped {s : Issued (machine broker)} {t : List (Issued (machine broker))} {channel tag : ℕ} {exc : Exc}
      (cmd : s.cmd = .channel) (hasTag : message.deliveryTag = some tag)
      (attended : Attended channel tag message t (.raised exc)) : Handled maxRetries message (s :: t)

theorem attended_of_trace {e : Ended} (h : Trace (machine broker) p E
      (attend broker.codec application channel tag message) σ t (.pure e) σ') :
    Attended channel tag message t e := by
  unfold attend at h
  cases decoded : message.process broker.codec with
  | error exc =>
    rw [decoded] at h
    obtain ⟨rfl, he⟩ := h.pure_inv
    cases he
    exact .undecoded decoded
  | ok body =>
    rw [decoded] at h
    obtain ⟨i, σ₁, t₁, rfl, h₁⟩ := h.op_pure_inv
    cases ended : i.callback with
    | returned =>
      simp only [State.exec, ended, Prog.bind] at h₁
      obtain ⟨j, σ₂, t₂, rfl, h₂⟩ := h₁.op_pure_inv
      cases settle : j.settle with
      | ok =>
        simp only [State.exec, settle, Prog.bind] at h₂
        obtain ⟨rfl, he⟩ := h₂.pure_inv
        cases he
        exact @Attended.acknowledged _ _ _ _ _ _ body rfl ended rfl settle
      | error exc =>
        simp only [State.exec, settle, Prog.bind] at h₂
        obtain ⟨rfl, he⟩ := h₂.pure_inv
        cases he
        exact @Attended.unacknowledged _ _ _ _ _ _ body _ rfl ended rfl settle
    | rejected =>
      simp only [State.exec, ended, Prog.bind] at h₁
      obtain ⟨rfl, he⟩ := h₁.pure_inv
      cases he
      exact @Attended.rejected _ _ _ _ _ body rfl ended
    | raised exc =>
      simp only [State.exec, ended, Prog.bind] at h₁
      obtain ⟨rfl, he⟩ := h₁.pure_inv
      cases he
      exact @Attended.raised _ _ _ _ _ body _ rfl ended

theorem retried_of_trace {r : Outcome Unit} (h : Trace (machine broker) p E
      (retry broker.codec maxRetries channel tag message) σ t (.pure r) σ') :
    Retried maxRetries channel tag message t := by
  unfold retry at h
  cases count : message.retryCount broker.codec with
  | error exc =>
    rw [count] at h
    obtain ⟨rfl, -⟩ := h.pure_inv
    exact .unread count
  | ok n =>
    rw [count] at h
    dsimp only at h
    split_ifs at h with le
    · obtain ⟨i, σ₁, t₁, rfl, h₁⟩ := h.op_pure_inv
      cases settle : i.settle with
      | error exc =>
        simp only [State.exec, settle, Prog.bind] at h₁
        obtain ⟨rfl, -⟩ := h₁.pure_inv
        exact .unsettled rfl settle
      | ok =>
        simp only [State.exec, settle, Prog.bind] at h₁
        obtain ⟨j, σ₂, t₂, rfl, h₂⟩ := h₁.op_pure_inv
        obtain ⟨rfl, -⟩ := h₂.pure_inv
        exact .again count le rfl settle rfl
    · obtain ⟨i, σ₁, t₁, rfl, h₁⟩ := h.op_pure_inv
      obtain ⟨rfl, -⟩ := h₁.pure_inv
      cases settle : i.settle with
      | error exc => exact .unsettled rfl settle
      | ok => exact .discarded count (by omega) rfl settle

theorem handled_of_trace {r : Outcome Unit} (h : Trace (machine broker) p E
      (wrapCallback broker.codec application maxRetries message) σ t (.pure r) σ') :
    Handled maxRetries message t := by
  unfold wrapCallback at h
  cases hasTag : message.deliveryTag with
  | none =>
    rw [hasTag] at h
    obtain ⟨rfl, -⟩ := h.pure_inv
    exact .untagged
  | some tag =>
    rw [hasTag] at h
    obtain ⟨i, σ₁, t₁, rfl, h₁⟩ := h.op_pure_inv
    cases current : σ₁.channel with
    | none =>
      simp only [State.exec, current, Prog.bind] at h₁
      obtain ⟨rfl, -⟩ := h₁.pure_inv
      exact .closed rfl
    | some channel =>
      simp only [State.exec, current, Prog.bind] at h₁
      obtain ⟨t₂, t₃, e, σ₂, rfl, h₂, h₃⟩ := h₁.bind_pure_inv
      have attended := attended_of_trace h₂
      cases e with
      | returned =>
        obtain ⟨rfl, -⟩ := h₃.pure_inv
        rw [List.append_nil]
        exact .returned rfl hasTag attended
      | rejected =>
        obtain ⟨j, σ₃, t₄, rfl, h₄⟩ := h₃.op_pure_inv
        obtain ⟨rfl, -⟩ := h₄.pure_inv
        exact .rejected rfl hasTag attended rfl
      | raised exc =>
        dsimp only at h₃
        split_ifs at h₃
        · exact .raised rfl hasTag attended (retried_of_trace h₃)
        · obtain ⟨rfl, -⟩ := h₃.pure_inv
          rw [List.append_nil]
          exact .escaped rfl hasTag attended

/-! ## What the ways settle and republish -/

theorem Attended.settles {e : Ended} (h : Attended channel tag message t e) :
    t.filterMap settles = if e = .returned then [(channel, tag)] else [] := by
  cases h with
  | undecoded => rfl
  | rejected cmd | raised cmd => simp [Brokers.settles, cmd]
  | acknowledged cmd _ ack ok => simp [Brokers.settles, cmd, ack, ok, Except.isOk, Except.toBool]
  | unacknowledged cmd _ ack failed => simp [Brokers.settles, cmd, ack, failed, Except.isOk, Except.toBool]

theorem Attended.republishes {e : Ended} (h : Attended channel tag message t e) :
    t.filterMap republishes = [] := by
  cases h with
  | undecoded => rfl
  | rejected cmd | raised cmd => simp [Brokers.republishes, cmd]
  | acknowledged cmd _ ack | unacknowledged cmd _ ack => simp [Brokers.republishes, cmd, ack]

/-- An attended delivery is orderly, when an acknowledgement goes out on its own channel. -/
theorem Attended.orderly {e : Ended} (h : Attended channel tag message t e) {whole : List (Issued (machine broker))} :
    (∀ s ∈ t, Orderly message whole s) ↔ (e = .returned → channel = message.channel) := by
  cases h with
  | undecoded => simp
  | rejected cmd | raised cmd => simp [Orderly, cmd]
  | acknowledged cmd _ ack ok => simp [Orderly, cmd, ack, ok, Except.isOk, Except.toBool]
  | unacknowledged cmd _ ack failed => simp [Orderly, cmd, ack, failed, Except.isOk, Except.toBool]

theorem Attended.ended {e : Ended} (h : Attended channel tag message t e) (he : ∀ exc, e ≠ .raised exc) :
    CallbackEnded e t := by
  cases h with
  | undecoded | raised | unacknowledged => exact absurd rfl (he _)
  | rejected cmd ended => simp [CallbackEnded, callsBack, cmd, ended]
  | acknowledged cmd ended ack => simp [CallbackEnded, callsBack, cmd, ended]

theorem Attended.not_rejected {exc : Exc} (h : Attended channel tag message t (.raised exc)) :
    ¬ CallbackEnded .rejected t := by
  cases h with
  | undecoded => simp [CallbackEnded]
  | raised cmd ended => simp [CallbackEnded, callsBack, cmd, ended]
  | unacknowledged cmd ended ack => simp [CallbackEnded, callsBack, cmd, ended, ack]

theorem Retried.callsBack (h : Retried maxRetries channel tag message t) : t.filterMap callsBack = [] := by
  cases h with
  | unread => rfl
  | unsettled cmd | discarded _ _ cmd => simp [Brokers.callsBack, cmd]
  | again _ _ cmd _ cmd' => simp [Brokers.callsBack, cmd, cmd']

/-- Nothing is settled or republished: the delivery is as it was. -/
theorem Settled.untouched (settles : t.filterMap settles = []) (republishes : t.filterMap republishes = []) :
    Settled maxRetries message t where
  once := .inl settles
  kept := .inr (.inr (.inr (.inl ⟨settles, republishes⟩)))
  unrepeated _ := republishes

/-- After a callback that raised: the delivery is settled and kept exactly when it is orderly. -/
theorem settled_raised_iff {first : Issued (machine broker)} {t' : List (Issued (machine broker))} {exc : Exc}
    (cmd : first.cmd = .channel) (hasTag : message.deliveryTag = some tag)
    (attended : Attended channel tag message t (.raised exc)) (retried : Retried maxRetries channel tag message t') :
    Settled maxRetries message (first :: (t ++ t')) ↔
      ∀ s ∈ first :: (t ++ t'), Orderly message (first :: (t ++ t')) s := by
  have settles_eq : (first :: (t ++ t')).filterMap settles = t'.filterMap settles := by
    simp [settles, cmd, attended.settles]
  have republishes_eq : (first :: (t ++ t')).filterMap republishes = t'.filterMap republishes := by
    simp [republishes, cmd, attended.republishes]
  have ended_iff : ∀ e, CallbackEnded e (first :: (t ++ t')) ↔ CallbackEnded e t := by
    simp [CallbackEnded, callsBack, cmd, retried.callsBack]
  have orderly : (∀ s ∈ first :: (t ++ t'), Orderly message (first :: (t ++ t')) s) ↔
      ∀ s ∈ t', Orderly message (first :: (t ++ t')) s := by
    have free := (@Attended.orderly _ _ _ _ _ _ attended (first :: (t ++ t'))).2 nofun
    simp only [List.mem_cons, List.mem_append, forall_eq_or_imp, Orderly, cmd, true_and]
    exact ⟨fun h s hs => h s (.inr hs), fun h s hs => hs.elim (free s) (h s)⟩
  rw [orderly]
  cases retried with
  | unread => exact ⟨fun _ s hs => absurd hs List.not_mem_nil, fun _ => .untouched settles_eq republishes_eq⟩
  | unsettled cmd' failed =>
    refine ⟨fun _ s hs => ?_, fun _ => .untouched ?_ ?_⟩
    · rw [List.mem_singleton.1 hs]
      simp [Orderly, cmd', failed, Except.isOk, Except.toBool]
    · rw [settles_eq]
      simp [settles, cmd', failed, Except.isOk, Except.toBool]
    · rw [republishes_eq]
      simp [republishes, cmd']
  | @discarded s' n count lt cmd' ok =>
    have one : [s'].filterMap settles = [(channel, tag)] := by simp [settles, cmd', ok, Except.isOk, Except.toBool]
    have none : [s'].filterMap republishes = [] := by simp [republishes, cmd']
    rw [one] at settles_eq
    rw [none] at republishes_eq
    have here : (∀ s ∈ [s'], Orderly message (first :: (t ++ [s'])) s) ↔ channel = message.channel := by
      simp [Orderly, cmd', ok, Except.isOk, Except.toBool]
    rw [here]
    refine ⟨fun h => ?_, fun same => ⟨.inr ⟨tag, hasTag, same ▸ settles_eq⟩, .inr (.inr (.inl ⟨n, count, lt⟩)),
      fun _ => republishes_eq⟩⟩
    rcases h.once with none | ⟨tag', -, own⟩
    · rw [settles_eq] at none
      cases none
    · rw [settles_eq] at own
      exact (Prod.mk.inj (List.cons.inj own).1).1
  | @again s' s'' n count le cmd' ok cmd'' =>
    have one : [s', s''].filterMap settles = [(channel, tag)] := by
      simp [settles, cmd', cmd'', ok, Except.isOk, Except.toBool]
    have sent : [s', s''].filterMap republishes = if s''.input.publish.isOk then [message.again (n + 1)] else [] := by
      cases hp : s''.input.publish.isOk <;> simp [republishes, cmd', cmd'', hp, Message.again]
    rw [one] at settles_eq
    rw [sent] at republishes_eq
    have here : (∀ s ∈ [s', s''], Orderly message (first :: (t ++ [s', s''])) s) ↔
        channel = message.channel ∧ (s''.input.publish.isOk = true ↔ ¬ CallbackEnded .returned t) := by
      rw [← ended_iff]
      simp [Orderly, cmd', cmd'', ok, Except.isOk, Except.toBool]
    rw [here]
    constructor
    · intro h
      refine ⟨?_, ?_, fun failed => ?_⟩
      · rcases h.once with none | ⟨tag', -, own⟩
        · rw [settles_eq] at none
          cases none
        · rw [settles_eq] at own
          exact (Prod.mk.inj (List.cons.inj own).1).1
      · intro published returned
        have none := h.unrepeated ((ended_iff _).2 returned)
        rw [republishes_eq, if_pos published] at none
        cases none
      · by_contra lost
        rw [if_neg lost] at republishes_eq
        rcases h.kept with returned | rejected | ⟨k, hk, used⟩ | ⟨none, -⟩ | ⟨k, -, -, republished⟩
        · exact failed ((ended_iff _).1 returned)
        · exact attended.not_rejected ((ended_iff _).1 rejected)
        · rw [count] at hk
          cases hk
          omega
        · rw [settles_eq] at none
          cases none
        · rw [republishes_eq] at republished
          cases republished
    · rintro ⟨same, published⟩
      refine ⟨.inr ⟨tag, hasTag, same ▸ settles_eq⟩, ?_, fun returned => ?_⟩
      · by_cases returned : CallbackEnded .returned t
        · exact .inl ((ended_iff _).2 returned)
        · rw [if_pos (published.2 returned)] at republishes_eq
          exact .inr (.inr (.inr (.inr ⟨n, count, le, republishes_eq⟩)))
      · rw [republishes_eq, if_neg]
        exact fun ok => published.1 ok ((ended_iff _).1 returned)

theorem settled_iff (h : Handled maxRetries message t) :
    Settled maxRetries message t ↔ ∀ s ∈ t, Orderly message t s := by
  cases h with
  | untagged => exact ⟨fun _ s hs => absurd hs List.not_mem_nil, fun _ => .untouched rfl rfl⟩
  | closed cmd =>
    refine ⟨fun _ s hs => ?_, fun _ => .untouched (by simp [settles, cmd]) (by simp [republishes, cmd])⟩
    rw [List.mem_singleton.1 hs]
    simp [Orderly, cmd]
  | @returned first t channel tag cmd hasTag attended =>
    have settles_eq : (first :: t).filterMap settles = [(channel, tag)] := by simp [settles, cmd, attended.settles]
    have republishes_eq : (first :: t).filterMap republishes = [] := by
      simp [republishes, cmd, attended.republishes]
    have ended : CallbackEnded .returned (first :: t) := by
      simpa [CallbackEnded, callsBack, cmd] using attended.ended fun exc h => by cases h
    have orderly : (∀ s ∈ first :: t, Orderly message (first :: t) s) ↔ channel = message.channel := by
      have own := @Attended.orderly _ _ _ _ _ _ attended (first :: t)
      rw [List.forall_mem_cons, own]
      simp [Orderly, cmd]
    rw [orderly]
    refine ⟨fun h => ?_, fun same => ⟨.inr ⟨tag, hasTag, same ▸ settles_eq⟩, .inl ended, fun _ => republishes_eq⟩⟩
    rcases h.once with none | ⟨tag', -, own⟩
    · rw [settles_eq] at none
      cases none
    · rw [settles_eq] at own
      exact (Prod.mk.inj (List.cons.inj own).1).1
  | @rejected first s' t channel tag cmd hasTag attended cmd' =>
    have settles_eq : (first :: (t ++ [s'])).filterMap settles = [s'].filterMap settles := by
      simp [settles, cmd, attended.settles]
    have republishes_eq : (first :: (t ++ [s'])).filterMap republishes = [] := by
      simp [republishes, cmd, cmd', attended.republishes]
    have ended : CallbackEnded .rejected (first :: (t ++ [s'])) := by
      have := attended.ended fun exc h => by cases h
      simp only [CallbackEnded, List.filterMap_cons, List.filterMap_append, List.mem_append, callsBack, cmd] at this ⊢
      exact .inl this
    have orderly : (∀ s ∈ first :: (t ++ [s']), Orderly message (first :: (t ++ [s'])) s) ↔
        Orderly message (first :: (t ++ [s'])) s' := by
      have free := (@Attended.orderly _ _ _ _ _ _ attended (first :: (t ++ [s']))).2 fun h => by cases h
      simp only [List.mem_cons, List.mem_append, List.not_mem_nil, or_false, forall_eq_or_imp]
      refine ⟨fun h => h.2 s' (.inr rfl), fun h => ⟨by simp [Orderly, cmd], fun s hs => ?_⟩⟩
      rcases hs with hs | rfl
      · exact free s hs
      · exact h
    have whole : ((first :: (t ++ [s'])).filterMap settles = [] ∨ ∃ tag, message.deliveryTag = some tag ∧
        (first :: (t ++ [s'])).filterMap settles = [(message.channel, tag)]) ↔
          Orderly message (first :: (t ++ [s'])) s' := by
      rw [settles_eq]
      cases current : s'.before.channel <;> cases settle : s'.input.settle.isOk <;>
        simp [settles, Orderly, cmd', current, settle, hasTag]
    rw [orderly, ← whole]
    exact ⟨fun h => h.once, fun h => ⟨h, .inr (.inl ended), fun _ => republishes_eq⟩⟩
  | raised cmd hasTag attended retried => exact settled_raised_iff cmd hasTag attended retried
  | @escaped first t channel tag exc cmd hasTag attended =>
    refine ⟨fun _ s hs => ?_, fun _ => .untouched ?_ ?_⟩
    · rcases List.mem_cons.1 hs with rfl | hs
      · simp [Orderly, cmd]
      · exact attended.orderly.2 (fun h => by cases h) s hs
    · simp [settles, cmd, attended.settles]
    · simp [republishes, cmd, attended.republishes]

theorem returns_wrapCallback (codec : Codec) (maxRetries : ℤ) (message : Message) :
    (wrapCallback codec application maxRetries message).Returns := by
  unfold wrapCallback
  split
  · trivial
  · refine .cmd_bind fun current => ?_
    cases current with
    | none => trivial
    | some channel =>
      refine Prog.Returns.bind ?_ fun e => ?_
      · unfold attend
        split
        · trivial
        · refine .cmd_bind fun e => ?_
          cases e with
          | returned => exact .cmd_bind fun r => by cases r <;> trivial
          | rejected => trivial
          | raised => trivial
      · cases e with
        | returned => trivial
        | rejected => exact fun _ _ => trivial
        | raised exc =>
          dsimp only
          split_ifs
          · unfold retry
            split
            · trivial
            · split_ifs
              · refine .cmd_bind fun r => ?_
                cases r with
                | error => trivial
                | ok => exact fun _ _ => trivial
              · exact fun _ _ => trivial
          · trivial

end Handler

/-! ## Repeated retries -/

/-- A message that `k` retries have made of another one. -/
inductive Retries (codec : Codec) (maxRetries : ℤ) (message : Message) : ℕ → Message → Prop where
  | zero : Retries codec maxRetries message 0 message
  | succ {k : ℕ} {m m' : Message} {n : ℤ} (h : Retries codec maxRetries message k m)
      (count : m.retryCount codec = .ok n) (le : n + 1 ≤ maxRetries)
      (properties : m'.properties = some (m.retryProperties (n + 1))) :
      Retries codec maxRetries message (k + 1) m'

/-- Each retry is counted, and none is made once they are used up. -/
theorem Retries.bounded {codec : Codec} {maxRetries : ℤ} {message m : Message} {k : ℕ} {n : ℤ}
    (h : Retries codec maxRetries message k m) (count : message.retryCount codec = .ok n) :
    (k ≠ 0 → n + k ≤ maxRetries) ∧ ∀ c, m.retryCount codec = .ok c → c = n + k := by
  induction h with
  | zero =>
    refine ⟨fun h => absurd rfl h, fun c hc => ?_⟩
    rw [count] at hc
    cases hc
    simp
  | succ _ hn le properties ih =>
    have counted := ih.2 _ hn
    refine ⟨fun _ => by omega, fun c hc => ?_⟩
    rw [retryCount_retry properties hc]
    omega

/-- The handler comes to its end, and settles and keeps its delivery exactly when its steps are orderly: no
settlement succeeds on a channel that is not the delivery's, and a republish succeeds just when the callback
has not. The retries of a message are at most as many as it has left. -/
theorem settlement_iff (broker : Broker) (maxRetries : ℤ) (message : Message) :
    (wrapCallback broker.codec application maxRetries message).Returns ∧
    (∀ (p : ℕ) (E : State → State → Prop) (σ σ' : State) (t : List (Issued (machine broker))) (r : Outcome Unit),
      Trace (machine broker) p E (wrapCallback broker.codec application maxRetries message) σ t (.pure r) σ' →
        (Settled maxRetries message t ↔ ∀ s ∈ t, Orderly message t s)) ∧
    ∀ (k : ℕ) (m : Message) (n : ℤ), Retries broker.codec maxRetries message k m →
      message.retryCount broker.codec = .ok n → k ≠ 0 → n + k ≤ maxRetries :=
  ⟨returns_wrapCallback broker.codec maxRetries message,
    fun _ _ _ _ _ _ h => settled_iff (handled_of_trace h),
    fun _ _ _ retries count => (retries.bounded count).1⟩

namespace Scenario

/-- Serializers that are not used. -/
def codec : Codec where
  loads _ := none
  decode _ := none
  unserialize _ := none
  dumps _ := .ok []

def broker : Broker := { codec := codec }

/-- A delivery of a text. -/
def delivered : Message where
  channel := 0
  deliveryTag := some 3
  properties := some { contentType := some "text/plain".toList }
  body := [104, 105]

/-- A connection with an open channel. -/
def connected : State := { connected := true, channel := some 0, channels := 1 }

def failure : Exc := .exception "ValueError" (some "no")

end Scenario

open Scenario in
/-- The callback fails, and the message is republished. -/
theorem settlement_iff_witness : ∃ σ' t r, Trace (machine broker) 0 (fun _ _ => False)
      (wrapCallback broker.codec application 3 delivered) connected t (.pure r) σ' ∧
    t.filterMap republishes = [delivered.again 1] ∧ Settled 3 delivered t := by
  let inputs : List Input := [{}, { callback := .raised failure }, {}, {}]
  have run := Trace.of_follow (M := machine broker) (p := 0) (E := fun _ _ => False)
    (wrapCallback broker.codec application 3 delivered) connected inputs
  have orderly : ∀ s ∈ (Prog.follow (machine broker) 0 inputs
      (wrapCallback broker.codec application 3 delivered) connected).1,
      Orderly delivered (Prog.follow (machine broker) 0 inputs
        (wrapCallback broker.codec application 3 delivered) connected).1 s := by decide
  exact ⟨_, _, _, run, by decide, ((settlement_iff broker 3 delivered).2.1 _ _ _ _ _ _ run).2 orderly⟩

open Scenario in
/-- The callback fails, the message is rejected, and its republish fails: the message is lost. -/
theorem delivery_lost : ¬ ∀ (broker : Broker) (maxRetries : ℤ) (message : Message) (p : ℕ)
    (E : State → State → Prop) (σ σ' : State) (t : List (Issued (machine broker))) (r : Outcome Unit),
    Trace (machine broker) p E (wrapCallback broker.codec application maxRetries message) σ t (.pure r) σ' →
      Settled maxRetries message t := by
  intro h
  let inputs : List Input := [{}, { callback := .raised failure }, {}, { publish := .error failure }]
  have run := Trace.of_follow (M := machine broker) (p := 0) (E := fun _ _ => False)
    (wrapCallback broker.codec application 3 delivered) connected inputs
  have disorderly : ¬ ∀ s ∈ (Prog.follow (machine broker) 0 inputs
      (wrapCallback broker.codec application 3 delivered) connected).1,
      Orderly delivered (Prog.follow (machine broker) 0 inputs
        (wrapCallback broker.codec application 3 delivered) connected).1 s := by decide
  exact disorderly ((settled_iff (handled_of_trace run)).1 (h broker 3 delivered _ _ _ _ _ _ run))

end NavigatorEventbus.Brokers
