import NavigatorEventbus.Keyed.Exclusion
import NavigatorEventbus.Keyed.Idempotence

/-!
# Calls that lose their lease

An outcome and an expiry change the queue in one transaction, which is fenced.  What raises `LeaseLost` has left the
messages, their indexes, the holds and the deadlines as they were; what returns has committed its transaction once,
and nothing else under a fence.
-/

namespace NavigatorEventbus

open Interleave

/-! ## One call -/


/-- The command leaves the messages, their indexes, the holds and the deadlines as they are. -/
structure KeepsData (p : ℕ) (x : Issued server) : Prop where
  msg : (x.after p).keyed.msg = x.before.keyed.msg
  index : (x.after p).keyed.index = x.before.keyed.index
  all : (x.after p).keyed.all = x.before.keyed.all
  keys : (x.after p).keyed.keys = x.before.keyed.keys
  held : (x.after p).keyed.held = x.before.keyed.held
  delayed : (x.after p).keyed.delayed = x.before.keyed.delayed

/-- The message that a transaction expires, with its key and the lock. -/
def Tx.expires : Tx → Option (Key × MsgId × Token)
  | .expire key mid lock _ _ => some (key, mid, lock)
  | _ => none

/-- The commands `t` committed one fenced transaction, of the kind that `f` tells, and changed nothing before it. -/
def CommitsOnce (p : ℕ) (f : Tx → Option (Key × MsgId × Token)) (key : Key) (mid : MsgId) (lock : Token)
    (t : List (Issued server)) : Prop :=
  ∃ before i σ w tx after, t = before ++ ⟨.keyed (.exec w tx), i, σ⟩ :: after ∧ (∀ y ∈ before, KeepsData p y) ∧
    σ.keyed.unchanged w = true ∧ f tx = some (key, mid, lock) ∧
      ∀ y ∈ after, ∀ w' tx', y.cmd = .keyed (.exec w' tx') → tx'.fence = none

/-- What an `apply` came to that issued `t`: it changed nothing, or committed one outcome under the lock of its lease;
nothing when it raises `LeaseLost`, and an outcome when it returns. -/
structure ApplySettled (p : ℕ) (lease : KeyedLease) (t : List (Issued server)) (r : Except Exc Unit) : Prop where
  atomic : (∀ x ∈ t, KeepsData p x) ∨ CommitsOnce p Tx.applies lease.key lease.message.messageId lease.lock t
  lost : ∀ why, r = .error (.leaseLost why) → ∀ x ∈ t, KeepsData p x
  done : r = .ok () → CommitsOnce p Tx.applies lease.key lease.message.messageId lease.lock t

/-- What an `expire_head` came to that issued `t`: it removed the message in one transaction when it returns that it has,
and changed nothing in any other case. -/
structure ExpirySettled (p : ℕ) (key : Key) (mid : MsgId) (t : List (Issued server)) (r : Except Exc Bool) : Prop where
  expired : r = .ok true → ∃ lock, CommitsOnce p Tx.expires key mid lock t
  kept : r ≠ .ok true → ∀ x ∈ t, KeepsData p x

/-- A command that is neither a transaction nor a write. -/
def Cmd.Reads : Cmd → Prop
  | .keyed (.exec _ _) => False
  | .keyed (.write _) => False
  | _ => True

section Settled

variable {p : ℕ} {E : Server → Server → Prop} {σ σ' : Server} {t : List (Issued server)}

theorem Cmd.Reads.keeps {x : Issued server} (h : x.cmd.Reads) : KeepsData p x := by
  obtain ⟨c, i, σ⟩ := x
  cases c with
  | now | stream => exact ⟨rfl, rfl, rfl, rfl, rfl, rfl⟩
  | keyed c =>
    have data : σ.keyed.data c = σ.keyed := by
      cases c with
      | exec => cases h
      | write => cases h
      | _ => rfl
    refine ⟨?_, ?_, ?_, ?_, ?_, ?_⟩ <;> unfold Issued.after <;> dsimp only [Server.exec]
    · rw [Keyspace.msg_exec, data]
    · rw [Keyspace.index_exec, data]
    · rw [Keyspace.all_exec, data]
    · rw [Keyspace.keys_exec, data]
    · rw [Keyspace.held_exec, data]
    · rw [Keyspace.delayed_exec, data]

/-- A transaction that fails. -/
theorem KeepsData.of_failed {w : Watch} {tx : Tx} {i : Input} (hw : σ.keyed.unchanged w = false) :
    KeepsData p ⟨.keyed (.exec w tx), i, σ⟩ := by
  constructor <;> unfold Issued.after <;> dsimp only <;> rw [exec_failed hw] <;> rfl

/-- Readings in front of a transaction. -/
theorem CommitsOnce.append {f : Tx → Option (Key × MsgId × Token)} {key : Key} {mid : MsgId} {lock : Token}
    {t' : List (Issued server)} (h : CommitsOnce p f key mid lock t) (keeps : ∀ x ∈ t', KeepsData p x) :
    CommitsOnce p f key mid lock (t' ++ t) := by
  obtain ⟨before, i, σ, w, tx, after, rfl, clean, rest⟩ := h
  refine ⟨t' ++ before, i, σ, w, tx, after, by rw [List.append_assoc], fun y hy => ?_, rest⟩
  rcases List.mem_append.1 hy with hy | hy
  · exact keeps y hy
  · exact clean y hy

/-- What follows the transaction. -/
theorem CommitsOnce.followed {f : Tx → Option (Key × MsgId × Token)} {key : Key} {mid : MsgId} {lock : Token}
    {t' : List (Issued server)} (h : CommitsOnce p f key mid lock t) (reads : ∀ x ∈ t', x.cmd.Reads) :
    CommitsOnce p f key mid lock (t ++ t') := by
  obtain ⟨before, i, σ, w, tx, after, rfl, clean, hw, hf, unfenced⟩ := h
  refine ⟨before, i, σ, w, tx, after ++ t', by rw [List.append_assoc, List.cons_append], clean, hw, hf,
    fun y hy w' tx' hc => ?_⟩
  rcases List.mem_append.1 hy with hy | hy
  · exact unfenced y hy w' tx' hc
  · have := reads y hy
    rw [hc] at this
    cases this

/-- Readings in front of an outcome. -/
theorem ApplySettled.append {lease : KeyedLease} {r : Except Exc Unit} {t' : List (Issued server)}
    (h : ApplySettled p lease t r) (keeps : ∀ x ∈ t', KeepsData p x) : ApplySettled p lease (t' ++ t) r := by
  have both : (∀ x ∈ t, KeepsData p x) → ∀ x ∈ t' ++ t, KeepsData p x := fun ht x hx => by
    rcases List.mem_append.1 hx with hx | hx
    · exact keeps x hx
    · exact ht x hx
  refine ⟨?_, fun why hr => both (h.lost why hr), fun hr => (h.done hr).append keeps⟩
  rcases h.atomic with kept | once
  · exact .inl (both kept)
  · exact .inr (once.append keeps)

theorem reads_verifyFence (lock : Token) (key : Key) (mid : MsgId) (gen : Option ℕ) (createdMs : Option ℤ) :
    (KeyedQueue.verifyFence lock key mid gen createdMs).All Cmd.Reads := by
  refine .bind (.one trivial) fun w => .bind (.one trivial) fun stored => ?_
  split_ifs
  · trivial
  · refine .bind (.one trivial) fun raw => ?_
    cases raw <;> trivial

theorem reads_handoffDlq (q : KeyedQueue) (message : KeyedMessage) (error : String) :
    (q.handoffDlq message error).All Cmd.Reads := by
  unfold KeyedQueue.handoffDlq
  split_ifs <;> exact .one trivial

theorem reconcile_yields (q : KeyedQueue) (key : Key) :
    (q.reconcile key).Yields fun r => ∀ why, r ≠ .error (.leaseLost why) := by
  have fine : ∀ b : Bool, ∀ why, (.ok b : Except Exc Bool) ≠ .error (.leaseLost why) := fun b why h => by cases h
  refine .then fun head => ?_
  cases head with
  | none => exact .then fun _ => fine false
  | some mid =>
    refine .then fun raw => ?_
    cases raw with
    | none => exact .then fun _ => fine true
    | some raw =>
      refine .then fun held => ?_
      split_ifs
      · exact .then fun _ => fine false
      · unfold KeyedQueue.reconcileHead
        cases hm : toMessage raw mid with
        | error e =>
          intro why h
          cases h
          unfold toMessage at hm
          split at hm <;> cases hm
        | ok message =>
          refine .then fun now => ?_
          dsimp only
          split_ifs
          · exact .then fun _ => fine false
          · exact .then fun _ => .then fun _ => fine true

/-- An outcome that has been committed is not lost afterwards. -/
theorem settle_yields (q : KeyedQueue) (lease : KeyedLease) (outcome : Outcome) :
    (q.settle lease outcome).Yields fun r => ∀ why, r ≠ .error (.leaseLost why) := by
  have fine : ∀ why, (.ok () : Except Exc Unit) ≠ .error (.leaseLost why) := fun why h => by cases h
  refine .then fun _ => ?_
  cases outcome with
  | hold => exact .then fun _ => fine
  | ack | retry | wait =>
    refine .bind (reconcile_yields q lease.key) fun r hr => ?_
    cases r with
    | error e => exact fun why h => hr why (by cases h; rfl)
    | ok _ => exact .then fun _ => fine

theorem outcomeTx_applies (q : KeyedQueue) (lease : KeyedLease) (current : KeyedMessage) (now : ℤ)
    (outcome : Outcome) : (q.outcomeTx lease current now outcome).applies =
      some (lease.key, lease.message.messageId, lease.lock) := by
  unfold KeyedQueue.outcomeTx
  dsimp only
  split_ifs
  · rfl
  · cases outcome <;> rfl

/-- What an `apply` came to that has returned. -/
theorem apply_settled (q : KeyedQueue) (lease : KeyedLease) (outcome : Outcome) {r : Except Exc Unit}
    (h : Trace server p E (q.apply lease outcome) σ t (.pure r) σ') : ApplySettled p lease t r := by
  obtain ⟨t₁, t₂, a, σ₁, rfl, fence, rest⟩ := Trace.bind_pure_inv h
  have reads : ∀ x ∈ t₁, KeepsData p x := fun x hx =>
    ((fence.all (reads_verifyFence ..)).1 x hx).keeps
  cases a with
  | error e =>
    obtain ⟨rfl, hr⟩ := rest.pure_inv
    cases hr
    rw [List.append_nil]
    exact ⟨.inl reads, fun _ _ => reads, fun h => by cases h⟩
  | ok wc =>
    obtain ⟨w, current⟩ := wc
    obtain ⟨i, σ₂, t₃, rfl, tail⟩ := now_inv rest
    generalize i.now = now at tail
    -- the transaction, with what follows it
    have finish : ∀ {t : List (Issued server)} {σ : Server}, Trace server p E (do
        if ← Script.keyed (.exec w (q.outcomeTx lease current now outcome)) then
          q.settle lease outcome
        else
          return .error (.leaseLost (.superseded lease.key)) : Script (Except Exc Unit)) σ t (.pure r) σ' →
        ApplySettled p lease t r := by
      intro t σ h
      obtain ⟨i, σ₃, t₄, rfl, settling⟩ := keyed_inv h
      cases hw : σ₃.keyed.unchanged w with
      | true =>
        rw [exec_committed hw] at settling
        have plain := (settling.all (q.commits_settle lease (T := fun tx => tx.fence = none) rfl outcome)).1
        have once : CommitsOnce p Tx.applies lease.key lease.message.messageId lease.lock
            (⟨.keyed (.exec w (q.outcomeTx lease current now outcome)), i, σ₃⟩ :: t₄) := by
          refine ⟨[], i, σ₃, w, _, t₄, rfl, fun _ hy => absurd hy List.not_mem_nil, hw,
            outcomeTx_applies .., fun y hy w' tx' hc => ?_⟩
          have := plain y hy
          rwa [hc] at this
        exact ⟨.inr once, fun why he => absurd he (settling.yields (settle_yields q lease outcome) why), fun _ => once⟩
      | false =>
        have failed : KeepsData p ⟨.keyed (.exec w (q.outcomeTx lease current now outcome)), i, σ₃⟩ := .of_failed hw
        rw [exec_failed hw] at settling
        obtain ⟨rfl, hr⟩ := settling.pure_inv
        cases hr
        exact ⟨.inl (List.forall_mem_singleton.2 failed), fun _ _ => List.forall_mem_singleton.2 failed,
          fun h => by cases h⟩
    have clock : KeepsData p ⟨.now, i, σ₂⟩ := Cmd.Reads.keeps trivial
    dsimp only at tail
    cases ex : q.exhausted current outcome with
    | none =>
      rw [ex] at tail
      rw [← List.singleton_append (l := t₃), ← List.append_assoc]
      refine (finish tail).append fun x hx => ?_
      rcases List.mem_append.1 hx with hx | hx
      · exact reads x hx
      · rw [List.mem_singleton.1 hx]
        exact clock
    | some me =>
      obtain ⟨message, error⟩ := me
      rw [ex] at tail
      obtain ⟨t₄, t₅, u, σ₃, rfl, handed, tail⟩ := Trace.bind_pure_inv tail
      have reads' : ∀ x ∈ t₄, KeepsData p x := fun x hx => ((handed.all (reads_handoffDlq ..)).1 x hx).keeps
      rw [← List.singleton_append (l := t₄ ++ t₅), ← List.append_assoc, ← List.append_assoc]
      refine (finish tail).append fun x hx => ?_
      rcases List.mem_append.1 hx with hx | hx
      · rcases List.mem_append.1 hx with hx | hx
        · exact reads x hx
        · rw [List.mem_singleton.1 hx]
          exact clock
      · exact reads' x hx

/-- Readings in front of an expiry, and behind it. -/
theorem ExpirySettled.within {key : Key} {mid : MsgId} {r : Except Exc Bool} {before after : List (Issued server)}
    (h : ExpirySettled p key mid t r) (reads : ∀ x ∈ before, x.cmd.Reads) (reads' : ∀ x ∈ after, x.cmd.Reads) :
    ExpirySettled p key mid (before ++ (t ++ after)) r := by
  refine ⟨fun hr => ?_, fun hr x hx => ?_⟩
  · obtain ⟨lock, once⟩ := h.expired hr
    exact ⟨lock, (once.followed reads').append fun x hx => (reads x hx).keeps⟩
  · rcases List.mem_append.1 hx with hx | hx
    · exact (reads x hx).keeps
    · rcases List.mem_append.1 hx with hx | hx
      · exact h.kept hr x hx
      · exact (reads' x hx).keeps

theorem ExpirySettled.reads {key : Key} {mid : MsgId} {r : Except Exc Bool} (hr : r ≠ .ok true)
    (reads : ∀ x ∈ t, x.cmd.Reads) : ExpirySettled p key mid t r :=
  ⟨fun h => absurd h hr, fun _ x hx => (reads x hx).keeps⟩

theorem expireFenced_settled (q : KeyedQueue) (key : Key) (message : KeyedMessage) (lock : Token) (own : Bool)
    {r : Except Exc Bool} (h : Trace server p E (q.expireFenced key message lock own) σ t (.pure r) σ') :
    ExpirySettled p key message.messageId t r := by
  obtain ⟨t₁, t₂, a, σ₁, rfl, fence, rest⟩ := Trace.bind_pure_inv h
  have reads := (fence.all (reads_verifyFence ..)).1
  cases a with
  | error e =>
    obtain ⟨rfl, hr⟩ := rest.pure_inv
    cases hr
    rw [List.append_nil]
    exact .reads (fun h => by cases h) reads
  | ok wc =>
    obtain ⟨w, current⟩ := wc
    obtain ⟨t₃, t₄, u, σ₂, rfl, handed, tail⟩ := Trace.bind_pure_inv rest
    obtain ⟨i, σ₃, t₅, rfl, tail'⟩ := keyed_inv tail
    dsimp only at tail'
    generalize ((σ₃.exec p (.keyed (.hgetHeld key)) i).1.any fun h => decide (h.messageId = message.messageId)) =
      unhold at tail'
    obtain ⟨i', σ₄, t₆, rfl, last⟩ := keyed_inv tail'
    have front : ∀ x ∈ t₁ ++ (t₃ ++ [⟨.keyed (.hgetHeld key), i, σ₃⟩]), x.cmd.Reads := by
      intro x hx
      rcases List.mem_append.1 hx with hx | hx
      · exact reads x hx
      · rcases List.mem_append.1 hx with hx | hx
        · exact (handed.all (reads_handoffDlq ..)).1 x hx
        · rw [List.mem_singleton.1 hx]
          trivial
    have split : t₁ ++ (t₃ ++ ⟨.keyed (.hgetHeld key), i, σ₃⟩ ::
        ⟨.keyed (.exec w (.expire key message.messageId lock unhold own)), i', σ₄⟩ :: t₆) =
        (t₁ ++ (t₃ ++ [⟨.keyed (.hgetHeld key), i, σ₃⟩])) ++
          ([⟨.keyed (.exec w (.expire key message.messageId lock unhold own)), i', σ₄⟩] ++ t₆) := by simp
    rw [split]
    cases hw : σ₄.keyed.unchanged w with
    | true =>
      rw [exec_committed hw] at last
      obtain ⟨rfl, hr⟩ := last.pure_inv
      cases hr
      refine .within ⟨fun _ => ⟨lock, [], i', σ₄, w, _, [], rfl, ?_, hw, rfl, ?_⟩, fun h => absurd rfl h⟩ front ?_
      all_goals exact fun _ hx => absurd hx List.not_mem_nil
    | false =>
      rw [exec_failed hw] at last
      obtain ⟨rfl, hr⟩ := last.pure_inv
      cases hr
      have failed : KeepsData p ⟨.keyed (.exec w (.expire key message.messageId lock unhold own)), i', σ₄⟩ :=
        .of_failed hw
      refine .within ⟨(fun h => by cases h), fun _ => List.forall_mem_singleton.2 failed⟩ front ?_
      exact fun _ hx => absurd hx List.not_mem_nil

/-- What an `expire_head` came to that has returned. -/
theorem expiry_settled (q : KeyedQueue) (key : Key) (message : KeyedMessage) (lock : Option Token)
    {r : Except Exc Bool} (h : Trace server p E (q.expireHead key message lock) σ t (.pure r) σ') :
    ExpirySettled p key message.messageId t r := by
  unfold KeyedQueue.expireHead at h
  cases hmax : q.config.maxAgeMs with
  | none =>
    rw [hmax] at h
    obtain ⟨rfl, hr⟩ := h.pure_inv
    cases hr
    exact .reads (fun h => by cases h) fun _ hx => absurd hx List.not_mem_nil
  | some maxAge =>
    rw [hmax] at h
    obtain ⟨i, σ₁, t₁, rfl, rest⟩ := now_inv h
    have clock : ∀ x ∈ [(⟨.now, i, σ₁⟩ : Issued server)], x.cmd.Reads := List.forall_mem_singleton.2 trivial
    generalize i.now = now at rest
    by_cases young : now ≤ message.createdMs + maxAge
    · rw [if_pos young] at rest
      obtain ⟨rfl, hr⟩ := rest.pure_inv
      cases hr
      exact .reads (fun h => by cases h) clock
    · rw [if_neg young] at rest
      cases lock with
      | some lock =>
        have nothing : ∀ x ∈ ([] : List (Issued server)), x.cmd.Reads := fun _ hx => absurd hx List.not_mem_nil
        have settled := (expireFenced_settled q key message lock false rest).within clock nothing
        rwa [List.append_nil, List.singleton_append] at settled
      | none =>
        obtain ⟨i', σ₂, t₂, rfl, rest'⟩ := keyed_inv rest
        generalize (σ₂.exec p (.keyed (.acquire key q.config.lockTtlMs)) i').1 = own at rest'
        have front : ∀ x ∈ [(⟨.now, i, σ₁⟩ : Issued server), ⟨.keyed (.acquire key q.config.lockTtlMs), i', σ₂⟩],
            x.cmd.Reads := List.forall_mem_cons.2 ⟨trivial, List.forall_mem_singleton.2 trivial⟩
        cases own with
        | none =>
          obtain ⟨rfl, hr⟩ := rest'.pure_inv
          cases hr
          exact .reads (fun h => by cases h) front
        | some own =>
          obtain ⟨t₃, t₄, a, σ₃, rfl, fenced, tail⟩ := Trace.bind_pure_inv rest'
          obtain ⟨t₅, t₆, u, σ₄, rfl, released, done⟩ := Trace.bind_pure_inv tail
          obtain ⟨rfl, hr⟩ := done.pure_inv
          cases hr
          rw [List.append_nil]
          have release : (KeyedQueue.release key own).All Cmd.Reads := .bind (.one trivial) fun _ => trivial
          exact (expireFenced_settled q key message own true fenced).within front (released.all release).1

end Settled

/-- In every run, an `apply` that raises `LeaseLost` has changed nothing and one that returns has committed one outcome
under its lease; an `expire_head` has removed its message in one transaction, or has changed nothing. -/
theorem lost_lease_inert {P : KeyedPool} {g : ℕ → List (Issued server)}
    (hr : Pool.Recorded (Pool.Meets Unrestricted) Pool.issued KeyedPool.start (fun _ => []) P g) :
    (∀ p q lease outcome r, P.actors p = .calling ⟨q, .apply lease outcome⟩ (.pure r) →
      ∃ r', r = .applied r' ∧ ApplySettled p lease (g p) r') ∧
    ∀ p q key message r, P.actors p = .calling ⟨q, .expireHead key message⟩ (.pure r) →
      ∃ r', r = .expired r' ∧ ExpirySettled p key message.messageId (g p) r' := by
  refine ⟨fun p q lease outcome r hp => ?_, fun p q key message r hp => ?_⟩
  · obtain ⟨σ, trace⟩ := hr.trace (fun p => ⟨_, rfl⟩) hp
    obtain ⟨t, t', r', σ', split, applied, rest⟩ := Trace.bind_pure_inv trace
    obtain ⟨rfl, hr⟩ := rest.pure_inv
    cases hr
    rw [split, List.append_nil]
    exact ⟨r', rfl, apply_settled q lease outcome applied⟩
  · obtain ⟨σ, trace⟩ := hr.trace (fun p => ⟨_, rfl⟩) hp
    obtain ⟨t, t', r', σ', split, expired, rest⟩ := Trace.bind_pure_inv trace
    obtain ⟨rfl, hr⟩ := rest.pure_inv
    cases hr
    rw [split, List.append_nil]
    exact ⟨r', rfl, expiry_settled q key message none expired⟩

namespace Scenario

/-- A message is leased, its lock lapses, and an outcome is applied. -/
def lapsed : List (Act actors) :=
  whole 0 push 8 ++ whole 0 (.leaseKey "k" true 3) 9 ++ [.disturb (.lapse "k")] ++
    begin 0 (.apply (lease 0 0 1) .ack) 2

end Scenario

open Scenario in
theorem lost_lease_inert_witness : ∃ (g : ℕ → List (Issued server)) (why : LostReason),
    ApplySettled 0 (lease 0 0 1) (g 0) (.error (.leaseLost why)) := by
  have run : ∃ Pg ∈ KeyedPool.start.recordSolo 0 (fun _ _ => true) Pool.issued (fun _ => []) lapsed,
      ∃ why, (Pg.1.actors 0).result = some (⟨queue, .apply (lease 0 0 1) .ack⟩, .applied (.error (.leaseLost why))) :=
    ⟨_, rfl, _, rfl⟩
  obtain ⟨⟨P, g⟩, hrun, why, result⟩ := run
  have free : ∀ {Q : KeyedPool} {a}, Pool.Meets Unrestricted Q a := by
    intro Q a
    cases a with
    | exec => exact fun _ _ _ _ => trivial
    | _ => trivial
  obtain ⟨applies, -⟩ := lost_lease_inert (.of_solo (fun _ _ _ _ => free) (fun _ _ => ⟨_, rfl⟩) hrun)
  obtain ⟨r, hr, settled⟩ := applies 0 _ _ _ _ (Actor.result_eq_some.1 result)
  cases hr
  exact ⟨g, why, settled⟩

end NavigatorEventbus
