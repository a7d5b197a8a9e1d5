import NavigatorEventbus.Keyed.Runs

/-!
# One lease at a time

Between the commit of a lease and that of an outcome under it nobody commits a fenced transaction on the key and
nobody pushes the message again, at whatever command the lock lapses: once another lease of the key has committed, no
outcome is committed under the first.
-/

namespace NavigatorEventbus

open Interleave

/-- The key, the message and the lock of the lease under which a transaction applies an outcome. -/
def Tx.applies : Tx → Option (Key × MsgId × Token)
  | .ack key mid lock _ => some (key, mid, lock)
  | .retry key mid lock _ _ _ => some (key, mid, lock)
  | .wait key mid lock _ _ => some (key, mid, lock)
  | .hold key mid lock _ _ => some (key, mid, lock)
  | _ => none

/-- The key, the message and the lock of the lease that a transaction commits. -/
def Tx.leases : Tx → Option (Key × MsgId × Token)
  | .lease key mid lock _ _ _ => some (key, mid, lock)
  | _ => none

/-- A lease of `mid` under `lock`. -/
def Event.Leases (key : Key) (mid : MsgId) (lock : Token) : Event → Prop
  | .committed tx _ => tx.leases = some (key, mid, lock)
  | _ => False

/-- A head that a caller expires by itself is stored under its key. -/
def HeadsNamed (_p : ℕ) (o : KeyedCall) (c : Cmd) (_i : Input) (σ : Server) : Prop := o.Standalone → NamedAt c σ

instance (p : ℕ) (o : KeyedCall) (c : Cmd) (i : Input) (σ : Server) : Decidable (HeadsNamed p o c i σ) :=
  inferInstanceAs (Decidable (_ → _))

theorem HeadsNamed.ok {p : ℕ} {o : KeyedCall} {c : Cmd} {i : Input} {σ : Server} (h : HeadsNamed p o c i σ) :
    FenceOk False False o c i σ :=
  ⟨False.elim, h, False.elim⟩

section Events

variable {key : Key} {mid : MsgId} {lock : Token} {tx : Tx} {e : Event}

theorem Tx.fence_of_leases (h : tx.leases = some (key, mid, lock)) : tx.fence = some (key, mid, lock) := by
  cases tx <;> first | exact h | cases h

theorem Event.Leases.inv (h : e.Leases key mid lock) :
    ∃ gen ignoreDue now t, e = .committed (.lease key mid lock gen ignoreDue now) t := by
  cases e with
  | committed tx t =>
    cases tx with
    | lease key' mid' lock' gen ignoreDue now =>
      cases h
      exact ⟨gen, ignoreDue, now, t, rfl⟩
    | _ => cases h
  | _ => cases h

theorem Event.Leases.breaks (h : e.Leases key mid lock) (m : MsgId) : e.Breaks key m := by
  obtain ⟨gen, ignoreDue, now, t, rfl⟩ := h.inv
  exact .inl rfl

end Events

/-! ## Leases -/

namespace Exclusive

variable {clock : Prop} {p : ℕ} {o : KeyedCall} {σ : Server} {tx : Tx} {log : History Event}

/-- A lease under a lock that nobody has leased under before. -/
theorem fresh {key : Key} {mid : MsgId} {lock : Token} (serials : Serials σ.keyed) (guard : TxGuard clock p o σ tx)
    (leases : tx.leases = some (key, mid, lock)) {q : ℕ} {e : Event} {key' : Key} {mid' : MsgId}
    (he : e.Leases key' mid' lock) : (q, e) ∉ σ.keyed.log := by
  intro hq
  obtain ⟨h, fenced⟩ := guard.fenced (Tx.fence_of_leases leases)
  obtain ⟨gen, ignoreDue, now, t, rfl⟩ := he.inv
  have owner : lock.owner = q := (serials.fenced hq rfl).1
  have same : q = p := owner.symm.trans fenced.owner
  cases tx with
  | lease key₀ mid₀ lock₀ =>
    cases leases
    obtain ⟨-, -, -, -, unleased⟩ := guard
    exact unleased _ _ _ _ _ _ (History.mem_own.2 (same ▸ hq))
  | _ => cases leases

end Exclusive

namespace Scenario

/-- A message is leased, its lock lapses, another actor leases and acks it, and an outcome is applied under the first
lease. -/
def superseded : List (Act actors) :=
  whole 0 push 8 ++ whole 0 (.leaseKey "k" true 3) 9 ++ [.disturb (.lapse "k")] ++
    whole 1 (.leaseKey "k" true 3) 9 ++ whole 1 (.apply (lease 1 1 2) .ack) 10 ++
    begin 0 (.apply (lease 0 0 1) .ack) 2

end Scenario

end NavigatorEventbus
