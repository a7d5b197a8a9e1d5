import NavigatorEventbus.Keyed.Exclusion

/-!
# Waits, retry delays and holds

The signals are hints and may arrive at any time, so what an outcome asks for is enforced where the next lease commits:
a message is not leased before the deadline of its wait, nor before the one of its retry unless the lease ignores it, nor
while its key is held.  A wait ends early only through a `release_hold` that marks the message pending, a hold
only through one that removes it or through the clean-up of an empty key.
-/

namespace NavigatorEventbus

open Interleave

/-- The message is marked pending, outside a transaction. -/
def Event.Marks (mid : MsgId) : Event → Prop
  | .wrote (.hsetMsg m _) => m = mid
  | _ => False

/-- The hold of `key` is removed, outside a fenced transaction. -/
def Event.Unholds (key : Key) : Event → Prop
  | .wrote (.hdelHeld k) => k = key
  | .committed (.dropKey k) _ => k = key
  | _ => False

/-- What ends the wait of a message before its deadline, or the lease after it. -/
def Event.EndsWait (key : Key) (mid : MsgId) (e : Event) : Prop := e.Breaks key mid ∨ e.Marks mid

/-- What ends the hold of a message. -/
def Event.EndsHold (key : Key) (mid : MsgId) (e : Event) : Prop := e.Breaks key mid ∨ e.Unholds key

/-- At time `now` a lease of `mid` breaks no wait, no retry delay and no hold. -/
structure Eligible (key : Key) (mid : MsgId) (ignoreDue : Bool) (now : ℤ) (log : History Event) : Prop where
  wait : ∀ q lock untilMs reason t,
    History.Since q (.committed (.wait key mid lock untilMs reason) t) (Event.EndsWait key mid) log → untilMs ≤ now
  due : ∀ q lock attempts due reason t,
    History.Since q (.committed (.retry key mid lock attempts due reason) t) (Event.Breaks key mid) log →
      ignoreDue = false → due ≤ now
  held : ∀ q lock t' reason t,
    ¬ History.Since q (.committed (.hold key mid lock t' reason) t) (Event.EndsHold key mid) log

/-- The deadlines and the holds that outcomes have left are stored, and no lease has broken one. -/
structure Restricted (κ : Keyspace) : Prop where
  waiting : ∀ {q key mid lock untilMs reason t},
    History.Since q (.committed (.wait key mid lock untilMs reason) t) (Event.EndsWait key mid) κ.log →
      ∃ h, κ.msg mid = some h ∧ h.key = some key ∧ h.state = some .waiting ∧ h.waitUntilMs = some (some untilMs)
  due : ∀ {q key mid lock attempts due reason t},
    History.Since q (.committed (.retry key mid lock attempts due reason) t) (Event.Breaks key mid) κ.log →
      ∃ h, κ.msg mid = some h ∧ h.key = some key ∧ h.dueMs = some (some due)
  held : ∀ {q key mid lock t' reason t},
    History.Since q (.committed (.hold key mid lock t' reason) t) (Event.EndsHold key mid) κ.log →
      (κ.held key).isSome
  leased : κ.log.Each fun _ e before => ∀ key mid lock gen ignoreDue now t,
    e = .committed (.lease key mid lock gen ignoreDue now) t → Eligible key mid ignoreDue t before

/-- Every client reads the clock of the server, and a head that a caller expires by itself is stored under its key. -/
def OneClock (p : ℕ) (o : KeyedCall) (c : Cmd) (i : Input) (σ : Server) : Prop :=
  i.now = σ.now ∧ HeadsNamed p o c i σ

instance (p : ℕ) (o : KeyedCall) (c : Cmd) (i : Input) (σ : Server) : Decidable (OneClock p o c i σ) :=
  inferInstanceAs (Decidable (_ ∧ _))

theorem OneClock.ok {p : ℕ} {o : KeyedCall} {c : Cmd} {i : Input} {σ : Server} (h : OneClock p o c i σ) :
    FenceOk True False o c i σ :=
  ⟨fun _ => h.1, h.2, False.elim⟩

section Stored

variable {clock : Prop} {p : ℕ} {o : KeyedCall} {σ : Server} {κ : Keyspace} {tx : Tx} {t : ℤ} {key : Key}
  {mid : MsgId} {h : MsgHash}

/-- A transaction that does not touch the key of a message leaves it. -/
theorem msg_untouched (guard : TxGuard clock p o σ tx) (stored : σ.keyed.msg mid = some h) (named : h.key = some key)
    (kept : ¬ (Event.committed tx t).Breaks key mid) : (σ.keyed.commit tx).msg mid = some h := by
  have msg := σ.keyed.msg_commit tx mid
  -- a fenced transaction is about the key under which its message is stored
  have other : ∀ {key' mid' lock}, tx.fence = some (key', mid', lock) → mid ≠ mid' := by
    rintro key' mid' lock hf rfl
    obtain ⟨h', fenced⟩ := guard.fenced hf
    have same : h = h' := Option.some.inj (stored.symm.trans fenced.stored)
    subst same
    refine kept (.inl ?_)
    rw [hf, Option.map_some, ← Option.some.inj (named.symm.trans fenced.key)]
  cases tx with
  | dropKey => exact msg.trans stored
  | push key' mid' =>
    have ne : mid ≠ mid' := by
      rintro rfl
      exact kept (.inr rfl)
    exact (msg.trans (if_neg ne)).trans stored
  | lease | retry | wait | hold | ack | expire => exact (msg.trans (if_neg (other rfl))).trans stored

/-- What a loose write leaves of a message: a mark, or the message as it was. -/
theorem msg_loose {w : Write} (loose : w.Loose) (stored : κ.msg mid = some h) :
    (κ.write w).2.msg mid = some h ∨
      (Event.wrote w).Marks mid ∧ (κ.write w).2.msg mid = some (h.set { state := some .pending }) := by
  have msg := κ.msg_write w mid
  cases w with
  | hsetMsg m f =>
    cases loose
    dsimp only at msg
    split_ifs at msg with hm
    · rw [stored] at msg
      exact .inr ⟨hm.symm, msg⟩
    · exact .inl (msg.trans stored)
  | deleteMsg => cases loose
  | _ => exact .inl (msg.trans stored)

theorem held_untouched (guard : TxGuard clock p o σ tx) (held : (σ.keyed.held key).isSome)
    (kept : ¬ (Event.committed tx t).EndsHold key mid) : ((σ.keyed.commit tx).held key).isSome := by
  have commit := σ.keyed.held_commit tx key
  rw [commit]
  cases tx with
  | dropKey k =>
    dsimp only
    rw [if_neg fun hk => kept (.inr hk.symm)]
    exact held
  | hold k =>
    dsimp only
    split_ifs
    · rfl
    · exact held
  | expire k m lock unhold own =>
    dsimp only
    rw [if_neg fun hk => kept (.inl (.inl (congrArg some hk.2.symm)))]
    exact held
  | _ => exact held

theorem held_loose {w : Write} (loose : w.Loose) (held : (κ.held key).isSome)
    (kept : ¬ (Event.wrote w).EndsHold key mid) : ((κ.write w).2.held key).isSome := by
  have write := κ.held_write w key
  rw [write]
  cases w with
  | hdelHeld k =>
    dsimp only
    rw [if_neg fun hk => kept (.inr hk.symm)]
    exact held
  | hsetHeld => cases loose
  | _ => exact held

/-- Deadlines that a message without a deadline now has left behind. -/
theorem deadline_passed {m : KeyedMessage} {ignoreDue : Bool} {now : ℤ} (now_nonneg : 0 ≤ now)
    (none : m.deadline ignoreDue now = 0) :
    (m.state = .waiting → ∀ u, m.waitUntilMs = some u → u ≤ now) ∧
      (ignoreDue = false → ∀ d, m.dueMs = some d → d ≤ now) := by
  unfold KeyedMessage.deadline at none
  dsimp only at none
  refine ⟨fun waiting u hu => ?_, fun due d hd => ?_⟩
  · by_contra early
    have still : m.state = .waiting ∧ now < u := ⟨waiting, by omega⟩
    rw [hu, Option.getD_some, if_pos still] at none
    split_ifs at none
    · have := le_max_left u (m.dueMs.getD 0)
      omega
    · omega
  · by_contra early
    rw [hd, Option.getD_some, if_pos ⟨due, by omega⟩] at none
    have := le_max_right (if m.state = .waiting ∧ now < m.waitUntilMs.getD 0 then m.waitUntilMs.getD 0 else 0) d
    omega

end Stored

/-! ## Runs -/

namespace Restricted

variable {whole : Prop} {p : ℕ} {o : KeyedCall} {σ : Server} {κ κ' : Keyspace} {tx : Tx} {key : Key} {mid : MsgId}

/-- A guarded lease breaks nothing that is stored. -/
theorem eligible (h : Restricted σ.keyed) {lock : Token} {gen : ℕ} {ignoreDue : Bool} {now : ℤ}
    (guard : TxGuard True p o σ (.lease key mid lock gen ignoreDue now)) :
    Eligible key mid ignoreDue σ.now σ.keyed.log := by
  obtain ⟨⟨h₀, m, fenced, hm, -, none⟩, free, clock, -⟩ := guard
  obtain ⟨now_nonneg, le⟩ := clock trivial
  obtain ⟨wait, due⟩ := deadline_passed now_nonneg none
  unfold toMessage at hm
  rw [fenced.key] at hm
  cases hm
  refine ⟨fun q lock untilMs reason t since => ?_, fun q lock attempts d reason t since ignored => ?_,
    fun q lock t' reason t since => ?_⟩
  · obtain ⟨h', stored, -, waiting, until_⟩ := h.waiting since
    rw [fenced.stored] at stored
    cases stored
    exact (wait (by rw [waiting]; rfl) untilMs (by rw [until_]; rfl)).trans le
  · obtain ⟨h', stored, -, hd⟩ := h.due since
    rw [fenced.stored] at stored
    cases stored
    exact (due ignored d (by rw [hd]; rfl)).trans le
  · have held := h.held since
    rw [free] at held
    cases held

theorem commit (h : Restricted σ.keyed) (guard : TxGuard True p o σ tx) :
    Restricted ((σ.keyed.commit tx).record p (.committed tx σ.now)) := by
  have log : ((σ.keyed.commit tx).record p (.committed tx σ.now)).log = (p, .committed tx σ.now) :: σ.keyed.log :=
    congrArg _ (Keyspace.log_commit _ tx)
  refine ⟨fun {q key mid lock untilMs reason t} since => ?_, fun {q key mid lock attempts due reason t} since => ?_,
    fun {q key mid lock t' reason t} since => ?_, ?_⟩
  · rw [log] at since
    rcases since.cons_inv with heq | ⟨since, kept⟩
    · cases heq
      obtain ⟨h₀, fenced, -⟩ := guard
      have msg := (σ.keyed.msg_commit (.wait key mid lock untilMs reason) mid).trans (if_pos rfl)
      rw [fenced.stored, Option.getD_some] at msg
      exact ⟨_, msg, by simpa [MsgHash.set, waitFields] using fenced.key, rfl, rfl⟩
    · obtain ⟨h₀, stored, named, rest⟩ := h.waiting since
      exact ⟨h₀, msg_untouched guard stored named fun breaks => kept (.inl breaks), named, rest⟩
  · rw [log] at since
    rcases since.cons_inv with heq | ⟨since, kept⟩
    · cases heq
      obtain ⟨h₀, fenced, -⟩ := guard
      have msg := (σ.keyed.msg_commit (.retry key mid lock attempts due reason) mid).trans (if_pos rfl)
      rw [fenced.stored, Option.getD_some] at msg
      exact ⟨_, msg, by simpa [MsgHash.set, retryFields] using fenced.key, rfl⟩
    · obtain ⟨h₀, stored, named, rest⟩ := h.due since
      exact ⟨h₀, msg_untouched guard stored named kept, named, rest⟩
  · rw [log] at since
    rcases since.cons_inv with heq | ⟨since, kept⟩
    · cases heq
      have held := (σ.keyed.held_commit (.hold key mid lock t' reason) key).trans (if_pos rfl)
      exact Option.isSome_iff_exists.2 ⟨_, held⟩
    · exact held_untouched guard (h.held since) kept
  · rw [log]
    refine h.leased.cons fun key mid lock gen ignoreDue now t he => ?_
    cases he
    exact h.eligible guard

theorem write (h : Restricted κ) {w : Write} (loose : w.Loose) :
    Restricted ((κ.write w).2.record p (.wrote w)) := by
  have log : ((κ.write w).2.record p (.wrote w)).log = (p, .wrote w) :: κ.log := congrArg _ (Keyspace.log_write _ w)
  refine ⟨fun {q key mid lock untilMs reason t} since => ?_, fun {q key mid lock attempts due reason t} since => ?_,
    fun {q key mid lock t' reason t} since => ?_, ?_⟩
  · rw [log] at since
    rcases since.cons_inv with heq | ⟨since, kept⟩
    · cases heq
    · obtain ⟨h₀, stored, named, rest⟩ := h.waiting since
      rcases msg_loose loose stored with same | ⟨marked, -⟩
      · exact ⟨h₀, same, named, rest⟩
      · exact absurd (.inr marked) kept
  · rw [log] at since
    rcases since.cons_inv with heq | ⟨since, -⟩
    · cases heq
    · obtain ⟨h₀, stored, named, due⟩ := h.due since
      rcases msg_loose loose stored with same | ⟨-, marked⟩
      · exact ⟨h₀, same, named, due⟩
      · exact ⟨_, marked, by simpa [MsgHash.set] using named, by simpa [MsgHash.set] using due⟩
  · rw [log] at since
    rcases since.cons_inv with heq | ⟨since, kept⟩
    · cases heq
    · exact held_loose loose (h.held since) kept
  · rw [log]
    exact h.leased.cons fun _ _ _ _ _ _ _ he => by cases he

theorem quiet (h : Restricted κ) (same : Quiet κ κ') : Restricted κ' := by
  obtain ⟨es, log, hes⟩ := same.log
  have absent : ∀ {q tx t}, (q, Event.committed tx t) ∉ es := fun hx => (hes _ hx).1
  refine ⟨fun {q key mid lock untilMs reason t} since => ?_, fun {q key mid lock attempts due reason t} since => ?_,
    fun {q key mid lock t' reason t} since => ?_, ?_⟩
  · rw [log] at since
    rw [same.msg]
    exact h.waiting (since.of_append absent)
  · rw [log] at since
    rw [same.msg]
    exact h.due (since.of_append absent)
  · rw [log] at since
    rw [same.held]
    exact h.held (since.of_append absent)
  · rw [log]
    refine h.leased.append fun x hx _ key mid lock gen ignoreDue now t he => ?_
    have := (hes x hx).1
    rw [he] at this
    cases this

theorem start : Restricted {} := by
  refine ⟨fun since => ?_, fun since => ?_, fun since => ?_, .nil _⟩ <;> cases since.mem

end Restricted

namespace Scenario

/-- A message waits until 50 ms, and is leased again at that time. -/
def waited : List (Act actors) :=
  whole 0 push 8 ++ whole 0 (.leaseKey "k" true 3) 9 ++ whole 0 (.apply (lease 0 0 1) (.wait (some 50) none)) 11 ++
    [.disturb (.advance 50), .call 1 ⟨queue, .leaseKey "k" false 3⟩] ++ List.replicate 9 (.exec 1 { now := 50 })

end Scenario

end NavigatorEventbus
