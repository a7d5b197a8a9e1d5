import NavigatorEventbus.Keyed.Snapshots

/-!
# The attempts of a message

The `attempts` of a stored message count the retries that were committed since its push: every other transaction
leaves them, and that of a retry commits only if nobody has changed the message since its attempts were read.
-/

namespace NavigatorEventbus

open Interleave

/-- The message whose retry a transaction commits. -/
def Tx.retried : Tx → Option MsgId
  | .retry _ mid _ _ _ _ => some mid
  | _ => none

/-- The retries of `mid` that were committed since its last push. -/
def retries (mid : MsgId) : History Event → ℕ
  | [] => 0
  | (_, .committed tx _) :: log =>
    if tx.pushes = some mid then 0 else if tx.retried = some mid then retries mid log + 1 else retries mid log
  | _ :: log => retries mid log

/-- The calls are those of a queue with this `max_attempts`. -/
def Limited (maxAttempts : ℕ) (_p : ℕ) (o : KeyedCall) (_c : Cmd) (_i : Input) (_σ : Server) : Prop :=
  o.queue.config.maxAttempts = maxAttempts

instance (maxAttempts p : ℕ) (o : KeyedCall) (c : Cmd) (i : Input) (σ : Server) :
    Decidable (Limited maxAttempts p o c i σ) :=
  inferInstanceAs (Decidable (_ = _))

/-- The attempts of the stored messages are the retries that were committed for them, no more than allowed, and
a message was dropped when all that are allowed were committed. -/
structure Counted (maxAttempts : ℕ) (κ : Keyspace) : Prop where
  attempts : ∀ {mid h}, κ.msg mid = some h → h.key.isSome → h.attempts = some (retries mid κ.log)
  bounded : 0 < maxAttempts → ∀ {mid h}, κ.msg mid = some h → h.key.isSome → retries mid κ.log ≤ maxAttempts
  dropped : κ.log.Each fun _ e before => ∀ key mid lock t, e = .committed (.ack key mid lock true) t →
    0 < maxAttempts ∧ retries mid before = maxAttempts

section Retries

variable {mid : MsgId} {p : ℕ} {t : ℤ} {tx : Tx} {log es : History Event}

theorem retries_committed : retries mid ((p, .committed tx t) :: log) =
    if tx.pushes = some mid then 0 else if tx.retried = some mid then retries mid log + 1 else retries mid log := rfl

/-- Only what is committed counts. -/
theorem retries_append (quiet : ∀ x ∈ es, ∀ tx t, x.2 ≠ .committed tx t) :
    retries mid (es ++ log) = retries mid log := by
  induction es with
  | nil => rfl
  | cons x es ih =>
    have rest := ih fun y hy => quiet y (List.mem_cons_of_mem _ hy)
    obtain ⟨p, e⟩ := x
    cases e with
    | committed tx t => exact absurd rfl (quiet _ (List.mem_cons_self ..) tx t)
    | _ => exact rest

end Retries

namespace Counted

variable {maxAttempts : ℕ} {κ κ' : Keyspace} {p : ℕ} {o : KeyedCall} {tx : Tx} {t : ℤ}

/-- What is not committed, and writes neither keys nor attempts. -/
theorem of_kept (h : Counted maxAttempts κ) {es : History Event} (log : κ'.log = es ++ κ.log)
    (quiet : ∀ x ∈ es, ∀ tx t, x.2 ≠ .committed tx t)
    (msg : ∀ {mid h'}, κ'.msg mid = some h' → h'.key.isSome →
      ∃ h, κ.msg mid = some h ∧ h.key.isSome ∧ h'.attempts = h.attempts) : Counted maxAttempts κ' := by
  refine ⟨fun {mid h'} hm hk => ?_, fun pos {mid h'} hm hk => ?_, ?_⟩
  · obtain ⟨h₀, hm₀, hk₀, same⟩ := msg hm hk
    rw [log, retries_append quiet, same]
    exact h.attempts hm₀ hk₀
  · obtain ⟨h₀, hm₀, hk₀, -⟩ := msg hm hk
    rw [log, retries_append quiet]
    exact h.bounded pos hm₀ hk₀
  · rw [log]
    exact h.dropped.append fun x hx _ key mid lock t he => absurd he (quiet x hx _ t)

/-- What a transaction leaves of a message: it was just pushed, retried, or has the attempts it had. -/
theorem msg_cases (sound : TxSound (fun _ => True) o κ tx) {mid : MsgId} {h' : MsgHash}
    (hm : (κ.commit tx).msg mid = some h') (hk : h'.key.isSome) :
    (tx.pushes = some mid ∧ h'.attempts = some 0) ∨
    (∃ h, κ.msg mid = some h ∧ h.key.isSome ∧ tx.pushes ≠ some mid ∧
      ((tx.retried = some mid ∧ h'.attempts = some (h.attempts.getD 0 + 1) ∧
          (0 < o.queue.config.maxAttempts → h.attempts.getD 0 + 1 ≤ o.queue.config.maxAttempts)) ∨
        tx.retried ≠ some mid ∧ h'.attempts = h.attempts)) := by
  rw [Keyspace.msg_commit] at hm
  -- a transaction that writes fields other than the key and the attempts
  have other : ∀ {m : MsgId} {f : MsgHash}, f.key = none → f.attempts = none →
      (if mid = m then some (((κ.msg mid).getD {}).set f) else κ.msg mid) = some h' →
        ∃ h, κ.msg mid = some h ∧ h.key.isSome ∧ h'.attempts = h.attempts := by
    intro m f f_key f_attempts hm
    split_ifs at hm with hmid
    · cases hm
      have hk : ((κ.msg mid).getD {}).key.isSome := by simpa [MsgHash.set, f_key] using hk
      cases stored : κ.msg mid with
      | none =>
        rw [stored] at hk
        cases hk
      | some h =>
        rw [stored] at hk
        exact ⟨h, rfl, hk, by simp [MsgHash.set, f_attempts]⟩
    · exact ⟨h', hm, hk, rfl⟩
  cases tx with
  | dropKey => exact .inr ⟨h', hm, hk, (fun h => by cases h), .inr ⟨(fun h => by cases h), rfl⟩⟩
  | push key m body score now default =>
    dsimp only at hm
    split_ifs at hm with hmid
    · cases hm
      exact .inl ⟨congrArg some hmid.symm, rfl⟩
    · exact .inr ⟨h', hm, hk, fun h => hmid (Option.some.inj h).symm, .inr ⟨(fun h => by cases h), rfl⟩⟩
  | retry key m lock attempts due reason =>
    obtain ⟨-, h, stored, hkey, rfl, le⟩ := sound
    dsimp only at hm
    split_ifs at hm with hmid
    · subst hmid
      cases hm
      exact .inr ⟨h, stored, hkey, (fun h => by cases h), .inl ⟨rfl, by simp [MsgHash.set, retryFields], le⟩⟩
    · exact .inr ⟨h', hm, hk, (fun h => by cases h), .inr ⟨fun h => hmid (Option.some.inj h).symm, rfl⟩⟩
  | ack key m lock dropped | expire key m lock unhold own =>
    dsimp only at hm
    split_ifs at hm
    exact .inr ⟨h', hm, hk, (fun h => by cases h), .inr ⟨(fun h => by cases h), rfl⟩⟩
  | lease | wait | hold =>
    obtain ⟨h, stored, hkey, same⟩ := other rfl rfl hm
    exact .inr ⟨h, stored, hkey, (fun h => by cases h), .inr ⟨(fun h => by cases h), same⟩⟩

theorem commit (h : Counted maxAttempts κ) (limited : o.queue.config.maxAttempts = maxAttempts)
    (sound : TxSound (fun _ => True) o κ tx) :
    Counted maxAttempts ((κ.commit tx).record p (.committed tx t)) := by
  have log : ((κ.commit tx).record p (.committed tx t)).log = (p, .committed tx t) :: κ.log :=
    congrArg _ (Keyspace.log_commit _ tx)
  refine ⟨fun {mid h'} hm hk => ?_, fun pos {mid h'} hm hk => ?_, ?_⟩
  · rw [log, retries_committed]
    rcases msg_cases sound hm hk with ⟨pushed, zero⟩ | ⟨h₀, stored, hkey, kept, ⟨again, more, -⟩ | ⟨other, same⟩⟩
    · rw [if_pos pushed, zero]
    · rw [if_neg kept, if_pos again, more, h.attempts stored hkey, Option.getD_some]
    · rw [if_neg kept, if_neg other, same, h.attempts stored hkey]
  · rw [log, retries_committed]
    rcases msg_cases sound hm hk with ⟨pushed, -⟩ | ⟨h₀, stored, hkey, kept, ⟨again, -, le⟩ | ⟨other, -⟩⟩
    · rw [if_pos pushed]
      exact Nat.zero_le _
    · rw [if_neg kept, if_pos again]
      rw [h.attempts stored hkey, Option.getD_some, limited] at le
      exact le pos
    · rw [if_neg kept, if_neg other]
      exact h.bounded pos stored hkey
  · rw [log]
    refine h.dropped.cons fun key mid lock t' he => ?_
    cases he
    obtain ⟨-, h₀, stored, hkey, pos, more⟩ := sound
    rw [limited] at pos more
    rw [h.attempts stored hkey, Option.getD_some] at more
    have := h.bounded pos stored hkey
    exact ⟨pos, by omega⟩

theorem write (h : Counted maxAttempts κ) {w : Write} (loose : w.Loose) :
    Counted maxAttempts ((κ.write w).2.record p (.wrote w)) := by
  refine @of_kept _ _ _ h [(p, .wrote w)] (congrArg _ (Keyspace.log_write _ w)) ?_ fun {mid h'} hm hk => ?_
  · intro x hx tx t
    rw [List.mem_singleton.1 hx]
    nofun
  · have hm := (κ.msg_write w mid).symm.trans hm
    cases w with
    | hsetMsg m f =>
      cases loose
      dsimp only at hm
      split_ifs at hm with hmid
      · cases hm
        cases stored : κ.msg mid with
        | none =>
          rw [stored] at hk
          cases hk
        | some h₀ =>
          rw [stored] at hk
          exact ⟨h₀, rfl, hk, rfl⟩
      · exact ⟨h', hm, hk, rfl⟩
    | deleteMsg => cases loose
    | _ => exact ⟨h', hm, hk, rfl⟩

theorem quiet (h : Counted maxAttempts κ) (same : Quiet κ κ') : Counted maxAttempts κ' := by
  obtain ⟨es, log, hes⟩ := same.log
  refine h.of_kept log (fun x hx tx t he => ?_) fun {mid h'} hm hk => ?_
  · have := (hes x hx).1
    rw [he] at this
    exact this
  · rw [same.msg] at hm
    exact ⟨h', hm, hk, rfl⟩

theorem start (maxAttempts : ℕ) : Counted maxAttempts {} := by
  refine ⟨fun hm => ?_, fun _ {mid h} hm => ?_, .nil _⟩ <;> cases hm

end Counted

/-- In every state of every run of a queue, the attempts of a message are the retries committed for it, and it is
only a retry that drops a message. -/
theorem attempts_counted (maxAttempts : ℕ) {P : KeyedPool}
    (hr : Pool.Reach (Pool.Meets (Limited maxAttempts)) KeyedPool.start P) :
    Counted maxAttempts P.shared.keyed ∧ ∀ p o w key mid lock k,
      P.actors p = .calling o (.op (.keyed (.exec w (.ack key mid lock true))) k) →
        P.shared.keyed.unchanged w = true → o.Retries mid := by
  refine ⟨?_, fun p o w key mid lock k hp hw => ?_⟩
  · refine (@snapshots_invariant (fun _ => True) _ fun _ _ _ => trivial) ?_ ?_ ?_ (.start _) hr
    · exact fun limited sound h => h.commit limited sound
    · exact fun loose h => h.write loose
    · exact fun same h => h.quiet same
  · obtain ⟨retries, -⟩ := (@sound_next (fun _ => True) _ _ fun _ _ _ => trivial) hr hp hw
    exact retries

namespace Scenario

/-- A queue that allows one retry. -/
def onceMore : KeyedQueue := { queue with config := { config with maxAttempts := 1 } }

/-- The second lease of a message that was retried once. -/
def leaseAgain : KeyedLease :=
  { lease 0 1 2 with message := { message with gen := 2, state := .leased, attempts := 1 } }

/-- A message is pushed, retried, pushed again while it is stored, and dropped when it is retried again. -/
def dropping : List (Act actors) :=
  let call (op : KeyedOp) (n : ℕ) : List (Act actors) :=
    .call 0 ⟨onceMore, op⟩ :: List.replicate n (.exec 0 {}) ++ [.ret 0]
  call push 8 ++ call (.leaseKey "k" true 3) 9 ++ call (.apply (lease 0 0 1) (.retry none none)) 11 ++
    call push 7 ++ call (.leaseKey "k" true 3) 9 ++ call (.apply leaseAgain (.retry none none)) 11

end Scenario

open Scenario in
theorem attempts_counted_witness : ∃ P : KeyedPool,
    (0, .committed (.ack "k" "a" ⟨0, 1⟩ true) 0) ∈ P.shared.keyed.log ∧ Counted 1 P.shared.keyed := by
  have run : ∃ P ∈ KeyedPool.start.runIf (Limited 1) dropping,
      (0, .committed (.ack "k" "a" ⟨0, 1⟩ true) 0) ∈ P.shared.keyed.log := by decide +kernel
  obtain ⟨P, hP, dropped⟩ := run
  exact ⟨P, dropped, (attempts_counted 1 (.of_runIf hP)).1⟩

end NavigatorEventbus
