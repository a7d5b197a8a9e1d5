import NavigatorEventbus.Lib.RelyGuarantee
import NavigatorEventbus.Lifecycle.Isolation
import NavigatorEventbus.Subscribers.Audit

/-!
# Conservation of the audited rows

Where the rows of a subscriber are.  In every run each appended row is persisted, dropped, in a flush that was
reported failed or left by an exception it does not catch, in the buffer or in a flush in progress
(`accounted`).  A full buffer gives up its oldest row before the new one is built, and the final drain takes a
single batch; without envelopes and closes that run into this the subscriber is conservative (`conserved`).
-/

namespace NavigatorEventbus.Audit

open Interleave

open Bus (Exc Outcome)

open Lifecycle (Ordinarily Value)

variable {audit : AuditSubscriber} {p q : ℕ} {o : Call} {c : Cmd} {i : Input} {σ σ' : State} {e : Envelope}

/-! ## Where the rows are -/

namespace State

variable (σ : State)

/-- The rows that were appended to the buffer. -/
def appended : ℕ := History.total (fun | .appended => 1 | _ => 0) σ.log

/-- The rows of the flushes that were reported failed. -/
def failed : ℕ := History.total (fun | .failed rows => rows | _ => 0) σ.log

/-- The rows of the flushes that were left by an exception that they do not catch. -/
def interrupted : ℕ := History.total (fun | .interrupted rows => rows | _ => 0) σ.log

/-- The rows of the flushes in progress. -/
def inFlight : ℕ := History.total (fun flush => flush.rows.length) σ.flushing

/-- Every row is accounted for. -/
def Balanced : Prop :=
  σ.appended = σ.stats.persisted + σ.stats.dropped + σ.failed + σ.stats.buffered + σ.inFlight

/-- Every row is accounted for, with those of the flushes that were interrupted. -/
def Accounted : Prop :=
  σ.appended =
    σ.stats.persisted + σ.stats.dropped + σ.failed + σ.interrupted + σ.stats.buffered + σ.inFlight

end State

namespace State.Accounted

theorem wakeIfBatch (h : Accounted σ) : Accounted (σ.wakeIfBatch audit) := by
  unfold State.wakeIfBatch
  split <;> exact h

theorem drained (h : Accounted σ) (final : Bool) : Accounted (σ.drained p final) := by
  cases final
  · exact h
  · simpa [Accounted, State.drained, State.record, State.appended, State.failed, State.interrupted,
      State.inFlight, State.stats] using h

/-- The end of `_on_envelope`, after a buffered row was dropped or none was removed. -/
theorem buffer_ (h : Accounted σ) (removed : ℕ) : Accounted (σ.buffer_ audit p e removed).2 := by
  unfold State.buffer_
  cases rowFor e with
  | ok row =>
    apply wakeIfBatch
    simp only [Accounted, State.append, State.record, State.appended, State.failed, State.interrupted,
      State.inFlight, State.stats, History.total_cons, List.length_append, List.length_singleton] at h ⊢
    omega
  | error exc =>
    simpa [Accounted, State.record, State.appended, State.failed, State.interrupted, State.inFlight,
      State.stats] using h

theorem onEnvelope (h : Accounted σ) (e : Envelope) : Accounted (σ.onEnvelope audit p e).2 := by
  unfold State.onEnvelope
  split_ifs
  · split
    · simpa [Accounted, State.record, State.appended, State.failed, State.interrupted, State.inFlight,
        State.stats] using h
    · rename_i oldest rest buffer
      apply buffer_
      simp only [Accounted, State.appended, State.failed, State.interrupted, State.inFlight, State.stats,
        buffer, List.length_cons] at h ⊢
      omega
  · exact h.buffer_ 0
  · exact h

theorem take (h : Accounted σ) (final : Bool) : Accounted (σ.take audit p final).2 := by
  unfold State.take
  split_ifs
  · exact h.drained final
  · have parts := congrArg List.length (List.take_append_drop audit.batchSize σ.buffer)
    simp only [Accounted, State.appended, State.failed, State.interrupted, State.inFlight, State.stats,
      History.total_cons, List.length_append] at h parts ⊢
    omega

theorem settle (h : Accounted σ) (r : Outcome Unit) : Accounted (σ.settle audit p r).2 := by
  unfold State.settle
  split
  · exact h
  · rename_i flush hflush
    have rows := History.total_pop (fun flush => flush.rows.length) hflush
    split
    · apply drained
      apply wakeIfBatch
      simp only [Accounted, State.release, State.appended, State.failed, State.interrupted, State.inFlight,
        State.stats] at h ⊢
      omega
    · split_ifs
      · apply drained
        apply wakeIfBatch
        simp only [Accounted, State.release, State.record, State.appended, State.failed, State.interrupted,
          State.inFlight, State.stats, History.total_cons] at h ⊢
        omega
      · simp only [Accounted, State.release, State.record, State.appended, State.failed, State.interrupted,
          State.inFlight, State.stats, History.total_cons] at h ⊢
        omega

end State.Accounted

/-- The commands besides `_on_envelope` and the two ends of a flush. -/
def Cmd.Aside : Cmd → Prop
  | onEnvelope _ | take _ | settle _ => False
  | _ => True

/-- They leave the rows where they are. -/
structure Untouched (σ σ' : State) : Prop where
  buffer : σ'.buffer = σ.buffer
  dropped : σ'.dropped = σ.dropped
  persisted : σ'.persisted = σ.persisted
  flushing : σ'.flushing = σ.flushing
  log : σ'.log = σ.log

theorem Untouched.refl (σ : State) : Untouched σ σ := ⟨rfl, rfl, rfl, rfl, rfl⟩

theorem untouched_exec (hc : c.Aside) (i : Input) (σ : State) : Untouched σ (σ.exec audit p c i).2 := by
  cases c with
  | onEnvelope | take | settle => exact hc.elim
  | attach =>
    simp only [State.exec, State.attach]
    split_ifs
    · split <;> exact ⟨rfl, rfl, rfl, rfl, rfl⟩
    · exact .refl σ
  | waited =>
    simp only [State.exec, State.waited]
    split <;> exact ⟨rfl, rfl, rfl, rfl, rfl⟩
  | lock =>
    simp only [State.exec, State.lock]
    split <;> exact ⟨rfl, rfl, rfl, rfl, rfl⟩
  | unlock r => cases r <;> exact ⟨rfl, rfl, rfl, rfl, rfl⟩
  | execute s =>
    simp only [State.exec, State.execute]
    split <;> exact ⟨rfl, rfl, rfl, rfl, rfl⟩
  | join task =>
    simp only [State.exec, State.join]
    split
    · split_ifs <;> exact ⟨rfl, rfl, rfl, rfl, rfl⟩
    · exact ⟨rfl, rfl, rfl, rfl, rfl⟩
  | started | isTableReady | connection | leave | ended | stop => exact ⟨rfl, rfl, rfl, rfl, rfl⟩

theorem Untouched.accounted (same : Untouched σ σ') (h : State.Accounted σ) : State.Accounted σ' := by
  simpa only [State.Accounted, State.appended, State.failed, State.interrupted, State.inFlight, State.stats,
    same.buffer, same.dropped, same.persisted, same.flushing, same.log] using h

theorem accounted_exec (h : State.Accounted σ) (c : Cmd) (i : Input) : State.Accounted (σ.exec audit p c i).2 := by
  have aside : c.Aside → State.Accounted (σ.exec audit p c i).2 := fun hc => (untouched_exec hc i σ).accounted h
  cases c with
  | onEnvelope e => exact h.onEnvelope e
  | take final => exact h.take final
  | settle r => exact h.settle r
  | _ => exact aside trivial

/-- In every run each appended row is persisted, dropped, in a flush that failed or was interrupted, in the
buffer or in a flush in progress. -/
theorem accounted {A : Pool (subscriber audit) → Act (subscriber audit) → Prop}
    {P : Pool (subscriber audit)} (hr : Pool.Reach A audit.new P) : State.Accounted P.shared :=
  hr.stable (J := State.Accounted) (fun h => accounted_exec h _ _) (fun h => h) (fun (d : Empty) _ => d.elim) rfl

/-! ## The flush of a task -/

/-- The wait of a flush for the database is not cut short by an exception that it does not catch. -/
def Completes (c : Cmd) (i : Input) : Prop :=
  match c with
  | .lock | .connection | .execute _ | .leave => Ordinarily i.outcome
  | _ => True

instance (c : Cmd) (i : Input) : Decidable (Completes c i) := by
  apply c.casesOn (motive := fun c => Decidable (Completes c i)) <;> intros <;> dsimp only [Completes] <;>
    infer_instance

/-- A task has one flush at a time, and ends it with an outcome that it handles. -/
def Guarded (p : ℕ) (c : Cmd) (σ : State) : Prop :=
  match c with
  | .take _ => History.own p σ.flushing = []
  | .settle r => Ordinarily r ∧ ∃ flush, History.own p σ.flushing = [flush]
  | _ => True

/-- The contract of the tasks. -/
def frames (audit : AuditSubscriber) : Contract (subscriber audit) where
  Inv _ := True
  Ok _ _ c i _ := Completes c i
  Guard p _ c _ σ := Guarded p c σ
  Post p _ _ σ := History.own p σ.flushing = []
  inv_exec _ _ _ := trivial
  inv_note _ _ := trivial
  inv_disturb _ _ := trivial

@[simp] theorem flushing_wakeIfBatch (σ : State) : (σ.wakeIfBatch audit).flushing = σ.flushing := by
  unfold State.wakeIfBatch
  split <;> rfl

@[simp] theorem buffer_wakeIfBatch (σ : State) : (σ.wakeIfBatch audit).buffer = σ.buffer := by
  unfold State.wakeIfBatch
  split <;> rfl

@[simp] theorem flushing_drained (σ : State) (final : Bool) : (σ.drained p final).flushing = σ.flushing := by
  cases final <;> rfl

theorem flushing_onEnvelope (σ : State) : (σ.onEnvelope audit p e).2.flushing = σ.flushing := by
  have built : ∀ (σ : State) removed, (σ.buffer_ audit p e removed).2.flushing = σ.flushing := by
    intro σ removed
    unfold State.buffer_
    split
    · rw [flushing_wakeIfBatch]
      rfl
    · rfl
  unfold State.onEnvelope
  split_ifs
  · split
    · rfl
    · rw [built]
  · rw [built]
  · rfl

theorem flushing_settle (r : Outcome Unit) (h : (List.lookup p σ.flushing).isSome = true) :
    (σ.settle audit p r).2.flushing = σ.flushing.pop p := by
  obtain ⟨flush, hflush⟩ := Option.isSome_iff_exists.1 h
  simp only [State.settle, hflush]
  split
  · rw [flushing_drained, flushing_wakeIfBatch]
    rfl
  · split_ifs
    · rw [flushing_drained, flushing_wakeIfBatch]
      rfl
    · rfl

/-- The flushes of a task are its own. -/
theorem own_exec (hq : q ≠ p) (c : Cmd) (i : Input) (σ : State) :
    History.own p (σ.exec audit q c i).2.flushing = History.own p σ.flushing := by
  have aside : c.Aside → History.own p (σ.exec audit q c i).2.flushing = History.own p σ.flushing :=
    fun hc => by rw [(untouched_exec hc i σ).flushing]
  cases c with
  | onEnvelope e => exact congrArg _ (flushing_onEnvelope σ)
  | take final =>
    simp only [State.exec, State.take]
    split_ifs
    · rw [flushing_drained]
    · exact History.own_cons_of_ne hq
  | settle r =>
    cases hflush : List.lookup q σ.flushing with
    | none => simp only [State.exec, State.settle, hflush]
    | some flush => rw [State.exec, flushing_settle r (by rw [hflush]; rfl), History.own_pop_of_ne hq]
  | _ => exact aside trivial

/-- A task without a flush takes its rows, or there is nothing to flush. -/
theorem own_take (h : History.own p σ.flushing = []) (final : Bool) :
    match (σ.take audit p final).1 with
    | .nothing _ => History.own p (σ.take audit p final).2.flushing = []
    | .rows _ => ∃ flush, History.own p (σ.take audit p final).2.flushing = [flush] := by
  unfold State.take
  split_ifs
  · simpa using h
  · exact ⟨⟨final, σ.buffer.take audit.batchSize⟩, by simp [h]⟩

/-- The end of the flush of a task. -/
theorem own_settle {flush : Flush} (h : History.own p σ.flushing = [flush]) (r : Outcome Unit) :
    History.own p (σ.settle audit p r).2.flushing = [] := by
  rw [flushing_settle r, History.own_pop_self, h, List.tail_cons]
  rw [History.lookup_eq_head?, h]
  rfl

section Safe

variable {α : Type} {Q : α → State → Prop} {l : List Flush}

theorem own_rely (h : (frames audit).Rely p σ σ') : History.own p σ'.flushing = History.own p σ.flushing := by
  refine Contract.Rely.le (frames audit) (R := fun σ σ' => History.own p σ'.flushing = History.own p σ.flushing)
    (fun _ => rfl) (fun h h' => h'.trans h) (fun h => ?_) h
  cases h with
  | exec hq _ _ _ => exact own_exec hq _ _ _
  | note _ _ _ => rfl
  | disturb d => cases d

/-- A program is safe when it is from every state with the same flushes of the task. -/
theorem safe_op {k : c.Reply → Coro α} (h : History.own p σ.flushing = l)
    (rest : ∀ σ' i, History.own p σ'.flushing = l → Completes c i →
      Guarded p c σ' ∧ (frames audit).Safe p o (k (σ'.exec audit p c i).1) Q (σ'.exec audit p c i).2) :
    (frames audit).Safe p o (Prog.op c k) Q σ :=
  fun σ' hR _ i ok => rest σ' i ((own_rely hR).trans h) ok

theorem safe_pure {a : α} (h : History.own p σ.flushing = l) :
    (frames audit).Safe p o (Prog.pure a : Coro α) (fun _ σ' => History.own p σ'.flushing = l) σ :=
  fun _ hR _ => (own_rely hR).trans h

/-- A command besides the two ends of a flush. -/
def Inner (_last : Option Cmd) (c : Cmd) : Prop := c.Aside

/-- The reply of a command of a flush that completes. -/
def Completed (c : Cmd) (r : c.Reply) : Prop :=
  match c, r with
  | .lock, r | .connection, r | .execute _, r | .leave, r => Ordinarily r
  | _, _ => True

theorem completed_exec (ok : Completes c i) (σ : State) : Completed c (σ.exec audit p c i).1 := by
  obtain ⟨r⟩ := i
  cases c with
  | lock => cases r <;> exact ok
  | execute s => cases s <;> cases r <;> exact ok
  | connection | leave => exact ok
  | _ => trivial

/-- A part of a flush: its commands are inner ones, and its outcome is handled. -/
abbrev Attempt (x : Coro (Outcome Unit)) : Prop := ∀ last, x.Follows Completed Inner Ordinarily last

theorem attempt_pure {r : Outcome Unit} (h : Ordinarily r) : Attempt (.pure r) := fun _ => h

/-- A command that may fail, with what follows it when it does not. -/
theorem attempt_try {c : Cmd} (hc : c.Aside) {f : c.Reply → Coro (Outcome Unit)}
    (hf : ∀ r, Completed c r → Attempt (f r)) : Attempt (c.await >>= f) :=
  fun _ => ⟨hc, fun r hr => hf r hr _⟩

theorem attempt_bind {x : Coro (Outcome Unit)} {f : Outcome Unit → Coro (Outcome Unit)} (hx : Attempt x)
    (hf : ∀ r, Ordinarily r → Attempt (f r)) : Attempt (x >>= f) :=
  fun last => (hx last).bind fun last r hr => hf r hr last

theorem attempt_withConnection {body : Coro (Outcome Unit)} (h : Attempt body) :
    Attempt (withConnection body) := by
  refine attempt_try (by trivial) fun r hr => ?_
  cases r with
  | error exc => exact attempt_pure hr
  | ok =>
    refine attempt_bind h fun r hr => attempt_try (by trivial) fun r' hr' => ?_
    cases r' with
    | error exc => exact attempt_pure hr'
    | ok => exact attempt_pure hr

theorem attempt_ensureTable : Attempt ensureTable := by
  refine attempt_try (by trivial) fun ready _ => ?_
  cases ready with
  | true => exact attempt_pure trivial
  | false =>
    refine attempt_try (by trivial) fun r hr => ?_
    cases r with
    | error exc => exact attempt_pure hr
    | ok =>
      have created : Attempt createTable := by
        refine attempt_try (by trivial) fun ready _ => ?_
        cases ready with
        | true => exact attempt_pure trivial
        | false => exact attempt_withConnection fun _ => ⟨trivial, fun r hr => hr⟩
      exact attempt_bind created fun r hr => attempt_try (by trivial) fun _ _ => attempt_pure hr

theorem attempt_insertAll (rows : List Row) : Attempt (insertAll rows) := by
  induction rows with
  | nil => exact attempt_pure trivial
  | cons row rows ih =>
    refine attempt_try (by trivial) fun r hr => ?_
    cases r with
    | error exc => exact attempt_pure hr
    | ok => exact ih

theorem attempt_persist (rows : List Row) : Attempt (persist rows) := by
  refine attempt_bind attempt_ensureTable fun r hr => ?_
  cases r with
  | error exc => exact attempt_pure hr
  | ok => exact attempt_withConnection (attempt_insertAll rows)

theorem safe_persist (rows : List Row) (h : History.own p σ.flushing = l) :
    (frames audit).Safe p o (persist rows)
      (fun r σ' => Ordinarily r ∧ History.own p σ'.flushing = l) σ := by
  refine Contract.Safe.of_follows (fun hR h => (own_rely hR).trans h) (fun {_ c i σ} hc _ ok h => ?_)
    (attempt_persist rows none) h
  refine ⟨?_, completed_exec ok σ, ?_⟩
  · cases c <;> trivial
  · exact (congrArg _ (untouched_exec hc i σ).flushing).trans h

theorem safe_flush (final : Bool) (h : History.own p σ.flushing = []) :
    (frames audit).Safe p o (flush final) (fun _ σ' => History.own p σ'.flushing = []) σ := by
  refine safe_op h fun σ₁ i₁ h₁ _ => ⟨h₁, ?_⟩
  have taken := @own_take audit _ _ h₁ final
  simp only [State.exec]
  cases hr : (σ₁.take audit p final).1 with
  | nothing running =>
    rw [hr] at taken
    exact safe_pure taken
  | rows rows =>
    rw [hr] at taken
    obtain ⟨flush, hflush⟩ := taken
    refine Contract.Safe.bind (x := persist rows) ((safe_persist rows hflush).mono fun r σ₂ _ h₂ => ?_)
    exact safe_op h₂.2 fun σ₃ i₃ h₃ _ => ⟨⟨h₂.1, flush, h₃⟩, safe_pure (own_settle h₃ r)⟩

/-- A command besides the two ends of a flush, with what follows it. -/
theorem safe_aside {k : c.Reply → Coro α} (hc : c.Aside) (h : History.own p σ.flushing = l)
    (rest : ∀ r σ', History.own p σ'.flushing = l → (frames audit).Safe p o (k r) Q σ') :
    (frames audit).Safe p o (Prog.op c k) Q σ := by
  refine safe_op h fun σ' i h' _ => ⟨?_, rest _ _ ((congrArg _ (untouched_exec hc i σ').flushing).trans h')⟩
  cases c <;> trivial

theorem safe_runFlusher (turns : ℕ) (h : History.own p σ.flushing = []) :
    (frames audit).Safe p o (runFlusher turns) (fun _ σ' => History.own p σ'.flushing = []) σ := by
  induction turns generalizing σ with
  | zero => trivial
  | succ n ih =>
    refine safe_aside (by trivial) h fun r σ₁ h₁ => ?_
    cases r with
    | error exc => exact safe_pure h₁
    | ok =>
      refine Contract.Safe.bind (x := flush false) ((safe_flush false h₁).mono fun r σ₂ _ h₂ => ?_)
      rcases r with exc | (_ | _)
      · exact safe_pure h₂
      · exact safe_pure h₂
      · exact ih h₂

theorem safe_flusher (turns : ℕ) (h : History.own p σ.flushing = []) :
    (frames audit).Safe p o (flusher turns) (fun _ σ' => History.own p σ'.flushing = []) σ := by
  refine safe_aside (by trivial) h fun r σ₁ h₁ => ?_
  rcases r with exc | (_ | _)
  · exact safe_pure h₁
  · exact safe_pure h₁
  · exact safe_runFlusher turns h₁

theorem safe_attach (turns : ℕ) (h : History.own p σ.flushing = []) :
    (frames audit).Safe p o (attach turns) (fun _ σ' => History.own p σ'.flushing = []) σ := by
  refine safe_aside (by trivial) h fun r σ₁ h₁ => ?_
  cases r with
  | none => exact safe_pure h₁
  | some task =>
    refine Contract.Safe.bind (x := flusher turns) ((safe_flusher turns h₁).mono fun r σ₂ _ h₂ => ?_)
    exact safe_aside (by trivial) h₂ fun _ σ₃ h₃ => safe_pure h₃

theorem safe_drain (h : History.own p σ.flushing = []) :
    (frames audit).Safe p o drain (fun _ σ' => History.own p σ'.flushing = []) σ := by
  refine Contract.Safe.bind ((safe_flush true h).mono fun r σ₁ _ h₁ => ?_)
  cases r <;> exact safe_pure h₁

theorem safe_close (h : History.own p σ.flushing = []) :
    (frames audit).Safe p o close (fun _ σ' => History.own p σ'.flushing = []) σ := by
  refine safe_aside (by trivial) h fun r σ₁ h₁ => ?_
  cases r with
  | none => exact safe_drain h₁
  | some task =>
    refine safe_aside (by trivial) h₁ fun r σ₂ h₂ => ?_
    cases r with
    | error exc => exact safe_pure h₂
    | ok => exact safe_drain h₂

end Safe

/-- A task that is there has no flush between two calls. -/
def Between (p : ℕ) (φ : Phase) (σ : State) : Prop := φ = .there → History.own p σ.flushing = []

theorem kept : (frames audit).Kept Between fun _ => True where
  idle p σ h := by cases h
  call {p φ o σ} _ accepts _ between := by
    have h := between (of_decide_eq_true accepts)
    cases o with
    | attach turns => exact safe_attach turns h
    | onEnvelope e =>
      refine safe_op h fun σ' i h' _ => ⟨trivial, safe_pure ?_⟩
      exact (congrArg _ (flushing_onEnvelope σ')).trans h'
    | close => exact safe_close h
  phase _ post _ := post
  stable other between h := (own_rely (.single other)).trans (between h)

theorem within_new (audit : AuditSubscriber) : (frames audit).Within Between (fun _ => True) audit.new where
  inv := trivial
  resting _ _ := rfl
  admits _ := trivial
  calling h := by cases h

/-! ## Conservation -/

/-- An envelope comes when it takes no row with it and no `close` is in its final drain, the final drain finds
at most one batch, and no flush is interrupted. -/
def Spares (audit : AuditSubscriber) (c : Cmd) (i : Input) (σ : State) : Prop :=
  match c with
  | .onEnvelope e =>
    audit.Audits e →
      match rowFor e with
      | .ok _ => σ.Full audit ∧ σ.buffer = [] ∨ ∀ x ∈ σ.flushing, x.2.final = false
      | .error _ => σ.Full audit → σ.buffer = []
  | .take final => final = true → σ.buffer.length ≤ audit.batchSize
  | c => Completes c i

instance (audit : AuditSubscriber) (c : Cmd) (i : Input) (σ : State) : Decidable (Spares audit c i σ) :=
  match c with
  | .onEnvelope e =>
    have : Decidable (match rowFor e with
        | .ok _ => σ.Full audit ∧ σ.buffer = [] ∨ ∀ x ∈ σ.flushing, x.2.final = false
        | .error _ => σ.Full audit → σ.buffer = []) :=
      match rowFor e with
      | .ok _ => inferInstanceAs (Decidable (_ ∨ _))
      | .error _ => inferInstanceAs (Decidable (_ → _))
    inferInstanceAs (Decidable (_ → _))
  | .take _ => inferInstanceAs (Decidable (_ → _))
  | .attach | .started | .waited | .isTableReady | .lock | .unlock _ | .connection | .execute _ | .leave
  | .settle _ | .ended _ _ | .stop | .join _ => by dsimp only [Spares]; infer_instance

/-- An envelope that cannot be turned into a row leaves the buffer as it is exactly when no row has to make
place for it. -/
theorem onEnvelope_buffer_iff {exc : Exc} (h : rowFor e = .error exc) :
    (σ.onEnvelope audit p e).2.buffer = σ.buffer ↔ (audit.Audits e → σ.Full audit → σ.buffer = []) := by
  unfold State.onEnvelope State.buffer_
  rw [h]
  split_ifs with audits full
  · cases buffer : σ.buffer with
    | nil => simp [State.record, buffer]
    | cons oldest rest => simp [State.record, audits, full]
  · simp [State.record, full]
  · simp [audits]

/-- The final drain takes all rows exactly when they are at most one batch. -/
theorem take_buffer_iff (enabled : audit.enabled = true) :
    (σ.take audit p true).2.buffer = [] ↔ σ.buffer.length ≤ audit.batchSize := by
  unfold State.take
  split_ifs with nothing
  · have empty : σ.buffer = [] := nothing.resolve_right (by simp [enabled])
    simp [State.drained, State.record, empty]
  · exact List.drop_eq_nil_iff

/-- The commands wait for what they have to, and spare the rows. -/
def Spared (audit : AuditSubscriber) (_p : ℕ) (_o : Call) (c : Cmd) (i : Input) (σ : State) : Prop :=
  σ.Ready c i ∧ Spares audit c i σ

instance (audit : AuditSubscriber) (p : ℕ) (o : Call) (c : Cmd) (i : Input) (σ : State) :
    Decidable (Spared audit p o c i σ) :=
  inferInstanceAs (Decidable (_ ∧ _))

/-- What the history says, and that nothing is buffered in a final drain. -/
structure Spotless (σ : State) : Prop where
  steady : σ.interrupted = 0
  unremoved : ∀ x ∈ σ.log, ∀ n, x.2 = .unbuffered n → n = 0
  emptied : ∀ x ∈ σ.log, ∀ n, x.2 = .closed n → n = 0
  draining : ∀ x ∈ σ.flushing, x.2.final = true → σ.buffer = []

namespace Spotless

theorem wakeIfBatch (h : Spotless σ) : Spotless (σ.wakeIfBatch audit) := by
  unfold State.wakeIfBatch
  split <;> exact ⟨h.steady, h.unremoved, h.emptied, h.draining⟩

/-- A new event that is neither an interruption nor one with rows. -/
theorem record (h : Spotless σ) {event : Event}
    (clean : match event with
      | .interrupted n | .unbuffered n | .closed n => n = 0
      | _ => True) : Spotless (σ.record p event) := by
  refine ⟨?_, ?_, ?_, h.draining⟩
  · have before := h.steady
    cases event <;> simp_all [State.record, State.interrupted]
  · intro x hx n hn
    rcases List.mem_cons.1 hx with rfl | hx
    · subst hn
      exact clean
    · exact h.unremoved x hx n hn
  · intro x hx n hn
    rcases List.mem_cons.1 hx with rfl | hx
    · subst hn
      exact clean
    · exact h.emptied x hx n hn

theorem drained (h : Spotless σ) {final : Bool} (empty : final = true → σ.buffer = []) :
    Spotless (σ.drained p final) := by
  cases final with
  | false => exact h
  | true => exact h.record (by rw [empty rfl]; rfl)

/-- A row joins the buffer while no `close` is in its final drain. -/
theorem append (h : Spotless σ) (calm : ∀ x ∈ σ.flushing, x.2.final = false) (row : Row) :
    Spotless (σ.append p row) := by
  refine @Spotless.record _ { σ with buffer := σ.buffer ++ [row] } ?_ _ trivial
  exact ⟨h.steady, h.unremoved, h.emptied, fun x hx final => absurd (calm x hx) (by simp [final])⟩

theorem onEnvelope (h : Spotless σ) (spares : Spares audit (.onEnvelope e) i σ) :
    Spotless (σ.onEnvelope audit p e).2 := by
  unfold State.onEnvelope
  split_ifs with audits full
  · have spares := spares audits
    split
    · exact h.record rfl
    · rename_i oldest rest buffer
      unfold State.buffer_
      cases built : rowFor e with
      | error exc =>
        rw [built] at spares
        simp [spares full] at buffer
      | ok row =>
        rw [built] at spares
        have calm : ∀ x ∈ σ.flushing, x.2.final = false :=
          spares.resolve_left fun refused => by simp [refused.2] at buffer
        have dropped : Spotless { σ with buffer := rest, dropped := σ.dropped + 1 } :=
          ⟨h.steady, h.unremoved, h.emptied, fun x hx final => absurd (calm x hx) (by simp [final])⟩
        exact (dropped.append calm row).wakeIfBatch
  · have spares := spares audits
    unfold State.buffer_
    cases built : rowFor e with
    | error exc => exact h.record rfl
    | ok row =>
      rw [built] at spares
      exact (h.append (spares.resolve_left fun refused => full refused.1) row).wakeIfBatch
  · exact h

theorem take (h : Spotless σ) (enabled : audit.enabled = true) {final : Bool}
    (spares : Spares audit (.take final) i σ) : Spotless (σ.take audit p final).2 := by
  unfold State.take
  split_ifs with nothing
  · exact h.drained fun _ => nothing.resolve_right (by simp [enabled])
  · rw [not_or] at nothing
    refine ⟨h.steady, h.unremoved, h.emptied, fun x hx isFinal => ?_⟩
    rcases List.mem_cons.1 hx with rfl | hx
    · exact List.drop_eq_nil_iff.2 (spares isFinal)
    · exact absurd (h.draining x hx isFinal) nothing.1

theorem settle (h : Spotless σ) {r : Outcome Unit} (handled : Ordinarily r) :
    Spotless (σ.settle audit p r).2 := by
  unfold State.settle
  split
  · exact h
  · rename_i flush hflush
    have released : Spotless (σ.release p) :=
      ⟨h.steady, h.unremoved, h.emptied, fun x hx => h.draining x ((History.pop_sublist p _).mem hx)⟩
    have empty : flush.final = true → σ.buffer = [] := h.draining (p, flush) (History.mem_of_lookup hflush)
    split
    · have persisted : Spotless { σ.release p with persisted := σ.persisted + flush.rows.length } :=
        ⟨released.steady, released.unremoved, released.emptied, released.draining⟩
      refine persisted.wakeIfBatch.drained fun final => ?_
      rw [buffer_wakeIfBatch]
      exact empty final
    · split_ifs with caught
      · refine (released.record trivial).wakeIfBatch.drained fun final => ?_
        rw [buffer_wakeIfBatch]
        exact empty final
      · exact absurd handled caught

theorem exec (h : Spotless σ) (enabled : audit.enabled = true) (spares : Spares audit c i σ)
    (guard : Guarded p c σ) : Spotless (σ.exec audit p c i).2 := by
  have aside : c.Aside → Spotless (σ.exec audit p c i).2 := by
    intro hc
    have same := @untouched_exec audit p _ hc i σ
    refine ⟨?_, ?_, ?_, ?_⟩
    · simpa only [State.interrupted, same.log] using h.steady
    · simpa only [same.log] using h.unremoved
    · simpa only [same.log] using h.emptied
    · simpa only [same.flushing, same.buffer] using h.draining
  cases c with
  | onEnvelope e => exact h.onEnvelope spares
  | take final => exact h.take enabled spares
  | settle r => exact h.settle guard.1
  | _ => exact aside trivial

end Spotless

theorem Spares.completes (h : Spares audit c i σ) : Completes c i := by
  cases c with
  | onEnvelope | take => trivial
  | _ => exact h

/-- Each appended row is persisted, dropped, reported with a failed flush, in the buffer or in the flush of a
task, no envelope that could not be turned into a row removed one, and each `close` left an empty buffer. -/
structure Conserved (P : Pool (subscriber audit)) : Prop where
  balanced : P.shared.Balanced
  running : ∀ x ∈ P.shared.flushing, ∃ o y, P.actors x.1 = .calling o y
  unremoved : ∀ x ∈ P.shared.log, ∀ n, x.2 = .unbuffered n → n = 0
  emptied : ∀ x ∈ P.shared.log, ∀ n, x.2 = .closed n → n = 0

/-- In every run with a DSN whose commands spare the rows, the subscriber is conservative. -/
theorem conserved (enabled : audit.enabled = true) {P : Pool (subscriber audit)}
    (hr : Pool.Reach (fun Q a => Pool.Meets (Spared audit) Q a ∧ a.Uncrashed) audit.new P) : Conserved P := by
  have admitted : Pool.Reach (fun Q a => (frames audit).Admitted (fun _ => True) Q a ∧
      Pool.Meets (Spared audit) Q a) audit.new P := by
    refine hr.mono fun Q a ha => ⟨?_, ha.1⟩
    cases a with
    | exec p i => exact fun o c k hp _ => (ha.1 o c k hp).2.completes
    | _ => trivial
  have within := Contract.sound kept (within_new audit) (admitted.mono fun _ _ ha => ha.1)
  have spotless : Spotless P.shared := by
    refine Contract.invariant kept (J := Spotless) (C := Spared audit)
      (fun _ _ _ spared guard h => h.exec enabled spared.2 guard) (fun _ _ h => h)
      (fun (d : Empty) _ _ => d.elim) (within_new audit) ?_ admitted
    exact ⟨rfl, by simp [AuditSubscriber.new], by simp [AuditSubscriber.new], by simp [AuditSubscriber.new]⟩
  have there : ∀ p φ, P.actors p = .resting φ → φ = .there := by
    refine hr.resting (Φ := fun φ => φ = Phase.there) (fun ha => ha.2) (fun _ _ => rfl) fun p φ hp => ?_
    cases hp
    rfl
  refine ⟨?_, fun x hx => ?_, spotless.unremoved, spotless.emptied⟩
  · have total := accounted hr
    rw [State.Accounted, spotless.steady, Nat.add_zero] at total
    exact total
  · cases hp : P.actors x.1 with
    | calling o y => exact ⟨o, y, rfl⟩
    | resting φ =>
      have none : History.own x.1 P.shared.flushing = [] := within.resting hp (there _ _ hp)
      have some := History.mem_own.2 (show (x.1, x.2) ∈ P.shared.flushing from hx)
      rw [none] at some
      cases some

namespace Scenario

/-- A subscriber that flushes single rows, with a buffer of this size. -/
def settings (queueSize : ℤ) : AuditSubscriber := .create (some "postgres://") none false 1 queueSize

/-- An envelope with this payload. -/
def envelope (payload : Value) : Envelope where
  eventId := []
  topic := "order".toList
  payload := payload
  timestamp := Bus.epoch

def failure : Exc := .exception "ConnectionError" (some "refused")

/-- A task handles an envelope. -/
def handles (audit : AuditSubscriber) (payload : Value) : List (Act (subscriber audit)) :=
  [.call 0 (.onEnvelope (envelope payload)), .exec 0 {}, .ret 0]

/-- Nothing goes wrong in so many commands of a task. -/
def goesOn (audit : AuditSubscriber) (p n : ℕ) : List (Act (subscriber audit)) := List.replicate n (.exec p {})

end Scenario

open Scenario in
/-- Of four rows one is dropped, one is lost with a failed flush, and the flusher and the final drain persist
the others. -/
theorem conserved_witness : ∃ P,
    Pool.Reach (fun Q a => Pool.Meets (Spared (settings 1)) Q a ∧ a.Uncrashed) (settings 1).new P ∧
    (P.shared.appended = 4 ∧ P.shared.stats = ⟨2, 1, 0⟩ ∧ P.shared.failed = 1) ∧ Conserved P := by
  have run : ∃ P ∈ (settings 1).new.runIf (Spared (settings 1))
      ([.call 1 (.attach 9), .exec 1 {}] ++ handles _ (.dict []) ++ handles _ (.dict []) ++ goesOn _ 1 14 ++
        handles _ (.dict []) ++ [.call 2 .close, .exec 2 {}] ++ goesOn _ 1 3 ++
        [.exec 1 { outcome := .error failure }, .exec 1 {}, .exec 1 {}, .ret 1] ++ handles _ (.dict []) ++
        goesOn _ 2 7 ++ [.ret 2]),
      P.shared.appended = 4 ∧ P.shared.stats = ⟨2, 1, 0⟩ ∧ P.shared.failed = 1 := ⟨_, rfl, rfl, rfl, rfl⟩
  obtain ⟨P, hP, facts⟩ := run
  have reach : Pool.Reach (fun Q a => Pool.Meets (Spared (settings 1)) Q a ∧ a.Uncrashed) (settings 1).new P :=
    .of_runIf_forall (by decide) hP
  exact ⟨P, reach, facts, conserved (by decide) reach⟩

open Scenario in
/-- An envelope that cannot be serialised costs a full buffer its oldest row, and a `close` leaves a row in
the buffer. -/
theorem rows_removed_and_left : ∃ (audit : AuditSubscriber) (P : Pool (subscriber audit)),
    audit.enabled = true ∧ Pool.Reach (fun Q a => Pool.Meets (Awaits audit) Q a ∧ a.Uncrashed) audit.new P ∧
      (0, .unbuffered 1) ∈ P.shared.log ∧ (2, .closed 1) ∈ P.shared.log ∧ ¬ Conserved P := by
  have run : ∃ P ∈ (settings 2).new.runIf (Awaits (settings 2))
      ([.call 1 (.attach 9), .exec 1 {}] ++ handles _ (.dict []) ++ handles _ (.dict []) ++
        handles _ (.object "socket") ++ handles _ (.dict []) ++ [.call 2 .close, .exec 2 {}] ++ goesOn _ 1 2 ++
        [.ret 1] ++ goesOn _ 2 13 ++ [.ret 2]),
      (0, .unbuffered 1) ∈ P.shared.log ∧ (2, .closed 1) ∈ P.shared.log := ⟨_, rfl, by decide, by decide⟩
  obtain ⟨P, hP, removed, left⟩ := run
  refine ⟨settings 2, P, by decide, .of_runIf_forall (by decide) hP, removed, left, fun conserved => ?_⟩
  exact absurd (conserved.emptied _ left 1 rfl) (by decide)

end NavigatorEventbus.Audit
