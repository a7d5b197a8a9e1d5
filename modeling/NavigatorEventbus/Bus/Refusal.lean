import NavigatorEventbus.Bus.Steps

/-!
# A publish that raises

A publish that raises `BusClosedError`, `OutboxFullError` or `BackpressureError` should leave nothing behind:
no row in the outbox, no fan-out, no id in the memory of fan-outs, nothing in a queue (`Untouched`).  The
first two errors are raised before anything has happened.  `BackpressureError` is raised after the event was
remembered and its fan-out spawned, so the property holds exactly when there is no transport backend or the
queue of the envelope is not full under the policy `reject` (`refused_untouched_iff`).
-/

namespace NavigatorEventbus.Bus

open Interleave

open State (Enqueued Publishing Appended)

/-- Nothing was stored, remembered, fanned out or put into a queue. The events that the bus publishes
itself have no call. -/
structure Untouched (σ σ' : State) : Prop where
  rows : σ'.store.rows = σ.store.rows
  fannedOut : σ'.fannedOut = σ.fannedOut
  spawnedPublishes : σ'.spawnedPublishes = σ.spawnedPublishes
  calls : ∀ priority,
    (σ'.queues priority).items.filterMap Item.call = (σ.queues priority).items.filterMap Item.call

/-- The queue of the envelope is full, and the policy of its topic is to reject. -/
def State.Rejects (core : BusCore) (σ : State) (e : Envelope) : Prop :=
  (σ.queues e.priority).Full ∧ core.policyFor e.topic = .reject

/-- The step of a publish at which its envelope comes to its queue: on an open bus that does without the
outbox, or when an append has ended in another way than with a full outbox. The queue rejects it. -/
def Refuses (core : BusCore) (p : ℕ) (s : Issued (machine core)) : Prop :=
  match s with
  | ⟨.publish e _, _, σ⟩ =>
    σ.closing = false ∧ (core.outbox = true → σ.executorDown = true) ∧ σ.Rejects core e
  | ⟨.appended ticket _ e _, i, σ⟩ =>
    σ.cancelling p = false ∧ (σ.perform core p i ticket).1 ≠ .full ∧ σ.Rejects core e
  | _ => False

namespace Untouched

variable {σ σ' σ'' : State}

theorem refl (σ : State) : Untouched σ σ := ⟨rfl, rfl, rfl, fun _ => rfl⟩

theorem trans (h : Untouched σ σ') (h' : Untouched σ' σ'') : Untouched σ σ'' where
  rows := h'.rows.trans h.rows
  fannedOut := h'.fannedOut.trans h.fannedOut
  spawnedPublishes := h'.spawnedPublishes.trans h.spawnedPublishes
  calls priority := (h'.calls priority).trans (h.calls priority)

end Untouched

section Steps

variable {core : BusCore} {σ : State} {p call ticket : ℕ} {e : Envelope} {inMeta : Bool} {i : Input}

/-! ## At the queue -/

theorem untouched_emitBackpressureMeta (policy : Policy) :
    Untouched σ (σ.emitBackpressureMeta core e policy inMeta i) := by
  refine State.emitBackpressureMeta_cases (.refl σ) fun e' _ => ⟨rfl, rfl, rfl, fun priority => ?_⟩
  by_cases hp : priority = .high
  · subst hp
    simp [State.release, Asyncio.Queue.push]
  · rw [State.release, State.setQueue_of_ne σ hp]

/-- The queue rejects an envelope exactly when it is full under that policy. -/
theorem enqueueLocal_rejected :
    (σ.enqueueLocal core p call e inMeta i).1 = .rejected ↔ σ.Rejects core e := by
  refine State.enqueueLocal_cases (fun full => ?_) (fun full policy => ?_) (fun _ _ _ _ policy _ _ => ?_)
    (fun _ _ policy _ => ?_)
  · simp [State.Rejects, full]
  · simp [State.Rejects, full, policy]
  · simp [State.Rejects, policy]
  · simp [State.Rejects, policy]

/-- An envelope that its queue rejects leaves nothing behind there. -/
theorem untouched_enqueueLocal (p call : ℕ) (inMeta : Bool) (i : Input) (rejects : σ.Rejects core e) :
    Untouched σ (σ.enqueueLocal core p call e inMeta i).2 := by
  rw [State.enqueueLocal, if_pos rejects.1]
  simp only [rejects.2]
  exact untouched_emitBackpressureMeta ..

theorem rejects_fanOut : (σ.fanOut p e).Rejects core e ↔ σ.Rejects core e := by
  rw [State.Rejects, State.queues_fanOut, State.Rejects]

/-- A fan-out stays spawned when the queue rejects its envelope. -/
theorem not_untouched_fanOut {τ : State} (same : τ.spawnedPublishes = σ.spawnedPublishes)
    (rejects : τ.Rejects core e) :
    ¬ Untouched σ ((τ.fanOut p e).enqueueLocal core p call e inMeta i).2 := by
  intro h
  have kept := (untouched_enqueueLocal p call inMeta i (rejects_fanOut (p := p).2 rejects)).spawnedPublishes
  have spawned := kept.symm.trans h.spawnedPublishes
  simp [State.fanOut, same] at spawned

/-! ## At the outbox -/

theorem rows_append_full {store store' : SqliteOutbox} {w : EventEnvelope} {now : ℤ}
    (h : store.append w now = (.error .outboxFullError, store')) : store'.rows = store.rows := by
  unfold SqliteOutbox.append at h
  split at h
  · rename_i exc full eq
    unfold SqliteOutbox.makeRoom at eq
    split_ifs at eq
    · cases eq
    · split at eq
      · cases eq
        cases h
        rfl
      · split at eq <;> cases eq
  · split at h <;> cases h

/-- An append that finds the outbox full leaves its rows as they were. -/
theorem rows_runJob_full {store : SqliteOutbox} {job : Job} (h : (runJob core i store job).1 = .full) :
    (runJob core i store job).2.rows = store.rows := by
  cases job with
  | append e =>
    simp only [runJob] at h ⊢
    split at h
    · cases h
    · rename_i full _
      exact rows_append_full full
    · cases h
    · cases h
  | due now limit =>
    simp only [runJob] at h
    split at h <;> cases h
  | close => cases h
  | ack eventId =>
    simp only [runJob] at h
    split_ifs at h
  | nack eventId error nextTryAt =>
    simp only [runJob] at h
    split_ifs at h
  | stats =>
    simp only [runJob] at h
    split_ifs at h

theorem queues_perform (n : ℕ) : (σ.perform core p i n).2.queues = σ.queues := by
  rw [State.perform]
  split <;> rfl

theorem spawnedPublishes_perform (n : ℕ) :
    (σ.perform core p i n).2.spawnedPublishes = σ.spawnedPublishes := by
  rw [State.perform]
  split <;> rfl

theorem untouched_perform (full : (σ.perform core p i ticket).1 = .full) :
    Untouched σ (σ.perform core p i ticket).2 := by
  rw [State.perform] at full ⊢
  split at full
  · cases full
  · exact ⟨rows_runJob_full full, rfl, rfl, fun _ => rfl⟩

/-! ## The steps of a publish -/

/-- A publish is rejected before its first `await` exactly where it is refused. -/
theorem publish_rejected :
    (∃ call, (σ.publish core p e inMeta i).1 = .enqueued call .rejected) ↔
      Refuses core p ⟨.publish e inMeta, i, σ⟩ := by
  refine State.publish_cases (fun closing => ?_) (fun closing outbox up => ?_)
    (fun stats σ' closing down hσ' => ?_)
  · simp [Refuses, closing]
  · simp [Refuses, outbox, up]
  · have same : (if core.backend = true then σ'.fanOut p e else σ').Rejects core e ↔ σ.Rejects core e := by
      split_ifs <;> simp only [rejects_fanOut, hσ'] <;> rfl
    simp only [Refuses, closing, Publishing.enqueued.injEq, enqueueLocal_rejected, same, true_and]
    exact ⟨fun ⟨_, _, h⟩ => ⟨down, h⟩, fun ⟨_, h⟩ => ⟨_, rfl, h⟩⟩

/-- A publish that is refused before its first `await` leaves nothing behind only without a transport. -/
theorem untouched_publish_iff (refuses : Refuses core p ⟨.publish e inMeta, i, σ⟩) :
    Untouched σ (σ.publish core p e inMeta i).2 ↔ core.backend = false := by
  obtain ⟨open_, noOutbox, rejects⟩ := refuses
  refine State.publish_cases (fun closing => ?_) (fun _ outbox up => ?_) (fun stats σ' _ _ hσ' => ?_)
  · simp [open_] at closing
  · simp [noOutbox outbox] at up
  · have rejects' : σ'.Rejects core e := by rwa [hσ']
    by_cases backend : core.backend = true
    · simp only [backend, if_true]
      exact iff_of_false (not_untouched_fanOut (by rw [hσ']) rejects') (by simp)
    · simp only [if_neg backend]
      refine iff_of_true (.trans ?_ (untouched_enqueueLocal p _ inMeta i rejects')) (by simpa using backend)
      rw [hσ']
      exact ⟨rfl, rfl, rfl, fun _ => rfl⟩

/-- A publish that finds the bus closed, or hands its envelope to the outbox, has left nothing behind. -/
theorem untouched_publish :
    (∀ call r, (σ.publish core p e inMeta i).1 ≠ .enqueued call r) →
      Untouched σ (σ.publish core p e inMeta i).2 :=
  State.publish_cases (fun _ _ => .refl σ) (fun _ _ _ _ => ⟨rfl, rfl, rfl, fun _ => rfl⟩)
    fun _ _ _ _ _ h => absurd rfl (h _ _)

theorem outbox_of_appending :
    (σ.publish core p e inMeta i).1 = .appending ticket call → core.outbox = true :=
  State.publish_cases (fun _ h => by cases h) (fun _ outbox _ _ => outbox) fun _ _ _ _ _ h => by cases h

/-- A publish is rejected after its append exactly where it is refused. -/
theorem appended_rejected :
    (σ.appended core p ticket call e inMeta i).1 = .enqueued .rejected ↔
      Refuses core p ⟨.appended ticket call e inMeta, i, σ⟩ := by
  refine State.appended_cases (fun cancelled => ?_) (fun stats cancelled full => ?_)
    (fun σ' cancelled done hσ' => ?_) (fun stats σ' cancelled full done hσ' => ?_)
  · simp [Refuses, cancelled]
  · simp [Refuses, full]
  · have same : σ'.Rejects core e ↔ σ.Rejects core e := by simp only [State.Rejects, hσ', queues_perform]
    simp [Refuses, cancelled, done, enqueueLocal_rejected, rejects_fanOut, same]
  · have same : σ'.Rejects core e ↔ σ.Rejects core e := by simp only [State.Rejects, hσ', queues_perform]
    simp [Refuses, cancelled, full, enqueueLocal_rejected, rejects_fanOut, same]

/-- A publish that is refused after its append leaves its fan-out behind. -/
theorem not_untouched_appended (refuses : Refuses core p ⟨.appended ticket call e inMeta, i, σ⟩) :
    ¬ Untouched σ (σ.appended core p ticket call e inMeta i).2 := by
  obtain ⟨waiting, notFull, rejects⟩ := refuses
  have fannedOut : ∀ {τ : State}, τ.queues = σ.queues → τ.spawnedPublishes = σ.spawnedPublishes →
      ¬ Untouched σ ((τ.fanOut p e).enqueueLocal core p call e inMeta i).2 := fun queues spawned =>
    not_untouched_fanOut spawned (by rwa [State.Rejects, queues])
  refine State.appended_cases (fun cancelled => ?_) (fun _ _ full => absurd full notFull)
    (fun σ' _ _ hσ' => ?_) (fun stats σ' _ _ _ hσ' => ?_)
  · simp [waiting] at cancelled
  · exact fannedOut (by rw [hσ', queues_perform]) (by rw [hσ', spawnedPublishes_perform])
  · exact fannedOut (by rw [hσ', queues_perform]) (by rw [hσ', spawnedPublishes_perform])

/-- A publish that finds the outbox full has left nothing behind. -/
theorem untouched_appended :
    (σ.appended core p ticket call e inMeta i).1 = .outboxFull →
      Untouched σ (σ.appended core p ticket call e inMeta i).2 :=
  State.appended_cases (fun _ h => by cases h)
    (fun _ _ full _ => (untouched_perform full).trans ⟨rfl, rfl, rfl, fun _ => rfl⟩)
    (fun _ _ _ _ h => by cases h) fun _ _ _ _ _ _ h => by cases h

end Steps

/-! ## Every publish -/

section Trace

variable {core : BusCore} {σ σ' : State} {p call : ℕ} {e : Envelope} {inMeta : Bool}
  {E : State → State → Prop} {t : List (Issued (machine core))} {r : Outcome Unit}

/-- When the publish raised, none of its steps has left anything behind. -/
def RaisedUntouched (core : BusCore) (p : ℕ) (t : List (Issued (machine core))) (r : Outcome Unit) : Prop :=
  (∃ exc, r = .error exc ∧ exc ≠ .cancelled) → ∀ s ∈ t, Untouched s.before (s.after p)

/-- A publish whose envelope was not rejected raises nothing but a cancellation, and is refused nowhere. -/
theorem finishPublish_inv {r' : Enqueued}
    (h : Trace (machine core) p E (BusCore.finishPublish call e r') σ t (.pure r) σ') :
    (r' = .rejected ∧ t = [] ∧ r = .error (backpressureError e)) ∨
      (r' ≠ .rejected ∧ (∀ exc, r = .error exc → exc = .cancelled) ∧ ∀ s ∈ t, ¬ Refuses core p s) := by
  cases r' with
  | rejected =>
    obtain ⟨rfl, hr⟩ := h.pure_inv
    cases hr
    exact .inl ⟨rfl, rfl, rfl⟩
  | done =>
    obtain ⟨rfl, hr⟩ := h.pure_inv
    cases hr
    exact .inr ⟨by simp, by simp, by simp⟩
  | blocked =>
    obtain ⟨i, σ₁, t', rfl, h'⟩ := h.op_pure_inv
    obtain ⟨rfl, hr⟩ := h'.pure_inv
    refine .inr ⟨by simp, fun exc hexc => ?_, ?_⟩
    · obtain rfl : r = (σ₁.slot p call e).1 := by injection hr
      rw [State.slot] at hexc
      split_ifs at hexc
      · cases hexc
        rfl
    · simp [Refuses]

/-- A publish that is refused nowhere, and has left nothing behind if it raises. -/
theorem iff_of_not_refuses (raised : RaisedUntouched core p t r) (not : ∀ s ∈ t, ¬ Refuses core p s) :
    RaisedUntouched core p t r ↔ ¬ (core.backend = true ∧ ∃ s ∈ t, Refuses core p s) :=
  iff_of_true raised fun ⟨_, s, hs, refuses⟩ => not s hs refuses

/-- A publish that is refused at its last step, and had left nothing behind before. -/
theorem iff_of_refuses {s : Issued (machine core)} (before : ∀ s ∈ t, Untouched s.before (s.after p))
    (refuses : Refuses core p s) (untouched : Untouched s.before (s.after p) ↔ core.backend = false) :
    RaisedUntouched core p (t ++ [s]) (.error (backpressureError e)) ↔
      ¬ (core.backend = true ∧ ∃ s' ∈ t ++ [s], Refuses core p s') := by
  have raised : ∃ exc, (.error (backpressureError e) : Outcome Unit) = .error exc ∧ exc ≠ .cancelled :=
    ⟨_, rfl, by simp [backpressureError]⟩
  have refused : ∃ s' ∈ t ++ [s], Refuses core p s' := ⟨s, by simp, refuses⟩
  rw [RaisedUntouched, forall_prop_of_true raised, List.forall_mem_append, List.forall_mem_singleton, untouched,
    and_iff_right before, and_iff_left refused, Bool.not_eq_true]

/-- The steps of a finished publish. -/
theorem publish_inv (h : Trace (machine core) p E (BusCore.publish e inMeta) σ t (.pure r) σ') :
    ∃ i σ₁ t', t = ⟨.publish e inMeta, i, σ₁⟩ :: t' ∧
      match (σ₁.publish core p e inMeta i).1 with
      | .closed => t' = []
      | .enqueued call r' =>
        ∃ τ, Trace (machine core) p E (BusCore.finishPublish call e r') τ t' (.pure r) σ'
      | .appending ticket call => ∃ j σ₂ t'', t' = ⟨.appended ticket call e inMeta, j, σ₂⟩ :: t'' ∧
        match (σ₂.appended core p ticket call e inMeta j).1 with
        | .cancelled => t'' = [] ∧ r = .error .cancelled
        | .outboxFull => t'' = []
        | .enqueued r' =>
          ∃ τ, Trace (machine core) p E (BusCore.finishPublish call e r') τ t'' (.pure r) σ' := by
  obtain ⟨i, σ₁, t', rfl, h₁⟩ := h.op_pure_inv
  have exec : (machine core).exec p (.publish e inMeta) i σ₁ = σ₁.publish core p e inMeta i := rfl
  refine ⟨i, σ₁, t', rfl, ?_⟩
  split
  · rename_i reply
    rw [exec, reply] at h₁
    exact h₁.pure_inv.1
  · rename_i reply
    rw [exec, reply] at h₁
    exact ⟨_, h₁⟩
  · rename_i ticket call reply
    rw [exec, reply] at h₁
    obtain ⟨j, σ₂, t'', rfl, h₂⟩ := h₁.op_pure_inv
    have exec' : (machine core).exec p (.appended ticket call e inMeta) j σ₂ =
        σ₂.appended core p ticket call e inMeta j := rfl
    refine ⟨j, σ₂, t'', rfl, ?_⟩
    split
    · rename_i reply'
      rw [exec', reply'] at h₂
      obtain ⟨rfl, hr⟩ := h₂.pure_inv
      cases hr
      exact ⟨rfl, rfl⟩
    · rename_i reply'
      rw [exec', reply'] at h₂
      exact h₂.pure_inv.1
    · rename_i reply'
      rw [exec', reply'] at h₂
      exact ⟨_, h₂⟩

/-- A publish that raises has no effect, whatever the other tasks do in the meantime, exactly when no
transport is configured or its queue is not full under the policy `reject` when the envelope gets there. -/
theorem refused_untouched_iff (h : Trace (machine core) p E (BusCore.publish e inMeta) σ t (.pure r) σ') :
    RaisedUntouched core p t r ↔ ¬ (core.backend = true ∧ ∃ s ∈ t, Refuses core p s) := by
  obtain ⟨i, σ₁, t₁, rfl, h₁⟩ := publish_inv h
  have notRefused : (∀ call, (σ₁.publish core p e inMeta i).1 ≠ .enqueued call .rejected) →
      ¬ Refuses core p ⟨.publish e inMeta, i, σ₁⟩ := fun other refuses =>
    (publish_rejected.2 refuses).elim other
  cases reply : (σ₁.publish core p e inMeta i).1 with
  | closed =>
    simp only [reply] at h₁
    subst h₁
    refine iff_of_not_refuses (fun _ => List.forall_mem_singleton.2 ?_) (List.forall_mem_singleton.2 ?_)
    · exact untouched_publish (by simp [reply])
    · exact notRefused (by simp [reply])
  | enqueued call r' =>
    simp only [reply] at h₁
    obtain ⟨τ, h₁⟩ := h₁
    rcases finishPublish_inv h₁ with ⟨rfl, rfl, rfl⟩ | ⟨notRejected, cancelled, rest⟩
    · have refuses := publish_rejected.1 ⟨call, reply⟩
      exact iff_of_refuses (t := []) (by simp) refuses (untouched_publish_iff refuses)
    · refine iff_of_not_refuses (fun ⟨exc, hexc, ne⟩ => absurd (cancelled exc hexc) ne) ?_
      exact List.forall_mem_cons.2 ⟨notRefused (by simp [reply, notRejected]), rest⟩
  | appending ticket call =>
    simp only [reply] at h₁
    obtain ⟨j, σ₂, t₂, rfl, h₂⟩ := h₁
    have backend := core.outbox_backend (outbox_of_appending reply)
    have untouched : Untouched σ₁ (σ₁.publish core p e inMeta i).2 := untouched_publish (by simp [reply])
    have neither : (σ₂.appended core p ticket call e inMeta j).1 ≠ .enqueued .rejected →
        (∀ s ∈ t₂, ¬ Refuses core p s) →
        ∀ s ∈ ⟨.publish e inMeta, i, σ₁⟩ :: ⟨.appended ticket call e inMeta, j, σ₂⟩ :: t₂, ¬ Refuses core p s :=
      fun other rest => List.forall_mem_cons.2 ⟨notRefused (by simp [reply]),
        List.forall_mem_cons.2 ⟨fun refuses => other (appended_rejected.2 refuses), rest⟩⟩
    cases reply' : (σ₂.appended core p ticket call e inMeta j).1 with
    | cancelled =>
      simp only [reply'] at h₂
      obtain ⟨rfl, rfl⟩ := h₂
      refine iff_of_not_refuses ?_ (neither (by simp [reply']) (by simp))
      rintro ⟨exc, ⟨rfl⟩, ne⟩
      exact absurd rfl ne
    | outboxFull =>
      simp only [reply'] at h₂
      subst h₂
      refine iff_of_not_refuses (fun _ => ?_) (neither (by simp [reply']) (by simp))
      exact List.forall_mem_cons.2 ⟨untouched, List.forall_mem_singleton.2 (untouched_appended reply')⟩
    | enqueued r' =>
      simp only [reply'] at h₂
      obtain ⟨τ, h₂⟩ := h₂
      rcases finishPublish_inv h₂ with ⟨rfl, rfl, rfl⟩ | ⟨notRejected, cancelled, rest⟩
      · have refuses := appended_rejected.1 reply'
        refine iff_of_refuses (t := [_]) (List.forall_mem_singleton.2 untouched) refuses ?_
        exact iff_of_false (not_untouched_appended refuses) (by simp [backend])
      · exact iff_of_not_refuses (fun ⟨exc, hexc, ne⟩ => absurd (cancelled exc hexc) ne)
          (neither (by simp [reply', notRejected]) rest)

end Trace

/-! ## A bus with queues of one envelope -/

namespace Narrow

/-- A bus with a transport whose queues hold one envelope and reject the others. -/
def core (outbox : Bool) : BusCore :=
  .init 1 1 1 [] .reject none true outbox 5 10 60 false ⟨fun _ => none, fun _ => none⟩

/-- An event of the application. -/
def event (eventId : String) : Envelope :=
  .make eventId "shop.orders".toList .null (.str "shop") .info .normal .null epoch

/-- A new bus, over an outbox without a place. -/
def fresh (outbox : Bool) : State := .init (core outbox) { maxRows := 0, maxAge := 3600 }

/-- The bus after a first publish. -/
def full : State := ((fresh false).publish (core false) 0 (event "a") false {}).2

end Narrow

/-- An outbox without a place makes a publish raise, and the publish has left nothing behind. -/
theorem refused_untouched_witness :
    ∃ t σ', Trace (machine (Narrow.core true)) 1 (fun _ _ => False)
      (BusCore.publish (Narrow.event "b") false) (Narrow.fresh true) t (.pure (.error outboxFullError)) σ' ∧
      t.length = 2 ∧
      (RaisedUntouched (Narrow.core true) 1 t (.error outboxFullError) ↔
        ¬ ((Narrow.core true).backend = true ∧ ∃ s ∈ t, Refuses (Narrow.core true) 1 s)) := by
  have begun : Trace (machine (Narrow.core true)) 1 (fun _ _ => False)
      (BusCore.publish (Narrow.event "b") false) (Narrow.fresh true) _
        (.op (.appended 0 0 (Narrow.event "b") false) _) _ :=
    Trace.refl.op ({} : Input)
  have h : Trace (machine (Narrow.core true)) 1 (fun _ _ => False)
      (BusCore.publish (Narrow.event "b") false) (Narrow.fresh true) _ (.pure (.error outboxFullError)) _ :=
    begun.op ({} : Input)
  exact ⟨_, _, h, rfl, refused_untouched_iff h⟩

/-- The second publish on a bus that nobody drains raises `BackpressureError`, with its id remembered and
its fan-out spawned. -/
theorem refused_published :
    ∃ t σ', Trace (machine (Narrow.core false)) 1 (fun _ _ => False)
      (BusCore.publish (Narrow.event "b") false) Narrow.full t
        (.pure (.error (backpressureError (Narrow.event "b")))) σ' ∧
      σ'.fannedOut = ["a", "b"] ∧ σ'.spawnedPublishes.map Envelope.eventId = ["a", "b"] ∧
      ¬ RaisedUntouched (Narrow.core false) 1 t (.error (backpressureError (Narrow.event "b"))) := by
  have h : Trace (machine (Narrow.core false)) 1 (fun _ _ => False)
      (BusCore.publish (Narrow.event "b") false) Narrow.full _
        (.pure (.error (backpressureError (Narrow.event "b")))) _ :=
    Trace.refl.op ({} : Input)
  refine ⟨_, _, h, by decide, by decide, fun untouched => ?_⟩
  have spawned := (untouched ⟨_, rfl, by simp [backpressureError]⟩ _ (List.mem_singleton_self _)).spawnedPublishes
  exact absurd (congrArg List.length spawned) (by decide)

end NavigatorEventbus.Bus
