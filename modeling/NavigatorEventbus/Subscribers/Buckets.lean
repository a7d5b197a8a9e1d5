import NavigatorEventbus.Lib.RelyGuarantee
import NavigatorEventbus.Subscribers.Outgoing

/-!
# The accounts of outgoing deliveries

Where the buffered envelopes of a subscriber are.  In every run each is delivered, failed, dropped, queued, in
delivery by a worker, or abandoned by one (`accounted`).  A worker abandons an envelope whose request cannot be
built or raises something else than an error of the transport, or that it holds when `aclose` gives up waiting;
without these nothing is lost (`delivered_accounted`).
-/

namespace NavigatorEventbus.Outgoing

open Interleave

open Asyncio (Queue)

open Bus (Exc Outcome)

variable {config : WebhookDeliveryConfig} {p q task : ℕ} {o : Call} {c : Cmd} {i : Input} {σ σ' : State}
  {e : Envelope} {stage : Stage}

/-! ## Where the envelopes are -/

/-- An envelope in delivery. -/
def Stage.delivery : Stage → ℕ
  | delivering _ => 1
  | _ => 0

/-- The notice `n` is about to be published. -/
def Stage.announces (n : Notice) : Stage → ℕ
  | announcing m => if m = n then 1 else 0
  | _ => 0

/-- What a worker leaves uncounted or unannounced when it is done at this stage. -/
def Stage.unsettled : Stage → List Event
  | delivering _ => [.abandoned]
  | announcing notice => [.unannounced notice]
  | finished => []

namespace State

variable (σ : State)

/-- The envelopes in delivery by a worker. -/
def inDelivery : ℕ := History.total Stage.delivery σ.handling

/-- How often an event happened. -/
def times (event : Event) : ℕ := History.total (fun x => if x = event then 1 else 0) σ.log

/-- How often the notice `n` is about to be published. -/
def announcing (n : Notice) : ℕ := History.total (Stage.announces n) σ.handling

/-- Every envelope is accounted for. -/
def Balanced : Prop :=
  σ.buffered = σ.stats.delivered + σ.stats.failed + σ.stats.dropped + σ.stats.queued + σ.inDelivery

/-- The envelopes in all places, with those that workers abandoned. -/
def held : ℕ :=
  σ.stats.delivered + σ.stats.failed + σ.stats.dropped + σ.stats.queued + σ.inDelivery + σ.times .abandoned

/-- Every envelope is in one of the places. -/
def Accounted : Prop := σ.buffered = σ.held

/-- Every failure was announced, or is about to be, or its worker was interrupted. -/
def Noticed (config : WebhookDeliveryConfig) : Prop :=
  config.emitFailureMeta = true → ∀ n, σ.times (.failed n) =
    σ.times (.published n) + σ.times (.warned n) + σ.announcing n + σ.times (.unannounced n)

variable {σ}

/-- The parts of an account are as they were. -/
structure Same (σ σ' : State) : Prop where
  stats : σ'.stats = σ.stats
  handling : σ'.handling = σ.handling
  log : σ'.log = σ.log

namespace Same

theorem held (same : Same σ σ') : σ'.held = σ.held := by
  simp only [State.held, inDelivery, times, same.stats, same.handling, same.log]

theorem buffered (same : Same σ σ') : σ'.buffered = σ.buffered := by
  simp only [State.buffered, same.log]

theorem accounted (same : Same σ σ') (h : σ.Accounted) : σ'.Accounted := by
  unfold Accounted at h ⊢
  rw [same.buffered, same.held, h]

theorem noticed (same : Same σ σ') (h : σ.Noticed config) : σ'.Noticed config := by
  simpa only [Noticed, announcing, times, same.handling, same.log] using h

theorem finish (σ : State) : Same σ σ.finish := by
  unfold State.finish
  split <;> exact ⟨rfl, rfl, rfl⟩

end Same

theorem put_spec (h : σ.put e = some σ') :
    σ'.held = σ.held + 1 ∧ σ'.handling = σ.handling ∧ σ'.log = σ.log := by
  unfold put at h
  obtain ⟨queue, hq, rfl⟩ := Option.map_eq_some_iff.1 h
  refine ⟨?_, rfl, rfl⟩
  simp only [held, stats, inDelivery, times, Queue.items_putNowait hq, List.length_append,
    List.length_singleton]
  omega

theorem dropOldest_spec (σ : State) :
    σ.dropOldest.held = σ.held ∧ σ.dropOldest.handling = σ.handling ∧ σ.dropOldest.log = σ.log := by
  unfold dropOldest
  cases hq : σ.queue.getNowait with
  | none => exact ⟨rfl, rfl, rfl⟩
  | some r =>
    obtain ⟨oldest, queue⟩ := r
    have same := Same.finish { σ with queue := queue, dropped := σ.dropped + 1 }
    refine ⟨?_, same.handling, same.log⟩
    rw [same.held]
    have items := congrArg List.length (Queue.items_getNowait hq)
    simp only [held, stats, inDelivery, times, List.length_cons] at items ⊢
    omega

/-- An envelope comes to be buffered, whether or not another one makes place for it. -/
theorem onEnvelope_spec (σ : State) (p : ℕ) (e : Envelope) :
    (σ.onEnvelope p e).handling = σ.handling ∧
      if σ.closed then σ.onEnvelope p e = σ
      else (σ.onEnvelope p e).held = σ.held + 1 ∧ (σ.onEnvelope p e).log = (p, .buffered) :: σ.log := by
  have recorded : (σ.record p .buffered).held = σ.held := by simp [record, held, stats, inDelivery, times]
  unfold onEnvelope
  split
  · exact ⟨rfl, rfl⟩
  · dsimp only
    split
    · rename_i put
      obtain ⟨held, handling, log⟩ := put_spec put
      exact ⟨handling, held.trans (by rw [recorded]), log⟩
    · obtain ⟨held, handling, log⟩ := dropOldest_spec (σ.record p .buffered)
      split
      · rename_i put
        obtain ⟨held', handling', log'⟩ := put_spec put
        exact ⟨handling'.trans handling, by rw [held', held, recorded], log'.trans log⟩
      · refine ⟨handling, ?_, log⟩
        rw [← recorded, ← held]
        simp only [State.held, stats, inDelivery, times]
        omega

theorem Accounted.onEnvelope (h : σ.Accounted) (p : ℕ) (e : Envelope) : (σ.onEnvelope p e).Accounted := by
  obtain ⟨-, spec⟩ := onEnvelope_spec σ p e
  split at spec
  · rw [spec]
    exact h
  · have one : (σ.onEnvelope p e).buffered = 1 + σ.buffered := by
      unfold buffered
      rw [spec.2, History.total_cons]
    unfold Accounted at h ⊢
    omega

theorem Noticed.onEnvelope (h : σ.Noticed config) (p : ℕ) (e : Envelope) :
    (σ.onEnvelope p e).Noticed config := by
  obtain ⟨handling, spec⟩ := onEnvelope_spec σ p e
  split at spec
  · rw [spec]
    exact h
  · simpa [Noticed, times, announcing, handling, spec.2] using h

/-! ## The stages of a worker -/

theorem total_turn {w : Stage → ℕ} {s : Stage} (hs : List.lookup p σ.handling = some s) (stage : Stage) :
    History.total w (σ.turn p stage).handling + w s = w stage + History.total w σ.handling := by
  have moved := History.total_pop w hs
  simp only [turn, History.total_cons]
  omega

theorem Accounted.get (h : σ.Accounted) (r : Outcome Unit) : (σ.get p r).2.Accounted := by
  unfold State.get
  split
  · exact h
  · split
    · exact h
    · rename_i hq
      have items := congrArg List.length (Queue.items_getNowait hq)
      simp only [Accounted, held, buffered, stats, inDelivery, times, History.total_cons, Stage.delivery,
        List.length_cons] at h items ⊢
      omega

theorem Noticed.get (h : σ.Noticed config) (r : Outcome Unit) : (σ.get p r).2.Noticed config := by
  unfold State.get
  split
  · exact h
  · split
    · exact h
    · simpa [Noticed, announcing, times, Stage.announces] using h

theorem Accounted.count (h : σ.Accounted) (outcome : DeliveryOutcome) :
    (σ.count config p outcome).Accounted := by
  unfold State.count
  split
  · rename_i e hs
    dsimp only
    split_ifs
    · have turned := total_turn (w := Stage.delivery) hs .finished
      simp only [Accounted, held, buffered, stats, inDelivery, times, turn, Stage.delivery] at h turned ⊢
      omega
    · have turned := total_turn (w := Stage.delivery) hs (.announcing (config.notice e outcome))
      simp only [Accounted, held, buffered, stats, inDelivery, times, turn, record, History.total_cons,
        Stage.delivery, reduceCtorEq, if_false] at h turned ⊢
      omega
    · have turned := total_turn (w := Stage.delivery) hs .finished
      simp only [Accounted, held, buffered, stats, inDelivery, times, turn, record, History.total_cons,
        Stage.delivery, reduceCtorEq, if_false] at h turned ⊢
      omega
  · exact h

theorem Noticed.count (h : σ.Noticed config) (outcome : DeliveryOutcome) :
    (σ.count config p outcome).Noticed config := by
  unfold State.count
  split
  · rename_i e hs
    dsimp only
    intro emit n
    have before := h emit n
    split_ifs
    · have turned := total_turn (w := Stage.announces n) hs .finished
      simp only [announcing, times, turn, Stage.announces] at before turned ⊢
      omega
    · have turned := total_turn (w := Stage.announces n) hs (.announcing (config.notice e outcome))
      simp only [announcing, times, turn, record, History.total_cons, Stage.announces, reduceCtorEq, if_false,
        Event.failed.injEq] at before turned ⊢
      omega
  · exact h

theorem buffered_record {event : Event} (fresh : event ≠ .buffered) :
    (σ.record p event).buffered = σ.buffered := by
  rw [buffered, record, History.total_cons]
  cases event with
  | buffered => exact absurd rfl fresh
  | _ => exact Nat.zero_add _

theorem Accounted.publish (h : σ.Accounted) (r : Outcome Unit) : (σ.publish p r).2.Accounted := by
  unfold State.publish
  split
  · rename_i notice hs
    have turned := total_turn (w := Stage.delivery) hs .finished
    simp only [turn, Stage.delivery] at turned
    have said : ∀ event : Event, event ≠ .buffered → event ≠ .abandoned →
        ((σ.record p event).turn p .finished).Accounted := by
      intro event fresh kept
      have same : ((σ.record p event).turn p .finished).buffered = σ.buffered := buffered_record fresh
      rw [Accounted, same]
      simp only [Accounted, held, stats, inDelivery, times, turn, record, History.total_cons, if_neg kept] at h turned ⊢
      omega
    split
    · split
      · exact said _ (fun h => by cases h) fun h => by cases h
      · split_ifs
        · exact said _ (fun h => by cases h) fun h => by cases h
        · exact h
    · exact said _ (fun h => by cases h) fun h => by cases h
  · exact h

theorem Noticed.publish (h : σ.Noticed config) (r : Outcome Unit) : (σ.publish p r).2.Noticed config := by
  unfold State.publish
  split
  · rename_i notice hs
    have said : ∀ event : Event,
        event = .published notice ∨ event = .warned notice ∨ event = .unannounced notice →
          ((σ.record p event).turn p .finished).Noticed config := by
      intro event kind emit n
      have before := h emit n
      have turned := total_turn (w := Stage.announces n) hs .finished
      rcases kind with rfl | rfl | rfl <;>
      · simp only [announcing, times, turn, record, History.total_cons, Stage.announces, reduceCtorEq,
          if_false, Event.published.injEq, Event.warned.injEq, Event.unannounced.injEq] at before turned ⊢
        omega
    split
    · split
      · exact said _ (.inl rfl)
      · split_ifs
        · exact said _ (.inr (.inl rfl))
        · exact h
    · exact said _ (.inr (.inr rfl))
  · exact h

/-- A worker leaves its envelope. -/
theorem taskDone_spec {s : Stage} (hs : List.lookup p σ.handling = some s) :
    (σ.taskDone p).stats = σ.stats ∧ (σ.taskDone p).handling = σ.handling.pop p ∧
      (σ.taskDone p).log = s.unsettled.map (fun event => (p, event)) ++ σ.log := by
  have same := Same.finish { σ with handling := σ.handling.pop p }
  unfold taskDone
  rw [hs]
  cases s with
  | delivering e => exact ⟨same.stats, same.handling, congrArg (List.cons _) same.log⟩
  | announcing notice => exact ⟨same.stats, same.handling, congrArg (List.cons _) same.log⟩
  | finished => exact ⟨same.stats, same.handling, same.log⟩

theorem taskDone_of_none (hs : List.lookup p σ.handling = none) : σ.taskDone p = σ := by
  unfold taskDone
  rw [hs]

theorem Accounted.taskDone (h : σ.Accounted) : (σ.taskDone p).Accounted := by
  cases hs : List.lookup p σ.handling with
  | none =>
    rw [taskDone_of_none hs]
    exact h
  | some s =>
    obtain ⟨stats, handling, log⟩ := taskDone_spec hs
    have moved := History.total_pop Stage.delivery hs
    cases s <;>
    · simp only [Accounted, held, buffered, inDelivery, times, stats, handling, log, Stage.unsettled,
        List.map_cons, List.map_nil, List.singleton_append, List.nil_append, History.total_cons,
        Stage.delivery, reduceCtorEq, if_false, if_true] at h moved ⊢
      omega

theorem Noticed.taskDone (h : σ.Noticed config) : (σ.taskDone p).Noticed config := by
  cases hs : List.lookup p σ.handling with
  | none =>
    rw [taskDone_of_none hs]
    exact h
  | some s =>
    obtain ⟨-, handling, log⟩ := taskDone_spec hs
    intro emit n
    have before := h emit n
    have moved := History.total_pop (Stage.announces n) hs
    cases s <;>
    · simp only [announcing, times, handling, log, Stage.unsettled, List.map_cons, List.map_nil,
        List.singleton_append, List.nil_append, History.total_cons, Stage.announces, reduceCtorEq, if_false,
        Event.unannounced.injEq] at before moved ⊢
      omega

/-- The return of an `aclose` is only on record. -/
theorem Accounted.record_closed (h : σ.Accounted) (p n : ℕ) (stats : Stats) :
    (σ.record p (.closed n stats)).Accounted := by
  simpa [Accounted, held, buffered, State.stats, inDelivery, times, record] using h

theorem Noticed.record_closed (h : σ.Noticed config) (p n : ℕ) (stats : Stats) :
    (σ.record p (.closed n stats)).Noticed config := by
  simpa [Noticed, times, announcing, record] using h

end State

/-! ## The account of a run -/

/-- The commands that leave the account as it is, apart from the record of a return. -/
def Cmd.Aside : Cmd → Prop
  | onEnvelope _ | get _ | count _ | publish _ | taskDone => False
  | _ => True

/-- They may record the return of an `aclose`. -/
theorem aside_exec (hc : c.Aside) (i : Input) (σ : State) :
    State.Same σ (σ.exec config p c i).2 ∨
      ((c = .close ∧ σ.closed = true ∨ c = .release ∧ i.outcome = .ok ()) ∧
        State.Same (σ.record p (.closed σ.buffered σ.stats)) (σ.exec config p c i).2) := by
  cases c with
  | onEnvelope | get | count | publish | taskDone => exact hc.elim
  | attach =>
    simp only [State.exec, State.attach]
    split <;> exact .inl ⟨rfl, rfl, rfl⟩
  | close =>
    simp only [State.exec, State.close]
    split
    · rename_i closed
      exact .inr ⟨.inl ⟨trivial, closed⟩, rfl, rfl, rfl⟩
    · left
      split
      · exact ⟨rfl, rfl, rfl⟩
      · dsimp only
        split <;> exact ⟨rfl, rfl, rfl⟩
  | join | gather =>
    left
    simp only [State.exec, State.join, State.gather]
    split <;> exact ⟨rfl, rfl, rfl⟩
  | release =>
    simp only [State.exec, State.release]
    split
    · rename_i ok
      exact .inr ⟨.inr ⟨trivial, ok⟩, rfl, rfl, rfl⟩
    · exact .inl ⟨rfl, rfl, rfl⟩
  | start | build | post | sleep | ended => exact .inl ⟨rfl, rfl, rfl⟩

theorem accounted_exec (h : σ.Accounted) (c : Cmd) (i : Input) : (σ.exec config p c i).2.Accounted := by
  have aside : c.Aside → (σ.exec config p c i).2.Accounted := by
    intro hc
    rcases aside_exec hc i σ with same | ⟨-, same⟩
    · exact same.accounted h
    · exact same.accounted (h.record_closed p _ _)
  cases c with
  | onEnvelope e => exact h.onEnvelope p e
  | get => exact h.get i.outcome
  | count outcome => exact h.count outcome
  | publish => exact h.publish i.outcome
  | taskDone => exact h.taskDone
  | _ => exact aside trivial

theorem noticed_exec (h : σ.Noticed config) (c : Cmd) (i : Input) :
    (σ.exec config p c i).2.Noticed config := by
  have aside : c.Aside → (σ.exec config p c i).2.Noticed config := by
    intro hc
    rcases aside_exec hc i σ with same | ⟨-, same⟩
    · exact same.noticed h
    · exact same.noticed (h.record_closed p _ _)
  cases c with
  | onEnvelope e => exact h.onEnvelope p e
  | get => exact h.get i.outcome
  | count outcome => exact h.count outcome
  | publish => exact h.publish i.outcome
  | taskDone => exact h.taskDone
  | _ => exact aside trivial

section Run

variable {A : Pool (subscriber config) → Act (subscriber config) → Prop} {P : Pool (subscriber config)}

/-- In every run each buffered envelope is delivered, failed, dropped, queued, in delivery or abandoned. -/
theorem accounted (hr : Pool.Reach A config.new P) : P.shared.Accounted :=
  hr.stable (J := State.Accounted) (fun h => accounted_exec h _ _) (fun h => h) (fun (d : Empty) _ => d.elim) rfl

/-- In every run each failure was announced, or is about to be, or its worker was interrupted. -/
theorem noticed (hr : Pool.Reach A config.new P) : P.shared.Noticed config :=
  hr.stable (J := fun σ => State.Noticed σ config) (fun h => noticed_exec h _ _) (fun h => h) (fun (d : Empty) _ => d.elim)
    fun _ _ => rfl

end Run

/-! ## The order of a subscriber -/

/-- Nothing is left to count or announce at this stage. -/
def Stage.Settled (stage : Stage) : Prop := stage.unsettled = []

instance (stage : Stage) : Decidable stage.Settled := inferInstanceAs (Decidable (_ = _))

namespace State

/-- A task is live from its creation to its end. -/
def Live (σ : State) (task : ℕ) : Prop := task ∈ σ.pending ∨ ∃ p, (p, task) ∈ σ.running

/-- Every live task is cancelled. -/
def Quiet (σ : State) : Prop := ∀ task, σ.Live task → task ∈ σ.cancelled

/-- What holds of the state of a subscriber. A worker that still has to count or to announce is live, and
not cancelled. -/
structure Orderly (σ : State) : Prop where
  core : ∀ task, σ.Live task → σ.core = true
  closing : σ.closing ≠ [] → σ.closed = true
  drained : ∀ q ∈ σ.drained, q ∈ σ.closing ∧ σ.unfinished = 0
  unfinished : σ.unfinished = σ.queue.items.length + σ.handling.length
  known : ∀ task, σ.Live task → task ∈ σ.workers ∨ task ∈ σ.cancelled
  active : ∀ x ∈ σ.handling, ¬ x.2.Settled → ∃ task, (x.1, task) ∈ σ.running ∧ task ∉ σ.cancelled

end State

open State (Orderly Quiet Live)

/-- The answer of a request that `HttpDelivery.post` deals with, or a cancellation. -/
def Response.Handled : Response → Prop
  | raised exc => exc = .cancelled
  | _ => True

instance (response : Response) : Decidable response.Handled := by
  unfold Response.Handled
  split <;> infer_instance

/-- Where an envelope gets lost: its request cannot be built, or raises something else than an error of the
transport; its notice is left by an exit; `aclose` gives up waiting while a delivery or a notice is in progress,
or is called again; or the subscriber is attached while it closes. -/
def Spares (config : WebhookDeliveryConfig) (c : Cmd) (i : Input) (σ : State) : Prop :=
  match c with
  | .attach => σ.closing = []
  | .build e => (config.buildRequest e i.transformed).isOk = true
  | .post _ _ => i.response.Handled
  | .publish _ => i.outcome ≠ .error .exit
  | .close => σ.closed = true → σ.inDelivery = 0
  | .join => i.outcome = .ok () → i.timedOut = true → ∀ x ∈ σ.handling, x.2.Settled
  | _ => True

instance (config : WebhookDeliveryConfig) (c : Cmd) (i : Input) (σ : State) : Decidable (Spares config c i σ) := by
  apply c.casesOn (motive := fun c => Decidable (Spares config c i σ)) <;> intros <;> dsimp only [Spares] <;>
    infer_instance

/-- The commands wait for what they have to, and lose no envelope. -/
def Spared (config : WebhookDeliveryConfig) (p : ℕ) (_o : Call) (c : Cmd) (i : Input)
    (σ : (machine config).State) : Prop :=
  State.Ready p σ c i ∧ Spares config c i σ

instance (config : WebhookDeliveryConfig) (p : ℕ) (o : Call) (c : Cmd) (i : Input) (σ : State) :
    Decidable (Spared config p o c i σ) :=
  inferInstanceAs (Decidable (_ ∧ _))

/-- What a task owes: a worker has one envelope at a time, and is at the stage that its command belongs to; an
`aclose` goes on when every worker is cancelled. -/
def Guarded (p : ℕ) (c : Cmd) (σ : State) : Prop :=
  match c with
  | .get task => History.own p σ.handling = [] ∧ History.own p σ.running = [task]
  | .count _ => ∃ e, History.own p σ.handling = [.delivering e]
  | .publish task => History.own p σ.running = [task] ∧ ∃ n, History.own p σ.handling = [.announcing n]
  | .taskDone => History.own p σ.handling = [.finished]
  | .ended => History.own p σ.handling = []
  | .gather _ => σ.Quiet
  | .release => σ.Quiet
  | _ => True

namespace State

theorem lookup_of_own {ε : Type} {h : History ε} {a : ε} (own : History.own p h = [a]) :
    List.lookup p h = some a := by
  rw [History.lookup_eq_head?, own]
  rfl

/-- A worker with something left to count or announce is not cancelled. -/
theorem Orderly.not_cancelled (inv : Orderly σ) (handling : History.own p σ.handling = [stage])
    (unsettled : ¬ stage.Settled) (running : History.own p σ.running = [task]) : task ∉ σ.cancelled := by
  have mem : (p, stage) ∈ σ.handling := History.mem_own.1 (by simp [handling])
  obtain ⟨t, ht, free⟩ := inv.active _ mem unsettled
  have same : t ∈ [task] := running ▸ History.mem_own.2 ht
  rw [← List.mem_singleton.1 same]
  exact free

/-- When every live task is cancelled, no delivery is in progress. -/
theorem Orderly.settled (inv : Orderly σ) (quiet : σ.Quiet) : ∀ x ∈ σ.handling, x.2.Settled := by
  intro x hx
  by_contra unsettled
  obtain ⟨t, ht, free⟩ := inv.active x hx unsettled
  exact free (quiet t (.inr ⟨x.1, ht⟩))

theorem inDelivery_of_settled (h : ∀ x ∈ σ.handling, x.2.Settled) : σ.inDelivery = 0 := by
  unfold inDelivery History.total History.weigh
  refine List.sum_eq_zero fun n hn => ?_
  obtain ⟨s, hs, rfl⟩ := List.mem_map.1 hn
  obtain ⟨x, hx, rfl⟩ := List.mem_map.1 hs
  have settled := h x hx
  cases hs : x.2 with
  | delivering e =>
    rw [hs] at settled
    cases settled
  | announcing | finished => rfl

theorem length_pop {ε : Type} {h : History ε} {a : ε} (ha : List.lookup p h = some a) :
    (h.pop p).length + 1 = h.length := by
  have mem := History.mem_of_lookup ha
  have shorter := List.length_eraseP_of_mem (p := fun x : ℕ × ε => x.1 = p) mem (by simp)
  have pos := List.length_pos_of_mem mem
  unfold History.pop
  omega

theorem mem_pop_of_ne {ε : Type} {h : History ε} {x : ℕ × ε} (hx : x ∈ h) (ne : x.1 ≠ p) : x ∈ h.pop p :=
  (List.mem_eraseP_of_neg (by simpa using ne)).2 hx

@[simp] theorem finish_unfinished (σ : State) : σ.finish.unfinished = σ.unfinished - 1 := by
  unfold finish
  split_ifs with zero
  · exact zero.symm
  · rfl

/-- `task_done` changes nothing else. -/
theorem finish_spec (σ : State) :
    σ.finish.queue = σ.queue ∧ σ.finish.workers = σ.workers ∧ σ.finish.pending = σ.pending ∧
      σ.finish.running = σ.running ∧ σ.finish.cancelled = σ.cancelled ∧ σ.finish.core = σ.core ∧
      σ.finish.closed = σ.closed ∧ σ.finish.closing = σ.closing ∧
      ∀ q ∈ σ.finish.drained, q ∈ σ.drained ∨ q ∈ σ.closing ∧ σ.finish.unfinished = 0 := by
  unfold finish
  split_ifs
  · refine ⟨rfl, rfl, rfl, rfl, rfl, rfl, rfl, rfl, fun q hq => ?_⟩
    exact (List.mem_append.1 hq).symm.imp_right fun hq => ⟨hq, rfl⟩
  · exact ⟨rfl, rfl, rfl, rfl, rfl, rfl, rfl, rfl, fun q hq => .inl hq⟩

theorem live_of_sublist {σ σ' : State} (pending : ∀ t ∈ σ'.pending, t ∈ σ.pending)
    (running : ∀ x ∈ σ'.running, x ∈ σ.running) (live : σ'.Live task) : σ.Live task :=
  live.imp (pending _) fun ⟨q, hq⟩ => ⟨q, running _ hq⟩

namespace Orderly

/-- The fields that the tasks are known by are as they were. -/
structure Kept (σ σ' : State) : Prop where
  workers : σ'.workers = σ.workers
  pending : σ'.pending = σ.pending
  running : σ'.running = σ.running
  cancelled : σ'.cancelled = σ.cancelled
  core : σ'.core = σ.core
  closed : σ'.closed = σ.closed
  closing : σ'.closing = σ.closing

theorem Kept.live (kept : Kept σ σ') : σ'.Live task ↔ σ.Live task := by
  unfold Live
  rw [kept.pending, kept.running]

/-- What is left to check when only the queue and the envelopes of the workers change. -/
theorem of_kept (inv : Orderly σ) (kept : Kept σ σ')
    (drained : ∀ q ∈ σ'.drained, q ∈ σ.closing ∧ σ'.unfinished = 0)
    (unfinished : σ'.unfinished = σ'.queue.items.length + σ'.handling.length)
    (active : ∀ x ∈ σ'.handling, ¬ x.2.Settled → ∃ task, (x.1, task) ∈ σ.running ∧ task ∉ σ.cancelled) :
    Orderly σ' where
  core task live := by
    rw [kept.core]
    exact inv.core task (kept.live.1 live)
  closing := by
    rw [kept.closing, kept.closed]
    exact inv.closing
  drained := by
    rw [kept.closing]
    exact drained
  unfinished := unfinished
  known task live := by
    rw [kept.workers, kept.cancelled]
    exact inv.known task (kept.live.1 live)
  active := by
    rw [kept.running, kept.cancelled]
    exact active

theorem kept_finish (σ : State) : Kept σ σ.finish := by
  unfold State.finish
  split_ifs <;> exact ⟨rfl, rfl, rfl, rfl, rfl, rfl, rfl⟩

theorem drained_eq_nil (inv : Orderly σ) (opened : σ.closing = []) : σ.drained = [] := by
  refine List.eq_nil_iff_forall_not_mem.2 fun q hq => ?_
  have mem := (inv.drained q hq).1
  rw [opened] at mem
  cases mem

theorem put (inv : Orderly σ) (opened : σ.closing = []) (h : σ.put e = some σ') :
    Orderly σ' ∧ σ'.closing = [] := by
  have none := inv.drained_eq_nil opened
  have count := inv.unfinished
  unfold State.put at h
  obtain ⟨queue, hq, rfl⟩ := Option.map_eq_some_iff.1 h
  refine ⟨inv.of_kept ⟨rfl, rfl, rfl, rfl, rfl, rfl, rfl⟩ ?_ ?_ inv.active, opened⟩
  · intro q hq
    exact absurd hq (by simp [none])
  · simp only [Queue.items_putNowait hq, List.length_append, List.length_singleton]
    omega

theorem finish (inv : Orderly { σ with unfinished := σ.unfinished - 1 }) : Orderly σ.finish := by
  have none : σ.drained = [] ∨ σ.unfinished - 1 = 0 := by
    cases hd : σ.drained with
    | nil => exact .inl rfl
    | cons q l => exact .inr (inv.drained q (by simp [hd])).2
  unfold State.finish
  split_ifs with zero
  · refine inv.of_kept ⟨rfl, rfl, rfl, rfl, rfl, rfl, rfl⟩ ?_ ?_ inv.active
    · intro q hq
      exact (List.mem_append.1 hq).elim (fun hq => ⟨hq, rfl⟩) fun hq => ⟨(inv.drained q hq).1, rfl⟩
    · have count := inv.unfinished
      dsimp only at count ⊢
      omega
  · exact inv

theorem dropOldest (inv : Orderly σ) (opened : σ.closing = []) :
    Orderly σ.dropOldest ∧ σ.dropOldest.closing = [] := by
  have none := inv.drained_eq_nil opened
  have count := inv.unfinished
  unfold State.dropOldest
  split
  · rename_i queue hq
    have items := congrArg List.length (Queue.items_getNowait hq)
    rw [List.length_cons] at items
    refine ⟨finish (inv.of_kept ⟨rfl, rfl, rfl, rfl, rfl, rfl, rfl⟩ ?_ ?_ inv.active),
      (kept_finish _).closing.trans opened⟩
    · intro q hq
      exact absurd hq (by simp [none])
    · dsimp only
      omega
  · exact ⟨inv, opened⟩

theorem record (inv : Orderly σ) (p : ℕ) (event : Event) : Orderly (σ.record p event) :=
  ⟨inv.core, inv.closing, inv.drained, inv.unfinished, inv.known, inv.active⟩

theorem onEnvelope (inv : Orderly σ) (p : ℕ) (e : Envelope) : Orderly (σ.onEnvelope p e) := by
  unfold State.onEnvelope
  split
  · exact inv
  · rename_i isOpen
    have opened : σ.closing = [] := by
      by_contra closing
      exact isOpen (inv.closing closing)
    dsimp only
    split
    · rename_i put
      exact ((inv.record p .buffered).put opened put).1
    · obtain ⟨inv', opened'⟩ := (inv.record p .buffered).dropOldest opened
      split
      · rename_i put
        exact (inv'.put opened' put).1
      · exact ⟨inv'.core, inv'.closing, inv'.drained, inv'.unfinished, inv'.known, inv'.active⟩

theorem attach (inv : Orderly σ) (opened : σ.closing = []) : Orderly (σ.attach config) := by
  unfold State.attach
  dsimp only
  split_ifs with idle
  · refine ⟨fun _ _ => rfl, fun closing => absurd opened closing, inv.drained, inv.unfinished, ?_, inv.active⟩
    rintro task (pending | running)
    · rcases List.mem_append.1 pending with old | new
      · exact .inr ((inv.known task (.inl old)).resolve_left (by simp [idle]))
      · exact .inl new
    · exact .inr ((inv.known task (.inr running)).resolve_left (by simp [idle]))
  · exact ⟨fun _ _ => rfl, fun closing => absurd opened closing, inv.drained, inv.unfinished, inv.known,
      inv.active⟩

theorem start (inv : Orderly σ) (pending : task ∈ σ.pending) (p : ℕ) : Orderly (σ.start p task) := by
  have live : ∀ {t}, (σ.start p task).Live t → σ.Live t := by
    rintro t (old | ⟨q, hq⟩)
    · exact .inl (List.mem_of_mem_erase old)
    · rcases List.mem_cons.1 hq with same | old
      · cases same
        exact .inl pending
      · exact .inr ⟨q, old⟩
  refine ⟨fun t ht => inv.core t (live ht), inv.closing, inv.drained, inv.unfinished,
    fun t ht => inv.known t (live ht), fun x hx unsettled => ?_⟩
  obtain ⟨t, ht, free⟩ := inv.active x hx unsettled
  exact ⟨t, List.mem_cons_of_mem _ ht, free⟩

theorem get (inv : Orderly σ) {r : Outcome Unit} (running : (p, task) ∈ σ.running)
    (free : r = .ok () → task ∉ σ.cancelled) : Orderly (σ.get p r).2 := by
  unfold State.get
  split
  · exact inv
  · split
    · exact inv
    · rename_i hq
      have items := congrArg List.length (Queue.items_getNowait hq)
      have count := inv.unfinished
      rw [List.length_cons] at items
      refine inv.of_kept ⟨rfl, rfl, rfl, rfl, rfl, rfl, rfl⟩ inv.drained ?_ ?_
      · simp only [List.length_cons]
        omega
      · intro x hx unsettled
        rcases List.mem_cons.1 hx with rfl | old
        · exact ⟨task, running, free rfl⟩
        · exact inv.active x old unsettled

/-- A worker comes to another stage. -/
theorem turn (inv : Orderly σ) {s : Stage} (hs : List.lookup p σ.handling = some s)
    (further : ¬ stage.Settled → ¬ s.Settled) : Orderly (σ.turn p stage) := by
  have shorter := length_pop hs
  have count := inv.unfinished
  refine inv.of_kept ⟨rfl, rfl, rfl, rfl, rfl, rfl, rfl⟩ inv.drained ?_ ?_
  · simp only [State.turn, List.length_cons]
    omega
  · intro x hx unsettled
    rcases List.mem_cons.1 hx with rfl | old
    · exact inv.active (p, s) (History.mem_of_lookup hs) (further unsettled)
    · exact inv.active x ((History.pop_sublist p _).mem old) unsettled

theorem count (inv : Orderly σ) (outcome : DeliveryOutcome) : Orderly (σ.count config p outcome) := by
  unfold State.count
  split
  · rename_i e hs
    have unsettled : ¬ (Stage.delivering e).Settled := nofun
    dsimp only
    split_ifs
    · exact turn ⟨inv.core, inv.closing, inv.drained, inv.unfinished, inv.known, inv.active⟩ hs
        fun _ => unsettled
    · exact turn ⟨inv.core, inv.closing, inv.drained, inv.unfinished, inv.known, inv.active⟩ hs
        fun _ => unsettled
    · exact turn ⟨inv.core, inv.closing, inv.drained, inv.unfinished, inv.known, inv.active⟩ hs
        fun _ => unsettled
  · exact inv

theorem publish (inv : Orderly σ) (r : Outcome Unit) : Orderly (σ.publish p r).2 := by
  unfold State.publish
  split
  · rename_i notice hs
    have unsettled : ¬ (Stage.announcing notice).Settled := nofun
    have said : ∀ event, Orderly ((σ.record p event).turn p .finished) := fun event =>
      (inv.record p event).turn hs fun _ => unsettled
    split
    · split
      · exact said _
      · split_ifs
        · exact said _
        · exact inv
    · exact said _
  · exact inv

theorem taskDone (inv : Orderly σ) : Orderly (σ.taskDone p) := by
  unfold State.taskDone
  split
  · exact inv
  · rename_i stage hs
    have shorter := length_pop hs
    have count := inv.unfinished
    have finished : Orderly { σ with handling := σ.handling.pop p }.finish := by
      refine finish (inv.of_kept ⟨rfl, rfl, rfl, rfl, rfl, rfl, rfl⟩ ?_ ?_ ?_)
      · intro q hq
        obtain ⟨closing, zero⟩ := inv.drained q hq
        omega
      · dsimp only
        omega
      · exact fun x hx => inv.active x ((History.pop_sublist p _).mem hx)
    dsimp only
    split
    · exact finished.record p _
    · exact finished.record p _
    · exact finished

theorem ended (inv : Orderly σ) (handling : History.own p σ.handling = []) :
    Orderly { σ with running := σ.running.pop p } := by
  have live : ∀ {t}, State.Live { σ with running := σ.running.pop p } t → σ.Live t := by
    rintro t (pending | ⟨q, hq⟩)
    · exact .inl pending
    · exact .inr ⟨q, (History.pop_sublist p _).mem hq⟩
  refine ⟨fun t ht => inv.core t (live ht), inv.closing, inv.drained, inv.unfinished,
    fun t ht => inv.known t (live ht), fun x hx unsettled => ?_⟩
  obtain ⟨t, ht, free⟩ := inv.active x hx unsettled
  refine ⟨t, mem_pop_of_ne ht fun same => ?_, free⟩
  have own := History.mem_own.2 (show (x.1, x.2) ∈ σ.handling from hx)
  dsimp only at same
  rw [same, handling] at own
  cases own

theorem close (inv : Orderly σ) (p : ℕ) : Orderly (σ.close p).2 := by
  have shut : Orderly { σ with closed := true, closing := p :: σ.closing } := by
    refine ⟨inv.core, fun _ => rfl, fun q hq => ?_, inv.unfinished, inv.known, inv.active⟩
    exact ⟨List.mem_cons_of_mem _ (inv.drained q hq).1, (inv.drained q hq).2⟩
  unfold State.close
  split
  · exact inv.record p _
  · dsimp only
    split_ifs with idle finished
    · exact shut
    · refine ⟨shut.core, shut.closing, fun q hq => ?_, shut.unfinished, shut.known, shut.active⟩
      rcases List.mem_cons.1 hq with rfl | hq
      · exact ⟨List.mem_cons_self .., finished⟩
      · exact shut.drained q hq
    · exact shut

theorem leave (inv : Orderly σ) (p : ℕ) : Orderly (σ.leave p) := by
  refine ⟨inv.core, fun closing => ?_, fun q hq => ?_, inv.unfinished, inv.known, inv.active⟩
  · refine inv.closing fun none => closing ?_
    simp [State.leave, none]
  · obtain ⟨old, ne⟩ := List.mem_filter.1 hq
    exact ⟨List.mem_filter.2 ⟨(inv.drained q old).1, ne⟩, (inv.drained q old).2⟩

/-- The workers are cancelled when none has anything left to count or announce. -/
theorem join (inv : Orderly σ) {r : Outcome Unit} (settled : r = .ok () → ∀ x ∈ σ.handling, x.2.Settled) :
    Orderly (σ.join p r).2 := by
  unfold State.join
  split
  · refine ⟨inv.core, inv.closing, inv.drained, inv.unfinished, fun t ht => ?_, fun x hx unsettled => ?_⟩
    · rcases inv.known t ht with mem | mem
      · exact .inl mem
      · exact .inr (List.mem_append_right _ mem)
    · exact absurd (settled rfl x hx) unsettled
  · exact inv.leave p

theorem gather (inv : Orderly σ) (quiet : σ.Quiet) (r : Outcome Unit) : Orderly (σ.gather p r).2 := by
  unfold State.gather
  split
  · exact ⟨inv.core, inv.closing, inv.drained, inv.unfinished, fun t ht => .inr (quiet t ht), inv.active⟩
  · exact inv.leave p

theorem release (inv : Orderly σ) (r : Outcome Unit) : Orderly (σ.release p r).2 := by
  unfold State.release
  split
  · exact (inv.leave p).record p _
  · exact inv.leave p

/-- A wait for the queue that did not run out of time has seen it finished. -/
theorem settled_of_drained (inv : Orderly σ) (drained : p ∈ σ.drained) : ∀ x ∈ σ.handling, x.2.Settled := by
  have zero := (inv.drained p drained).2
  have count := inv.unfinished
  have none : σ.handling = [] := List.eq_nil_iff_length_eq_zero.2 (by omega)
  simp [none]

theorem settled_of_join (inv : Orderly σ) (ok : Spared config p o .join i σ) (done : i.outcome = .ok ()) :
    ∀ x ∈ σ.handling, x.2.Settled := by
  cases timedOut : i.timedOut with
  | true => exact ok.2 done timedOut
  | false => exact inv.settled_of_drained (ok.1 done timedOut)

theorem exec (inv : Orderly σ) (ok : Spared config p o c i σ) (guard : Guarded p c σ) :
    Orderly (σ.exec config p c i).2 := by
  cases c with
  | onEnvelope e => exact inv.onEnvelope p e
  | attach => exact inv.attach ok.2
  | start task => exact inv.start ok.1.1 p
  | get task =>
    refine @get _ task _ inv _ (History.mem_own.1 (by simp [guard.2])) fun done cancelled => ?_
    have interrupted := ok.1.2.2.2 cancelled
    rw [done] at interrupted
    cases interrupted
  | count outcome => exact inv.count outcome
  | publish => exact inv.publish i.outcome
  | taskDone => exact inv.taskDone
  | ended => exact inv.ended guard
  | close => exact inv.close p
  | join => exact inv.join fun done => inv.settled_of_join ok done
  | gather => exact inv.gather guard i.outcome
  | release => exact inv.release i.outcome
  | build | post | sleep => exact inv

end Orderly

end State

/-! ## What the others leave alone -/

/-- A task finds its own envelopes, tasks and closes as they were, and while it closes no task comes to
live. -/
structure Steady (p : ℕ) (σ σ' : State) : Prop where
  handling : History.own p σ'.handling = History.own p σ.handling
  running : History.own p σ'.running = History.own p σ.running
  closing : p ∈ σ'.closing ↔ p ∈ σ.closing
  quiet : p ∈ σ.closing → σ.Quiet → σ'.Quiet

namespace State.Orderly

theorem Kept.refl (σ : State) : Kept σ σ := ⟨rfl, rfl, rfl, rfl, rfl, rfl, rfl⟩

theorem Kept.trans {σ'' : State} (h : Kept σ σ') (h' : Kept σ' σ'') : Kept σ σ'' :=
  ⟨h'.workers.trans h.workers, h'.pending.trans h.pending, h'.running.trans h.running,
    h'.cancelled.trans h.cancelled, h'.core.trans h.core, h'.closed.trans h.closed, h'.closing.trans h.closing⟩

theorem kept_put (h : σ.put e = some σ') : Kept σ σ' := by
  unfold State.put at h
  obtain ⟨queue, -, rfl⟩ := Option.map_eq_some_iff.1 h
  exact ⟨rfl, rfl, rfl, rfl, rfl, rfl, rfl⟩

theorem kept_dropOldest (σ : State) : Kept σ σ.dropOldest := by
  unfold State.dropOldest
  split
  · rename_i queue _
    have moved : Kept σ { σ with queue := queue, dropped := σ.dropped + 1 } :=
      ⟨rfl, rfl, rfl, rfl, rfl, rfl, rfl⟩
    exact moved.trans (kept_finish _)
  · exact .refl σ

theorem kept_onEnvelope (σ : State) (q : ℕ) (e : Envelope) : Kept σ (σ.onEnvelope q e) := by
  have recorded : Kept σ (σ.record q .buffered) := ⟨rfl, rfl, rfl, rfl, rfl, rfl, rfl⟩
  unfold State.onEnvelope
  split
  · exact .refl σ
  · dsimp only
    split
    · rename_i put
      exact recorded.trans (kept_put put)
    · have dropped := recorded.trans (kept_dropOldest _)
      split
      · rename_i put
        exact dropped.trans (kept_put put)
      · exact dropped.trans ⟨rfl, rfl, rfl, rfl, rfl, rfl, rfl⟩

end State.Orderly

/-- The commands of a worker in the middle of an envelope, and those of the bus. -/
def Cmd.Serves : Cmd → Prop
  | onEnvelope _ | get _ | build _ | post _ _ | sleep _ | count _ | publish _ | taskDone => True
  | _ => False

/-- They leave the tasks as they are. -/
theorem kept_exec (hc : c.Serves) (i : Input) (σ : State) (q : ℕ) :
    Orderly.Kept σ (σ.exec config q c i).2 := by
  cases c with
  | onEnvelope e => exact Orderly.kept_onEnvelope σ q e
  | get =>
    simp only [State.exec, State.get]
    split
    · exact .refl σ
    · split <;> exact ⟨rfl, rfl, rfl, rfl, rfl, rfl, rfl⟩
  | count outcome =>
    simp only [State.exec, State.count]
    split
    · split_ifs <;> exact ⟨rfl, rfl, rfl, rfl, rfl, rfl, rfl⟩
    · exact .refl σ
  | publish =>
    simp only [State.exec, State.publish]
    split
    · split
      · split
        · exact ⟨rfl, rfl, rfl, rfl, rfl, rfl, rfl⟩
        · split_ifs <;> exact ⟨rfl, rfl, rfl, rfl, rfl, rfl, rfl⟩
      · exact ⟨rfl, rfl, rfl, rfl, rfl, rfl, rfl⟩
    · exact .refl σ
  | taskDone =>
    simp only [State.exec, State.taskDone]
    split
    · exact .refl σ
    · rename_i stage _
      have popped : Orderly.Kept σ { σ with handling := σ.handling.pop q } :=
        ⟨rfl, rfl, rfl, rfl, rfl, rfl, rfl⟩
      have finished := popped.trans (Orderly.kept_finish _)
      cases stage <;> exact finished.trans ⟨rfl, rfl, rfl, rfl, rfl, rfl, rfl⟩
  | build | post | sleep => exact .refl σ
  | _ => exact hc.elim

theorem own_turn (hq : q ≠ p) (σ : State) :
    History.own p (σ.turn q stage).handling = History.own p σ.handling := by
  rw [State.turn, History.own_cons_of_ne hq, History.own_pop_of_ne hq]

/-- The envelopes of a task are its own. -/
theorem own_exec (hq : q ≠ p) (c : Cmd) (i : Input) (σ : State) :
    History.own p (σ.exec config q c i).2.handling = History.own p σ.handling := by
  cases c with
  | onEnvelope e => rw [State.exec, (State.onEnvelope_spec σ q e).1]
  | attach =>
    simp only [State.exec, State.attach]
    split <;> rfl
  | get =>
    simp only [State.exec, State.get]
    split
    · rfl
    · split
      · rfl
      · exact History.own_cons_of_ne hq
  | count outcome =>
    simp only [State.exec, State.count]
    split
    · split_ifs <;> rw [own_turn hq] <;> rfl
    · rfl
  | publish =>
    simp only [State.exec, State.publish]
    split
    · split
      · split
        · rw [own_turn hq]
          rfl
        · split_ifs
          · rw [own_turn hq]
            rfl
          · rfl
      · rw [own_turn hq]
        rfl
    · rfl
  | taskDone =>
    cases hs : List.lookup q σ.handling with
    | none => rw [State.exec, State.taskDone_of_none hs]
    | some s => rw [State.exec, (State.taskDone_spec hs).2.1, History.own_pop_of_ne hq]
  | close =>
    simp only [State.exec, State.close]
    split
    · rfl
    · split
      · rfl
      · dsimp only
        split <;> rfl
  | join | gather | release =>
    simp only [State.exec, State.join, State.gather, State.release]
    split <;> rfl
  | start | build | post | sleep | ended => rfl

namespace Steady

theorem refl (p : ℕ) (σ : State) : Steady p σ σ := ⟨rfl, rfl, .rfl, fun _ h => h⟩

theorem trans {σ'' : State} (h : Steady p σ σ') (h' : Steady p σ' σ'') : Steady p σ σ'' where
  handling := h'.handling.trans h.handling
  running := h'.running.trans h.running
  closing := h'.closing.trans h.closing
  quiet closing quiet := h'.quiet (h.closing.2 closing) (h.quiet closing quiet)

/-- What is left to check when the tasks of the workers stay as they are. -/
theorem of_kept (kept : Orderly.Kept σ σ') (handling : History.own p σ'.handling = History.own p σ.handling) :
    Steady p σ σ' where
  handling := handling
  running := by rw [kept.running]
  closing := by rw [kept.closing]
  quiet _ quiet t ht := by
    rw [kept.cancelled]
    exact quiet t (kept.live.1 ht)

/-- Another task leaves `aclose`. -/
theorem leave (hq : q ≠ p) (σ : State) : Steady p σ (σ.leave q) where
  handling := rfl
  running := rfl
  closing := by simp [State.leave, hq.symm]
  quiet _ quiet := quiet

theorem exec (hq : q ≠ p) (ok : Spared config q o c i σ) :
    Steady p σ (σ.exec config q c i).2 := by
  have handling := @own_exec config _ _ hq c i σ
  have serves : c.Serves → Steady p σ (σ.exec config q c i).2 := fun hc => .of_kept (kept_exec hc i σ q) handling
  cases c with
  | attach =>
    refine ⟨handling, ?_, ?_, fun closing => ?_⟩
    · simp only [State.exec, State.attach]
      split <;> rfl
    · simp only [State.exec, State.attach]
      split <;> rfl
    · rw [show σ.closing = [] from ok.2] at closing
      cases closing
  | start task =>
    refine ⟨handling, History.own_cons_of_ne hq, .rfl, fun _ quiet t ht => quiet t ?_⟩
    rcases ht with old | ⟨r, hr⟩
    · exact .inl (List.mem_of_mem_erase old)
    · rcases List.mem_cons.1 hr with same | old
      · cases same
        exact .inl ok.1.1
      · exact .inr ⟨r, old⟩
  | ended =>
    refine ⟨handling, History.own_pop_of_ne hq σ.running, .rfl, fun _ quiet t ht => quiet t ?_⟩
    exact ht.imp_right fun ⟨r, hr⟩ => ⟨r, (History.pop_sublist q _).mem hr⟩
  | close =>
    simp only [State.exec, State.close]
    split
    · exact ⟨rfl, rfl, .rfl, fun _ quiet => quiet⟩
    · have closing : p ∈ q :: σ.closing ↔ p ∈ σ.closing := by simp [hq.symm]
      split
      · exact ⟨rfl, rfl, closing, fun _ quiet => quiet⟩
      · dsimp only
        split <;> exact ⟨rfl, rfl, closing, fun _ quiet => quiet⟩
  | join =>
    simp only [State.exec, State.join]
    split
    · exact ⟨rfl, rfl, .rfl, fun _ quiet t ht => List.mem_append_right _ (quiet t ht)⟩
    · exact leave hq σ
  | gather =>
    simp only [State.exec, State.gather]
    split
    · exact ⟨rfl, rfl, .rfl, fun _ quiet => quiet⟩
    · exact leave hq σ
  | release =>
    simp only [State.exec, State.release]
    split
    · exact (leave hq σ).trans ⟨rfl, rfl, .rfl, fun _ quiet => quiet⟩
    · exact leave hq σ
  | _ => exact serves trivial

end Steady

/-! ## The tasks of a subscriber -/

/-- What a task finds of its own: its envelope with its stage, the worker task that it executes, and whether it
is in the middle of an `aclose`. -/
structure Holds (p : ℕ) (stages : List Stage) (tasks : List ℕ) (closing : Prop) (σ : State) : Prop where
  stages : History.own p σ.handling = stages
  tasks : History.own p σ.running = tasks
  closing : p ∈ σ.closing ↔ closing

/-- A task between two calls. -/
abbrev Rests (p : ℕ) (σ : State) : Prop := Holds p [] [] False σ

/-- The contract of the tasks. -/
def order (config : WebhookDeliveryConfig) : Contract (subscriber config) where
  Inv := State.Orderly
  Ok p o c i σ := Spared config p o c i σ
  Guard p _ c _ σ := Guarded p c σ
  Post p _ _ σ := Rests p σ
  inv_exec inv ok guard := State.Orderly.exec inv ok guard
  inv_note inv _ := inv
  inv_disturb d _ := d.elim

section Safe

variable {α : Type} {Q : α → State → Prop} {stages stages' : List Stage} {tasks : List ℕ} {closing : Prop}

theorem Steady.of_rely (h : (order config).Rely p σ σ') : Steady p σ σ' := by
  refine Contract.Rely.le (order config) (R := Steady p) (Steady.refl p) (fun h h' => h.trans h') (fun h => ?_) h
  cases h with
  | @exec q o c i hq _ ok _ => exact Steady.exec (o := o) hq ok
  | note _ _ _ => exact Steady.refl p _
  | disturb d => cases d

theorem Steady.holds (steady : Steady p σ σ') (h : Holds p stages tasks closing σ) :
    Holds p stages tasks closing σ' where
  stages := steady.handling.trans h.stages
  tasks := steady.running.trans h.tasks
  closing := steady.closing.trans h.closing

/-- A command of a worker changes its stage only. -/
theorem Holds.serves (h : Holds p stages tasks closing σ) (hc : c.Serves)
    (own : History.own p (σ.exec config p c i).2.handling = stages') :
    Holds p stages' tasks closing (σ.exec config p c i).2 := by
  have kept := @kept_exec config _ hc i σ p
  exact ⟨own, by rw [kept.running, h.tasks], by rw [kept.closing, h.closing]⟩

/-- A command is safe when it is guarded wherever the others may have led, and each of its replies leaves the
rest safe. -/
theorem safe_cmd {f : c.Reply → Coro α} (h : Holds p stages tasks closing σ)
    (rest : ∀ σ' i, Orderly σ' → Holds p stages tasks closing σ' → Spared config p o c i σ' →
      Guarded p c σ' ∧ ∀ r, (σ'.exec config p c i).1 = r →
        (order config).Safe p o (f r) Q (σ'.exec config p c i).2) :
    (order config).Safe p o (c.await >>= f) Q σ :=
  Contract.Safe.step (K := order config) (fun hR h => (Steady.of_rely hR).holds h) h
    fun σ' i inv ok h' => (rest σ' i inv h' ok).imp_right fun safe => safe _ rfl

/-- The same for the last command of a program. -/
theorem safe_last {R : c.Reply → Prop} {tasks' : List ℕ} {closing' : Prop} (h : Holds p stages tasks closing σ)
    (rest : ∀ σ' i, Orderly σ' → Holds p stages tasks closing σ' → Spared config p o c i σ' →
      Guarded p c σ' ∧ R (σ'.exec config p c i).1 ∧
        Holds p stages' tasks' closing' (σ'.exec config p c i).2) :
    (order config).Safe p o c.await (fun r σ' => R r ∧ Holds p stages' tasks' closing' σ') σ :=
  Contract.Safe.step (K := order config) (fun hR h => (Steady.of_rely hR).holds h) h
    fun σ' i inv ok h' => (rest σ' i inv h' ok).imp_right fun ends =>
      fun _ hR _ => ends.imp_right (Steady.of_rely hR).holds

theorem safe_pure {a : α} (h : Holds p stages tasks closing σ) :
    (order config).Safe p o (Prog.pure a : Coro α) (fun r σ' => r = a ∧ Holds p stages tasks closing σ') σ :=
  fun _ hR _ => ⟨rfl, (Steady.of_rely hR).holds h⟩

/-- A result of a delivery that is in progress: an outcome. -/
abbrev Delivers (p task : ℕ) (e : Envelope) (r : Outcome DeliveryOutcome) (σ : State) : Prop :=
  (∃ outcome, r = .ok outcome) ∧ Holds p [.delivering e] [task] False σ

theorem safe_backoff {rest : Coro (Outcome DeliveryOutcome)} (left : ℕ)
    (h : Holds p [.delivering e] [task] False σ)
    (safe : ∀ {σ'}, Holds p [.delivering e] [task] False σ' → (order config).Safe p o rest (Delivers p task e) σ') :
    (order config).Safe p o (backoff task left rest) (Delivers p task e) σ := by
  have unsettled : ¬ (Stage.delivering e).Settled := nofun
  unfold backoff
  split_ifs
  · exact safe h
  · refine safe_cmd h fun σ₁ i inv h₁ ok => ⟨trivial, fun r hr => ?_⟩
    have free := inv.not_cancelled h₁.stages unsettled h₁.tasks
    have slept : i.outcome = .ok () := ok.1.1.resolve_right fun cancelled => free (ok.1.2.1 cancelled)
    obtain rfl : .ok () = r := slept.symm.trans hr
    exact safe h₁

/-- The attempts of a delivery end in an outcome. -/
theorem safe_attempts {request : Request} (n : ℕ) :
    ∀ {attempt : ℕ} {status : Option ℤ} {error : Option String} {σ : State},
      Holds p [.delivering e] [task] False σ →
        (order config).Safe p o (attempts config task request n attempt status error) (Delivers p task e) σ := by
  have unsettled : ¬ (Stage.delivering e).Settled := nofun
  have ends : ∀ outcome {σ : State}, Holds p [.delivering e] [task] False σ →
      (order config).Safe p o (Prog.pure (.ok outcome) : Coro (Outcome DeliveryOutcome)) (Delivers p task e) σ :=
    fun outcome _ h => (safe_pure h).mono fun r σ' _ h' => ⟨⟨_, h'.1⟩, h'.2⟩
  induction n with
  | zero => exact fun h => ends _ h
  | succ n ih =>
    intro attempt status error σ h
    refine safe_cmd h fun σ₁ i inv h₁ ok => ⟨trivial, fun r hr => ?_⟩
    cases r with
    | status code =>
      show (order config).Safe p o (if 200 ≤ code ∧ code < 300 then .pure _
        else if config.shouldRetry code = true then _ else .pure _) _ σ₁
      split_ifs
      · exact ends _ h₁
      · exact safe_backoff n h₁ ih
      · exact ends _ h₁
    | transport text => exact safe_backoff n h₁ ih
    | raised exc =>
      have raised : i.response = .raised exc := hr
      have handled : i.response.Handled := ok.2
      rw [raised] at handled
      have cancelled : exc = .cancelled := handled
      rw [cancelled] at raised
      exact absurd (ok.1.1 raised) (inv.not_cancelled h₁.stages unsettled h₁.tasks)

theorem own_turn_self (h : History.own p σ.handling = [stage]) (next : Stage) :
    History.own p (σ.turn p next).handling = [next] := by
  rw [State.turn, History.own_cons_self, History.own_pop_self, h, List.tail_cons]

theorem own_count (h : History.own p σ.handling = [.delivering e]) (outcome : DeliveryOutcome) :
    History.own p (σ.count config p outcome).handling =
      [if outcome.delivered then .finished
        else if config.emitFailureMeta then .announcing (config.notice e outcome) else .finished] := by
  unfold State.count
  rw [State.lookup_of_own h]
  dsimp only
  split_ifs <;> exact own_turn_self h _

/-- A notice whose worker is neither cancelled nor left by an exit is published, or the attempt logged. -/
theorem own_publish {n : Notice} {r : Outcome Unit} (h : History.own p σ.handling = [.announcing n])
    (core : σ.core = true) (going : r ≠ .error .cancelled ∧ r ≠ .error .exit) :
    (σ.publish p r).1 = .ok () ∧ History.own p (σ.publish p r).2.handling = [.finished] := by
  unfold State.publish
  rw [State.lookup_of_own h]
  dsimp only
  rw [if_pos core]
  cases r with
  | ok => exact ⟨rfl, own_turn_self h _⟩
  | error exc =>
    cases exc with
    | exception => exact ⟨rfl, own_turn_self h _⟩
    | cancelled => exact absurd rfl going.1
    | exit => exact absurd rfl going.2

/-- A delivery that goes wrong is counted and announced. -/
theorem safe_deliver (h : Holds p [.delivering e] [task] False σ) :
    (order config).Safe p o (deliver config task e)
      (fun r σ' => r = .ok () ∧ Holds p [.finished] [task] False σ') σ := by
  refine safe_cmd h fun σ₁ i inv h₁ ok => ⟨trivial, fun r hr => ?_⟩
  cases r with
  | error exc =>
    have built : config.buildRequest e i.transformed = .error exc := hr
    have failed := ok.2
    rw [Spares, built] at failed
    cases failed
  | ok request =>
    refine Contract.Safe.bind ((safe_attempts config.maxAttempts h₁).mono fun r σ₂ _ done => ?_)
    obtain ⟨⟨outcome, rfl⟩, h₂⟩ := done
    refine safe_cmd h₂ fun σ₃ j _ h₃ _ => ⟨⟨e, h₃.stages⟩, fun _ _ => ?_⟩
    have counted : Holds p _ [task] False (σ₃.exec config p (.count outcome) j).2 :=
      h₃.serves trivial (own_count h₃.stages outcome)
    cases delivered : outcome.delivered with
    | true =>
      rw [delivered] at counted
      exact safe_pure counted
    | false =>
      cases emit : config.emitFailureMeta with
      | false =>
        rw [delivered, emit] at counted
        exact safe_pure counted
      | true =>
        rw [delivered, emit] at counted
        refine safe_last counted fun σ₄ k inv₄ h₄ ok₄ => ?_
        have free : k.outcome ≠ .error .cancelled := fun cancelled =>
          inv₄.not_cancelled h₄.stages nofun h₄.tasks (ok₄.1.1 cancelled)
        have core := inv₄.core task (.inr ⟨p, History.mem_own.1 (by simp [h₄.tasks])⟩)
        obtain ⟨reply, own⟩ := own_publish h₄.stages core ⟨free, ok₄.2⟩
        exact ⟨⟨h₄.tasks, _, h₄.stages⟩, reply, h₄.serves trivial own⟩

/-- A `get` that does not raise takes an envelope. -/
theorem own_get (h : History.own p σ.handling = []) (r : Outcome Unit) :
    History.own p (σ.get p r).2.handling = (match (σ.get p r).1 with
      | .ok e => [.delivering e]
      | .error _ => []) := by
  unfold State.get
  cases r with
  | error => exact h
  | ok =>
    cases hq : σ.queue.getNowait with
    | none => exact h
    | some taken => simp [h]

theorem safe_runWorker (turns : ℕ) (h : Holds p [] [task] False σ) :
    (order config).Safe p o (runWorker config task turns) (fun _ σ' => Holds p [] [task] False σ') σ := by
  induction turns generalizing σ with
  | zero => trivial
  | succ n ih =>
    refine safe_cmd h fun σ₁ i _ h₁ _ => ⟨⟨h₁.stages, h₁.tasks⟩, fun r hr => ?_⟩
    have got : Holds p _ [task] False (σ₁.exec config p (.get task) i).2 :=
      h₁.serves trivial (own_get h₁.stages i.outcome)
    rw [show (σ₁.get p i.outcome).1 = r from hr] at got
    cases r with
    | error exc => exact (safe_pure got).mono fun _ _ _ h' => h'.2
    | ok e =>
      refine Contract.Safe.bind ((safe_deliver got).mono fun r σ₂ _ done => ?_)
      obtain ⟨rfl, h₂⟩ := done
      refine safe_cmd h₂ fun σ₃ j _ h₃ _ => ⟨h₃.stages, fun _ _ => ?_⟩
      have left : Holds p [] [task] False (σ₃.exec config p .taskDone j).2 := by
        refine h₃.serves trivial ?_
        rw [State.exec, (State.taskDone_spec (State.lookup_of_own h₃.stages)).2.1, History.own_pop_self,
          h₃.stages, List.tail_cons]
      exact ih left

/-- The end of a worker task. -/
theorem safe_ended (r : Outcome Unit) (h : Holds p [] [task] False σ) :
    (order config).Safe p o (Cmd.ended.await >>= fun _ => Prog.pure r) (fun _ σ' => Rests p σ') σ := by
  refine safe_cmd h fun σ₁ i _ h₁ _ => ⟨h₁.stages, fun _ _ => ?_⟩
  have gone : Rests p (σ₁.exec config p .ended i).2 := by
    refine ⟨h₁.stages, ?_, h₁.closing⟩
    rw [State.exec, History.own_pop_self, h₁.tasks, List.tail_cons]
  exact (safe_pure gone).mono fun _ _ _ h' => h'.2

theorem safe_worker (turns : ℕ) (h : Rests p σ) :
    (order config).Safe p o (worker config task turns) (fun _ σ' => Rests p σ') σ := by
  refine safe_cmd h fun σ₁ i _ h₁ _ => ⟨trivial, fun r _ => ?_⟩
  have begun : Holds p [] [task] False (σ₁.exec config p (.start task) i).2 := by
    refine ⟨h₁.stages, ?_, h₁.closing⟩
    rw [State.exec, State.start, History.own_cons_self, h₁.tasks]
  cases r with
  | error exc => exact safe_ended _ begun
  | ok => exact Contract.Safe.bind ((safe_runWorker turns begun).mono fun r σ₂ _ h₂ => safe_ended r h₂)

/-- A task in the middle of an `aclose` when every worker is cancelled. -/
def Quiesces (p : ℕ) (σ : State) : Prop := Holds p [] [] True σ ∧ σ.Quiet

theorem Quiesces.later (h : Quiesces p σ) (hR : (order config).Rely p σ σ') : Quiesces p σ' :=
  have steady := Steady.of_rely hR
  ⟨steady.holds h.1, steady.quiet (h.1.closing.2 trivial) h.2⟩

theorem rests_leave (h : Holds p [] [] True σ) : Rests p (σ.leave p) :=
  ⟨h.stages, h.tasks, by simp [State.leave]⟩

theorem safe_release (h : Quiesces p σ) :
    (order config).Safe p o Cmd.release.await (fun _ σ' => Rests p σ') σ := by
  refine Contract.Safe.step (K := order config) (fun hR h => h.later hR) h fun σ₁ i _ _ h₁ => ⟨h₁.2, ?_⟩
  have gone := rests_leave h₁.1
  have rests : Rests p (σ₁.exec config p .release i).2 := by
    simp only [State.exec, State.release]
    split
    · exact ⟨gone.stages, gone.tasks, gone.closing⟩
    · exact gone
  exact fun σ₂ hR _ => (Steady.of_rely hR).holds rests

theorem safe_gather (tasks : List ℕ) (h : Quiesces p σ) :
    (order config).Safe p o (do
      match ← (Cmd.gather tasks).await with
      | .error exc => return .error exc
      | .ok () => Cmd.release.await) (fun _ σ' => Rests p σ') σ := by
  refine Contract.Safe.step (K := order config) (fun hR h => h.later hR) h fun σ₁ i _ _ h₁ => ⟨h₁.2, ?_⟩
  obtain ⟨r, transformed, response, timedOut⟩ := i
  cases r with
  | error exc => exact (safe_pure (rests_leave h₁.1)).mono fun _ _ _ h' => h'.2
  | ok => exact safe_release ⟨⟨h₁.1.stages, h₁.1.tasks, h₁.1.closing⟩, h₁.2⟩

theorem close_spec (inv : Orderly σ) (h : Rests p σ) :
    match (σ.close p).1 with
    | .already => Rests p (σ.close p).2
    | .idle => Quiesces p (σ.close p).2
    | .draining => Holds p [] [] True (σ.close p).2 := by
  have inside : Holds p [] [] True { σ with closed := true, closing := p :: σ.closing } :=
    ⟨h.stages, h.tasks, by simp⟩
  unfold State.close
  split_ifs with closed
  · exact ⟨h.stages, h.tasks, h.closing⟩
  · dsimp only
    split_ifs with idle finished
    · exact ⟨inside, fun t ht => (inv.known t ht).resolve_left (by simp [idle])⟩
    · exact ⟨inside.stages, inside.tasks, inside.closing⟩
    · exact inside

theorem safe_join (h : Holds p [] [] True σ) :
    (order config).Safe p o (do
      match ← Cmd.join.await with
      | .error exc => return .error exc
      | .ok tasks =>
        match ← (Cmd.gather tasks).await with
        | .error exc => return .error exc
        | .ok () => Cmd.release.await) (fun _ σ' => Rests p σ') σ := by
  refine Contract.Safe.step (K := order config) (fun hR h => (Steady.of_rely hR).holds h) h
    fun σ₁ i inv _ h₁ => ⟨trivial, ?_⟩
  obtain ⟨r, transformed, response, timedOut⟩ := i
  cases r with
  | error exc => exact (safe_pure (rests_leave h₁)).mono fun _ _ _ h' => h'.2
  | ok =>
    refine safe_gather _ ⟨⟨h₁.stages, h₁.tasks, h₁.closing⟩, fun t ht => ?_⟩
    exact (inv.known t ht).elim (List.mem_append_left _) (List.mem_append_right _)

theorem safe_aclose (h : Rests p σ) : (order config).Safe p o aclose (fun _ σ' => Rests p σ') σ := by
  refine safe_cmd h fun σ₁ i inv h₁ _ => ⟨trivial, fun r hr => ?_⟩
  have spec := close_spec inv h₁
  rw [show (σ₁.close p).1 = r from hr] at spec
  cases r with
  | already => exact (safe_pure spec).mono fun _ _ _ h' => h'.2
  | idle => exact safe_release spec
  | draining => exact safe_join spec

end Safe

/-- A task that is there rests between two calls. -/
def Between (p : ℕ) (φ : Phase) (σ : State) : Prop := φ = .there → Rests p σ

theorem kept : (order config).Kept Between fun _ => True where
  idle p σ h := by cases h
  call {p φ o σ} _ accepts _ between := by
    have h := between (of_decide_eq_true accepts)
    cases o with
    | attach =>
      refine safe_cmd h fun σ₁ i _ h₁ _ => ⟨trivial, fun _ _ => ?_⟩
      have same : Rests p (σ₁.exec config p .attach i).2 := by
        simp only [State.exec, State.attach]
        split <;> exact ⟨h₁.stages, h₁.tasks, h₁.closing⟩
      exact (safe_pure same).mono fun _ _ _ h' => h'.2
    | onEnvelope e =>
      refine safe_cmd h fun σ₁ i _ h₁ _ => ⟨trivial, fun _ _ => ?_⟩
      have same : Rests p (σ₁.exec config p (.onEnvelope e) i).2 :=
        h₁.serves trivial ((congrArg _ (State.onEnvelope_spec σ₁ p e).1).trans h₁.stages)
      exact (safe_pure same).mono fun _ _ _ h' => h'.2
    | worker task turns => exact safe_worker turns h
    | aclose => exact safe_aclose h
  phase _ post _ := post
  stable other between h := (Steady.of_rely (.single other)).holds (between h)

theorem orderly_new (config : WebhookDeliveryConfig) : Orderly config.new.shared := by
  have idle : ∀ task, ¬ State.Live config.new.shared task := by
    rintro task (pending | ⟨p, running⟩)
    · cases pending
    · cases running
  exact ⟨fun task live => absurd live (idle task), fun closing => absurd rfl closing,
    fun q hq => absurd hq List.not_mem_nil, rfl, fun task live => absurd live (idle task),
    fun x hx => absurd hx List.not_mem_nil⟩

theorem within_new (config : WebhookDeliveryConfig) : (order config).Within Between (fun _ => True) config.new where
  inv := orderly_new config
  resting _ _ := ⟨rfl, rfl, by simp [WebhookDeliveryConfig.new]⟩
  admits _ := trivial
  calling h := by cases h

/-! ## Conservation -/

/-- The counters of a moment account for so many envelopes. -/
def Stats.Covers (stats : Stats) (n : ℕ) : Prop := n = stats.delivered + stats.failed + stats.dropped + stats.queued

/-- No envelope and no notice is lost with this event. -/
def Event.Harmless : Event → Prop
  | abandoned | unannounced _ => False
  | closed n stats => stats.Covers n
  | _ => True

/-- The account of a subscriber that lost nothing. -/
structure Spotless (σ : State) : Prop where
  accounted : σ.Accounted
  harmless : ∀ x ∈ σ.log, x.2.Harmless

namespace Spotless

theorem times_eq_zero (h : Spotless σ) {event : Event} (harm : ¬ event.Harmless) : σ.times event = 0 := by
  unfold State.times History.total History.weigh
  refine List.sum_eq_zero fun n hn => ?_
  obtain ⟨other, hother, rfl⟩ := List.mem_map.1 hn
  obtain ⟨x, hx, rfl⟩ := List.mem_map.1 hother
  have other : x.2 ≠ event := fun same => harm (same ▸ h.harmless x hx)
  exact if_neg other

theorem balanced (h : Spotless σ) : σ.Balanced := by
  have total := h.accounted
  rw [State.Accounted, State.held, @times_eq_zero _ h .abandoned id, Nat.add_zero] at total
  exact total

/-- The counters account for every envelope when none is in delivery. -/
theorem covers (h : Spotless σ) (still : σ.inDelivery = 0) : σ.stats.Covers σ.buffered := by
  have total := h.balanced
  rw [State.Balanced, still, Nat.add_zero] at total
  exact total

end Spotless

/-- At most one event is recorded, and it is harmless. -/
def Mild (p : ℕ) (σ σ' : State) : Prop :=
  σ'.log = σ.log ∨ ∃ event, event.Harmless ∧ σ'.log = (p, event) :: σ.log

theorem mild_exec (spotless : Spotless σ) (inv : Orderly σ) (ok : Spared config p o c i σ) (guard : Guarded p c σ) :
    Mild p σ (σ.exec config p c i).2 := by
  have aside : c.Aside → Mild p σ (σ.exec config p c i).2 := by
    intro hc
    rcases aside_exec hc i σ with same | ⟨returns, same⟩
    · exact .inl same.log
    · have still : σ.inDelivery = 0 := by
        rcases returns with ⟨rfl, closed⟩ | ⟨rfl, -⟩
        · exact ok.2 closed
        · exact State.inDelivery_of_settled (inv.settled guard)
      exact .inr ⟨.closed σ.buffered σ.stats, spotless.covers still, same.log⟩
  cases c with
  | onEnvelope e =>
    have spec := (State.onEnvelope_spec σ p e).2
    split at spec
    · exact .inl (congrArg State.log spec)
    · exact .inr ⟨.buffered, trivial, spec.2⟩
  | get =>
    simp only [State.exec, State.get]
    split
    · exact .inl rfl
    · split <;> exact .inl rfl
  | count outcome =>
    simp only [State.exec, State.count]
    split
    · split_ifs
      · exact .inl rfl
      · exact .inr ⟨.failed _, trivial, rfl⟩
      · exact .inr ⟨.failed _, trivial, rfl⟩
    · exact .inl rfl
  | publish task =>
    have core := inv.core task (.inr ⟨p, History.mem_own.1 (by simp [guard.1])⟩)
    simp only [State.exec, State.publish, core, if_true]
    split
    · split
      · exact .inr ⟨.published _, trivial, rfl⟩
      · split_ifs
        · exact .inr ⟨.warned _, trivial, rfl⟩
        · exact .inl rfl
    · exact .inl rfl
  | taskDone => exact .inl (State.taskDone_spec (State.lookup_of_own guard)).2.2
  | _ => exact aside trivial

theorem Spotless.exec (h : Spotless σ) (inv : Orderly σ) (ok : Spared config p o c i σ) (guard : Guarded p c σ) :
    Spotless (σ.exec config p c i).2 where
  accounted := accounted_exec h.accounted c i
  harmless x hx := by
    rcases mild_exec h inv ok guard with same | ⟨event, harmless, log⟩
    · exact h.harmless x (same ▸ hx)
    · rw [log] at hx
      rcases List.mem_cons.1 hx with rfl | hx
      · exact harmless
      · exact h.harmless x hx

/-- Each buffered envelope is delivered, failed, dropped, queued, or in delivery by a task; at the return of an
`aclose` none was in delivery; and each failure was announced, or is about to be. -/
structure Conserved (P : Pool (subscriber config)) : Prop where
  balanced : P.shared.Balanced
  running : ∀ x ∈ P.shared.handling, ∃ o y, P.actors x.1 = .calling o y
  closed : ∀ x ∈ P.shared.log, ∀ n stats, x.2 = .closed n stats → stats.Covers n
  announced : config.emitFailureMeta = true → ∀ n, P.shared.times (.failed n) =
    P.shared.times (.published n) + P.shared.times (.warned n) + P.shared.announcing n

/-- In every run whose commands lose no envelope, the subscriber is conservative. -/
theorem delivered_accounted {P : Pool (subscriber config)}
    (hr : Pool.Reach (fun Q a => Pool.Meets (Spared config) Q a ∧ a.Uncrashed) config.new P) : Conserved P := by
  have admitted : Pool.Reach (fun Q a => (order config).Admitted (fun _ => True) Q a ∧
      Pool.Meets (Spared config) Q a) config.new P := by
    refine hr.mono fun Q a ha => ⟨?_, ha.1⟩
    cases a with
    | exec p i => exact fun o c k hp _ => ha.1 o c k hp
    | _ => trivial
  have within := Contract.sound kept (within_new config) (admitted.mono fun _ _ ha => ha.1)
  have spotless : Spotless P.shared := by
    refine Contract.invariant kept (J := Spotless) (C := Spared config)
      (fun {p o c i σ} _ inv ok _ guard h => h.exec (o := o) inv ok guard) (fun _ _ h => h) (fun (d : Empty) _ _ => d.elim)
      (within_new config) ⟨rfl, fun x hx => absurd hx List.not_mem_nil⟩ admitted
  have there : ∀ p φ, P.actors p = .resting φ → φ = .there := by
    refine hr.resting (Φ := fun φ => φ = Phase.there) (fun ha => ha.2) (fun _ _ => rfl) fun p φ hp => ?_
    cases hp
    rfl
  refine ⟨spotless.balanced, fun x hx => ?_, fun x hx n stats closed => ?_, fun emit n => ?_⟩
  · cases hp : P.actors x.1 with
    | calling o y => exact ⟨o, y, rfl⟩
    | resting φ =>
      have none := (within.resting hp (there _ _ hp)).stages
      have some := History.mem_own.2 (show (x.1, x.2) ∈ P.shared.handling from hx)
      rw [none] at some
      cases some
  · have harmless := spotless.harmless x hx
    rw [closed] at harmless
    exact harmless
  · have total := noticed hr emit n
    rw [@Spotless.times_eq_zero _ spotless (.unannounced n) id, Nat.add_zero] at total
    exact total

namespace Scenario

/-- A subscriber that tries once, with a buffer of one and so many further workers. -/
def settings (more : ℕ) : WebhookDeliveryConfig where
  url := "https://example.test/hook"
  maxAttempts := 1
  queueSize := 1
  concurrency := more + 1
  concurrency_pos := by omega

/-- An envelope with this payload. -/
def envelope (content : Lifecycle.Value) : Envelope where
  eventId := "e1".toList
  topic := "order".toList
  payload := content
  timestamp := Bus.epoch

def failure : Exc := .exception "ConnectionError" (some "refused")

variable (config : WebhookDeliveryConfig)

/-- The subscriber is attached. -/
def attaches : List (Act (subscriber config)) := [.call 0 .attach, .exec 0 {}, .ret 0]

/-- A task handles an envelope. -/
def handles (content : Lifecycle.Value) : List (Act (subscriber config)) :=
  [.call 0 (.onEnvelope (envelope content)), .exec 0 {}, .ret 0]

/-- The actor `p` begins a worker task. -/
def begins (p task : ℕ) : List (Act (subscriber config)) := [.call p (.worker task 9), .exec p {}]

/-- A worker takes an envelope, and its request is answered. -/
def answered (p : ℕ) (response : Response) : List (Act (subscriber config)) :=
  [.exec p {}, .exec p {}, .exec p { response := response }, .exec p {}]

end Scenario

open Scenario in
/-- Of four envelopes one is dropped, one delivered, and two fail; a notice is published and one logged. -/
theorem delivered_accounted_witness : ∃ P,
    Pool.Reach (fun Q a => Pool.Meets (Spared (settings 0)) Q a ∧ a.Uncrashed) (settings 0).new P ∧
    (P.shared.buffered = 4 ∧ P.shared.stats = ⟨1, 2, 1, 0, 0⟩ ∧
      (2, .closed 4 ⟨1, 2, 1, 0, 0⟩) ∈ P.shared.log) ∧ Conserved P := by
  have run : ∃ P ∈ (settings 0).new.runIf (Spared (settings 0))
      (attaches _ ++ begins _ 1 0 ++ handles _ (.dict []) ++ handles _ (.dict []) ++
        answered _ 1 (.status 200) ++ [.exec 1 {}] ++ handles _ (.dict []) ++
        answered _ 1 (.status 404) ++ [.exec 1 {}, .exec 1 {}] ++ handles _ (.dict []) ++
        [.call 2 .aclose, .exec 2 {}] ++ answered _ 1 (.transport "ConnectionError: refused") ++
        [.exec 1 { outcome := .error failure }, .exec 1 {}, .exec 2 {},
          .exec 1 { outcome := .error .cancelled }, .exec 1 {}, .ret 1, .exec 2 {}, .exec 2 {}, .ret 2]),
      P.shared.buffered = 4 ∧ P.shared.stats = ⟨1, 2, 1, 0, 0⟩ ∧
        (2, .closed 4 ⟨1, 2, 1, 0, 0⟩) ∈ P.shared.log := by decide +kernel
  obtain ⟨P, hP, facts⟩ := run
  have reach : Pool.Reach (fun Q a => Pool.Meets (Spared (settings 0)) Q a ∧ a.Uncrashed) (settings 0).new P :=
    .of_runIf_forall (by decide +kernel) hP
  exact ⟨P, reach, facts, delivered_accounted reach⟩

open Scenario in
/-- A request that cannot be built costs its envelope, and an `aclose` that gives up waiting costs one worker
its delivery and another its notice. -/
theorem deliveries_lost : ∃ (config : WebhookDeliveryConfig) (P : Pool (subscriber config)),
    Pool.Reach (fun Q a => Pool.Meets (Awaits config) Q a ∧ a.Uncrashed) config.new P ∧
      (P.shared.buffered = 3 ∧ P.shared.stats = ⟨0, 1, 0, 0, 0⟩ ∧ P.shared.inDelivery = 0) ∧
      (2, .closed 3 ⟨0, 1, 0, 0, 0⟩) ∈ P.shared.log ∧
      (∃ n, P.shared.times (.failed n) = 1 ∧ P.shared.times (.published n) = 0 ∧
        P.shared.times (.warned n) = 0 ∧ P.shared.announcing n = 0) ∧ ¬ Conserved P := by
  have run : ∃ P ∈ (settings 1).new.runIf (Awaits (settings 1))
      (attaches _ ++ begins _ 1 0 ++ begins _ 3 1 ++ handles _ (.broken failure) ++
        [.exec 1 {}, .exec 1 {}, .exec 1 {}] ++ handles _ (.dict []) ++ answered _ 1 (.status 404) ++
        handles _ (.dict []) ++ [.exec 3 {}, .exec 3 {}, .call 2 .aclose, .exec 2 {},
          .exec 2 { timedOut := true }, .exec 1 { outcome := .error .cancelled }, .exec 1 {}, .exec 1 {}, .ret 1,
          .exec 3 { response := .raised .cancelled }, .exec 3 {}, .exec 3 {}, .ret 3, .exec 2 {}, .exec 2 {},
          .ret 2]),
      (P.shared.buffered = 3 ∧ P.shared.stats = ⟨0, 1, 0, 0, 0⟩ ∧ P.shared.inDelivery = 0) ∧
        (2, .closed 3 ⟨0, 1, 0, 0, 0⟩) ∈ P.shared.log ∧
        ∃ n, P.shared.times (.failed n) = 1 ∧ P.shared.times (.published n) = 0 ∧
          P.shared.times (.warned n) = 0 ∧ P.shared.announcing n = 0 := by
    refine ⟨_, rfl, by decide +kernel, by decide +kernel,
      (settings 1).notice (envelope (.dict [])) ⟨false, 1, some 404, some "permanent"⟩, ?_⟩
    decide +kernel
  obtain ⟨P, hP, counts, closed, notice⟩ := run
  refine ⟨settings 1, P, .of_runIf_forall (by decide +kernel) hP, counts, closed, notice, fun conserved => ?_⟩
  obtain ⟨buffered, stats, still⟩ := counts
  have balanced := conserved.balanced
  rw [State.Balanced, buffered, stats, still] at balanced
  cases balanced

end NavigatorEventbus.Outgoing
