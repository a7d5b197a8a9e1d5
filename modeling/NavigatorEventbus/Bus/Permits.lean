import NavigatorEventbus.Bus.Recursion

/-!
# Permits and workers

Each envelope that enters a queue comes with a permit, and a worker needs a permit for each attempt to take
one.  So the permits that are there, with those of the workers that have one and have not used it yet, are
always enough for the queues (`Staffed.enough`); a worker with a permit finds nothing only when all queues
are empty.  A worker that an exception leaves is lost to the queues: its dispatch let the exception through,
or a close cancelled it (`Watch`).
-/

namespace NavigatorEventbus.Bus

open Interleave

open State (Enqueued Publishing Appended Taken Waited)

/-! ## Putting and taking -/

/-- The commands that are not of the loop of a worker. -/
def Cmd.Aside : Cmd → Prop
  | .boot | .acquire | .acquired | .take => False
  | _ => True

/-- The commands that are not of the loop of a worker, and neither cancel others nor begin the relay. -/
def Cmd.Ordinary : Cmd → Prop
  | .boot | .acquire | .acquired | .take | .bootRelay | .stopRelay | .runnerDone => False
  | _ => True

theorem Cmd.Ordinary.aside {c : Cmd} (h : c.Ordinary) : c.Aside := by
  cases c <;> trivial

namespace State

variable {core : BusCore} {σ σ' σ'' : State} {p call ticket : ℕ} {e : Envelope} {inMeta : Bool} {i : Input}

/-- As many permits are released as envelopes enter the queues, or more; no worker begins or ends, and
nobody is cancelled. -/
structure Fed (σ σ' : State) : Prop where
  line : σ'.items.line = σ.items.line
  live : σ'.live = σ.live
  relayTask : σ'.relayTask = σ.relayTask
  cancelling : ∀ q, σ.cancelling q = false → σ'.cancelling q = false
  fair : σ.items.Fair → σ'.items.Fair
  enough : σ'.queued.length + σ.items.permits ≤ σ.queued.length + σ'.items.permits

theorem queued_congr (h : ∀ priority, (σ'.queues priority).items = (σ.queues priority).items) :
    σ'.queued = σ.queued := by
  simp only [queued, h]

theorem length_queued_setQueue (priority : EventPriority) (q : Asyncio.Queue Item) :
    (σ.setQueue priority q).queued.length + (σ.queues priority).items.length =
      σ.queued.length + q.items.length := by
  cases priority <;>
  · simp only [queued, setQueue, Function.update, eq_rec_constant, dite_eq_ite, reduceCtorEq, if_false, if_true,
      List.length_append]
    omega

/-- A worker that finds nothing finds all queues empty. -/
theorem popNext_eq_none (h : σ.popNext = none) : σ.queued = [] := by
  have empty : ∀ priority ∈ [EventPriority.critical, .high, .normal, .low], (σ.queues priority).items = [] := by
    intro priority hp
    have none := List.findSome?_eq_none_iff.1 h priority hp
    rw [Option.map_eq_none_iff, Asyncio.Queue.getNowait] at none
    split at none
    · assumption
    · cases none
  rw [queued, empty .critical (by simp), empty .high (by simp), empty .normal (by simp), empty .low (by simp)]
  rfl

/-- `close` after waiting for the workers. -/
theorem runnerDone_cases {C : Waited × State → Prop} (cancelled : C (.cancelled, (σ.resumed p).cancelWorkers))
    (ended : C (.ended, σ)) (timeout : C (.timeout, σ.cancelWorkers)) : C (σ.runnerDone p) := by
  rw [runnerDone]
  split_ifs
  · exact cancelled
  · exact ended
  · exact timeout

namespace Fed

theorem of_same (queues : ∀ priority, (σ'.queues priority).items = (σ.queues priority).items)
    (items : σ'.items = σ.items) (live : σ'.live = σ.live) (relayTask : σ'.relayTask = σ.relayTask)
    (cancelling : σ'.cancelling = σ.cancelling) : Fed σ σ' where
  line := by rw [items]
  live := live
  relayTask := relayTask
  cancelling q h := cancelling ▸ h
  fair h := items ▸ h
  enough := by rw [items, queued_congr queues]

theorem refl : Fed σ σ := of_same (fun _ => rfl) rfl rfl rfl rfl

theorem trans (h : Fed σ σ') (h' : Fed σ' σ'') : Fed σ σ'' where
  line := h'.line.trans h.line
  live := h'.live.trans h.live
  relayTask := h'.relayTask.trans h.relayTask
  cancelling q hq := h'.cancelling q (h.cancelling q hq)
  fair fair := h'.fair (h.fair fair)
  enough := by
    have first := h.enough
    have second := h'.enough
    omega

/-- A queue becomes no longer. -/
theorem setQueue {priority : EventPriority} {q : Asyncio.Queue Item}
    (h : q.items.length ≤ (σ.queues priority).items.length) : Fed σ (σ.setQueue priority q) where
  line := rfl
  live := rfl
  relayTask := rfl
  cancelling _ := id
  fair := id
  enough := by
    have moved := length_queued_setQueue (σ := σ) priority q
    have same : (σ.setQueue priority q).items.permits = σ.items.permits := rfl
    omega

theorem resumed : Fed σ (σ.resumed p) where
  line := rfl
  live := rfl
  relayTask := rfl
  cancelling q h := by
    change Function.update σ.cancelling p false q = false
    by_cases hq : q = p
    · rw [hq, Function.update_self]
    · rwa [Function.update_of_ne hq]
  fair := id
  enough := Nat.le_refl _

/-- An envelope enters a queue, with its permit. -/
theorem put {priority : EventPriority} {q : Asyncio.Queue Item} {item : Item}
    (h : q.items.length ≤ (σ.queues priority).items.length) :
    Fed σ (σ.setQueue priority (q.push item)).release where
  line := Asyncio.Semaphore.line_release
  live := rfl
  relayTask := rfl
  cancelling _ := id
  fair := Asyncio.Semaphore.Fair.release
  enough := by
    have moved := length_queued_setQueue (σ := σ) priority (q.push item)
    have longer : (q.push item).items.length = q.items.length + 1 := by
      rw [Asyncio.Queue.push, List.length_append, List.length_singleton]
    have more : (σ.setQueue priority (q.push item)).release.items.permits = σ.items.permits + 1 :=
      Asyncio.Semaphore.permits_release
    have same : (σ.setQueue priority (q.push item)).release.queued = (σ.setQueue priority (q.push item)).queued :=
      rfl
    rw [same, more]
    omega

end Fed

theorem fed_publishMeta (topic : String) (payload : Json) : Fed σ (σ.publishMeta topic payload i).2 :=
  publishMeta_cases (C := fun r => Fed σ r.2) (fun _ _ => .put (Nat.le_refl _)) fun _ => .refl

theorem fed_emitBackpressureMeta (policy : Policy) : Fed σ (σ.emitBackpressureMeta core e policy inMeta i) :=
  emitBackpressureMeta_cases .refl fun _ _ => .put (Nat.le_refl _)

theorem fed_enter {q : Asyncio.Queue Item} (h : q.items.length ≤ (σ.queues e.priority).items.length) :
    Fed σ (σ.enter p call e q) :=
  (Fed.put h).trans (.of_same (fun _ => rfl) rfl rfl rfl rfl)

theorem fed_enqueueLocal : Fed σ (σ.enqueueLocal core p call e inMeta i).2 := by
  refine enqueueLocal_cases (C := fun r => Fed σ r.2) (fun _ => fed_enter (Nat.le_refl _))
    (fun _ _ => fed_emitBackpressureMeta _) (fun σ' dropped q _ _ hσ' hq => ?_) (fun σ' _ _ hσ' => ?_)
  · have emitted : Fed σ σ' := hσ' ▸ fed_emitBackpressureMeta _
    have replaced : Fed σ' (σ'.replace p dropped) := by
      rw [replace]
      split <;> exact .of_same (fun _ => rfl) rfl rfl rfl rfl
    have queues : (σ'.replace p dropped).queues = σ'.queues := by
      rw [replace]
      split <;> rfl
    refine (emitted.trans replaced).trans (fed_enter ?_)
    rw [queues, Asyncio.Queue.items_getNowait hq, List.length_cons]
    exact Nat.le_succ _
  · have emitted : Fed σ σ' := hσ' ▸ fed_emitBackpressureMeta _
    exact emitted.trans (.setQueue (Nat.le_refl _))

theorem fed_rememberFanout (eventId : String) : Fed σ (σ.rememberFanout p eventId) :=
  .of_same (fun priority => by rw [rememberFanout]) (by rw [rememberFanout]) (by rw [rememberFanout])
    (by rw [rememberFanout]) (by rw [rememberFanout])

theorem fed_fanOut : Fed σ (σ.fanOut p e) :=
  .of_same (fun priority => by rw [queues_fanOut]) (by rw [fanOut, rememberFanout]) (by rw [fanOut, rememberFanout])
    (by rw [fanOut, rememberFanout]) (by rw [fanOut, rememberFanout])

theorem fed_stats (stats : Stats) : Fed σ { σ with stats } := .of_same (fun _ => rfl) rfl rfl rfl rfl

theorem fed_perform : Fed σ (σ.perform core p i ticket).2 := by
  rw [perform]
  split
  · exact .refl
  · exact .of_same (fun _ => rfl) rfl rfl rfl rfl

theorem fed_submit (job : Job) : Fed σ (σ.submit job).2 := by
  rw [submit]
  split_ifs <;> exact .of_same (fun _ => rfl) rfl rfl rfl rfl

theorem fed_publish : Fed σ (σ.publish core p e inMeta i).2 := by
  refine publish_cases (C := fun r => Fed σ r.2) (fun _ => .refl)
    (fun _ _ _ => .of_same (fun _ => rfl) rfl rfl rfl rfl) (fun stats σ' _ _ hσ' => ?_)
  refine Fed.trans ?_ fed_enqueueLocal
  have begun : Fed σ σ' := hσ' ▸ .of_same (fun _ => rfl) rfl rfl rfl rfl
  split_ifs
  · exact begun.trans fed_fanOut
  · exact begun

theorem fed_appended : Fed σ (σ.appended core p ticket call e inMeta i).2 := by
  have enqueued : ∀ {τ : State}, Fed (σ.perform core p i ticket).2 τ →
      Fed σ ((τ.fanOut p e).enqueueLocal core p call e inMeta i).2 := fun h =>
    ((fed_perform.trans h).trans fed_fanOut).trans fed_enqueueLocal
  refine appended_cases (C := fun r => Fed σ r.2) (fun _ => Fed.resumed.trans (.of_same (fun _ => rfl) rfl rfl rfl rfl))
    (fun stats _ _ => fed_perform.trans (.of_same (fun _ => rfl) rfl rfl rfl rfl)) (fun σ' _ _ hσ' => enqueued ?_)
    (fun stats σ' _ _ _ hσ' => enqueued ?_)
  · exact hσ' ▸ .of_same (fun _ => rfl) rfl rfl rfl rfl
  · exact hσ' ▸ .of_same (fun _ => rfl) rfl rfl rfl rfl

theorem fed_slot : Fed σ (σ.slot p call e).2 := by
  rw [slot]
  split_ifs
  · refine Fed.resumed.trans (.setQueue ?_)
    rw [Asyncio.Queue.items_cancelPut]
    exact Nat.le_refl _
  · exact fed_enter (Nat.le_refl _)

/-- The workers are told to stop, with a permit for each. -/
theorem fed_stop : Fed σ (σ.stop core) := by
  have released : ∀ (n : ℕ) (s : Asyncio.Semaphore), (Nat.iterate Asyncio.Semaphore.release n s).line = s.line ∧
      (s.Fair → (Nat.iterate Asyncio.Semaphore.release n s).Fair) ∧
      s.permits ≤ (Nat.iterate Asyncio.Semaphore.release n s).permits := by
    intro n
    induction n with
    | zero => exact fun s => ⟨rfl, id, Nat.le_refl _⟩
    | succ n ih =>
      intro s
      obtain ⟨line, fair, permits⟩ := ih s.release
      refine ⟨line.trans Asyncio.Semaphore.line_release, fun h => fair h.release, ?_⟩
      have more := Asyncio.Semaphore.permits_release (s := s)
      rw [Function.iterate_succ_apply]
      omega
  obtain ⟨line, fair, permits⟩ := released core.workers σ.items
  exact ⟨line, rfl, rfl, fun _ => id, fair, Nat.add_le_add_left permits _⟩

theorem fed_drained {drainTimeout : Json} : Fed σ (σ.drained core p drainTimeout i).2 := by
  refine drained_cases (C := fun r => Fed σ r.2) (fun _ => .resumed)
    (fun droppedOnClose payload σ' _ _ hσ' => ?_) (fun _ _ => fed_stop)
  have counted : Fed σ σ' := hσ' ▸ .of_same (fun _ => rfl) rfl rfl rfl rfl
  exact (counted.trans (fed_publishMeta _ _)).trans fed_stop

/-- An ordinary command releases a permit for each envelope that it puts. -/
theorem fed_exec {c : Cmd} (ordinary : c.Ordinary) : Fed σ (σ.exec core p c i).2 := by
  cases c with
  | boot | acquire | acquired | take | bootRelay | stopRelay | runnerDone => cases ordinary
  | publish e inMeta => exact fed_publish
  | appended ticket call e inMeta => exact fed_appended
  | slot call e => exact fed_slot
  | publishMeta topic payload => exact fed_publishMeta topic payload
  | drained drainTimeout => exact fed_drained
  | backendPublished e timed =>
    simp only [exec]
    exact backendPublished_cases (C := fun r => Fed σ r.2)
      (fun _ => Fed.resumed.trans (.of_same (fun _ => rfl) rfl rfl rfl rfl))
      (fun _ => .of_same (fun _ => rfl) rfl rfl rfl rfl) (fun _ _ _ => .of_same (fun _ => rfl) rfl rfl rfl rfl)
      (fun _ _ => .of_same (fun _ => rfl) rfl rfl rfl rfl) (fun _ _ _ _ _ _ => .of_same (fun _ => rfl) rfl rfl rfl rfl)
      fun _ => .of_same (fun _ => rfl) rfl rfl rfl rfl
  | settled ticket e confirmed timed =>
    simp only [exec]
    exact settled_cases (C := fun r => Fed σ r.2) (Fed.resumed.trans (.of_same (fun _ => rfl) rfl rfl rfl rfl))
      fun _ _ _ => fed_perform.trans (.of_same (fun _ => rfl) rfl rfl rfl rfl)
  | relayRows ticket timed =>
    simp only [exec]
    exact relayRows_cases (C := fun r => Fed σ r.2) (Fed.resumed.trans (.of_same (fun _ => rfl) rfl rfl rfl rfl))
      (fun _ => fed_perform) fun _ _ _ => fed_perform
  | relayRefreshed ticket timed =>
    simp only [exec]
    exact relayRefreshed_cases (C := fun r => Fed σ r.2) (Fed.resumed.trans (.of_same (fun _ => rfl) rfl rfl rfl rfl))
      fun _ _ _ => fed_perform.trans (.of_same (fun _ => rfl) rfl rfl rfl rfl)
  | relayDue => exact fed_submit _
  | relayStats => exact fed_submit _
  | closeOutbox => exact fed_submit _
  | outboxClosed ticket =>
    simp only [exec, outboxClosed]
    split_ifs
    · exact Fed.resumed.trans (.of_same (fun _ => rfl) rfl rfl rfl rfl)
    · exact fed_perform.trans (.of_same (fun _ => rfl) rfl rfl rfl rfl)
  | relayPick e =>
    simp only [exec, relayPick]
    split_ifs
    · exact .refl
    · have tracked : Fed σ { σ with outboxInflight := σ.outboxInflight.insert e.eventId } :=
        .of_same (fun _ => rfl) rfl rfl rfl rfl
      exact (tracked.trans (fed_rememberFanout e.eventId)).trans (fed_stats _)
  | bootPublish =>
    simp only [exec, bootPublish]
    split
    · exact .refl
    · exact .of_same (fun _ => rfl) rfl rfl rfl rfl
  | arrive e =>
    simp only [exec, arrive]
    split_ifs <;> exact .of_same (fun _ => rfl) rfl rfl rfl rfl
  | start inMeta =>
    simp only [exec, start]
    split_ifs
    · exact .refl
    · exact .of_same (fun _ => rfl) rfl rfl rfl rfl
  | beginClose =>
    simp only [exec, beginClose]
    split_ifs <;> exact .of_same (fun _ => rfl) rfl rfl rfl rfl
  | consumerStarted | publishesEnded | backendClosed | sleep | handler | callback | runnerEnded | relayEnded =>
    exact .resumed
  | _ => exact .of_same (fun _ => rfl) rfl rfl rfl rfl

/-- What happens besides the tasks puts nothing, and cancels no worker. -/
theorem fed_disturb (d : Disturbance) (uncancelled : ∀ q, d = .cancel q → q ∈ σ.live) :
    Fed σ (σ.disturb core d) := by
  cases d with
  | subscribe sub =>
    simp only [disturb, subscribe]
    split_ifs <;> exact .of_same (fun _ => rfl) rfl rfl rfl rfl
  | unsubscribe subscriberId =>
    simp only [disturb, unsubscribe]
    split <;> exact .of_same (fun _ => rfl) rfl rfl rfl rfl
  | cancel q =>
    rw [disturb, if_pos (uncancelled q rfl)]
    exact .refl
  | cancelSpawned n => exact .of_same (fun _ => rfl) rfl rfl rfl rfl
  | resume q => exact .of_same (fun _ => Asyncio.Queue.items_rewait _ _) rfl rfl rfl rfl
  | thread i =>
    simp only [disturb, thread]
    split
    · split_ifs
      · exact fed_perform
      · exact .refl
    · exact .refl

theorem live_note (o : Call) (r : Result) :
    (σ.note p o r).live = σ.live ∨ (σ.note p o r).live = σ.live.filter (· ≠ p) := by
  unfold note
  split
  · exact .inl rfl
  · exact .inl rfl
  · exact .inl (by rw [endRelay]; split_ifs <;> rfl)
  · exact .inl (by rw [endRelay]; split_ifs <;> rfl)
  · exact .inr rfl
  · exact .inr rfl
  · exact .inr rfl

/-- The one command that a worker ends with is the `take` that finds nothing when the workers are to stop. -/
theorem ends_exec {c : Cmd} {q : ℕ} (hq : q ∈ σ.live) (hq' : q ∉ (σ.exec core p c i).2.live) :
    σ.stopping = true ∧ σ.queued = [] := by
  by_cases ordinary : c.Ordinary
  · rw [(fed_exec ordinary).live] at hq'
    exact absurd hq hq'
  · cases c with
    | take =>
      change q ∉ (σ.take p).2.live at hq'
      revert hq'
      refine take_cases (C := fun r => q ∉ r.2.live → σ.stopping = true ∧ σ.queued = [])
        (fun priority item q' σ' _ hσ' hq' => absurd ?_ hq') (fun _ _ hq' => absurd hq hq')
        fun none stopping _ => ⟨stopping, popNext_eq_none none⟩
      change q ∈ σ'.live
      rw [hσ', noteTaken]
      split <;> exact hq
    | boot => exact absurd (List.mem_cons_of_mem _ hq) hq'
    | acquire | bootRelay | stopRelay => exact absurd hq hq'
    | acquired =>
      refine absurd ?_ hq'
      change q ∈ (σ.acquired p).2.live
      rw [acquired]
      split_ifs <;> exact hq
    | runnerDone =>
      exact absurd (runnerDone_cases (C := fun r => q ∈ r.2.live) hq hq hq) hq'
    | _ => exact absurd trivial ordinary

end State

/-! ## What leaves a worker -/

namespace BusCore

variable (core : BusCore)

/-- `except Exception` catches what a call ends with, if anything. -/
def contained {α : Type} : Outcome α → Bool
  | .ok _ => true
  | .error exc => exc.isException

/-- A dispatch does not let through what an attempt of a handler ends with: an exception of the last attempt
is reported outside a meta dispatch, which takes its text, and before another attempt there is a delay. -/
def containedRun (inMeta : Bool) (attempt : ℕ) (run : HandlerRun) : Bool :=
  match run.outcome with
  | .ok () => true
  | .error exc =>
    exc.isException && if attempt < core.retryAttempts then attempt ≤ 1024 else inMeta || exc.text.isSome

/-- A dispatch does not let through what the foreign code that a command runs ends with. -/
def Contained (inMeta : Bool) : (c : Cmd) → c.Reply → Bool
  | .filter _ _, r => contained r
  | .handler _ _ attempt, run => core.containedRun inMeta attempt run
  | .callback, r => contained r
  | _, _ => true

/-- Nothing is let through, and no wait is cut short. -/
def Calm (inMeta : Bool) (c : Cmd) (r : c.Reply) : Prop :=
  core.Contained inMeta c r = true ∧
    match c, r with
    | .acquired, r | .slot _ _, r | .sleep, r => r = .ok ()
    | .appended _ _ _ _, r => r ≠ .cancelled
    | _, _ => True

/-- The replies are calm, if `calm`. -/
def Answers (calm : Prop) (inMeta : Bool) (c : Cmd) (r : c.Reply) : Prop := calm → core.Calm inMeta c r

variable {core} {calm : Prop} {e : Envelope} {sub : Subscription} {inMeta guard : Bool} {error : Exc}
  {last : Option Cmd}

/-- A program of the dispatch, with what it gives back when the replies are calm. -/
def Quiet (core : BusCore) (calm : Prop) (guard : Bool) {α : Type} (Q : α → Prop) (last : Option Cmd)
    (x : Coro α) : Prop :=
  x.Follows (core.Answers calm guard) (fun _ (c : Cmd) => c.Ordinary) (fun a => calm → Q a) last

theorem quiet_publish : core.Quiet calm guard (fun r => r ≠ .error .cancelled ∧ r ≠ .error .exit) last
    (BusCore.publish e inMeta) := by
  have finish : ∀ last call r, core.Quiet calm guard (fun r => r ≠ .error .cancelled ∧ r ≠ .error .exit) last
      (finishPublish call e r) := by
    intro last call r
    cases r with
    | done => exact fun _ => ⟨by simp, by simp⟩
    | rejected => exact fun _ => ⟨by simp [backpressureError], by simp [backpressureError]⟩
    | blocked =>
      refine ⟨trivial, fun r hr hcalm => ?_⟩
      have ok : r = .ok () := (hr hcalm).2
      rw [ok]
      exact ⟨by simp, by simp⟩
  refine ⟨trivial, fun r _ => ?_⟩
  cases r with
  | closed => exact fun _ => ⟨by simp [busClosedError], by simp [busClosedError]⟩
  | enqueued call r => exact finish _ call r
  | appending ticket call =>
    refine ⟨trivial, fun r hr => ?_⟩
    cases r with
    | cancelled => exact fun hcalm => absurd rfl (hr hcalm).2
    | outboxFull => exact fun _ => ⟨by simp [outboxFullError], by simp [outboxFullError]⟩
    | enqueued r => exact finish _ call r

theorem quiet_callback (cb : DlqCallback) : core.Quiet calm guard (fun r => contained r = true) last
    (core.callback cb e sub error inMeta) := by
  cases cb with
  | custom => exact ⟨trivial, fun r hr hcalm => (hr hcalm).1⟩
  | dlqHandler dsn =>
    change core.Quiet calm guard _ last (core.onDlqHandler dsn e sub error inMeta)
    rw [onDlqHandler]
    cases error.text with
    | none => exact fun _ => rfl
    | some message =>
      refine .cmd_bind trivial fun eventId _ => .cmd_bind trivial fun now _ => ?_
      refine .bind quiet_publish fun last r hr => ?_
      cases r with
      | error exc =>
        cases exc with
        | cancelled => exact fun hcalm => absurd rfl (hr hcalm).1
        | exit => exact fun hcalm => absurd rfl (hr hcalm).2
        | exception type text =>
          cases dsn with
          | false => exact fun _ => rfl
          | true => exact ⟨trivial, fun _ _ _ => rfl⟩
      | ok =>
        cases dsn with
        | false => exact fun _ => rfl
        | true => exact ⟨trivial, fun _ _ _ => rfl⟩

theorem quiet_invokeDlq : core.Quiet calm guard (· = .ok ()) last (core.invokeDlq e sub error inMeta) := by
  rw [invokeDlq]
  cases core.onDlq with
  | none => exact fun _ => rfl
  | some cb =>
    dsimp only
    split_ifs
    · exact fun _ => rfl
    · refine .cmd_bind trivial fun _ _ => .bind (quiet_callback cb) fun last r hr hcalm => ?_
      have caught := hr hcalm
      cases r with
      | ok => rfl
      | error exc => rw [isolate, if_pos (show exc.isException = true from caught)]

theorem quiet_exhausted (printable : calm → (inMeta || error.text.isSome) = true) :
    core.Quiet calm guard (· = .ok ()) last (core.exhausted sub e inMeta error) := by
  have emitted : core.Quiet calm guard (· = .ok ()) last (core.emitSubscriberError e sub error inMeta) := by
    rw [emitSubscriberError]
    split_ifs with isMeta
    · exact fun _ => rfl
    · cases text : error.text with
      | none => exact fun hcalm => by simp [isMeta, text] at printable; exact absurd hcalm printable
      | some message => exact ⟨trivial, fun _ _ _ => rfl⟩
  refine .bind emitted fun last r hr => ?_
  cases r with
  | error exc => exact fun hcalm => by cases hr hcalm
  | ok => exact quiet_invokeDlq

theorem quiet_attempts (attempt left : ℕ) (sum : attempt + left = core.retryAttempts) :
    core.Quiet calm inMeta (· = .ok ()) last (core.attempts sub e inMeta attempt left) := by
  induction left generalizing attempt last with
  | zero =>
    rw [attempts]
    refine .cmd_bind trivial fun run hr => ?_
    have reply : calm → core.containedRun inMeta attempt run = true := fun hcalm => (hr hcalm).1
    have last : ¬ attempt < core.retryAttempts := by omega
    cases hrun : HandlerRun.outcome run with
    | ok => exact fun _ => rfl
    | error exc =>
      simp only [containedRun, hrun, if_neg last, Bool.and_eq_true] at reply
      dsimp only
      split_ifs with caught
      · exact quiet_exhausted fun hcalm => (reply hcalm).2
      · exact fun hcalm => absurd (reply hcalm).1 caught
  | succ left ih =>
    rw [attempts]
    refine .cmd_bind trivial fun run hr => ?_
    have reply : calm → core.containedRun inMeta attempt run = true := fun hcalm => (hr hcalm).1
    have more : attempt < core.retryAttempts := by omega
    cases hrun : HandlerRun.outcome run with
    | ok => exact fun _ => rfl
    | error exc =>
      simp only [containedRun, hrun, if_pos more, Bool.and_eq_true, decide_eq_true_eq] at reply
      dsimp only
      split_ifs with caught
      · have delay : core.Quiet calm inMeta (· = .ok ()) (some (.handler sub e attempt)) (retryDelay attempt) := by
          rw [retryDelay]
          split_ifs with long
          · exact fun hcalm => by have short := (reply hcalm).2; omega
          · exact ⟨trivial, fun r hr hcalm => (hr hcalm).2⟩
        refine .bind delay fun last r hr => ?_
        cases r with
        | error exc => exact fun hcalm => by cases hr hcalm
        | ok => exact ih (attempt + 1) (by omega)
      · exact fun hcalm => absurd (reply hcalm).1 caught

theorem quiet_serve : core.Quiet calm inMeta (· = .ok ()) last (core.serve sub e inMeta) := by
  have passes : core.Quiet calm inMeta (fun r => ∃ b, r = .ok b) last (passes sub e) := by
    rw [BusCore.passes]
    split_ifs
    · refine .cmd_bind trivial fun r hr => ?_
      cases r with
      | ok b => exact fun _ => ⟨b, rfl⟩
      | error exc =>
        dsimp only
        split_ifs with caught
        · exact fun _ => ⟨false, rfl⟩
        · exact fun hcalm => absurd (hr hcalm).1 caught
    · exact fun _ => ⟨true, rfl⟩
  rw [serve]
  split_ifs
  · refine .bind passes fun last r hr => ?_
    cases r with
    | error exc => exact fun hcalm => by obtain ⟨b, hb⟩ := hr hcalm; cases hb
    | ok passed =>
      cases passed with
      | false => exact fun _ => rfl
      | true =>
        have pos := core.retryAttempts_pos
        exact quiet_attempts 1 (core.retryAttempts - 1) (by omega)
  · exact fun _ => rfl

theorem quiet_dispatch (ambient : Bool) :
    core.Quiet calm (e.isMeta || ambient) (· = .ok ()) last (core.dispatch e ambient) := by
  have all : ∀ last (subs : List Subscription), core.Quiet calm (e.isMeta || ambient) (· = .ok ()) last
      (core.serveAll e (e.isMeta || ambient) subs) := by
    intro last subs
    induction subs generalizing last with
    | nil => exact fun _ => rfl
    | cons sub subs ih =>
      refine .bind quiet_serve fun last r hr => ?_
      cases r with
      | error exc => exact fun hcalm => by cases hr hcalm
      | ok => exact ih last
  exact ⟨trivial, fun subs _ => all _ subs⟩

end BusCore

/-- In a task that is not cancelled, what a dispatch does not let through does not cut its waits short. -/
theorem State.calm_exec {core : BusCore} {σ : State} {p : ℕ} {c : Cmd} {i : Input} {inMeta : Bool}
    (uncancelled : σ.cancelling p = false)
    (contained : core.Contained inMeta c (σ.exec core p c i).1 = true) :
    core.Calm inMeta c (σ.exec core p c i).1 := by
  refine ⟨contained, ?_⟩
  cases c with
  | acquired =>
    change (σ.acquired p).1 = .ok ()
    rw [acquired, if_neg (by simp [uncancelled])]
  | slot call e =>
    change (σ.slot p call e).1 = .ok ()
    rw [slot, if_neg (by simp [uncancelled])]
  | sleep =>
    change (σ.awaited p (.ok ())).1 = .ok ()
    rw [awaited, if_neg (by simp [uncancelled])]
  | appended ticket call e inMeta =>
    refine appended_cases (C := fun r => r.1 ≠ .cancelled) (fun cancelled => ?_) (fun _ _ _ => by simp)
      (fun _ _ _ _ => by simp) fun _ _ _ _ _ _ => by simp
    rw [uncancelled] at cancelled
    cases cancelled
  | _ => trivial

end NavigatorEventbus.Bus
