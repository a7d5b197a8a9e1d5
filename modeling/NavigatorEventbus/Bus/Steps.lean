import NavigatorEventbus.Bus.Dispatch

/-!
# What a command of a bus does

What an envelope meets at its queue and what a publish has done before each of its `await`s is said once for
each piece of code, as a rule: a property of the reply and of the state left holds when it holds in every
case.  A command only adds events of its own task to the history (`extends_exec`).
-/

namespace NavigatorEventbus.Bus

open Interleave

namespace State

variable {core : BusCore} {σ : State} {p call ticket : ℕ} {e : Envelope} {inMeta : Bool} {i : Input}

/-! ## At the queue -/

@[elab_as_elim]
theorem publishMeta_cases {C : Bool × State → Prop} {topic : String} {payload : Json}
    (put : ∀ e, ¬ (σ.queues .high).Full →
      C (true, (σ.setQueue .high ((σ.queues .high).push ⟨none, e⟩)).release))
    (full : (σ.queues .high).Full → C (false, σ)) : C (σ.publishMeta topic payload i) := by
  simp only [publishMeta, Asyncio.Queue.putNowait]
  split
  · rename_i q hq
    split_ifs at hq with hfull
    cases hq
    exact put _ hfull
  · rename_i hq
    split_ifs at hq with hfull
    exact full hfull

@[elab_as_elim]
theorem emitBackpressureMeta_cases {C : State → Prop} {policy : Policy} (silent : C σ)
    (put : ∀ e, ¬ (σ.queues .high).Full →
      C ((σ.setQueue .high ((σ.queues .high).push ⟨none, e⟩)).release)) :
    C (σ.emitBackpressureMeta core e policy inMeta i) := by
  rw [emitBackpressureMeta]
  split_ifs
  · exact silent
  · exact publishMeta_cases (C := fun r => C r.2) put fun _ => silent

/-- A full queue stays full when the bus publishes an event of its own. -/
theorem full_emitBackpressureMeta {policy : Policy} {priority : EventPriority}
    (full : (σ.queues priority).Full) :
    ((σ.emitBackpressureMeta core e policy inMeta i).queues priority).Full := by
  refine emitBackpressureMeta_cases full fun e' space => ?_
  by_cases hp : priority = .high
  · exact absurd (hp ▸ full) space
  · rwa [release, setQueue_of_ne σ hp]

@[elab_as_elim]
theorem enqueueLocal_cases {C : Enqueued × State → Prop}
    (space : ¬ (σ.queues e.priority).Full → C (.done, σ.enter p call e (σ.queues e.priority)))
    (reject : (σ.queues e.priority).Full → core.policyFor e.topic = .reject →
      C (.rejected, σ.emitBackpressureMeta core e .reject inMeta i))
    (dropOldest : ∀ σ' dropped q, (σ.queues e.priority).Full → core.policyFor e.topic = .dropOldest →
      σ' = σ.emitBackpressureMeta core e .dropOldest inMeta i →
      (σ'.queues e.priority).getNowait = some (dropped, q) →
      C (.done, (σ'.replace p dropped).enter p call e q))
    (block : ∀ σ', (σ.queues e.priority).Full → core.policyFor e.topic = .block →
      σ' = σ.emitBackpressureMeta core e .block inMeta i →
      C (.blocked, σ'.setQueue e.priority ((σ'.queues e.priority).wait p))) :
    C (σ.enqueueLocal core p call e inMeta i) := by
  rw [enqueueLocal]
  split_ifs with full
  · cases policy : core.policyFor e.topic with
    | reject => exact reject full policy
    | block => exact block _ full policy rfl
    | dropOldest =>
      dsimp only
      split
      · rename_i dropped q eq
        exact dropOldest _ dropped q full policy rfl eq
      · rename_i eq
        exact absurd eq (Asyncio.Queue.getNowait_ne_none (full_emitBackpressureMeta full))
  · exact space full

/-! ## Before an `await` -/

/-- A publish before its first `await`. -/
@[elab_as_elim]
theorem publish_cases {C : Publishing × State → Prop}
    (closed : σ.closing = true → C (.closed, σ))
    (appending : σ.closing = false → core.outbox = true → σ.executorDown = false →
      C (.appending σ.tickets σ.calls,
        { σ with
          calls := σ.calls + 1
          tickets := σ.tickets + 1
          jobs := σ.jobs ++ [{ number := σ.tickets, job := .append e }]
          log := (p, .appending σ.tickets e.eventId) :: σ.log }))
    (enqueued : ∀ stats σ', σ.closing = false → (core.outbox = true → σ.executorDown = true) →
      σ' = { σ with calls := σ.calls + 1, stats } →
      C (.enqueued σ.calls
          ((if core.backend then σ'.fanOut p e else σ').enqueueLocal core p σ.calls e inMeta i).1,
        ((if core.backend then σ'.fanOut p e else σ').enqueueLocal core p σ.calls e inMeta i).2)) :
    C (σ.publish core p e inMeta i) := by
  rw [publish]
  split_ifs with closing outbox backend
  · exact closed closing
  · by_cases down : σ.executorDown = true
    · have backend := core.outbox_backend outbox
      simpa [submit, down, publishDegraded, backend] using
        enqueued _ _ (by simpa using closing) (fun _ => down) rfl
    · simpa [submit, down, record] using appending (by simpa using closing) outbox (by simpa using down)
  · simpa [backend] using enqueued σ.stats _ (by simpa using closing) (fun h => absurd h outbox) rfl
  · simpa [backend] using enqueued σ.stats _ (by simpa using closing) (fun h => absurd h outbox) rfl

/-- A publish after its append. -/
@[elab_as_elim]
theorem appended_cases {C : Appended × State → Prop}
    (cancelled : σ.cancelling p = true → C (.cancelled, (σ.resumed p).abandonJob i.running ticket))
    (full : ∀ stats, σ.cancelling p = false → (σ.perform core p i ticket).1 = .full →
      C (.outboxFull, { (σ.perform core p i ticket).2 with stats }))
    (stored : ∀ σ', σ.cancelling p = false → (σ.perform core p i ticket).1 = .done →
      σ' = { (σ.perform core p i ticket).2 with
        outboxInflight := (σ.perform core p i ticket).2.outboxInflight.insert e.eventId } →
      C (.enqueued ((σ'.fanOut p e).enqueueLocal core p call e inMeta i).1,
        ((σ'.fanOut p e).enqueueLocal core p call e inMeta i).2))
    (failed : ∀ stats σ', σ.cancelling p = false → (σ.perform core p i ticket).1 ≠ .full →
      (σ.perform core p i ticket).1 ≠ .done → σ' = { (σ.perform core p i ticket).2 with stats } →
      C (.enqueued ((σ'.fanOut p e).enqueueLocal core p call e inMeta i).1,
        ((σ'.fanOut p e).enqueueLocal core p call e inMeta i).2)) :
    C (σ.appended core p ticket call e inMeta i) := by
  rw [appended]
  split_ifs with hcancelled
  · exact cancelled hcancelled
  · have hcancelled : σ.cancelling p = false := by simpa using hcancelled
    rcases eq : σ.perform core p i ticket with ⟨r, τ⟩
    simp only [eq] at full stored failed
    cases r with
    | full => exact full _ hcancelled rfl
    | done => exact stored _ hcancelled rfl rfl
    | failed => exact failed _ _ hcancelled (by simp) (by simp) rfl
    | rows es => exact failed _ _ hcancelled (by simp) (by simp) rfl
    | pending n => exact failed _ _ hcancelled (by simp) (by simp) rfl

/-! ## Fan-outs and the relay -/

/-- A fan-out when `backend.publish` has ended. -/
@[elab_as_elim]
theorem backendPublished_cases {C : Confirmed × State → Prop} {timed : Bool}
    (cancelled : (σ.cancelling p || (timed && i.deadline)) = true →
      C (.raised .cancelled, (σ.resumed p).endPublish p e.eventId))
    (confirmed : i.backend = .ok () → C (.done true, (σ.record p (.published e.eventId)).endPublish p e.eventId))
    (acking : i.backend = .ok () → σ.Tracked core e.eventId → σ.executorDown = false →
      C (.settling σ.tickets true, { σ.record p (.published e.eventId) with
        tickets := σ.tickets + 1
        jobs := σ.jobs ++ [{ number := σ.tickets, job := .ack e.eventId }] }))
    (failed : ∀ stats outboxAttempts,
      C (.done false, { σ with stats, outboxAttempts }.endPublish p e.eventId))
    (nacking : ∀ stats outboxAttempts error nextTryAt, σ.Tracked core e.eventId →
      σ.executorDown = false →
      C (.settling σ.tickets false, { σ with
        stats, outboxAttempts
        tickets := σ.tickets + 1
        jobs := σ.jobs ++ [{ number := σ.tickets, job := .nack e.eventId error nextTryAt }] }))
    (raised : ∀ exc, C (.raised exc, σ.endPublish p e.eventId)) :
    C (σ.backendPublished core p e timed i) := by
  rw [backendPublished]
  split_ifs with gone
  · exact cancelled gone
  · split
    · rename_i ok
      dsimp only
      split_ifs with tracked
      · rw [settle, submit]
        by_cases down : σ.executorDown = true
        · simpa [record, down] using confirmed ok
        · simpa [record, down] using acking ok tracked (by simpa using down)
      · exact confirmed ok
    · rename_i exc _
      split_ifs
      · dsimp only
        split_ifs with tracked
        · split
          · rw [settle, submit]
            by_cases down : σ.executorDown = true
            · simpa [down] using failed _ _
            · simpa [down] using nacking _ _ _ _ tracked (by simpa using down)
          · exact failed _ _
        · exact failed _ _
      · exact raised exc

/-- The end of a fan-out that the outbox was told about. -/
@[elab_as_elim]
theorem settled_cases {C : Outcome Unit × State → Prop} {confirmed timed : Bool}
    (cancelled : C (.error .cancelled, ((σ.resumed p).abandonJob i.running ticket).endPublish p e.eventId))
    (done : ∀ stats outboxAttempts, (σ.cancelling p || (timed && i.deadline)) = false →
      C (.ok (), { (σ.perform core p i ticket).2 with stats, outboxAttempts }.endPublish p e.eventId)) :
    C (σ.settled core p ticket e confirmed timed i) := by
  rw [settled]
  split
  · exact cancelled
  · rename_i goesOn
    rcases eq : σ.perform core p i ticket with ⟨r, τ⟩
    simp only [eq] at done
    cases r with
    | done =>
      dsimp only
      split_ifs
      · exact done _ _ (by simpa using goesOn)
      · exact done _ _ (by simpa using goesOn)
    | _ => exact done _ _ (by simpa using goesOn)

/-- The relay after `outbox.due`. -/
@[elab_as_elim]
theorem relayRows_cases {C : Due × State → Prop} {timed : Bool}
    (cancelled : C (.cancelled, (σ.resumed p).abandonJob i.running ticket))
    (failed : (σ.cancelling p || (timed && i.deadline)) = false → C (.failed, (σ.perform core p i ticket).2))
    (rows : ∀ es, (σ.cancelling p || (timed && i.deadline)) = false →
      (σ.perform core p i ticket).1 = .rows es → C (.rows es, (σ.perform core p i ticket).2)) :
    C (σ.relayRows core p ticket timed i) := by
  rw [relayRows]
  split
  · exact cancelled
  · rename_i goesOn
    rcases eq : σ.perform core p i ticket with ⟨r, τ⟩
    simp only [eq] at failed rows
    cases r with
    | rows es => exact rows es (by simpa using goesOn) rfl
    | _ => exact failed (by simpa using goesOn)

/-- The relay after `outbox.stats`. -/
@[elab_as_elim]
theorem relayRefreshed_cases {C : Outcome Unit × State → Prop} {timed : Bool}
    (cancelled : C (.error .cancelled, (σ.resumed p).abandonJob i.running ticket))
    (done : ∀ stats outboxAttempts, (σ.cancelling p || (timed && i.deadline)) = false →
      C (.ok (), { (σ.perform core p i ticket).2 with stats, outboxAttempts })) :
    C (σ.relayRefreshed core p ticket timed i) := by
  rw [relayRefreshed]
  split
  · exact cancelled
  · rename_i goesOn
    rcases eq : σ.perform core p i ticket with ⟨r, τ⟩
    simp only [eq] at done
    cases r with
    | pending n => exact done _ _ (by simpa using goesOn)
    | _ => exact done _ _ (by simpa using goesOn)

/-! ## Workers and close -/

theorem popNext_eq_some {item : Item} {τ : State} (h : σ.popNext = some (item, τ)) :
    ∃ priority q, (σ.queues priority).getNowait = some (item, q) ∧ τ = σ.setQueue priority q := by
  obtain ⟨priority, -, h⟩ := List.exists_of_findSome?_eq_some h
  obtain ⟨⟨item', q⟩, found, h⟩ := Option.map_eq_some_iff.1 h
  cases h
  exact ⟨priority, q, found, rfl⟩

/-- What a worker does with its permit. -/
@[elab_as_elim]
theorem take_cases {C : Taken × State → Prop}
    (found : ∀ priority item q σ', (σ.queues priority).getNowait = some (item, q) →
      σ' = (σ.setQueue priority q).noteTaken p item →
      C (.envelope item.envelope σ'.ambient, { σ' with inFlight := σ'.inFlight + 1 }))
    (idle : σ.popNext = none → σ.stopping = false → C (.nothing false, σ))
    (stopped : σ.popNext = none → σ.stopping = true →
      C (.nothing true, { σ with live := σ.live.filter (· ≠ p) })) : C (σ.take p) := by
  rw [take]
  split
  · rename_i item τ h
    obtain ⟨priority, q, hq, rfl⟩ := popNext_eq_some h
    exact found priority item q _ hq rfl
  · rename_i none
    by_cases stopping : σ.stopping = true
    · simpa [stopping] using stopped none stopping
    · simpa [stopping] using idle none (by simpa using stopping)

/-- `close` after the drain or its deadline. -/
@[elab_as_elim]
theorem drained_cases {C : Outcome Unit × State → Prop} {drainTimeout : Json}
    (cancelled : σ.cancelling p = true → C (.error .cancelled, σ.resumed p))
    (late : ∀ droppedOnClose payload σ', σ.cancelling p = false → i.deadline = true →
      σ' = { σ with droppedOnClose, log := (p, .counted (σ.queued.filterMap Item.call)) :: σ.log } →
      C (.ok (), ((σ'.publishMeta topicShutdownIncomplete payload i).2).stop core))
    (drained : σ.cancelling p = false → i.deadline = false → C (.ok (), σ.stop core)) :
    C (σ.drained core p drainTimeout i) := by
  rw [State.drained]
  split_ifs with cancel deadline
  · exact cancelled cancel
  · exact late _ _ _ (by simpa using cancel) deadline rfl
  · exact drained (by simpa using cancel) (by simpa using deadline)

end State

/-! ## The history -/

/-- The command may record the event. -/
def Cmd.Records : Cmd → Event → Prop
  | .publish e _, event =>
    (∃ ticket, event = .appending ticket e.eventId) ∨ event = .fannedOut e.eventId ∨
      ∃ call, event = .put call ∨ event = .replaced call
  | .appended _ _ e _, event =>
    (∃ ticket eventId, event = .stored ticket eventId) ∨ (∃ eventId, event = .purged eventId) ∨
      event = .fannedOut e.eventId ∨ ∃ call, event = .put call ∨ event = .replaced call
  | .slot call _, event => event = .put call
  | .backendPublished e _, event => event = .published e.eventId
  | .settled _ _ _ _, event | .relayRows _ _, event | .relayRefreshed _ _, event | .outboxClosed _, event =>
    (∃ ticket eventId, event = .stored ticket eventId) ∨ ∃ eventId, event = .purged eventId
  | .relayPick e, event => event = .fannedOut e.eventId
  | .take, event => ∃ call, event = .taken call
  | .arrive e, event => ∃ dispatched, event = .arrived e.eventId dispatched
  | .beginClose, event | .closed, event => event = .closed
  | .drained _, event => ∃ calls, event = .counted calls
  | _, _ => False

namespace State

variable {core : BusCore} {σ σ' : State} {p call ticket : ℕ} {e : Envelope} {inMeta : Bool} {i : Input}
  {D : Event → Prop}

@[simp] theorem log_setQueue (priority : EventPriority) (q : Asyncio.Queue Item) :
    (σ.setQueue priority q).log = σ.log := rfl

@[simp] theorem log_release : σ.release.log = σ.log := rfl

@[simp] theorem log_resumed : (σ.resumed p).log = σ.log := rfl

@[simp] theorem log_abandonJob (running : Bool) (n : ℕ) : (σ.abandonJob running n).log = σ.log := rfl

@[simp] theorem log_endPublish (eventId : String) : (σ.endPublish p eventId).log = σ.log := rfl

@[simp] theorem log_submit (job : Job) : (σ.submit job).2.log = σ.log := by
  rw [submit]
  split_ifs <;> rfl

@[simp] theorem log_settle (confirmed : Bool) (job : Job) : (σ.settle p e confirmed job).2.log = σ.log := by
  rw [settle, submit]
  split_ifs <;> rfl

@[simp] theorem log_emitBackpressureMeta (policy : Policy) :
    (σ.emitBackpressureMeta core e policy inMeta i).log = σ.log :=
  emitBackpressureMeta_cases rfl fun _ _ => rfl

theorem extends_replace (item : Item) :
    History.Extends p (fun event => ∃ call, event = .replaced call) σ.log (σ.replace p item).log := by
  rw [replace]
  split
  · exact .one ⟨_, rfl⟩
  · exact .refl

theorem extends_enqueueLocal :
    History.Extends p (fun event => ∃ call, event = .put call ∨ event = .replaced call) σ.log
      (σ.enqueueLocal core p call e inMeta i).2.log := by
  refine enqueueLocal_cases (fun _ => .one ⟨_, .inl rfl⟩) (fun _ _ => .of_eq (log_emitBackpressureMeta _))
    (fun σ' dropped q _ _ hσ' _ => ?_) (fun σ' _ _ hσ' => .of_eq ?_)
  · have same : σ'.log = σ.log := by rw [hσ', log_emitBackpressureMeta]
    rw [← same]
    exact ((extends_replace dropped).mono fun event ⟨call, h⟩ => ⟨call, .inr h⟩).trans (.one ⟨_, .inl rfl⟩)
  · rw [log_setQueue, hσ', log_emitBackpressureMeta]

/-- What the history records of a call of the outbox. -/
theorem extends_perform :
    History.Extends p (fun event => (∃ ticket eventId, event = .stored ticket eventId) ∨
      ∃ eventId, event = .purged eventId) σ.log (σ.perform core p i ticket).2.log := by
  have purged : ∀ (before after : SqliteOutbox) (h : History Event),
      History.Extends p (fun event => (∃ ticket eventId, event = .stored ticket eventId) ∨
        ∃ eventId, event = .purged eventId) h
        (((rowIds before).filter (· ∉ rowIds after)).map (fun id => (p, .purged id)) ++ h) := by
    intro before after h
    refine ⟨((rowIds before).filter (· ∉ rowIds after)).map .purged, by simp, fun event he => ?_⟩
    obtain ⟨eventId, -, rfl⟩ := List.mem_map.1 he
    exact .inr ⟨eventId, rfl⟩
  rw [perform]
  split
  · exact .refl
  · rename_i t _
    dsimp only
    cases t.job with
    | append e =>
      simp only [jobEvents, List.append_assoc]
      refine (purged σ.store (runJob core i σ.store (.append e)).2 σ.log).trans ?_
      split
      · exact .one (.inl ⟨_, _, rfl⟩)
      · exact .refl
    | due now limit => exact purged σ.store _ _
    | _ => exact .refl

theorem log_publishMeta (topic : String) (payload : Json) : (σ.publishMeta topic payload i).2.log = σ.log :=
  publishMeta_cases (C := fun r => r.2.log = σ.log) (fun _ _ => rfl) fun _ => rfl

theorem extends_take : History.Extends p (fun event => ∃ call, event = .taken call) σ.log (σ.take p).2.log := by
  refine take_cases (fun priority item q σ' _ hσ' => ?_) (fun _ _ => .refl) fun _ _ => .refl
  rw [hσ', noteTaken]
  split
  · exact .one ⟨_, rfl⟩
  · exact .refl

theorem extends_fanOut : History.Extends p (· = .fannedOut e.eventId) σ.log (σ.fanOut p e).log := .one rfl

theorem extends_appended : History.Extends p (Cmd.Records (.appended ticket call e inMeta)) σ.log
    (σ.appended core p ticket call e inMeta i).2.log := by
  have performed : History.Extends p (Cmd.Records (.appended ticket call e inMeta)) σ.log
      (σ.perform core p i ticket).2.log := extends_perform.mono fun event h => h.imp_right .inl
  have enqueued : ∀ {τ : State}, τ.log = (σ.perform core p i ticket).2.log →
      History.Extends p (Cmd.Records (.appended ticket call e inMeta)) σ.log
        ((τ.fanOut p e).enqueueLocal core p call e inMeta i).2.log := by
    intro τ same
    refine performed.trans (same ▸ History.Extends.trans ?_ (extends_enqueueLocal.mono ?_))
    · exact extends_fanOut.mono fun event h => .inr (.inr (.inl h))
    · exact fun event h => .inr (.inr (.inr h))
  refine appended_cases (fun _ => .refl) (fun stats _ _ => performed) (fun σ' _ _ hσ' => enqueued ?_)
    (fun stats σ' _ _ _ hσ' => enqueued ?_)
  · rw [hσ']
  · rw [hσ']

/-- A command only adds events of its task to the history, which it may record. -/
theorem extends_exec (c : Cmd) : History.Extends p c.Records σ.log (σ.exec core p c i).2.log := by
  cases c with
  | publish e inMeta =>
    simp only [exec]
    refine publish_cases (fun _ => .refl) (fun _ _ _ => .one (.inl ⟨_, rfl⟩)) (fun stats σ' _ _ hσ' => ?_)
    refine History.Extends.trans ?_ (extends_enqueueLocal.mono fun event h => Or.inr (.inr h))
    rw [hσ']
    split_ifs
    · exact .one (.inr (.inl rfl))
    · exact .refl
  | appended ticket call e inMeta => exact extends_appended
  | slot call e =>
    simp only [exec, slot]
    split_ifs
    · exact .refl
    · exact .one rfl
  | backendPublished e timed =>
    simp only [exec]
    exact backendPublished_cases (fun _ => .refl) (fun _ => .one rfl) (fun _ _ _ => .one rfl)
      (fun _ _ => .refl) (fun _ _ _ _ _ _ => .refl) fun _ => .refl
  | settled ticket e confirmed timed =>
    simp only [exec]
    exact settled_cases .refl fun _ _ _ => extends_perform
  | relayRows ticket timed =>
    simp only [exec]
    exact relayRows_cases .refl (fun _ => extends_perform) fun _ _ _ => extends_perform
  | relayRefreshed ticket timed =>
    simp only [exec]
    exact relayRefreshed_cases .refl fun _ _ _ => extends_perform
  | relayDue => exact .of_eq (log_submit _)
  | relayStats => exact .of_eq (log_submit _)
  | closeOutbox => exact .of_eq (log_submit _)
  | relayPick e =>
    simp only [exec, relayPick]
    split_ifs
    · exact .refl
    · exact .one rfl
  | publishMeta topic payload => exact .of_eq (log_publishMeta topic payload)
  | bootPublish =>
    simp only [exec, bootPublish]
    split <;> exact .refl
  | acquired =>
    simp only [exec, acquired]
    split_ifs <;> exact .refl
  | take => exact extends_take
  | arrive e =>
    simp only [exec, arrive]
    split_ifs <;> exact .one ⟨_, rfl⟩
  | start inMeta =>
    simp only [exec, start]
    split_ifs <;> exact .refl
  | beginClose =>
    simp only [exec, beginClose]
    split_ifs
    · exact .one rfl
    · exact .refl
  | drained drainTimeout =>
    simp only [exec]
    refine drained_cases (fun _ => .refl) (fun _ payload σ' _ _ hσ' => ?_) fun _ _ => .refl
    rw [stop, log_publishMeta, hσ']
    exact .one ⟨_, rfl⟩
  | runnerDone =>
    simp only [exec, runnerDone]
    split_ifs <;> exact .refl
  | outboxClosed ticket =>
    simp only [exec, outboxClosed]
    split_ifs
    · exact .refl
    · exact extends_perform
  | closed => exact .one rfl
  | _ => exact .refl

theorem log_endRelay : (σ.endRelay p).log = σ.log := by
  rw [endRelay]
  split_ifs <;> rfl

@[simp] theorem log_note (o : Call) (r : Result) : (σ.note p o r).log = σ.log := by
  unfold note
  split <;> first | rfl | rw [log_endRelay, log_resumed]

end State

/-! ## The side of the transport -/

/-- What the fan-outs, the relay and the outbox are about. -/
structure Outbound where
  fannedOut : List String
  store : SqliteOutbox
  jobs : List Ticket
  tickets : ℕ
  executorDown : Bool
  outboxInflight : List String
  spawnedPublishes : List Envelope
  publishing : List (ℕ × Envelope)

/-- The command concerns the queues, the workers and the dispatch only. -/
def Cmd.Local : Cmd → Prop
  | .publish _ _ | .appended _ _ _ _ | .bootPublish | .backendPublished _ _ | .settled _ _ _ _ | .relayDue
  | .relayRows _ _ | .relayPick _ | .relayStats | .relayRefreshed _ _ | .arrive _ | .closeOutbox
  | .outboxClosed _ => False
  | _ => True

namespace State

/-- The part of the state that the fan-outs, the relay and the outbox are about. -/
def outbound (σ : State) : Outbound where
  fannedOut := σ.fannedOut
  store := σ.store
  jobs := σ.jobs
  tickets := σ.tickets
  executorDown := σ.executorDown
  outboxInflight := σ.outboxInflight
  spawnedPublishes := σ.spawnedPublishes
  publishing := σ.publishing

variable {core : BusCore} {σ σ' : State} {p call ticket : ℕ} {e : Envelope} {inMeta : Bool} {i : Input}

theorem outbound_publishMeta (topic : String) (payload : Json) :
    (σ.publishMeta topic payload i).2.outbound = σ.outbound :=
  publishMeta_cases (C := fun r => r.2.outbound = σ.outbound) (fun _ _ => rfl) fun _ => rfl

theorem outbound_emitBackpressureMeta (policy : Policy) :
    (σ.emitBackpressureMeta core e policy inMeta i).outbound = σ.outbound :=
  emitBackpressureMeta_cases rfl fun _ _ => rfl

theorem outbound_enqueueLocal : (σ.enqueueLocal core p call e inMeta i).2.outbound = σ.outbound := by
  refine enqueueLocal_cases (fun _ => rfl) (fun _ _ => outbound_emitBackpressureMeta _)
    (fun σ' dropped q _ _ hσ' _ => ?_) (fun σ' _ _ hσ' => ?_)
  · rw [← outbound_emitBackpressureMeta (σ := σ), ← hσ', replace]
    split <;> rfl
  · rw [← outbound_emitBackpressureMeta (σ := σ), ← hσ']
    rfl

theorem outbound_exec {c : Cmd} (hc : c.Local) : (σ.exec core p c i).2.outbound = σ.outbound := by
  cases c with
  | publish | appended | bootPublish | backendPublished | settled | relayDue | relayRows | relayPick
  | relayStats | relayRefreshed | arrive | closeOutbox | outboxClosed => exact hc.elim
  | slot call e =>
    simp only [exec, slot]
    split_ifs <;> rfl
  | publishMeta topic payload => exact outbound_publishMeta topic payload
  | acquired =>
    simp only [exec, acquired]
    split_ifs <;> rfl
  | take =>
    simp only [exec]
    refine take_cases (fun priority item q σ' _ hσ' => ?_) (fun _ _ => rfl) fun _ _ => rfl
    rw [hσ', noteTaken]
    split <;> rfl
  | start inMeta =>
    simp only [exec, start]
    split_ifs <;> rfl
  | beginClose =>
    simp only [exec, beginClose]
    split_ifs <;> rfl
  | drained drainTimeout =>
    simp only [exec]
    refine drained_cases (fun _ => rfl) (fun _ payload σ' _ _ hσ' => ?_) fun _ _ => rfl
    have same := outbound_publishMeta (σ := σ') (i := i) topicShutdownIncomplete payload
    exact same.trans (by rw [hσ']; rfl)
  | runnerDone =>
    simp only [exec, runnerDone]
    split_ifs <;> rfl
  | _ => rfl

theorem outbound_note (o : Call) (r : Result) : (σ.note p o r).outbound = σ.outbound := by
  unfold note
  split <;> first | rfl | (rw [endRelay]; split_ifs <;> rfl)

/-- What happens to a bus without its outbox and its fan-outs. -/
theorem outbound_disturb {d : Disturbance} (spawned : ∀ n, d ≠ .cancelSpawned n) (thread : ∀ i, d ≠ .thread i) :
    (σ.disturb core d).outbound = σ.outbound ∧ (σ.disturb core d).log = σ.log := by
  cases d with
  | subscribe sub =>
    simp only [disturb, subscribe]
    split_ifs <;> exact ⟨rfl, rfl⟩
  | unsubscribe subscriberId =>
    simp only [disturb, unsubscribe]
    split <;> exact ⟨rfl, rfl⟩
  | cancel q =>
    simp only [disturb]
    split_ifs <;> exact ⟨rfl, rfl⟩
  | cancelSpawned n => exact absurd rfl (spawned n)
  | resume q => exact ⟨rfl, rfl⟩
  | thread i => exact absurd rfl (thread i)

/-- What happens besides the tasks adds events of the outbox only. -/
theorem extends_disturb (d : Disturbance) :
    History.Extends 0 (fun event => (∃ ticket eventId, event = .stored ticket eventId) ∨
      ∃ eventId, event = .purged eventId) σ.log (σ.disturb core d).log := by
  cases d with
  | thread i =>
    simp only [disturb, thread]
    split
    · split_ifs
      · exact extends_perform
      · exact .refl
    · exact .refl
  | cancelSpawned n => exact .refl
  | _ => exact .of_eq (outbound_disturb (by simp) (by simp)).2

end State

end NavigatorEventbus.Bus
