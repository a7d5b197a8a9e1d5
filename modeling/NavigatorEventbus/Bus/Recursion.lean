import NavigatorEventbus.Bus.Steps
import NavigatorEventbus.Lib.Accounting

/-!
# Meta-events

A dispatch reports the failures of its subscribers through the same bus: as an event on
`bus.subscriber_error` and as a call of the dead-letter callback.  What a dispatch reports is bounded by its
matching subscriptions, and the dispatch of an event on `bus.*` reports nothing (`Emits`).  So the
dispatches of a bus are paid for by what comes from outside, each envelope with a fixed price for each
subscription that it matched (`Affords`).
-/

namespace NavigatorEventbus.Bus

open Interleave

open State (Enqueued Publishing Appended Confirmed Due Taken Arrived Waited)

/-! ## Reports -/

/-- A report of a failure: an event on `bus.subscriber_error`, with the subscriber that it names, or a call
of the dead-letter callback. -/
inductive Report where
  | subscriberError (subscriberId : Option Json)
  | deadLetter (subscriberId : String)

/-- What a command reports. -/
def Cmd.reports : Cmd → List Report
  | .publishMeta topic payload =>
    if topic = topicSubscriberError then [.subscriberError (payload.member "subscriber_id")] else []
  | .deadLetter _ sub _ _ => [.deadLetter sub.subscriberId]
  | _ => []

/-- One report of each kind about a subscription. -/
def Subscription.reports (sub : Subscription) : List Report :=
  [.subscriberError (some (.str sub.subscriberId)), .deadLetter sub.subscriberId]

/-- The commands that neither report nor put an event into a queue, nor begin a dispatch. -/
def Cmd.Still : Cmd → Prop
  | .publish _ _ | .appended _ _ _ _ | .slot _ _ | .publishMeta _ _ | .drained _ | .matching _
  | .deadLetter _ _ _ _ => False
  | _ => True

/-- A command that reports nothing. -/
def Cmd.Silent (c : Cmd) : Prop := c.reports = []

theorem Cmd.Still.silent {c : Cmd} (h : c.Still) : c.Silent := by
  cases c <;> first | rfl | cases h

/-- The commands that are still, and neither of the loop of a worker nor the first of the relay. -/
def Cmd.Plain : Cmd → Prop
  | .publish _ _ | .appended _ _ _ _ | .slot _ _ | .publishMeta _ _ | .drained _ | .matching _
  | .deadLetter _ _ _ _ | .boot | .acquire | .acquired | .take | .bootRelay => False
  | _ => True

theorem Cmd.Plain.still {c : Cmd} (h : c.Plain) : c.Still := by
  cases c <;> trivial

namespace BusCore

variable {core : BusCore} {e : Envelope} {sub : Subscription} {inMeta timed : Bool} {error : Exc}

/-! ### Programs without events -/

theorem plain_backendPublish : (backendPublish e timed).All Cmd.Plain := by
  refine .cmd_bind trivial fun r => ?_
  cases r with
  | settling ticket confirmed =>
    refine .cmd_bind trivial fun r => ?_
    cases r <;> trivial
  | _ => trivial

theorem plain_relayEach (es : List Envelope) : (relayEach timed es).All Cmd.Plain := by
  induction es with
  | nil => trivial
  | cons e es ih =>
    refine .cmd_bind trivial fun picked => ?_
    cases picked with
    | false => exact ih
    | true =>
      refine .bind plain_backendPublish fun r => ?_
      match r with
      | .error exc => trivial
      | .ok true => exact ih
      | .ok false => trivial

theorem plain_relayPass : (relayPass timed).All Cmd.Plain := by
  refine .cmd_bind trivial fun ticket => ?_
  cases ticket with
  | none => trivial
  | some ticket =>
    refine .cmd_bind trivial fun r => ?_
    cases r with
    | rows es => exact .bind (plain_relayEach es) fun _ => trivial
    | _ => trivial

theorem plain_relayRefresh : (relayRefresh timed).All Cmd.Plain := by
  refine .cmd_bind trivial fun ticket => ?_
  cases ticket with
  | none => trivial
  | some ticket => exact .one trivial

theorem plain_relayOnce : (relayOnce timed).All Cmd.Plain := by
  refine .bind plain_relayPass fun r => .bind plain_relayRefresh fun s => ?_
  cases s <;> trivial

theorem plain_fanOutTask : fanOutTask.All Cmd.Plain := by
  refine .cmd_bind trivial fun e => ?_
  cases e with
  | none => trivial
  | some e =>
    refine .bind plain_backendPublish fun r => ?_
    cases r <;> trivial

theorem still_relayFirst : relayFirst.All Cmd.Still :=
  .cmd_bind trivial fun _ => .bind (plain_relayOnce.mono fun _ => Cmd.Plain.still) fun _ => trivial

theorem plain_relayTurn : relayTurn.All Cmd.Plain := by
  refine .cmd_bind trivial fun goesOn => ?_
  cases goesOn with
  | false => trivial
  | true =>
    refine .cmd_bind trivial fun r => ?_
    cases r with
    | error exc => trivial
    | ok => exact .bind plain_relayOnce fun _ => trivial

theorem plain_start : (core.start inMeta).All Cmd.Plain := by
  refine .cmd_bind trivial fun started => ?_
  dsimp only
  split_ifs
  · refine .cmd_bind trivial fun r => ?_
    cases r with
    | error exc => trivial
    | ok => exact .cmd_bind trivial fun _ => trivial
  · refine .cmd_bind trivial fun r => ?_
    cases r <;> trivial
  · rw [Prog.pure_bind']
    exact .cmd_bind trivial fun _ => trivial
  · trivial
  · trivial

theorem plain_lastPass : lastPass.All Cmd.Plain := by
  refine .bind plain_relayOnce fun r => ?_
  match r with
  | .error .cancelled =>
    refine .cmd_bind trivial fun timedOut => ?_
    cases timedOut <;> trivial
  | .error .exit => trivial
  | .error (.exception _ _) => trivial
  | .ok () => trivial

theorem plain_stopRelay : core.stopRelay.All Cmd.Plain := by
  rw [stopRelay]
  split_ifs
  · refine .cmd_bind trivial fun _ => .cmd_bind trivial fun _ => .cmd_bind trivial fun r => ?_
    cases r with
    | error exc => trivial
    | ok =>
      refine .bind plain_lastPass fun r => ?_
      cases r with
      | error exc => trivial
      | ok =>
        refine .cmd_bind trivial fun ticket => ?_
        cases ticket with
        | none => trivial
        | some ticket => exact .one trivial
  · trivial

theorem plain_closeRest (r : Outcome Unit) : (core.closeRest r).All Cmd.Plain := by
  refine .bind plain_stopRelay fun s => ?_
  cases s with
  | error exc => trivial
  | ok =>
    dsimp only
    split_ifs
    · refine .cmd_bind trivial fun s => ?_
      cases isolate s with
      | error exc => trivial
      | ok => exact .cmd_bind trivial fun _ => trivial
    · exact .cmd_bind trivial fun _ => trivial

theorem plain_awaitRunner : awaitRunner.All Cmd.Plain := by
  refine .cmd_bind trivial fun waited => ?_
  cases waited with
  | ended => trivial
  | timeout => exact .cmd_bind trivial fun _ => trivial
  | cancelled => exact .cmd_bind trivial fun _ => trivial

theorem plain_passes : (passes sub e).All Cmd.Plain := by
  rw [passes]
  split_ifs
  · refine .cmd_bind trivial fun r => ?_
    cases r <;> trivial
  · trivial

theorem plain_retryDelay (attempt : ℕ) : (retryDelay attempt).All Cmd.Plain := by
  rw [retryDelay]
  split_ifs
  · trivial
  · exact .one trivial

/-! ### Programs that report -/

theorem silent_publish : (BusCore.publish e inMeta).All Cmd.Silent := by
  have finish : ∀ call (r : Enqueued), (finishPublish call e r).All Cmd.Silent := by
    intro call r
    cases r with
    | blocked => exact .one rfl
    | _ => trivial
  refine .cmd_bind rfl fun r => ?_
  cases r with
  | closed => trivial
  | enqueued call r => exact finish call r
  | appending ticket call =>
    refine .cmd_bind rfl fun r => ?_
    cases r with
    | enqueued r => exact finish call r
    | _ => trivial

theorem silent_callback (cb : DlqCallback) : (core.callback cb e sub error inMeta).All Cmd.Silent := by
  cases cb with
  | custom => exact .one rfl
  | dlqHandler dsn =>
    rw [callback, onDlqHandler]
    split
    · trivial
    · refine .cmd_bind rfl fun eventId => .cmd_bind rfl fun now => .bind silent_publish fun r => ?_
      match r with
      | .error .cancelled => trivial
      | .error .exit => trivial
      | .error (.exception _ _) =>
        cases dsn with
        | false => trivial
        | true => exact .cmd_bind rfl fun _ => trivial
      | .ok () =>
        cases dsn with
        | false => trivial
        | true => exact .cmd_bind rfl fun _ => trivial

/-- The dead-letter callback is called at most once. -/
theorem emits_invokeDlq :
    (core.invokeDlq e sub error inMeta).Emits Cmd.reports [.deadLetter sub.subscriberId] := by
  rw [invokeDlq]
  split
  · trivial
  · split_ifs
    · trivial
    · refine @Prog.Emits.cmd_bind _ _ _ _ _ [] _ _ (by simp [Cmd.reports]) fun _ => .of_all ?_
      exact (silent_callback _).bind fun _ => trivial

/-- At most one event on `bus.subscriber_error`, which names the subscriber. -/
theorem emits_emitSubscriberError :
    (core.emitSubscriberError e sub error inMeta).Emits Cmd.reports
      [.subscriberError (some (.str sub.subscriberId))] := by
  rw [emitSubscriberError]
  split_ifs
  · trivial
  · split
    · trivial
    · refine @Prog.Emits.cmd_bind _ _ _ _ _ [] _ _ (by simp [Cmd.reports, Json.member]) fun _ => ?_
      trivial

theorem emits_exhausted : (core.exhausted sub e inMeta error).Emits Cmd.reports sub.reports := by
  refine @Prog.Emits.bind _ _ _ _ _ _ [.deadLetter sub.subscriberId] _ _ emits_emitSubscriberError fun r => ?_
  cases r with
  | error exc => trivial
  | ok => exact emits_invokeDlq

theorem emits_attempts (attempt left : ℕ) :
    (core.attempts sub e inMeta attempt left).Emits Cmd.reports sub.reports := by
  induction left generalizing attempt with
  | zero =>
    refine .after (.one rfl) fun run => ?_
    rcases run.outcome with exc | done
    · dsimp only
      split_ifs
      · exact emits_exhausted
      · trivial
    · trivial
  | succ left ih =>
    refine .after (.one rfl) fun run => ?_
    rcases run.outcome with exc | done
    · dsimp only
      split_ifs
      · refine .after ((plain_retryDelay attempt).mono fun _ h => h.still.silent) fun r => ?_
        cases r with
        | error exc => trivial
        | ok => exact ih (attempt + 1)
      · trivial
    · trivial

theorem emits_serve : (core.serve sub e inMeta).Emits Cmd.reports sub.reports := by
  rw [serve]
  split_ifs
  · refine .after (plain_passes.mono fun _ h => h.still.silent) fun r => ?_
    match r with
    | .error exc => trivial
    | .ok false => trivial
    | .ok true => exact emits_attempts _ _
  · trivial

theorem emits_serveAll (subs : List Subscription) :
    (core.serveAll e inMeta subs).Emits Cmd.reports (subs.flatMap Subscription.reports) := by
  induction subs with
  | nil => trivial
  | cons sub subs ih =>
    rw [List.flatMap_cons]
    refine .bind emits_serve fun r => ?_
    cases r with
    | error exc => trivial
    | ok => exact ih

/-! ### The guard of a meta dispatch -/

section Meta

variable (isMeta : e.isMeta = true)

include isMeta

theorem still_exhausted : (core.exhausted sub e true error).All Cmd.Still := by
  have noDlq : core.invokeDlq e sub error true = .pure (.ok ()) := by
    rw [invokeDlq]
    split
    · rfl
    · rw [if_pos isMeta]
  rw [exhausted, emitSubscriberError, if_pos rfl, noDlq]
  trivial

theorem still_attempts (attempt left : ℕ) : (core.attempts sub e true attempt left).All Cmd.Still := by
  induction left generalizing attempt with
  | zero =>
    refine .cmd_bind trivial fun run => ?_
    rcases run.outcome with exc | done
    · dsimp only
      split_ifs
      · exact still_exhausted isMeta
      · trivial
    · trivial
  | succ left ih =>
    refine .cmd_bind trivial fun run => ?_
    rcases run.outcome with exc | done
    · dsimp only
      split_ifs
      · refine .bind ((plain_retryDelay attempt).mono fun _ => Cmd.Plain.still) fun r => ?_
        cases r with
        | error exc => trivial
        | ok => exact ih (attempt + 1)
      · trivial
    · trivial

theorem still_serveAll (subs : List Subscription) : (core.serveAll e true subs).All Cmd.Still := by
  induction subs with
  | nil => trivial
  | cons sub subs ih =>
    refine .bind ?_ fun r => ?_
    · rw [serve]
      split_ifs
      · refine .bind (plain_passes.mono fun _ => Cmd.Plain.still) fun r => ?_
        match r with
        | .error exc => trivial
        | .ok false => trivial
        | .ok true => exact still_attempts isMeta _ _
      · trivial
    · cases r with
      | error exc => trivial
      | ok => exact ih

end Meta

end BusCore

/-! ## Accounts -/

section Accounts

variable (ω : List Char → ℕ)

/-- The weight of the events that a command may put into the queues, where `ω` weighs topics. -/
def Cmd.puts : (c : Cmd) → c.Reply → ℕ
  | .publish e _, .enqueued _ .done | .appended _ _ e _, .enqueued .done =>
    ω e.topic + ω topicBackpressure.toList
  | .publish _ _, .enqueued _ _ | .appended _ _ _ _, .enqueued _ => ω topicBackpressure.toList
  | .slot _ e, _ => ω e.topic
  | .publishMeta topic _, _ => ω topic.toList
  | .drained _, _ => ω topicShutdownIncomplete.toList
  | _, _ => 0

/-- The weight of the dispatch that a command begins. -/
def Cmd.dispatches : (c : Cmd) → c.Reply → ℕ
  | .matching topic, _ => ω topic
  | _, _ => 0

/-- The weight of the event that a worker takes. -/
def Cmd.takes : (c : Cmd) → c.Reply → ℕ
  | .take, .envelope e _ => ω e.topic
  | _, _ => 0

/-- The price of a matching subscription: its failure may put an event on `bus.subscriber_error`, one on
`bus.dlq`, and one about the queue that the latter finds full. -/
def price : ℕ :=
  ω topicSubscriberError.toList + ω "bus.dlq".toList + ω topicBackpressure.toList

/-- What the subscriptions that a dispatch matched may put into the queues. -/
def Cmd.prices : (c : Cmd) → c.Reply → ℕ
  | .matching topic, subs => if "bus.".toList.isPrefixOf topic then 0 else subs.length * price ω
  | _, _ => 0

/-- What a call from outside may put into the queues, or dispatch. -/
def Call.credit : Call → ℕ
  | .publish e _ => ω e.topic + ω topicBackpressure.toList
  | .transport e => ω e.topic
  | .close _ => ω topicShutdownIncomplete.toList
  | _ => 0

/-- The cost of a command. -/
def Cmd.cost (c : Cmd) (r : c.Reply) : ℕ := c.puts ω r + c.dispatches ω r

/-- What a command brings in. -/
def Cmd.gain (c : Cmd) (r : c.Reply) : ℕ := c.takes ω r + c.prices ω r

variable {ω}

theorem Cmd.Still.cost {c : Cmd} (h : c.Still) (r : c.Reply) : c.cost ω r = 0 := by
  cases c <;> first | rfl | cases h

namespace BusCore

variable {core : BusCore} {e : Envelope} {sub : Subscription} {inMeta : Bool} {error : Exc}

/-- A program that is still is free. -/
theorem affords_of_still {α : Type} {x : Coro α} {n : ℕ} (h : x.All Cmd.Still) :
    x.Affords (Cmd.cost ω) (Cmd.gain ω) n :=
  .of_all (h.mono fun _ still => still.cost)

theorem affords_of_plain {α : Type} {x : Coro α} {n : ℕ} (h : x.All Cmd.Plain) :
    x.Affords (Cmd.cost ω) (Cmd.gain ω) n :=
  affords_of_still (h.mono fun _ => Cmd.Plain.still)

theorem affords_publish : (BusCore.publish e inMeta).Affords (Cmd.cost ω) (Cmd.gain ω)
    (ω e.topic + ω topicBackpressure.toList) := by
  have finish : ∀ call (r : Enqueued), ((Cmd.publish e inMeta).puts ω (.enqueued call r)) ≤
      ω e.topic + ω topicBackpressure.toList ∧
      (finishPublish call e r).Affords (Cmd.cost ω) (Cmd.gain ω)
        (ω e.topic + ω topicBackpressure.toList - (Cmd.publish e inMeta).puts ω (.enqueued call r)) := by
    intro call r
    cases r with
    | done => exact ⟨Nat.le_refl _, trivial⟩
    | rejected => exact ⟨Nat.le_add_left _ _, trivial⟩
    | blocked =>
      refine ⟨Nat.le_add_left _ _, fun r => ⟨?_, trivial⟩⟩
      change ω e.topic + 0 ≤ ω e.topic + ω topicBackpressure.toList - ω topicBackpressure.toList + 0
      omega
  refine .cmd_bind fun r => ?_
  cases r with
  | closed => exact ⟨Nat.zero_le _, trivial⟩
  | enqueued call r => exact finish call r
  | appending ticket call =>
    refine ⟨Nat.zero_le _, .cmd_bind fun r => ?_⟩
    cases r with
    | enqueued r =>
      have h := finish call r
      cases r <;> exact h
    | _ => exact ⟨Nat.zero_le _, trivial⟩

theorem affords_callback (cb : DlqCallback) : (core.callback cb e sub error inMeta).Affords (Cmd.cost ω)
    (Cmd.gain ω) (ω "bus.dlq".toList + ω topicBackpressure.toList) := by
  cases cb with
  | custom => exact affords_of_still (.one trivial)
  | dlqHandler dsn =>
    rw [callback, onDlqHandler]
    split
    · trivial
    · refine .after (.one fun _ => rfl) fun eventId => .after (.one fun _ => rfl) fun now =>
        .bind (m := 0) affords_publish fun r => affords_of_still ?_
      match r with
      | .error .cancelled => trivial
      | .error .exit => trivial
      | .error (.exception _ _) =>
        cases dsn with
        | false => trivial
        | true => exact .cmd_bind trivial fun _ => trivial
      | .ok () =>
        cases dsn with
        | false => trivial
        | true => exact .cmd_bind trivial fun _ => trivial

theorem affords_exhausted :
    (core.exhausted sub e inMeta error).Affords (Cmd.cost ω) (Cmd.gain ω) (price ω) := by
  rw [exhausted, price, Nat.add_assoc]
  refine .bind ?_ fun r => ?_
  · rw [emitSubscriberError]
    split_ifs
    · trivial
    · split
      · trivial
      · exact .cmd_bind fun r => ⟨Nat.le_refl _, trivial⟩
  · cases r with
    | error exc => trivial
    | ok =>
      dsimp only
      rw [invokeDlq]
      split
      · trivial
      · split_ifs
        · trivial
        · exact .after (.one fun _ => rfl) fun _ => (affords_callback _).map _

theorem affords_attempts (attempt left : ℕ) :
    (core.attempts sub e inMeta attempt left).Affords (Cmd.cost ω) (Cmd.gain ω) (price ω) := by
  induction left generalizing attempt with
  | zero =>
    refine .after (.one fun _ => rfl) fun run => ?_
    rcases run.outcome with exc | done
    · dsimp only
      split_ifs
      · exact affords_exhausted
      · trivial
    · trivial
  | succ left ih =>
    refine .after (.one fun _ => rfl) fun run => ?_
    rcases run.outcome with exc | done
    · dsimp only
      split_ifs
      · refine .after ((plain_retryDelay attempt).mono fun _ h => h.still.cost) fun r => ?_
        cases r with
        | error exc => trivial
        | ok => exact ih (attempt + 1)
      · trivial
    · trivial

theorem affords_serveAll (subs : List Subscription) :
    (core.serveAll e inMeta subs).Affords (Cmd.cost ω) (Cmd.gain ω) (subs.length * price ω) := by
  induction subs with
  | nil => trivial
  | cons sub subs ih =>
    rw [List.length_cons, Nat.succ_mul, Nat.add_comm]
    refine .bind ?_ fun r => ?_
    · rw [serve]
      split_ifs
      · refine .after (plain_passes.mono fun _ h => h.still.cost) fun r => ?_
        match r with
        | .error exc => trivial
        | .ok false => trivial
        | .ok true => exact affords_attempts _ _
      · trivial
    · cases r with
      | error exc => trivial
      | ok => exact ih

/-- A dispatch is paid for by the weight of its topic; what its subscriptions may cost comes with them. -/
theorem affords_dispatch (ambient : Bool) :
    (core.dispatch e ambient).Affords (Cmd.cost ω) (Cmd.gain ω) (ω e.topic) := by
  refine .cmd_bind fun subs => ?_
  by_cases isMeta : e.isMeta = true
  · refine ⟨?_, affords_of_still ?_⟩
    · change 0 + ω e.topic ≤ ω e.topic + _
      omega
    · rw [isMeta]
      exact still_serveAll isMeta subs
  · have prices : (Cmd.matching e.topic).prices ω subs = subs.length * price ω := if_neg isMeta
    refine ⟨?_, (affords_serveAll subs).mono ?_⟩
    · change 0 + ω e.topic ≤ ω e.topic + _
      omega
    · change subs.length * price ω ≤ ω e.topic + (0 + (Cmd.matching e.topic).prices ω subs) - (0 + ω e.topic)
      omega

theorem affords_turn (r : Outcome Unit) : (core.turn r).Affords (Cmd.cost ω) (Cmd.gain ω) 0 := by
  cases r with
  | error exc => trivial
  | ok =>
    refine .cmd_bind fun t => ⟨Nat.zero_le _, ?_⟩
    match t with
    | .nothing true => trivial
    | .nothing false => trivial
    | .envelope e ambient =>
      refine .mono (n := ω e.topic) ?_ (by change ω e.topic ≤ 0 + (ω e.topic + 0) - 0; omega)
      refine .bind (m := 0) (affords_dispatch ambient) fun r => affords_of_still (.cmd_bind trivial fun _ => ?_)
      cases r <;> trivial

end BusCore

theorem affords_code {core : BusCore} (o : Call) :
    (o.code core).Affords (Cmd.cost ω) (Cmd.gain ω) (o.credit ω) := by
  cases o with
  | publish e inMeta => exact BusCore.affords_publish.map _
  | fanOut => exact .map (BusCore.affords_of_plain BusCore.plain_fanOutTask) _
  | transport e =>
    refine .map ?_ _
    refine .after (.one fun _ => rfl) fun r => ?_
    cases r with
    | dispatch ambient =>
      exact .bind (m := 0) (BusCore.affords_dispatch ambient) fun r =>
        BusCore.affords_of_still (.cmd_bind trivial fun _ => trivial)
    | _ => trivial
  | start inMeta => exact .map (BusCore.affords_of_plain BusCore.plain_start) _
  | close drainTimeout =>
    refine .map ?_ _
    refine .after (.one fun _ => rfl) fun goesOn => ?_
    cases goesOn with
    | false => trivial
    | true =>
      refine .cmd_bind fun r => ⟨?_, BusCore.affords_of_still ?_⟩
      · change ω topicShutdownIncomplete.toList + 0 ≤ ω topicShutdownIncomplete.toList + 0
        exact Nat.le_refl _
      · cases r with
        | error exc => trivial
        | ok =>
          have rest := Prog.All.bind BusCore.plain_awaitRunner fun r => @BusCore.plain_closeRest core r
          exact rest.mono fun _ => Cmd.Plain.still
  | boot => exact BusCore.affords_of_still (.cmd_bind trivial fun _ => trivial)
  | turn =>
    refine .map ?_ _
    refine .after (.one fun _ => rfl) fun free => ?_
    cases free with
    | true => exact BusCore.affords_turn (.ok ())
    | false => exact .after (.one fun _ => rfl) BusCore.affords_turn
  | relayFirst => exact .map (BusCore.affords_of_still BusCore.still_relayFirst) _
  | relayTurn => exact .map (BusCore.affords_of_plain BusCore.plain_relayTurn) _

/-! ### What is in the queues -/

/-- The weight of items. -/
def weights (ω : List Char → ℕ) (items : List Item) : ℕ := (items.map fun item => ω item.envelope.topic).sum

@[simp] theorem weights_append (l l' : List Item) : weights ω (l ++ l') = weights ω l + weights ω l' := by
  simp [weights]

@[simp] theorem weights_cons (item : Item) (l : List Item) :
    weights ω (item :: l) = ω item.envelope.topic + weights ω l := by
  simp [weights]

@[simp] theorem weights_nil : weights ω [] = 0 := rfl

namespace State

variable {core : BusCore} {σ σ' : State} {p call ticket : ℕ} {e : Envelope} {inMeta : Bool} {i : Input}

/-- The weight of what is in the queues. -/
def load (ω : List Char → ℕ) (σ : State) : ℕ :=
  weights ω (σ.queues .critical).items + weights ω (σ.queues .high).items +
    weights ω (σ.queues .normal).items + weights ω (σ.queues .low).items

theorem load_congr (h : ∀ priority, (σ'.queues priority).items = (σ.queues priority).items) :
    σ'.load ω = σ.load ω := by
  simp only [load, h]

theorem load_setQueue (priority : EventPriority) (q : Asyncio.Queue Item) :
    (σ.setQueue priority q).load ω + weights ω (σ.queues priority).items = σ.load ω + weights ω q.items := by
  cases priority <;>
  · simp only [load, setQueue, Function.update, eq_rec_constant, dite_eq_ite, reduceCtorEq, if_false, if_true]
    omega

theorem load_publishMeta (topic : String) (payload : Json) :
    (σ.publishMeta topic payload i).2.load ω ≤ σ.load ω + ω topic.toList := by
  simp only [publishMeta, Asyncio.Queue.putNowait]
  split
  · rename_i q hq
    split_ifs at hq
    cases hq
    generalize he : Envelope.make i.uuid topic.toList payload (.str "bus-core") .info .high .null i.instant = e
    have topic_eq : e.topic = topic.toList := by rw [← he, Envelope.make]
    have moved := load_setQueue (ω := ω) (σ := σ) .high ((σ.queues .high).push ⟨none, e⟩)
    simp only [Asyncio.Queue.push, weights_append, weights_cons, weights_nil, topic_eq] at moved
    have same : ((σ.setQueue .high ((σ.queues .high).push ⟨none, e⟩)).release).load ω =
        (σ.setQueue .high ((σ.queues .high).push ⟨none, e⟩)).load ω := rfl
    simp only [Asyncio.Queue.push] at same ⊢
    omega
  · exact Nat.le_add_right _ _

theorem load_emitBackpressureMeta (policy : Policy) :
    (σ.emitBackpressureMeta core e policy inMeta i).load ω ≤ σ.load ω + ω topicBackpressure.toList := by
  rw [emitBackpressureMeta]
  split_ifs
  · exact Nat.le_add_right _ _
  · exact load_publishMeta _ _

theorem load_enter {q : Asyncio.Queue Item} (hq : weights ω q.items ≤ weights ω (σ.queues e.priority).items) :
    (σ.enter p call e q).load ω ≤ σ.load ω + ω e.topic := by
  have moved := load_setQueue (ω := ω) (σ := σ) e.priority (q.push ⟨some call, e⟩)
  simp only [Asyncio.Queue.push, weights_append, weights_cons, weights_nil] at moved
  change (σ.setQueue e.priority _).load ω ≤ _
  simp only [Asyncio.Queue.push]
  omega

theorem load_enqueueLocal : (σ.enqueueLocal core p call e inMeta i).2.load ω ≤
    σ.load ω + (Cmd.publish e inMeta).puts ω (.enqueued call (σ.enqueueLocal core p call e inMeta i).1) := by
  refine enqueueLocal_cases
    (C := fun r => r.2.load ω ≤ σ.load ω + (Cmd.publish e inMeta).puts ω (.enqueued call r.1))
    (fun _ => ?_) (fun _ _ => load_emitBackpressureMeta _) (fun σ' dropped q _ _ hσ' hq => ?_)
    (fun σ' _ _ hσ' => ?_)
  · have entered := @load_enter ω σ p call e _ (Nat.le_refl _)
    simp only [Cmd.puts]
    omega
  · have emitted := @load_emitBackpressureMeta ω core σ e inMeta i .dropOldest
    have replaced : (σ'.replace p dropped).queues = σ'.queues := by
      rw [replace]
      split <;> rfl
    have entered : ((σ'.replace p dropped).enter p call e q).load ω ≤
        (σ'.replace p dropped).load ω + ω e.topic := by
      refine load_enter ?_
      rw [replaced, Asyncio.Queue.items_getNowait hq, weights_cons]
      exact Nat.le_add_left _ _
    have same : (σ'.replace p dropped).load ω = σ'.load ω := load_congr fun priority => by rw [replaced]
    subst hσ'
    simp only [Cmd.puts]
    omega
  · have emitted := @load_emitBackpressureMeta ω core σ e inMeta i .block
    have moved := load_setQueue (ω := ω) (σ := σ') e.priority ((σ'.queues e.priority).wait p)
    simp only [Asyncio.Queue.wait] at moved ⊢
    subst hσ'
    simp only [Cmd.puts]
    omega

@[simp] theorem queues_perform : (σ.perform core p i ticket).2.queues = σ.queues := by
  rw [perform]
  split <;> rfl

@[simp] theorem queues_submit (job : Job) : (σ.submit job).2.queues = σ.queues := by
  rw [submit]
  split_ifs <;> rfl

theorem queues_rememberFanout : (σ.rememberFanout p e.eventId).queues = σ.queues := by
  rw [rememberFanout]

/-- The commands that are still leave the queues alone, except that a worker takes an event. -/
theorem queues_exec {c : Cmd} (still : c.Still) (ne : c ≠ .take) :
    (σ.exec core p c i).2.queues = σ.queues := by
  cases c with
  | publish | appended | slot | publishMeta | drained | matching | deadLetter => cases still
  | take => exact absurd rfl ne
  | backendPublished e timed =>
    simp only [exec]
    exact backendPublished_cases (fun _ => rfl) (fun _ => rfl) (fun _ _ _ => rfl) (fun _ _ => rfl)
      (fun _ _ _ _ _ _ => rfl) fun _ => rfl
  | settled ticket e confirmed timed =>
    simp only [exec]
    exact settled_cases rfl fun _ _ _ => queues_perform
  | relayRows ticket timed =>
    simp only [exec]
    exact relayRows_cases rfl (fun _ => queues_perform) fun _ _ _ => queues_perform
  | relayRefreshed ticket timed =>
    simp only [exec]
    exact relayRefreshed_cases rfl fun _ _ _ => queues_perform
  | relayDue => exact queues_submit _
  | relayStats => exact queues_submit _
  | closeOutbox => exact queues_submit _
  | relayPick e =>
    simp only [exec, relayPick]
    split_ifs
    · rfl
    · dsimp only
      rw [queues_rememberFanout]
  | bootPublish =>
    simp only [exec, bootPublish]
    split <;> rfl
  | acquired =>
    simp only [exec, acquired]
    split_ifs <;> rfl
  | arrive e =>
    simp only [exec, arrive]
    split_ifs <;> rfl
  | start inMeta =>
    simp only [exec, start]
    split_ifs <;> rfl
  | beginClose =>
    simp only [exec, beginClose]
    split_ifs <;> rfl
  | runnerDone =>
    simp only [exec, runnerDone]
    split_ifs <;> rfl
  | outboxClosed ticket =>
    simp only [exec, outboxClosed]
    split_ifs
    · rfl
    · exact queues_perform
  | _ => rfl

theorem load_take : (σ.take p).2.load ω + Cmd.takes ω .take (σ.take p).1 = σ.load ω := by
  refine take_cases (C := fun r => r.2.load ω + Cmd.takes ω .take r.1 = σ.load ω)
    (fun priority item q σ' hq hσ' => ?_) (fun _ _ => rfl) (fun _ _ => rfl)
  have moved := load_setQueue (ω := ω) (σ := σ) priority q
  rw [Asyncio.Queue.items_getNowait hq, weights_cons] at moved
  have same : State.load ω { σ' with inFlight := σ'.inFlight + 1 } = (σ.setQueue priority q).load ω := by
    refine load_congr fun other => ?_
    rw [hσ', noteTaken]
    split <;> rfl
  simp only [Cmd.takes]
  omega

/-- What a command leaves in the queues, with what it took, is covered by what was there and what it may
put. -/
theorem load_exec (c : Cmd) : (σ.exec core p c i).2.load ω + c.takes ω (σ.exec core p c i).1 ≤
    σ.load ω + c.puts ω (σ.exec core p c i).1 := by
  have unmoved : ∀ {c : Cmd}, c.Still → c ≠ .take → c.takes ω (σ.exec core p c i).1 = 0 →
      (σ.exec core p c i).2.load ω + c.takes ω (σ.exec core p c i).1 ≤
        σ.load ω + c.puts ω (σ.exec core p c i).1 := by
    intro c still ne none
    have same : (σ.exec core p c i).2.load ω = σ.load ω :=
      load_congr fun priority => by rw [queues_exec still ne]
    omega
  cases c with
  | take =>
    have taken := load_take (ω := ω) (σ := σ) (p := p)
    simp only [exec]
    omega
  | publish e inMeta =>
    simp only [exec]
    refine publish_cases (C := fun r => r.2.load ω + 0 ≤ σ.load ω + (Cmd.publish e inMeta).puts ω r.1)
      (fun _ => Nat.le_add_right _ _) (fun _ _ _ => Nat.le_add_right _ _) (fun stats σ' _ _ hσ' => ?_)
    refine load_enqueueLocal.trans (Nat.add_le_add_right (Nat.le_of_eq (load_congr fun priority => ?_)) _)
    rw [hσ']
    split_ifs
    · rw [queues_fanOut]
    · rfl
  | appended ticket call e inMeta =>
    have enqueued : ∀ {τ : State}, τ.queues = σ.queues →
        ((τ.fanOut p e).enqueueLocal core p call e inMeta i).2.load ω + 0 ≤ σ.load ω +
          (Cmd.appended ticket call e inMeta).puts ω
            (.enqueued ((τ.fanOut p e).enqueueLocal core p call e inMeta i).1) := by
      intro τ same
      have start : (τ.fanOut p e).load ω = σ.load ω :=
        load_congr fun priority => by rw [queues_fanOut, same]
      have put := @load_enqueueLocal ω core (τ.fanOut p e) p call e inMeta i
      rw [start] at put
      generalize ((τ.fanOut p e).enqueueLocal core p call e inMeta i) = r at put ⊢
      obtain ⟨r, τ'⟩ := r
      cases r <;> exact put
    simp only [exec]
    refine appended_cases
      (C := fun r => r.2.load ω + 0 ≤ σ.load ω + (Cmd.appended ticket call e inMeta).puts ω r.1)
      (fun _ => Nat.le_add_right _ _) (fun stats _ _ => ?_) (fun σ' _ _ hσ' => enqueued ?_)
      (fun stats σ' _ _ _ hσ' => enqueued ?_)
    · refine Nat.le_add_right_of_le (Nat.le_of_eq (load_congr fun priority => ?_))
      rw [queues_perform]
    · rw [hσ', queues_perform]
    · rw [hσ', queues_perform]
  | slot call e =>
    simp only [exec, slot, Cmd.takes, Cmd.puts]
    split_ifs
    · have moved := load_setQueue (ω := ω) (σ := σ.resumed p) e.priority ((σ.queues e.priority).cancelPut p)
      have same : (σ.resumed p).load ω = σ.load ω := rfl
      rw [Asyncio.Queue.items_cancelPut] at moved
      refine Nat.le_add_right_of_le (Nat.le_of_eq ?_)
      exact (Nat.add_right_cancel moved).trans same
    · exact load_enter (Nat.le_refl _)
  | publishMeta topic payload => exact load_publishMeta topic payload
  | drained drainTimeout =>
    simp only [exec]
    refine drained_cases
      (C := fun r => r.2.load ω + 0 ≤ σ.load ω + ω topicShutdownIncomplete.toList)
      (fun _ => Nat.le_add_right _ _) (fun _ payload σ' _ _ hσ' => ?_) (fun _ _ => Nat.le_add_right _ _)
    have put := load_publishMeta (ω := ω) (σ := σ') (i := i) topicShutdownIncomplete payload
    have same : σ'.load ω = σ.load ω := by rw [hσ']; rfl
    rw [← same]
    exact put
  | matching topic => exact Nat.le_refl _
  | deadLetter => exact Nat.le_refl _
  | _ => exact unmoved trivial (by simp) rfl

theorem load_note (o : Call) (r : Result) : (σ.note p o r).load ω = σ.load ω := by
  refine load_congr fun priority => ?_
  have ended : ∀ {τ : State}, (τ.endRelay p).queues = τ.queues := by
    intro τ
    rw [endRelay]
    split_ifs <;> rfl
  simp only [note]
  split <;> first | rfl | rw [ended]; rfl

theorem load_disturb (d : Disturbance) : (σ.disturb core d).load ω = σ.load ω := by
  refine load_congr fun priority => ?_
  cases d with
  | subscribe sub =>
    simp only [disturb, subscribe]
    split_ifs <;> rfl
  | unsubscribe subscriberId =>
    simp only [disturb, unsubscribe]
    split <;> rfl
  | cancel p =>
    simp only [disturb]
    split_ifs <;> rfl
  | cancelSpawned n => rfl
  | resume p => exact Asyncio.Queue.items_rewait _ _
  | thread i =>
    simp only [disturb, thread]
    split
    · split_ifs
      · rw [queues_perform]
      · rfl
    · rfl

end State

/-! ### Runs -/

variable {core : BusCore} {store : SqliteOutbox} {A : Pool (bus core) → Act (bus core) → Prop}
  {P : Pool (bus core)} {h : History (Pool.Entry (bus core))}

/-- What the workers took and what is still in the queues was put there. -/
theorem taken_le (hr : Pool.Recorded A Pool.journal (core.new store) [] P h) :
    History.total (Pool.Entry.spent (Cmd.takes ω)) h + P.shared.load ω ≤
      History.total (Pool.Entry.spent (Cmd.puts ω)) h := by
  induction hr with
  | refl => exact Nat.le_refl _
  | @step Q Q' h a _ _ hs ih =>
    cases Pool.acted hs with
    | call =>
      simp only [Pool.journal, History.total_cons, Pool.Entry.spent, Pool.set_shared]
      omega
    | @exec p i o c k hp =>
      have step := @State.load_exec ω core Q.shared p i c
      simp only [Pool.journal, hp, History.total_cons, Pool.Entry.spent, Pool.set_shared]
      omega
    | @ret p o r hp =>
      have same := State.load_note (ω := ω) (σ := Q.shared) (p := p) o r
      simp only [Pool.journal, Pool.set_shared]
      omega
    | crash => exact ih
    | @disturb d =>
      have same := @State.load_disturb ω core Q.shared d
      simp only [Pool.journal]
      omega

/-- The dispatches of a bus are paid for by the calls from outside and by the subscriptions that were
matched. -/
theorem dispatches_le (hr : Pool.Recorded A Pool.journal (core.new store) [] P h) :
    History.total (Pool.Entry.spent (Cmd.dispatches ω)) h ≤
      History.total (Pool.Entry.earned (Call.credit ω) (Cmd.prices ω)) h := by
  have taken := taken_le (ω := ω) hr
  have balance := @Pool.Recorded.balance _ _ (bus core) (Cmd.cost ω) (Cmd.gain ω) _ _ _ _ _ (affords_code (ω := ω))
    (fun _ => ⟨Phase.free, rfl⟩) hr
  have cost : Pool.Entry.spent (V := bus core) (Cmd.cost ω) =
      fun e => e.spent (Cmd.puts ω) + e.spent (Cmd.dispatches ω) := by
    funext e
    cases e <;> rfl
  have gain : Pool.Entry.earned (V := bus core) (Call.credit ω) (Cmd.gain ω) =
      fun e => e.spent (Cmd.takes ω) + e.earned (Call.credit ω) (Cmd.prices ω) := by
    funext e
    cases e with
    | called o => exact (Nat.zero_add _).symm
    | replied c r => rfl
  rw [cost, gain, History.total_add, History.total_add] at balance
  omega

end Accounts

/-! ## Dispatches are paid for -/

section Runs

variable {core : BusCore}

/-- A dispatch begins. -/
def dispatchBegun : Pool.Entry (bus core) → ℕ
  | .replied (.matching _) _ => 1
  | _ => 0

/-- A dispatch of an event outside `bus.*` begins. -/
def ordinaryBegun : Pool.Entry (bus core) → ℕ
  | .replied (.matching topic) _ => if "bus.".toList.isPrefixOf topic then 0 else 1
  | _ => 0

/-- The subscriptions that a dispatch of an event outside `bus.*` matched. -/
def ordinaryMatched : Pool.Entry (bus core) → ℕ
  | .replied (.matching topic) subs => if "bus.".toList.isPrefixOf topic then 0 else List.length subs
  | _ => 0

/-- The events that a call from outside may bring to the queues or to a dispatch: its own, and one about a
queue that it finds full, or about a drain that took too long. -/
def inputs : Pool.Entry (bus core) → ℕ
  | .called (.publish _ _) => 2
  | .called (.transport _) | .called (.close _) => 1
  | _ => 0

/-- The events outside `bus.*` that come from outside. -/
def ordinaryInputs : Pool.Entry (bus core) → ℕ
  | .called (.publish e _) | .called (.transport e) => if e.isMeta then 0 else 1
  | _ => 0

/-- What the commands of a trace report. -/
def reported (t : List (Issued (machine core))) : List Report := t.flatMap fun s => s.cmd.reports

/-- The subscriptions that match in a trace. -/
def matched (t : List (Issued (machine core))) : List Subscription :=
  t.flatMap fun s =>
    match s.cmd with
    | .matching topic => s.before.matchingSubscriptions topic
    | _ => []

/-- Whatever its subscribers do, a dispatch reports each matching subscription at most once on
`bus.subscriber_error` and to the dead-letter callback, and a dispatch of a `bus.*` event reports none. So in
every run the dispatches outside `bus.*` are at most the events that came from outside, and all dispatches
at most what came from outside and three for each subscription that one of these matched. -/
theorem recursion_bounded (core : BusCore) :
    (∀ (p : ℕ) (E : State → State → Prop) (e : Envelope) (ambient : Bool) (σ σ' : State)
      (t : List (Issued (machine core))) (y : Coro (Outcome Unit)),
      Trace (machine core) p E (core.dispatch e ambient) σ t y σ' →
        (reported t).Sublist ((matched t).flatMap Subscription.reports) ∧ (e.isMeta = true → reported t = [])) ∧
    ∀ (store : SqliteOutbox) (A : Pool (bus core) → Act (bus core) → Prop) (P : Pool (bus core))
      (h : History (Pool.Entry (bus core))), Pool.Recorded A Pool.journal (core.new store) [] P h →
        History.total ordinaryBegun h ≤ History.total ordinaryInputs h ∧
          History.total dispatchBegun h ≤ History.total inputs h + 3 * History.total ordinaryMatched h := by
  refine ⟨fun p E e ambient σ σ' t y ht => ?_, fun store A P h hr => ⟨?_, ?_⟩⟩
  · rcases Trace.op_inv ht with ⟨rfl, -⟩ | ⟨i, σ₁, t', rfl, ht'⟩
    · exact ⟨List.Sublist.refl _, fun _ => rfl⟩
    · have rest : reported t' = t'.flatMap fun s => s.cmd.reports := rfl
      have first : reported (⟨.matching e.topic, i, σ₁⟩ :: t') = reported t' := rfl
      rw [first]
      constructor
      · have sub := Prog.Emits.sublist ht' (BusCore.emits_serveAll _)
        refine sub.trans ?_
        rw [matched, List.flatMap_cons, List.flatMap_append]
        exact List.sublist_append_left _ _
      · intro isMeta
        have still : (core.serveAll e (e.isMeta || ambient) (σ₁.matchingSubscriptions e.topic)).All Cmd.Still := by
          rw [isMeta]
          exact BusCore.still_serveAll isMeta _
        have none : (reported t').Sublist [] :=
          Prog.Emits.sublist ht' (.of_all (still.mono fun _ => Cmd.Still.silent))
        exact List.eq_nil_of_sublist_nil none
  · let ordinary : List Char → ℕ := fun topic => if "bus.".toList.isPrefixOf topic then 0 else 1
    have paid := dispatches_le (ω := ordinary) hr
    refine (History.total_mono (fun e => ?_) h).trans (paid.trans (History.total_mono (fun e => ?_) h))
    · match e with
      | .called o => exact Nat.le_refl _
      | .replied c r => cases c <;> exact Nat.le_refl _
    · match e with
      | .called o => cases o <;> exact Nat.le_refl _
      | .replied c r =>
        cases c with
        | matching topic =>
          change (if _ then 0 else _ * price ordinary) ≤ 0
          have free : price ordinary = 0 := by decide
          rw [free]
          split_ifs <;> exact Nat.le_refl _
        | _ => exact Nat.le_refl _
  · have paid := dispatches_le (ω := fun _ => 1) hr
    rw [← History.total_mul, ← History.total_add]
    refine (History.total_mono (fun e => ?_) h).trans (paid.trans (History.total_mono (fun e => ?_) h))
    · match e with
      | .called o => exact Nat.le_refl _
      | .replied c r => cases c <;> exact Nat.le_refl _
    · match e with
      | .called o => cases o <;> exact Nat.le_refl _
      | .replied c r =>
        cases c with
        | matching topic =>
          change (if _ then 0 else _ * 3) ≤ 0 + 3 * (if _ then 0 else _)
          split_ifs
          · exact Nat.le_refl _
          · rw [Nat.mul_comm, Nat.zero_add]
        | _ => exact Nat.le_refl _

end Runs

/-! ## A subscriber of everything that fails -/

namespace Failing

/-- A bus with one attempt for each handler, and `DLQHandler.on_dlq` as its dead-letter callback. -/
def core : BusCore :=
  .init 1 0 1 [] .block (some (.dlqHandler false)) false false 5 10 60 false ⟨fun _ => none, fun _ => none⟩

/-- An event of the application. -/
def event : Envelope :=
  .make "a" "shop.orders".toList .null (.str "shop") .info .normal .null epoch

/-- A subscription of every topic. -/
def subscriber : Subscription := { subscriberId := "s", pattern := ['*'] }

/-- A handler that raises. -/
def failure : Input := { handler := { result := .error (.exception "ValueError" (some "boom")) } }

/-- A turn of the worker, with `n` commands after the handler has failed. -/
def turn (n : ℕ) : List (Act (bus core)) :=
  [.call 0 .turn, .exec 0 {}, .exec 0 {}, .exec 0 {}, .exec 0 failure] ++
    List.replicate n (.exec 0 {}) ++ [.ret 0]

/-- An event is published, the bus starts, and its worker takes three turns. -/
def acts : List (Act (bus core)) :=
  [.disturb (.subscribe subscriber), .call 0 (.publish event false), .exec 0 {}, .ret 0,
    .call 0 (.start false), .exec 0 {}, .ret 0, .call 0 .boot, .exec 0 {}, .ret 0] ++
    turn 6 ++ turn 1 ++ turn 1

end Failing

/-- One event and a subscriber of everything that fails each time: three dispatches, of the event, of
`bus.subscriber_error` and of `bus.dlq`. -/
theorem recursion_bounded_witness :
    ∃ P h, Pool.Recorded (fun _ _ => True) Pool.journal (Failing.core.new { maxRows := 1, maxAge := 1 }) [] P h ∧
      (P.actors 0).isResting = true ∧ P.shared.queued.length = 0 ∧ History.total ordinaryBegun h = 1 ∧
      History.total dispatchBegun h = 3 ∧
      History.total dispatchBegun h ≤ History.total inputs h + 3 * History.total ordinaryMatched h := by
  have ran : ∃ r ∈ (Failing.core.new { maxRows := 1, maxAge := 1 }).recordSolo 0 (fun _ _ => true) Pool.journal
      [] Failing.acts, (r.1.actors 0).isResting = true ∧ r.1.shared.queued.length = 0 ∧
        History.total ordinaryBegun r.2 = 1 ∧ History.total dispatchBegun r.2 = 3 := by
    decide +kernel
  obtain ⟨⟨P, h⟩, run, rests, empty, ordinary, begun⟩ := ran
  have recorded : Pool.Recorded (fun _ _ => True) Pool.journal
      (Failing.core.new { maxRows := 1, maxAge := 1 }) [] P h :=
    .of_solo (fun _ _ _ _ => trivial) (fun q _ => ⟨_, rfl⟩) run
  exact ⟨P, h, recorded, rests, empty, ordinary, begun, ((recursion_bounded Failing.core).2 _ _ _ _ recorded).2⟩

end NavigatorEventbus.Bus
