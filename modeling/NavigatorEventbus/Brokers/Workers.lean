import NavigatorEventbus.Brokers.Producer

/-!
# Workers of a producer

What becomes of an event that a worker takes from the queue.  The connection logs a failed publish and returns,
so its worker counts the event as published: an event is published, or given up after all its attempts, and
every failure is seen by the worker, exactly when the connection has no failed publish and the attempts of the
event are a number or none of them raises (`conveyed_iff`).
-/

namespace NavigatorEventbus.Brokers

open Interleave

open Bus (Exc Outcome)

section Workers

variable {broker : Broker}

/-! ## What a worker does -/

/-- How a `basic_publish` ends. -/
def publishes (s : Issued (machine broker)) : Option (Outcome Unit) :=
  match s.cmd with
  | .publish _ _ =>
    match s.before.channel with
    | none => some (.error (runtimeError "RabbitMQ channel is not open"))
    | some _ => some s.input.publish
  | _ => none

/-- A publish that reached the broker. -/
def Published (s : Issued (machine broker)) : Prop := publishes s = some (.ok ())

/-- A publish that raised. -/
def Fails (s : Issued (machine broker)) : Prop := ∃ exc, publishes s = some (.error exc) ∧ exc.isException = true

/-- The worker has seen a failure. -/
def reportsFailure (s : Issued (machine broker)) : Bool :=
  match s.cmd with
  | .report .failed | .report (.retrying _) => true
  | _ => false

/-- The event that a worker takes. -/
def takes (s : Issued (machine broker)) : Option Queued :=
  match s.cmd with
  | .get =>
    match s.input.interrupt, s.before.eventQueue.getNowait with
    | .ok (), some (event, _) => some event
    | _, _ => none
  | _ => none

/-- The number of attempts that an event is worth. -/
def Spent (n : ℕ) (maxRetries : Json) : Prop :=
  exhausted n maxRetries = some true ∧ ∀ k, 0 < k → k < n → exhausted k maxRetries = some false

/-- A worker that executed `t` published its event, or failed at it as often as it is worth, and saw every
failed publish. -/
structure Conveyed (t : List (Issued (machine broker))) : Prop where
  conveyed : ∀ event ∈ t.filterMap takes,
    (∃ s ∈ t, Published s) ∨ Spent (t.countP reportsFailure) event.maxRetries
  observed : ∀ before s after, t = before ++ s :: after → Fails s →
    ∃ s' rest, after = s' :: rest ∧ reportsFailure s' = true

/-- The connection gives up on connecting. -/
def GivesUp (s : Issued (machine broker)) : Prop :=
  s.cmd = .attempt ∧ broker.maxReconnectAttempts ≤ s.before.reconnectAttempts

/-- An attempt at an event raises: its exchange or its routing key is missing, it has no payload, or the connection
gives up. -/
def Raises (event : Queued) (t : List (Issued (machine broker))) : Prop :=
  event.queueName = .null ∨ event.routingKey = .null ∨
    (∃ exc, event.publication.payload broker.codec = .error exc ∧ exc.isException = true) ∨ ∃ s ∈ t, GivesUp s

/-- No publish fails, and the attempts of the event are a number or none of them raises. -/
structure Smooth (t : List (Issued (machine broker))) : Prop where
  publishes : ∀ s ∈ t, ¬ Fails s
  counts : ∀ event ∈ t.filterMap takes, exhausted 0 event.maxRetries ≠ none ∨ ¬ Raises event t

/-! ## The ways through an attempt -/

/-- A step that neither publishes nor reports. -/
def Idle (s : Issued (machine broker)) : Prop := publishes s = none ∧ reportsFailure s = false

/-- The ways through an attempt to publish. -/
inductive Tried (event : Queued) : List (Issued (machine broker)) → Outcome Unit → Prop where
  | returned {t : List (Issued (machine broker))} {s : Issued (machine broker)} {o : Outcome Unit}
      (idle : ∀ e ∈ t, Idle e) (sound : ¬ Raises event (t ++ [s])) (sent : publishes s = some o)
      (quiet : reportsFailure s = false) (swallowed : ∀ exc, o = .error exc → exc.isException = true) :
      Tried event (t ++ [s]) (.ok ())
  | cancelled {t : List (Issued (machine broker))} {exc : Exc} (sound : ∀ e ∈ t, ¬ Fails e)
      (cancelled : exc.isException = false) : Tried event t (.error exc)
  | raised {t : List (Issued (machine broker))} {exc : Exc} (idle : ∀ e ∈ t, Idle e) (raises : Raises event t)
      (exception : exc.isException = true) : Tried event t (.error exc)

/-- The ways through the retry loop after `n` failures. -/
inductive Worked (event : Queued) : ℕ → List (Issued (machine broker)) → Outcome Unit → Prop where
  | published {n : ℕ} {t : List (Issued (machine broker))} {s : Issued (machine broker)}
      (tried : Tried event t (.ok ())) (cmd : s.cmd = .report .published) : Worked event n (t ++ [s]) (.ok ())
  | cancelled {n : ℕ} {t : List (Issued (machine broker))} {exc : Exc} (cancelled : exc.isException = false) :
      Worked event n t (.error exc)
  | unread {n : ℕ} {t : List (Issued (machine broker))} {exc exc' : Exc} (tried : Tried event t (.error exc))
      (exception : exc.isException = true) (limit : exhausted (n + 1) event.maxRetries = none) :
      Worked event n t (.error exc')
  | failed {n : ℕ} {t : List (Issued (machine broker))} {s : Issued (machine broker)} {exc : Exc}
      (tried : Tried event t (.error exc)) (exception : exc.isException = true)
      (limit : exhausted (n + 1) event.maxRetries = some true) (cmd : s.cmd = .report .failed) :
      Worked event n (t ++ [s]) (.ok ())
  | retried {n delay : ℕ} {t t' : List (Issued (machine broker))} {s s' : Issued (machine broker)} {exc : Exc}
      {r : Outcome Unit} (tried : Tried event t (.error exc)) (exception : exc.isException = true)
      (limit : exhausted (n + 1) event.maxRetries = some false) (cmd : s.cmd = .report (.retrying delay))
      (cmd' : s'.cmd = .sleep delay) (rest : Worked event (n + 1) t' r) :
      Worked event n (t ++ s :: s' :: t') r

/-! ## Attempts -/

section Runs

variable {event : Queued} {p n delay reconnects fuel : ℕ} {E : State → State → Prop} {σ σ' : State}
  {t : List (Issued (machine broker))} {r : Outcome Unit}

theorem Raises.mono {t' : List (Issued (machine broker))} (h : Raises event t) (sub : ∀ s ∈ t, s ∈ t') :
    Raises event t' := by
  rcases h with queueName | routingKey | payload | ⟨s, hs, gives⟩
  · exact .inl queueName
  · exact .inr (.inl routingKey)
  · exact .inr (.inr (.inl payload))
  · exact .inr (.inr (.inr ⟨s, sub s hs, gives⟩))

/-- Steps that do not connect make no attempt raise. -/
theorem Raises.of_append {t' : List (Issued (machine broker))} (h : Raises event (t ++ t'))
    (others : ∀ s ∈ t', s.cmd ≠ .attempt) : Raises event t := by
  rcases h with queueName | routingKey | payload | ⟨s, hs, gives⟩
  · exact .inl queueName
  · exact .inr (.inl routingKey)
  · exact .inr (.inr (.inl payload))
  · rcases List.mem_append.1 hs with hs | hs
    · exact .inr (.inr (.inr ⟨s, hs, gives⟩))
    · exact absurd gives.1 (others s hs)

theorem Idle.not_fails {s : Issued (machine broker)} (h : Idle s) : ¬ Fails s := by
  rintro ⟨exc, sent, -⟩
  rw [h.1] at sent
  cases sent

theorem Idle.not_published {s : Issued (machine broker)} (h : Idle s) : ¬ Published s := by
  intro sent
  rw [Published, h.1] at sent
  cases sent

/-- How connecting ends: with an exception, when the connection gives up. -/
structure Connected (t : List (Issued (machine broker))) (r : Outcome Unit) : Prop where
  idle : ∀ s ∈ t, Idle s
  raised : (∃ exc, r = .error exc ∧ exc.isException = true) ↔ ∃ s ∈ t, GivesUp s

theorem Connected.cons {s : Issued (machine broker)} (idle : Idle s) (steady : ¬ GivesUp s) (h : Connected t r) :
    Connected (s :: t) r where
  idle := List.forall_mem_cons.2 ⟨idle, h.idle⟩
  raised := by
    rw [h.raised]
    simp [steady]

theorem connected_of_ok : Connected ([] : List (Issued (machine broker))) (.ok ()) :=
  ⟨fun s hs => absurd hs List.not_mem_nil, by simp⟩

theorem connected_of_cancelled {exc : Exc} (h : exc.isException = false) :
    Connected ([] : List (Issued (machine broker))) (.error exc) :=
  ⟨fun s hs => absurd hs List.not_mem_nil, by simp [h]⟩

theorem connected_connect (h : Trace (machine broker) p E (connect fuel) σ t (.pure r) σ') : Connected t r := by
  induction fuel generalizing σ t with
  | zero => cases h.hang_inv.2
  | succ fuel ih =>
    obtain ⟨i, σ₁, t₁, rfl, h₁⟩ := h.op_pure_inv
    refine .cons ⟨rfl, rfl⟩ (by simp [GivesUp]) ?_
    generalize ((machine broker).exec p .dial i σ₁).1 = dialled at h₁
    cases dialled with
    | ok =>
      obtain ⟨rfl, same⟩ := h₁.pure_inv
      cases same
      exact connected_of_ok
    | error exc =>
      dsimp only [Prog.bind] at h₁
      split_ifs at h₁ with exception
      · obtain ⟨j, σ₂, t₂, rfl, h₂⟩ := h₁.op_pure_inv
        by_cases left : σ₂.reconnectAttempts < broker.maxReconnectAttempts
        · refine .cons ⟨rfl, rfl⟩ (by simp [GivesUp, left]) ?_
          simp only [State.exec, left, if_true, Prog.bind] at h₂
          obtain ⟨k, σ₃, t₃, rfl, h₃⟩ := h₂.op_pure_inv
          refine .cons ⟨rfl, rfl⟩ (by simp [GivesUp]) ?_
          cases waited : k.interrupt with
          | ok =>
            simp only [State.exec, waited, Prog.bind] at h₃
            exact ih h₃
          | error exc =>
            simp only [State.exec, waited, Prog.bind] at h₃
            obtain ⟨rfl, same⟩ := h₃.pure_inv
            cases same
            exact connected_of_cancelled (Input.isException_of_interrupt waited)
        · simp only [State.exec, left, if_false, Prog.bind] at h₂
          obtain ⟨rfl, same⟩ := h₂.pure_inv
          cases same
          refine ⟨fun s hs => ?_, ?_⟩
          · rw [List.mem_singleton.1 hs]
            exact ⟨rfl, rfl⟩
          · simp only [List.mem_singleton, exists_eq_left, GivesUp, true_and]
            exact ⟨fun _ => Nat.le_of_not_lt left, fun _ => ⟨_, rfl, rfl⟩⟩
      · obtain ⟨rfl, same⟩ := h₁.pure_inv
        cases same
        exact connected_of_cancelled (by simpa using exception)

theorem connected_ensureConnection
    (h : Trace (machine broker) p E (ensureConnection fuel) σ t (.pure r) σ') : Connected t r := by
  obtain ⟨i, σ₁, t₁, rfl, h₁⟩ := h.op_pure_inv
  refine .cons ⟨rfl, rfl⟩ (by simp [GivesUp]) ?_
  simp only [Prog.bind] at h₁
  split_ifs at h₁
  · exact connected_connect h₁
  · obtain ⟨rfl, same⟩ := h₁.pure_inv
    cases same
    exact connected_of_ok

/-- The end of an attempt. -/
theorem tried_basicPublish {payload : Payload} {t₀ : List (Issued (machine broker))}
    (idle : ∀ s ∈ t₀, Idle s) (sound : ¬ Raises event t₀)
    (h : Trace (machine broker) p E (basicPublish none payload) σ t (.pure r) σ') : Tried event (t₀ ++ t) r := by
  obtain ⟨i, σ₁, t₁, rfl, h₁⟩ := h.op_pure_inv
  have sent : @publishes broker ⟨.publish none payload, i, σ₁⟩ =
      some ((machine broker).exec p (.publish none payload) i σ₁).1 := by
    simp only [publishes, State.exec]
    cases σ₁.channel with
    | none => rfl
    | some channel => cases i.publish <;> rfl
  have steady : ¬ Raises event (t₀ ++ [⟨.publish none payload, i, σ₁⟩]) := by
    rintro (queueName | routingKey | encoded | ⟨s, hs, gives⟩)
    · exact sound (.inl queueName)
    · exact sound (.inr (.inl routingKey))
    · exact sound (.inr (.inr (.inl encoded)))
    · rcases List.mem_append.1 hs with hs | hs
      · exact sound (.inr (.inr (.inr ⟨s, hs, gives⟩)))
      · rw [List.mem_singleton.1 hs] at gives
        cases gives.1
  generalize ((machine broker).exec p (.publish none payload) i σ₁).1 = o at h₁ sent
  cases o with
  | ok =>
    obtain ⟨rfl, same⟩ := h₁.pure_inv
    cases same
    exact .returned idle steady sent rfl nofun
  | error exc =>
    obtain ⟨rfl, same⟩ := h₁.pure_inv
    split_ifs at same with exception
    · cases same
      refine .returned idle steady sent rfl ?_
      rintro exc' ⟨rfl⟩
      exact exception
    · cases same
      refine .cancelled (fun s hs => ?_) (by simpa using exception)
      rcases List.mem_append.1 hs with hs | hs
      · exact (idle s hs).not_fails
      · rw [List.mem_singleton.1 hs]
        rintro ⟨exc', sent', exception'⟩
        rw [sent] at sent'
        cases sent'
        exact exception exception'

theorem tried_of_trace (h : Trace (machine broker) p E
    (publishMessage broker.codec reconnects none event.publication) σ t (.pure r) σ') : Tried event t r := by
  unfold publishMessage at h
  split at h
  · rename_i queueName
    obtain ⟨rfl, same⟩ := h.pure_inv
    cases same
    exact .raised (fun s hs => absurd hs List.not_mem_nil) (.inl queueName) rfl
  · rename_i routingKey _
    obtain ⟨rfl, same⟩ := h.pure_inv
    cases same
    exact .raised (fun s hs => absurd hs List.not_mem_nil) (.inr (.inl routingKey)) rfl
  · rename_i queueName routingKey
    obtain ⟨t₁, t₂, r₁, σ₁, rfl, h₁, h₂⟩ := h.bind_pure_inv
    have connected := connected_ensureConnection h₁
    have sound : (∀ exc, r₁ = .error exc → exc.isException = false) → ∀ payload,
        event.publication.payload broker.codec = .ok payload → ¬ Raises event t₁ := by
      rintro steady payload encoded (missing | missing | ⟨exc, failed, -⟩ | gives)
      · exact queueName missing
      · exact routingKey missing
      · rw [encoded] at failed
        cases failed
      · obtain ⟨exc, same, exception⟩ := connected.raised.2 gives
        rw [steady exc same] at exception
        cases exception
    cases r₁ with
    | error exc =>
      obtain ⟨rfl, same⟩ := h₂.pure_inv
      cases same
      rw [List.append_nil]
      cases exception : exc.isException with
      | true => exact .raised connected.idle (.inr (.inr (.inr (connected.raised.1 ⟨exc, rfl, exception⟩)))) exception
      | false => exact .cancelled (fun s hs => (connected.idle s hs).not_fails) exception
    | ok =>
      obtain ⟨i, σ₂, t₃, rfl, h₃⟩ := h₂.op_pure_inv
      have declared : ∀ s ∈ t₁ ++ [⟨.declare event.publication.queueName "topic", i, σ₂⟩], Idle s := by
        intro s hs
        rcases List.mem_append.1 hs with hs | hs
        · exact connected.idle s hs
        · rw [List.mem_singleton.1 hs]
          exact ⟨rfl, rfl⟩
      have interrupted : ∀ exc, (σ₂.exec broker p (.declare event.publication.queueName "topic") i).1 = .error exc →
          exc.isException = false := by
        intro exc he
        simp only [State.exec] at he
        split at he
        · exact Input.isException_of_interrupt he
        · cases he
      have sound' : ∀ payload, event.publication.payload broker.codec = .ok payload →
          ¬ Raises event (t₁ ++ [⟨.declare event.publication.queueName "topic", i, σ₂⟩]) := by
        rintro payload encoded (missing | missing | failed | ⟨s, hs, gives⟩)
        · exact queueName missing
        · exact routingKey missing
        · exact sound nofun payload encoded (.inr (.inr (.inl failed)))
        · rcases List.mem_append.1 hs with hs | hs
          · exact sound nofun payload encoded (.inr (.inr (.inr ⟨s, hs, gives⟩)))
          · rw [List.mem_singleton.1 hs] at gives
            cases gives.1
      rw [List.append_cons]
      generalize (State.exec broker σ₂ p (.declare event.publication.queueName "topic") i).1 = reply at h₃ interrupted
      cases reply with
      | error exc =>
        obtain ⟨rfl, same⟩ := h₃.pure_inv
        cases same
        rw [List.append_nil]
        exact .cancelled (fun s hs => (declared s hs).not_fails) (interrupted exc rfl)
      | ok =>
        simp only [Prog.bind] at h₃
        cases encoded : event.publication.payload broker.codec with
        | error exc =>
          rw [encoded] at h₃
          obtain ⟨rfl, same⟩ := h₃.pure_inv
          cases same
          rw [List.append_nil]
          cases exception : exc.isException with
          | true => exact .raised declared (.inr (.inr (.inl ⟨exc, encoded, exception⟩))) exception
          | false => exact .cancelled (fun s hs => (declared s hs).not_fails) exception
        | ok payload =>
          rw [encoded] at h₃
          exact tried_basicPublish declared (sound' payload encoded) h₃

theorem worked_of_trace (h : Trace (machine broker) p E
    (publishRetrying broker.codec reconnects event fuel n delay) σ t (.pure r) σ') : Worked event n t r := by
  induction fuel generalizing n delay σ t with
  | zero => cases h.hang_inv.2
  | succ fuel ih =>
    obtain ⟨t₁, t₂, r₁, σ₁, rfl, h₁, h₂⟩ := h.bind_pure_inv
    have tried := tried_of_trace h₁
    cases r₁ with
    | ok =>
      obtain ⟨i, σ₂, t₃, rfl, h₃⟩ := h₂.op_pure_inv
      obtain ⟨rfl, same⟩ := h₃.pure_inv
      cases same
      exact .published tried rfl
    | error exc =>
      dsimp only at h₂
      split_ifs at h₂ with exception
      · cases limit : exhausted (n + 1) event.maxRetries with
        | none =>
          rw [limit] at h₂
          obtain ⟨rfl, same⟩ := h₂.pure_inv
          cases same
          rw [List.append_nil]
          exact .unread tried exception limit
        | some last =>
          rw [limit] at h₂
          cases last with
          | true =>
            obtain ⟨i, σ₂, t₃, rfl, h₃⟩ := h₂.op_pure_inv
            obtain ⟨rfl, same⟩ := h₃.pure_inv
            cases same
            exact .failed tried exception limit rfl
          | false =>
            obtain ⟨i, σ₂, t₃, rfl, h₃⟩ := h₂.op_pure_inv
            obtain ⟨j, σ₃, t₄, rfl, h₄⟩ := h₃.op_pure_inv
            cases waited : j.interrupt with
            | error exc =>
              simp only [State.exec, waited, Prog.bind] at h₄
              obtain ⟨rfl, same⟩ := h₄.pure_inv
              cases same
              exact .cancelled (Input.isException_of_interrupt waited)
            | ok =>
              simp only [State.exec, waited, Prog.bind] at h₄
              exact .retried tried exception limit rfl rfl (ih h₄)
      · obtain ⟨rfl, same⟩ := h₂.pure_inv
        cases same
        exact .cancelled (by simpa using exception)

/-! ## What becomes of an event -/

theorem exhausted_eq_none {v : Json} : exhausted n v = none ↔ exhausted 0 v = none := by
  cases v <;> simp [exhausted]

theorem Tried.idle {exc : Exc} (h : Tried event t (.error exc)) (exception : exc.isException = true) :
    ∀ s ∈ t, Idle s := by
  cases h with
  | cancelled _ cancelled =>
    rw [exception] at cancelled
    cases cancelled
  | raised idle => exact idle

theorem Tried.raises {exc : Exc} (h : Tried event t (.error exc)) (exception : exc.isException = true) :
    Raises event t := by
  cases h with
  | cancelled _ cancelled =>
    rw [exception] at cancelled
    cases cancelled
  | raised _ raises => exact raises

theorem countP_of_idle (h : ∀ s ∈ t, Idle s) : t.countP reportsFailure = 0 := by
  rw [List.countP_eq_zero]
  intro s hs
  simp [(h s hs).2]

/-- A publish that failed is the last thing before the event is reported as published. -/
theorem Worked.swallowed (h : Worked event n t r) (completed : ∀ exc, r = .error exc → exc.isException = true)
    (fails : ∃ s ∈ t, Fails s) :
    ∃ before s last, t = before ++ [s, last] ∧ Fails s ∧ last.cmd = .report .published := by
  obtain ⟨s, hs, failed⟩ := fails
  induction h with
  | @published n t last tried cmd =>
    rcases List.mem_append.1 hs with hs | hs
    · cases tried with
      | @returned t s' o idle =>
        rcases List.mem_append.1 hs with hs | hs
        · exact absurd failed (idle s hs).not_fails
        · cases List.mem_singleton.1 hs
          exact ⟨t, s, last, by simp, failed, cmd⟩
    · rw [List.mem_singleton.1 hs] at failed
      obtain ⟨exc, sent, -⟩ := failed
      simp [publishes, cmd] at sent
  | cancelled cancelled =>
    rw [completed _ rfl] at cancelled
    cases cancelled
  | unread tried exception => exact absurd failed (tried.idle exception s hs).not_fails
  | failed tried exception _ cmd =>
    rcases List.mem_append.1 hs with hs | hs
    · exact absurd failed (tried.idle exception s hs).not_fails
    · rw [List.mem_singleton.1 hs] at failed
      obtain ⟨exc, sent, -⟩ := failed
      simp [publishes, cmd] at sent
  | @retried n delay t t' report sleep exc r tried exception limit cmd cmd' rest ih =>
    rcases List.mem_append.1 hs with hs | hs
    · exact absurd failed (tried.idle exception s hs).not_fails
    · rcases List.mem_cons.1 hs with rfl | hs
      · obtain ⟨exc, sent, -⟩ := failed
        simp [publishes, cmd] at sent
      · rcases List.mem_cons.1 hs with rfl | hs
        · obtain ⟨exc, sent, -⟩ := failed
          simp [publishes, cmd'] at sent
        · obtain ⟨before, s', last, rfl, found⟩ := ih completed hs
          exact ⟨t ++ report :: sleep :: before, s', last, by simp, found⟩

/-- An event whose publishes do not fail is published, or its attempts are used up. -/
theorem Worked.conveyed (h : Worked event n t r) (completed : ∀ exc, r = .error exc → exc.isException = true)
    (sound : ∀ s ∈ t, ¬ Fails s) (counts : exhausted 0 event.maxRetries ≠ none ∨ ¬ Raises event t) :
    (∃ s ∈ t, Published s) ∨ exhausted (n + t.countP reportsFailure) event.maxRetries = some true ∧
      ∀ k, n < k → k < n + t.countP reportsFailure → exhausted k event.maxRetries = some false := by
  induction h with
  | @published n t last tried cmd =>
    cases tried with
    | @returned t s o idle _ sent _ swallowed =>
      refine .inl ⟨s, by simp, ?_⟩
      cases o with
      | ok => exact sent
      | error exc => exact absurd ⟨exc, sent, swallowed exc rfl⟩ (sound s (by simp))
  | cancelled cancelled =>
    rw [completed _ rfl] at cancelled
    cases cancelled
  | unread tried exception limit =>
    rcases counts with counts | counts
    · exact absurd (exhausted_eq_none.1 limit) counts
    · exact absurd (tried.raises exception) counts
  | @failed n t last exc tried exception limit cmd =>
    have count : (t ++ [last]).countP reportsFailure = 1 := by
      rw [List.countP_append, countP_of_idle (tried.idle exception)]
      simp [reportsFailure, cmd]
    rw [count]
    exact .inr ⟨limit, fun k _ _ => by omega⟩
  | @retried n delay t t' report sleep exc r tried exception limit cmd cmd' rest ih =>
    have count : (t ++ report :: sleep :: t').countP reportsFailure = 1 + t'.countP reportsFailure := by
      rw [List.countP_append, countP_of_idle (tried.idle exception)]
      simp [reportsFailure, cmd, cmd', Nat.add_comm]
    have inside : ∀ s ∈ t', s ∈ t ++ report :: sleep :: t' := fun s hs => by simp [hs]
    have number : exhausted 0 event.maxRetries ≠ none := by
      intro none
      rw [exhausted_eq_none.2 none] at limit
      cases limit
    rcases ih completed (fun s hs => sound s (inside s hs)) (.inl number) with ⟨s, hs, sent⟩ | ⟨last, earlier⟩
    · exact .inl ⟨s, inside s hs, sent⟩
    · refine .inr ⟨?_, fun k above below => ?_⟩
      · rw [count, ← Nat.add_assoc]
        exact last
      · rw [count] at below
        by_cases first : k = n + 1
        · rw [first]
          exact limit
        · exact earlier k (by omega) (by omega)

/-- An event whose attempts are no number is given up after the first one that raises. -/
theorem Worked.unpublished (h : Worked event n t r) (completed : ∀ exc, r = .error exc → exc.isException = true)
    (number : exhausted 0 event.maxRetries = none) (raises : Raises event t) : ¬ ∃ s ∈ t, Published s := by
  cases h with
  | @published n t last tried cmd =>
    cases tried with
    | returned idle sound =>
      refine absurd (raises.of_append fun s hs => ?_) sound
      rw [List.mem_singleton.1 hs, cmd]
      exact nofun
  | cancelled cancelled =>
    rw [completed _ rfl] at cancelled
    cases cancelled
  | unread tried exception =>
    rintro ⟨s, hs, sent⟩
    exact (tried.idle exception s hs).not_published sent
  | failed _ _ limit | retried _ _ limit =>
    rw [exhausted_eq_none.2 number] at limit
    cases limit

/-- What a worker that took the event makes of it. -/
theorem conveyed_iff_smooth {first last : Issued (machine broker)} (takes_first : takes first = some event)
    (idle : Idle first) (steady : first.cmd ≠ .attempt) (cmd : last.cmd = .taskDone) (h : Worked event 0 t r)
    (completed : ∀ exc, r = .error exc → exc.isException = true) (quiet : t.filterMap takes = []) :
    Conveyed (first :: (t ++ [last])) ↔ Smooth (first :: (t ++ [last])) := by
  have taken : (first :: (t ++ [last])).filterMap takes = [event] := by
    rw [List.filterMap_cons_some takes_first, List.filterMap_append, quiet]
    simp [takes, cmd]
  have count : (first :: (t ++ [last])).countP reportsFailure = 0 + t.countP reportsFailure := by
    rw [List.countP_cons_of_neg (by simp [idle.2]), List.countP_append]
    simp [reportsFailure, cmd]
  have idle' : Idle last := by simp [Idle, publishes, reportsFailure, cmd]
  have published : (∃ s ∈ first :: (t ++ [last]), Published s) ↔ ∃ s ∈ t, Published s := by
    simp [idle.not_published, idle'.not_published]
  have fails : (∀ s ∈ first :: (t ++ [last]), ¬ Fails s) ↔ ∀ s ∈ t, ¬ Fails s := by
    simp only [List.mem_cons, List.mem_append, List.not_mem_nil, or_false, forall_eq_or_imp]
    refine ⟨fun h s hs => h.2 s (.inl hs), fun h => ⟨idle.not_fails, fun s hs => ?_⟩⟩
    rcases hs with hs | rfl
    · exact h s hs
    · exact idle'.not_fails
  have raises : Raises event (first :: (t ++ [last])) ↔ Raises event t := by
    refine ⟨fun h => ?_, fun h => h.mono fun s hs => by simp [hs]⟩
    rcases h with queueName | routingKey | payload | ⟨s, hs, gives⟩
    · exact .inl queueName
    · exact .inr (.inl routingKey)
    · exact .inr (.inr (.inl payload))
    · rcases List.mem_cons.1 hs with rfl | hs
      · exact absurd gives.1 steady
      · refine @Raises.of_append _ _ _ [last] (.inr (.inr (.inr ⟨s, hs, gives⟩))) fun s hs => ?_
        rw [List.mem_singleton.1 hs, cmd]
        intro same
        cases same
  constructor
  · intro whole
    have sound : ∀ s ∈ t, ¬ Fails s := by
      intro s hs failed
      obtain ⟨before, s', report, rfl, failed, reported⟩ := h.swallowed completed ⟨s, hs, failed⟩
      obtain ⟨s'', rest, after, seen⟩ :=
        whole.observed (first :: before) s' [report, last] (by simp) failed
      obtain ⟨rfl, -⟩ := List.cons.inj after
      simp [reportsFailure, reported] at seen
    refine ⟨fails.2 sound, fun e he => ?_⟩
    rw [taken, List.mem_singleton] at he
    subst he
    by_contra unread
    obtain ⟨number, raised⟩ := not_or.1 unread
    have none : exhausted 0 e.maxRetries = none := not_not.1 number
    have raised := raises.1 (not_not.1 raised)
    rcases whole.conveyed e (by simp [taken]) with sent | spent
    · exact h.unpublished completed none raised (published.1 sent)
    · have last := spent.1
      rw [exhausted_eq_none.2 none] at last
      cases last
  · intro smooth
    have sound := fails.1 smooth.publishes
    refine ⟨fun e he => ?_, fun before s after split failed => absurd failed (smooth.publishes s (by simp [split]))⟩
    have counts := smooth.counts e he
    rw [taken, List.mem_singleton] at he
    subst he
    rw [published, count, Spent]
    exact h.conveyed completed sound (counts.imp_right fun h raised => h (raises.2 raised))

/-! ## The programs -/

theorem all_publishMessage {codec : Codec} {publication : Publication} :
    (publishMessage codec fuel none publication).All fun c : Cmd => c ≠ .get := by
  unfold publishMessage
  split
  · trivial
  · trivial
  · refine .bind ((all_ensureConnection fuel).mono ?_) fun r => ?_
    · rintro c connects rfl
      exact connects
    · cases r with
      | error => trivial
      | ok =>
        refine .cmd_bind nofun fun r => ?_
        cases r with
        | error => trivial
        | ok =>
          dsimp only
          cases publication.payload codec with
          | error => trivial
          | ok payload => exact .cmd_bind nofun fun r => by cases r <;> trivial

theorem all_publishRetrying {codec : Codec} :
    (publishRetrying codec reconnects event fuel n delay).All fun c : Cmd => c ≠ .get := by
  induction fuel generalizing n delay with
  | zero => trivial
  | succ fuel ih =>
    refine all_publishMessage.bind fun r => ?_
    cases r with
    | ok => exact .cmd_bind nofun fun _ => trivial
    | error exc =>
      dsimp only
      split_ifs
      · cases exhausted (n + 1) event.maxRetries with
        | none => trivial
        | some last =>
          cases last with
          | true => exact .cmd_bind nofun fun _ => trivial
          | false =>
            refine .cmd_bind nofun fun _ => .cmd_bind nofun fun waited => ?_
            cases waited with
            | error => trivial
            | ok => exact ih
      · trivial

/-- The connection stays open, and the bound on the attempts is enough for the event. -/
def Open (fuel : ℕ) : (c : Cmd) → c.Reply → Prop
  | .closed, closed => closed = false
  | .get, r => ∀ event, r = .ok (some event) → exhausted fuel event.maxRetries ≠ some false
  | _, _ => True

theorem returns_publishMessage {codec : Codec} {publication : Publication} {bound : ℕ} :
    (publishMessage codec fuel none publication).ReturnsIf (Open bound) := by
  unfold publishMessage
  split
  · trivial
  · trivial
  · refine .bind (fun closed stays => ?_) fun r => ?_
    · have stays : closed = false := stays
      subst stays
      trivial
    · cases r with
      | error => trivial
      | ok =>
        intro r _
        cases r with
        | error => trivial
        | ok =>
          simp only [Prog.bind]
          cases publication.payload codec with
          | error => trivial
          | ok payload => exact fun r _ => by cases r <;> trivial

theorem returns_publishRetrying {codec : Codec} {bound : ℕ} (positive : 0 < fuel)
    (enough : exhausted (n + fuel) event.maxRetries ≠ some false) :
    (publishRetrying codec reconnects event fuel n delay).ReturnsIf (Open bound) := by
  induction fuel generalizing n delay with
  | zero => cases positive
  | succ fuel ih =>
    refine returns_publishMessage.bind fun r => ?_
    cases r with
    | ok => exact fun _ _ => trivial
    | error exc =>
      dsimp only
      split_ifs
      · cases limit : exhausted (n + 1) event.maxRetries with
        | none => trivial
        | some last =>
          cases last with
          | true => exact fun _ _ => trivial
          | false =>
            intro _ _ waited _
            cases waited with
            | error => trivial
            | ok =>
              refine ih (Nat.pos_of_ne_zero fun zero => ?_) ?_
              · subst zero
                exact enough limit
              · rwa [Nat.add_assoc, Nat.add_comm 1 fuel]
      · trivial

theorem returns_eventBroker {codec : Codec} (positive : 0 < fuel) :
    (eventBroker codec reconnects fuel).ReturnsIf (Open fuel) := by
  intro r enough
  cases r with
  | error => trivial
  | ok taken =>
    cases taken with
    | none => trivial
    | some event =>
      refine (returns_publishRetrying positive ?_).bind fun r _ _ => ?_
      · rw [Nat.zero_add]
        exact enough event rfl
      · cases r <;> trivial

end Runs

end Workers

/-- An event that a worker takes is published, or given up after as many failures as it is worth, and the worker
sees every failed publish, exactly when no publish of the connection fails, and the attempts of the event are a
number or none of them raises. While the connection stays open, the turn of a worker comes to its end. -/
theorem conveyed_iff (broker : Broker) (reconnects fuel : ℕ) :
    (∀ (p : ℕ) (E : State → State → Prop) (σ σ' : State) (t : List (Issued (machine broker))),
      Trace (machine broker) p E (eventBroker broker.codec reconnects fuel) σ t (.pure (.ok ())) σ' →
        (Conveyed t ↔ Smooth t)) ∧
    (0 < fuel → (eventBroker broker.codec reconnects fuel).ReturnsIf (Open fuel)) := by
  refine ⟨fun p E σ σ' t h => ?_, returns_eventBroker⟩
  obtain ⟨i, σ₁, t₁, rfl, h₁⟩ := h.op_pure_inv
  cases waited : i.interrupt with
  | error exc =>
    simp only [State.exec, waited, Prog.bind] at h₁
    obtain ⟨-, same⟩ := h₁.pure_inv
    cases same
  | ok =>
    cases item : σ₁.eventQueue.getNowait with
    | none =>
      simp only [State.exec, waited, item, Prog.bind] at h₁
      obtain ⟨rfl, -⟩ := h₁.pure_inv
      have idle : ∀ s ∈ [(⟨.get, i, σ₁⟩ : Issued (machine broker))], ¬ Fails s := by simp [Fails, publishes]
      have empty : [(⟨.get, i, σ₁⟩ : Issued (machine broker))].filterMap takes = [] := by simp [takes, waited, item]
      refine ⟨fun _ => ⟨idle, fun e he => ?_⟩, fun _ => ⟨fun e he => ?_, fun before s after split failed => ?_⟩⟩
      · rw [empty] at he
        cases he
      · rw [empty] at he
        cases he
      · exact absurd failed (idle s (by simp [split]))
    | some taken =>
      obtain ⟨event, queue⟩ := taken
      simp only [State.exec, waited, item, Prog.bind] at h₁
      obtain ⟨t₂, t₃, r, σ₂, rfl, h₂, h₃⟩ := h₁.bind_pure_inv
      obtain ⟨j, σ₃, t₄, rfl, h₄⟩ := h₃.op_pure_inv
      have quiet : t₂.filterMap takes = [] := by
        refine List.filterMap_eq_nil_iff.2 fun s hs => ?_
        have other := (h₂.all all_publishRetrying).1 s hs
        unfold takes
        split
        · rename_i get
          exact absurd get other
        · rfl
      have completed : ∀ exc, r = .error exc → exc.isException = true := by
        rintro exc rfl
        obtain ⟨-, same⟩ := h₄.pure_inv
        by_contra exception
        simp [exception] at same
      have ends : t₄ = [] := by
        cases r <;> exact h₄.pure_inv.1
      subst ends
      exact conveyed_iff_smooth (by simp [takes, waited, item]) ⟨rfl, rfl⟩ nofun rfl (worked_of_trace h₂)
        completed quiet

namespace Turn

/-- Serializers that write nothing. -/
def codec : Codec where
  loads _ := none
  decode _ := none
  unserialize _ := none
  dumps _ := .ok []

def broker : Broker := { codec := codec }

/-- An event of the application. -/
def event : Queued := { body := .json (.str "hi"), queueName := .str "navigator", routingKey := .str "a", rest := [] }

/-- A producer with an open connection and the event in its queue. -/
def waiting : State :=
  { connected := true, channel := some 0, channels := 1, eventQueue := { maxsize := 1000, items := [event] } }

def failure : Exc := .exception "ChannelInvalidStateError" none

end Turn

open Turn in
/-- The worker publishes its event. -/
theorem conveyed_iff_witness : (∃ σ' t, Trace (machine broker) 0 (fun _ _ => False)
      (eventBroker codec 1 5) waiting t (.pure (.ok ())) σ' ∧
    t.filterMap publishes = [.ok ()] ∧ Conveyed t) ∧ (eventBroker codec 1 5).ReturnsIf (Open 5) := by
  refine ⟨?_, (conveyed_iff broker 1 5).2 (by decide)⟩
  let inputs : List Input := [{}, {}, {}, {}, {}, {}]
  have run := Trace.of_follow (M := machine broker) (p := 0) (E := fun _ _ => False)
    (eventBroker codec 1 5) waiting inputs
  have sent : (Prog.follow (machine broker) 0 inputs (eventBroker codec 1 5) waiting).1.filterMap publishes =
      [.ok ()] := by decide
  have counts : ∀ event ∈ (Prog.follow (machine broker) 0 inputs (eventBroker codec 1 5) waiting).1.filterMap takes,
      exhausted 0 event.maxRetries ≠ none := by decide
  refine ⟨_, _, run, sent, ((conveyed_iff broker 1 5).1 _ _ _ _ _ run).2 ⟨fun s hs failed => ?_, fun e he => ?_⟩⟩
  · obtain ⟨exc, raised, -⟩ := failed
    have mem := List.mem_filterMap.2 ⟨s, hs, raised⟩
    rw [sent] at mem
    cases List.mem_singleton.1 mem
  · exact .inl (counts e he)

open Turn in
/-- The publish fails, and the worker takes the event for published: it is discarded after one attempt. -/
theorem failure_unseen : ¬ ∀ (broker : Broker) (reconnects fuel p : ℕ) (E : State → State → Prop) (σ σ' : State)
    (t : List (Issued (machine broker))),
    Trace (machine broker) p E (eventBroker broker.codec reconnects fuel) σ t (.pure (.ok ())) σ' →
      Conveyed t := by
  intro h
  let inputs : List Input := [{}, {}, {}, { publish := .error failure }, {}, {}]
  have run := Trace.of_follow (M := machine broker) (p := 0) (E := fun _ _ => False)
    (eventBroker codec 1 5) waiting inputs
  have failed : (Prog.follow (machine broker) 0 inputs (eventBroker codec 1 5) waiting).1.filterMap publishes =
      [.error failure] := by decide
  have unseen : (Prog.follow (machine broker) 0 inputs (eventBroker codec 1 5) waiting).1.countP reportsFailure = 0 := by
    decide
  rcases (h broker 1 5 _ _ _ _ _ run).conveyed event (List.mem_singleton.2 rfl) with ⟨s, hs, sent⟩ | spent
  · have mem := List.mem_filterMap.2 ⟨s, hs, sent⟩
    rw [failed] at mem
    cases List.mem_singleton.1 mem
  · rw [unseen] at spent
    exact absurd spent.1 (by decide)

end NavigatorEventbus.Brokers
