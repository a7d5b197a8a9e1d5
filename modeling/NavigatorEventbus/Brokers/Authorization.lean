import NavigatorEventbus.Brokers.Producer

/-!
# Authorisation by request

What the endpoint of a producer decides on a request, against what the answer of the auth callable says by
itself (`authorises`).  The user of the last accepted session stays in the producer, and a request whose
session is empty is decided by it: the two agree exactly when the session is not empty or no user is known.
-/

namespace NavigatorEventbus.Brokers

open Interleave

open Bus (Exc Outcome)

/-- The answer of the auth callable identifies a user. -/
def authorises : Outcome Json → Bool
  | .ok (.obj members) => (members.lookup "user_id").any truthy
  | _ => false

/-- The decision of a command is not left to the user of an earlier request. -/
def Fresh (c : Cmd) (σ : State) : Prop :=
  match c with
  | .authorize _ session => truthy session = true ∨ truthy σ.userid = false
  | _ => True

instance (c : Cmd) (σ : State) : Decidable (Fresh c σ) := by
  unfold Fresh
  split <;> infer_instance

section Steps

variable {broker : Broker} {p : ℕ} {request : Request} {session : Json} {σ σ' : State} {c : Cmd} {i : Input}

/-- A session that is not empty decides by itself, an empty one leaves it to the user that is known. -/
theorem isOk_authorize (p : ℕ) (request : Request) (session : Json) (σ : State) :
    (σ.authorize p request session).1.isOk =
      if truthy session then authorises (.ok session) else truthy σ.userid := by
  unfold State.authorize
  dsimp only
  cases given : truthy session with
  | true =>
    cases session with
    | obj members =>
      dsimp only [authorises]
      cases members.lookup "user_id" with
      | none => rfl
      | some userid => cases user : truthy userid <;> simp [user, Except.isOk, Except.toBool]
    | _ => rfl
  | false => cases truthy σ.userid <;> simp [Except.isOk, Except.toBool]

theorem authorises_of_empty (h : truthy session = false) : authorises (.ok session) = false := by
  cases session with
  | obj members =>
    have empty : members = [] := by simpa [truthy] using h
    simp [authorises, empty]
  | _ => rfl

/-- The decision is that of the answer exactly when it is not left to the user of an earlier request. -/
theorem decision_iff : (σ.authorize p request session).1.isOk = authorises (.ok session) ↔
    Fresh (.authorize request session) σ := by
  rw [isOk_authorize]
  cases given : truthy session with
  | true => simp [Fresh, given]
  | false => simp [Fresh, given, authorises_of_empty given]

theorem log_authorize : (σ.authorize p request session).2.log =
    (p, .decided request (.ok session) (σ.authorize p request session).1.isOk) :: σ.log := by
  unfold State.authorize
  dsimp only
  cases given : truthy session with
  | true =>
    cases session with
    | obj members =>
      dsimp only
      cases members.lookup "user_id" with
      | none => rfl
      | some userid => cases user : truthy userid <;> simp [user, State.record, Except.isOk, Except.toBool]
    | _ => rfl
  | false => cases truthy σ.userid <;> simp [State.record, Except.isOk, Except.toBool]

/-! ## Decisions of a run -/

/-- Every decision of a history is that of the answer. -/
def Decided (log : History Event) : Prop :=
  ∀ p request answer authorized, (p, .decided request answer authorized) ∈ log → authorized = authorises answer

theorem Decided.cons {log : History Event} {q : ℕ} {e : Event} (h : Decided log)
    (he : ∀ request answer authorized, e = .decided request answer authorized → authorized = authorises answer) :
    Decided ((q, e) :: log) := by
  intro p request answer authorized mem
  rcases List.mem_cons.1 mem with same | mem
  · exact he request answer authorized (Prod.mk.inj same).2.symm
  · exact h p request answer authorized mem

theorem decided_dedup {delivery : ℕ} {key : Text} (h : Decided σ.log) :
    Decided (σ.dedup p delivery key i).2.log := by
  have noted : ∀ {log : History Event} {e : Event}, Decided log →
      (∀ request answer authorized, e ≠ .decided request answer authorized) → Decided ((p, e) :: log) :=
    fun h he => h.cons fun _ _ _ same => absurd same (he _ _ _)
  unfold State.dedup
  split
  · dsimp only
    cases i.redis with
    | ok =>
      dsimp only
      split <;> exact noted h nofun
    | error exc =>
      dsimp only
      split
      · split
        · exact noted (noted h nofun) nofun
        · exact noted h nofun
      · exact h
  · exact noted h nofun

theorem decided_exec (fresh : Fresh c σ) (h : Decided σ.log) : Decided (σ.exec broker p c i).2.log := by
  cases c with
  | authorize request session =>
    change Decided (σ.authorize p request session).2.log
    rw [log_authorize]
    refine h.cons fun request answer authorized same => ?_
    cases same
    exact decision_iff.2 fresh
  | authenticate request =>
    dsimp only [State.exec]
    cases answer : i.session with
    | ok session => exact h
    | error exc =>
      refine h.cons fun request answer authorized same => ?_
      cases same
      rfl
  | dial =>
    dsimp only [State.exec, State.dial]
    split
    · exact h
    · split <;> exact h
  | attempt =>
    dsimp only [State.exec]
    split_ifs <;> exact h
  | publish delivery payload =>
    dsimp only [State.exec]
    split
    · exact h
    · exact h
    · cases delivery with
      | none => exact h
      | some delivery => exact h.cons nofun
  | enqueue event =>
    dsimp only [State.exec]
    split <;> exact h
  | get =>
    dsimp only [State.exec]
    split <;> exact h
  | receive message body => exact h.cons nofun
  | dedup delivery key => exact decided_dedup h
  | _ => exact h

theorem decided_of_reach {P : Pool (producer broker)}
    (hr : Pool.Reach (Pool.Meets fun _ _ c _ σ => Fresh c σ) broker.idle P) : Decided P.shared.log := by
  refine hr.invariant (J := fun σ : State => Decided σ.log) (D := fun _ _ => True) (fun o => .of_forall (fun _ => trivial) _)
    (fun {_ _ _ _ _} _ fresh h => decided_exec fresh h) (fun h => h) (fun _ h => h) ?_ ?_
  · exact fun _ _ x _ => .of_forall (fun _ => trivial) x
  · exact fun _ _ _ _ mem => absurd mem List.not_mem_nil

/-! ## Decisions of a request -/

/-- The body of the endpoint was entered. -/
def Entered (request : Request) (t : List (Issued (machine broker))) : Prop := ∃ s ∈ t, s.cmd = .json request

/-- The answer of the auth callable. -/
def answers (s : Issued (machine broker)) : Option (Outcome Json) :=
  match s.cmd with
  | .authenticate _ => some s.input.session
  | _ => none

/-- The ways through the endpoint of a producer, its tasks being `p`. -/
inductive Served (broker : Broker) (p : ℕ) (request : Request) : List (Issued (machine broker)) → Prop where
  | unprotected : Served broker p request []
  | unanswered {s : Issued (machine broker)} {exc : Exc} (cmd : s.cmd = .authenticate request)
      (answer : s.input.session = .error exc) : Served broker p request [s]
  | refused {s s' : Issued (machine broker)} {session : Json} (cmd : s.cmd = .authenticate request)
      (answer : s.input.session = .ok session) (cmd' : s'.cmd = .authorize request session)
      (decision : (s'.before.authorize p request session).1.isOk = false) : Served broker p request [s, s']
  | entered {s s' s'' : Issued (machine broker)} {t : List (Issued (machine broker))} {session : Json}
      (cmd : s.cmd = .authenticate request) (answer : s.input.session = .ok session)
      (cmd' : s'.cmd = .authorize request session)
      (decision : (s'.before.authorize p request session).1.isOk = true) (cmd'' : s''.cmd = .json request)
      (rest : ∀ e ∈ t, e.cmd = .json request ∨ ∃ event, e.cmd = .enqueue event) : Served broker p request (s :: s' :: s'' :: t)

theorem all_eventPublisher (codec : Codec) (request : Request) : (eventPublisher codec request).All
    fun c : Cmd => c = .json request ∨ ∃ event, c = .enqueue event := by
  refine .cmd_bind (.inl rfl) fun data => ?_
  cases data with
  | error => trivial
  | ok data =>
    dsimp only
    cases eventOf data with
    | error => trivial
    | ok event =>
      cases event with
      | inl response => trivial
      | inr event =>
        refine .cmd_bind (.inr ⟨event, rfl⟩) fun put => ?_
        cases put <;> trivial

theorem served_of_trace {E : State → State → Prop} {t : List (Issued (machine broker))} {r : Outcome Response}
    (h : Trace (machine broker) p E (endpoint broker request) σ t (.pure r) σ') : Served broker p request t := by
  unfold endpoint serviceAuth at h
  split_ifs at h
  · obtain ⟨i, σ₁, t₁, rfl, h₁⟩ := h.op_pure_inv
    cases answer : i.session with
    | error exc =>
      simp only [State.exec, answer, Prog.bind] at h₁
      obtain ⟨rfl, -⟩ := h₁.pure_inv
      exact .unanswered rfl answer
    | ok session =>
      simp only [State.exec, answer, Prog.bind] at h₁
      obtain ⟨j, σ₂, t₂, rfl, h₂⟩ := h₁.op_pure_inv
      cases decision : (σ₂.authorize p request session).1 with
      | error exc =>
        simp only [State.exec, decision, Prog.bind] at h₂
        obtain ⟨rfl, -⟩ := h₂.pure_inv
        exact .refused rfl answer rfl (by simp [decision, Except.isOk, Except.toBool])
      | ok =>
        simp only [State.exec, decision, Prog.bind] at h₂
        have rest := (h₂.all (all_eventPublisher broker.codec request)).1
        obtain ⟨k, σ₃, t₃, rfl, -⟩ := h₂.op_pure_inv
        exact .entered rfl answer rfl (by simp [decision, Except.isOk, Except.toBool]) rfl
          fun e he => rest e (List.mem_cons_of_mem _ he)
  · obtain ⟨rfl, -⟩ := h.pure_inv
    exact .unprotected

theorem answers_enqueue {t : List (Issued (machine broker))}
    (h : ∀ e ∈ t, e.cmd = .json request ∨ ∃ event, e.cmd = .enqueue event) :
    t.filterMap answers = [] ∧ ∀ e ∈ t, Fresh e.cmd e.before := by
  refine ⟨List.filterMap_eq_nil_iff.2 fun e he => ?_, fun e he => ?_⟩ <;> obtain cmd | ⟨event, cmd⟩ := h e he
  · simp [answers, cmd]
  · simp [answers, cmd]
  · simp [Fresh, cmd]
  · simp [Fresh, cmd]

/-- The body of the endpoint is entered just when the answer identifies a user, exactly when the decision is not
left to the user of an earlier request. -/
theorem Served.entered_iff {t : List (Issued (machine broker))} (h : Served broker p request t) :
    (Entered request t ↔ ∃ answer ∈ t.filterMap answers, authorises answer = true) ↔
      ∀ s ∈ t, Fresh s.cmd s.before := by
  cases h with
  | unprotected => simp [Entered]
  | unanswered cmd answer => simp [Entered, Fresh, answers, authorises, cmd, answer]
  | @refused s s' session cmd answer cmd' decision =>
    have out : ¬ Entered request [s, s'] := by simp [Entered, cmd, cmd']
    have answered : (∃ a ∈ [s, s'].filterMap answers, authorises a = true) ↔ authorises (.ok session) = true := by
      simp [answers, cmd, answer, cmd']
    have fresh : (∀ e ∈ [s, s'], Fresh e.cmd e.before) ↔ Fresh (.authorize request session) s'.before := by
      simp [cmd, cmd', Fresh]
    rw [answered, fresh, ← decision_iff (p := p), decision]
    cases authorises (.ok session) <;> simp [out]
  | @entered s s' s'' t session cmd answer cmd' decision cmd'' rest =>
    obtain ⟨quiet, others⟩ := answers_enqueue rest
    have entered : Entered request (s :: s' :: s'' :: t) := ⟨s'', by simp, cmd''⟩
    have answered : (∃ a ∈ (s :: s' :: s'' :: t).filterMap answers, authorises a = true) ↔
        authorises (.ok session) = true := by
      simp [answers, cmd, answer, cmd', cmd'', quiet]
    have fresh : (∀ e ∈ s :: s' :: s'' :: t, Fresh e.cmd e.before) ↔
        Fresh (.authorize request session) s'.before := by
      rw [List.forall_mem_cons, List.forall_mem_cons, List.forall_mem_cons, cmd, cmd', cmd'']
      exact ⟨fun h => h.2.1, fun h => ⟨trivial, h, trivial, others⟩⟩
    rw [answered, fresh, ← decision_iff (p := p), decision]
    cases authorises (.ok session) <;> simp [entered]

end Steps

/-- A request is authorised by the answer of the auth callable alone, exactly when its decision is not left to
the user of an earlier request. In runs where no decision is, the same answer to the same request is always
decided in the same way. -/
theorem authorization_iff (broker : Broker) :
    (∀ (p : ℕ) (request : Request) (E : State → State → Prop) (σ σ' : State) (t : List (Issued (machine broker)))
      (r : Outcome Response), Trace (machine broker) p E (endpoint broker request) σ t (.pure r) σ' →
        ((Entered request t ↔ ∃ answer ∈ t.filterMap answers, authorises answer = true) ↔
          ∀ s ∈ t, Fresh s.cmd s.before)) ∧
    ∀ P Q : Pool (producer broker), Pool.Reach (Pool.Meets fun _ _ c _ σ => Fresh c σ) broker.idle P →
      Pool.Reach (Pool.Meets fun _ _ c _ σ => Fresh c σ) broker.idle Q →
        ∀ (p q : ℕ) (request : Request) (answer : Outcome Json) (a b : Bool),
          (p, .decided request answer a) ∈ P.shared.log → (q, .decided request answer b) ∈ Q.shared.log → a = b := by
  refine ⟨fun _ _ _ _ _ _ _ h => (served_of_trace h).entered_iff, fun P Q hP hQ p q request answer a b ha hb => ?_⟩
  rw [decided_of_reach hP p request answer a ha, decided_of_reach hQ q request answer b hb]

namespace Endpoint

/-- A producer with an auth callable. -/
def protecting : Broker where
  codec :=
    { loads := fun _ => none, decode := fun _ => none, unserialize := fun _ => none, dumps := fun _ => .ok [] }

/-- A session of the user `7`. -/
def session : Json := .obj [("user_id", .int 7)]

/-- The task `p` serves a request on which the auth callable answers so, up to the decision. -/
def serves (p : ℕ) (answer : Json) : List (Act (producer protecting)) :=
  [.call p (.serve {}), .exec p { session := .ok answer }, .exec p {}]

end Endpoint

open Endpoint in
/-- A request is authorised by its session, also after one that was refused. -/
theorem authorization_iff_witness : ∃ P Q : Pool (producer protecting),
    (0, .decided {} (.ok session) true) ∈ P.shared.log ∧ (1, .decided {} (.ok session) true) ∈ Q.shared.log ∧
      ∀ b, (1, .decided {} (.ok session) b) ∈ Q.shared.log → true = b := by
  have alone : ∃ P ∈ protecting.idle.runIf (fun _ _ c _ σ => Fresh c σ) (serves 0 session),
      P.shared.log = [(0, .decided {} (.ok session) true)] := ⟨_, rfl, rfl⟩
  have later : ∃ P ∈ protecting.idle.runIf (fun _ _ c _ σ => Fresh c σ) (serves 0 .null ++ serves 1 session),
      P.shared.log = [(1, .decided {} (.ok session) true), (0, .decided {} (.ok .null) false)] := ⟨_, rfl, rfl⟩
  obtain ⟨P, hP, log⟩ := alone
  obtain ⟨Q, hQ, log'⟩ := later
  have first : (0, .decided {} (.ok session) true) ∈ P.shared.log := log ▸ List.mem_cons_self ..
  refine ⟨P, Q, first, log' ▸ List.mem_cons_self .., fun b hb => ?_⟩
  exact (authorization_iff protecting).2 P Q (.of_runIf hP) (.of_runIf hQ) _ _ _ _ _ _ first hb

open Endpoint in
/-- A request whose session is empty is refused, and authorised when another user was before. -/
theorem request_inherits : ¬ ∀ (broker : Broker) (P Q : Pool (producer broker)),
    Pool.Reach (Pool.Meets fun _ _ _ _ _ => True) broker.idle P →
      Pool.Reach (Pool.Meets fun _ _ _ _ _ => True) broker.idle Q →
        ∀ (p q : ℕ) (request : Request) (answer : Outcome Json) (a b : Bool),
          (p, .decided request answer a) ∈ P.shared.log → (q, .decided request answer b) ∈ Q.shared.log → a = b := by
  intro h
  have alone : ∃ P ∈ protecting.idle.runIf (fun _ _ _ _ _ => True) (serves 0 .null),
      P.shared.log = [(0, .decided {} (.ok .null) false)] := ⟨_, rfl, rfl⟩
  have later : ∃ P ∈ protecting.idle.runIf (fun _ _ _ _ _ => True) (serves 0 session ++ serves 1 .null),
      P.shared.log = [(1, .decided {} (.ok .null) true), (0, .decided {} (.ok session) true)] := ⟨_, rfl, rfl⟩
  obtain ⟨P, hP, log⟩ := alone
  obtain ⟨Q, hQ, log'⟩ := later
  have same := h protecting P Q (.of_runIf hP) (.of_runIf hQ) 0 1 {} (.ok .null) false true
    (log ▸ List.mem_cons_self ..) (log' ▸ List.mem_cons_self ..)
  cases same

end NavigatorEventbus.Brokers
