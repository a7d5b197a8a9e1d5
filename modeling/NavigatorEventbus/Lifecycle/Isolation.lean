import NavigatorEventbus.Lifecycle.Registry

/-!
# Isolation of the subscribers

Which failures an `emit` contains.  It serves all matching subscribers and forwards the event exactly when no
predicate raises, the event can be serialised wherever no serializer stands in for it, and a failed subscriber
can be reported (`emit_isolated_iff`); whatever a callback or a serializer raises besides is contained.
-/

namespace NavigatorEventbus.Lifecycle

open Interleave

open Bus (Exc Outcome)

/-- The event is an instance of the subscription's class and its predicate holds. -/
def Subscription.Matches (sub : Subscription) (event : Event) : Prop :=
  event.cls.IsSubclass sub.eventType ∧
    match sub.holds event with
    | .ok holds => holds = true
    | .error _ => False

instance (sub : Subscription) (event : Event) : Decidable (sub.Matches event) := by
  unfold Subscription.Matches
  split <;> infer_instance

/-- The subscribers whose callback was called, in the order of the calls. -/
def called (t : List (Issued machine)) : List Subscription :=
  t.filterMap fun s =>
    match s.cmd with
    | .callback sub _ => some sub
    | _ => none

@[simp] theorem called_append (t t' : List (Issued machine)) : called (t ++ t') = called t ++ called t' :=
  List.filterMap_append

/-- An `emit` that executed `t` returned, called the subscribers that match when it began, in their order and
each once, and forwarded the event to the global registry. -/
structure Isolated (event : Event) (t : List (Issued machine)) (r : Outcome Unit) : Prop where
  returned : r = .ok ()
  served : ∃ s ∈ t, s.cmd = .subscriptions ∧
    called t = dispatchOrder event (s.before.subscriptions.filter fun sub => sub.Matches event)
  forwarded : ∃ s ∈ t, s.cmd = .forward event

/-- A call that raises raises an ordinary exception. -/
def Ordinarily {α : Type} : Outcome α → Prop
  | .ok _ => True
  | .error exc => exc.isException = true

instance {α : Type} (r : Outcome α) : Decidable (Ordinarily r) := by
  cases r <;> unfold Ordinarily <;> infer_instance

/-- Callbacks and serializers raise ordinary exceptions only. -/
def Ordinary (s : Issued machine) : Prop :=
  match s.cmd with
  | .callback _ _ => Ordinarily s.input.callback
  | .dualEmit sub event => ∀ serializer ∈ s.before.serializer sub, Ordinarily (serializer event)
  | _ => True

instance (s : Issued machine) : Decidable (Ordinary s) := by
  unfold Ordinary
  split <;> infer_instance

/-- Nothing fails that `emit` does not contain: a predicate, the `repr` of a failed callback or the text of
its exception, the serialisation of an event for the bus without a serializer. -/
def Contained (s : Issued machine) : Prop :=
  match s.cmd with
  | .predicate sub event => (sub.holds event).isOk = true
  | .report _ sub exc => sub.repr.isOk = true ∧ exc.text ≠ none
  | .dualEmit sub event => sub.forwardToBus = true → s.before.eventBus = true → s.before.serializer sub = none →
      event.toDict.isOk = true
  | _ => True

instance (s : Issued machine) : Decidable (Contained s) := by
  unfold Contained
  split <;> infer_instance

section Emit

variable {event : Event} {subs : List Subscription} {p : ℕ} {E : State → State → Prop} {σ σ' : State}
  {t : List (Issued machine)}

theorem returns_matching (event : Event) (subs : List Subscription) : (matching event subs).Returns := by
  induction subs with
  | nil => trivial
  | cons sub rest ih =>
    rw [matching]
    split_ifs
    · refine .cmd_bind fun r => ?_
      cases r with
      | error exc => trivial
      | ok holds => exact ih.bind fun r => by cases r <;> trivial
    · exact ih

theorem returns_serve (event : Event) (subs : List Subscription) : (serve event subs).Returns := by
  induction subs with
  | nil => trivial
  | cons sub rest ih =>
    refine .cmd_bind fun r => .bind ?_ fun r => ?_
    · cases r with
      | ok => trivial
      | error exc =>
        rw [contain]
        split_ifs
        · exact fun _ _ => trivial
        · trivial
    · cases r with
      | error exc => trivial
      | ok =>
        refine .cmd_bind fun r => ?_
        cases r with
        | error exc => trivial
        | ok => exact ih

theorem returns_emit (event : Event) : (emit event).Returns := by
  refine .cmd_bind fun subscriptions => (returns_matching _ _).bind fun r => ?_
  cases r with
  | error exc => trivial
  | ok matched =>
    refine (returns_serve _ _).bind fun r => ?_
    cases r with
    | error exc => trivial
    | ok => exact .cmd_bind fun _ => trivial

/-- Matching fails exactly when a predicate raises, and otherwise finds what matches. -/
theorem matching_spec {r : Outcome (List Subscription)}
    (h : Trace machine p E (matching event subs) σ t (.pure r) σ') :
    (r.isOk = true ↔ ∀ s ∈ t, Contained s) ∧ called t = [] ∧
      ∀ matched, r = .ok matched → matched = subs.filter fun sub => sub.Matches event := by
  induction subs generalizing σ σ' t r with
  | nil =>
    obtain ⟨rfl, hr⟩ := h.pure_inv
    cases hr
    refine ⟨by simp [Except.isOk, Except.toBool], rfl, ?_⟩
    rintro _ ⟨rfl⟩
    rfl
  | cons sub rest ih =>
    rw [matching] at h
    split_ifs at h with instance_
    · obtain ⟨i, σ₁, t', rfl, h'⟩ := h.op_pure_inv
      cases holds : sub.holds event with
      | error exc =>
        simp only [State.exec, holds] at h'
        obtain ⟨rfl, hr⟩ := h'.pure_inv
        cases hr
        refine ⟨⟨nofun, fun contained => ?_⟩, rfl, nofun⟩
        have first := contained _ (List.mem_cons_self ..)
        simp [Contained, holds, Except.isOk, Except.toBool] at first
      | ok b =>
        simp only [State.exec, holds, Prog.bind] at h'
        obtain ⟨t₁, t₂, r₁, σ₂, rfl, h₁, h₂⟩ := h'.bind_pure_inv
        obtain ⟨ok, calls, found⟩ := ih h₁
        have contained : Contained (⟨.predicate sub event, i, σ₁⟩ : Issued machine) := by
          simp [Contained, holds, Except.isOk, Except.toBool]
        cases r₁ with
        | error exc =>
          obtain ⟨rfl, hr⟩ := h₂.pure_inv
          cases hr
          refine ⟨?_, by simpa [called] using calls, nofun⟩
          simpa [contained] using ok
        | ok matched =>
          obtain ⟨rfl, hr⟩ := h₂.pure_inv
          cases hr
          refine ⟨?_, by simpa [called] using calls, ?_⟩
          · simpa [contained, Except.isOk, Except.toBool] using ok
          · rintro _ ⟨rfl⟩
            rw [found matched rfl]
            cases b <;> simp [Subscription.Matches, instance_, holds]
    · obtain ⟨ok, calls, found⟩ := ih h
      refine ⟨ok, calls, fun matched hr => ?_⟩
      rw [found matched hr]
      simp [Subscription.Matches, instance_]

/-- The handler around a callback fails exactly when the failure cannot be reported. -/
theorem contain_spec {sub : Subscription} {r₀ r : Outcome Unit}
    (ordinary : Ordinarily r₀) (h : Trace machine p E (contain event sub r₀) σ t (.pure r) σ') :
    (r.isOk = true ↔ ∀ s ∈ t, Contained s) ∧ called t = [] := by
  cases r₀ with
  | ok =>
    obtain ⟨rfl, hr⟩ := h.pure_inv
    cases hr
    exact ⟨by simp [Except.isOk, Except.toBool], rfl⟩
  | error exc =>
    rw [contain, if_pos (show exc.isException = true from ordinary)] at h
    obtain ⟨i, σ₁, t', rfl, h'⟩ := h.op_pure_inv
    obtain ⟨rfl, hr⟩ := h'.pure_inv
    cases hr
    refine ⟨?_, rfl⟩
    cases hrepr : sub.repr <;> cases htext : exc.text <;>
      simp [Contained, State.exec, State.report, hrepr, htext, Except.isOk, Except.toBool]

/-- The publish for a subscriber fails exactly when the event cannot be serialised. -/
theorem dualEmit_spec {sub : Subscription} {i : Input}
    (ordinary : Ordinary (⟨.dualEmit sub event, i, σ⟩ : Issued machine)) :
    (σ.dualEmit sub event).1.isOk = true ↔ Contained (⟨.dualEmit sub event, i, σ⟩ : Issued machine) := by
  unfold State.dualEmit State.busPayload Contained
  split_ifs with bus
  · obtain ⟨forwards, attached⟩ := bus
    cases hs : σ.serializer sub with
    | none => cases hd : event.toDict <;> simp [forwards, attached, hs, hd, Except.map, Except.isOk, Except.toBool]
    | some serializer =>
      cases hr : serializer event with
      | ok payload => cases payload <;> simp [hs, hr, Except.isOk, Except.toBool]
      | error exc =>
        have caught := ordinary serializer hs
        rw [hr] at caught
        simp [hs, hr, show exc.isException = true from caught, Except.isOk, Except.toBool]
  · simp only [Except.isOk, Except.toBool, true_iff]
    exact fun forwards attached => absurd ⟨forwards, attached⟩ bus

/-- Serving fails exactly when a failure is not contained, and otherwise calls every subscriber. -/
theorem serve_spec {r : Outcome Unit} (ordinary : ∀ s ∈ t, Ordinary s)
    (h : Trace machine p E (serve event subs) σ t (.pure r) σ') :
    (r.isOk = true ↔ ∀ s ∈ t, Contained s) ∧ (r.isOk = true → called t = subs) := by
  induction subs generalizing σ σ' t r with
  | nil =>
    obtain ⟨rfl, hr⟩ := h.pure_inv
    cases hr
    exact ⟨by simp [Except.isOk, Except.toBool], fun _ => rfl⟩
  | cons sub rest ih =>
    obtain ⟨i, σ₁, t', rfl, h'⟩ := h.op_pure_inv
    simp only [State.exec, Prog.bind] at h'
    obtain ⟨t₁, t₂, r₁, σ₂, rfl, h₁, h₂⟩ := h'.bind_pure_inv
    have callback : Contained (⟨.callback sub event, i, σ₁⟩ : Issued machine) := trivial
    obtain ⟨ok₁, calls₁⟩ := contain_spec (ordinary _ (List.mem_cons_self ..)) h₁
    cases r₁ with
    | error exc =>
      obtain ⟨rfl, hr⟩ := h₂.pure_inv
      cases hr
      refine ⟨?_, nofun⟩
      simpa [callback] using ok₁
    | ok =>
      have contained₁ := ok₁.1 rfl
      obtain ⟨j, σ₃, t₃, rfl, h₃⟩ := h₂.op_pure_inv
      have emits := dualEmit_spec (ordinary ⟨.dualEmit sub event, j, σ₃⟩ (by simp))
      simp only [State.exec] at h₃
      cases hr : (σ₃.dualEmit sub event).1 with
      | error exc =>
        rw [hr] at emits
        simp only [hr, Prog.bind] at h₃
        obtain ⟨rfl, hr⟩ := h₃.pure_inv
        cases hr
        refine ⟨⟨nofun, fun contained => ?_⟩, nofun⟩
        exact emits.2 (contained _ (by simp))
      | ok =>
        rw [hr] at emits
        simp only [hr, Prog.bind] at h₃
        obtain ⟨ok₃, calls₃⟩ := ih (fun s hs => ordinary s (by simp [hs])) h₃
        refine ⟨?_, fun ok => ?_⟩
        · rw [ok₃]
          have emitted := emits.1 rfl
          simp only [List.mem_cons, List.mem_append, forall_eq_or_imp, callback, true_and]
          constructor
          · rintro contained₃ s (hs | rfl | hs)
            · exact contained₁ s hs
            · exact emitted
            · exact contained₃ s hs
          · exact fun contained s hs => contained s (.inr (.inr hs))
        · have rest_called := calls₃ ok
          simp only [called, List.filterMap_cons, List.filterMap_append] at calls₁ rest_called ⊢
          rw [calls₁, rest_called]
          rfl

/-- An `emit` fails exactly when a failure is not contained. -/
theorem emit_spec {r : Outcome Unit} (ordinary : ∀ s ∈ t, Ordinary s)
    (h : Trace machine p E (emit event) σ t (.pure r) σ') :
    (r.isOk = true ↔ ∀ s ∈ t, Contained s) ∧ (r.isOk = true → Isolated event t r) := by
  obtain ⟨i, σ₁, t', rfl, h'⟩ := h.op_pure_inv
  simp only [State.exec, Prog.bind] at h'
  obtain ⟨t₁, t₂, r₁, σ₂, rfl, h₁, h₂⟩ := h'.bind_pure_inv
  have snapshot : Contained (⟨.subscriptions, i, σ₁⟩ : Issued machine) := trivial
  obtain ⟨ok₁, calls₁, found⟩ := matching_spec h₁
  cases r₁ with
  | error exc =>
    obtain ⟨rfl, hr⟩ := h₂.pure_inv
    cases hr
    refine ⟨?_, nofun⟩
    simpa [snapshot, Except.isOk, Except.toBool] using ok₁
  | ok matched =>
    have contained₁ := ok₁.1 rfl
    obtain ⟨t₃, t₄, r₃, σ₃, rfl, h₃, h₄⟩ := h₂.bind_pure_inv
    obtain ⟨ok₃, calls₃⟩ := serve_spec (fun s hs => ordinary s (by simp [hs])) h₃
    cases r₃ with
    | error exc =>
      obtain ⟨rfl, hr⟩ := h₄.pure_inv
      cases hr
      refine ⟨⟨nofun, fun contained => ?_⟩, nofun⟩
      exact ok₃.2 fun s hs => contained s (by simp [hs])
    | ok =>
      obtain ⟨j, σ₄, t₅, rfl, h₅⟩ := h₄.op_pure_inv
      obtain ⟨rfl, hr⟩ := h₅.pure_inv
      cases hr
      have contained₃ := ok₃.1 rfl
      refine ⟨⟨fun _ s hs => ?_, fun _ => rfl⟩, fun _ =>
        ⟨rfl, ⟨_, List.mem_cons_self .., rfl, ?_⟩, ⟨.forward event, j, σ₄⟩, ?_, rfl⟩⟩
      · simp only [List.mem_cons, List.mem_append, List.not_mem_nil, or_false] at hs
        rcases hs with rfl | hs | hs | rfl
        · trivial
        · exact contained₁ s hs
        · exact contained₃ s hs
        · trivial
      · have served := calls₃ rfl
        rw [found matched rfl] at served
        simp only [called, List.filterMap_cons, List.filterMap_append, List.filterMap_nil] at calls₁ served ⊢
        rw [calls₁, served, List.nil_append, List.append_nil]
      · exact List.mem_cons_of_mem _ (List.mem_append_right _ (List.mem_append_right _ (List.mem_cons_self ..)))

end Emit

/-- Every `emit` comes to its end.  It is isolated from the failures of subscribers, predicates and
serialisation exactly when each of its steps contains them. -/
theorem emit_isolated_iff (event : Event) :
    (emit event).Returns ∧
    ∀ (p : ℕ) (E : State → State → Prop) (σ σ' : State) (t : List (Issued machine)) (r : Outcome Unit),
      Trace machine p E (emit event) σ t (.pure r) σ' → (∀ s ∈ t, Ordinary s) →
        (Isolated event t r ↔ ∀ s ∈ t, Contained s) := by
  refine ⟨returns_emit event, fun p E σ σ' t r h ordinary => ?_⟩
  obtain ⟨ok, isolated⟩ := emit_spec ordinary h
  constructor
  · intro h
    exact ok.1 (by rw [h.returned]; rfl)
  · exact fun contained => isolated (ok.2 contained)

namespace Scenario

/-- A class of events that all its events are direct instances of. -/
def eventClass : EventClass where
  number := 1
  name := "BeforeInvokeEvent".toList
  mro := [1, 0]
  number_mem := by decide

/-- An event with a field that is not serializable. -/
def event : Event where
  cls := eventClass
  fields := [("trace_context", .trace { traceId := [], spanId := [] }), ("connection", .object "socket")]

def failure : Exc := .exception "ValueError" (some "no")

/-- A subscriber with this predicate and serializer. -/
def sub (n : ℕ) (predicate : Option (Event → Outcome Bool)) (busSerializer : Option BusSerializer) :
    Subscription where
  subscriptionId := n
  eventType := eventClass
  repr := .ok "f"
  predicate := predicate
  forwardToBus := true
  order := n
  busSerializer := busSerializer

/-- A registry with a bus and these subscribers. -/
def state (subscriptions : List Subscription) : State where
  subscriptions := subscriptions
  eventBus := true
  globalTypes := [eventClass]

end Scenario

open Scenario in
/-- The callback and the serializer of the first subscriber raise, and the second one is served. -/
theorem emit_isolated_iff_witness : ∃ σ σ' t r, Trace machine 0 (fun _ _ => False) (emit event) σ t (.pure r) σ' ∧
    (called t).map Subscription.subscriptionId = [0, 1] ∧ Isolated event t r := by
  let σ := state [sub 0 none (some fun _ => .error failure), sub 1 none (some fun _ => .ok none)]
  let inputs : List Input := [{}, {}, {}, { callback := .error failure }, {}, {}, {}, {}, {}]
  have run := Trace.of_follow (M := machine) (p := 0) (E := fun _ _ => False) (emit event) σ inputs
  have ordinary : ∀ s ∈ (Prog.follow machine 0 inputs (emit event) σ).1, Ordinary s := by decide
  have contained : ∀ s ∈ (Prog.follow machine 0 inputs (emit event) σ).1, Contained s := by decide
  exact ⟨σ, _, _, _, run, by decide, ((emit_isolated_iff event).2 _ _ _ _ _ _ run ordinary).2 contained⟩

open Scenario in
/-- The predicate of one subscriber raises, and `emit` raises without having served another. -/
theorem predicate_raises : ¬ ∀ (event : Event) (p : ℕ) (E : State → State → Prop) (σ σ' : State)
    (t : List (Issued machine)) (r : Outcome Unit), Trace machine p E (emit event) σ t (.pure r) σ' →
      (∀ s ∈ t, Ordinary s) → Isolated event t r := by
  intro h
  let σ := state [sub 0 (some fun _ => .error failure) none, sub 1 none none]
  let inputs : List Input := [{}, {}]
  have run := Trace.of_follow (M := machine) (p := 0) (E := fun _ _ => False) (emit event) σ inputs
  have ordinary : ∀ s ∈ (Prog.follow machine 0 inputs (emit event) σ).1, Ordinary s := by decide
  cases (h event _ _ _ _ _ _ run ordinary).returned

end NavigatorEventbus.Lifecycle
