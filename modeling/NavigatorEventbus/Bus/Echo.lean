import NavigatorEventbus.Bus.Steps
import NavigatorEventbus.Lib.BoundedMemory

/-!
# Echoes of the transport

A bus remembers the ids that it fanned out and drops the envelopes that come back from the transport with
one of them.  The first echo makes it forget the id, and an id that is fanned out again keeps the place of
its first fan-out among those to be displaced.  So an echo gets through when it is not the first since the
most recent fan-out, or when its id was displaced since then; that is also the only way
(`mem_memory_iff`), and a run in which it does not come to that dispatches no recent echo
(`echoes_suppressed`).
-/

namespace NavigatorEventbus.Bus

open Interleave BoundedMemory

/-- A fan-out. -/
def Event.isFanOut : Event → Bool
  | .fannedOut _ => true
  | _ => false

/-- The event was fanned out, with fewer than `_FANOUT_ECHO_CAP` fan-outs since the last time. -/
def Recent (eventId : String) (h : History Event) : Prop :=
  (∃ p, (p, .fannedOut eventId) ∈ h) ∧
    (h.after (.fannedOut eventId)).countP Event.isFanOut < fanoutEchoCap

/-- An event that arrives from the transport and is dispatched is no recent fan-out. -/
def Suppressed : ℕ → Event → History Event → Prop
  | _, .arrived eventId true, before => ¬ Recent eventId before
  | _, _, _ => True

/-- The memory that a history of fan-outs and echoes leaves. -/
def memory : History Event → List String
  | [] => []
  | (_, .fannedOut eventId) :: h => remember fanoutEchoCap (memory h) eventId
  | (_, .arrived eventId _) :: h => forget (memory h) eventId
  | _ :: h => memory h

/-- An echo of the event has arrived since its last fan-out. -/
def Echoed (eventId : String) (h : History Event) : Prop :=
  ∃ dispatched, .arrived eventId dispatched ∈ h.after (.fannedOut eventId)

/-- Since the last fan-out of the event, another one entered the full memory where this was the oldest. -/
def Displaced (eventId : String) : History Event → Prop
  | [] => False
  | (_, .fannedOut other) :: h =>
    other ≠ eventId ∧ (Displaces fanoutEchoCap (memory h) other eventId ∨ Displaced eventId h)
  | _ :: h => Displaced eventId h

/-- An echo that arrives soon after the last fan-out of its event is the first since then, and its event
was not displaced; or the bus closes. -/
def EchoExpected (_p : ℕ) (_o : Call) (c : Cmd) (_i : Input) (σ : State) : Prop :=
  match c with
  | .arrive e =>
    Recent e.eventId σ.log → σ.closing = true ∨ ¬ Echoed e.eventId σ.log ∧ ¬ Displaced e.eventId σ.log
  | _ => True

section Decidable

variable (eventId : String) (h : History Event)

instance : Decidable (Recent eventId h) :=
  decidable_of_iff ((∃ x ∈ h, x.2 = .fannedOut eventId) ∧
    (h.after (.fannedOut eventId)).countP Event.isFanOut < fanoutEchoCap) <| by
    simp only [Recent, Prod.exists, exists_eq_right]

instance : Decidable (Echoed eventId h) :=
  decidable_of_iff (.arrived eventId true ∈ h.after (.fannedOut eventId) ∨
    .arrived eventId false ∈ h.after (.fannedOut eventId)) <| by
    rw [Echoed, Bool.exists_bool, or_comm]

instance decidableDisplaced : (h : History Event) → Decidable (Displaced eventId h)
  | [] => .isFalse id
  | (_, .fannedOut _) :: h =>
    have := decidableDisplaced h
    inferInstanceAs (Decidable (_ ∧ (_ ∨ _)))
  | (_, .appending _ _) :: h | (_, .stored _ _) :: h | (_, .purged _) :: h | (_, .published _) :: h
  | (_, .arrived _ _) :: h | (_, .put _) :: h | (_, .taken _) :: h | (_, .replaced _) :: h
  | (_, .counted _) :: h | (_, .closed) :: h => decidableDisplaced h

instance (p : ℕ) (o : Call) (c : Cmd) (i : Input) (σ : State) : Decidable (EchoExpected p o c i σ) := by
  apply c.casesOn (motive := fun c => Decidable (EchoExpected p o c i σ)) <;> intros <;>
    dsimp only [EchoExpected] <;> infer_instance

end Decidable

/-! ## The memory -/

section Memory

variable {p : ℕ} {event : Event} {eventId : String} {h : History Event}

/-- The memory holds at most `_FANOUT_ECHO_CAP` ids, each once. -/
theorem memory_bounded : (memory h).length ≤ fanoutEchoCap ∧ (memory h).Nodup := by
  induction h with
  | nil => exact ⟨Nat.zero_le _, List.nodup_nil⟩
  | cons x h ih =>
    obtain ⟨p, event⟩ := x
    cases event with
    | fannedOut eventId => exact ⟨length_remember_le _ _, nodup_remember ih.2 _⟩
    | arrived eventId dispatched => exact ⟨(List.length_filter_le ..).trans ih.1, ih.2.filter _⟩
    | _ => exact ih

theorem not_echoed_fannedOut : ¬ Echoed eventId ((p, .fannedOut eventId) :: h) := by
  simp [Echoed]

theorem echoed_cons (ne : event ≠ .fannedOut eventId) :
    Echoed eventId ((p, event) :: h) ↔ (∃ dispatched, event = .arrived eventId dispatched) ∨ Echoed eventId h := by
  simp only [Echoed, History.after_cons_of_ne ne, List.mem_cons, exists_or, eq_comm]

theorem fannedOut_cons (ne : event ≠ .fannedOut eventId) :
    (∃ q, (q, .fannedOut eventId) ∈ (p, event) :: h) ↔ ∃ q, (q, .fannedOut eventId) ∈ h := by
  simp [Ne.symm ne]

/-- Exactly the ids of the fan-outs whose echo has not arrived since, and which were not displaced since,
are in the memory. -/
theorem mem_memory_iff :
    eventId ∈ memory h ↔
      (∃ p, (p, .fannedOut eventId) ∈ h) ∧ ¬ Echoed eventId h ∧ ¬ Displaced eventId h := by
  induction h with
  | nil => simp [memory]
  | cons x h ih =>
    obtain ⟨p, event⟩ := x
    by_cases self : event = .fannedOut eventId
    · subst self
      have remembered : eventId ∈ remember fanoutEchoCap (memory h) eventId :=
        mem_remember_self (by decide) memory_bounded.1 eventId
      have kept : ¬ Displaced eventId ((p, .fannedOut eventId) :: h) := fun displaced => displaced.1 rfl
      exact iff_of_true remembered ⟨⟨p, List.mem_cons_self ..⟩, not_echoed_fannedOut, kept⟩
    · rw [fannedOut_cons self, echoed_cons self]
      cases event with
      | fannedOut other =>
        have ne : eventId ≠ other := fun same => self (by rw [same])
        have fan : ¬ ∃ d, Event.fannedOut other = .arrived eventId d := by simp
        simp only [memory, mem_remember_iff memory_bounded.2 memory_bounded.1 ne, ih, Displaced, fan]
        have := ne.symm
        tauto
      | arrived other dispatched =>
        have echo : (∃ d, Event.arrived other dispatched = .arrived eventId d) ↔ eventId = other := by
          simp [eq_comm]
        simp only [memory, mem_forget_iff, ih, Displaced, echo]
        tauto
      | _ => simp [memory, ih, Displaced]

end Memory

/-! ## The steps -/

section Steps

variable {core : BusCore} {σ σ' : State} {p call ticket : ℕ} {e : Envelope} {inMeta : Bool} {i : Input}

/-- What the bus remembers is what its history of fan-outs and echoes leaves, and no recent fan-out was
dispatched when it came back. -/
structure Remembers (σ : State) : Prop where
  fannedOut : σ.fannedOut = memory σ.log
  suppressed : σ.log.Each Suppressed

/-- Events that are neither fan-outs nor echoes leave the memory as it is. -/
theorem Remembers.extends {D : Event → Prop} (h : Remembers σ) (same : σ'.fannedOut = σ.fannedOut)
    (ext : History.Extends p D σ.log σ'.log) (fan : ∀ eventId, ¬ D (.fannedOut eventId))
    (echo : ∀ eventId dispatched, ¬ D (.arrived eventId dispatched)) : Remembers σ' := by
  have kept : memory σ'.log = memory σ.log ∧ σ'.log.Each Suppressed := by
    refine ext.induct (J := fun l => memory l = memory σ.log ∧ l.Each Suppressed) ⟨rfl, h.suppressed⟩ ?_
    intro event l hD ⟨eq, each⟩
    cases event with
    | fannedOut eventId => exact absurd hD (fan eventId)
    | arrived eventId dispatched => exact absurd hD (echo eventId dispatched)
    | _ => exact ⟨eq, each.cons trivial⟩
  exact ⟨same.trans (h.fannedOut.trans kept.1.symm), kept.2⟩

theorem Remembers.of_eq (h : Remembers σ) (ids : σ'.fannedOut = σ.fannedOut) (log : σ'.log = σ.log) :
    Remembers σ' :=
  ⟨by rw [ids, log, h.fannedOut], by rw [log]; exact h.suppressed⟩

theorem Remembers.rememberFanout (h : Remembers σ) (p : ℕ) (eventId : String) :
    Remembers (σ.rememberFanout p eventId) := by
  have log : (σ.rememberFanout p eventId).log = (p, .fannedOut eventId) :: σ.log := by
    rw [State.rememberFanout]
  have ids : (σ.rememberFanout p eventId).fannedOut = remember fanoutEchoCap σ.fannedOut eventId := by
    simp only [State.rememberFanout, remember]
  refine ⟨?_, ?_⟩
  · rw [ids, log, h.fannedOut, memory]
  · rw [log]
    exact h.suppressed.cons trivial

theorem Remembers.enqueueLocal (h : Remembers σ) : Remembers (σ.enqueueLocal core p call e inMeta i).2 :=
  h.extends (congrArg Outbound.fannedOut State.outbound_enqueueLocal) State.extends_enqueueLocal (by simp) (by simp)

theorem fannedOut_perform : (σ.perform core p i ticket).2.fannedOut = σ.fannedOut := by
  rw [State.perform]
  split <;> rfl

theorem Remembers.perform (h : Remembers σ) : Remembers (σ.perform core p i ticket).2 :=
  h.extends fannedOut_perform State.extends_perform (by simp) (by simp)

theorem fannedOut_submit (job : Job) : (σ.submit job).2.fannedOut = σ.fannedOut := by
  rw [State.submit]
  split_ifs <;> rfl

theorem Remembers.fanOut (h : Remembers σ) : Remembers (σ.fanOut p e) := by
  refine (h.rememberFanout p e.eventId).of_eq ?_ ?_
  · rw [State.fanOut]
  · rw [State.fanOut]

theorem Remembers.publish (h : Remembers σ) : Remembers (σ.publish core p e inMeta i).2 := by
  refine State.publish_cases (fun _ => h) (fun _ _ _ => ?_) (fun stats σ' _ _ hσ' => ?_)
  · exact ⟨h.fannedOut, h.suppressed.cons trivial⟩
  · have same : Remembers σ' := h.of_eq (by rw [hσ']) (by rw [hσ'])
    apply Remembers.enqueueLocal
    split_ifs
    · exact same.fanOut
    · exact same

theorem Remembers.appended (h : Remembers σ) : Remembers (σ.appended core p ticket call e inMeta i).2 := by
  have performed : Remembers (σ.perform core p i ticket).2 := h.perform
  refine State.appended_cases (fun _ => h.of_eq rfl rfl) (fun _ _ _ => performed.of_eq rfl rfl) (fun σ' _ _ hσ' => ?_)
    (fun stats σ' _ _ _ hσ' => ?_)
  · have same : Remembers σ' := performed.of_eq (by rw [hσ']) (by rw [hσ'])
    exact same.fanOut.enqueueLocal
  · have same : Remembers σ' := performed.of_eq (by rw [hσ']) (by rw [hσ'])
    exact same.fanOut.enqueueLocal

theorem Remembers.relayPick (h : Remembers σ) : Remembers (σ.relayPick p e).2 := by
  rw [State.relayPick]
  split_ifs
  · exact h
  · have same : Remembers { σ with outboxInflight := σ.outboxInflight.insert e.eventId } := h.of_eq rfl rfl
    have remembered := same.rememberFanout p e.eventId
    dsimp only
    generalize State.rememberFanout _ p e.eventId = τ at remembered ⊢
    exact remembered.of_eq rfl rfl

/-- An echo is dropped as long as its event was fanned out, was not echoed since and was not displaced. -/
theorem Remembers.mem_fannedOut (h : Remembers σ) {eventId : String} :
    eventId ∈ σ.fannedOut ↔ (∃ p, (p, .fannedOut eventId) ∈ σ.log) ∧ ¬ Echoed eventId σ.log ∧
      ¬ Displaced eventId σ.log := by
  rw [h.fannedOut, mem_memory_iff]

theorem Remembers.arrive (h : Remembers σ)
    (expected : Recent e.eventId σ.log → σ.closing = true ∨ ¬ Echoed e.eventId σ.log ∧ ¬ Displaced e.eventId σ.log) :
    Remembers (σ.arrive p e).2 := by
  rw [State.arrive]
  split_ifs with mem closing
  · refine ⟨?_, h.suppressed.cons trivial⟩
    simp only [State.record, memory, ← h.fannedOut, forget]
  · refine ⟨?_, h.suppressed.cons trivial⟩
    simp only [State.record, memory, ← h.fannedOut, forget_of_notMem mem]
  · refine ⟨?_, h.suppressed.cons fun recent => ?_⟩
    · simp only [State.record, memory, ← h.fannedOut, forget_of_notMem mem]
    · rcases expected recent with closed | first
      · exact closing closed
      · exact mem (h.mem_fannedOut.2 ⟨recent.1, first⟩)

theorem fannedOut_exec {c : Cmd} (hc : c.Local) : (σ.exec core p c i).2.fannedOut = σ.fannedOut :=
  congrArg Outbound.fannedOut (State.outbound_exec hc)

/-- Every command keeps what the bus remembers, as long as the echoes are expected. -/
theorem Remembers.exec (h : Remembers σ) {o : Call} {c : Cmd} (expected : EchoExpected p o c i σ) :
    Remembers (σ.exec core p c i).2 := by
  have kept : (σ.exec core p c i).2.fannedOut = σ.fannedOut →
      (∀ eventId, ¬ c.Records (.fannedOut eventId)) →
      (∀ eventId dispatched, ¬ c.Records (.arrived eventId dispatched)) → Remembers (σ.exec core p c i).2 :=
    fun same => h.extends same (State.extends_exec c)
  cases c with
  | publish e inMeta => exact h.publish
  | appended ticket call e inMeta => exact h.appended
  | relayPick e => exact h.relayPick
  | arrive e => exact h.arrive expected
  | bootPublish =>
    refine kept ?_ (by simp [Cmd.Records]) (by simp [Cmd.Records])
    simp only [State.exec, State.bootPublish]
    split <;> rfl
  | backendPublished e timed =>
    refine kept ?_ (by simp [Cmd.Records]) (by simp [Cmd.Records])
    simp only [State.exec]
    exact State.backendPublished_cases (fun _ => rfl) (fun _ => rfl) (fun _ _ _ => rfl) (fun _ _ => rfl)
      (fun _ _ _ _ _ _ => rfl) fun _ => rfl
  | settled ticket e confirmed timed =>
    refine kept ?_ (by simp [Cmd.Records]) (by simp [Cmd.Records])
    simp only [State.exec]
    exact State.settled_cases rfl fun _ _ _ => fannedOut_perform
  | relayRows ticket timed =>
    refine kept ?_ (by simp [Cmd.Records]) (by simp [Cmd.Records])
    simp only [State.exec]
    exact State.relayRows_cases rfl (fun _ => fannedOut_perform) fun _ _ _ => fannedOut_perform
  | relayRefreshed ticket timed =>
    refine kept ?_ (by simp [Cmd.Records]) (by simp [Cmd.Records])
    simp only [State.exec]
    exact State.relayRefreshed_cases rfl fun _ _ _ => fannedOut_perform
  | outboxClosed ticket =>
    refine kept ?_ (by simp [Cmd.Records]) (by simp [Cmd.Records])
    simp only [State.exec, State.outboxClosed]
    split_ifs
    · rfl
    · exact fannedOut_perform
  | relayDue | relayStats | closeOutbox =>
    exact kept (fannedOut_submit _) (by simp [Cmd.Records]) (by simp [Cmd.Records])
  | _ => exact kept (fannedOut_exec trivial) (by simp [Cmd.Records]) (by simp [Cmd.Records])

theorem Remembers.note (h : Remembers σ) (o : Call) (r : Result) : Remembers (σ.note p o r) :=
  h.of_eq (congrArg Outbound.fannedOut (State.outbound_note o r)) (State.log_note o r)

theorem fannedOut_disturb (d : Disturbance) : (σ.disturb core d).fannedOut = σ.fannedOut := by
  have kept : (∀ n, d ≠ .cancelSpawned n) → (∀ i, d ≠ .thread i) → (σ.disturb core d).fannedOut = σ.fannedOut :=
    fun spawned thread => congrArg Outbound.fannedOut (State.outbound_disturb spawned thread).1
  cases d with
  | thread i =>
    simp only [State.disturb, State.thread]
    split
    · split_ifs
      · exact fannedOut_perform
      · rfl
    · rfl
  | cancelSpawned n => rfl
  | _ => exact kept (by simp) (by simp)

theorem Remembers.disturb (h : Remembers σ) (d : Disturbance) : Remembers (σ.disturb core d) :=
  h.extends (fannedOut_disturb d) (State.extends_disturb d) (by simp) (by simp)

end Steps

/-! ## Every run -/

/-- In every run of publishes, relay passes, closes and echoes in which each echo that arrives soon after the
last fan-out of its event is expected, no such echo is dispatched. -/
theorem echoes_suppressed {core : BusCore} {store : SqliteOutbox} {P : Pool (bus core)}
    (hr : Pool.Reach (Pool.Meets EchoExpected) (core.new store) P) : P.shared.log.Each Suppressed := by
  have start : Remembers (State.init core store) := ⟨rfl, .nil _⟩
  have remembers : Remembers P.shared :=
    hr.invariant (D := fun _ _ => True) (J := Remembers) (fun _ => .of_forall (fun _ => trivial) _)
      (fun _ expected h => h.exec expected) (fun h => h.note _ _) (fun d h => h.disturb d)
      (fun _ _ _ h => by cases h) start
  exact remembers.suppressed

/-! ## A bus with an outbox -/

namespace Relay

/-- A bus with a transport and an outbox. -/
def core : BusCore :=
  .init 1 16 1 [] .block none true true 5 10 60 false ⟨fun _ => none, fun _ => none⟩

def event : Envelope := .make "a" "shop.orders".toList .null (.str "shop") .info .normal .null epoch

/-- A publish whose fan-out goes through, or fails after the transport has taken the event. -/
def publishing (sent : Outcome Unit) : List (Act (bus core)) :=
  [.call 0 (.publish event false), .exec 0 {}, .exec 0 {}, .ret 0,
    .call 1 .fanOut, .exec 1 {}, .exec 1 ({ backend := sent } : Input), .exec 1 {}, .ret 1]

/-- The start of the bus, with the first pass of its relay. -/
def relaying : List (Act (bus core)) :=
  [.call 2 (.start false), .exec 2 {}, .exec 2 {}, .exec 2 {}, .ret 2,
    .call 3 .relayFirst, .exec 3 {}, .exec 3 ({ now := 10 } : Input), .exec 3 {}, .exec 3 {}, .exec 3 {}, .exec 3 {}]

/-- The event comes back from the transport. -/
def echo : List (Act (bus core)) := [.call 4 (.transport event), .exec 4 {}, .ret 4]

/-- `TimeoutError()`. -/
def timeout : Exc := .exception "TimeoutError" (some "")

end Relay

/-- A fan-out that fails after the transport has taken the event, and an echo, which is dropped. -/
theorem echoes_suppressed_witness :
    ∃ P, Pool.Reach (Pool.Meets EchoExpected) (Relay.core.new { maxAge := 3600 }) P ∧
      (4, .arrived "a" false) ∈ P.shared.log ∧ P.shared.log.Each Suppressed := by
  have run : ∃ P ∈ (Relay.core.new { maxAge := 3600 }).runIf EchoExpected
      (Relay.publishing (.error Relay.timeout) ++ Relay.echo),
      (4, .arrived "a" false) ∈ P.shared.log := by decide +kernel
  obtain ⟨P, hP, arrived⟩ := run
  have reach : Pool.Reach (Pool.Meets EchoExpected) (Relay.core.new { maxAge := 3600 }) P := .of_runIf hP
  exact ⟨P, reach, arrived, echoes_suppressed reach⟩

/-- A fan-out fails after the transport has taken the event, so the relay fans it out again: the first echo
is dropped, the second is dispatched. -/
theorem echo_dispatched :
    ∃ P, Pool.Reach (Pool.Meets Awaits) (Relay.core.new { maxAge := 3600 }) P ∧
      ¬ P.shared.log.Each Suppressed := by
  have run : ∃ P ∈ (Relay.core.new { maxAge := 3600 }).runIf Awaits
      (Relay.publishing (.error Relay.timeout) ++ Relay.relaying ++ Relay.echo ++ Relay.echo.take 2),
      P.shared.log.head? = some (4, .arrived "a" true) ∧ Recent "a" P.shared.log.tail := by decide +kernel
  obtain ⟨P, hP, last, recent⟩ := run
  refine ⟨P, .of_runIf hP, fun each => ?_⟩
  obtain ⟨before, log⟩ : ∃ before, P.shared.log = (4, .arrived "a" true) :: before :=
    ⟨_, List.eq_cons_of_mem_head? (by rw [last]; rfl)⟩
  rw [log] at recent
  exact each [] 4 _ _ log recent

end NavigatorEventbus.Bus
