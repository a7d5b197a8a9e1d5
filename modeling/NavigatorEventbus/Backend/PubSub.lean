import NavigatorEventbus.Bus.Core
import NavigatorEventbus.Lib.Glob

/-!
# The pub/sub backend

`RedisPubSubBackend` (`backends/redis_pubsub.py`) fans events out over Redis pub/sub: fan-out only, at most
once, not persisted.  Any number of instances publish, and any number of consumers listen, each of which may
lose its connection and come back later; what a consumer has not read then is lost.  Nothing is handed to a
consumer twice or out of order, and while a subscription lasts nothing that it hears is left out (`fan_out`).
When a call fails, and how long it takes, is up to the environment.
-/

namespace NavigatorEventbus.PubSub

/-- Default Redis channel prefix. -/
def defaultChannelPrefix : String := "evb:events:"

/-- An instance of the backend. -/
structure RedisPubSubBackend where
  channelPrefix : String := defaultChannelPrefix
  reconnectBaseDelay : ℚ := 1 / 2
  reconnectMaxDelay : ℚ := 30

/-- `channel_prefix or DEFAULT_CHANNEL_PREFIX` -/
def RedisPubSubBackend.ofPrefix (channelPrefix : Option String) : RedisPubSubBackend :=
  { channelPrefix := (channelPrefix.filter (· ≠ "")).getD defaultChannelPrefix }

/-- A message that the server delivers. -/
structure Message where
  channel : String
  data : String
  deriving DecidableEq

namespace RedisPubSubBackend

variable (backend : RedisPubSubBackend)

/-- What `publish` sends. -/
def message (e : Bus.Envelope) : Message :=
  { channel := backend.channelPrefix ++ String.ofList e.topic, data := dumps e.wire.toDict }

/-- `PSUBSCRIBE <channel_prefix>*` -/
def pattern : List Char := backend.channelPrefix.toList ++ ['*']

/-- The server delivers the message to subscribers of the pattern. -/
def Hears (m : Message) : Prop := Glob.Matches backend.pattern m.channel.toList

instance (m : Message) : Decidable (backend.Hears m) := inferInstanceAs (Decidable (Glob.Matches _ _))

end RedisPubSubBackend

/-- What `_handle_message` reads; what cannot be decoded is dropped. -/
def decode (py : Readings) (uuid : String) (m : Message) : Option EventEnvelope := (fromJson py uuid m.data).toOption

/-- Where the consumer task is. -/
inductive Phase where
  | closed
  | connecting
  | listening
  | sleeping
  deriving DecidableEq

/-- An envelope that was handed to the callback, with the message it was read from. -/
structure Handed where
  message : Message
  envelope : EventEnvelope

/-- A consumer: what has come in on its connection and is not read yet, and what it has handed to its callback.
`since` tells how many messages had been published when it last subscribed. -/
structure Consumer where
  backend : RedisPubSubBackend
  phase : Phase := .closed
  delay : ℚ := backend.reconnectBaseDelay
  inbox : List Message := []
  handed : List Handed := []
  since : ℕ := 0

namespace Consumer

variable (c : Consumer)

/-- The server delivers a message: it does not wait for those who are not connected. -/
def deliver (m : Message) : Consumer :=
  if c.phase = .listening ∧ c.backend.Hears m then { c with inbox := c.inbox ++ [m] } else c

end Consumer

/-- The server and its clients: all messages in the order of their publication, and the consumers. -/
structure World where
  wire : List Message := []
  consumers : ℕ → Consumer

/-- What can happen. -/
inductive Happening where
  | publish (backend : RedisPubSubBackend) (e : Bus.Envelope)
  | foreign (m : Message)
  | start (i : ℕ)
  | subscribe (i : ℕ)
  | receive (i : ℕ) (uuid : String)
  | fail (i : ℕ)
  | wake (i : ℕ)
  | close (i : ℕ)

namespace World

variable (w : World)

def set (i : ℕ) (c : Consumer) : World := { w with consumers := Function.update w.consumers i c }

/-- The server delivers a message to everybody who listens. -/
def route (m : Message) : World := { wire := w.wire ++ [m], consumers := fun i => (w.consumers i).deliver m }

/-- One step; `none` when it is not possible. -/
def step (py : Readings) : Happening → Option World
  | .publish backend e => some (w.route (backend.message e))
  | .foreign m => some (w.route m)
  | .start i =>
    let c := w.consumers i
    if c.phase = .closed then
      some (w.set i { c with phase := .connecting, delay := c.backend.reconnectBaseDelay })
    else none
  | .subscribe i =>
    let c := w.consumers i
    if c.phase = .connecting then
      some (w.set i
        { c with phase := .listening, delay := c.backend.reconnectBaseDelay, inbox := [], since := w.wire.length })
    else none
  | .receive i uuid =>
    let c := w.consumers i
    match c.phase, c.inbox with
    | .listening, m :: inbox =>
      some (w.set i { c with inbox, handed := c.handed ++ (decode py uuid m).toList.map (⟨m, ·⟩) })
    | _, _ => none
  | .fail i =>
    let c := w.consumers i
    if c.phase = .connecting ∨ c.phase = .listening then some (w.set i { c with phase := .sleeping, inbox := [] })
    else none
  | .wake i =>
    let c := w.consumers i
    if c.phase = .sleeping then
      some (w.set i { c with phase := .connecting, delay := min (c.delay * 2) c.backend.reconnectMaxDelay })
    else none
  | .close i => some (w.set i { w.consumers i with phase := .closed, inbox := [] })

/-- No consumer has been started. -/
def start (backends : ℕ → RedisPubSubBackend) : World := { consumers := fun i => { backend := backends i } }

/-- The worlds that can be reached. -/
inductive Reach (py : Readings) (backends : ℕ → RedisPubSubBackend) : World → Prop where
  | start : Reach py backends (start backends)
  | step {w w' : World} (h : Happening) (reach : Reach py backends w) (hs : w.step py h = some w') :
      Reach py backends w'

end World

/-! ## What a consumer hears -/

section Decode

variable {py : Readings} {m : Message}

theorem isSome_bind {ε α β : Type} {x : Except ε α} {f g : α → Except ε β}
    (h : ∀ a, (f a).toOption.isSome = (g a).toOption.isSome) :
    (x >>= f).toOption.isSome = (x >>= g).toOption.isSome := by
  cases x with
  | error e => rfl
  | ok a => exact h a

/-- The fresh id of an event without one does not decide whether a message can be decoded. -/
theorem decode_isSome (py : Readings) (uuid uuid' : String) (m : Message) :
    (decode py uuid m).isSome = (decode py uuid' m).isSome := by
  unfold decode fromJson
  cases Json.parse m.data.toList with
  | none => rfl
  | some data =>
    cases data with
    | obj members =>
      refine isSome_bind fun _ => isSome_bind fun _ => isSome_bind fun _ => isSome_bind fun _ => isSome_bind fun _ =>
        isSome_bind fun _ => ?_
      unfold EventEnvelope.build
      split_ifs <;> rfl
    | _ => rfl

/-- What an instance has published is read back as it was. -/
theorem decode_message {backend : RedisPubSubBackend} {e : Bus.Envelope} (safe : e.wire.JsonSafe)
    (supported : e.wire.Supported) (uuid : String) : decode py uuid (backend.message e) = some e.wire := by
  have read : fromJson py uuid (dumps e.wire.toDict) = .ok e.wire :=
    (EventEnvelope.fromJson_dumps safe).trans (EventEnvelope.fromDict_toDict supported)
  exact congrArg Except.toOption read

end Decode

/-- The instances with a plain prefix hear each other. -/
theorem RedisPubSubBackend.hears_message {backend : RedisPubSubBackend}
    (plain : ∀ a ∈ backend.channelPrefix.toList, Glob.Plain a) (e : Bus.Envelope) :
    backend.Hears (backend.message e) := by
  refine (Glob.matches_plain_star plain).2 ?_
  rw [RedisPubSubBackend.message, String.toList_append]
  exact List.prefix_append ..

namespace Consumer

variable (c : Consumer)

/-- The message is delivered to the consumer while it listens, and can be decoded. -/
def Hears (py : Readings) (m : Message) : Prop := c.backend.Hears m ∧ (decode py "" m).isSome

instance (py : Readings) (m : Message) : Decidable (c.Hears py m) := inferInstanceAs (Decidable (_ ∧ _))

/-- The messages that the consumer hears. -/
def heard (py : Readings) (l : List Message) : List Message := l.filter (c.Hears py ·)

/-- The messages whose envelopes have been handed to the callback. -/
def served : List Message := c.handed.map Handed.message

/-- The messages of its connection that it will hand on. -/
def pending (py : Readings) : List Message := c.inbox.filter fun m => (decode py "" m).isSome

/-- What a consumer has handed on was heard, in order, before its subscription (`old`) or since (`new`); while the
subscription lasts, what it has heard since is handed on or about to be. -/
structure InTune (py : Readings) (wire old new : List Message) : Prop where
  since_le : c.since ≤ wire.length
  served_eq : c.served = old ++ new
  old_heard : old.Sublist (c.heard py (wire.take c.since))
  new_heard : (new ++ c.pending py).Sublist (c.heard py (wire.drop c.since))
  current : c.phase = .listening → new ++ c.pending py = c.heard py (wire.drop c.since)
  inbox_heard : ∀ m ∈ c.inbox, c.backend.Hears m
  read : ∀ h ∈ c.handed, ∃ uuid, decode py uuid h.message = some h.envelope

variable {c} {py : Readings} {wire old new : List Message} {m : Message}

theorem deliver_of_hears (listening : c.phase = .listening) (hears : c.backend.Hears m) :
    c.deliver m = { c with inbox := c.inbox ++ [m] } :=
  if_pos ⟨listening, hears⟩

theorem heard_append (l l' : List Message) : c.heard py (l ++ l') = c.heard py l ++ c.heard py l' :=
  List.filter_append ..

theorem InTune.deliver (h : c.InTune py wire old new) : (c.deliver m).InTune py (wire ++ [m]) old new := by
  have take : (wire ++ [m]).take c.since = wire.take c.since := List.take_append_of_le_length h.since_le
  have drop : (wire ++ [m]).drop c.since = wire.drop c.since ++ [m] := List.drop_append_of_le_length h.since_le
  have le : c.since ≤ (wire ++ [m]).length := h.since_le.trans (by simp)
  have old_heard : old.Sublist (c.heard py ((wire ++ [m]).take c.since)) := take ▸ h.old_heard
  by_cases hears : c.phase = .listening ∧ c.backend.Hears m
  · obtain ⟨listening, hears⟩ := hears
    rw [Consumer.deliver_of_hears listening hears]
    have more : Consumer.pending { c with inbox := c.inbox ++ [m] } py = c.pending py ++ c.heard py [m] := by
      rw [Consumer.pending, List.filter_append]
      refine congrArg (c.pending py ++ ·) (List.filter_congr fun x hx => ?_)
      cases List.mem_singleton.1 hx
      simp [Consumer.Hears, hears]
    have all : new ++ Consumer.pending { c with inbox := c.inbox ++ [m] } py =
        c.heard py ((wire ++ [m]).drop c.since) := by
      rw [more, drop, heard_append, ← List.append_assoc, h.current listening]
    refine ⟨le, h.served_eq, old_heard, all ▸ List.Sublist.refl _, fun _ => all, fun x hx => ?_, h.read⟩
    rcases List.mem_append.1 hx with hx | hx
    · exact h.inbox_heard x hx
    · cases List.mem_singleton.1 hx
      exact hears
  · have same : c.deliver m = c := if_neg hears
    rw [same]
    have quiet : c.phase = .listening → c.heard py [m] = [] := fun listening =>
      List.filter_eq_nil_iff.2 fun x hx => by
        cases List.mem_singleton.1 hx
        simpa using fun heard : c.Hears py m => hears ⟨listening, heard.1⟩
    refine ⟨le, h.served_eq, old_heard, ?_, fun listening => ?_, h.inbox_heard, h.read⟩
    · rw [drop, heard_append]
      exact h.new_heard.trans (List.sublist_append_left ..)
    · rw [drop, heard_append, quiet listening, List.append_nil]
      exact h.current listening

/-- A consumer that does not listen loses what it has not read. -/
theorem InTune.rest (h : c.InTune py wire old new) {phase : Phase} (rests : phase ≠ .listening) {inbox : List Message}
    (sub : inbox.Sublist c.inbox) (delay : ℚ) :
    InTune { c with phase, inbox, delay } py wire old new := by
  have fewer : (Consumer.pending { c with phase, inbox, delay } py).Sublist (c.pending py) := sub.filter _
  exact ⟨h.since_le, h.served_eq, h.old_heard, ((List.Sublist.refl new).append fewer).trans h.new_heard,
    fun listening => absurd listening rests, fun x hx => h.inbox_heard x (sub.subset hx), h.read⟩

/-- A new subscription. -/
theorem InTune.subscribe (h : c.InTune py wire old new) (delay : ℚ) :
    InTune { c with phase := .listening, delay, inbox := [], since := wire.length } py wire (old ++ new) [] := by
  have before : (old ++ new).Sublist (c.heard py (wire.take wire.length)) := by
    rw [List.take_length, ← List.take_append_drop c.since wire, heard_append]
    exact h.old_heard.append ((List.sublist_append_left ..).trans h.new_heard)
  refine ⟨Nat.le_refl _, h.served_eq.trans (List.append_nil _).symm, before, List.nil_sublist _, fun _ => ?_,
    fun x hx => absurd hx List.not_mem_nil, h.read⟩
  show [] = c.heard py (wire.drop wire.length)
  rw [List.drop_length]
  rfl

/-- The consumer reads a message, which it hands on when it can be decoded. -/
theorem InTune.receive (h : c.InTune py wire old new) {inbox : List Message} (hin : c.inbox = m :: inbox)
    (uuid : String) :
    ∃ new, InTune { c with inbox, handed := c.handed ++ (decode py uuid m).toList.map (⟨m, ·⟩) } py wire old new := by
  have rest : ∀ x ∈ inbox, c.backend.Hears x := fun x hx => h.inbox_heard x (hin ▸ List.mem_cons_of_mem m hx)
  have decoded : (decode py "" m).isSome = (decode py uuid m).isSome := decode_isSome py "" uuid m
  cases hm : decode py uuid m with
  | none =>
    have skip : c.pending py = inbox.filter fun m => (decode py "" m).isSome := by
      simp [Consumer.pending, hin, decoded, hm]
    have all : new ++ c.pending py = new ++ inbox.filter fun m => (decode py "" m).isSome := by rw [skip]
    refine ⟨new, ?_⟩
    rw [Option.toList_none, List.map_nil, List.append_nil]
    exact ⟨h.since_le, h.served_eq, h.old_heard, all ▸ h.new_heard, fun listening => all ▸ h.current listening,
      rest, h.read⟩
  | some e =>
    have first : c.pending py = m :: inbox.filter fun m => (decode py "" m).isSome := by
      simp [Consumer.pending, hin, decoded, hm]
    have all : new ++ c.pending py = (new ++ [m]) ++ inbox.filter fun m => (decode py "" m).isSome := by
      rw [first, List.append_assoc]
      rfl
    refine ⟨new ++ [m], h.since_le, ?_, h.old_heard, all ▸ h.new_heard,
      fun listening => all ▸ h.current listening, rest, fun x hx => ?_⟩
    · simp only [Consumer.served, List.map_append, ← List.append_assoc, ← h.served_eq]
      rfl
    · rcases List.mem_append.1 hx with hx | hx
      · exact h.read x hx
      · cases List.mem_singleton.1 hx
        exact ⟨uuid, hm⟩

/-- A consumer that hands on what it hears. -/
def Tuned (py : Readings) (wire : List Message) (c : Consumer) : Prop := ∃ old new, c.InTune py wire old new

end Consumer

namespace World

variable {py : Readings} {backends : ℕ → RedisPubSubBackend} {w w' : World}

theorem tuned_route (h : ∀ i, (w.consumers i).Tuned py w.wire) (m : Message) (i : ℕ) :
    ((w.route m).consumers i).Tuned py (w.route m).wire := by
  obtain ⟨old, new, tuned⟩ := h i
  exact ⟨old, new, tuned.deliver⟩

theorem tuned_set (h : ∀ i, (w.consumers i).Tuned py w.wire) {i : ℕ} {c : Consumer} (hc : c.Tuned py w.wire)
    (j : ℕ) : ((w.set i c).consumers j).Tuned py (w.set i c).wire := by
  show (Function.update w.consumers i c j).Tuned py w.wire
  by_cases same : j = i
  · rw [same, Function.update_self]
    exact hc
  · rw [Function.update_of_ne same]
    exact h j

/-- A consumer makes a step that it may make. -/
theorem tuned_guarded {p : Prop} [Decidable p] (h : ∀ i, (w.consumers i).Tuned py w.wire) {i : ℕ} {c : Consumer}
    (hc : c.Tuned py w.wire) (hs : (if p then some (w.set i c) else none) = some w') (j : ℕ) :
    (w'.consumers j).Tuned py w'.wire := by
  split_ifs at hs
  cases hs
  exact tuned_set h hc j

/-- A step keeps every consumer in tune. -/
theorem tuned_step (h : ∀ i, (w.consumers i).Tuned py w.wire) {a : Happening} (hs : w.step py a = some w') :
    ∀ i, (w'.consumers i).Tuned py w'.wire := by
  cases a with
  | publish backend e =>
    cases hs
    exact tuned_route h _
  | foreign m =>
    cases hs
    exact tuned_route h m
  | start i =>
    obtain ⟨old, new, tuned⟩ := h i
    exact tuned_guarded h ⟨old, new, tuned.rest (by simp) (.refl _) _⟩ hs
  | subscribe i =>
    obtain ⟨old, new, tuned⟩ := h i
    exact tuned_guarded h ⟨_, _, tuned.subscribe _⟩ hs
  | receive i uuid =>
    obtain ⟨old, new, tuned⟩ := h i
    simp only [step] at hs
    split at hs
    · rename_i inbox _ hin
      cases hs
      obtain ⟨new', received⟩ := tuned.receive hin uuid
      exact tuned_set h ⟨old, new', received⟩
    · cases hs
  | fail i =>
    obtain ⟨old, new, tuned⟩ := h i
    exact tuned_guarded h ⟨old, new, tuned.rest (by simp) (List.nil_sublist _) _⟩ hs
  | wake i =>
    obtain ⟨old, new, tuned⟩ := h i
    exact tuned_guarded h ⟨old, new, tuned.rest (by simp) (.refl _) _⟩ hs
  | close i =>
    obtain ⟨old, new, tuned⟩ := h i
    cases hs
    exact tuned_set h ⟨old, new, tuned.rest (by simp) (List.nil_sublist _) _⟩

theorem tuned_reach (hr : Reach py backends w) : ∀ i, (w.consumers i).Tuned py w.wire := by
  induction hr with
  | start =>
    intro i
    exact ⟨[], [], Nat.zero_le _, rfl, List.nil_sublist _, List.nil_sublist _, fun _ => rfl,
      fun x hx => absurd hx List.not_mem_nil, fun x hx => absurd hx List.not_mem_nil⟩
  | step a _ hs ih => exact tuned_step ih hs

end World

/-- What a consumer may rely on: what the instances with its plain prefix publish is heard; nothing is handed on
twice or out of order; while a subscription lasts, everything that is heard is handed on or about to be; and what
an instance has published is handed on as it was. -/
structure FansOut (py : Readings) (wire : List Message) (c : Consumer) : Prop where
  hears : (∀ a ∈ c.backend.channelPrefix.toList, Glob.Plain a) → ∀ e : Bus.Envelope, e.wire.JsonSafe →
    e.wire.Supported → c.Hears py (c.backend.message e)
  inOrder : c.served.Sublist (c.heard py wire)
  complete : c.phase = .listening → ∃ old new, c.served = old ++ new ∧
    old.Sublist (c.heard py (wire.take c.since)) ∧ new ++ c.pending py = c.heard py (wire.drop c.since)
  whole : ∀ h ∈ c.handed, ∀ (backend : RedisPubSubBackend) (e : Bus.Envelope),
    h.message = backend.message e → e.wire.JsonSafe → e.wire.Supported → h.envelope = e.wire

theorem Consumer.Tuned.fansOut {py : Readings} {wire : List Message} {c : Consumer} (h : c.Tuned py wire) :
    FansOut py wire c := by
  obtain ⟨old, new, h⟩ := h
  refine ⟨fun plain e safe supported => ⟨RedisPubSubBackend.hears_message plain e, ?_⟩, ?_,
    fun listening => ⟨old, new, h.served_eq, h.old_heard, h.current listening⟩,
    fun x hx backend e same safe supported => ?_⟩
  · rw [decode_message safe supported]
    rfl
  · rw [h.served_eq, ← List.take_append_drop c.since wire, heard_append]
    exact h.old_heard.append ((List.sublist_append_left ..).trans h.new_heard)
  · obtain ⟨uuid, read⟩ := h.read x hx
    rw [same, decode_message safe supported] at read
    exact (Option.some.inj read).symm

/-- Whatever happens to the connections, every consumer can rely on that. -/
theorem fan_out {py : Readings} {backends : ℕ → RedisPubSubBackend} {w : World}
    (hr : World.Reach py backends w) (i : ℕ) : FansOut py w.wire (w.consumers i) :=
  (World.tuned_reach hr i).fansOut

namespace Scenario

def py : Readings := ⟨fun _ => none, fun _ => none⟩

/-- An instance with the default settings. -/
def backend : RedisPubSubBackend := .ofPrefix none

/-- An event with this id. -/
def event (eventId : String) : Bus.Envelope :=
  .make eventId "shop.orders".toList .null (.str "shop") .info .normal .null Bus.epoch

end Scenario

open Scenario in
/-- A consumer subscribes too late for one event, and hands on the next one. -/
theorem fan_out_witness : ∃ w, World.Reach py (fun _ => backend) w ∧ w.wire.length = 2 ∧
    (w.consumers 0).served = [backend.message (event "b")] ∧ FansOut py w.wire (w.consumers 0) := by
  have plain : backend.channelPrefix.toList.all (fun a => decide (Glob.Plain a)) = true := by decide
  have hears : backend.Hears (backend.message (event "b")) :=
    RedisPubSubBackend.hears_message (fun a ha => of_decide_eq_true (List.all_eq_true.1 plain a ha)) _
  have safe : (event "b").wire.JsonSafe :=
    ⟨trivial, trivial, trivial, trivial, trivial, trivial, trivial, trivial⟩
  have decoded : decode py "c" (backend.message (event "b")) = some (event "b").wire :=
    decode_message safe rfl "c"
  obtain ⟨w, reach, wire, phase, inbox, handed⟩ : ∃ w, World.Reach py (fun _ => backend) w ∧ w.wire.length = 2 ∧
      (w.consumers 0).phase = .listening ∧ (w.consumers 0).inbox = [backend.message (event "b")] ∧
      (w.consumers 0).handed = [] := by
    refine ⟨_, .step (.publish backend (event "b")) (.step (.subscribe 0) (.step (.start 0)
      (.step (.publish backend (event "a")) .start rfl) rfl) rfl) rfl, rfl, ?_⟩
    show (Consumer.deliver _ _).phase = _ ∧ (Consumer.deliver _ _).inbox = _ ∧ (Consumer.deliver _ _).handed = _
    rw [Consumer.deliver_of_hears rfl hears]
    exact ⟨rfl, rfl, rfl⟩
  have received : w.step py (.receive 0 "c") = some (w.set 0 { w.consumers 0 with
      inbox := [], handed := [⟨backend.message (event "b"), (event "b").wire⟩] }) := by
    simp [World.step, phase, inbox, handed, decoded]
  have reach := World.Reach.step _ reach received
  refine ⟨_, reach, wire, ?_, fan_out reach 0⟩
  show (Function.update w.consumers 0 _ 0).served = _
  rw [Function.update_self]
  rfl

end NavigatorEventbus.PubSub
