import NavigatorEventbus.Brokers.Bridge
import NavigatorEventbus.Lib.RelyGuarantee

/-!
# What becomes of the deliveries of a bridge

A delivery has the items that its body stands for: one event, or the positions of a batch.  Over every run each
delivery that ended republished its items once each, apart from duplicates of items that were republished
before, or sent its body to a dead-letter exchange, as long as the publishes succeed, the bodies are of a kind
that the handler can read, and a key found in Redis was left by a delivery of the same item that returned
(`bridge_lossless`).  The key of an item is set before its publish: a delivery whose publish fails is lost, and
its redelivery is a duplicate of nothing (`redelivery_dropped`).
-/

namespace NavigatorEventbus.Brokers

open Interleave

open Bus (Exc Outcome)

/-! ## Items -/

/-- Something that a delivery is to republish: the event of its id, or a position of its batch. -/
structure Item where
  eventId : Text
  index : Option ℕ
  publication : Publication

/-- The key of an item. -/
def Item.key (item : Item) : Text :=
  match item.index with
  | none => "mqtt:dedup:".toList ++ item.eventId
  | some idx => "mqtt:dedup:".toList ++ item.eventId ++ ':' :: Json.natural idx

/-- The same event, or the same position of the same batch. -/
def Item.Same (a b : Item) : Prop := a.eventId = b.eventId ∧ a.index = b.index

/-- A dictionary. -/
def members? : Json → Option (List (String × Json))
  | .obj members => some members
  | _ => none

/-- The items of positions from `idx` on. -/
def Envelope.itemsFrom (broker : Broker) (e : Envelope) (batchSize : ℕ) : ℕ → List Json → Option (List Item)
  | _, [] => some []
  | idx, position :: rest =>
    (members? position).bind fun members => (e.itemsFrom broker batchSize (idx + 1) rest).map fun items =>
      { eventId := broker.codec.str e.eventId, index := some idx
        publication := e.position broker batchSize idx members } :: items

/-- The items of an envelope. One of an unknown type has none, nor has a batch that is empty, too large, or has a
position that is no dictionary. -/
def Envelope.items (broker : Broker) (e : Envelope) : List Item :=
  if e.isBatch then
    match e.positions with
    | .arr positions =>
      if broker.maxBatchSize < positions.length then [] else (e.itemsFrom broker positions.length 0 positions).getD []
    | _ => []
  else
    match typeToRoutingKey e.type with
    | .ok (some routingKey) =>
      [{ eventId := broker.codec.str e.eventId, index := none, publication := e.event broker routingKey }]
    | _ => []

/-- The items of a delivery. One that is refused has none. -/
def Broker.items (broker : Broker) (message : Message) (body : Decoded) : List Item :=
  match broker.envelope message body with
  | .ok (.inr e) => e.items broker
  | _ => []

/-- The text that a body is read from. -/
def Decoded.source : Decoded → Option Text
  | text s => some s
  | json (.str s) => some s.toList
  | _ => none

/-- What a dead letter carries of a body: a dictionary, or the text that is none. -/
def Decoded.letter : Decoded → Option Json
  | json (.obj members) => some (.obj members)
  | body => body.source.bind fun s =>
    match Json.parse s with
    | none => some (.obj [("raw", textJson s)])
    | some (.obj members) => some (.obj members)
    | some _ => none

/-- The dead letter of a body. -/
def DeadLetter (codec : Codec) (body : Decoded) (payload : Payload) : Prop :=
  (∃ kind, payload.exchange = .str ("employee.events.dlq." ++ kind)) ∧
    ∃ letter ∈ body.letter, codec.dumps letter = .ok payload.body

/-! ## Histories -/

/-- What a delivery published, newest first. -/
def publishedBy (delivery : ℕ) (log : History Event) : List Payload :=
  log.filterMap fun x =>
    match x.2 with
    | .published n payload => if n = delivery then some payload else none
    | _ => none

/-- The item was republished. -/
def Republished (broker : Broker) (item : Item) (log : History Event) : Prop :=
  ∃ p delivery message body, (p, .received delivery message body) ∈ log ∧
    ∃ item' ∈ broker.items message body, item'.Same item ∧
      ∃ payload ∈ publishedBy delivery log, item'.publication.payload broker.codec = .ok payload

/-- The body was sent to a dead-letter exchange. -/
def DeadLettered (broker : Broker) (body : Decoded) (log : History Event) : Prop :=
  ∃ p delivery message, (p, .received delivery message body) ∈ log ∧
    ∃ payload ∈ publishedBy delivery log, DeadLetter broker.codec body payload

/-- The delivery was taken for a duplicate at a time when `F` held. -/
def Duplicate (delivery : ℕ) (key : Text) (F : History Event → Prop) (log : History Event) : Prop :=
  ∃ later p before, log = later ++ (p, .duplicate delivery key) :: before ∧ F before

/-- The items of a delivery are carried: those in `sent` were republished once each, and the others are duplicates
of items that were republished before. -/
def Carried (broker : Broker) (delivery : ℕ) (items : List Item) (log : History Event) : Prop :=
  ∃ sent : List Item, sent.Sublist items ∧
    sent.map (fun item => item.publication.payload broker.codec) = (publishedBy delivery log).reverse.map .ok ∧
    ∀ item ∈ items, item ∈ sent ∨ Duplicate delivery item.key (Republished broker item) log

/-- The body of a delivery was sent to a dead-letter exchange, by the delivery itself or by one of the same body
that it is a duplicate of. -/
def Buried (broker : Broker) (delivery : ℕ) (body : Decoded) (log : History Event) : Prop :=
  (∃ payload ∈ publishedBy delivery log, DeadLetter broker.codec body payload) ∨
    ∃ key, Duplicate delivery key (DeadLettered broker body) log

/-- A delivery that returned has its items carried, or its body buried when it has none; one that raised has
items. -/
def Fulfilled (broker : Broker) (delivery : ℕ) (message : Message) (body : Decoded) (returned : Bool)
    (log : History Event) : Prop :=
  if returned then
    if broker.items message body = [] then Buried broker delivery body log
    else Carried broker delivery (broker.items message body) log
  else broker.items message body ≠ []

/-- Nothing is lost: every delivery that ended is fulfilled. -/
def Lossless (broker : Broker) (log : History Event) : Prop :=
  ∀ p delivery returned, (p, .ended delivery returned) ∈ log →
    ∀ q message body, (q, .received delivery message body) ∈ log →
      Fulfilled broker delivery message body returned log

/-! ## The condition -/

/-- An infinite number. -/
def isInfinite : Json → Bool
  | .real token =>
    match Float64.ofToken token with
    | .infinite _ => true
    | _ => false
  | _ => false

/-- A dictionary with the fields that the checks ask for. -/
def Broker.complete (broker : Broker) (data : Json) : Bool :=
  truthy ((data.member "eventId").getD .null) && truthy ((data.member "type").getD .null) &&
    broker.codec.str ((data.member "employeeId").getD (.str "")) ≠ []

/-- The handler can read the fields of an envelope: its type is hashable, and the positions of its batch, unless
there are too many, are dictionaries. -/
def Envelope.Legible (broker : Broker) (e : Envelope) : Prop :=
  (typeToRoutingKey e.type).isOk = true ∧
    match e.positions with
    | .arr positions =>
      e.isBatch = true → positions.length ≤ broker.maxBatchSize → ∀ x ∈ positions, (members? x).isSome = true
    | _ => True

instance (broker : Broker) (e : Envelope) : Decidable (e.Legible broker) := by
  unfold Envelope.Legible
  refine @instDecidableAnd _ _ _ ?_
  split <;> infer_instance

/-- The handler can read a body: it is a dictionary, or a text that is one or no JSON at all, its schema version is
not infinite, its other fields are legible, and its dead letter can be written if it has no items. -/
def Legible (broker : Broker) (message : Message) (body : Decoded) : Prop :=
  (∀ s ∈ body.source, broker.codec.parserFails s = none) ∧
    (∃ letter ∈ body.letter,
      (broker.complete letter = true → isInfinite ((letter.member "schemaVersion").getD .null) = false) ∧
        (broker.items message body = [] → (broker.codec.dumps letter).isOk = true)) ∧
      match broker.envelope message body with
      | .ok (.inr e) => e.Legible broker
      | _ => True

instance (broker : Broker) (message : Message) (body : Decoded) : Decidable (Legible broker message body) := by
  unfold Legible
  refine @instDecidableAnd _ _ _ (@instDecidableAnd _ _ _ ?_)
  split <;> infer_instance

/-- The delivery is a batch. -/
def Broker.isBatch (broker : Broker) (message : Message) (body : Decoded) : Bool :=
  match broker.envelope message body with
  | .ok (.inr e) => e.isBatch
  | _ => false

/-- A delivery of the same item returned before, or one of the same body if it has no items. -/
def Known (broker : Broker) (message : Message) (body : Decoded) (key : Text) (log : History Event) : Prop :=
  (∀ item ∈ broker.items message body, item.key = key → ∃ p q delivery message' body',
    (p, .received delivery message' body') ∈ log ∧ (q, .ended delivery true) ∈ log ∧
      ∃ item' ∈ broker.items message' body', item'.Same item) ∧
  (broker.items message body = [] → broker.isBatch message body = false → ∃ p q delivery message',
    (p, .received delivery message' body) ∈ log ∧ (q, .ended delivery true) ∈ log)

/-- A step of a delivery is sound: its body is legible, its publish does not fail, the connection does not give up
before its dead letter, and a key that is found in Redis is known. -/
def Sound (broker : Broker) (_p : ℕ) (o : Bridge.Call) (c : Cmd) (i : Input) (σ : State) : Prop :=
  match o, c with
  | .deliver message body _, .receive _ _ => Legible broker message body
  | .deliver _ _ _, .publish _ _ =>
    σ.channel ≠ none ∧ ∀ exc, i.publish = .error exc → exc.isException = false
  | .deliver message body _, .attempt =>
    broker.items message body = [] → σ.reconnectAttempts < broker.maxReconnectAttempts
  | .deliver message body _, .dedup _ key =>
    σ.redis = true → i.redis = .ok () → key ∈ σ.keys → key ∉ i.expired → Known broker message body key σ.log
  | _, _ => True

section Runs

variable {broker : Broker} {p q delivery n : ℕ} {message : Message} {body : Decoded} {o : Bridge.Call} {c : Cmd}
  {i : Input} {σ σ' : State}

/-! ## What a command changes -/

/-- The delivery whose beginning, publication or end an event records. -/
def Event.number : Event → Option ℕ
  | .received n _ _ | .published n _ | .ended n _ => some n
  | _ => none

/-- What a command changes of the history. -/
inductive Changes (p : ℕ) (σ : State) : Cmd → State → Prop where
  | quiet {c : Cmd} {σ' : State} (new : History Event) (other : ∀ x ∈ new, x.2.number = none)
      (log : σ'.log = new ++ σ.log) (deliveries : σ'.deliveries = σ.deliveries) : Changes p σ c σ'
  | received {message : Message} {body : Decoded} {σ' : State}
      (log : σ'.log = (p, .received σ.deliveries message body) :: σ.log) (deliveries : σ'.deliveries = σ.deliveries + 1) :
      Changes p σ (.receive message body) σ'
  | published {delivery : ℕ} {payload : Payload} {σ' : State} (log : σ'.log = (p, .published delivery payload) :: σ.log)
      (deliveries : σ'.deliveries = σ.deliveries) : Changes p σ (.publish (some delivery) payload) σ'

theorem Changes.of_log (log : σ'.log = σ.log) (deliveries : σ'.deliveries = σ.deliveries) : Changes p σ c σ' :=
  .quiet [] (fun _ hx => absurd hx List.not_mem_nil) log deliveries

theorem Changes.of_cons {e : Event} (other : e.number = none) (log : σ'.log = (p, e) :: σ.log)
    (deliveries : σ'.deliveries = σ.deliveries) : Changes p σ c σ' := by
  refine .quiet [(p, e)] (fun x hx => ?_) log deliveries
  rw [List.mem_singleton.1 hx]
  exact other

theorem changes_dedup (key : Text) : Changes p σ (.dedup delivery key) (σ.dedup p delivery key i).2 := by
  unfold State.dedup
  split
  · dsimp only
    cases i.redis with
    | ok =>
      dsimp only
      split <;> exact .of_cons rfl rfl rfl
    | error exc =>
      dsimp only
      split
      · split
        · refine .quiet [_, _] ?_ rfl rfl
          simp [Event.number]
        · exact .of_cons rfl rfl rfl
      · exact .of_log rfl rfl
  · exact .of_cons rfl rfl rfl

/-- What a command can do to the history. -/
theorem changes (c : Cmd) : Changes p σ c (σ.exec broker p c i).2 := by
  cases c with
  | receive message body => exact .received rfl rfl
  | dedup delivery key => exact changes_dedup key
  | publish delivery payload =>
    dsimp only [State.exec]
    split
    · exact .of_log rfl rfl
    · exact .of_log rfl rfl
    · cases delivery with
      | none => exact .of_log rfl rfl
      | some delivery => exact .published rfl rfl
  | dial =>
    dsimp only [State.exec, State.dial]
    split
    · exact .of_log rfl rfl
    · split <;> exact .of_log rfl rfl
  | attempt =>
    dsimp only [State.exec]
    split_ifs <;> exact .of_log rfl rfl
  | authenticate request =>
    dsimp only [State.exec]
    cases i.session with
    | ok => exact .of_log rfl rfl
    | error => exact .of_cons rfl rfl rfl
  | authorize request session =>
    have other : ∀ authorized, (Event.decided request (.ok session) authorized).number = none := fun _ => rfl
    dsimp only [State.exec, State.authorize]
    split
    · split
      · split
        · split <;> exact .of_cons (other _) rfl rfl
        · exact .of_cons (other _) rfl rfl
      · exact .of_cons (other _) rfl rfl
    · split <;> exact .of_cons (other _) rfl rfl
  | enqueue event =>
    dsimp only [State.exec]
    split <;> exact .of_log rfl rfl
  | get =>
    dsimp only [State.exec]
    split <;> exact .of_log rfl rfl
  | _ => exact .of_log rfl rfl

/-! ## Histories that grow -/

theorem publishedBy_append (new log : History Event) :
    publishedBy n (new ++ log) = publishedBy n new ++ publishedBy n log := List.filterMap_append

theorem publishedBy_of_number {new : History Event} (h : ∀ x ∈ new, x.2.number = none) : publishedBy n new = [] := by
  refine List.filterMap_eq_nil_iff.2 fun x hx => ?_
  obtain ⟨q, e⟩ := x
  cases e with
  | published => cases h _ hx
  | _ => rfl

theorem publishedBy_cons {e : Event} {log : History Event} (h : ∀ payload, e ≠ .published n payload) :
    publishedBy n ((q, e) :: log) = publishedBy n log := by
  cases e with
  | published m payload =>
    have ne : m ≠ n := fun same => h payload (by rw [same])
    simp [publishedBy, ne]
  | _ => rfl

@[simp] theorem publishedBy_published {payload : Payload} {log : History Event} :
    publishedBy n ((q, .published n payload) :: log) = payload :: publishedBy n log := by
  simp [publishedBy]

theorem mem_publishedBy {payload : Payload} {log : History Event} :
    payload ∈ publishedBy n log ↔ ∃ q, (q, .published n payload) ∈ log := by
  constructor
  · intro mem
    obtain ⟨⟨q, e⟩, hx, found⟩ := List.mem_filterMap.1 mem
    cases e with
    | published m payload' =>
      by_cases same : m = n
      · simp only [same, if_true, Option.some.injEq] at found
        exact ⟨q, same ▸ found ▸ hx⟩
      · simp [same] at found
    | _ => cases found
  · rintro ⟨q, mem⟩
    exact List.mem_filterMap.2 ⟨_, mem, by simp⟩

theorem Republished.append {item : Item} {log : History Event} (h : Republished broker item log)
    (new : History Event) : Republished broker item (new ++ log) := by
  obtain ⟨p, delivery, message, body, received, item', mem, same, payload, published, encoded⟩ := h
  refine ⟨p, delivery, message, body, List.mem_append_right _ received, item', mem, same, payload, ?_, encoded⟩
  rw [publishedBy_append]
  exact List.mem_append_right _ published

theorem DeadLettered.append {log : History Event} (h : DeadLettered broker body log) (new : History Event) :
    DeadLettered broker body (new ++ log) := by
  obtain ⟨p, delivery, message, received, payload, published, letter⟩ := h
  refine ⟨p, delivery, message, List.mem_append_right _ received, payload, ?_, letter⟩
  rw [publishedBy_append]
  exact List.mem_append_right _ published

theorem Duplicate.append {key : Text} {F : History Event → Prop} {log : History Event}
    (h : Duplicate delivery key F log) (new : History Event) : Duplicate delivery key F (new ++ log) := by
  obtain ⟨later, p, before, rfl, hF⟩ := h
  exact ⟨new ++ later, p, before, by simp, hF⟩

/-- What is fulfilled stays so as long as the delivery publishes nothing more. -/
theorem Fulfilled.append {returned : Bool} {log new : History Event}
    (h : Fulfilled broker delivery message body returned log)
    (same : publishedBy delivery (new ++ log) = publishedBy delivery log) :
    Fulfilled broker delivery message body returned (new ++ log) := by
  unfold Fulfilled at h ⊢
  split_ifs at h ⊢ with returned empty
  · rcases h with buried | ⟨key, duplicate⟩
    · rw [Buried, same]
      exact .inl buried
    · exact .inr ⟨key, duplicate.append new⟩
  · obtain ⟨sent, sublist, payloads, all⟩ := h
    refine ⟨sent, sublist, by rw [same, payloads], fun item mem => ?_⟩
    exact (all item mem).imp_right fun duplicate => duplicate.append new
  · exact h

/-! ## Deliveries in progress -/

/-- The task `p` has received a delivery, which has not ended. -/
structure Live (p delivery : ℕ) (message : Message) (body : Decoded) (σ : State) : Prop where
  received : (p, .received delivery message body) ∈ σ.log
  unended : ∀ q returned, (q, .ended delivery returned) ∉ σ.log

/-- The history grows, and what the task `p` knows of its deliveries stays so. -/
def Stays (p : ℕ) (σ σ' : State) : Prop :=
  ∃ new, σ'.log = new ++ σ.log ∧ ∀ delivery message body, Live p delivery message body σ →
    Live p delivery message body σ' ∧ publishedBy delivery σ'.log = publishedBy delivery σ.log

theorem Stays.refl (p : ℕ) (σ : State) : Stays p σ σ := ⟨[], rfl, fun _ _ _ live => ⟨live, rfl⟩⟩

theorem Stays.trans {σ'' : State} (first : Stays p σ σ') (second : Stays p σ' σ'') : Stays p σ σ'' := by
  obtain ⟨new, log, keep⟩ := first
  obtain ⟨new', log', keep'⟩ := second
  refine ⟨new' ++ new, by rw [log', log, List.append_assoc], fun delivery message body live => ?_⟩
  obtain ⟨live₁, same⟩ := keep _ _ _ live
  obtain ⟨live₂, same'⟩ := keep' _ _ _ live₁
  exact ⟨live₂, same'.trans same⟩

theorem Stays.of_number {new : History Event} (other : ∀ x ∈ new, x.2.number = none) (log : σ'.log = new ++ σ.log) :
    Stays p σ σ' := by
  refine ⟨new, log, fun delivery message body live => ⟨⟨?_, fun q returned mem => ?_⟩, ?_⟩⟩
  · rw [log]
    exact List.mem_append_right _ live.received
  · rw [log] at mem
    rcases List.mem_append.1 mem with mem | mem
    · cases other _ mem
    · exact live.unended q returned mem
  · rw [log, publishedBy_append, publishedBy_of_number other, List.nil_append]

/-- An event that neither ends nor publishes what is in progress. -/
theorem Stays.of_cons {e : Event} (log : σ'.log = (q, e) :: σ.log)
    (ends : ∀ n returned, e = .ended n returned → ∀ message body, ¬ Live p n message body σ)
    (publishes : ∀ n payload, e = .published n payload → ∀ message body, ¬ Live p n message body σ) : Stays p σ σ' := by
  refine ⟨[(q, e)], log, fun delivery message body live => ⟨⟨?_, fun q' returned mem => ?_⟩, ?_⟩⟩
  · rw [log]
    exact List.mem_cons_of_mem _ live.received
  · rw [log] at mem
    rcases List.mem_cons.1 mem with same | mem
    · exact ends delivery returned (Prod.mk.inj same).2.symm _ _ live
    · exact live.unended q' returned mem
  · rw [log]
    exact publishedBy_cons fun payload same => publishes delivery payload same _ _ live

/-- A command changes nothing for a task but by publishing for a delivery of its own. -/
theorem Changes.stays (h : Changes q σ c σ')
    (other : ∀ n payload, c = .publish (some n) payload → ∀ message body, ¬ Live p n message body σ) : Stays p σ σ' := by
  cases h with
  | quiet new number log => exact .of_number number log
  | received log => exact .of_cons log nofun nofun
  | published log =>
    refine .of_cons log nofun ?_
    rintro n payload ⟨rfl, rfl⟩
    exact other _ _ rfl

/-! ## The invariant -/

/-- The numbers of the deliveries are fresh, and the deliveries that ended are fulfilled. -/
structure Accounted (broker : Broker) (σ : State) : Prop where
  fresh : ∀ x ∈ σ.log, ∀ n ∈ x.2.number, n < σ.deliveries
  unique : ∀ {p q n m b m' b'}, (p, .received n m b) ∈ σ.log → (q, .received n m' b') ∈ σ.log →
    p = q ∧ m = m' ∧ b = b'
  lossless : Lossless broker σ.log

/-- A delivery is published for by the task that received it. -/
def Guarded (p : ℕ) (c : Cmd) (σ : State) : Prop :=
  ∀ n payload, c = .publish (some n) payload → ∃ message body, Live p n message body σ

/-- A delivery that ends is fulfilled. -/
def Ends (broker : Broker) (p : ℕ) (r : Option (ℕ × Outcome Unit)) (σ : State) : Prop :=
  ∀ n outcome, r = some (n, outcome) → ∃ message body, Live p n message body σ ∧
    (outcome = .ok () → Fulfilled broker n message body true σ.log) ∧
      ∀ exc, outcome = .error exc → exc.isException = true → Fulfilled broker n message body false σ.log

namespace Accounted

/-- Events that begin and end nothing, and publish nothing for what has ended. -/
theorem quiet {new : History Event} (h : Accounted broker σ) (log : σ'.log = new ++ σ.log)
    (deliveries : σ'.deliveries = σ.deliveries) (fresh : ∀ x ∈ new, ∀ n ∈ x.2.number, n < σ.deliveries)
    (begins : ∀ x ∈ new, ∀ n m b, x.2 ≠ .received n m b) (ends : ∀ x ∈ new, ∀ n returned, x.2 ≠ .ended n returned)
    (publishes : ∀ q n returned, (q, .ended n returned) ∈ σ.log → publishedBy n new = []) : Accounted broker σ' where
  fresh x mem n hn := by
    rw [deliveries]
    rw [log] at mem
    rcases List.mem_append.1 mem with mem | mem
    · exact fresh x mem n hn
    · exact h.fresh x mem n hn
  unique hp hq := by
    rw [log] at hp hq
    rcases List.mem_append.1 hp with hp | hp
    · exact absurd rfl (begins _ hp _ _ _)
    · rcases List.mem_append.1 hq with hq | hq
      · exact absurd rfl (begins _ hq _ _ _)
      · exact h.unique hp hq
  lossless p n returned ended q message body received := by
    rw [log] at ended received ⊢
    rcases List.mem_append.1 ended with ended | ended
    · exact absurd rfl (ends _ ended _ _)
    · rcases List.mem_append.1 received with received | received
      · exact absurd rfl (begins _ received _ _ _)
      · refine (h.lossless p n returned ended q message body received).append ?_
        rw [publishedBy_append, publishes p n returned ended, List.nil_append]

theorem receive (h : Accounted broker σ) (log : σ'.log = (p, .received σ.deliveries message body) :: σ.log)
    (deliveries : σ'.deliveries = σ.deliveries + 1) : Accounted broker σ' where
  fresh x mem n hn := by
    rw [deliveries]
    rw [log] at mem
    rcases List.mem_cons.1 mem with rfl | mem
    · cases hn
      omega
    · exact (h.fresh x mem n hn).trans (Nat.lt_succ_self _)
  unique hp hq := by
    rw [log] at hp hq
    rcases List.mem_cons.1 hp with same | hp <;> rcases List.mem_cons.1 hq with same' | hq
    · cases same
      cases same'
      exact ⟨rfl, rfl, rfl⟩
    · cases same
      exact absurd (h.fresh _ hq _ rfl) (Nat.lt_irrefl _)
    · cases same'
      exact absurd (h.fresh _ hp _ rfl) (Nat.lt_irrefl _)
    · exact h.unique hp hq
  lossless q n returned ended q' message' body' received := by
    rw [log] at ended received ⊢
    rcases List.mem_cons.1 ended with same | ended
    · cases same
    · rcases List.mem_cons.1 received with same | received
      · cases same
        exact absurd (h.fresh _ ended _ rfl) (Nat.lt_irrefl _)
      · have kept := h.lossless q n returned ended q' message' body' received
        exact @Fulfilled.append _ _ _ _ _ _ [_] kept (publishedBy_cons nofun)

theorem exec (h : Accounted broker σ) (guard : Guarded p c σ) : Accounted broker (σ.exec broker p c i).2 := by
  generalize hσ' : (σ.exec broker p c i).2 = σ'
  have change := @changes broker p i σ c
  rw [hσ'] at change
  cases change with
  | quiet new other log deliveries =>
    refine h.quiet log deliveries (fun x hx n hn => ?_) (fun x hx n m b same => ?_) (fun x hx n r same => ?_)
      fun _ _ _ _ => publishedBy_of_number other
    · rw [other x hx] at hn
      cases hn
    · have none := other x hx
      rw [same] at none
      cases none
    · have none := other x hx
      rw [same] at none
      cases none
  | received log deliveries => exact h.receive log deliveries
  | @published n payload _ log deliveries =>
    obtain ⟨message, body, live⟩ := guard n payload rfl
    refine @Accounted.quiet _ _ _ [_] h log deliveries ?_ ?_ ?_ fun q m returned ended => ?_
    · rintro x hx m hm
      cases List.mem_singleton.1 hx
      cases hm
      exact h.fresh _ live.received _ rfl
    · rintro x hx m b b' same
      cases List.mem_singleton.1 hx
      cases same
    · rintro x hx m returned same
      cases List.mem_singleton.1 hx
      cases same
    · refine @publishedBy_cons _ _ _ [] fun payload' same => ?_
      cases same
      exact live.unended q returned ended

theorem ended (h : Accounted broker σ) {returned : Bool} (live : Live p n message body σ)
    (fulfilled : Fulfilled broker n message body returned σ.log) :
    Accounted broker (σ.record p (.ended n returned)) where
  fresh x mem m hm := by
    rcases List.mem_cons.1 mem with rfl | mem
    · cases hm
      exact h.fresh _ live.received _ rfl
    · exact h.fresh x mem m hm
  unique hp hq := by
    rcases List.mem_cons.1 hp with same | hp
    · cases same
    · rcases List.mem_cons.1 hq with same | hq
      · cases same
      · exact h.unique hp hq
  lossless q m returned' ended q' message' body' received := by
    rcases List.mem_cons.1 received with same | received
    · cases same
    · rcases List.mem_cons.1 ended with same | ended
      · cases same
        obtain ⟨-, rfl, rfl⟩ := h.unique live.received received
        exact @Fulfilled.append _ _ _ _ _ _ [_] fulfilled (publishedBy_cons nofun)
      · have kept := h.lossless q m returned' ended q' message' body' received
        exact @Fulfilled.append _ _ _ _ _ _ [_] kept (publishedBy_cons nofun)

theorem note (h : Accounted broker σ) {r : Option (ℕ × Outcome Unit)} (ends : Ends broker p r σ) :
    Accounted broker (Bridge.note σ p r) := by
  rcases r with _ | ⟨n, exc | ⟨⟩⟩
  · exact h
  · obtain ⟨message, body, live, -, raised⟩ := ends n _ rfl
    simp only [Bridge.note]
    split_ifs with exception
    · exact h.ended live (raised exc rfl exception)
    · exact h
  · obtain ⟨message, body, live, returned, -⟩ := ends n _ rfl
    exact h.ended live (returned rfl)

theorem disturb (h : Accounted broker σ) (d : Bridge.Disturbance) : Accounted broker (d.apply σ) := by
  obtain ⟨fresh, unique, lossless⟩ := h
  cases d <;> exact ⟨fresh, unique, lossless⟩

end Accounted

/-! ## The contract -/

/-- The contract of the deliveries. -/
def deliveryRules (broker : Broker) : Contract (bridge broker) where
  Inv := Accounted broker
  Ok := Sound broker
  Guard p _ c _ σ := Guarded p c σ
  Post p _ r σ := Ends broker p r σ
  inv_exec inv _ guard := inv.exec guard
  inv_note inv post := inv.note post
  inv_disturb d inv := inv.disturb d

/-- Another task has not received the deliveries of this one. -/
theorem Live.not_live (other : Live q n message body σ) (h : Accounted broker σ) (ne : q ≠ p) (message' : Message)
    (body' : Decoded) : ¬ Live p n message' body' σ :=
  fun live => ne (h.unique other.received live.received).1

theorem stays_note {r : Option (ℕ × Outcome Unit)} (h : Accounted broker σ) (ne : q ≠ p) (ends : Ends broker q r σ) :
    Stays p σ (Bridge.note σ q r) := by
  rcases r with _ | ⟨n, exc | ⟨⟩⟩
  · exact .refl p σ
  · obtain ⟨message, body, live, -⟩ := ends n _ rfl
    simp only [Bridge.note]
    split_ifs
    · refine .of_cons rfl ?_ nofun
      rintro m returned ⟨rfl, rfl⟩
      exact live.not_live h ne
    · exact .refl p σ
  · obtain ⟨message, body, live, -⟩ := ends n _ rfl
    refine .of_cons rfl ?_ nofun
    rintro m returned ⟨rfl, rfl⟩
    exact live.not_live h ne

theorem stays (h : (deliveryRules broker).Rely p σ σ') : Stays p σ σ' := by
  refine Contract.Rely.le (deliveryRules broker) (R := Stays p) (Stays.refl p) Stays.trans ?_ h
  intro σ σ' h
  cases h with
  | exec ne inv ok guard =>
    refine (changes _).stays ?_
    rintro n payload rfl
    obtain ⟨message, body, live⟩ := guard n payload rfl
    exact live.not_live inv ne
  | note ne inv post => exact stays_note inv ne post
  | disturb d => cases d <;> exact @Stays.of_number _ _ _ [] (fun _ hx => absurd hx List.not_mem_nil) rfl

/-! ## The programs -/

/-- What the task of a delivery knows: what it has published, and a fact of the history. -/
structure At (p delivery : ℕ) (message : Message) (body : Decoded) (l : List Payload) (F : History Event → Prop)
    (σ : State) : Prop where
  live : Live p delivery message body σ
  published : publishedBy delivery σ.log = l
  fact : F σ.log

/-- A fact that later events do not change. -/
def Grows (F : History Event → Prop) : Prop := ∀ new log, F log → F (new ++ log)

section Safe

variable {α : Type} {Q : α → State → Prop} {l : List Payload} {F : History Event → Prop} {m fuel reconnects : ℕ}
  {r : Outcome Unit}

theorem At.stays (hF : Grows F) (h : At p delivery message body l F σ) (hs : Stays p σ σ') :
    At p delivery message body l F σ' := by
  obtain ⟨new, log, keep⟩ := hs
  obtain ⟨live, same⟩ := keep _ _ _ h.live
  exact ⟨live, same.trans h.published, log ▸ hF new _ h.fact⟩

/-- A program is safe when it is from every state that the others may lead to. -/
theorem safe_op {k : c.Reply → Coro α} (rest : ∀ σ' i, Stays p σ σ' → Accounted broker σ' →
      Sound broker p o c i σ' → Guarded p c σ' ∧
        (deliveryRules broker).Safe p o (k (σ'.exec broker p c i).1) Q (σ'.exec broker p c i).2) :
    (deliveryRules broker).Safe p o (Prog.op c k) Q σ :=
  fun σ' hR inv i ok => rest σ' i (stays hR) inv ok

/-- A command that publishes nothing keeps what the task knows. -/
theorem safe_quiet {k : c.Reply → Coro α} (hF : Grows F) (h : At p delivery message body l F σ)
    (hc : ∀ n payload, c ≠ .publish (some n) payload)
    (rest : ∀ σ' i, At p delivery message body l F σ' → Accounted broker σ' → Sound broker p o c i σ' →
      At p delivery message body l F (σ'.exec broker p c i).2 →
        (deliveryRules broker).Safe p o (k (σ'.exec broker p c i).1) Q (σ'.exec broker p c i).2) :
    (deliveryRules broker).Safe p o (Prog.op c k) Q σ := by
  refine safe_op fun σ' i hs inv ok => ⟨fun n payload same => absurd same (hc n payload), ?_⟩
  have h' := h.stays hF hs
  exact rest σ' i h' inv ok (h'.stays hF ((changes c).stays fun n payload same => absurd same (hc n payload)))

theorem safe_ret {a : α} (hF : Grows F) (h : At p delivery message body l F σ)
    (post : ∀ σ', At p delivery message body l F σ' → Q a σ') :
    (deliveryRules broker).Safe p o (Prog.pure a) Q σ :=
  fun σ' hR _ => post σ' (h.stays hF (stays hR))

/-- How connecting ends for a delivery: without an exception, if it has no items. -/
def Opens (broker : Broker) (p delivery : ℕ) (message : Message) (body : Decoded) (l : List Payload)
    (F : History Event → Prop) (r : Outcome Unit) (σ : State) : Prop :=
  At p delivery message body l F σ ∧
    (broker.items message body = [] → ∀ exc, r = .error exc → exc.isException = false)

theorem safe_connect (hF : Grows F) (h : At p delivery message body l F σ) :
    (deliveryRules broker).Safe p (.deliver message body m) (connect fuel)
      (Opens broker p delivery message body l F) σ := by
  induction fuel generalizing σ with
  | zero => trivial
  | succ fuel ih =>
    refine safe_quiet hF h nofun fun σ₁ i₁ _ _ _ h₁ => ?_
    generalize (State.exec broker σ₁ p .dial i₁).1 = dialled
    cases dialled with
    | ok => exact safe_ret hF h₁ fun σ' h' => ⟨h', nofun⟩
    | error exc =>
      simp only [Prog.bind]
      split_ifs with exception
      · refine safe_quiet hF h₁ nofun fun σ₂ i₂ _ _ sound h₂ => ?_
        by_cases left : σ₂.reconnectAttempts < broker.maxReconnectAttempts
        · simp only [State.exec, left, if_true, Prog.bind] at h₂ ⊢
          refine safe_quiet hF h₂ nofun fun σ₃ i₃ _ _ _ h₃ => ?_
          cases waited : i₃.interrupt with
          | ok =>
            simp only [State.exec, waited, Prog.bind] at h₃ ⊢
            exact ih h₃
          | error exc =>
            simp only [State.exec, waited, Prog.bind] at h₃ ⊢
            refine safe_ret hF h₃ fun σ' h' => ⟨h', ?_⟩
            rintro - exc ⟨rfl⟩
            exact Input.isException_of_interrupt waited
        · simp only [State.exec, left, if_false, Prog.bind] at h₂ ⊢
          exact safe_ret hF h₂ fun σ' h' => ⟨h', fun empty => absurd (sound empty) left⟩
      · refine safe_ret hF h₁ fun σ' h' => ⟨h', ?_⟩
        rintro - exc ⟨rfl⟩
        simpa using exception

theorem safe_ensureConnection (hF : Grows F) (h : At p delivery message body l F σ) :
    (deliveryRules broker).Safe p (.deliver message body m) (ensureConnection fuel)
      (Opens broker p delivery message body l F) σ := by
  refine safe_quiet hF h nofun fun σ₁ i₁ _ _ _ h₁ => ?_
  simp only [Prog.bind]
  split_ifs
  · exact safe_connect hF h₁
  · exact safe_ret hF h₁ fun σ' h' => ⟨h', nofun⟩

theorem safe_ensureExchange {exchange : Json} {type : String} (hF : Grows F)
    (h : At p delivery message body l F σ) :
    (deliveryRules broker).Safe p (.deliver message body m) (ensureExchange exchange type)
      (fun r σ' => At p delivery message body l F σ' ∧ ∀ exc, r = .error exc → exc.isException = false) σ := by
  refine safe_quiet hF h nofun fun σ₁ i₁ _ _ _ h₁ => safe_ret hF h₁ fun σ' h' => ⟨h', fun exc same => ?_⟩
  simp only [State.exec] at same
  split at same
  · exact Input.isException_of_interrupt same
  · cases same

/-- How the publish of a delivery ends: when it returns, its payload is published, and when it raises nothing is. -/
def Sends (broker : Broker) (p delivery : ℕ) (message : Message) (body : Decoded) (l : List Payload)
    (F : History Event → Prop) (publication : Publication) (r : Outcome Unit) (σ : State) : Prop :=
  (r = .ok () → ∃ payload, publication.payload broker.codec = .ok payload ∧
    At p delivery message body (payload :: l) F σ) ∧
  ∀ exc, r = .error exc → At p delivery message body l F σ ∧
    (broker.items message body = [] → (publication.payload broker.codec).isOk = true → exc.isException = false)

theorem safe_basicPublish {publication : Publication} {payload : Payload} (hF : Grows F)
    (h : At p delivery message body l F σ) (encoded : publication.payload broker.codec = .ok payload) :
    (deliveryRules broker).Safe p (.deliver message body m) (basicPublish (some delivery) payload)
      (Sends broker p delivery message body l F publication) σ := by
  refine safe_op fun σ₁ i₁ hs inv sound => ⟨?_, ?_⟩
  · rintro n payload ⟨rfl, rfl⟩
    exact ⟨_, _, (h.stays hF hs).live⟩
  · have h₁ := h.stays hF hs
    obtain ⟨isOpen, steady⟩ := sound
    obtain ⟨channel, current⟩ := Option.ne_none_iff_exists'.1 isOpen
    cases sent : i₁.publish with
    | ok =>
      simp only [State.exec, current, sent, Prog.bind]
      have h₂ : At p delivery message body (payload :: l) F (σ₁.record p (.published delivery payload)) := by
        refine ⟨⟨List.mem_cons_of_mem _ h₁.live.received, fun q returned mem => ?_⟩, ?_, hF [_] _ h₁.fact⟩
        · rcases List.mem_cons.1 mem with same | mem
          · cases same
          · exact h₁.live.unended q returned mem
        · rw [State.record, publishedBy_published, h₁.published]
      exact safe_ret hF h₂ fun σ' h' => ⟨fun _ => ⟨payload, encoded, h'⟩, nofun⟩
    | error exc =>
      have cancelled := steady exc sent
      simp only [State.exec, current, sent, Prog.bind, cancelled, Bool.false_eq_true, if_false]
      refine safe_ret hF h₁ fun σ' h' => ⟨nofun, ?_⟩
      rintro exc ⟨rfl⟩
      exact ⟨h', fun _ _ => cancelled⟩

theorem safe_publishMessage {publication : Publication} (hF : Grows F) (h : At p delivery message body l F σ)
    (named : ∃ name, publication.queueName = .str name) (routed : ∃ key, publication.routingKey = .str key) :
    (deliveryRules broker).Safe p (.deliver message body m)
      (publishMessage broker.codec fuel (some delivery) publication)
      (Sends broker p delivery message body l F publication) σ := by
  obtain ⟨name, hname⟩ := named
  obtain ⟨key, hkey⟩ := routed
  unfold publishMessage
  split
  · rename_i missing
    rw [hname] at missing
    cases missing
  · rename_i missing _
    rw [hkey] at missing
    cases missing
  · refine Contract.Safe.bind ((safe_ensureConnection hF h).mono fun r σ₁ _ h₁ => ?_)
    cases r with
    | error exc =>
      refine safe_ret hF h₁.1 fun σ' h' => ⟨nofun, ?_⟩
      rintro exc ⟨rfl⟩
      exact ⟨h', fun empty _ => h₁.2 empty exc rfl⟩
    | ok =>
      refine Contract.Safe.bind ((safe_ensureExchange hF h₁.1).mono fun r σ₂ _ h₂ => ?_)
      cases r with
      | error exc =>
        refine safe_ret hF h₂.1 fun σ' h' => ⟨nofun, ?_⟩
        rintro exc ⟨rfl⟩
        exact ⟨h', fun _ _ => h₂.2 exc rfl⟩
      | ok =>
        dsimp only
        cases encoded : publication.payload broker.codec with
        | error exc =>
          refine safe_ret hF h₂.1 fun σ' h' => ⟨nofun, ?_⟩
          rintro exc ⟨rfl⟩
          refine ⟨h', fun _ ok => ?_⟩
          rw [encoded] at ok
          cases ok
        | ok payload => exact safe_basicPublish hF h₂.1 encoded

end Safe

/-! ## Envelopes of legible bodies -/

theorem dictionary_of_source {s : Text} {letter : Json} (parses : broker.codec.parserFails s = none)
    (h : (match Json.parse s with
      | none => some (.obj [("raw", textJson s)])
      | some (.obj members) => some (.obj members)
      | some _ => none : Option Json) = some letter) :
    ∃ members, letter = .obj members ∧ (Decoded.dictionary.loads broker.codec s = .ok (.inr members) ∨
      Decoded.dictionary.loads broker.codec s = .ok (.inl s) ∧ members = [("raw", textJson s)]) := by
  unfold Decoded.dictionary.loads
  rw [parses]
  cases parsed : Json.parse s with
  | none =>
    rw [parsed] at h
    cases h
    exact ⟨_, rfl, .inr ⟨rfl, rfl⟩⟩
  | some v =>
    rw [parsed] at h
    cases v with
    | obj members =>
      cases h
      exact ⟨_, rfl, .inl rfl⟩
    | _ => cases h

/-- A body with a letter is read as the dictionary of the letter, or as a text. -/
theorem dictionary_of_letter {letter : Json} (parses : ∀ s ∈ body.source, broker.codec.parserFails s = none)
    (h : body.letter = some letter) :
    ∃ members, letter = .obj members ∧ (body.dictionary broker.codec = .ok (.inr members) ∨
      ∃ s, body.dictionary broker.codec = .ok (.inl s) ∧ members = [("raw", textJson s)]) := by
  have read : ∀ s, body.source = some s → body.dictionary broker.codec = Decoded.dictionary.loads broker.codec s →
      body.letter = (match Json.parse s with
        | none => some (.obj [("raw", textJson s)])
        | some (.obj members) => some (.obj members)
        | some _ => none : Option Json) →
      ∃ members, letter = .obj members ∧ (body.dictionary broker.codec = .ok (.inr members) ∨
        ∃ s, body.dictionary broker.codec = .ok (.inl s) ∧ members = [("raw", textJson s)]) := by
    intro s source dictionary same
    obtain ⟨members, obj, found⟩ := dictionary_of_source (parses s source) (same ▸ h)
    rw [dictionary]
    exact ⟨members, obj, found.imp_right fun raw => ⟨s, raw⟩⟩
  cases body with
  | text s => exact read s rfl rfl rfl
  | object => cases h
  | json v =>
    cases v with
    | obj members =>
      cases h
      exact ⟨members, rfl, .inl rfl⟩
    | str s => exact read s.toList rfl rfl rfl
    | _ => cases h

section Legible

variable {members : List (String × Json)} {e : Envelope} {r : Rejection}

/-- The checks of a dictionary, when its schema version is no infinite number if they come to it. -/
theorem envelope_of_dictionary (hd : body.dictionary broker.codec = .ok (.inr members))
    (finite : broker.complete (.obj members) = true →
      isInfinite (((Json.obj members).member "schemaVersion").getD .null) = false) :
    (∃ r, broker.envelope message body = .ok (.inl r) ∧ r.body = .obj members) ∨
      ∃ e, broker.envelope message body = .ok (.inr e) ∧ e.data = members := by
  unfold Broker.envelope
  rw [hd]
  dsimp only
  split
  · exact .inl ⟨_, rfl, rfl⟩
  · exact .inl ⟨_, rfl, rfl⟩
  · rename_i schemaVersion given present
    split_ifs with fields
    · have complete : broker.complete (.obj members) = true := by
        obtain ⟨eventId, employeeId, type⟩ := fields
        simp [Broker.complete, eventId, employeeId, type]
      have finite := finite complete
      rw [present, Option.getD_some] at finite
      have version : ∃ n, schemaVersionInt broker.codec schemaVersion = .ok n := by
        cases schemaVersion with
        | real token =>
          simp only [isInfinite, schemaVersionInt] at finite ⊢
          cases hx : Float64.ofToken token with
          | infinite negative =>
            rw [hx] at finite
            cases finite
          | finite q => exact ⟨_, rfl⟩
          | nan => exact ⟨_, rfl⟩
        | _ => exact ⟨_, rfl⟩
      obtain ⟨n, hn⟩ := version
      rw [hn]
      dsimp only
      split_ifs
      · split
        · split_ifs
          · exact .inl ⟨_, rfl, rfl⟩
          · exact .inr ⟨_, rfl, rfl⟩
        · exact .inr ⟨_, rfl, rfl⟩
      · exact .inl ⟨_, rfl, rfl⟩
    · exact .inl ⟨_, rfl, rfl⟩

/-- What a legible delivery is: refused with its letter, or an envelope with its letter as data. -/
theorem Legible.envelope (h : Legible broker message body) : ∃ letter, body.letter = some letter ∧
    ((∃ r, broker.envelope message body = .ok (.inl r) ∧ r.body = letter) ∨
      ∃ e, broker.envelope message body = .ok (.inr e) ∧ .obj e.data = letter ∧ e.Legible broker) := by
  obtain ⟨parses, ⟨letter, hl, finite, -⟩, legible⟩ := h
  refine ⟨letter, hl, ?_⟩
  obtain ⟨members, rfl, read | ⟨s, read, rfl⟩⟩ := dictionary_of_letter parses hl
  · rcases @envelope_of_dictionary _ message _ _ read finite with ⟨r, hr, hb⟩ | ⟨e, he, hd⟩
    · exact .inl ⟨r, hr, hb⟩
    · rw [he] at legible
      exact .inr ⟨e, he, by rw [hd], legible⟩
  · refine .inl ⟨{ body := .obj [("raw", textJson s)], reason := "non-json body".toList, kind := "envelope" }, ?_, rfl⟩
    unfold Broker.envelope
    rw [read]

/-- An envelope has its fields from its dictionary. -/
theorem envelope_eq (h : broker.envelope message body = .ok (.inr e)) : ∃ data,
    body.dictionary broker.codec = .ok (.inr data) ∧
      e = {
        data
        eventId := ((Json.obj data).member "eventId").getD .null
        employeeId := broker.codec.str (((Json.obj data).member "employeeId").getD (.str ""))
        type := ((Json.obj data).member "type").getD .null } := by
  unfold Broker.envelope at h
  cases hd : body.dictionary broker.codec with
  | error exc =>
    rw [hd] at h
    cases h
  | ok read =>
    rw [hd] at h
    cases read with
    | inl s => cases h
    | inr data =>
      refine ⟨data, rfl, ?_⟩
      dsimp only at h
      split at h
      · cases h
      · cases h
      · split_ifs at h with fields
        · split at h
          · cases h
          · split_ifs at h
            · split at h
              · split_ifs at h
                · cases h
                · cases h
                  rfl
              · cases h
                rfl
            · cases h
        · cases h

/-- The envelope of a body is the same whoever delivers it. -/
theorem envelope_message {message' : Message} {e' : Envelope} (h : broker.envelope message body = .ok (.inr e))
    (h' : broker.envelope message' body = .ok (.inr e')) : e' = e := by
  obtain ⟨data, hd, rfl⟩ := envelope_eq h
  obtain ⟨data', hd', rfl⟩ := envelope_eq h'
  rw [hd] at hd'
  cases hd'
  rfl

end Legible

/-! ## The handler -/

section Handler

variable {α : Type} {Q : α → State → Prop} {l : List Payload} {F : History Event → Prop} {m reconnects : ℕ}
  {outcome : Outcome Unit} {e : Envelope} {item : Item} {items sent : List Item} {key : Text} {log : History Event}

/-- A delivery that has come to its end is fulfilled. -/
def Finishes (broker : Broker) (p delivery : ℕ) (message : Message) (body : Decoded) (outcome : Outcome Unit)
    (σ : State) : Prop :=
  Live p delivery message body σ ∧ (outcome = .ok () → Fulfilled broker delivery message body true σ.log) ∧
    ∀ exc, outcome = .error exc → exc.isException = true → Fulfilled broker delivery message body false σ.log

theorem At.raises {exc : Exc} (h : At p delivery message body l F σ) (some : broker.items message body ≠ []) :
    Finishes broker p delivery message body (.error exc) σ := by
  refine ⟨h.live, nofun, fun _ _ _ => ?_⟩
  simpa [Fulfilled] using some

/-- The items up to here are carried: `sent` are published, the others are duplicates. -/
def Covers (broker : Broker) (delivery : ℕ) (items sent : List Item) (log : History Event) : Prop :=
  ∀ item ∈ items, item ∈ sent ∨ Duplicate delivery item.key (Republished broker item) log

theorem grows_covers : Grows (Covers broker delivery items sent) :=
  fun new _ h item mem => (h item mem).imp_right fun duplicate => duplicate.append new

theorem grows_true : Grows fun _ => True := fun _ _ _ => trivial

theorem At.carried (h : At p delivery message body l (Covers broker delivery (broker.items message body) sent) σ)
    (sublist : sent.Sublist (broker.items message body))
    (payloads : sent.map (fun item => item.publication.payload broker.codec) = l.reverse.map .ok)
    (some : broker.items message body ≠ []) : Finishes broker p delivery message body (.ok ()) σ := by
  refine ⟨h.live, fun _ => ?_, nofun⟩
  simp only [Fulfilled, if_true, some, if_false]
  exact ⟨sent, sublist, by rw [h.published, payloads], h.fact⟩

/-- What Redis answers when it knows a key. -/
theorem dedup_found (h : (σ.dedup p delivery key i).1 = .ok false) :
    σ.redis = true ∧ i.redis = .ok () ∧ key ∈ σ.keys ∧ key ∉ i.expired ∧
      (σ.dedup p delivery key i).2.log = (p, .duplicate delivery key) :: σ.log := by
  unfold State.dedup at h ⊢
  split at h
  · rename_i client
    rw [if_pos client]
    dsimp only at h ⊢
    cases answer : i.redis with
    | error exc =>
      rw [answer] at h
      dsimp only at h
      split at h <;> cases h
    | ok =>
      rw [answer] at h
      dsimp only at h ⊢
      split at h
      · rename_i found
        rw [if_pos found]
        obtain ⟨mem, kept⟩ := List.mem_filter.1 found
        exact ⟨client, rfl, mem, by simpa using kept, rfl⟩
      · cases h
  · cases h

/-- An error of Redis lets the event through; only a cancellation ends the handler. -/
theorem dedup_error {exc : Exc} (h : (σ.dedup p delivery key i).1 = .error exc) : exc.isException = false := by
  unfold State.dedup at h
  split at h
  · dsimp only at h
    cases answer : i.redis with
    | error exc' =>
      rw [answer] at h
      dsimp only at h
      split at h
      · cases h
      · rename_i other
        cases h
        simpa using other
    | ok =>
      rw [answer] at h
      dsimp only at h
      split at h <;> cases h
  · cases h

theorem At.cancelled {exc : Exc} (h : At p delivery message body l F σ) (cancelled : exc.isException = false) :
    Finishes broker p delivery message body (.error exc) σ := by
  refine ⟨h.live, nofun, ?_⟩
  rintro exc' ⟨rfl⟩ exception
  rw [cancelled] at exception
  cases exception

/-- An item of which a delivery returned was republished. -/
theorem Accounted.republished (h : Accounted broker σ) {p' q' n' : ℕ} {message' : Message} {body' : Decoded}
    {item' : Item} (received : (p', .received n' message' body') ∈ σ.log) (ended : (q', .ended n' true) ∈ σ.log)
    (mem : item' ∈ broker.items message' body') (same : item'.Same item) : Republished broker item σ.log := by
  have fulfilled := h.lossless q' n' true ended p' message' body' received
  have some : broker.items message' body' ≠ [] := List.ne_nil_of_mem mem
  simp only [Fulfilled, if_true, some, if_false] at fulfilled
  obtain ⟨sent, -, payloads, all⟩ := fulfilled
  rcases all item' mem with published | ⟨later, q'', before, log, republished⟩
  · have mapped := List.mem_map_of_mem (f := fun item : Item => item.publication.payload broker.codec) published
    rw [payloads] at mapped
    obtain ⟨payload, hp, encoded⟩ := List.mem_map.1 mapped
    exact ⟨p', n', message', body', received, item', mem, same, payload, List.mem_reverse.1 hp, encoded.symm⟩
  · obtain ⟨p₀, n₀, m₀, b₀, received₀, item₀, mem₀, same₀, published₀⟩ := republished
    have whole : Republished broker item before :=
      ⟨p₀, n₀, m₀, b₀, received₀, item₀, mem₀, ⟨same₀.1.trans same.1, same₀.2.trans same.2⟩, published₀⟩
    rw [log, List.append_cons]
    exact whole.append _

/-- A body of which a delivery returned without items was dead-lettered. -/
theorem Accounted.deadLettered (h : Accounted broker σ) {p' q' n' : ℕ} {message' : Message}
    (received : (p', .received n' message' body) ∈ σ.log) (ended : (q', .ended n' true) ∈ σ.log)
    (empty : broker.items message' body = []) : DeadLettered broker body σ.log := by
  have fulfilled := h.lossless q' n' true ended p' message' body received
  simp only [Fulfilled, if_true, empty] at fulfilled
  rcases fulfilled with ⟨payload, published, letter⟩ | ⟨key, later, q'', before, log, dead⟩
  · exact ⟨p', n', message', received, payload, published, letter⟩
  · rw [log, List.append_cons]
    exact dead.append _

/-- An item whose key is found is a duplicate. -/
theorem duplicate_of_found (h : Accounted broker σ) (known : Known broker message body key σ.log)
    (mem : item ∈ broker.items message body) (hkey : item.key = key)
    (hlog : log = (p, .duplicate delivery key) :: σ.log) :
    Duplicate delivery item.key (Republished broker item) log := by
  obtain ⟨p', q', n', message', body', received, ended, item', mem', same⟩ := known.1 item mem hkey
  refine ⟨[], p, σ.log, ?_, h.republished received ended mem' same⟩
  rw [hlog, hkey]
  rfl

theorem safe_toDlq {r : Rejection} (legible : Legible broker message body) (letter : body.letter = some r.body)
    (empty : broker.items message body = []) (h : At p delivery message body [] (fun _ => True) σ) :
    (deliveryRules broker).Safe p (.deliver message body m) (toDlq broker.codec reconnects delivery r)
      (Finishes broker p delivery message body) σ := by
  obtain ⟨parses, ⟨letter', hl, -, written⟩, -⟩ := legible
  rw [letter] at hl
  cases hl
  obtain ⟨members, obj, -⟩ := dictionary_of_letter parses letter
  refine Contract.Safe.bind ((safe_ensureExchange grows_true h).mono fun outcome σ₁ _ h₁ => ?_)
  cases outcome with
  | error exc =>
    have cancelled := h₁.2 exc rfl
    simp only [cancelled, Bool.false_eq_true, if_false]
    exact safe_ret grows_true h₁.1 fun σ' h' => h'.cancelled cancelled
  | ok =>
    refine Contract.Safe.bind ((safe_publishMessage grows_true h₁.1 ⟨_, rfl⟩ ⟨_, rfl⟩).mono fun outcome σ₂ _ h₂ => ?_)
    obtain ⟨text, ht⟩ : ∃ text, broker.codec.dumps r.body = .ok text := by
      cases hd : broker.codec.dumps r.body with
      | ok text => exact ⟨text, rfl⟩
      | error exc =>
        have := written empty
        rw [hd] at this
        cases this
    have encoded : ∃ payload, r.publication.payload broker.codec = .ok payload ∧ payload.exchange = r.exchange ∧
        payload.body = text := by
      rw [obj] at ht
      have body_eq : r.publication.body.encode broker.codec = .ok (text, "application/json") := by
        simp only [Rejection.publication, Body.encode, obj, ht]
        rfl
      simp only [Publication.payload, Publication.retryHeaders, Rejection.publication] at body_eq ⊢
      rw [body_eq]
      exact ⟨_, rfl, rfl, rfl⟩
    cases outcome with
    | error exc =>
      obtain ⟨h₃, calm⟩ := h₂.2 exc rfl
      have cancelled : exc.isException = false := calm empty (by obtain ⟨payload, hp, -⟩ := encoded; rw [hp]; rfl)
      simp only [cancelled, Bool.false_eq_true, if_false]
      exact safe_ret grows_true h₃ fun σ' h' => h'.cancelled cancelled
    | ok =>
      obtain ⟨payload, hp, h₃⟩ := h₂.1 rfl
      obtain ⟨payload', hp', exchange, written'⟩ := encoded
      rw [hp] at hp'
      cases hp'
      refine safe_ret grows_true h₃ fun σ' h' => ⟨h'.live, fun _ => ?_, nofun⟩
      simp only [Fulfilled, if_true, empty]
      refine .inl ⟨payload, by rw [h'.published]; exact List.mem_cons_self .., ⟨r.kind, exchange⟩, r.body, letter, ?_⟩
      rw [ht, written']

/-- The loop over the positions from `idx` on: `done` are the items before, `sent` those of them that were
published. -/
theorem safe_publishPositions {batchSize : ℕ} {positions : List Json} {rest done : List Item} (idx : ℕ)
    (hrest : e.itemsFrom broker batchSize idx positions = some rest)
    (hitems : broker.items message body = done ++ rest) (some : broker.items message body ≠ [])
    (sublist : sent.Sublist done)
    (payloads : sent.map (fun item => item.publication.payload broker.codec) = l.reverse.map .ok)
    (h : At p delivery message body l (Covers broker delivery done sent) σ) :
    (deliveryRules broker).Safe p (.deliver message body m)
      (publishPositions broker reconnects delivery e batchSize idx positions)
      (Finishes broker p delivery message body) σ := by
  induction positions generalizing idx rest done sent l σ with
  | nil =>
    cases hrest
    rw [List.append_nil] at hitems
    subst hitems
    exact safe_ret grows_covers h fun σ' h' => h'.carried sublist payloads some
  | cons position positions ih =>
    rw [Envelope.itemsFrom] at hrest
    obtain ⟨members, hmembers, hrest⟩ := Option.bind_eq_some_iff.1 hrest
    obtain ⟨rest', hrest', rfl⟩ := Option.map_eq_some_iff.1 hrest
    have obj : position = .obj members := by
      cases position with
      | obj members' =>
        cases hmembers
        rfl
      | _ => cases hmembers
    subst obj
    generalize hitem : ({
      eventId := broker.codec.str e.eventId, index := .some idx
      publication := e.position broker batchSize idx members } : Item) = item at hitems
    have hkey : item.key = e.perPosKey broker idx := hitem ▸ rfl
    have mem : item ∈ broker.items message body := by simp [hitems]
    have more : broker.items message body = (done ++ [item]) ++ rest' := by simp [hitems]
    refine safe_quiet grows_covers h nofun fun σ₁ i₁ at₁ inv₁ sound h₁ => ?_
    cases found : (σ₁.dedup p delivery (e.perPosKey broker idx) i₁).1 with
    | error exc =>
      simp only [State.exec, found, Prog.bind] at h₁ ⊢
      exact safe_ret grows_covers h₁ fun σ' h' => h'.raises some
    | ok isNew =>
      cases isNew with
      | false =>
        obtain ⟨client, answer, stored, kept, log⟩ := dedup_found found
        have duplicate := duplicate_of_found inv₁ (sound client answer stored kept) mem hkey log
        simp only [State.exec, found, Prog.bind] at h₁ ⊢
        refine ih (idx + 1) hrest' more (sublist.trans (List.sublist_append_left _ _)) payloads
          ⟨h₁.live, h₁.published, fun item' mem' => ?_⟩
        rcases List.mem_append.1 mem' with mem' | mem'
        · exact h₁.fact item' mem'
        · rw [List.mem_singleton.1 mem']
          exact .inr duplicate
      | true =>
        simp only [State.exec, found, Prog.bind] at h₁ ⊢
        refine Contract.Safe.bind ((safe_publishMessage grows_covers h₁ ⟨_, rfl⟩ ⟨_, rfl⟩).mono fun r σ₂ _ h₂ => ?_)
        cases r with
        | error exc => exact safe_ret grows_covers (h₂.2 exc rfl).1 fun σ' h' => h'.raises some
        | ok =>
          obtain ⟨payload, encoded, h₃⟩ := h₂.1 rfl
          have encoded : item.publication.payload broker.codec = .ok payload := hitem ▸ encoded
          refine ih (idx + 1) hrest' more (sublist.append (.refl [item])) ?_
            ⟨h₃.live, h₃.published, fun item' mem' => ?_⟩
          · simp [payloads, encoded]
          · rcases List.mem_append.1 mem' with mem' | mem'
            · exact (h₃.fact item' mem').imp_left fun sent => List.mem_append_left _ sent
            · exact .inl (List.mem_append_right _ mem')

theorem itemsFrom_isSome {batchSize : ℕ} {positions : List Json} (idx : ℕ)
    (h : ∀ x ∈ positions, (members? x).isSome = true) : ∃ items, e.itemsFrom broker batchSize idx positions = some items := by
  induction positions generalizing idx with
  | nil => exact ⟨[], rfl⟩
  | cons position positions ih =>
    obtain ⟨members, hm⟩ := Option.isSome_iff_exists.1 (h position (List.mem_cons_self ..))
    obtain ⟨items, hi⟩ := ih (idx + 1) fun x hx => h x (List.mem_cons_of_mem _ hx)
    rw [Envelope.itemsFrom, hm, Option.bind_some, hi]
    exact ⟨_, rfl⟩

theorem itemsFrom_ne_nil {batchSize idx : ℕ} {position : Json} {positions : List Json}
    (h : e.itemsFrom broker batchSize idx (position :: positions) = some items) : items ≠ [] := by
  rw [Envelope.itemsFrom] at h
  obtain ⟨members, -, h⟩ := Option.bind_eq_some_iff.1 h
  obtain ⟨rest, -, rfl⟩ := Option.map_eq_some_iff.1 h
  exact List.cons_ne_nil _ _

theorem safe_handleLocationBatch (legible : Legible broker message body)
    (he : broker.envelope message body = .ok (.inr e)) (letter : body.letter = some (.obj e.data))
    (batch : e.isBatch = true) (own : e.Legible broker) (h : At p delivery message body [] (fun _ => True) σ) :
    (deliveryRules broker).Safe p (.deliver message body m) (handleLocationBatch broker reconnects delivery e)
      (Finishes broker p delivery message body) σ := by
  have items_eq : broker.items message body = e.items broker := by rw [Broker.items, he]
  rw [Envelope.items, if_pos batch] at items_eq
  unfold handleLocationBatch
  split
  · rename_i position rest positions
    rw [positions] at items_eq
    have readable := own.2
    rw [positions] at readable
    dsimp only at items_eq readable
    split_ifs at items_eq ⊢ with large
    · exact safe_toDlq legible letter items_eq h
    · obtain ⟨items, hi⟩ := @itemsFrom_isSome broker e (position :: rest).length _ 0
        (readable batch (by omega))
      rw [hi, Option.getD_some] at items_eq
      refine @safe_publishPositions _ _ _ _ _ _ _ _ _ _ [] _ _ _ [] 0 hi items_eq ?_ (.refl _) rfl
        ⟨h.live, h.published, fun _ mem => absurd mem List.not_mem_nil⟩
      rw [items_eq]
      exact itemsFrom_ne_nil hi
  · rename_i other
    refine safe_toDlq legible letter ?_ h
    rw [items_eq]
    split
    · rename_i positions hp
      cases positions with
      | nil => split_ifs <;> rfl
      | cons position rest => exact absurd hp (other position rest)
    · rfl

theorem safe_handleEnvelope (legible : Legible broker message body)
    (h : At p delivery message body [] (fun _ => True) σ) :
    (deliveryRules broker).Safe p (.deliver message body m) (handleEnvelope broker reconnects delivery message body)
      (Finishes broker p delivery message body) σ := by
  obtain ⟨letter, hl, ⟨r, hr, rfl⟩ | ⟨e, he, rfl, own⟩⟩ := legible.envelope
  · have empty : broker.items message body = [] := by rw [Broker.items, hr]
    unfold handleEnvelope
    rw [hr]
    exact safe_toDlq legible hl empty h
  · unfold handleEnvelope
    rw [he]
    have items_eq : broker.items message body = e.items broker := by rw [Broker.items, he]
    refine safe_quiet grows_true h nofun fun σ₁ i₁ at₁ inv₁ sound h₁ => ?_
    cases found : (σ₁.dedup p delivery (e.dedupKey broker) i₁).1 with
    | error exc =>
      have cancelled := dedup_error found
      simp only [State.exec, found, Prog.bind] at h₁ ⊢
      exact safe_ret grows_true h₁ fun σ' h' => h'.cancelled cancelled
    | ok isNew =>
      cases batch : e.isBatch with
      | true =>
        simp only [State.exec, found, Prog.bind, if_true] at h₁ ⊢
        exact safe_handleLocationBatch legible he hl batch own h₁
      | false =>
        rw [Envelope.items, batch] at items_eq
        simp only [Bool.false_eq_true, if_false] at items_eq
        obtain ⟨routingKey, hroute⟩ : ∃ routingKey, typeToRoutingKey e.type = .ok routingKey := by
          have := own.1
          cases hr : typeToRoutingKey e.type with
          | ok routingKey => exact ⟨routingKey, rfl⟩
          | error exc =>
            rw [hr] at this
            cases this
        rw [hroute] at items_eq
        cases isNew with
        | true =>
          simp only [State.exec, found, Prog.bind, Bool.false_eq_true, if_false, if_true, hroute] at h₁ ⊢
          cases routingKey with
          | none => exact safe_toDlq legible hl items_eq h₁
          | some routingKey =>
            dsimp only at items_eq ⊢
            have some : broker.items message body ≠ [] := by simp [items_eq]
            refine ((safe_publishMessage grows_true h₁ ⟨_, rfl⟩ ⟨_, rfl⟩).mono fun r σ₂ _ h₂ => ?_)
            cases r with
            | error exc => exact (h₂.2 exc rfl).1.raises some
            | ok =>
              obtain ⟨payload, encoded, h₃⟩ := h₂.1 rfl
              have covered : At p delivery message body [payload]
                  (Covers broker delivery (broker.items message body) (broker.items message body)) σ₂ :=
                ⟨h₃.live, h₃.published, fun _ mem => .inl mem⟩
              refine covered.carried (.refl _) ?_ some
              simp [items_eq, encoded]
        | false =>
          obtain ⟨client, answer, stored, kept, log⟩ := dedup_found found
          have known := sound client answer stored kept
          simp only [State.exec, found, Prog.bind, Bool.false_eq_true, if_false] at h₁ ⊢
          cases routingKey with
          | none =>
            have single : broker.isBatch message body = false := by
              rw [Broker.isBatch, he]
              exact batch
            obtain ⟨p', q', n', message', received, ended⟩ := known.2 items_eq single
            have empty : broker.items message' body = [] := by
              rw [Broker.items]
              split
              · rename_i e' he'
                rw [envelope_message he he', Envelope.items, batch, hroute]
                rfl
              · rfl
            have buried : At p delivery message body [] (Duplicate delivery (e.dedupKey broker) (DeadLettered broker body))
                (σ₁.dedup p delivery (e.dedupKey broker) i₁).2 := by
              refine ⟨h₁.live, h₁.published, [], p, σ₁.log, ?_, inv₁.deadLettered received ended empty⟩
              rw [log]
              rfl
            refine safe_ret (fun new _ h => h.append new) buried fun σ' h' => ⟨h'.live, fun _ => ?_, nofun⟩
            simp only [Fulfilled, if_true, items_eq]
            exact .inr ⟨_, h'.fact⟩
          | some routingKey =>
            have some : broker.items message body ≠ [] := by simp [items_eq]
            have covered : At p delivery message body []
                (Covers broker delivery (broker.items message body) [])
                (σ₁.dedup p delivery (e.dedupKey broker) i₁).2 := by
              refine ⟨h₁.live, h₁.published, fun item mem => .inr ?_⟩
              refine duplicate_of_found inv₁ known mem ?_ log
              rw [items_eq, List.mem_singleton] at mem
              rw [mem]
              rfl
            exact safe_ret grows_covers covered fun σ' h' => h'.carried (List.nil_sublist _) rfl some

end Handler

theorem safe_code : (deliveryRules broker).Safe p o (o.code broker) (Ends broker p) σ := by
  cases o with
  | deliver message body reconnects =>
    refine safe_op fun σ₁ i₁ _ inv legible => ⟨nofun, ?_⟩
    have live : Live p σ₁.deliveries message body (σ₁.exec broker p (.receive message body) i₁).2 := by
      refine ⟨List.mem_cons_self .., fun q returned mem => ?_⟩
      rcases List.mem_cons.1 mem with same | mem
      · cases same
      · exact absurd (inv.fresh _ mem _ rfl) (Nat.lt_irrefl _)
    have silent : publishedBy σ₁.deliveries (σ₁.exec broker p (.receive message body) i₁).2.log = [] := by
      refine List.eq_nil_iff_forall_not_mem.2 fun payload mem => ?_
      obtain ⟨q, mem⟩ := mem_publishedBy.1 mem
      rcases List.mem_cons.1 mem with same | mem
      · cases same
      · exact absurd (inv.fresh _ mem _ rfl) (Nat.lt_irrefl _)
    have h : At p σ₁.deliveries message body [] (fun _ => True) (σ₁.exec broker p (.receive message body) i₁).2 :=
      ⟨live, silent, trivial⟩
    simp only [State.exec, Prog.bind] at h ⊢
    refine Contract.Safe.bind ((safe_handleEnvelope legible h).mono fun outcome σ₂ _ h₂ => ?_)
    have kept : ∀ {σ σ' : State}, (deliveryRules broker).Rely p σ σ' →
        Finishes broker p σ₁.deliveries message body outcome σ →
          Finishes broker p σ₁.deliveries message body outcome σ' := by
      rintro σ σ' hR ⟨live, returned, raised⟩
      obtain ⟨new, log, keep⟩ := stays hR
      obtain ⟨live', same⟩ := keep _ _ _ live
      rw [log] at same
      refine ⟨live', fun ok => ?_, fun exc he exception => ?_⟩
      · rw [log]
        exact (returned ok).append same
      · rw [log]
        exact (raised exc he exception).append same
    refine Contract.Safe.ret kept h₂ fun σ₃ _ h₃ => ?_
    rintro n outcome' ⟨rfl, rfl⟩
    exact ⟨message, body, h₃⟩
  | monitor reconnects =>
    refine Contract.Safe.bind ((Contract.Safe.of_all (A := fun _ => True) (fun _ _ => trivial) ?_ (fun _ _ _ _ => trivial)
      (all_ensureConnection reconnects) trivial).mono fun r σ₁ _ _ => ?_)
    · rintro c i σ connects - - - n payload rfl
      exact connects.elim
    · exact fun σ' _ _ => nofun

theorem deliveryRules_kept : (deliveryRules broker).Kept (fun _ _ _ => True) (fun _ => True) where
  idle _ _ := trivial
  call _ _ _ _ := safe_code
  phase _ _ := trivial
  stable _ _ := trivial

end Runs

/-- Nothing that is delivered to a bridge is lost in a run whose steps are sound: the bodies are legible, the
publishes succeed, the connection does not give up before a dead letter, and a key that is found in Redis belongs
to an item, or a body without items, of which a delivery returned before. -/
theorem bridge_lossless (broker : Broker) {P : Pool (bridge broker)}
    (hr : Pool.Reach (Pool.Meets (Sound broker)) broker.started P) : Lossless broker P.shared.log := by
  have within : (deliveryRules broker).Within (fun _ _ _ => True) (fun _ => True) broker.started := by
    refine ⟨⟨fun _ hx => absurd hx List.not_mem_nil, fun hp => absurd hp List.not_mem_nil,
      fun _ _ _ hx => absurd hx List.not_mem_nil⟩, fun _ => trivial, fun _ => trivial, nofun⟩
  refine (Contract.sound deliveryRules_kept within (hr.mono fun Q a ha => ?_)).inv.lossless
  cases a with
  | exec => exact fun o c k hp _ => ha o c k hp
  | _ => trivial

namespace Ingest

/-- Serializers that write nothing. -/
def codec : Codec where
  loads _ := none
  decode _ := none
  unserialize _ := none
  dumps _ := .ok []

/-- A bridge that does not reconnect. -/
def broker : Broker := { codec := codec, maxReconnectAttempts := 0 }

/-- A message of an unknown user. -/
def message : Message := { channel := 0, deliveryTag := some 1, body := [] }

/-- The status `e` of the employee `7`. -/
def status : Decoded := .json (.obj [("eventId", .str "e"), ("employeeId", .str "7"), ("type", .str "status"),
  ("schemaVersion", .int 1)])

/-- A step that needs no luck: its publish succeeds, it does not reconnect, and its key is new. -/
def Plain (_p : ℕ) (o : Bridge.Call) (c : Cmd) (i : Input) (σ : State) : Prop :=
  match c with
  | .receive _ _ =>
    match o with
    | .deliver message body _ => Legible broker message body
    | .monitor _ => True
  | .publish _ _ => σ.channel ≠ none ∧ i.publish = .ok ()
  | .attempt => False
  | .dedup _ key => key ∉ σ.keys
  | _ => True

instance (p : ℕ) (o : Bridge.Call) (c : Cmd) (i : Input) (σ : State) : Decidable (Plain p o c i σ) := by
  apply c.casesOn (motive := fun c => Decidable (Plain p o c i σ)) <;> intros
  case receive message body =>
    apply o.casesOn (motive := fun o => Decidable (Plain p o (.receive message body) i σ)) <;> intros <;>
      dsimp only [Plain] <;> infer_instance
  all_goals
    dsimp only [Plain]
    infer_instance

theorem Plain.sound {p : ℕ} {o : Bridge.Call} {c : Cmd} {i : Input} {σ : State} (h : Plain p o c i σ) :
    Sound broker p o c i σ := by
  cases o with
  | monitor => trivial
  | deliver message body reconnects =>
    cases c with
    | receive => exact h
    | publish =>
      refine ⟨h.1, fun exc raised => ?_⟩
      rw [h.2] at raised
      cases raised
    | attempt => exact h.elim
    | dedup delivery key => exact fun _ _ mem => absurd mem h
    | _ => trivial

end Ingest

open Ingest in
/-- A delivery is republished. -/
theorem bridge_lossless_witness : ∃ P : Pool (bridge broker),
    (∃ rest, P.shared.log = (0, .ended 0 true) :: rest) ∧ Lossless broker P.shared.log := by
  have run : ∃ P ∈ broker.started.runIf Plain (.disturb (.redis true) :: .call 0 (.deliver message status 1) ::
      List.replicate 6 (.exec 0 {}) ++ [.ret 0]), ∃ rest, P.shared.log = (0, .ended 0 true) :: rest :=
    ⟨_, rfl, _, rfl⟩
  obtain ⟨P, hP, ended⟩ := run
  refine ⟨P, ended, bridge_lossless broker ((Pool.Reach.of_runIf hP).mono fun _ _ h => h.mono ?_)⟩
  exact fun _ _ _ _ _ plain => plain.sound

open Ingest in
/-- The connection gives up before the publish of a delivery, whose key is already in Redis: its redelivery is
taken for a duplicate, and the event is lost. -/
theorem redelivery_dropped : ¬ ∀ (broker : Broker) (P : Pool (bridge broker)),
    Pool.Reach (Pool.Meets fun _ _ _ _ _ => True) broker.started P → Lossless broker P.shared.log := by
  intro h
  have run : ∃ P ∈ broker.started.runIf (fun _ _ _ _ _ => True)
      [.disturb (.redis true), .call 0 (.deliver message status 1), .exec 0 {}, .exec 0 {}, .exec 0 {},
        .exec 0 { connect := .error (runtimeError "refused") }, .exec 0 {}, .ret 0,
        .call 1 (.deliver message status 1), .exec 1 {}, .exec 1 {}, .ret 1],
      P.shared.log = [(1, .ended 1 true), (1, .duplicate 1 "mqtt:dedup:e".toList), (1, .received 1 message status),
        (0, .ended 0 false), (0, .marked 0 "mqtt:dedup:e".toList), (0, .received 0 message status)] :=
    ⟨_, rfl, rfl⟩
  obtain ⟨P, hP, log⟩ := run
  have fulfilled := h broker P (.of_runIf hP) 1 1 true (by simp [log]) 1 message status (by simp [log])
  have silent : ∀ q n payload, (q, .published n payload) ∉ P.shared.log := by simp [log]
  obtain ⟨item, items⟩ : ∃ item, broker.items message status = [item] := ⟨_, rfl⟩
  have some : broker.items message status ≠ [] := by simp [items]
  simp only [Fulfilled, if_true, some, if_false] at fulfilled
  obtain ⟨sent, -, payloads, all⟩ := fulfilled
  rcases all item (by simp [items]) with published | ⟨later, q, before, split, republished⟩
  · have mapped := List.mem_map_of_mem (f := fun item : Item => item.publication.payload broker.codec) published
    rw [payloads] at mapped
    obtain ⟨payload, mem, -⟩ := List.mem_map.1 mapped
    obtain ⟨q, mem⟩ := mem_publishedBy.1 (List.mem_reverse.1 mem)
    exact silent _ _ _ mem
  · obtain ⟨-, n, -, -, -, -, -, -, payload, mem, -⟩ := republished
    obtain ⟨q', mem⟩ := mem_publishedBy.1 mem
    exact silent q' n payload (by simp [split, mem])

end NavigatorEventbus.Brokers
