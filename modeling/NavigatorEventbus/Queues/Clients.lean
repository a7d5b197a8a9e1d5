import NavigatorEventbus.Queues.Api
import NavigatorEventbus.Queues.Footprint
import NavigatorEventbus.Queues.Generation

/-!
# Clients that hold handles

The service of a queue as its clients use it: they receive messages with their handles, and present the
handles to delete a message or to change its visibility.  Two things are settled when a handle is minted
and never again: its expiry, which a later change of the visibility does not move, and its generation,
which a change of the visibility does not look at.
-/

namespace NavigatorEventbus

open Interleave Receipts

/-- A call of a client. -/
inductive ApiCall where
  | send (store : QueueStore) (envelope : Envelope)
  | receive (store : QueueStore) (group : String) (maxMessages : ℕ) (visibilityMs : Option ℤ)
  | delete (group : String) (handle : List Char)
  | changeVisibility (group : String) (handle : List Char) (visibilityTimeoutSeconds : ℕ)

/-- The answer to a call. -/
inductive ApiResult where
  | sent (id : EntryId)
  | received (ds : List DeliveredMessage)
  | entry (outcome : Option EntryOutcome)

/-- The service of one queue behind a gate. -/
abbrev api (gate : Gate) (cfg : QueueConfig) : Service server where
  Call := ApiCall
  Result := ApiResult
  Phase := Unit
  idle := ()
  code
    | .send store envelope => do
      let id ← store.send cfg envelope
      return .sent id
    | .receive store group maxMessages visibilityMs => do
      let ds ← store.receive cfg group maxMessages visibilityMs
      return .received ds
    | .delete group handle => do
      let outcome ← QueueApi.deleteEntry gate cfg group handle
      return .entry outcome
    | .changeVisibility group handle seconds => do
      let outcome ← QueueApi.visibilityEntry gate cfg group handle seconds
      return .entry outcome
  phase _ _ := ()
  accepts _ _ := true
  note p
    | .receive store group _ _, .received ds, σ =>
      { σ with plane := { σ.plane with
          log := (p, .returned (store.streamFor cfg.name) group (handouts ds)) :: σ.plane.log } }
    | _, _, σ => σ
  Disturbance := Disturbance
  disturb d σ := σ.disturb d

namespace Gate

variable {gate : Gate} {cfg : QueueConfig} {group : String} {handle : List Char} {t t' : ℤ}
  {r r' : Receipt}

theorem receipt_claims (names : EntryNames) (r : Receipt) : (r.claims names).receipt names = r := by
  simp [Receipt.claims, Claims.receipt, names.id_name]

theorem decodeReceipt_eq_ok : gate.decodeReceipt cfg handle group t = .ok r ↔
    ∃ c, gate.codec.decode gate.mac gate.lenient handle cfg.name group t = .ok c ∧
      c.receipt gate.names = r := by
  unfold decodeReceipt
  cases gate.codec.decode gate.mac gate.lenient handle cfg.name group t <;> simp [Except.map]

/-- A gate accepts the handles that it minted until they expire. -/
theorem decodeReceipt_encode : gate.decodeReceipt cfg (gate.encode r) group t = .ok r ↔
    r.queue = cfg.name ∧ r.group = group ∧ t ≤ r.expiresAtMs + gate.codec.graceMs := by
  have verifies : ∀ m, gate.codec.Verifies gate.mac m (gate.mac gate.codec.signingKey m) := fun m =>
    ⟨gate.codec.signingKey, List.head_mem gate.codec.keys_ne, rfl⟩
  rw [decodeReceipt_eq_ok, encode, decode_encode, if_pos (verifies _)]
  constructor
  · rintro ⟨c, hc, -⟩
    exact (bind_eq_ok.1 hc).2
  · exact fun h => ⟨r.claims gate.names, bind_eq_ok.2 ⟨rfl, h⟩, receipt_claims _ _⟩

/-- A handle that was accepted once is accepted until it expires. -/
theorem decodeReceipt_later (h : gate.decodeReceipt cfg handle group t = .ok r) :
    gate.decodeReceipt cfg handle group t' = .ok r ↔ t' ≤ r.expiresAtMs + gate.codec.graceMs := by
  obtain ⟨c, hc, rfl⟩ := decodeReceipt_eq_ok.1 h
  have bound := hc
  rw [decode_of_decode hc, bind_eq_ok] at bound
  obtain ⟨-, hq, hg, -⟩ := bound
  unfold decodeReceipt
  rw [decode_of_decode hc]
  constructor
  · intro h'
    obtain ⟨c', hc', -⟩ : ∃ c', gate.codec.bind c cfg.name group t' = .ok c' ∧
        c'.receipt gate.names = c.receipt gate.names := by
      revert h'
      cases gate.codec.bind c cfg.name group t' <;> simp [Except.map]
    exact (bind_eq_ok.1 hc').2.2.2
  · intro ht
    rw [bind_eq_ok.2 ⟨rfl, hq, hg, ht⟩]
    rfl

/-- A handle carries one receipt. -/
theorem decodeReceipt_unique (h : gate.decodeReceipt cfg handle group t = .ok r)
    (h' : gate.decodeReceipt cfg handle group t' = .ok r') : r = r' := by
  obtain ⟨c, hc, rfl⟩ := decodeReceipt_eq_ok.1 h
  obtain ⟨c', hc', rfl⟩ := decodeReceipt_eq_ok.1 h'
  obtain ⟨body, signature, -, -, parts, -, -, -, claims⟩ := signed_of_decode hc
  obtain ⟨body', signature', -, -, parts', -, -, -, claims'⟩ := signed_of_decode hc'
  rw [parts] at parts'
  cases parts'
  rw [claims] at claims'
  cases claims'
  rfl

end Gate

namespace Clients

variable {gate : Gate} {cfg : QueueConfig}

/-- The commands that a call may issue. -/
def Issues (gate : Gate) (cfg : QueueConfig) : ApiCall → Cmd → Prop
  | .send store envelope, c => PullCall.Issues cfg (.send store envelope) c
  | .receive store group maxMessages visibilityMs, c =>
    PullCall.Issues cfg (.receive store group maxMessages visibilityMs) c
  | .delete group handle, c => c = .now ∨ ∃ t r,
      gate.decodeReceipt cfg handle group t = .ok r ∧ PullCall.Issues cfg (.delete r) c
  | .changeVisibility group handle seconds, c => c = .now ∨ ∃ t r,
      gate.decodeReceipt cfg handle group t = .ok r ∧
        PullCall.Issues cfg (.changeVisibility r (seconds * 1000)) c

theorem issues_decodeHandle {group : String} {handle : List Char} {C : Cmd → Prop}
    {act : Receipt → Script EntryOutcome} (now : C .now)
    (acts : ∀ t r, gate.decodeReceipt cfg handle group t = .ok r → (act r).All C) :
    (do
      let receipt ← QueueApi.decodeHandle gate cfg group handle
      QueueApi.withReceipt act receipt : Script (Option EntryOutcome)).All C := by
  refine ⟨now, fun t => ?_⟩
  show (QueueApi.withReceipt act
    (QueueApi.catchReceiptError (gate.decodeReceipt cfg handle group t))).All C
  cases h : gate.decodeReceipt cfg handle group t with
  | ok r => exact .bind (acts t r h) fun _ => trivial
  | error e => cases e <;> trivial

/-- Every call issues its own commands only. -/
theorem issues (o : ApiCall) : ((api gate cfg).code o).All (Issues gate cfg o) := by
  cases o with
  | send store envelope => exact .bind (.one rfl) fun _ => trivial
  | receive store group maxMessages visibilityMs =>
    exact .bind (store.receives_receive cfg group maxMessages visibilityMs) fun _ => trivial
  | delete group handle =>
    refine .bind (issues_decodeHandle (.inl rfl) fun t r h => ?_) fun _ => trivial
    exact .bind ((Pull.issues_delete r).mono fun c hc => .inr ⟨t, r, h, hc⟩) fun outcome => by
      rcases outcome with (_ | _) | _ <;> trivial
  | changeVisibility group handle seconds =>
    refine .bind ?_ fun _ => trivial
    unfold QueueApi.visibilityEntry
    dsimp only
    split_ifs
    · trivial
    · refine issues_decodeHandle (.inl rfl) fun t r h => ?_
      exact .bind (.one (.inr ⟨t, r, h, rfl⟩)) fun outcome => by cases outcome <;> trivial

/-- Nobody has called yet. -/
def start (gate : Gate) (cfg : QueueConfig) : Pool (api gate cfg) := ⟨{}, fun _ => .resting ()⟩

theorem start_calls : (start gate cfg).Calls (Issues gate cfg) := by
  intro p o x h
  cases h

/-! ## Changing the visibility with a superseded receipt -/

/-- The entry of the receipt was granted with a greater generation than the receipt's. -/
def Superseded (receipt : Receipt) (σ : Server) : Prop :=
  ∃ q m, (q, .granted receipt.stream receipt.group receipt.messageId m) ∈ σ.plane.log ∧
    receipt.delivered < m

/-- The command leaves the pending entry of the receipt as it is: it is no `XCLAIM`, or fails, or the
entry is not pending, or its owner and idle time are already what the `XCLAIM` sets. -/
def Unmoved (receipt : Receipt) (c : Cmd) (i : Input) (σ : Server) : Prop :=
  match c with
  | .stream (.xclaim _ _ consumer _ idle) => i.fails = true ∨
      ∀ e, σ.plane.pendingEntry receipt.stream receipt.group receipt.messageId = some e →
        ((σ.plane.streams receipt.stream).entries receipt.messageId).isSome ∧
          e.consumer = consumer ∧ e.deliveredAt = σ.now - idle
  | _ => True

section Change

variable {group : String} {handle : List Char} {seconds : ℕ} {receipt : Receipt} {c : Cmd} {t : ℤ}

/-- The commands of a change: the reading of the clock, and the `XCLAIM` of the entry of its handle. -/
theorem change_issues (h : Issues gate cfg (.changeVisibility group handle seconds) c)
    (hd : gate.decodeReceipt cfg handle group t = .ok receipt) :
    c = .now ∨ PullCall.Issues cfg (.changeVisibility receipt (seconds * 1000)) c := by
  rcases h with h | ⟨t', r, hr, h⟩
  · exact .inl h
  · rw [Gate.decodeReceipt_unique hd hr]
    exact .inr h

theorem pendingEntry_claim {σ : Server} {p : ℕ} {i : Input} {s g consumer : String} {id : EntryId}
    {idle : ℤ} (ok : i.fails = false) :
    (σ.exec p (.stream (.xclaim s g consumer [id] idle)) i).2.plane.pendingEntry s g id =
      (σ.plane.pendingEntry s g id).bind fun e =>
        if ((σ.plane.streams s).entries id).isSome then
          some ⟨consumer, σ.now - idle, e.timesDelivered⟩
        else none := by
  show (σ.plane.exec p σ.now i (.xclaim s g consumer [id] idle)).2.pendingEntry s g id = _
  simp only [Plane.exec, ok, Bool.false_eq_true, if_false, Stream.claim]
  cases hg : (σ.plane.streams s).groups g with
  | none =>
    have none : σ.plane.pendingEntry s g id = none := Stream.pending_eq_of_none hg
    rw [Plane.pendingEntry_of_groups rfl, none, Option.bind_none]
  | some x =>
    have old : σ.plane.pendingEntry s g id = x.pending id := by
      simp [Plane.pendingEntry, Stream.group, hg]
    rw [Plane.pendingEntry_setGroup, if_pos ⟨rfl, rfl⟩, old]
    simp only [List.mem_singleton, not_true_eq_false, if_false]
    cases (σ.plane.streams s).entries id <;> cases x.pending id <;> simp

/-- A command of a change leaves the entry as it is exactly when `Unmoved` says so. -/
theorem unmoved_iff (issued : c = .now ∨ PullCall.Issues cfg (.changeVisibility receipt (seconds * 1000)) c)
    {σ : Server} {p : ℕ} {i : Input} :
    (σ.exec p c i).2.plane.pendingEntry receipt.stream receipt.group receipt.messageId =
      σ.plane.pendingEntry receipt.stream receipt.group receipt.messageId ↔
        Unmoved receipt c i σ := by
  rcases issued with rfl | rfl
  · exact ⟨fun _ => trivial, fun _ => rfl⟩
  unfold Unmoved
  dsimp only
  by_cases hf : i.fails = true
  · simp [hf, Server.exec, Plane.exec]
  have ok : i.fails = false := by simpa using hf
  rw [pendingEntry_claim ok]
  generalize (if (seconds : ℤ) * 1000 ≤ 0 then cfg.maxVisibilityTimeoutMs
    else max 0 (cfg.maxVisibilityTimeoutMs - seconds * 1000)) = idle
  cases σ.plane.pendingEntry receipt.stream receipt.group receipt.messageId with
  | none => simp [ok]
  | some e =>
    obtain ⟨consumer, deliveredAt, timesDelivered⟩ := e
    simp only [ok, Bool.false_eq_true, false_or, Option.bind_some, Option.some.injEq, forall_eq']
    by_cases stored : ((σ.plane.streams receipt.stream).entries receipt.messageId).isSome = true
    · simp [stored, eq_comm]
    · simp [stored]

end Change

/-! ## The program of a change -/

/-- What a change does with its receipt. -/
def claims (cfg : QueueConfig) (receipt : Receipt) (seconds : ℕ) : Script ApiResult := do
  let outcome ← QueueApi.changeReceipt cfg receipt (seconds * 1000)
  return .entry (some outcome)

/-- What a change does with the reading of its clock. -/
def afterClock (gate : Gate) (cfg : QueueConfig) (group : String) (handle : List Char) (seconds : ℕ)
    (t : ℤ) : Script ApiResult :=
  match gate.decodeReceipt cfg handle group t with
  | .ok receipt => claims cfg receipt seconds
  | .error (.receiptError reason) => return .entry (some (.error (slug reason)))
  | .error .unicodeEncodeError => return .entry none

theorem code_change (gate : Gate) (cfg : QueueConfig) (group : String) (handle : List Char) (seconds : ℕ) :
    (api gate cfg).code (.changeVisibility group handle seconds) =
      if cfg.maxVisibilityTimeoutMs < seconds * 1000 then
        .pure (.entry (some (.error .invalidParameter)))
      else .op .now (afterClock gate cfg group handle seconds) := by
  show (do
    let outcome ← QueueApi.visibilityEntry gate cfg group handle seconds
    return ApiResult.entry outcome : Script ApiResult) = _
  unfold QueueApi.visibilityEntry
  dsimp only
  split_ifs
  · rfl
  · refine congrArg (Prog.op (S := redis) Cmd.now) (funext fun t => ?_)
    show (QueueApi.withReceipt _ (QueueApi.catchReceiptError (gate.decodeReceipt cfg handle group t)) >>=
      fun outcome => (Prog.pure (ApiResult.entry outcome) : Script ApiResult)) = _
    unfold afterClock
    cases gate.decodeReceipt cfg handle group t with
    | ok receipt => simp [QueueApi.catchReceiptError, QueueApi.withReceipt, claims]
    | error e => cases e <;> rfl

theorem claims_eq (cfg : QueueConfig) (receipt : Receipt) (seconds : ℕ) : claims cfg receipt seconds =
    .op (.stream (.xclaim receipt.stream receipt.group receipt.consumer [receipt.messageId]
      (if (seconds : ℤ) * 1000 ≤ 0 then cfg.maxVisibilityTimeoutMs
        else max 0 (cfg.maxVisibilityTimeoutMs - seconds * 1000))))
      fun r => .pure (.entry (some (if r.isSome then .ok receipt.messageId else .error .unavailable))) := by
  refine congrArg (Prog.op (S := redis) _) (funext fun r => ?_)
  cases r <;> rfl

/-! ## Changes in time -/

/-- A change has decoded its handle, and sends the `XCLAIM` of its receipt next. -/
def AboutToClaim (P : Pool (api gate cfg)) (q : ℕ) (receipt : Receipt) : Prop :=
  ∃ group handle seconds,
    P.actors q = .calling (.changeVisibility group handle seconds) (claims cfg receipt seconds)

/-- No change reads its clock while its handle is accepted with a superseded receipt, and no entry is
granted between this reading and the `XCLAIM` of the entry. -/
def InTime (P : Pool (api gate cfg)) : Act (api gate cfg) → Prop
  | .exec p i => ∀ o c k, P.actors p = .calling o (.op c k) →
      (∀ group handle seconds receipt, o = .changeVisibility group handle seconds → c = .now →
        gate.decodeReceipt cfg handle group i.now = .ok receipt → ¬ Superseded receipt P.shared) ∧
      ∀ q receipt c', AboutToClaim P q receipt → c = .stream c' →
        ¬ GrantedBy P.shared.plane P.shared.now i receipt.stream receipt.group receipt.messageId c'
  | _ => True

/-- A command that does not grant the entry to anybody supersedes no receipt of it. -/
theorem Superseded.of_exec {receipt : Receipt} {σ : Server} {p : ℕ} {c : Cmd} {i : Input}
    (ungranted : ∀ c', c = .stream c' →
      ¬ GrantedBy σ.plane σ.now i receipt.stream receipt.group receipt.messageId c')
    (h : Superseded receipt (σ.exec p c i).2) : Superseded receipt σ := by
  cases c with
  | now | keyed => exact h
  | stream c =>
    obtain ⟨q, m, hm, lt⟩ := h
    obtain ⟨l, log, -, grants⟩ := Plane.log_exec σ.plane p σ.now i c
    have hm : (q, .granted receipt.stream receipt.group receipt.messageId m) ∈
        (σ.plane.exec p σ.now i c).2.log := hm
    rw [log] at hm
    rcases List.mem_append.1 hm with hm | hm
    · obtain ⟨e, he, heq⟩ := List.mem_map.1 hm
      cases heq
      exact absurd ((grants _ _ _).1 ⟨m, he⟩) (ungranted c rfl)
    · exact ⟨q, m, hm, lt⟩

/-- Where a change stands: before its reading of the clock, before the `XCLAIM` of a receipt that is
not superseded, or at its end. -/
def ChangeStands (gate : Gate) (cfg : QueueConfig) (group : String) (handle : List Char) (seconds : ℕ)
    (x : Script ApiResult) (σ : Server) : Prop :=
  x = (api gate cfg).code (.changeVisibility group handle seconds) ∨
    (∃ t receipt, gate.decodeReceipt cfg handle group t = .ok receipt ∧
      x = claims cfg receipt seconds ∧ ¬ Superseded receipt σ) ∨
    ∃ r, x = .pure r

/-- The command that a change sends takes it to where it stands next. -/
theorem ChangeStands.exec {group : String} {handle : List Char} {seconds p : ℕ} {σ : Server} {c : Cmd}
    {k : c.Reply → Script ApiResult} {i : Input} (h : ChangeStands gate cfg group handle seconds (.op c k) σ)
    (reads : ∀ receipt, c = .now → gate.decodeReceipt cfg handle group i.now = .ok receipt →
      ¬ Superseded receipt σ) :
    ChangeStands gate cfg group handle seconds (k (σ.exec p c i).1) (σ.exec p c i).2 := by
  rcases h with h | ⟨t, receipt, -, h, -⟩ | ⟨r, h⟩
  · rw [code_change] at h
    split_ifs at h
    cases h
    show ChangeStands gate cfg group handle seconds (afterClock gate cfg group handle seconds i.now) σ
    unfold afterClock
    cases hd : gate.decodeReceipt cfg handle group i.now with
    | ok receipt => exact .inr (.inl ⟨i.now, receipt, hd, rfl, reads receipt rfl hd⟩)
    | error e => cases e <;> exact .inr (.inr ⟨_, rfl⟩)
  · rw [claims_eq] at h
    cases h
    exact .inr (.inr ⟨_, rfl⟩)
  · cases h

/-- What others do leaves a change where it stands, unless it supersedes the receipt of the change. -/
theorem ChangeStands.other {group : String} {handle : List Char} {seconds : ℕ} {x : Script ApiResult}
    {σ σ' : Server} (h : ChangeStands gate cfg group handle seconds x σ)
    (kept : ∀ receipt, x = claims cfg receipt seconds → Superseded receipt σ' →
      Superseded receipt σ) :
    ChangeStands gate cfg group handle seconds x σ' := by
  rcases h with h | ⟨t, receipt, hd, h, current⟩ | h
  · exact .inl h
  · exact .inr (.inl ⟨t, receipt, hd, h, fun superseded => current (kept receipt h superseded)⟩)
  · exact .inr (.inr h)

def ChangesStand (P : Pool (api gate cfg)) : Prop :=
  ∀ q group handle seconds x, P.actors q = .calling (.changeVisibility group handle seconds) x →
    ChangeStands gate cfg group handle seconds x P.shared

/-- Every decision in time keeps the changes where they should stand. -/
theorem ChangesStand.act {P P' : Pool (api gate cfg)} (h : ChangesStand P) {a : Act (api gate cfg)}
    (ha : InTime P a) (hs : P.act a = some P') : ChangesStand P' := by
  have set : ∀ {p : ℕ} {y : Actor redis ApiCall ApiResult Unit} {σ : Server},
      (∀ group handle seconds x, y = .calling (.changeVisibility group handle seconds) x →
        ChangeStands gate cfg group handle seconds x σ) →
      (∀ q group handle seconds x, P.actors q = .calling (.changeVisibility group handle seconds) x →
        ChangeStands gate cfg group handle seconds x σ) →
      ChangesStand ({ P with shared := σ }.set p y) := by
    intro p y σ new old
    exact Pool.forall_set (P := { P with shared := σ })
      (J := fun _ a => ∀ group handle seconds x, a = .calling (.changeVisibility group handle seconds) x →
        ChangeStands gate cfg group handle seconds x σ) new
      fun q _ group handle seconds x hq => old q group handle seconds x hq
  cases Pool.acted hs with
  | call =>
    refine set (fun group handle seconds x e => ?_) h
    cases e
    exact .inl rfl
  | @exec p i o c k hp =>
    refine set (fun group handle seconds x e => ?_) fun q group handle seconds x hq => ?_
    · cases e
      exact (h p group handle seconds _ hp).exec fun receipt => (ha _ _ _ hp).1 _ _ _ receipt rfl
    · refine (h q group handle seconds x hq).other fun receipt hx => ?_
      rw [hx] at hq
      exact Superseded.of_exec fun c' => (ha _ _ _ hp).2 q receipt c' ⟨_, _, _, hq⟩
  | @ret p o r hp =>
    refine set (fun group handle seconds x e => by cases e) fun q group handle seconds x hq => ?_
    refine (h q group handle seconds x hq).other fun receipt _ ⟨q', m, hm, lt⟩ => ⟨q', m, ?_, lt⟩
    cases o with
    | receive => cases r <;> simpa using hm
    | _ => exact hm
  | crash => exact set (fun group handle seconds x e => by cases e) h
  | @disturb d =>
    intro q group handle seconds x hq
    refine (h q group handle seconds x hq).other fun receipt _ superseded => ?_
    cases d <;> exact superseded

theorem changes_stand {P : Pool (api gate cfg)} (hr : Pool.Reach InTime (start gate cfg) P) :
    ChangesStand P := by
  induction hr with
  | refl =>
    intro q group handle seconds x hq
    cases hq
  | step a _ ha hs ih => exact ih.act ha hs

/-! ## Changes are fenced -/

/-- The next command of a change, sent by actor `p`, leaves the pending entry of a superseded receipt
as it is. -/
def Fenced (P : Pool (api gate cfg)) (p : ℕ) (i : Input) : Prop :=
  ∀ {group handle seconds c k t receipt},
    P.actors p = .calling (.changeVisibility group handle seconds) (.op c k) →
    gate.decodeReceipt cfg handle group t = .ok receipt → Superseded receipt P.shared →
    (P.shared.exec p c i).2.plane.pendingEntry receipt.stream receipt.group receipt.messageId =
      P.shared.plane.pendingEntry receipt.stream receipt.group receipt.messageId

/-- The next command of a change is not the `XCLAIM` of a superseded receipt, or finds nothing to
change. -/
def Harmless (P : Pool (api gate cfg)) (p : ℕ) (i : Input) : Prop :=
  ∀ {group handle seconds c k t receipt},
    P.actors p = .calling (.changeVisibility group handle seconds) (.op c k) →
    gate.decodeReceipt cfg handle group t = .ok receipt → Superseded receipt P.shared →
    Unmoved receipt c i P.shared

/-- A step of any run is fenced exactly when it is harmless; in a run in time every step is fenced. -/
structure FencedByTime (P : Pool (api gate cfg)) : Prop where
  step : ∀ {p i}, Fenced P p i ↔ Harmless P p i
  inTime : Pool.Reach InTime (start gate cfg) P → ∀ p i, Fenced P p i

theorem change_fenced {P : Pool (api gate cfg)}
    (hr : Pool.Reach (fun _ _ => True) (start gate cfg) P) : FencedByTime P := by
  have issued := hr.calls issues start_calls
  refine ⟨⟨fun h => ?_, fun h => ?_⟩, fun reached p i => ?_⟩
  · intro group handle seconds c k t receipt hp hd superseded
    exact (unmoved_iff (change_issues (issued _ _ _ hp).1 hd)).1 (h hp hd superseded)
  · intro group handle seconds c k t receipt hp hd superseded
    exact (unmoved_iff (change_issues (issued _ _ _ hp).1 hd)).2 (h hp hd superseded)
  · intro group handle seconds c k t receipt hp hd superseded
    rcases changes_stand reached p group handle seconds _ hp with h | ⟨t', receipt', hd', -, current⟩ | ⟨r, h⟩
    · rw [code_change] at h
      split_ifs at h
      cases h
      rfl
    · rw [Gate.decodeReceipt_unique hd hd'] at superseded
      exact absurd superseded current
    · cases h

/-! ## A holder takes its message back -/

/-- A client calls a change within the maximal visibility. -/
theorem act_call {P : Pool (api gate cfg)} {p : ℕ} (rests : (P.actors p).isResting = true)
    (group : String) (handle : List Char) (seconds : ℕ)
    (within : seconds * 1000 ≤ cfg.maxVisibilityTimeoutMs) :
    P.act (.call p (.changeVisibility group handle seconds)) =
      some (P.set p (.calling (.changeVisibility group handle seconds)
        (.op .now (afterClock gate cfg group handle seconds)))) := by
  obtain ⟨φ, hφ⟩ := Actor.isResting_eq_true rests
  have code := code_change gate cfg group handle seconds
  rw [if_neg (by omega)] at code
  rw [← code]
  simp only [Pool.act, hφ]
  rfl

/-- A client calls a change whose handle is accepted, and reads its clock. -/
theorem claims_reached {A : Pool (api gate cfg) → Act (api gate cfg) → Prop} {P : Pool (api gate cfg)}
    (admitted : ∀ Q a, A Q a) {p : ℕ} {group : String} {handle : List Char} {receipt : Receipt}
    {i : Input} (rests : (P.actors p).isResting = true) (seconds : ℕ)
    (within : seconds * 1000 ≤ cfg.maxVisibilityTimeoutMs)
    (hd : gate.decodeReceipt cfg handle group i.now = .ok receipt) :
    ∃ P', Pool.Reach A P P' ∧ P'.shared = P.shared ∧
      P'.actors p = .calling (.changeVisibility group handle seconds) (claims cfg receipt seconds) := by
  have read : afterClock gate cfg group handle seconds i.now = claims cfg receipt seconds := by
    unfold afterClock
    rw [hd]
  obtain ⟨Q, hQ⟩ : ∃ Q, Q = P.set p (.calling (.changeVisibility group handle seconds)
      (.op .now (afterClock gate cfg group handle seconds))) := ⟨_, rfl⟩
  have calling : Q.actors p = .calling (.changeVisibility group handle seconds)
      (.op .now (afterClock gate cfg group handle seconds)) := by
    rw [hQ, Pool.set_actors_self]
  have shared : Q.shared = P.shared := by rw [hQ, Pool.set_shared]
  have called : Pool.Reach A P Q :=
    .step _ .refl (admitted _ _) (hQ ▸ act_call rests group handle seconds within)
  refine ⟨Q.set p (.calling (.changeVisibility group handle seconds) (claims cfg receipt seconds)),
    called.step (.exec p i) (admitted _ _) ?_, shared, Pool.set_actors_self ..⟩
  simp only [Pool.act, calling]
  rw [← read]
  rfl

namespace Passed

open BornStale

/-- A gate with one key. -/
def oneKey : Gate where
  codec := QueueApi.NotAscii.codec
  mac := fun key message => key ++ message
  lenient := ⟨fun _ => none, fun _ => none, fun _ => none⟩
  names := {
    name := fun i => String.ofList (Json.natural i)
    id := fun s => Json.ofDecimal s.toList
    id_name := fun i => by simp [Json.ofDecimal_natural] }

/-- The consumer of another process. -/
def other : QueueStore := { store with consumer := "http-2" }

/-- A message is received by client `0`, and when its lease has ended by client `p`. -/
def received (p : ℕ) : List (Act (api oneKey config)) :=
  [.call 0 (.send store envelope), .exec 0 {}, .ret 0] ++
    (.call 0 (.receive store "billing" 1 none) :: List.replicate 5 (.exec 0 {})) ++
    [.ret 0, .disturb (.advance 10)] ++
    (.call p (.receive other "billing" 1 none) :: List.replicate 4 (.exec p {})) ++ [.ret p]

/-- The first receipt. -/
def receipt : Receipt := (message 1).receipt

theorem accepted {t : ℤ} (h : t ≤ 10) :
    oneKey.decodeReceipt config (oneKey.encode receipt) "billing" t = .ok receipt :=
  Gate.decodeReceipt_encode.2 ⟨rfl, rfl, by simpa [receipt, message, oneKey, QueueApi.NotAscii.codec] using h⟩

end Passed

open BornStale Passed in
theorem change_unfenced : ¬ ∀ P : Pool (api oneKey config),
    Pool.Reach (fun _ _ => True) (start oneKey config) P → ∀ p i, Fenced P p i := by
  intro h
  have run : ∃ P ∈ (start oneKey config).runIf (fun _ _ _ _ _ => True) (received 1),
      (P.actors 0).isResting = true ∧
      (1, .granted "evb:queue:orders" "billing" 1 2) ∈ P.shared.plane.log ∧
      P.shared.plane.pendingEntry "evb:queue:orders" "billing" 1 = some ⟨"http-2", 10, 2⟩ ∧
      (P.shared.exec 0 (.stream (.xclaim "evb:queue:orders" "billing" "http" [1] 10)) {}).2.plane.pendingEntry
        "evb:queue:orders" "billing" 1 = some ⟨"http", 0, 2⟩ := by decide +kernel
  obtain ⟨P, hP, rests, granted, before, after⟩ := run
  obtain ⟨P', reached, shared, claiming⟩ := claims_reached (A := fun _ _ => True) (i := { now := 10 })
    (fun _ _ => trivial) rests 0 (by decide) (accepted (le_refl 10))
  have superseded : Superseded receipt P'.shared := by
    rw [shared]
    exact ⟨1, 2, granted, by decide⟩
  have kept := h P' (((Pool.Reach.of_runIf hP).mono fun _ _ _ => trivial).trans reached) 0 {} claiming
    (accepted (le_refl 10)) superseded
  rw [shared] at kept
  exact absurd (after.symm.trans (kept.trans before)) (by decide)

namespace Passed

open BornStale

/-- No change reads its clock. -/
def unread (Q : Pool (api oneKey config)) : Act (api oneKey config) → Bool
  | .exec p _ =>
    match (Q.actors p).issuing with
    | some (.changeVisibility ..) => false
    | _ => true
  | _ => true

theorem inTime {Q Q' : Pool (api oneKey config)} {a : Act (api oneKey config)}
    (rest : ∀ q, q ≠ 0 → ∃ φ, Q.actors q = .resting φ) (solo : Pool.Solo 0 a)
    (ha : unread Q a = true) (_hs : Q.act a = some Q') : InTime Q a := by
  cases a with
  | exec p i =>
    obtain rfl : p = 0 := solo
    intro o c k hp
    have notChange : ∀ group handle seconds, o ≠ .changeVisibility group handle seconds := by
      rintro group handle seconds rfl
      simp [unread, hp, Actor.issuing] at ha
    refine ⟨fun group handle seconds _ ho => absurd ho (notChange _ _ _), fun q r c' hq => ?_⟩
    obtain ⟨group, handle, seconds, hq⟩ := hq
    by_cases hq0 : q = 0
    · subst hq0
      rw [hp] at hq
      cases hq
      exact absurd rfl (notChange _ _ _)
    · obtain ⟨φ, hφ⟩ := rest q hq0
      rw [hφ] at hq
      cases hq
  | _ => trivial

end Passed

open BornStale Passed in
theorem change_fenced_witness : ∃ P : Pool (api oneKey config),
    (P.actors 0).issuing = some (.changeVisibility "billing" (oneKey.encode receipt) 0) ∧
      Superseded receipt P.shared ∧ FencedByTime P ∧ ∀ p i, Fenced P p i := by
  have run : ∃ r ∈ (start oneKey config).recordSolo 0 unread (fun _ _ _ => ()) () (received 0),
      (r.1.actors 0).isResting = true ∧
      (0, .granted "evb:queue:orders" "billing" 1 2) ∈ r.1.shared.plane.log := by decide +kernel
  obtain ⟨⟨P, u⟩, hP, rests, granted⟩ := run
  have recorded := Pool.Recorded.of_solo inTime (fun _ _ => ⟨(), rfl⟩) hP
  have called := act_call rests "billing" (oneKey.encode receipt) 0 (by decide)
  generalize hQ : P.set 0 _ = Q at called
  have reached : Pool.Reach InTime (start oneKey config) Q :=
    .step (.call 0 (.changeVisibility "billing" (oneKey.encode receipt) 0)) recorded.reach trivial called
  have fenced := change_fenced (reached.mono fun _ _ _ => trivial)
  refine ⟨Q, ?_, ?_, fenced, fenced.inTime reached⟩
  · rw [← hQ, Pool.set_actors_self]
    rfl
  · rw [← hQ]
    exact ⟨0, 2, granted, by decide⟩

end Clients

end NavigatorEventbus
