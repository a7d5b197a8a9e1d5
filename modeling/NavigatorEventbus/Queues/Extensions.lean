import NavigatorEventbus.Queues.Clients
import NavigatorEventbus.Queues.Staleness

/-!
# Extended leases

A change of the visibility moves the idle clock of its entry, and nothing else: the handle keeps the
expiry that it was minted with.  So the lease may run on after the handle that ends it has expired.
-/

namespace NavigatorEventbus

open Interleave Receipts

namespace Clients

open Pull

variable {gate : Gate} {cfg : QueueConfig} {group : String} {handle : List Char} {receipt : Receipt}
  {t t' : ℤ}

/-- The entry of a request that actor `q` executes with input `i` has the outcome of success. -/
def Accepted (entry : Script (Option EntryOutcome)) (q : ℕ) (i : Input) (σ : Server) : Prop :=
  ∃ id σ', entry.run server q i σ = some (some (.ok id), σ')

/-! ## What is accepted -/

theorem run_decodeHandle (act : Receipt → Script EntryOutcome) (q : ℕ) (i : Input) (σ : Server) :
    (do
      let receipt ← QueueApi.decodeHandle gate cfg group handle
      QueueApi.withReceipt act receipt : Script (Option EntryOutcome)).run server q i σ =
      (QueueApi.withReceipt act
        (QueueApi.catchReceiptError (gate.decodeReceipt cfg handle group i.now))).run server q i σ :=
  rfl

/-- An entry succeeds when its handle is accepted and what is done with the receipt succeeds. -/
theorem accepted_withReceipt {act : Receipt → Script EntryOutcome} {q : ℕ} {i : Input} {σ : Server}
    {C : Receipt → Prop}
    (h : ∀ r, (∃ id σ', (act r).run server q i σ = some (.ok id, σ')) ↔ C r) :
    Accepted (do
      let receipt ← QueueApi.decodeHandle gate cfg group handle
      QueueApi.withReceipt act receipt) q i σ ↔
      ∃ r, gate.decodeReceipt cfg handle group i.now = .ok r ∧ C r := by
  unfold Accepted
  rw [run_decodeHandle]
  cases gate.decodeReceipt cfg handle group i.now with
  | error e => cases e <;> simp [QueueApi.catchReceiptError, QueueApi.withReceipt, Prog.run]
  | ok r =>
    simp only [QueueApi.catchReceiptError, QueueApi.withReceipt, Except.ok.injEq, exists_eq_left', ← h r,
      Prog.run_bind]
    cases (act r).run server q i σ with
    | none => simp
    | some x =>
      obtain ⟨outcome, σ'⟩ := x
      simp [Prog.run]

theorem run_removeEntry (r : Receipt) (q : ℕ) (i : Input) (σ : Server) :
    ∃ σ', (QueueStore.removeEntry cfg r).run server q i σ = some ((), σ') := by
  unfold QueueStore.removeEntry
  dsimp only
  split_ifs <;> exact ⟨_, rfl⟩

theorem run_leaseSuperseded (r : Receipt) (q : ℕ) {i : Input} (ok : i.fails = false) (σ : Server) :
    ∃ stale, (QueueStore.leaseSuperseded r).run server q i σ = some (stale, σ) ∧
      (stale = false ↔ Current r σ) := by
  have reply : (σ.exec q (.stream (.xpendingEntry r.stream r.group r.messageId)) i).1 =
      some (σ.plane.pendingEntry r.stream r.group r.messageId).toList := by
    simp [Server.exec, Plane.exec, ok, Plane.pendingEntry]
  refine ⟨(σ.plane.pendingEntry r.stream r.group r.messageId).toList.any
    fun e => r.delivered < e.timesDelivered, ?_, ?_⟩
  · simp only [QueueStore.leaseSuperseded, Script.stream_eq, Prog.op_bind, Prog.run, Prog.pure_bind']
    rw [reply]
    rfl
  · unfold Current
    cases σ.plane.pendingEntry r.stream r.group r.messageId <;> simp

/-- A delete accepts a receipt that is current, and any receipt when it is not strict. -/
theorem deleteReceipt_ok (r : Receipt) (q : ℕ) {i : Input} (ok : i.fails = false) (σ : Server) :
    (∃ id σ', (QueueApi.deleteReceipt cfg r).run server q i σ = some (.ok id, σ')) ↔
      (cfg.strictAck = true → Current r σ) := by
  have removes : ∃ σ', (QueueStore.removeEntry cfg r).run server q i σ = some ((), σ') := by
    unfold QueueStore.removeEntry
    dsimp only
    split_ifs <;> exact ⟨_, rfl⟩
  obtain ⟨σ', removed⟩ := removes
  unfold QueueApi.deleteReceipt QueueStore.delete
  by_cases strict : cfg.strictAck = true
  · obtain ⟨stale, run, current⟩ := run_leaseSuperseded r q ok σ
    simp only [strict, if_true, true_implies, Prog.run_bind, run, Option.bind_some, ← current]
    cases stale with
    | true => simp [Prog.run]
    | false =>
      simp [Prog.run, Prog.run_bind, removed]
  · simp [strict, Prog.run, Prog.run_bind, removed]

theorem accepted_delete {q : ℕ} {i : Input} (ok : i.fails = false) {σ : Server} :
    Accepted (QueueApi.deleteEntry gate cfg group handle) q i σ ↔
      ∃ r, gate.decodeReceipt cfg handle group i.now = .ok r ∧ (cfg.strictAck = true → Current r σ) :=
  accepted_withReceipt fun r => deleteReceipt_ok r q ok σ

/-- A change accepts every receipt, current or not. -/
theorem accepted_change {q seconds : ℕ} {i : Input} (ok : i.fails = false) {σ : Server} :
    Accepted (QueueApi.visibilityEntry gate cfg group handle seconds) q i σ ↔
      seconds * 1000 ≤ cfg.maxVisibilityTimeoutMs ∧
        ∃ r, gate.decodeReceipt cfg handle group i.now = .ok r := by
  unfold QueueApi.visibilityEntry
  dsimp only
  split_ifs with hmax
  · have tooLong : ¬ (seconds : ℤ) * 1000 ≤ cfg.maxVisibilityTimeoutMs := by omega
    simp [Accepted, Prog.run, tooLong]
  · have within : (seconds : ℤ) * 1000 ≤ cfg.maxVisibilityTimeoutMs := by omega
    have changed : ∀ r, (∃ id σ', (QueueApi.changeReceipt cfg r (seconds * 1000)).run server q i σ =
        some (.ok id, σ')) ↔ True := by
      intro r
      have reply : ∀ idle, (σ.exec q (.stream (.xclaim r.stream r.group r.consumer [r.messageId] idle)) i).1 =
          some () := by
        simp [Server.exec, Plane.exec, ok]
      simp only [QueueApi.changeReceipt, QueueStore.changeVisibility, Script.stream_eq, Prog.op_bind,
        Prog.run, Prog.pure_bind', iff_true]
      rw [reply]
      exact ⟨_, _, rfl⟩
    rw [accepted_withReceipt changed]
    simp [within]

/-! ## How long a handle is accepted -/

/-- The command hands the entry of the receipt out to nobody. -/
def Unredelivered (receipt : Receipt) (_p : ℕ) (_o : ApiCall) (c : Cmd) (i : Input) (σ : Server) : Prop :=
  ∀ c', c = .stream c' →
    ¬ GrantedBy σ.plane σ.now i receipt.stream receipt.group receipt.messageId c'

/-- A receipt stays current until its entry is handed out again. -/
theorem current_of_unredelivered {P P' : Pool (api gate cfg)} (h : Current receipt P.shared)
    (hr : Pool.Reach (Pool.Meets (Unredelivered receipt)) P P') : Current receipt P'.shared := by
  refine hr.invariant (D := fun _ _ => True) (J := Current receipt)
    (fun _ => .of_forall (fun _ => trivial) _) (fun _ ungranted current => current.exec ungranted)
    (fun {p o r σ} current => ?_) (fun d current => ?_) (fun _ _ x _ => .of_forall (fun _ => trivial) x) h
  · cases o with
    | receive => cases r <;> exact current
    | _ => exact current
  · cases d <;> exact current

/-- Until `v` ms after `t`, while the entry is not handed out again, a delete and a change with the
handle are accepted. -/
def Usable (group : String) (handle : List Char) (receipt : Receipt) (P : Pool (api gate cfg))
    (t v : ℤ) : Prop :=
  ∀ P', Pool.Reach (Pool.Meets (Unredelivered receipt)) P P' →
    ∀ q i, i.fails = false → t ≤ i.now → i.now < t + v →
      Accepted (QueueApi.deleteEntry gate cfg group handle) q i P'.shared ∧
        ∀ seconds : ℕ, seconds * 1000 ≤ cfg.maxVisibilityTimeoutMs →
          Accepted (QueueApi.visibilityEntry gate cfg group handle seconds) q i P'.shared

theorem usable_iff (hd : gate.decodeReceipt cfg handle group t' = .ok receipt) (P : Pool (api gate cfg))
    (t v : ℤ) : Usable group handle receipt P t v ↔
      (0 < v → t + v ≤ receipt.expiresAtMs + gate.codec.graceMs + 1 ∧
        (cfg.strictAck = true → Current receipt P.shared)) := by
  constructor
  · intro h pos
    have last := (h P .refl 0 { now := t + v - 1 } rfl (by show t ≤ t + v - 1; omega)
      (by show t + v - 1 < t + v; omega)).1
    obtain ⟨r, hr, current⟩ := (accepted_delete rfl).1 last
    obtain rfl := Gate.decodeReceipt_unique hd hr
    have unexpired : t + v - 1 ≤ receipt.expiresAtMs + gate.codec.graceMs :=
      (Gate.decodeReceipt_later hd).1 hr
    exact ⟨by omega, current⟩
  · intro h P' hr q i ok since before
    obtain ⟨lasts, current⟩ := h (by omega)
    have decoded : gate.decodeReceipt cfg handle group i.now = .ok receipt :=
      (Gate.decodeReceipt_later hd).2 (by omega)
    refine ⟨(accepted_delete ok).2 ⟨receipt, decoded, fun strict => ?_⟩, fun seconds within => ?_⟩
    · exact current_of_unredelivered (current strict) hr
    · exact (accepted_change ok).2 ⟨within, receipt, decoded⟩

/-! ## The XCLAIM of a change -/

/-- What a change has left to execute: all of it, the `XCLAIM` of an accepted receipt, or nothing. -/
def Remains (gate : Gate) (cfg : QueueConfig) (o : ApiCall) (x : Script ApiResult) : Prop :=
  ∀ group handle (seconds : ℕ), o = .changeVisibility group handle seconds →
    x = (api gate cfg).code o ∨
      (seconds * 1000 ≤ cfg.maxVisibilityTimeoutMs ∧ ∃ t receipt,
        gate.decodeReceipt cfg handle group t = .ok receipt ∧ x = claims cfg receipt seconds) ∨
      ∃ r, x = .pure r

theorem Remains.next {o : ApiCall} {c : Cmd} {k : c.Reply → Script ApiResult}
    (h : Remains gate cfg o (.op c k)) (r : c.Reply) : Remains gate cfg o (k r) := by
  rintro group handle seconds rfl
  rcases h _ _ _ rfl with h | ⟨within, t, receipt, hd, h⟩ | ⟨r, h⟩
  · rw [code_change] at h
    split_ifs at h with hmax
    cases h
    cases hd : gate.decodeReceipt cfg handle group r with
    | ok receipt =>
      refine .inr (.inl ⟨by omega, r, receipt, hd, ?_⟩)
      simp only [afterClock, hd]
    | error e =>
      refine .inr (.inr ?_)
      cases e <;> simp [afterClock, hd]
  · rw [claims_eq] at h
    cases h
    exact .inr (.inr ⟨_, rfl⟩)
  · cases h

/-- A change sends its `XCLAIM` when its handle was accepted and the visibility is within the maximum. -/
theorem claiming {A : Pool (api gate cfg) → Act (api gate cfg) → Prop} {P : Pool (api gate cfg)}
    (hr : Pool.Reach A (start gate cfg) P) {p seconds : ℕ} {c : StreamCmd}
    {k : c.Reply → Script ApiResult}
    (hp : P.actors p = .calling (.changeVisibility group handle seconds) (.op (.stream c) k)) :
    seconds * 1000 ≤ cfg.maxVisibilityTimeoutMs ∧ ∃ t receipt,
      gate.decodeReceipt cfg handle group t = .ok receipt ∧
        .op (.stream c) k = claims cfg receipt seconds := by
  have remains := hr.programs (J := Remains gate cfg) (fun o _ _ _ _ => .inl rfl)
    (fun h r => h.next r) (fun _ _ _ h => by cases h) p _ _ hp
  rcases remains _ _ _ rfl with h | h | ⟨r, h⟩
  · rw [code_change] at h
    split_ifs at h
    cases h
  · exact h
  · cases h

/-- What a change of the visibility at time `t`, from `P` to `P'`, is worth: a pending entry is leased
for `seconds`, and the handle serves until then exactly under a condition on its expiry and
generation. -/
structure Extended (group : String) (handle : List Char) (receipt : Receipt) (seconds : ℕ)
    (P P' : Pool (api gate cfg)) : Prop where
  leased : ∀ e, P'.shared.plane.pendingEntry receipt.stream receipt.group receipt.messageId = some e →
    e.deliveredAt + cfg.maxVisibilityTimeoutMs = P.shared.now + seconds * 1000
  usable : Usable group handle receipt P' P.shared.now (seconds * 1000) ↔
    (0 < seconds →
      P.shared.now + seconds * 1000 ≤ receipt.expiresAtMs + gate.codec.graceMs + 1 ∧
        (cfg.strictAck = true →
          ((P.shared.plane.streams receipt.stream).entries receipt.messageId).isSome →
            Current receipt P.shared))

theorem lease_extended {P P' : Pool (api gate cfg)}
    (hr : Pool.Reach (fun _ _ => True) (start gate cfg) P) {p seconds : ℕ} {i : Input} {c : StreamCmd}
    {k : c.Reply → Script ApiResult}
    (hp : P.actors p = .calling (.changeVisibility group handle seconds) (.op (.stream c) k))
    (ok : i.fails = false) (hs : P.act (.exec p i) = some P') :
    ∃ t receipt, gate.decodeReceipt cfg handle group t = .ok receipt ∧
      Extended group handle receipt seconds P P' := by
  obtain ⟨within, t, receipt, hd, program⟩ := claiming hr hp
  rw [claims_eq] at program
  cases program
  have shared := Pool.shared_of_exec hp hs
  refine ⟨t, receipt, hd, fun e he => ?_, ?_⟩
  · rw [shared, pendingEntry_claim ok] at he
    obtain ⟨e', -, he⟩ := Option.bind_eq_some_iff.1 he
    split_ifs at he <;> cases he <;> dsimp only <;> omega
  · have current : Current receipt P'.shared ↔
        (((P.shared.plane.streams receipt.stream).entries receipt.messageId).isSome →
          Current receipt P.shared) := by
      unfold Current
      rw [shared, pendingEntry_claim ok]
      cases P.shared.plane.pendingEntry receipt.stream receipt.group receipt.messageId <;>
        by_cases stored : ((P.shared.plane.streams receipt.stream).entries receipt.messageId).isSome = true <;>
        simp [stored]
    have pos : (0 : ℤ) < seconds * 1000 ↔ 0 < seconds := by omega
    rw [usable_iff hd, current, pos]

/-! ## A handle that expires before its lease -/

namespace Outlived

open BornStale Passed

/-- A queue whose lease is `10` s, with a reclaim threshold of a minute. -/
def config : QueueConfig where
  name := "orders"
  groups := [{ name := "billing" }]
  defaultVisibilityTimeoutMs := 10000
  maxVisibilityTimeoutMs := 60000
  groups_ne := QueueConfig.brief.groups_ne
  groups_nodup := QueueConfig.brief.groups_nodup
  default_nonneg := by decide
  max_pos := by decide
  maxReceives_pos := QueueConfig.brief.maxReceives_pos
  maxlen_pos := QueueConfig.brief.maxlen_pos
  default_le_max := by decide
  delete_single := QueueConfig.brief.delete_single

/-- A message is received, and half of its lease passes. -/
def received : List (Act (api oneKey config)) :=
  [.call 0 (.send store envelope), .exec 0 {}, .ret 0] ++
    (.call 0 (.receive store "billing" 1 none) :: List.replicate 6 (.exec 0 {})) ++
    [.ret 0, .disturb (.advance 5000)]

/-- Its receipt. -/
def mintedReceipt : Receipt := { (message 1).receipt with expiresAtMs := 10000 }

def minted : List Char := oneKey.encode mintedReceipt

theorem accepted_iff {t : ℤ} :
    oneKey.decodeReceipt config minted "billing" t = .ok mintedReceipt ↔ t ≤ 10000 :=
  Gate.decodeReceipt_encode.trans
    (by simp [mintedReceipt, message, oneKey, QueueApi.NotAscii.codec, config])

/-- The client asks for another `seconds` at `5000` ms. -/
theorem extended_at (seconds : ℕ) (within : (seconds : ℤ) * 1000 ≤ 60000) :
    ∃ (P P' : Pool (api oneKey config)) (c : StreamCmd) (k : c.Reply → Script ApiResult),
      Pool.Reach (fun _ _ => True) (start oneKey config) P ∧
      P.actors 0 = .calling (.changeVisibility "billing" minted seconds) (.op (.stream c) k) ∧
      P.act (.exec 0 {}) = some P' ∧ P.shared.now = 5000 ∧ Current mintedReceipt P.shared := by
  have run : ∃ P ∈ (start oneKey config).runIf (fun _ _ _ _ _ => True) received,
      (P.actors 0).isResting = true ∧ P.shared.now = 5000 ∧
      P.shared.plane.pendingEntry "evb:queue:orders" "billing" 1 = some ⟨"http", -50000, 1⟩ := by
    decide +kernel
  obtain ⟨P, hP, rests, time, pending⟩ := run
  have accepted : oneKey.decodeReceipt config minted "billing" 5000 = .ok mintedReceipt :=
    accepted_iff.2 (by decide)
  obtain ⟨P', reached, shared, claiming⟩ := claims_reached (A := fun _ _ => True) (i := { now := 5000 })
    (fun _ _ => trivial) rests seconds within accepted
  rw [claims_eq] at claiming
  obtain ⟨Q, hQ⟩ : ∃ Q, P'.act (.exec 0 {}) = some Q := by
    simp only [Pool.act, claiming]
    exact ⟨_, rfl⟩
  have current : Current mintedReceipt P'.shared := by
    rw [shared]
    intro e he
    have he : P.shared.plane.pendingEntry "evb:queue:orders" "billing" 1 = some e := he
    rw [pending] at he
    cases he
    decide
  exact ⟨P', Q, _, _, ((Pool.Reach.of_runIf hP).mono fun _ _ _ => trivial).trans reached, claiming, hQ,
    by rw [shared, time], current⟩

end Outlived

open Outlived in
theorem handle_outlived : ¬ ∀ (P P' : Pool (api Passed.oneKey config)) (seconds : ℕ) (c : StreamCmd)
    (k : c.Reply → Script ApiResult), Pool.Reach (fun _ _ => True) (start Passed.oneKey config) P →
    P.actors 0 = .calling (.changeVisibility "billing" minted seconds) (.op (.stream c) k) →
    P.act (.exec 0 {}) = some P' →
      Usable "billing" minted mintedReceipt P' P.shared.now (seconds * 1000) := by
  intro h
  obtain ⟨P, P', c, k, reached, calling, hs, time, -⟩ := extended_at 30 (by decide)
  obtain ⟨accepted, -⟩ := h P P' 30 c k reached calling hs P' .refl 0 { now := 20000 } rfl
    (by rw [time]; decide) (by rw [time]; decide)
  obtain ⟨r, hr, -⟩ := (accepted_delete rfl).1 accepted
  have at_mint : Passed.oneKey.decodeReceipt config minted "billing" 0 = .ok mintedReceipt :=
    accepted_iff.2 (by decide)
  obtain rfl := Gate.decodeReceipt_unique at_mint hr
  exact absurd (accepted_iff.1 hr) (by decide)

open Outlived in
theorem lease_extended_witness : ∃ P' : Pool (api Passed.oneKey config),
    Usable "billing" minted mintedReceipt P' 5000 1000 := by
  obtain ⟨P, P', c, k, reached, calling, hs, time, current⟩ := extended_at 1 (by decide)
  obtain ⟨t, receipt, hd, extended⟩ := lease_extended reached calling rfl hs
  have at_mint : Passed.oneKey.decodeReceipt config minted "billing" 0 = .ok mintedReceipt :=
    accepted_iff.2 (by decide)
  obtain rfl := Gate.decodeReceipt_unique at_mint hd
  have usable := extended.usable.2 fun _ => ⟨by rw [time]; decide, fun _ _ => current⟩
  rw [time] at usable
  exact ⟨P', usable⟩

end Clients

end NavigatorEventbus
