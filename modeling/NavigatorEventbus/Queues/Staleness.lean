import NavigatorEventbus.Queues.Footprint
import NavigatorEventbus.Queues.Generation
import NavigatorEventbus.Redis.Pending

/-!
# Stale receipts

A strict delete asks `XPENDING` for the counter of its entry and acknowledges the entry by `XACK` when
the counter is not beyond the receipt's.  These are two commands: an entry that is granted between them
is acknowledged all the same.  In the runs without such a grant, a receipt that was superseded never
acknowledges.
-/

namespace NavigatorEventbus

open Interleave

namespace Pull

variable {cfg : QueueConfig}

/-- The command grants entry `id` of a group. -/
def Grants (σ : Server) (s g : String) (id : EntryId) : Cmd → Prop
  | .stream (.xreadgroup s' g' _ count) =>
    s' = s ∧ g' = g ∧ id ∈ (σ.plane.streams s).readIds g count
  | .stream (.xautoclaim s' g' _ minIdle count) =>
    s' = s ∧ g' = g ∧ id ∈ ((σ.plane.streams s).claims g minIdle count σ.now).1
  | _ => False

/-- The delete of actor `q` has passed its check, and sends its `XACK` next. -/
def AboutToAck (P : Pool (pull cfg)) (q : ℕ) (receipt : Receipt) : Prop :=
  ∃ k, P.actors q = .calling (.delete receipt)
    (.op (.stream (.xack receipt.stream receipt.group receipt.messageId)) k)

/-- No command fails, and none grants an entry between the check and the `XACK` of a delete of it. -/
def Undisturbed (P : Pool (pull cfg)) : Act (pull cfg) → Prop
  | .exec p i => i.fails = false ∧ ∀ o c k, P.actors p = .calling o (.op c k) →
      ∀ q receipt, AboutToAck P q receipt →
        ¬ Grants P.shared receipt.stream receipt.group receipt.messageId c
  | _ => True

/-- The entry of the receipt, where it is pending, was not delivered more often than the receipt
says. -/
def Current (receipt : Receipt) (σ : Server) : Prop :=
  ∀ e, σ.plane.pendingEntry receipt.stream receipt.group receipt.messageId = some e →
    e.timesDelivered ≤ receipt.delivered

/-- A command that grants the entry to nobody does not supersede the receipt. -/
theorem Current.exec {receipt : Receipt} {σ : Server} (h : Current receipt σ) {p : ℕ} {c : Cmd}
    {i : Input} (hg : ∀ c', c = .stream c' →
      ¬ GrantedBy σ.plane σ.now i receipt.stream receipt.group receipt.messageId c') :
    Current receipt (σ.exec p c i).2 := by
  cases c with
  | now | keyed => exact h
  | stream c =>
    intro e' he'
    have becomes := becomes σ.plane p σ.now i c receipt.stream receipt.group receipt.messageId
    have after : (σ.plane.exec p σ.now i c).2.pendingEntry receipt.stream receipt.group
        receipt.messageId = some e' := he'
    rw [after] at becomes
    generalize hnew : some e' = new at becomes
    cases becomes with
    | same => exact h e' hnew.symm
    | gone => cases hnew
    | read hc hid =>
      subst hc
      exact absurd ⟨rfl, rfl, hid⟩ (hg _ rfl)
    | claimed hc ok hid _ =>
      subst hc
      exact absurd ⟨ok, rfl, rfl, hid⟩ (hg _ rfl)
    | moved _ _ _ he =>
      cases hnew
      have same := h _ he
      exact same

/-! ## The program of a strict delete -/

/-- What a delete does once its check has passed. -/
def acks (cfg : QueueConfig) (receipt : Receipt) : Script PullResult := do
  QueueStore.removeEntry cfg receipt
  return .deleted (.ok ())

/-- What a delete does with the reply of its check. -/
def afterCheck (cfg : QueueConfig) (receipt : Receipt) : Option (List Pending) → Script PullResult
  | none => acks cfg receipt
  | some pending =>
    if pending.any fun e => receipt.delivered < e.timesDelivered then
      return .deleted (.error (.staleReceipt receipt.messageId))
    else acks cfg receipt

theorem code_delete (strict : cfg.strictAck = true) (receipt : Receipt) :
    (pull cfg).code (.delete receipt) =
      .op (.stream (.xpendingEntry receipt.stream receipt.group receipt.messageId))
        (afterCheck cfg receipt) := by
  simp only [QueueStore.delete, QueueStore.leaseSuperseded, strict, if_true, Script.stream_eq,
    Prog.op_bind, Prog.pure_bind']
  refine congrArg _ (funext fun reply => ?_)
  cases reply with
  | none => simp [afterCheck, acks]
  | some pending =>
    simp only [afterCheck, acks, Prog.pure_eq, Prog.pure_bind']
    split_ifs <;> simp

/-- A command that acknowledges nothing. -/
def NoAck (c : Cmd) : Prop := ∀ s g id, c ≠ .stream (.xack s g id)

/-- What a delete does after its `XACK`. -/
def afterAck (cfg : QueueConfig) (receipt : Receipt) : Script PullResult := do
  if cfg.deleteEntries then
    let _ ← Script.stream (.xdel receipt.stream receipt.messageId)
  return .deleted (.ok ())

theorem acks_eq (receipt : Receipt) :
    acks cfg receipt = .op (.stream (.xack receipt.stream receipt.group receipt.messageId))
      fun _ => afterAck cfg receipt := by
  simp only [acks, QueueStore.removeEntry, QueueStore.ack, Script.stream_eq, Prog.op_bind,
    Prog.pure_bind', Prog.bind_assoc']
  refine congrArg _ (funext fun _ => ?_)
  unfold afterAck
  split_ifs <;> simp [Script.stream_eq]

theorem noAck_afterAck (receipt : Receipt) : (afterAck cfg receipt).All NoAck := by
  unfold afterAck
  dsimp only
  split_ifs
  · exact .bind (.one fun _ _ _ h => by cases h) fun _ => trivial
  · trivial

/-- Where a strict delete stands: before its check, between its check and its `XACK` with a receipt
that is current, or with nothing left to acknowledge. -/
def DeleteStands (cfg : QueueConfig) (receipt : Receipt) (x : Script PullResult) (σ : Server) : Prop :=
  x = (pull cfg).code (.delete receipt) ∨ x = acks cfg receipt ∧ Current receipt σ ∨ x.All NoAck

def DeletesStand (P : Pool (pull cfg)) : Prop :=
  ∀ q receipt x, P.actors q = .calling (.delete receipt) x → DeleteStands cfg receipt x P.shared

/-- The command that a strict delete sends takes it to where it stands next. -/
theorem DeleteStands.exec (strict : cfg.strictAck = true) {receipt : Receipt} {σ : Server} {c : Cmd}
    {k : c.Reply → Script PullResult} (h : DeleteStands cfg receipt (.op c k) σ) {p : ℕ} {i : Input}
    (ok : i.fails = false) : DeleteStands cfg receipt (k (σ.exec p c i).1) (σ.exec p c i).2 := by
  rcases h with h | ⟨h, -⟩ | h
  · rw [code_delete strict] at h
    cases h
    have reply : (σ.exec p (.stream (.xpendingEntry receipt.stream receipt.group
        receipt.messageId)) i).1 = some (σ.plane.pendingEntry receipt.stream receipt.group
          receipt.messageId).toList := by
      simp [Server.exec, Plane.exec, ok, Plane.pendingEntry]
    rw [reply]
    unfold afterCheck
    dsimp only
    split_ifs with stale
    · exact .inr (.inr trivial)
    · refine .inr (.inl ⟨rfl, fun e he => ?_⟩)
      have he : σ.plane.pendingEntry receipt.stream receipt.group receipt.messageId = some e := he
      simp only [he, Option.toList_some, List.any_cons, List.any_nil, Bool.or_false,
        decide_eq_true_eq] at stale
      omega
  · rw [acks_eq] at h
    cases h
    exact .inr (.inr (noAck_afterAck receipt))
  · exact .inr (.inr (h.2 _))

theorem DeleteStands.other {receipt : Receipt} {x : Script PullResult} {σ σ' : Server}
    (h : DeleteStands cfg receipt x σ)
    (current : x = acks cfg receipt → Current receipt σ → Current receipt σ') :
    DeleteStands cfg receipt x σ' := by
  rcases h with h | ⟨h, hc⟩ | h
  · exact .inl h
  · exact .inr (.inl ⟨h, current h hc⟩)
  · exact .inr (.inr h)

/-- Every decision keeps the deletes where they should stand. -/
theorem DeletesStand.act (strict : cfg.strictAck = true) {P P' : Pool (pull cfg)}
    (h : DeletesStand P) {a : Act (pull cfg)} (ha : Undisturbed P a) (hs : P.act a = some P') :
    DeletesStand P' := by
  have set : ∀ {p : ℕ} {y : Actor redis PullCall PullResult Unit} {σ : Server},
      (∀ receipt x, y = .calling (.delete receipt) x → DeleteStands cfg receipt x σ) →
      (∀ q receipt x, q ≠ p → P.actors q = .calling (.delete receipt) x →
        DeleteStands cfg receipt x σ) →
      DeletesStand ({ P with shared := σ }.set p y) := by
    intro p y σ new old
    exact Pool.forall_set (P := { P with shared := σ }) (J := fun _ a => ∀ receipt x,
      a = .calling (PullCall.delete receipt) x → DeleteStands cfg receipt x σ) new
      fun q hq receipt x => old q receipt x hq
  cases Pool.acted hs with
  | call =>
    refine set (fun receipt x e => ?_) fun q receipt x _ hq => h q receipt x hq
    cases e
    exact .inl rfl
  | @exec p i o c k hp =>
    refine set (fun receipt x e => ?_) fun q receipt x _ hq => ?_
    · cases e
      exact (h p receipt _ hp).exec strict ha.1
    · refine (h q receipt x hq).other fun hx current => ?_
      subst hx
      rw [acks_eq] at hq
      refine current.exec fun c' hc granted => ha.2 o c k hp q receipt ⟨_, hq⟩ ?_
      subst hc
      cases c' with
      | xreadgroup => exact granted
      | xautoclaim => exact granted.2
      | _ => cases granted
  | @ret p o r hp =>
    refine set (fun receipt x e => by cases e) fun q receipt x _ hq => ?_
    refine (h q receipt x hq).other fun _ current => ?_
    cases o with
    | receive => cases r <;> exact current
    | _ => exact current
  | crash => exact set (fun receipt x e => by cases e) fun q receipt x _ hq => h q receipt x hq
  | @disturb d =>
    intro q receipt x hq
    refine (h q receipt x hq).other fun _ current => ?_
    cases d <;> exact current

theorem deletes_stand (strict : cfg.strictAck = true) {P : Pool (pull cfg)}
    (hr : Pool.Reach Undisturbed (start cfg) P) : DeletesStand P := by
  induction hr with
  | refl =>
    intro q receipt x hq
    cases hq
  | step a _ ha hs ih => exact ih.act strict ha hs

/-! ## Stale receipts never acknowledge -/

/-- A delete whose entry was granted with a greater generation than its receipt's leaves the pending
entry as it is, whatever command it sends next. -/
def StaleKept (P : Pool (pull cfg)) : Prop :=
  ∀ {p receipt c k i P' q m}, P.actors p = .calling (.delete receipt) (.op c k) →
    (q, .granted receipt.stream receipt.group receipt.messageId m) ∈ P.shared.plane.log →
    receipt.delivered < m → P.act (.exec p i) = some P' →
    P'.shared.plane.pendingEntry receipt.stream receipt.group receipt.messageId =
      P.shared.plane.pendingEntry receipt.stream receipt.group receipt.messageId

theorem le_deliveries {π : Plane} (h : π.Coherent) {s g : String} {id : EntryId} {q m : ℕ}
    (hm : (q, .granted s g id m) ∈ π.log) : m ≤ deliveries s g id π.log := by
  obtain ⟨later, earlier, eq⟩ := List.append_of_mem hm
  have number := h.numbered _ _ _ _ _ _ _ eq
  have total : deliveries s g id π.log =
      deliveries s g id later + (1 + deliveries s g id earlier) := by
    rw [eq]
    simp [deliveries, StreamEvent.grants]
  omega

/-- In every run whose deletes are undisturbed, a stale receipt never acknowledges. -/
theorem stale_receipt_kept (strict : cfg.strictAck = true) {P : Pool (pull cfg)}
    (hr : Pool.Reach Undisturbed (start cfg) P) : StaleKept P := by
  have coherent : P.shared.plane.Coherent := (coherent_run hr .init).1
  have stand : DeletesStand P := deletes_stand strict hr
  intro p receipt c k i P' q m hp granted newer hs
  have issued : (PullCall.delete receipt).Issues cfg c := (hr.calls issues (start_calls {}) p _ _ hp).1
  simp only [Pool.act, hp, Option.some.injEq] at hs
  subst hs
  show (Server.exec p c i P.shared).2.plane.pendingEntry _ _ _ = _
  rcases issued with rfl | rfl | ⟨-, rfl⟩
  · rfl
  · -- the check left the receipt current, so the entry is no longer pending
    have gone : P.shared.plane.pendingEntry receipt.stream receipt.group receipt.messageId =
        none := by
      rcases stand p receipt _ hp with h | ⟨-, current⟩ | h
      · rw [code_delete strict] at h
        cases h
      · by_contra hne
        obtain ⟨e, he⟩ := Option.ne_none_iff_exists'.1 hne
        have counted := coherent.counted _ _ _ _ he
        have le := le_deliveries coherent granted
        have := current e he
        omega
      · exact absurd rfl (h.1 _ _ _)
    have becomes := becomes P.shared.plane p P.shared.now i
      (.xack receipt.stream receipt.group receipt.messageId) receipt.stream receipt.group
      receipt.messageId
    show ((P.shared.plane.exec p P.shared.now i _).2).pendingEntry _ _ _ = _
    generalize (P.shared.plane.exec p P.shared.now i _).2.pendingEntry _ _ _ = new at becomes
    cases becomes with
    | same => rfl
    | gone => exact gone.symm
    | read hc => cases hc
    | claimed hc => cases hc
    | moved hc => cases hc
  · show ((P.shared.plane.exec p P.shared.now i _).2).pendingEntry _ _ _ = _
    simp only [Plane.exec]
    split_ifs
    · rfl
    · exact Plane.pendingEntry_of_groups rfl

/-! ## A lease that ends under a delete -/

open BornStale in
/-- A message is received; its lease ends between the check and the `XACK` of its delete, and
another replica receives it. -/
def reclaimed : List (Act (pull config)) :=
  [.call 0 (.send store envelope), .exec 0 {}, .ret 0] ++
    (.call 0 receive :: List.replicate 5 (.exec 0 {})) ++
    [.ret 0, .disturb (.advance 9), .call 0 (.delete (message 1).receipt), .exec 0 {},
      .disturb (.advance 1)] ++
    (.call 1 receive :: List.replicate 3 (.exec 1 {}))

/-- No command fails. -/
def Unfailing (_p : ℕ) (_o : PullCall) (_c : Cmd) (i : Input) (_σ : Server) : Prop := i.fails = false

instance (p : ℕ) (o : PullCall) (c : Cmd) (i : Input) (σ : Server) :
    Decidable (Unfailing p o c i σ) :=
  inferInstanceAs (Decidable (i.fails = false))

open BornStale in
theorem stale_receipt_acks : ¬ ∀ P : Pool (pull config),
    Pool.Reach (Pool.Meets Unfailing) (start config) P → StaleKept P := by
  intro h
  have run : ∃ P ∈ (start config).runIf Unfailing reclaimed,
      (P.actors 0).issuing = some (.delete (message 1).receipt) ∧
      (1, .granted "evb:queue:orders" "billing" 1 2) ∈ P.shared.plane.log ∧
      ∃ P' ∈ P.act (.exec 0 {}),
        P'.shared.plane.pendingEntry "evb:queue:orders" "billing" 1 ≠
          P.shared.plane.pendingEntry "evb:queue:orders" "billing" 1 := by decide +kernel
  obtain ⟨P, hP, deleting, granted, P', hP', acked⟩ := run
  obtain ⟨c, k, hc⟩ := Actor.issuing_eq_some deleting
  exact acked (h P (.of_runIf hP) hc granted (by decide) hP')

/-- Only actor `0` executes commands, and none fails. -/
def Alone (p : ℕ) (_o : PullCall) (_c : Cmd) (i : Input) (_σ : Server) : Prop :=
  p = 0 ∧ i.fails = false

instance (p : ℕ) (o : PullCall) (c : Cmd) (i : Input) (σ : Server) : Decidable (Alone p o c i σ) :=
  inferInstanceAs (Decidable (_ ∧ _))

/-- An actor that is alone disturbs no delete. -/
theorem Alone.undisturbed (strict : cfg.strictAck = true) {P : Pool (pull cfg)}
    (hr : Pool.Reach (Pool.Meets Alone) (start cfg) P) : Pool.Reach Undisturbed (start cfg) P := by
  induction hr with
  | refl => exact .refl
  | @step Q Q' a hr ha hs ih =>
    refine .step a ih ?_ hs
    cases a with
    | exec p i =>
      cases Pool.acted hs with | exec hp
      obtain ⟨rfl, ok⟩ := ha _ _ _ hp
      refine ⟨ok, fun o' c' k' hp' q receipt hq => ?_⟩
      obtain ⟨l, hl⟩ := hq
      by_cases hq0 : q = 0
      · subst hq0
        rw [hl] at hp'
        cases hp'
        exact id
      · have ne : ∀ {p o c i σ}, Alone p o c i σ → p ≠ q := fun h hpq => hq0 (hpq.symm.trans h.1)
        have code := hr.untouched ne (fun o x h => by cases h) _ _ hl
        rw [code_delete strict] at code
        cases code
    | _ => trivial

open BornStale in
theorem stale_receipt_kept_witness : ∃ P : Pool (pull config),
    (P.actors 0).issuing = some (.delete (message 1).receipt) ∧
      (0, .granted "evb:queue:orders" "billing" 1 2) ∈ P.shared.plane.log ∧ StaleKept P := by
  have run : ∃ P ∈ (start config).runIf Alone
      ([.call 0 (.send store envelope), .exec 0 {}, .ret 0] ++
        (.call 0 receive :: List.replicate 5 (.exec 0 {})) ++ [.ret 0, .disturb (.advance 10)] ++
        (.call 0 receive :: List.replicate 4 (.exec 0 {})) ++
        [.ret 0, .call 0 (.delete (message 1).receipt)]),
      (P.actors 0).issuing = some (.delete (message 1).receipt) ∧
        (0, .granted "evb:queue:orders" "billing" 1 2) ∈ P.shared.plane.log := by decide +kernel
  obtain ⟨P, hP, deleting, granted⟩ := run
  exact ⟨P, deleting, granted, stale_receipt_kept rfl (Alone.undisturbed rfl (.of_runIf hP))⟩

end Pull

end NavigatorEventbus
