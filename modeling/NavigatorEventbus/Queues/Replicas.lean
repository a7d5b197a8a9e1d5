import NavigatorEventbus.Lib.RelyGuarantee
import NavigatorEventbus.Queues.Store
import NavigatorEventbus.Redis.Pending

/-!
# Replicas on one queue

Any number of replicas and clients that send to, receive from, delete from and change the visibility
of one queue, each command interleaved with those of the others (`pull`).  A receive hands out only
entries that its own commands were granted, each at most once; what it reports as their generation
is one more than the count its `XPENDING` listed.
-/

namespace NavigatorEventbus

open Interleave

/-- A call to the pull plane. -/
inductive PullCall where
  | send (store : QueueStore) (envelope : Envelope)
  | receive (store : QueueStore) (group : String) (maxMessages : ℕ) (visibilityMs : Option ℤ)
  | delete (receipt : Receipt)
  | changeVisibility (receipt : Receipt) (visibilityMs : ℤ)
  deriving DecidableEq

/-- The result of a call. -/
inductive PullResult where
  | sent (id : EntryId)
  | received (ds : List DeliveredMessage)
  | deleted (r : Except Exc Unit)
  | changed (r : Option Unit)
  deriving DecidableEq

/-- The entries that a result hands out, with the generations in their receipts. -/
def handouts (ds : List DeliveredMessage) : List (EntryId × ℕ) :=
  ds.map fun d => (d.messageId, d.receipt.delivered)

/-- The service of one queue. Its history records what every receive returned. -/
abbrev pull (cfg : QueueConfig) : Service server where
  Call := PullCall
  Result := PullResult
  Phase := Unit
  idle := ()
  code
    | .send store envelope => do
      let id ← store.send cfg envelope
      return .sent id
    | .receive store group maxMessages visibilityMs => do
      let ds ← store.receive cfg group maxMessages visibilityMs
      return .received ds
    | .delete receipt => do
      let r ← QueueStore.delete cfg receipt
      return .deleted r
    | .changeVisibility receipt visibilityMs => do
      let r ← QueueStore.changeVisibility cfg receipt visibilityMs
      return .changed r
  phase _ _ := ()
  accepts _ _ := true
  note p
    | .receive store group _ _, .received ds, σ =>
      { σ with plane := { σ.plane with
          log := (p, .returned (store.streamFor cfg.name) group (handouts ds)) :: σ.plane.log } }
    | _, _, σ => σ
  Disturbance := Disturbance
  disturb d σ := σ.disturb d

/-! ## What a receive knows of the history -/

namespace StreamEvent

/-- How often the event hands out entry `id` of a group. -/
def handsOut (stream group : String) (id : EntryId) : StreamEvent → ℕ
  | returned s g entries => if s = stream ∧ g = group then (entries.map Prod.fst).count id else 0
  | _ => 0

/-- An event of a receive that is neither a listing nor a grant. -/
def Quiet : StreamEvent → Prop
  | deadLetter _ _ => True
  | parked _ _ _ => True
  | _ => False

/-- Whether the event begins a receive. -/
def begins : StreamEvent → Bool
  | ensured _ _ => true
  | _ => false

end StreamEvent

/-- The events of an actor since its receive began. -/
def thisCall (l : List StreamEvent) : List StreamEvent := l.takeWhile fun e => !e.begins

/-- The last listing of the pending entries in this receive. -/
def lastListed (l : List StreamEvent) : Option (List (EntryId × ℕ)) :=
  (thisCall l).findSome? fun
    | .listed _ _ seen => some seen
    | _ => none

/-- Entry `id` was granted in this receive, with the counter `n` and only once. -/
def Granted (stream group : String) (id : EntryId) (n : ℕ) (l : List StreamEvent) : Prop :=
  .granted stream group id n ∈ thisCall l ∧ ∀ m, .granted stream group id m ∈ thisCall l → m = n

section Events

variable {stream group : String} {id : EntryId} {n : ℕ} {e : StreamEvent} {l : List StreamEvent}

theorem StreamEvent.Quiet.thisCall (he : e.Quiet) :
    NavigatorEventbus.thisCall (e :: l) = e :: NavigatorEventbus.thisCall l := by
  cases e <;> first | rfl | exact False.elim he

theorem StreamEvent.Quiet.granted (he : e.Quiet) :
    Granted stream group id n (e :: l) ↔ Granted stream group id n l := by
  simp only [Granted, he.thisCall, List.mem_cons]
  cases e <;> first | exact False.elim he | simp

theorem StreamEvent.Quiet.weigh_grants (he : e.Quiet) :
    History.weigh (StreamEvent.grants stream group id) (e :: l) =
      History.weigh (StreamEvent.grants stream group id) l := by
  cases e <;> first | exact False.elim he | simp [StreamEvent.grants]

theorem StreamEvent.Quiet.weigh_handsOut (he : e.Quiet) :
    History.weigh (StreamEvent.handsOut stream group id) (e :: l) =
      History.weigh (StreamEvent.handsOut stream group id) l := by
  cases e <;> first | exact False.elim he | simp [StreamEvent.handsOut]

theorem mem_of_granted (h : Granted stream group id n l) : .granted stream group id n ∈ l :=
  (List.takeWhile_sublist _).subset h.1

end Events

/-! ## The contract -/

namespace Plane

variable {π : Plane} {p q : ℕ}

theorem own_exec_of_ne (h : q ≠ p) (t : ℤ) (i : Input) (c : StreamCmd) :
    (π.exec q t i c).2.log.own p = π.log.own p := by
  obtain ⟨l, hl, -⟩ := log_exec π q t i c
  rw [hl, History.own_append, History.own_map_of_ne h, List.nil_append]

end Plane

namespace Pull

variable {cfg : QueueConfig} {listed : Prop}

/-- The events of actor `p` on the plane. -/
def own (p : ℕ) (σ : Server) : List StreamEvent := σ.plane.log.own p

/-- An `XAUTOCLAIM`. -/
structure Claim where
  stream : String
  group : String
  minIdle : ℤ
  count : ℕ

/-- The `XAUTOCLAIM` that a command is. -/
def claimOf : Cmd → Option Claim
  | .stream (.xautoclaim stream group _ minIdle count) => some ⟨stream, group, minIdle, count⟩
  | _ => none

/-- The entries that it claims. -/
def Claim.ids (a : Claim) (σ : Server) : List EntryId :=
  ((σ.plane.streams a.stream).claims a.group a.minIdle a.count σ.now).1

/-- The receive hands out entry `id` when it has claimed it. -/
def Claim.HandsOut (a : Claim) (cfg : QueueConfig) (seen : List (EntryId × ℕ)) (σ : Server)
    (id : EntryId) : Prop :=
  QueueStore.overCap (cfg.receivesCap a.group) seen id = none ∧
    ∃ f ∈ (σ.plane.streams a.stream).entries id, (decode f).isSome

instance (a : Claim) (seen : List (EntryId × ℕ)) (σ : Server) (id : EntryId) :
    Decidable (a.HandsOut cfg seen σ id) :=
  inferInstanceAs (Decidable (_ ∧ ∃ f ∈ _, _))

/-- The snapshot condition: every entry that the `XAUTOCLAIM` of a receive claims to hand it out was
listed by its `XPENDING`, with the counter that the entry has still. -/
def Listed (cfg : QueueConfig) (p : ℕ) (_o : PullCall) (c : Cmd) (i : Input) (σ : Server) : Prop :=
  ∀ a ∈ claimOf c, i.fails = false → ∀ seen ∈ lastListed (own p σ), ∀ id ∈ a.ids σ,
    a.HandsOut cfg seen σ id →
      QueueStore.seenCount seen id = some (σ.plane.counter a.stream a.group id)

instance (p : ℕ) (o : PullCall) (c : Cmd) (i : Input) (σ : Server) :
    Decidable (Listed cfg p o c i σ) :=
  inferInstanceAs (Decidable (∀ a ∈ claimOf c, _))

/-- An entry is parked only when it was delivered more often than the cap. -/
def Parks (cfg : QueueConfig) : Cmd → Server → Prop
  | .stream (.warnParked stream g id _), σ =>
    cfg.receivesCap g < deliveries stream g id σ.plane.log
  | _, _ => True

/-- The entries that a receive shifts by `XCLAIM` were granted in this receive. -/
def Shifts (p : ℕ) : PullCall → Cmd → Server → Prop
  | .receive _ _ _ _, .stream (.xclaim s g _ ids _), σ =>
    ∀ id ∈ ids, ∃ n, .granted s g id n ∈ thisCall (own p σ)
  | _, _, _ => True

/-- What a call leaves. With `listed`, the generation of every receipt is the counter that the grant
left. -/
def Post (cfg : QueueConfig) (listed : Prop) (p : ℕ) : PullCall → PullResult → Server → Prop
  | .receive store group _ _, .received ds, σ =>
    (∀ id, History.weigh (StreamEvent.handsOut (store.streamFor cfg.name) group id) (own p σ) +
        (ds.map DeliveredMessage.messageId).count id ≤
      History.weigh (StreamEvent.grants (store.streamFor cfg.name) group id) (own p σ)) ∧
    ∀ d ∈ ds, d.receipt.stream = store.streamFor cfg.name ∧ d.receipt.group = group ∧
      d.receipt.messageId = d.messageId ∧ ∃ n,
        Granted (store.streamFor cfg.name) group d.messageId n (own p σ) ∧
          (listed → d.receipt.delivered = n)
  | .delete receipt, .deleted (.error _), σ =>
    receipt.delivered < deliveries receipt.stream receipt.group receipt.messageId σ.plane.log
  | _, _, _ => True

/-- Every actor handed out at most what it was granted; with `listed`, every generation handed out is
the counter of a grant. -/
structure Inv (listed : Prop) (σ : Server) : Prop where
  coherent : σ.plane.Coherent
  handed : ∀ p s g id, History.weigh (StreamEvent.handsOut s g id) (own p σ) ≤
    History.weigh (StreamEvent.grants s g id) (own p σ)
  minted : listed → ∀ p s g es, .returned s g es ∈ own p σ → ∀ x ∈ es,
    .granted s g x.1 x.2 ∈ own p σ

section Kept

variable {p q : ℕ} {σ : Server}

theorem weigh_handsOut_eq_zero {l : List StreamEvent} (h : ∀ s g es, .returned s g es ∉ l)
    (s g : String) (id : EntryId) : History.weigh (StreamEvent.handsOut s g id) l = 0 := by
  induction l with
  | nil => rfl
  | cons e l ih =>
    rw [History.weigh_cons, ih fun s g es he => h s g es (List.mem_cons_of_mem _ he)]
    cases e with
    | returned s' g' es => exact absurd (List.mem_cons_self ..) (h s' g' es)
    | _ => rfl

theorem Inv.exec (h : Inv listed σ) (p : ℕ) (c : Cmd) (i : Input) :
    Inv listed (σ.exec p c i).2 := by
  cases c with
  | now => exact ⟨h.coherent, h.handed, h.minted⟩
  | keyed c => exact ⟨h.coherent, h.handed, h.minted⟩
  | stream c =>
    obtain ⟨l, hl, new, -⟩ := Plane.log_exec σ.plane p σ.now i c
    have ownAt : ∀ q, own q (σ.exec p (.stream c) i).2 = if q = p then l ++ own q σ else own q σ := by
      intro q
      simp only [own, Server.exec, hl, History.own_append]
      split_ifs with hq
      · rw [hq, History.own_map_self]
      · rw [History.own_map_of_ne (Ne.symm hq), List.nil_append]
    refine ⟨h.coherent.exec p σ.now i c, fun q s g id => ?_, fun hex q s g es hes x hx => ?_⟩
    · rw [ownAt]
      split_ifs
      · rw [History.weigh_append, History.weigh_append, weigh_handsOut_eq_zero new, Nat.zero_add]
        exact (h.handed q s g id).trans (Nat.le_add_left _ _)
      · exact h.handed q s g id
    · rw [ownAt] at hes ⊢
      split_ifs at hes ⊢
      · rcases List.mem_append.1 hes with hes | hes
        · exact absurd hes (new s g es)
        · exact List.mem_append_right _ (h.minted hex q s g es hes x hx)
      · exact h.minted hex q s g es hes x hx

theorem Inv.disturb (h : Inv listed σ) (d : Disturbance) : Inv listed (σ.disturb d) := by
  cases d with
  | advance | lapse => exact ⟨h.coherent, h.handed, h.minted⟩
  | dropSig | endPause | endThrottle => exact ⟨h.coherent.of_eq rfl rfl, h.handed, h.minted⟩

theorem Inv.note (h : Inv listed σ) {o : PullCall} {r : PullResult} (post : Post cfg listed p o r σ) :
    Inv listed ((pull cfg).note p o r σ) := by
  cases o with
  | receive store group maxMessages visibilityMs =>
    cases r with
    | received ds =>
      obtain ⟨bound, gen⟩ := post
      have ids : (handouts ds).map Prod.fst = ds.map DeliveredMessage.messageId := by
        simp [handouts, Function.comp_def]
      refine ⟨h.coherent.event fun _ _ _ _ => nofun, fun q s g id => ?_, fun hex q s g es hes x hx => ?_⟩
      · by_cases hq : p = q
        · subst hq
          simp only [own, History.own_cons_self, History.weigh_cons, StreamEvent.handsOut,
            StreamEvent.grants, Nat.zero_add, ids]
          split_ifs with hs
          · obtain ⟨rfl, rfl⟩ := hs
            rw [Nat.add_comm]
            exact bound id
          · rw [Nat.zero_add]
            exact h.handed p s g id
        · simp only [own, History.own_cons_of_ne hq]
          exact h.handed q s g id
      · by_cases hq : p = q
        · subst hq
          simp only [own, History.own_cons_self, List.mem_cons, StreamEvent.returned.injEq]
            at hes ⊢
          rcases hes with ⟨rfl, rfl, rfl⟩ | hes
          · obtain ⟨d, hd, rfl⟩ := List.mem_map.1 hx
            obtain ⟨-, -, -, n, hn, eq⟩ := gen d hd
            exact .inr (eq hex ▸ mem_of_granted hn)
          · exact .inr (h.minted hex p s g es hes x hx)
        · simp only [own, History.own_cons_of_ne hq] at hes ⊢
          exact h.minted hex q s g es hes x hx
    | _ => exact h
  | _ => exact h

end Kept

/-- The contract of the pull plane. With `listed`, the runs considered meet the snapshot condition. -/
def rules (cfg : QueueConfig) (listed : Prop) : Contract (pull cfg) where
  Inv := Inv listed
  Ok p o c i σ := listed → Listed cfg p o c i σ
  Guard p o c _ σ := Parks cfg c σ ∧ Shifts p o c σ
  Post := Post cfg listed
  inv_exec h _ _ := h.exec _ _ _
  inv_note h post := h.note post
  inv_disturb d h := h.disturb d

/-! ## Commands of a receive -/

section Receive

variable {p : ℕ} {o : PullCall} {σ σ' : Server} {α : Type} {Q : α → Server → Prop}

/-- Between `σ` and `σ'` actor `p` was granted nothing, and listed nothing. -/
structure Idle (p : ℕ) (σ σ' : Server) : Prop where
  own_eq : own p σ' = own p σ ∨ ∃ e : StreamEvent, e.Quiet ∧ own p σ' = e :: own p σ
  le : ∀ s g id, deliveries s g id σ.plane.log ≤ deliveries s g id σ'.plane.log

theorem deliveries_le_exec (c : Cmd) (i : Input) (s g : String) (id : EntryId) :
    deliveries s g id σ.plane.log ≤ deliveries s g id (σ.exec p c i).2.plane.log := by
  cases c with
  | now | keyed => exact Nat.le_refl _
  | stream c =>
    obtain ⟨l, hl, -⟩ := Plane.log_exec σ.plane p σ.now i c
    simp only [Server.exec, hl, deliveries, History.total_append]
    exact Nat.le_add_left _ _

/-- What the others do neither grants nor lists anything to `p`. -/
theorem rely {K : Contract (pull cfg)} (h : K.Rely p σ σ') :
    own p σ' = own p σ ∧
      ∀ s g id, deliveries s g id σ.plane.log ≤ deliveries s g id σ'.plane.log := by
  refine Contract.Rely.le K (R := fun σ σ' => own p σ' = own p σ ∧
      ∀ s g id, deliveries s g id σ.plane.log ≤ deliveries s g id σ'.plane.log)
    (fun σ => ⟨rfl, fun _ _ _ => Nat.le_refl _⟩)
    (fun h₁ h₂ => ⟨h₂.1.trans h₁.1, fun s g id => (h₁.2 s g id).trans (h₂.2 s g id)⟩) ?_ h
  intro σ σ' h
  cases h with
  | @exec q o c i ne inv ok guard =>
    refine ⟨?_, deliveries_le_exec c i⟩
    cases c with
    | now | keyed => rfl
    | stream c => exact Plane.own_exec_of_ne ne σ.now i c
  | @note q o r ne inv post =>
    cases o with
    | receive =>
      cases r with
      | received ds => exact ⟨History.own_cons_of_ne ne, fun s g id => by
          simp [deliveries, StreamEvent.grants]⟩
      | _ => exact ⟨rfl, fun _ _ _ => Nat.le_refl _⟩
    | _ => exact ⟨rfl, fun _ _ _ => Nat.le_refl _⟩
  | disturb d inv => cases d <;> exact ⟨rfl, fun _ _ _ => Nat.le_refl _⟩

theorem Idle.of_rely {K : Contract (pull cfg)} (h : K.Rely p σ σ') : Idle p σ σ' :=
  ⟨.inl (rely h).1, (rely h).2⟩

/-- The commands that grant and list nothing and begin no receive. -/
def Quiet : Cmd → Prop
  | .stream (.xgroupCreate _ _) | .stream (.xreadgroup _ _ _ _) | .stream (.xadd _ _ _)
  | .stream (.xpendingIdle _ _ _ _) | .stream (.xautoclaim _ _ _ _ _) => False
  | _ => True

theorem Idle.exec {c : Cmd} (hc : Quiet c) (i : Input) : Idle p σ (σ.exec p c i).2 := by
  refine ⟨?_, deliveries_le_exec c i⟩
  cases c with
  | now | keyed => exact .inl rfl
  | stream c =>
    cases c with
    | xgroupCreate | xreadgroup | xadd | xpendingIdle | xautoclaim => exact hc.elim
    | onDlq e attempts => exact .inr ⟨.deadLetter e attempts, trivial, History.own_cons_self⟩
    | warnParked stream g id => exact .inr ⟨.parked stream g id, trivial, History.own_cons_self⟩
    | xclaim | xack | xdel | setRecover =>
      left
      simp only [Server.exec, Plane.exec]
      split_ifs <;> rfl
    | _ => exact .inl rfl

/-- An assertion that idle moves keep is there after a quiet command. -/
theorem safe_quiet {A : Server → Prop} (idle : ∀ {σ σ'}, Idle p σ σ' → A σ → A σ') {c : Cmd}
    {k : c.Reply → Script α} (hc : Quiet c)
    (guard : ∀ {σ}, A σ → Parks cfg c σ ∧ Shifts p o c σ)
    (rest : ∀ r {σ}, A σ → (rules cfg listed).Safe p o (k r) Q σ) (hA : A σ) :
    (rules cfg listed).Safe p o (.op c k) Q σ := by
  intro σ' hR _ i _
  have hA' : A σ' := idle (.of_rely hR) hA
  exact ⟨guard hA', rest _ (idle (.exec hc i) hA')⟩

theorem safe_pure {A : Server → Prop} (idle : ∀ {σ σ'}, Idle p σ σ' → A σ → A σ') {a : α}
    (hA : A σ) (hQ : ∀ {σ}, A σ → Q a σ) : (rules cfg listed).Safe p o (.pure a) Q σ :=
  fun _ hR _ => hQ (idle (.of_rely hR) hA)

/-- The entries that a reclaim keeps, with their counts. -/
def usable (cfg : QueueConfig) (group : String) (seen : List (EntryId × ℕ))
    (es : List (EntryId × Fields)) : List Claimed :=
  (es.filter fun e => (QueueStore.overCap (cfg.receivesCap group) seen e.1).isNone).map fun e =>
    (e.1, e.2, (QueueStore.seenCount seen e.1).getD 0 + 1)

/-- The messages that a receive makes of claimed entries. -/
def messages (cfg : QueueConfig) (store : QueueStore) (group stream : String) (expiresAt : ℤ)
    (cl : List Claimed) : List DeliveredMessage :=
  cl.filterMap fun c => (decode c.2.1).map fun envelope =>
    { messageId := c.1, envelope
      receipt := {
        queue := cfg.name, group, stream, messageId := c.1, consumer := store.consumer
        delivered := c.2.2, expiresAtMs := expiresAt }
      delivered := c.2.2 }

variable {A : Server → Prop} (idle : ∀ {σ σ'}, Idle p σ σ' → A σ → A σ')
include idle

theorem safe_ack {stream group : String} {id : EntryId} (hA : A σ) :
    (rules cfg listed).Safe p o (QueueStore.ack stream group id) (fun _ σ' => A σ') σ :=
  safe_quiet idle (by trivial) (fun _ => ⟨trivial, by cases o <;> trivial⟩)
    (fun _ _ hA => safe_pure idle hA fun hA => hA) hA

variable {store : QueueStore} {group : String} {maxMessages : ℕ} {visibilityMs : Option ℤ}
  {stream : String}

theorem safe_parkToDlq {id : EntryId} {fields : Fields} {n : ℕ}
    (overdue : ∀ {σ}, A σ → cfg.receivesCap group < deliveries stream group id σ.plane.log)
    (hA : A σ) :
    (rules cfg listed).Safe p (.receive store group maxMessages visibilityMs)
      (store.parkToDlq cfg group stream id fields n) (fun _ σ' => A σ') σ := by
  have park : ∀ {σ}, A σ → (rules cfg listed).Safe p (.receive store group maxMessages visibilityMs)
      (do
        Script.stream (.warnParked stream group id n)
        QueueStore.ack stream group id) (fun _ σ' => A σ') σ := fun hA =>
    safe_quiet idle (by trivial) (fun hA => ⟨overdue hA, trivial⟩) (fun _ _ hA => safe_ack idle hA) hA
  simp only [QueueStore.parkToDlq]
  split_ifs
  · cases hd : decode fields with
    | none => exact park hA
    | some envelope => exact safe_quiet idle (by trivial) (fun _ => ⟨trivial, trivial⟩) (fun _ _ hA => park hA) hA
  · exact park hA

theorem safe_sortReclaimed {seen : List (EntryId × ℕ)}
    (overdue : ∀ {σ}, A σ → ∀ id n, QueueStore.overCap (cfg.receivesCap group) seen id = some n →
      cfg.receivesCap group < deliveries stream group id σ.plane.log)
    (es : List (EntryId × Fields)) (hA : A σ) :
    (rules cfg listed).Safe p (.receive store group maxMessages visibilityMs)
      (store.sortReclaimed cfg group stream seen es)
      (fun r σ' => A σ' ∧ r = usable cfg group seen es) σ := by
  induction es generalizing σ with
  | nil => exact safe_pure idle hA fun hA => ⟨hA, rfl⟩
  | cons e es ih =>
    obtain ⟨id, fields⟩ := e
    simp only [QueueStore.sortReclaimed]
    cases hc : QueueStore.overCap (cfg.receivesCap group) seen id with
    | some n =>
      refine Contract.Safe.bind ((safe_parkToDlq idle (fun hA => overdue hA id n hc) hA).mono ?_)
      intro _ σ' _ hA
      refine (ih hA).mono ?_
      rintro r σ'' _ ⟨hA, rfl⟩
      exact ⟨hA, by simp [usable, hc]⟩
    | none =>
      refine Contract.Safe.bind ((ih hA).mono ?_)
      rintro r σ' _ ⟨hA, rfl⟩
      exact safe_pure idle hA fun hA => ⟨hA, by simp [usable, hc]⟩

theorem safe_applyVisibility {ids : List EntryId} {threshold leaseMs : ℤ}
    (granted : ∀ {σ}, A σ → ∀ id ∈ ids, ∃ n, .granted stream group id n ∈ thisCall (own p σ))
    (hA : A σ) :
    (rules cfg listed).Safe p (.receive store group maxMessages visibilityMs)
      (store.applyVisibility stream group ids threshold leaseMs) (fun _ σ' => A σ') σ := by
  simp only [QueueStore.applyVisibility]
  split_ifs
  · exact safe_pure idle hA fun hA => hA
  · exact safe_quiet idle (by trivial) (fun hA => ⟨trivial, granted hA⟩)
      (fun _ _ hA => safe_pure idle hA fun hA => hA) hA

theorem safe_deliver {expiresAt : ℤ} (cl : List Claimed) (hA : A σ) :
    (rules cfg listed).Safe p (.receive store group maxMessages visibilityMs)
      (store.deliver cfg group stream expiresAt cl)
      (fun ds σ' => A σ' ∧ ds = messages cfg store group stream expiresAt cl) σ := by
  induction cl generalizing σ with
  | nil => exact safe_pure idle hA fun hA => ⟨hA, rfl⟩
  | cons c cl ih =>
    obtain ⟨id, fields, count⟩ := c
    simp only [QueueStore.deliver]
    cases hd : decode fields with
    | none =>
      refine Contract.Safe.bind ((safe_ack idle hA).mono ?_)
      intro _ σ' _ hA
      refine (ih hA).mono ?_
      rintro r σ'' _ ⟨hA, rfl⟩
      exact ⟨hA, by simp [messages, hd]⟩
    | some envelope =>
      refine Contract.Safe.bind ((ih hA).mono ?_)
      rintro r σ' _ ⟨hA, rfl⟩
      exact safe_pure idle hA fun hA => ⟨hA, by simp [messages, hd]⟩

end Receive

/-! ## What a receive holds -/

/-- The claimed entries of a receive: each granted to `p` in this call and not handed out before. -/
structure Held (listed : Prop) (stream group : String) (p : ℕ) (cl : List Claimed) (σ : Server) :
    Prop where
  bound : ∀ id, History.weigh (StreamEvent.handsOut stream group id) (own p σ) +
    (cl.map Prod.fst).count id ≤ History.weigh (StreamEvent.grants stream group id) (own p σ)
  gen : ∀ c ∈ cl, ∃ n, Granted stream group c.1 n (own p σ) ∧
    (listed → (decode c.2.1).isSome → c.2.2 = n)

section Held

variable {p : ℕ} {σ σ' : Server} {stream group : String} {cl cl' : List Claimed}

theorem Held.idle (hI : Idle p σ σ') (h : Held listed stream group p cl σ) :
    Held listed stream group p cl σ' := by
  rcases hI.own_eq with heq | ⟨e, he, heq⟩
  · exact ⟨fun id => by rw [heq]; exact h.bound id, fun c hc => by rw [heq]; exact h.gen c hc⟩
  · refine ⟨fun id => ?_, fun c hc => ?_⟩
    · rw [heq, he.weigh_handsOut, he.weigh_grants]
      exact h.bound id
    · obtain ⟨n, hn, eq⟩ := h.gen c hc
      exact ⟨n, by rwa [heq, he.granted], eq⟩

theorem Held.granted (h : Held listed stream group p cl σ) :
    ∀ id ∈ cl.map Prod.fst, ∃ n, .granted stream group id n ∈ thisCall (own p σ) := by
  intro id hid
  obtain ⟨c, hc, rfl⟩ := List.mem_map.1 hid
  obtain ⟨n, hn, -⟩ := h.gen c hc
  exact ⟨n, hn.1⟩

theorem weigh_grantEvents {π : Plane} {ids : List EntryId} (id : EntryId) :
    History.weigh (StreamEvent.grants stream group id) (π.grantEvents stream group ids) =
      ids.count id := by
  induction ids with
  | nil => rfl
  | cons i l ih =>
    rw [List.count_cons, ← ih]
    by_cases hi : i = id <;> simp [Plane.grantEvents, StreamEvent.grants, hi, Nat.add_comm]

theorem weigh_handsOut_grantEvents {π : Plane} {ids : List EntryId} (id : EntryId) :
    History.weigh (StreamEvent.handsOut stream group id) (π.grantEvents stream group ids) = 0 := by
  refine weigh_handsOut_eq_zero (fun s g es h => ?_) _ _ _
  obtain ⟨i, -, hi⟩ := List.mem_map.1 h
  cases hi

theorem thisCall_grantEvents {π : Plane} {ids : List EntryId} {l : List StreamEvent} :
    thisCall (π.grantEvents stream group ids ++ l) =
      π.grantEvents stream group ids ++ thisCall l := by
  refine List.takeWhile_append_of_pos fun e he => ?_
  obtain ⟨i, -, rfl⟩ := List.mem_map.1 he
  rfl

theorem mem_grantEvents {π : Plane} {ids : List EntryId} {id : EntryId} {n : ℕ} :
    .granted stream group id n ∈ π.grantEvents stream group ids ↔
      id ∈ ids ∧ n = π.counter stream group id := by
  simp only [Plane.grantEvents, List.mem_map, StreamEvent.granted.injEq, true_and]
  constructor
  · rintro ⟨i, hi, rfl, rfl⟩
    exact ⟨hi, rfl⟩
  · rintro ⟨hi, rfl⟩
    exact ⟨id, hi, rfl, rfl⟩

/-- A grant of new entries adds them to what the receive holds. -/
theorem Held.grant (h : Held listed stream group p cl σ) {π : Plane} {ids : List EntryId}
    (hown : own p σ' = π.grantEvents stream group ids ++ own p σ)
    (new : ∀ id ∈ ids, ∀ m, .granted stream group id m ∉ thisCall (own p σ))
    (sub : (cl'.map Prod.fst).Sublist ids)
    (gen : listed → ∀ c ∈ cl', (decode c.2.1).isSome → c.2.2 = π.counter stream group c.1) :
    Held listed stream group p (cl ++ cl') σ' := by
  refine ⟨fun id => ?_, fun c hc => ?_⟩
  · have := h.bound id
    have := sub.count_le id
    rw [hown, History.weigh_append, History.weigh_append, weigh_handsOut_grantEvents,
      weigh_grantEvents, List.map_append, List.count_append]
    omega
  · simp only [Granted, hown, thisCall_grantEvents, List.mem_append, mem_grantEvents]
    rcases List.mem_append.1 hc with hc | hc
    · obtain ⟨n, ⟨hn, unique⟩, eq⟩ := h.gen c hc
      refine ⟨n, ⟨.inr hn, ?_⟩, eq⟩
      rintro m (⟨hid, -⟩ | hm)
      · exact absurd hn (new _ hid n)
      · exact unique m hm
    · have hid : c.1 ∈ ids := sub.subset (List.mem_map_of_mem hc)
      refine ⟨_, ⟨.inl ⟨hid, rfl⟩, ?_⟩, fun hex hd => gen hex c hc hd⟩
      rintro m (⟨-, hm⟩ | hm)
      · exact hm
      · exact absurd hm (new _ hid m)

theorem deliveries_pos_of_granted {id : EntryId} {n : ℕ}
    (h : .granted stream group id n ∈ own p σ) : 0 < deliveries stream group id σ.plane.log := by
  have one : 1 ≤ History.weigh (StreamEvent.grants stream group id) (own p σ) := by
    simpa [StreamEvent.grants] using History.le_weigh (StreamEvent.grants stream group id) h
  exact one.trans (History.weigh_own_le _ _ _)

variable {store : QueueStore} {maxMessages : ℕ} {visibilityMs : Option ℤ}

/-- `readNew` adds entries that nobody was granted before. -/
theorem safe_readNew {count : ℕ} (h : Held listed stream group p cl σ) :
    (rules cfg listed).Safe p (.receive store group maxMessages visibilityMs)
      (store.readNew stream group count)
      (fun r σ' => Held listed stream group p (cl ++ r) σ') σ := by
  intro σ₁ hR inv i _
  have h₁ := h.idle (.of_rely hR)
  refine ⟨⟨trivial, trivial⟩, safe_pure Held.idle ?_ fun h => h⟩
  let s := σ₁.plane.streams stream
  have ids : (s.read group store.consumer count σ₁.now).1.map Prod.fst = s.readIds group count :=
    Stream.read_ids
  have fresh : ∀ id ∈ s.readIds group count, deliveries stream group id σ₁.plane.log = 0 :=
    fun id hid => inv.coherent.fresh _ _ _ (Stream.mem_readIds hid).1
  let π := σ₁.plane.setStream stream (s.read group store.consumer count σ₁.now).2
  have counter : ∀ id ∈ s.readIds group count, π.counter stream group id = 1 := by
    intro id hid
    simp [π, Plane.counter, Stream.read_snd, s] at hid ⊢
    simp [hid]
  have after : own p (Server.exec p (.stream (.xreadgroup stream group store.consumer count))
      i σ₁).2 = π.grantEvents stream group (s.readIds group count) ++ own p σ₁ := by
    simp only [own, Server.exec, Plane.exec, Plane.log_grant, History.own_append,
      History.own_map_self]
    rw [ids]
    rfl
  refine h₁.grant after (fun id hid m hm => ?_) ?_ ?_
  · have := deliveries_pos_of_granted ((List.takeWhile_sublist _).subset hm)
    exact absurd (fresh id hid) (Nat.ne_of_gt this)
  · change (List.map Prod.fst (List.map (fun e => (e.1, e.2, 1))
      (s.read group store.consumer count σ₁.now).1)).Sublist _
    rw [← ids, List.map_map]
    exact List.Sublist.refl _
  · intro _ c hc _
    obtain ⟨e, he, rfl⟩ := List.mem_map.1 hc
    refine (counter e.1 ?_).symm
    rw [← ids]
    exact List.mem_map_of_mem he

theorem Held.nil (inv : Inv listed σ) : Held listed stream group p [] σ :=
  ⟨fun id => inv.handed p stream group id, fun _ hc => absurd hc List.not_mem_nil⟩

/-- What a reclaim knows after its `XPENDING`: what it listed, and that it was granted nothing yet. -/
structure Scanned (stream group : String) (p : ℕ) (seen : List (EntryId × ℕ)) (σ : Server) :
    Prop where
  calls : thisCall (own p σ) = [.listed stream group seen]
  seen_le : ∀ id n, QueueStore.seenCount seen id = some n →
    n ≤ deliveries stream group id σ.plane.log

theorem mem_pendingIdle {s : Stream} {t ms : ℤ} {count : ℕ} {id : EntryId} {n : ℕ}
    (h : QueueStore.seenCount (s.pendingIdle group t ms count) id = some n) :
    ∃ e, (s.group group).pending id = some e ∧ e.timesDelivered = n := by
  have mem : (id, n) ∈ s.pendingIdle group t ms count := by
    obtain ⟨l₁, l₂, eq, -⟩ := List.lookup_eq_some_iff.1 h
    rw [eq]
    simp
  obtain ⟨i, -, hi⟩ := List.mem_filterMap.1 mem
  obtain ⟨e, he, eq⟩ := Option.map_eq_some_iff.1 hi
  cases eq
  exact ⟨e, he, rfl⟩

theorem overCap_eq_some {cap : ℕ} {seen : List (EntryId × ℕ)} {id : EntryId} {n : ℕ} :
    QueueStore.overCap cap seen id = some n ↔ QueueStore.seenCount seen id = some n ∧ cap < n := by
  simp [QueueStore.overCap, Option.filter_eq_some_iff]

/-- The reclaimed entries that a receive keeps were granted to it, with one more than their listed
counts. -/
theorem safe_claimExpired {seen : List (EntryId × ℕ)} {threshold : ℤ} {count : ℕ}
    (h : Scanned stream group p seen σ) :
    (rules cfg listed).Safe p (.receive store group maxMessages visibilityMs)
      (store.claimExpired cfg group stream threshold count seen)
      (fun r σ' => Held listed stream group p r σ') σ := by
  intro σ₁ hR inv i ok
  have calls : thisCall (own p σ₁) = [.listed stream group seen] := (rely hR).1 ▸ h.calls
  have seen_le : ∀ id n, QueueStore.seenCount seen id = some n →
      n ≤ deliveries stream group id σ₁.plane.log :=
    fun id n hn => (h.seen_le id n hn).trans ((rely hR).2 _ _ _)
  refine ⟨⟨trivial, trivial⟩, ?_⟩
  by_cases hf : i.fails = true
  · have reply : (Server.exec p (.stream (.xautoclaim stream group store.consumer threshold count))
        i σ₁).1 = none := by simp [Server.exec, Plane.exec, hf]
    rw [show (server.exec p _ i σ₁).1 = none from reply]
    exact fun σ₂ _ inv₂ => Held.nil inv₂
  let s := σ₁.plane.streams stream
  let es := (s.autoclaim group store.consumer threshold count σ₁.now).1
  have ids : es.map Prod.fst = (s.claims group threshold count σ₁.now).1 := Stream.autoclaim_ids
  let π := σ₁.plane.setStream stream (s.autoclaim group store.consumer threshold count σ₁.now).2
  have reply : (Server.exec p (.stream (.xautoclaim stream group store.consumer threshold count))
      i σ₁).1 = some es := by simp [Server.exec, Plane.exec, hf, es, s]
  have after : own p (Server.exec p
      (.stream (.xautoclaim stream group store.consumer threshold count)) i σ₁).2 =
        π.grantEvents stream group (s.claims group threshold count σ₁.now).1 ++ own p σ₁ := by
    rw [← ids]
    simp [own, Server.exec, Plane.exec, hf, Plane.log_grant, History.own_append, es, s, π]
  have counter : ∀ id ∈ (s.claims group threshold count σ₁.now).1,
      π.counter stream group id = σ₁.plane.counter stream group id + 1 := by
    intro id hid
    obtain ⟨⟨e, he, -⟩, -⟩ := Stream.mem_claims hid
    simp only [π, Plane.counter, Plane.streams_setStream_self, Stream.autoclaim_snd,
      Stream.group_setGroup_self, hid, if_true, he]
    simp [s] at he
    simp [he]
  have held : Held listed stream group p ([] ++ usable cfg group seen es) (Server.exec p
      (.stream (.xautoclaim stream group store.consumer threshold count)) i σ₁).2 := by
    refine (Held.nil inv).grant after (fun id _ m hm => ?_) ?_ fun hex c hc hd => ?_
    · rw [calls] at hm
      simp at hm
    · rw [← ids, usable, List.map_map]
      exact List.filter_sublist.map Prod.fst
    · obtain ⟨e, he, rfl⟩ := List.mem_map.1 hc
      obtain ⟨hes, hcap⟩ := List.mem_filter.1 he
      have hid : e.1 ∈ (s.claims group threshold count σ₁.now).1 :=
        ids ▸ List.mem_map_of_mem hes
      obtain ⟨id, -, hentry⟩ := List.mem_filterMap.1 hes
      obtain ⟨f, hf', rfl⟩ := Option.map_eq_some_iff.1 hentry
      have listed := ok hex _ rfl (by simpa using hf) seen (by simp [lastListed, calls]) id hid
        ⟨by simpa using hcap, f, hf', hd⟩
      rw [counter _ hid]
      simp [listed]
  rw [show (server.exec p _ i σ₁).1 = some es from reply]
  rw [List.nil_append] at held
  refine (safe_sortReclaimed (A := fun σ => Held listed stream group p (usable cfg group seen es) σ ∧
    ∀ id n, QueueStore.seenCount seen id = some n → n ≤ deliveries stream group id σ.plane.log)
    (fun hI h => ⟨h.1.idle hI, fun id n hn => (h.2 id n hn).trans (hI.le _ _ _)⟩)
    (fun hA id n hn => ?_) es ⟨held, fun id n hn => ?_⟩).mono ?_
  · obtain ⟨hseen, hcap⟩ := overCap_eq_some.1 hn
    exact hcap.trans_le (hA.2 id n hseen)
  · exact (seen_le id n hn).trans (deliveries_le_exec _ _ _ _ _)
  · rintro r σ₂ - ⟨hA, rfl⟩
    exact hA.1

theorem safe_reclaim {threshold : ℤ} {count : ℕ} (h : thisCall (own p σ) = []) :
    (rules cfg listed).Safe p (.receive store group maxMessages visibilityMs)
      (store.reclaim cfg group stream threshold count)
      (fun r σ' => Held listed stream group p r σ') σ := by
  intro σ₁ hR inv i _
  have calls : thisCall (own p σ₁) = [] := (rely hR).1 ▸ h
  refine ⟨⟨trivial, trivial⟩, ?_⟩
  by_cases hf : i.fails = true
  · have reply : (Server.exec p (.stream (.xpendingIdle stream group count threshold)) i σ₁).1 =
        none := by simp [Server.exec, Plane.exec, hf]
    rw [show (server.exec p _ i σ₁).1 = none from reply]
    exact fun σ₂ _ inv₂ => Held.nil inv₂
  let seen := (σ₁.plane.streams stream).pendingIdle group σ₁.now threshold count
  have reply : (Server.exec p (.stream (.xpendingIdle stream group count threshold)) i σ₁).1 =
      some seen := by simp [Server.exec, Plane.exec, hf, seen]
  rw [show (server.exec p _ i σ₁).1 = some seen from reply]
  have scanned : Scanned stream group p seen (Server.exec p
      (.stream (.xpendingIdle stream group count threshold)) i σ₁).2 := by
    refine ⟨?_, fun id n hn => ?_⟩
    · simp only [own, Server.exec, Plane.exec, hf, Bool.false_eq_true, if_false,
        History.own_cons_self]
      change StreamEvent.listed stream group seen :: thisCall (own p σ₁) = _
      rw [calls]
    · obtain ⟨e, he, rfl⟩ := mem_pendingIdle hn
      rw [inv.coherent.counted _ _ _ _ he]
      exact deliveries_le_exec _ _ _ _ _
  exact safe_claimExpired scanned

theorem post_messages {expiresAt : ℤ}
    (h : Held listed (store.streamFor cfg.name) group p cl σ) :
    Post cfg listed p (.receive store group maxMessages visibilityMs)
      (.received (messages cfg store group (store.streamFor cfg.name) expiresAt cl)) σ := by
  have ids : ((messages cfg store group (store.streamFor cfg.name) expiresAt cl).map
      DeliveredMessage.messageId).Sublist (cl.map Prod.fst) := by
    clear h
    induction cl with
    | nil => exact .slnil
    | cons c cl ih =>
      cases hd : decode c.2.1 with
      | none => simpa [messages, hd] using ih.cons c.1
      | some envelope => simpa [messages, hd] using ih.cons_cons c.1
  refine ⟨fun id => ?_, fun d hd => ?_⟩
  · exact (Nat.add_le_add_left (ids.count_le id) _).trans (h.bound id)
  · obtain ⟨c, hc, hm⟩ := List.mem_filterMap.1 hd
    obtain ⟨envelope, henv, rfl⟩ := Option.map_eq_some_iff.1 hm
    obtain ⟨n, hn, eq⟩ := h.gen c hc
    exact ⟨rfl, rfl, rfl, n, hn, fun hex => eq hex (by simp [henv])⟩

theorem safe_receive :
    (rules cfg listed).Safe p (.receive store group maxMessages visibilityMs)
      (store.receive cfg group maxMessages visibilityMs)
      (fun ds σ' => Post cfg listed p (.receive store group maxMessages visibilityMs)
        (.received ds) σ') σ := by
  simp only [QueueStore.receive, Script.stream_eq, Prog.op_bind, Prog.pure_bind']
  intro σ₁ _ _ i _
  refine ⟨⟨trivial, trivial⟩, ?_⟩
  have begun : thisCall (own p (Server.exec p
      (.stream (.xgroupCreate (store.streamFor cfg.name) group)) i σ₁).2) = [] := by
    simp only [own, Server.exec, Plane.exec]
    split_ifs <;> simp [thisCall, StreamEvent.begins]
  refine Contract.Safe.bind ((safe_reclaim begun).mono fun reclaimed σ₂ _ h₂ => ?_)
  have deliver : ∀ {σ₃ fresh}, Held listed (store.streamFor cfg.name) group p (reclaimed ++ fresh) σ₃ →
      (rules cfg listed).Safe p (.receive store group maxMessages visibilityMs)
        (do
          if reclaimed ++ fresh = [] then return []
          store.applyVisibility (store.streamFor cfg.name) group
            ((reclaimed ++ fresh).map Prod.fst) cfg.maxVisibilityTimeoutMs
            (visibilityMs.getD cfg.defaultVisibilityTimeoutMs)
          let now ← Script.now
          store.deliver cfg group (store.streamFor cfg.name)
            (now + visibilityMs.getD cfg.defaultVisibilityTimeoutMs) (reclaimed ++ fresh))
        (fun ds σ' => Post cfg listed p (.receive store group maxMessages visibilityMs)
          (.received ds) σ') σ₃ := by
    intro σ₃ fresh h₃
    split_ifs with hnil
    · refine safe_pure Held.idle h₃ fun h => ?_
      have post : Post cfg listed p (.receive store group maxMessages visibilityMs)
          (.received (messages cfg store group (store.streamFor cfg.name) 0 (reclaimed ++ fresh))) _ :=
        post_messages h
      rwa [hnil] at post
    · refine Contract.Safe.bind ((safe_applyVisibility Held.idle Held.granted h₃).mono fun _ σ₄ _ h₄ => ?_)
      refine safe_quiet Held.idle (by trivial) (fun _ => ⟨trivial, trivial⟩) (fun now σ₅ h₅ => ?_) h₄
      refine (safe_deliver Held.idle _ h₅).mono ?_
      rintro ds σ₆ - ⟨h₆, rfl⟩
      exact post_messages h₆
  split_ifs
  · exact Contract.Safe.bind ((safe_readNew h₂).mono fun fresh σ₃ _ h₃ => deliver h₃)
  · rw [← List.append_nil reclaimed] at h₂
    exact deliver h₂

end Held

/-! ## The other calls -/

section Calls

variable {p : ℕ} {σ : Server} {receipt : Receipt}

/-- The entry of the receipt was granted more often than the receipt says. -/
def Superseded (receipt : Receipt) (σ : Server) : Prop :=
  receipt.delivered < deliveries receipt.stream receipt.group receipt.messageId σ.plane.log

theorem Superseded.idle {σ' : Server} (hI : Idle p σ σ') (h : Superseded receipt σ) :
    Superseded receipt σ' :=
  Nat.lt_of_lt_of_le h (hI.le _ _ _)

theorem safe_leaseSuperseded :
    (rules cfg listed).Safe p (.delete receipt) (QueueStore.leaseSuperseded receipt)
      (fun stale σ' => stale = true → Superseded receipt σ') σ := by
  simp only [QueueStore.leaseSuperseded, Script.stream_eq, Prog.op_bind, Prog.pure_bind']
  intro σ₁ _ inv i _
  refine ⟨⟨trivial, trivial⟩, ?_⟩
  have keeps : ∀ {stale : Bool} {σ σ'}, Idle p σ σ' → (stale = true → Superseded receipt σ) →
      (stale = true → Superseded receipt σ') := fun hI h hs => (h hs).idle hI
  by_cases hf : i.fails = true
  · have reply : (Server.exec p
        (.stream (.xpendingEntry receipt.stream receipt.group receipt.messageId)) i σ₁).1 = none := by
      simp [Server.exec, Plane.exec, hf]
    rw [show (server.exec p _ i σ₁).1 = none from reply]
    exact safe_pure keeps (by simp) fun h => h
  · have reply : (Server.exec p
        (.stream (.xpendingEntry receipt.stream receipt.group receipt.messageId)) i σ₁).1 =
        some (((σ₁.plane.streams receipt.stream).group receipt.group).pending
          receipt.messageId).toList := by
      simp [Server.exec, Plane.exec, hf]
    rw [show (server.exec p _ i σ₁).1 = some _ from reply]
    refine safe_pure keeps (fun hs => ?_) fun h => h
    simp only [List.any_eq_true, Option.mem_toList, decide_eq_true_eq] at hs
    obtain ⟨e, he, hlt⟩ := hs
    rw [inv.coherent.counted _ _ _ _ he] at hlt
    exact hlt

theorem safe_removeEntry {o : PullCall} {Q : Unit → Server → Prop} (hQ : ∀ σ, Q () σ) :
    (rules cfg listed).Safe p o (QueueStore.removeEntry cfg receipt) Q σ := by
  have any : ∀ {σ σ' : Server}, Idle p σ σ' → True → True := fun _ h => h
  refine Contract.Safe.bind ((safe_ack any trivial).mono fun _ σ₁ _ _ => ?_)
  split_ifs
  · exact safe_quiet any (by trivial) (fun _ => ⟨trivial, by cases o <;> trivial⟩)
      (fun _ _ _ => safe_pure any trivial fun _ => hQ _) trivial
  · exact safe_pure any trivial fun _ => hQ _

theorem safe_delete :
    (rules cfg listed).Safe p (.delete receipt) (QueueStore.delete cfg receipt)
      (fun r σ' => Post cfg listed p (.delete receipt) (.deleted r) σ') σ := by
  have decided : ∀ {stale : Bool} {σ : Server}, (stale = true → Superseded receipt σ) →
      (rules cfg listed).Safe p (.delete receipt)
        (do
          if stale then return .error (.staleReceipt receipt.messageId)
          QueueStore.removeEntry cfg receipt
          return .ok ())
        (fun r σ' => Post cfg listed p (.delete receipt) (.deleted r) σ') σ := by
    intro stale σ h
    split_ifs with hs
    · exact safe_pure Superseded.idle (h hs) fun h => h
    · exact Contract.Safe.bind (safe_removeEntry fun _ _ _ _ => trivial)
  simp only [QueueStore.delete]
  split_ifs
  · exact Contract.Safe.bind (safe_leaseSuperseded.mono fun _ _ _ h => decided h)
  · exact @decided false _ (by simp)

theorem Post.later {K : Contract (pull cfg)} {σ' : Server} {o : PullCall} {r : PullResult}
    (hR : K.Rely p σ σ') (h : Post cfg listed p o r σ) : Post cfg listed p o r σ' := by
  obtain ⟨own_eq, le⟩ := rely hR
  cases o with
  | receive =>
    cases r with
    | received ds => simpa only [Post, own_eq] using h
    | _ => trivial
  | delete receipt =>
    cases r with
    | deleted r =>
      cases r with
      | error e => exact Nat.lt_of_lt_of_le h (le _ _ _)
      | ok => trivial
    | _ => trivial
  | _ => trivial

/-- Every call of the pull plane keeps the contract. -/
theorem kept : (rules cfg listed).Kept (fun _ _ _ => True) (fun _ => True) where
  idle _ _ := trivial
  phase _ _ := trivial
  stable _ _ := trivial
  call {p φ o σ} _ _ _ _ := by
    cases o with
    | send store envelope =>
      intro σ₁ _ _ i _
      exact ⟨⟨trivial, trivial⟩, fun _ _ _ => trivial⟩
    | receive store group maxMessages visibilityMs =>
      exact Contract.Safe.bind (safe_receive.mono fun ds σ₁ _ h σ₂ hR _ => h.later hR)
    | delete receipt =>
      exact Contract.Safe.bind (safe_delete.mono fun ds σ₁ _ h σ₂ hR _ => h.later hR)
    | changeVisibility receipt visibilityMs =>
      intro σ₁ _ _ i _
      exact ⟨⟨trivial, trivial⟩, fun _ _ _ => trivial⟩

end Calls

/-! ## Runs -/

/-- Nobody has called yet. -/
def start (cfg : QueueConfig) : Pool (pull cfg) := ⟨{}, fun _ => .resting ()⟩

theorem within_start :
    (rules cfg listed).Within (fun _ _ _ => True) (fun _ => True) (start cfg) where
  inv := ⟨.init, fun _ _ _ _ => Nat.le_refl _, fun _ _ _ _ _ h => absurd h List.not_mem_nil⟩
  resting _ := trivial
  admits _ := trivial
  calling h := by cases h

/-- Every run keeps the contract, without the snapshot condition. -/
theorem within_run {A : Pool (pull cfg) → Act (pull cfg) → Prop} {P : Pool (pull cfg)}
    (hr : Pool.Reach A (start cfg) P) :
    (rules cfg False).Within (fun _ _ _ => True) (fun _ => True) P := by
  refine Contract.sound kept within_start (hr.mono fun Q a _ => ?_)
  cases a with
  | exec => exact fun _ _ _ _ _ h => h.elim
  | _ => trivial

end Pull

end NavigatorEventbus
