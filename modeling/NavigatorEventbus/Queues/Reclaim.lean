import NavigatorEventbus.Queues.Store
import NavigatorEventbus.Redis.Deliveries

/-!
# How far a reclaim looks

`XAUTOCLAIM` examines at most ten pending entries for each one asked for, and `_reclaim` starts every scan at the
beginning of the pending list.  So an expired lease behind enough live ones is never reclaimed; one within the
reach of the scan is, and is then handed out, parked, or acked when nobody can decode it.
-/

namespace NavigatorEventbus

open Interleave

namespace Stream

variable {φ : Type}

/-- The pending list of a group, in order. -/
def pendingIds (s : Stream φ) (name : String) : List EntryId :=
  s.ids.filter fun id => ((s.group name).pending id).isSome

/-- The pending entry has been idle for `ms`. -/
def Expired (s : Stream φ) (name : String) (t ms : ℤ) (id : EntryId) : Prop :=
  id ∈ s.pendingIds name ∧ (s.group name).IdleFor t ms id

/-- An expired entry that is still in the stream is within the reach of a scan for `count` entries: it comes after
fewer than ten times as many pending entries, and after fewer than `count` that have left the stream. -/
def InReach (s : Stream φ) (name : String) (t ms : ℤ) (count : ℕ) : Prop :=
  ∃ before id after, s.pendingIds name = before ++ id :: after ∧ (s.group name).IdleFor t ms id ∧
    (s.entries id).isSome ∧ before.length < 10 * count ∧
      (before.countP fun id => (s.entries id).isNone) < count

variable {s : Stream φ} {name : String} {g : Group} {t ms : ℤ}

/-- A member with few enough before it is the first one, or one of the rest. -/
theorem exists_split_cons {α : Type} {d : α → Bool} {Q : α → Prop} {x : α} {l : List α} {n m : ℕ} :
    (∃ before a after, x :: l = before ++ a :: after ∧ Q a ∧ before.length < n + 1 ∧ before.countP d < m + 1) ↔
      Q x ∨ ∃ before a after, l = before ++ a :: after ∧ Q a ∧ before.length < n ∧
        before.countP d + (if d x then 1 else 0) < m + 1 := by
  constructor
  · rintro ⟨before, a, after, split, hQ, length, count⟩
    cases before with
    | nil =>
      obtain ⟨rfl, -⟩ := List.cons.inj split
      exact .inl hQ
    | cons y before =>
      obtain ⟨rfl, rest⟩ := List.cons.inj split
      rw [List.countP_cons] at count
      exact .inr ⟨before, a, after, rest, hQ, Nat.lt_of_succ_lt_succ length, count⟩
  · rintro (hQ | ⟨before, a, after, rfl, hQ, length, count⟩)
    · exact ⟨[], x, l, rfl, hQ, Nat.succ_pos n, Nat.succ_pos m⟩
    · refine ⟨x :: before, a, after, rfl, hQ, Nat.succ_lt_succ length, ?_⟩
      rwa [List.countP_cons]

/-- A scan claims something if it comes across an expired entry that is still in the stream. -/
theorem claimScan_ne_nil {l : List EntryId} {attempts count : ℕ} :
    (s.claimScan g t ms l attempts count).1 ≠ [] ↔ ∃ before id after,
      (l.filter fun id => (g.pending id).isSome) = before ++ id :: after ∧
        (g.IdleFor t ms id ∧ (s.entries id).isSome) ∧ before.length < attempts ∧
          (before.countP fun id => (s.entries id).isNone) < count := by
  fun_induction claimScan s g t ms l attempts count with
  | case1 => simp
  | case2 => simp
  | case3 => simp
  | case4 id rest attempts count hp ih =>
    have unlisted : (g.pending id).isSome = false := by simpa using hp
    simp only [List.filter_cons, unlisted, Bool.false_eq_true, if_false]
    exact ih
  | case5 id rest attempts count hp he ih =>
    have listed : (g.pending id).isSome = true := by simpa [Option.isSome_iff_ne_none] using hp
    have gone : ¬ (g.IdleFor t ms id ∧ (s.entries id).isSome) := fun h => by
      rw [Option.isNone_iff_eq_none] at he
      rw [he] at h
      cases h.2
    simp only [List.filter_cons, listed, if_true]
    rw [exists_split_cons, or_iff_right gone, ih]
    simp only [he, if_true, Nat.add_lt_add_iff_right]
  | case6 id rest attempts count hp he hi ih =>
    have listed : (g.pending id).isSome = true := by simpa [Option.isSome_iff_ne_none] using hp
    have stored : (s.entries id).isSome = true := by simpa [Option.isSome_iff_ne_none] using he
    simp only [List.filter_cons, listed, if_true]
    rw [exists_split_cons]
    exact iff_of_true (List.cons_ne_nil _ _) (.inl ⟨hi, stored⟩)
  | case7 id rest attempts count hp he hi ih =>
    have listed : (g.pending id).isSome = true := by simpa [Option.isSome_iff_ne_none] using hp
    have live : ¬ (g.IdleFor t ms id ∧ (s.entries id).isSome) := fun h => hi h.1
    simp only [List.filter_cons, listed, if_true]
    rw [exists_split_cons, or_iff_right live, ih]
    simp only [he, Bool.false_eq_true, if_false, Nat.add_zero]

/-- An `XAUTOCLAIM` claims an expired entry if one is within its reach. -/
theorem claims_expired_iff {count : ℕ} :
    (∃ id, s.Expired name t ms id ∧ id ∈ (s.claims name ms count t).1) ↔ s.InReach name t ms count := by
  have some : (∃ id, s.Expired name t ms id ∧ id ∈ (s.claims name ms count t).1) ↔
      (s.claims name ms count t).1 ≠ [] := by
    constructor
    · rintro ⟨id, -, hid⟩
      exact List.ne_nil_of_mem hid
    · intro h
      obtain ⟨id, hid⟩ := List.exists_mem_of_ne_nil _ h
      have idle := (mem_claims hid).1
      obtain ⟨e, he, le⟩ := idle
      have listed : id ∈ s.ids := (claimScan_sublist _ _ _).mem hid
      exact ⟨id, ⟨List.mem_filter.2 ⟨listed, by rw [he]; rfl⟩, e, he, le⟩, hid⟩
  rw [some, claims, claimScan_ne_nil]
  simp only [InReach, pendingIds, and_assoc]

end Stream

/-! ## What is claimed -/

section Receive

variable {store : QueueStore} {cfg : QueueConfig} {p : ℕ} {E : Server → Server → Prop} {σ σ' : Server}
  {t : List (Issued server)} {stream group : String}

/-- A finished trace of a command on the streams, with what follows it. -/
theorem stream_inv {c : StreamCmd} {β : Type} {f : c.Reply → Script β} {b : β}
    (h : Trace server p E (Script.stream c >>= f) σ t (.pure b) σ') :
    ∃ i σ₁ t', t = ⟨.stream c, i, σ₁⟩ :: t' ∧
      Trace server p E (f (σ₁.exec p (.stream c) i).1) (σ₁.exec p (.stream c) i).2 t' (.pure b) σ' :=
  h.op_pure_inv

/-- The entry is parked. -/
def Parks (stream group : String) (id : EntryId) (t : List (Issued server)) : Prop :=
  ∃ x ∈ t, ∃ n, x.cmd = .stream (.warnParked stream group id n)

/-- The entry is acked, as nobody can decode it. -/
def Discards (stream group : String) (id : EntryId) (t : List (Issued server)) : Prop :=
  ∃ x ∈ t, x.cmd = .stream (.xack stream group id)

theorem parkToDlq_parks {id : EntryId} {fields : Fields} {n : ℕ} {u : Unit}
    (h : Trace server p E (store.parkToDlq cfg group stream id fields n) σ t (.pure u) σ') :
    Parks stream group id t := by
  have warned : ∀ {t : List (Issued server)} {σ : Server}, Trace server p E (do
      Script.stream (.warnParked stream group id n)
      QueueStore.ack stream group id) σ t (.pure u) σ' → Parks stream group id t := by
    intro t σ h
    obtain ⟨i, σ₁, t₁, rfl, -⟩ := stream_inv h
    exact ⟨_, List.mem_cons_self .., n, rfl⟩
  unfold QueueStore.parkToDlq at h
  split_ifs at h
  · cases hd : decode fields with
    | none =>
      rw [hd] at h
      exact warned h
    | some envelope =>
      rw [hd] at h
      obtain ⟨i, σ₁, t₁, rfl, h₁⟩ := stream_inv h
      obtain ⟨x, hx, parked⟩ := warned h₁
      exact ⟨x, List.mem_cons_of_mem _ hx, parked⟩
  · exact warned h

/-- Every reclaimed entry is parked or usable. -/
theorem sortReclaimed_cases {seen : List (EntryId × ℕ)} {entries : List (EntryId × Fields)}
    {usable : List Claimed}
    (h : Trace server p E (store.sortReclaimed cfg group stream seen entries) σ t (.pure usable) σ') :
    ∀ e ∈ entries, Parks stream group e.1 t ∨ ∃ n, (e.1, e.2, n) ∈ usable := by
  induction entries generalizing t σ σ' usable with
  | nil => exact fun e he => absurd he List.not_mem_nil
  | cons e entries ih =>
    obtain ⟨id, fields⟩ := e
    unfold QueueStore.sortReclaimed at h
    cases capped : QueueStore.overCap (cfg.receivesCap group) seen id with
    | some n =>
      rw [capped] at h
      obtain ⟨t₁, t₂, u, σ₁, rfl, parked, rest⟩ := Trace.bind_pure_inv h
      refine List.forall_mem_cons.2 ⟨.inl ?_, fun e he => ?_⟩
      · obtain ⟨x, hx, warned⟩ := parkToDlq_parks parked
        exact ⟨x, List.mem_append_left _ hx, warned⟩
      · rcases ih rest e he with ⟨x, hx, warned⟩ | usable
        · exact .inl ⟨x, List.mem_append_right _ hx, warned⟩
        · exact .inr usable
    | none =>
      rw [capped] at h
      obtain ⟨t₁, t₂, us, σ₁, rfl, rest, done⟩ := Trace.bind_pure_inv h
      obtain ⟨rfl, hu⟩ := done.pure_inv
      cases hu
      rw [List.append_nil]
      refine List.forall_mem_cons.2 ⟨.inr ⟨_, List.mem_cons_self ..⟩, fun e he => ?_⟩
      rcases ih rest e he with parked | ⟨n, usable⟩
      · exact .inl parked
      · exact .inr ⟨n, List.mem_cons_of_mem _ usable⟩

/-- Every claimed entry is handed out, or acked when it cannot be decoded. -/
theorem deliver_cases {expiresAt : ℤ} {claimed : List Claimed} {messages : List DeliveredMessage}
    (h : Trace server p E (QueueStore.deliver store cfg group stream expiresAt claimed) σ t (.pure messages) σ') :
    ∀ c ∈ claimed, (∃ m ∈ messages, m.messageId = c.1) ∨ decode c.2.1 = none ∧ Discards stream group c.1 t := by
  induction claimed generalizing t σ σ' messages with
  | nil => exact fun c hc => absurd hc List.not_mem_nil
  | cons c claimed ih =>
    obtain ⟨id, fields, n⟩ := c
    unfold QueueStore.deliver at h
    cases hd : decode fields with
    | none =>
      rw [hd] at h
      obtain ⟨t₁, t₂, u, σ₁, rfl, acked, rest⟩ := Trace.bind_pure_inv h
      refine List.forall_mem_cons.2 ⟨.inr ⟨hd, ?_⟩, fun c hc => ?_⟩
      · obtain ⟨i, σ₂, t₃, rfl, -⟩ := stream_inv acked
        exact ⟨_, List.mem_append_left _ (List.mem_cons_self ..), rfl⟩
      · rcases ih rest c hc with handed | ⟨lost, x, hx, acked⟩
        · exact .inl handed
        · exact .inr ⟨lost, x, List.mem_append_right _ hx, acked⟩
    | some envelope =>
      rw [hd] at h
      obtain ⟨t₁, t₂, ms, σ₁, rfl, rest, done⟩ := Trace.bind_pure_inv h
      obtain ⟨rfl, hm⟩ := done.pure_inv
      cases hm
      rw [List.append_nil]
      refine List.forall_mem_cons.2 ⟨.inl ⟨_, List.mem_cons_self .., rfl⟩, fun c hc => ?_⟩
      rcases ih rest c hc with ⟨m, hm, same⟩ | lost
      · exact .inl ⟨m, List.mem_cons_of_mem _ hm, same⟩
      · exact .inr lost

/-- What becomes of a claimed entry: it is handed out, parked, or acked when it cannot be decoded. -/
def Settles (stream group : String) (id : EntryId) (t : List (Issued server)) (messages : List DeliveredMessage) :
    Prop :=
  (∃ m ∈ messages, m.messageId = id) ∨ Parks stream group id t ∨ Discards stream group id t

theorem Settles.mono {id : EntryId} {t' : List (Issued server)} {messages : List DeliveredMessage}
    (h : Settles stream group id t messages) (sub : ∀ x ∈ t, x ∈ t') : Settles stream group id t' messages := by
  rcases h with handed | ⟨x, hx, parked⟩ | ⟨x, hx, acked⟩
  · exact .inl handed
  · exact .inr (.inl ⟨x, sub x hx, parked⟩)
  · exact .inr (.inr ⟨x, sub x hx, acked⟩)

/-- A receive without failures scans the pending list once, and settles what it claims. -/
theorem receive_scans {maxMessages : ℕ} {visibilityMs : Option ℤ} {messages : List DeliveredMessage}
    (h : Trace server p E (store.receive cfg group maxMessages visibilityMs) σ t (.pure messages) σ')
    (fine : ∀ x ∈ t, x.input.fails = false) :
    ∃ x ∈ t, x.cmd = .stream (.xautoclaim (store.streamFor cfg.name) group store.consumer
      cfg.maxVisibilityTimeoutMs maxMessages) ∧
      ∀ id ∈ ((x.before.plane.streams (store.streamFor cfg.name)).claims group cfg.maxVisibilityTimeoutMs
        maxMessages x.before.now).1, Settles (store.streamFor cfg.name) group id t messages := by
  obtain ⟨i₁, σ₁, t₁, rfl, h₁⟩ := stream_inv h
  obtain ⟨t₂, t₃, reclaimed, σ₂, rfl, reclaim, rest⟩ := Trace.bind_pure_inv h₁
  obtain ⟨i₃, σ₃, t₄, rfl, h₃⟩ := stream_inv reclaim
  have listed : (σ₃.exec p (.stream (.xpendingIdle (store.streamFor cfg.name) group maxMessages
      cfg.maxVisibilityTimeoutMs)) i₃).1 = some ((σ₃.plane.streams (store.streamFor cfg.name)).pendingIdle group
        σ₃.now cfg.maxVisibilityTimeoutMs maxMessages) := by
    have ok : i₃.fails = false := fine _ (List.mem_cons_of_mem _ (List.mem_append_left _ (List.mem_cons_self ..)))
    simp [Server.exec, Plane.exec, ok]
  rw [listed] at h₃
  obtain ⟨i₄, σ₄, t₅, rfl, h₄⟩ := stream_inv h₃
  have claimed : (σ₄.exec p (.stream (.xautoclaim (store.streamFor cfg.name) group store.consumer
      cfg.maxVisibilityTimeoutMs maxMessages)) i₄).1 = some ((σ₄.plane.streams (store.streamFor cfg.name)).autoclaim
        group store.consumer cfg.maxVisibilityTimeoutMs maxMessages σ₄.now).1 := by
    have ok : i₄.fails = false := 
      fine _ (List.mem_cons_of_mem _ (List.mem_append_left _ (List.mem_cons_of_mem _ (List.mem_cons_self ..))))
    simp [Server.exec, Plane.exec, ok]
  rw [claimed] at h₄
  refine ⟨⟨_, i₄, σ₄⟩, by simp, rfl, fun id hid => ?_⟩
  rw [← @Stream.autoclaim_ids _ _ _ store.consumer] at hid
  obtain ⟨e, he, rfl⟩ := List.mem_map.1 hid
  rcases sortReclaimed_cases h₄ e he with ⟨x, hx, parked⟩ | ⟨n, usable⟩
  · exact .inr (.inl ⟨x, by simp [hx], parked⟩)
  -- whatever is read besides, what was reclaimed is delivered with it
  have settle : ∀ {fresh : List Claimed} {t : List (Issued server)} {σ : Server}, Trace server p E (do
      if reclaimed ++ fresh = [] then return []
      store.applyVisibility (store.streamFor cfg.name) group ((reclaimed ++ fresh).map Prod.fst)
        cfg.maxVisibilityTimeoutMs (visibilityMs.getD cfg.defaultVisibilityTimeoutMs)
      let now ← Script.now
      store.deliver cfg group (store.streamFor cfg.name) (now + visibilityMs.getD cfg.defaultVisibilityTimeoutMs)
        (reclaimed ++ fresh)) σ t (.pure messages) σ' →
      Settles (store.streamFor cfg.name) group e.1 t messages := by
    intro fresh t σ h
    have mem : (e.1, e.2, n) ∈ reclaimed ++ fresh := List.mem_append_left _ usable
    rw [if_neg (List.ne_nil_of_mem mem)] at h
    obtain ⟨t₆, t₇, u, σ₅, rfl, -, h₅⟩ := Trace.bind_pure_inv h
    obtain ⟨t₈, t₉, now, σ₆, rfl, -, h₆⟩ := Trace.bind_pure_inv h₅
    rcases deliver_cases h₆ _ mem with handed | ⟨-, x, hx, acked⟩
    · exact .inl handed
    · exact .inr (.inr ⟨x, by simp [hx], acked⟩)
  dsimp only at rest
  split_ifs at rest
  · obtain ⟨t₆, t₇, fresh, σ₅, rfl, -, h₅⟩ := Trace.bind_pure_inv rest
    exact (settle h₅).mono fun x hx => by simp [hx]
  · obtain ⟨t₆, t₇, fresh, σ₅, rfl, -, h₅⟩ := Trace.bind_pure_inv rest
    exact (settle h₅).mono fun x hx => by simp [hx]

/-- When the pending list that is scanned has expired entries, one of them is claimed and settled. -/
def ReclaimsExpired (store : QueueStore) (cfg : QueueConfig) (group : String) (maxMessages : ℕ)
    (t : List (Issued server)) (messages : List DeliveredMessage) (x : Issued server) : Prop :=
  let s := x.before.plane.streams (store.streamFor cfg.name)
  (∃ id, s.Expired group x.before.now cfg.maxVisibilityTimeoutMs id) →
    ∃ id, s.Expired group x.before.now cfg.maxVisibilityTimeoutMs id ∧
      id ∈ (s.claims group cfg.maxVisibilityTimeoutMs maxMessages x.before.now).1 ∧
        Settles (store.streamFor cfg.name) group id t messages

/-- A receive without failures, whatever the others do meanwhile, reclaims an expired entry of the pending list
that it scans if and only if one is within the reach of the scan. -/
theorem expired_reclaimed_iff {maxMessages : ℕ} {visibilityMs : Option ℤ} {messages : List DeliveredMessage}
    (h : Trace server p E (store.receive cfg group maxMessages visibilityMs) σ t (.pure messages) σ')
    (fine : ∀ x ∈ t, x.input.fails = false) :
    ∃ x ∈ t, x.cmd = .stream (.xautoclaim (store.streamFor cfg.name) group store.consumer
      cfg.maxVisibilityTimeoutMs maxMessages) ∧
      (ReclaimsExpired store cfg group maxMessages t messages x ↔
        ((∃ id, (x.before.plane.streams (store.streamFor cfg.name)).Expired group x.before.now
          cfg.maxVisibilityTimeoutMs id) →
            (x.before.plane.streams (store.streamFor cfg.name)).InReach group x.before.now
              cfg.maxVisibilityTimeoutMs maxMessages)) := by
  obtain ⟨x, hx, cmd, settles⟩ := receive_scans h fine
  refine ⟨x, hx, cmd, forall_congr' fun _ => ?_⟩
  rw [← Stream.claims_expired_iff]
  constructor
  · rintro ⟨id, expired, claimed, -⟩
    exact ⟨id, expired, claimed⟩
  · rintro ⟨id, expired, claimed⟩
    exact ⟨id, expired, claimed, settles id claimed⟩

end Receive

/-! ## A lease behind ten live ones -/

namespace Scenario

/-- A server at 200 ms whose queue has eleven pending entries, of which the last has been idle since 0 and the
others since `others`. -/
def elevenPending (others : ℤ) : Server where
  now := 200
  plane := {
    streams := fun _ => {
      lastId := 11
      entries := fun id => if id ≤ 11 then some (encode { topic := "t", payload := [] }) else none
      groups := fun _ => some {
        lastDelivered := 11
        pending := fun id =>
          if id < 11 then some ⟨"w", others, 1⟩ else if id = 11 then some ⟨"w", 0, 1⟩ else none } } }

/-- Its queue: a lease expires after 200 ms. -/
def slow : QueueConfig where
  name := "slow"
  groups := [{ name := "workers" }]
  defaultVisibilityTimeoutMs := 100
  maxVisibilityTimeoutMs := 200
  groups_ne := QueueConfig.steady.groups_ne
  groups_nodup := QueueConfig.steady.groups_nodup
  default_nonneg := QueueConfig.steady.default_nonneg
  max_pos := QueueConfig.steady.max_pos
  maxReceives_pos := QueueConfig.brief.maxReceives_pos
  maxlen_pos := QueueConfig.brief.maxlen_pos
  default_le_max := QueueConfig.steady.default_le_max
  delete_single := QueueConfig.steady.delete_single

/-- The store of a consumer. -/
def consumer : QueueStore := { consumer := "w" }

/-- The commands of a receive of one message. -/
def received (others : ℤ) : List (Issued server) × Script (List DeliveredMessage) × Server :=
  Prog.follow server 0 (List.replicate 8 {}) (consumer.receive slow "workers" 1 none) (elevenPending others)

/-- What a scan finds: whether the last entry has expired, and what is claimed. -/
def found (x : Issued server) : Bool × List EntryId :=
  let s := x.before.plane.streams (consumer.streamFor slow.name)
  (11 ∈ s.pendingIds "workers" ∧ (s.group "workers").IdleFor x.before.now 200 11,
    (s.claims "workers" 200 1 x.before.now).1)

end Scenario

open Scenario in
/-- Ten live leases are in front of the expired one. -/
theorem expired_not_reclaimed : ¬ ∀ (store : QueueStore) (cfg : QueueConfig) (group : String) (maxMessages : ℕ)
    (visibilityMs : Option ℤ) (p : ℕ) (E : Server → Server → Prop) (σ σ' : Server) (t : List (Issued server))
    (messages : List DeliveredMessage), 0 < maxMessages →
      Trace server p E (store.receive cfg group maxMessages visibilityMs) σ t (.pure messages) σ' →
        (∀ x ∈ t, x.input.fails = false) →
          ∃ x ∈ t, x.cmd = .stream (.xautoclaim (store.streamFor cfg.name) group store.consumer
            cfg.maxVisibilityTimeoutMs maxMessages) ∧ ReclaimsExpired store cfg group maxMessages t messages x := by
  intro h
  have run : Trace server 0 (fun _ _ => False) (consumer.receive slow "workers" 1 none) (elevenPending 200)
      (received 200).1 (.pure []) (received 200).2.2 := Trace.of_follow ..
  have nothing : ∀ x ∈ (received 200).1, found x = (true, []) := by decide +kernel
  have fine : ∀ x ∈ (received 200).1, x.input.fails = false := by decide +kernel
  obtain ⟨x, hx, -, reclaims⟩ := h consumer slow "workers" 1 none 0 _ _ _ _ _ (by decide) run fine
  have := nothing x hx
  simp only [found, Prod.mk.injEq, decide_eq_true_eq] at this
  obtain ⟨expired, empty⟩ := this
  obtain ⟨id, -, claimed, -⟩ := reclaims ⟨11, expired⟩
  have none : id ∈ ([] : List EntryId) := empty ▸ claimed
  cases none

open Scenario in
/-- With all eleven expired, the first one is reclaimed. -/
theorem expired_reclaimed_iff_witness : ∃ (t : List (Issued server)) (messages : List DeliveredMessage) (σ' : Server),
    messages.map DeliveredMessage.messageId = [1] ∧
      Trace server 0 (fun _ _ => False) (consumer.receive slow "workers" 1 none) (elevenPending 0) t
        (.pure messages) σ' ∧ ∃ x ∈ t, ReclaimsExpired consumer slow "workers" 1 t messages x ↔
          ((∃ id, (x.before.plane.streams "evb:queue:slow").Expired "workers" x.before.now 200 id) →
            (x.before.plane.streams "evb:queue:slow").InReach "workers" x.before.now 200 1) := by
  have run : Trace server 0 (fun _ _ => False) (consumer.receive slow "workers" 1 none) (elevenPending 0)
      (received 0).1 (.pure [⟨1, { topic := "t", payload := [] },
        ⟨"slow", "workers", "evb:queue:slow", 1, "w", 2, 100⟩, 2⟩]) (received 0).2.2 := Trace.of_follow ..
  have fine : ∀ x ∈ (received 0).1, x.input.fails = false := by decide +kernel
  obtain ⟨x, hx, -, iff⟩ := expired_reclaimed_iff run fine
  exact ⟨_, _, _, rfl, run, x, hx, iff⟩

end NavigatorEventbus
