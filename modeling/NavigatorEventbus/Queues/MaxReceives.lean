import NavigatorEventbus.Queues.Generation

/-!
# The bound on receives

A message is parked by a reclaim that lists it as delivered more than `receives_cap` times, so a
message delivered exactly `receives_cap` times is handed out once more.  The documented bound holds
of the runs in which no `XAUTOCLAIM` claims an entry that has been delivered so often.
-/

namespace NavigatorEventbus

open Interleave Pull

variable {cfg : QueueConfig}

namespace Pull

/-- No `XAUTOCLAIM` claims an entry that was already delivered `receives_cap` times. -/
def BelowCap (cfg : QueueConfig) (_p : ℕ) (_o : PullCall) (c : Cmd) (i : Input) (σ : Server) : Prop :=
  ∀ a ∈ claimOf c, i.fails = false → ∀ id ∈ a.ids σ,
    σ.plane.counter a.stream a.group id < cfg.receivesCap a.group

instance (p : ℕ) (o : PullCall) (c : Cmd) (i : Input) (σ : Server) :
    Decidable (BelowCap cfg p o c i σ) :=
  inferInstanceAs (Decidable (∀ a ∈ claimOf c, _))

/-- No entry was delivered more often than the cap, and none was parked. -/
structure Bounded (cfg : QueueConfig) (σ : Server) : Prop where
  delivered : ∀ s g id, deliveries s g id σ.plane.log ≤ cfg.receivesCap g
  parked : ∀ q s g id, (q, .parked s g id) ∉ σ.plane.log

theorem Bounded.of_log {σ σ' : Server} (h : Bounded cfg σ) (log : σ'.plane.log = σ.plane.log) :
    Bounded cfg σ' :=
  ⟨fun s g id => log ▸ h.delivered s g id, fun q s g id => log ▸ h.parked q s g id⟩

theorem Bounded.event {σ σ' : Server} (h : Bounded cfg σ) {p : ℕ} {e : StreamEvent}
    (log : σ'.plane.log = (p, e) :: σ.plane.log) (granted : ∀ s g id n, e ≠ .granted s g id n)
    (parked : ∀ s g id, e ≠ .parked s g id) : Bounded cfg σ' := by
  refine ⟨fun s g id => ?_, fun q s g id => ?_⟩
  · rw [log, deliveries, History.total_cons]
    cases e with
    | granted => exact absurd rfl (granted _ _ _ _)
    | _ => simpa [StreamEvent.grants, deliveries] using h.delivered s g id
  · rw [log, List.mem_cons, not_or]
    exact ⟨fun eq => parked s g id (Prod.mk.inj eq).2.symm, h.parked q s g id⟩

/-- Grants keep the bound when each entry granted was delivered less often than the cap. -/
theorem Bounded.grant {σ σ' : Server} (h : Bounded cfg σ) {p : ℕ} {π : Plane} {stream group : String}
    {ids : List EntryId} (nodup : ids.Nodup) (plane : σ'.plane = π.grant p stream group ids)
    (log : π.log = σ.plane.log)
    (below : ∀ id ∈ ids, deliveries stream group id σ.plane.log < cfg.receivesCap group) :
    Bounded cfg σ' := by
  refine ⟨fun s g id => ?_, fun q s g id => ?_⟩
  · rw [plane, Plane.deliveries_grant nodup, log]
    split_ifs with hin
    · obtain ⟨rfl, rfl, hid⟩ := hin
      rw [Nat.add_comm]
      exact below id hid
    · rw [Nat.zero_add]
      exact h.delivered s g id
  · rw [plane, Plane.log_grant, log, List.mem_append, not_or]
    refine ⟨fun hmem => ?_, h.parked q s g id⟩
    obtain ⟨e, he, eq⟩ := List.mem_map.1 hmem
    obtain ⟨i, -, rfl⟩ := List.mem_map.1 he
    cases eq

/-- One command keeps the bound. -/
theorem Bounded.exec {p : ℕ} {o : PullCall} {c : Cmd} {i : Input} {σ : Server}
    (coherent : σ.plane.Coherent) (below : BelowCap cfg p o c i σ) (parks : Parks cfg c σ)
    (h : Bounded cfg σ) : Bounded cfg (σ.exec p c i).2 := by
  cases c with
  | now | keyed => exact h.of_log rfl
  | stream c =>
    cases c with
    | xgroupCreate stream group =>
      refine h.event (p := p) (e := .ensured stream group) ?_ (fun _ _ _ _ h => by cases h) fun _ _ _ h => by cases h
      simp only [Server.exec, Plane.exec]
      split_ifs <;> rfl
    | xadd stream f maxlen =>
      exact h.event (e := .sent stream _ f) rfl (fun _ _ _ _ h => by cases h) fun _ _ _ h => by cases h
    | xreadgroup stream group consumer count =>
      have fresh : ∀ id ∈ (σ.plane.streams stream).readIds group count,
          deliveries stream group id σ.plane.log < cfg.receivesCap group := fun id hid => by
        rw [coherent.fresh _ _ _ (Stream.mem_readIds hid).1]
        exact cfg.receivesCap_pos group
      have plane : (σ.exec p (.stream (.xreadgroup stream group consumer count)) i).2.plane =
          (σ.plane.setStream stream
            ((σ.plane.streams stream).read group consumer count σ.now).2).grant p stream group
            ((σ.plane.streams stream).readIds group count) := by
        simp only [Server.exec, Plane.exec, Stream.read_ids]
      exact h.grant (Stream.readIds_sorted.imp fun h => Nat.ne_of_lt h) plane rfl fresh
    | xpendingIdle stream group count idle =>
      simp only [Server.exec, Plane.exec]
      split_ifs
      · exact h
      · exact h.event (e := .listed stream group _) rfl (fun _ _ _ _ h => by cases h) fun _ _ _ h => by cases h
    | xautoclaim stream group consumer minIdle count =>
      by_cases hf : i.fails = true
      · exact h.of_log (by simp [Server.exec, Plane.exec, hf])
      have nodup : ((σ.plane.streams stream).claims group minIdle count σ.now).1.Nodup :=
        Stream.claims_nodup
      have plane : (σ.exec p (.stream (.xautoclaim stream group consumer minIdle count)) i).2.plane =
          (σ.plane.setStream stream
            ((σ.plane.streams stream).autoclaim group consumer minIdle count σ.now).2).grant p stream
            group ((σ.plane.streams stream).claims group minIdle count σ.now).1 := by
        simp only [Server.exec, Plane.exec, hf, Bool.false_eq_true, if_false, Stream.autoclaim_ids]
      refine h.grant nodup plane rfl fun id hid => ?_
      have counted := below _ rfl (by simpa using hf) id hid
      obtain ⟨⟨e, he, -⟩, -⟩ := Stream.mem_claims hid
      rw [← coherent.counted _ _ _ _ he]
      simpa [Plane.counter, he] using counted
    | warnParked stream g id => exact absurd (h.delivered stream g id) (Nat.not_le.2 parks)
    | onDlq e attempts =>
      exact h.event (e := .deadLetter e attempts) rfl (fun _ _ _ _ h => by cases h) fun _ _ _ h => by cases h
    | xclaim | xack | xdel | setRecover =>
      refine h.of_log ?_
      simp only [Server.exec, Plane.exec]
      split_ifs <;> rfl
    | _ => exact h.of_log rfl

end Pull

namespace OneTooMany

/-- A queue whose messages are to be parked after one delivery. -/
def config : QueueConfig where
  name := "orders"
  groups := [{ name := "billing" }]
  defaultVisibilityTimeoutMs := 10
  maxVisibilityTimeoutMs := 10
  maxReceives := 1
  groups_ne := QueueConfig.brief.groups_ne
  groups_nodup := QueueConfig.brief.groups_nodup
  default_nonneg := QueueConfig.brief.default_nonneg
  max_pos := QueueConfig.brief.max_pos
  maxReceives_pos := Nat.one_pos
  maxlen_pos := QueueConfig.brief.maxlen_pos
  default_le_max := QueueConfig.brief.default_le_max
  delete_single := QueueConfig.brief.delete_single

/-- A replica sends and receives a message; its lease expires, and another replica receives it. -/
def acts : List (Act (pull config)) :=
  [.call 0 (.send BornStale.store BornStale.envelope), .exec 0 {}, .ret 0,
    .call 0 BornStale.receive, .exec 0 {}, .exec 0 {}, .exec 0 {}, .exec 0 {}, .exec 0 {}, .ret 0,
    .disturb (.advance 10),
    .call 1 BornStale.receive, .exec 1 {}, .exec 1 {}, .exec 1 {}, .exec 1 {}, .ret 1]

end OneTooMany

end NavigatorEventbus
