import NavigatorEventbus.Queues.Replicas

/-!
# What a call may issue

The commands of each call of the pull plane (`PullCall.Issues`): on which stream and group, with
which thresholds, and the deletion of an entry only where the queue opted in.
-/

namespace NavigatorEventbus

open Interleave

/-- The commands of a receive. -/
def QueueStore.Receives (store : QueueStore) (cfg : QueueConfig) (group : String) (leaseMs : ℤ) :
    Cmd → Prop
  | .now => True
  | .stream (.onDlq _ _ _ _) => True
  | .stream (.xgroupCreate s g) => s = store.streamFor cfg.name ∧ g = group
  | .stream (.xpendingIdle s g _ _) => s = store.streamFor cfg.name ∧ g = group
  | .stream (.warnParked s g _ _) => s = store.streamFor cfg.name ∧ g = group
  | .stream (.xack s g _) => s = store.streamFor cfg.name ∧ g = group
  | .stream (.xreadgroup s g _ _) => s = store.streamFor cfg.name ∧ g = group
  | .stream (.xautoclaim s g _ minIdle _) =>
    s = store.streamFor cfg.name ∧ g = group ∧ minIdle = cfg.maxVisibilityTimeoutMs
  | .stream (.xclaim s g _ _ idle) => s = store.streamFor cfg.name ∧ g = group ∧
      leaseMs < cfg.maxVisibilityTimeoutMs ∧ idle = cfg.maxVisibilityTimeoutMs - leaseMs
  | _ => False

/-- The commands that a call may issue. -/
def PullCall.Issues (cfg : QueueConfig) : PullCall → Cmd → Prop
  | .send store envelope, c =>
    c = .stream (.xadd (store.streamFor cfg.name) (encode envelope) cfg.maxlen)
  | .receive store group _ visibilityMs, c =>
    store.Receives cfg group (visibilityMs.getD cfg.defaultVisibilityTimeoutMs) c
  | .delete receipt, c =>
    c = .stream (.xpendingEntry receipt.stream receipt.group receipt.messageId) ∨
      c = .stream (.xack receipt.stream receipt.group receipt.messageId) ∨
      cfg.deleteEntries = true ∧ c = .stream (.xdel receipt.stream receipt.messageId)
  | .changeVisibility receipt visibilityMs, c =>
    c = .stream (.xclaim receipt.stream receipt.group receipt.consumer [receipt.messageId]
      (if visibilityMs ≤ 0 then cfg.maxVisibilityTimeoutMs
        else max 0 (cfg.maxVisibilityTimeoutMs - visibilityMs)))

namespace QueueStore

variable (store : QueueStore) (cfg : QueueConfig) (group : String) (leaseMs : ℤ)

theorem receives_ack (id : EntryId) :
    (ack (store.streamFor cfg.name) group id).All (store.Receives cfg group leaseMs) :=
  .bind (.one ⟨rfl, rfl⟩) fun _ => trivial

theorem receives_parkToDlq (id : EntryId) (fields : Fields) (attempts : ℕ) :
    (store.parkToDlq cfg group (store.streamFor cfg.name) id fields attempts).All
      (store.Receives cfg group leaseMs) := by
  have rest : (do
      Script.stream (.warnParked (store.streamFor cfg.name) group id attempts)
      ack (store.streamFor cfg.name) group id : Script Unit).All
        (store.Receives cfg group leaseMs) :=
    .bind (.one ⟨rfl, rfl⟩) fun _ => store.receives_ack cfg group leaseMs id
  unfold parkToDlq
  dsimp only
  split_ifs
  · split
    · exact rest
    · exact .bind (.one trivial) fun _ => rest
  · exact rest

theorem receives_sortReclaimed (seen : List (EntryId × ℕ)) (l : List (EntryId × Fields)) :
    (store.sortReclaimed cfg group (store.streamFor cfg.name) seen l).All
      (store.Receives cfg group leaseMs) := by
  induction l with
  | nil => trivial
  | cons x l ih =>
    unfold sortReclaimed
    split
    · exact .bind (store.receives_parkToDlq cfg group leaseMs _ _ _) fun _ => ih
    · exact .bind ih fun _ => trivial

theorem receives_reclaim (count : ℕ) :
    (store.reclaim cfg group (store.streamFor cfg.name) cfg.maxVisibilityTimeoutMs count).All
      (store.Receives cfg group leaseMs) := by
  unfold reclaim
  refine .bind (.one ⟨rfl, rfl⟩) fun seen => ?_
  cases seen with
  | none => trivial
  | some seen =>
    refine .bind (.one ⟨rfl, rfl, rfl⟩) fun entries => ?_
    cases entries with
    | none => trivial
    | some entries => exact store.receives_sortReclaimed cfg group leaseMs seen entries

theorem receives_applyVisibility (ids : List EntryId) :
    (store.applyVisibility (store.streamFor cfg.name) group ids cfg.maxVisibilityTimeoutMs
      leaseMs).All (store.Receives cfg group leaseMs) := by
  unfold applyVisibility
  split_ifs with h
  · trivial
  · refine .bind (.one ⟨rfl, rfl, ?_, ?_⟩) fun _ => trivial <;> omega

theorem receives_deliver (expiresAt : ℤ) (l : List Claimed) :
    (store.deliver cfg group (store.streamFor cfg.name) expiresAt l).All
      (store.Receives cfg group leaseMs) := by
  induction l with
  | nil => trivial
  | cons x l ih =>
    unfold deliver
    split
    · exact .bind (store.receives_ack cfg group leaseMs _) fun _ => ih
    · exact .bind ih fun _ => trivial

theorem receives_receive (maxMessages : ℕ) (visibilityMs : Option ℤ) :
    (store.receive cfg group maxMessages visibilityMs).All
      (store.Receives cfg group (visibilityMs.getD cfg.defaultVisibilityTimeoutMs)) := by
  unfold receive
  generalize visibilityMs.getD cfg.defaultVisibilityTimeoutMs = leaseMs
  refine .bind (.one ⟨rfl, rfl⟩) fun _ =>
    .bind (store.receives_reclaim cfg group leaseMs maxMessages) fun reclaimed => ?_
  have rest : ∀ fresh : List Claimed, (do
      if reclaimed ++ fresh = [] then return []
      store.applyVisibility (store.streamFor cfg.name) group ((reclaimed ++ fresh).map Prod.fst)
        cfg.maxVisibilityTimeoutMs leaseMs
      let now ← Script.now
      store.deliver cfg group (store.streamFor cfg.name) (now + leaseMs) (reclaimed ++ fresh) :
        Script (List DeliveredMessage)).All (store.Receives cfg group leaseMs) := by
    intro fresh
    split_ifs
    · trivial
    · exact .bind (store.receives_applyVisibility cfg group leaseMs _) fun _ =>
        .bind (.one trivial) fun _ => store.receives_deliver cfg group leaseMs _ _
  split_ifs
  · exact .bind (.bind (.one ⟨rfl, rfl⟩) fun _ => trivial) rest
  · exact rest []

end QueueStore

namespace Pull

variable {cfg : QueueConfig}

theorem issues_removeEntry (receipt : Receipt) :
    (QueueStore.removeEntry cfg receipt).All (PullCall.Issues cfg (.delete receipt)) := by
  refine .bind (.bind (.one (.inr (.inl rfl))) fun _ => trivial) fun _ => ?_
  split_ifs with hdel
  · exact .bind (.one (.inr (.inr ⟨hdel, rfl⟩))) fun _ => trivial
  · trivial

theorem issues_delete (receipt : Receipt) :
    (QueueStore.delete cfg receipt).All (PullCall.Issues cfg (.delete receipt)) := by
  have decided : ∀ stale : Bool, (if stale then return .error (.staleReceipt receipt.messageId) else do
      QueueStore.removeEntry cfg receipt
      return .ok () : Script (Except Exc Unit)).All (PullCall.Issues cfg (.delete receipt)) := by
    intro stale
    split_ifs
    · trivial
    · exact .bind (issues_removeEntry receipt) fun _ => trivial
  unfold QueueStore.delete
  dsimp only
  split_ifs
  · refine .bind (.bind (.one (.inl rfl)) fun pending => ?_) decided
    cases pending <;> trivial
  · exact decided false

/-- Every call of the pull plane issues its own commands only. -/
theorem issues (o : PullCall) : ((pull cfg).code o).All (o.Issues cfg) := by
  cases o with
  | send store envelope => exact .bind (.one rfl) fun _ => trivial
  | receive store group maxMessages visibilityMs =>
    exact .bind (store.receives_receive cfg group maxMessages visibilityMs) fun _ => trivial
  | delete receipt => exact .bind (issues_delete receipt) fun _ => trivial
  | changeVisibility receipt visibilityMs => exact .bind (.one rfl) fun _ => trivial

theorem start_calls (σ : Server) :
    Pool.Calls (V := pull cfg) (PullCall.Issues cfg) ⟨σ, fun _ => .resting ()⟩ := by
  intro p o x h
  cases h

/-- Delivery counters agree with the history in every run, and only grow. -/
theorem coherent_run {A : Pool (pull cfg) → Act (pull cfg) → Prop} {P P' : Pool (pull cfg)}
    (hr : Pool.Reach A P P') (h : P.shared.plane.Coherent) :
    P'.shared.plane.Coherent ∧ ∀ s g id,
      deliveries s g id P.shared.plane.log ≤ deliveries s g id P'.shared.plane.log := by
  let J (σ : Server) : Prop := σ.plane.Coherent ∧ ∀ s g id,
    deliveries s g id P.shared.plane.log ≤ deliveries s g id σ.plane.log
  show J P'.shared
  refine hr.stable ?_ ?_ ?_ ⟨h, fun _ _ _ => Nat.le_refl _⟩
  · rintro p c i σ ⟨coherent, le⟩
    refine ⟨?_, fun s g id => (le s g id).trans (deliveries_le_exec c i s g id)⟩
    cases c with
    | now | keyed => exact coherent
    | stream c => exact coherent.exec p σ.now i c
  · rintro p o r σ ⟨coherent, le⟩
    cases o with
    | receive =>
      cases r with
      | received ds =>
        refine ⟨coherent.event fun _ _ _ _ => nofun, fun s g id => (le s g id).trans ?_⟩
        simp [deliveries, StreamEvent.grants]
      | _ => exact ⟨coherent, le⟩
    | _ => exact ⟨coherent, le⟩
  · rintro σ d ⟨coherent, le⟩
    cases d with
    | advance | lapse => exact ⟨coherent, le⟩
    | dropSig | endPause | endThrottle => exact ⟨coherent.of_eq rfl rfl, le⟩

end Pull

end NavigatorEventbus
