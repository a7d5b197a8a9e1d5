import NavigatorEventbus.Keyed.Recovery
import NavigatorEventbus.Lib.Accounting
import NavigatorEventbus.Queues.Footprint

/-!
# What a signal is sent for

A signal is a hint, and a lost one is sent again, so nothing limits the signals of a key but the way they are sent.  Each
push, applied outcome or released hold of the key sends at most one, and so does a recover pass; every other signal takes
away a deadline of the key that somebody has set (`signals_paid`).
-/

namespace NavigatorEventbus

open Interleave

/-! ## Prices -/

/-- One for the key itself, and nothing for another one. -/
def fee (key k : Key) : ℕ := if k = key then 1 else 0

/-- The signals for the key that a command sends. -/
def Cmd.cost (key : Key) (c : Cmd) (_r : c.Reply) : ℕ := c.signalled.elim 0 (fee key)

/-- The deadlines of the key that a command has taken away. -/
def Cmd.promoted (key : Key) : (c : Cmd) → c.Reply → ℕ
  | .keyed (.write (.zremDelayed k)), (r : ℕ) => if r = 1 then fee key k else 0
  | _, _ => 0

/-- A transaction sets a deadline of the key. -/
def Tx.Schedules (key : Key) : Tx → Prop
  | .retry k _ _ _ _ _ | .wait k _ _ _ _ => k = key
  | _ => False

instance (key : Key) (tx : Tx) : Decidable (tx.Schedules key) := by
  apply tx.casesOn (motive := fun tx => Decidable (tx.Schedules key)) <;> intros <;>
    dsimp only [Tx.Schedules] <;> infer_instance

/-- The deadlines of the key that a command has set. -/
def Cmd.scheduled (key : Key) : (c : Cmd) → c.Reply → ℕ
  | .keyed (.write (.zaddDelayed k _)), _ => fee key k
  | .keyed (.exec _ tx), (done : Bool) => if done = true ∧ tx.Schedules key then 1 else 0
  | _, _ => 0

/-- The signals for the key that a call may send without a deadline. -/
def KeyedCall.credit (key : Key) (o : KeyedCall) : ℕ :=
  match o.op with
  | .push k _ _ _ | .releaseHold k => fee key k
  | .apply lease _ => fee key lease.key
  | .recover _ _ => 1
  | _ => 0

/-- A command that sends no signal. -/
def Cmd.Mute (c : Cmd) : Prop := c.signalled = none

theorem Cmd.Mute.cost {c : Cmd} (h : c.Mute) (key : Key) (r : c.Reply) : c.cost key r = 0 := by
  unfold Cmd.cost
  rw [h]
  rfl

/-! ## Programs that send none -/

namespace QueueStore

variable (store : QueueStore) (cfg : QueueConfig)

theorem mute_receive (group : String) (n : ℕ) (visibility : Option ℤ) :
    (store.receive cfg group n visibility).All Cmd.Mute := by
  refine (store.receives_receive cfg group n visibility).mono fun c hc => ?_
  cases c with
  | stream c =>
    cases c with
    | xadd => cases hc
    | _ => rfl
  | _ => rfl

theorem mute_delete (receipt : Receipt) : (delete cfg receipt).All Cmd.Mute := by
  refine (Pull.issues_delete receipt).mono fun c hc => ?_
  rcases hc with rfl | rfl | ⟨-, rfl⟩ <;> rfl

theorem mute_changeVisibility (receipt : Receipt) (ms : ℤ) : (changeVisibility cfg receipt ms).All Cmd.Mute :=
  .one rfl

end QueueStore

theorem Cmd.Aside.mute {c : Cmd} (h : c.Aside) : c.Mute := h.1

namespace KeyedQueue

variable (q : KeyedQueue)

theorem mute_markSignal (key : Key) (entry : EntryId) : (q.markSignal key entry).All Cmd.Mute :=
  .bind (.one rfl) fun _ => .bind (.one rfl) fun _ => .one rfl

theorem mute_ackSignal (receipt : Option Receipt) (key : Option Key) : (q.ackSignal receipt key).All Cmd.Mute := by
  cases receipt with
  | none => trivial
  | some receipt =>
    refine .bind (QueueStore.mute_delete ..) fun _ => ?_
    cases key with
    | none => trivial
    | some key => exact .one rfl

theorem mute_release (key : Key) (lock : Token) : (release key lock).All Cmd.Mute :=
  .bind (.one rfl) fun _ => trivial

theorem mute_handoffDlq (message : KeyedMessage) (error : String) : (q.handoffDlq message error).All Cmd.Mute := by
  unfold handoffDlq
  split_ifs <;> exact .one rfl

theorem mute_verifyFence (lock : Token) (key : Key) (mid : MsgId) (gen : Option ℕ) (createdMs : Option ℤ) :
    (verifyFence lock key mid gen createdMs).All Cmd.Mute := by
  refine .bind (.one rfl) fun _ => .bind (.one rfl) fun stored => ?_
  split_ifs
  · trivial
  · refine .bind (.one rfl) fun raw => ?_
    cases raw <;> trivial

theorem mute_pushScore (now : ℤ) (order : Option ℚ) : (pushScore now order).All Cmd.Mute := by
  cases order with
  | some order => trivial
  | none => exact .bind (.one rfl) fun _ => trivial

theorem mute_pushTries (key : Key) (mid : MsgId) (body : Body) (order : Option ℚ) (now : ℤ) (tries : ℕ) :
    (pushTries key mid body order now tries).All Cmd.Mute := by
  induction tries with
  | zero => trivial
  | succ tries ih =>
    refine .bind (.one rfl) fun w => .bind (.one rfl) fun stored => ?_
    cases stored with
    | some existing =>
      dsimp only
      split_ifs <;> trivial
    | none =>
      refine .bind (mute_pushScore now order) fun score => .bind (.one rfl) fun done => ?_
      split_ifs
      · trivial
      · exact ih

theorem mute_expireFenced (key : Key) (message : KeyedMessage) (lock : Token) (own : Bool) :
    (q.expireFenced key message lock own).All Cmd.Mute := by
  refine .bind (mute_verifyFence ..) fun fence => ?_
  cases fence with
  | error e => trivial
  | ok fence =>
    refine .bind (q.mute_handoffDlq ..) fun _ => .bind (.one rfl) fun held => .bind (.one rfl) fun done => ?_
    split_ifs <;> trivial

theorem mute_expireHead (key : Key) (message : KeyedMessage) (lock : Option Token) :
    (q.expireHead key message lock).All Cmd.Mute := by
  unfold expireHead
  cases q.config.maxAgeMs with
  | none => trivial
  | some maxAge =>
    refine .bind (.one rfl) fun now => ?_
    split_ifs
    · trivial
    · cases lock with
      | some lock => exact q.mute_expireFenced ..
      | none =>
        refine .bind (.one rfl) fun own => ?_
        cases own with
        | none => trivial
        | some own => exact .bind (q.mute_expireFenced ..) fun r => .bind (mute_release ..) fun _ => trivial

theorem mute_leaseHead (key : Key) (lock : Token) (receipt : Option Receipt) (ignoreDue : Bool) (mid : MsgId)
    (message : KeyedMessage) (now : ℤ) : (leaseHead key lock receipt ignoreDue mid message now).All Cmd.Mute := by
  refine .bind (.one rfl) fun held => ?_
  dsimp only
  split_ifs
  · trivial
  · exact .bind (.one rfl) fun _ => trivial
  · refine .bind (mute_verifyFence ..) fun fence => ?_
    cases fence with
    | error e =>
      dsimp only
      split_ifs <;> trivial
    | ok fence =>
      refine .bind (.one rfl) fun done => ?_
      split_ifs <;> trivial

theorem mute_leaseLocked (key : Key) (lock : Token) (receipt : Option Receipt) (ignoreDue : Bool) (fuel : ℕ) :
    (q.leaseLocked key lock receipt ignoreDue fuel).All Cmd.Mute := by
  induction fuel with
  | zero => trivial
  | succ fuel ih =>
    refine .bind (.one rfl) fun head => ?_
    cases head with
    | none => exact .bind ((aside_dropKeyIfEmpty key 2).mono fun _ => Cmd.Aside.mute) fun _ => trivial
    | some mid =>
      refine .bind (.one rfl) fun raw => ?_
      cases raw with
      | none => exact .bind (.one rfl) fun _ => .bind (.one rfl) fun _ => ih
      | some raw =>
        dsimp only
        cases toMessage raw mid with
        | error e => trivial
        | ok message =>
          refine .bind (.one rfl) fun now => .bind (q.mute_expireHead ..) fun expired => ?_
          cases expired with
          | error e =>
            dsimp only
            split_ifs <;> trivial
          | ok expired =>
            cases expired with
            | true => exact ih
            | false => exact mute_leaseHead ..

theorem mute_leaseKeyDetailed (key : Key) (receipt : Option Receipt) (ignoreDue : Bool) (fuel : ℕ) :
    (q.leaseKeyDetailed key receipt ignoreDue fuel).All Cmd.Mute := by
  refine .bind (.one rfl) fun lock => ?_
  cases lock with
  | none => exact .bind (q.mute_ackSignal ..) fun _ => trivial
  | some lock =>
    refine .bind (q.mute_leaseLocked ..) fun r => ?_
    cases r with
    | error e => exact .bind (mute_release ..) fun _ => trivial
    | ok r =>
      obtain ⟨lease, reason⟩ := r
      cases lease with
      | some lease => trivial
      | none => exact .bind (mute_release ..) fun _ => .bind (q.mute_ackSignal ..) fun _ => trivial

theorem mute_leaseTries (fuel tries : ℕ) : (q.leaseTries fuel tries).All Cmd.Mute := by
  induction tries with
  | zero => trivial
  | succ tries ih =>
    refine .bind (.one rfl) fun paused => ?_
    split_ifs
    · trivial
    · refine .bind (q.store.mute_receive ..) fun items => ?_
      cases items with
      | nil => trivial
      | cons item items =>
        refine .bind (.one rfl) fun paused => ?_
        split_ifs
        · exact .bind (QueueStore.mute_changeVisibility ..) fun _ => trivial
        · cases signalKey item.envelope with
          | none => exact .bind (q.mute_ackSignal ..) fun _ => ih
          | some key =>
            refine .bind (q.mute_markSignal ..) fun _ => .bind (q.mute_leaseKeyDetailed ..) fun r => ?_
            cases r with
            | error e => trivial
            | ok r =>
              obtain ⟨lease, reason⟩ := r
              cases lease with
              | some lease => trivial
              | none => exact ih

theorem mute_extendSignal (key : Key) (ms : ℤ) (receipt : Receipt) : (q.extendSignal key ms receipt).All Cmd.Mute := by
  refine .bind (QueueStore.mute_changeVisibility ..) fun r => ?_
  cases r with
  | none => trivial
  | some r =>
    refine .bind (.one rfl) fun pending => ?_
    cases pending with
    | none => trivial
    | some pending =>
      dsimp only
      split_ifs
      · trivial
      · exact q.mute_markSignal ..

theorem mute_extend (lease : KeyedLease) (additionalMs : Option ℤ) : (q.extend lease additionalMs).All Cmd.Mute := by
  unfold extend
  dsimp only
  split_ifs
  · trivial
  · refine .bind (.one rfl) fun extended => ?_
    split_ifs
    · cases lease.receipt with
      | none => trivial
      | some receipt => exact .bind (q.mute_extendSignal ..) fun _ => trivial
    · trivial

theorem mute_scanKeys (fuel cursor : ℕ) (found : List Key) : (scanKeys fuel cursor found).All Cmd.Mute := by
  induction fuel generalizing cursor found with
  | zero => trivial
  | succ fuel ih =>
    refine .bind (.one rfl) fun page => ?_
    obtain ⟨cursor', members⟩ := page
    dsimp only
    split_ifs
    · trivial
    · exact ih ..

theorem mute_recoverFlags (now : ℤ) (names : List Key) : (recoverFlags now names).All Cmd.Mute := by
  induction names with
  | nil => trivial
  | cons name names ih =>
    exact .bind (.one rfl) fun _ => .bind (.one rfl) fun _ => .bind (.one rfl) fun _ => .bind ih fun _ => trivial

end KeyedQueue

/-! ## What an operation can afford -/

/-- With the credit `n` and the deadlines of the key that it takes away, the program pays for the signals for the
key that it sends. -/
abbrev Script.Pays {α : Type} (key : Key) (n : ℕ) (x : Script α) : Prop :=
  x.Affords (Cmd.cost key) (Cmd.promoted key) n

theorem mute_free {α : Type} {x : Script α} (h : x.All Cmd.Mute) (key : Key) :
    x.All fun (c : Cmd) => ∀ r : c.Reply, c.cost key r = 0 :=
  h.mono fun _ hc => hc.cost key

namespace KeyedQueue

variable (q : KeyedQueue) (key : Key)

theorem pays_mute {α : Type} {x : Script α} (h : x.All Cmd.Mute) (n : ℕ) : Script.Pays key n x :=
  .of_all (mute_free h key)

theorem pays_after {α β : Type} {n : ℕ} {x : Script α} {g : α → Script β} (h : x.All Cmd.Mute)
    (hg : ∀ a, (g a).Pays key n) : Script.Pays key n (x >>= g) :=
  .after (mute_free h key) hg

theorem pays_signal (k : Key) : (q.signal k).Pays key (fee key k) :=
  .cmd_bind fun _ => ⟨Nat.le_add_right _ _, pays_mute key (q.mute_markSignal ..) _⟩

theorem pays_reconcileHead (k : Key) (mid : MsgId) (raw : MsgHash) :
    (q.reconcileHead k mid raw).Pays key (fee key k) := by
  unfold reconcileHead
  split
  · trivial
  · refine pays_after key (.one rfl) fun now => ?_
    dsimp only
    split_ifs
    · exact pays_after key (.one rfl) fun _ => trivial
    · exact pays_after key (.one rfl) fun _ => (q.pays_signal key k).map _

theorem pays_reconcile (k : Key) : (q.reconcile k).Pays key (fee key k) := by
  refine pays_after key (.one rfl) fun head => ?_
  cases head with
  | none => exact pays_after key ((aside_dropKeyIfEmpty k 2).mono fun _ => Cmd.Aside.mute) fun _ => trivial
  | some mid =>
    refine pays_after key (.one rfl) fun raw => ?_
    cases raw with
    | none => exact (q.pays_signal key k).map _
    | some raw =>
      refine pays_after key (.one rfl) fun held => ?_
      split_ifs
      · exact pays_after key (.one rfl) fun _ => trivial
      · exact q.pays_reconcileHead ..

theorem pays_push (k : Key) (body : Body) (mid : MsgId) (order : Option ℚ) :
    (q.push k body mid order).Pays key (fee key k) := by
  refine pays_after key (.one rfl) fun now => pays_after key (mute_pushTries ..) fun r => ?_
  cases r with
  | error e => trivial
  | ok r => exact (q.pays_signal key k).map _

theorem pays_settle (lease : KeyedLease) (outcome : Outcome) :
    (q.settle lease outcome).Pays key (fee key lease.key) := by
  refine pays_after key (mute_release ..) fun _ => ?_
  split
  · exact pays_after key (q.mute_ackSignal ..) fun _ => trivial
  · refine (q.pays_reconcile key lease.key).bind (m := 0) fun r => ?_
    cases r with
    | error e => trivial
    | ok r => exact pays_after key (q.mute_ackSignal ..) fun _ => trivial

theorem pays_apply (lease : KeyedLease) (outcome : Outcome) :
    (q.apply lease outcome).Pays key (fee key lease.key) := by
  refine pays_after key (mute_verifyFence ..) fun fence => ?_
  cases fence with
  | error e => trivial
  | ok fence =>
    obtain ⟨w, current⟩ := fence
    refine pays_after key (.one rfl) fun now => ?_
    have rest : Script.Pays key (fee key lease.key) (do
        if ← Script.keyed (.exec w (q.outcomeTx lease current now outcome)) then
          q.settle lease outcome
        else
          return .error (.leaseLost (.superseded lease.key)) : Script (Except Exc Unit)) := by
      refine pays_after key (.one rfl) fun done => ?_
      split_ifs
      · exact q.pays_settle key lease outcome
      · trivial
    dsimp only
    split
    · exact rest
    · exact pays_after key (q.mute_handoffDlq ..) fun _ => rest

/-- Each signal of a promotion is paid for by the deadline that it has taken away. -/
theorem pays_promoteKeys (keys : List Key) : (q.promoteKeys keys).Pays key 0 := by
  induction keys with
  | nil => trivial
  | cons k keys ih =>
    refine .cmd_bind fun r => ⟨Nat.zero_le _, ?_⟩
    split_ifs with removed
    · have gain : Cmd.promoted key (.keyed (.write (.zremDelayed k))) r = fee key k := if_pos removed
      rw [gain, Nat.zero_add]
      exact (q.pays_signal key k).bind (m := 0) fun _ => ih.map _
    · exact ih.mono (Nat.zero_le _)

theorem pays_releaseHold (k : Key) : (q.releaseHold k).Pays key (fee key k) := by
  refine pays_after key (.one rfl) fun removed => ?_
  split_ifs
  · trivial
  · refine pays_after key (.one rfl) fun head => ?_
    cases head with
    | none => exact (q.pays_signal key k).map _
    | some mid =>
      refine pays_after key (.one rfl) fun found => ?_
      dsimp only
      split_ifs
      · exact pays_after key (.one rfl) fun _ => (q.pays_signal key k).map _
      · exact (q.pays_signal key k).map _

theorem pays_recoverOrphans (flags : List (Key × Bool)) (sent : ℕ) :
    (q.recoverOrphans flags sent).Pays key ((flags.map Prod.fst).count key) := by
  induction flags generalizing sent with
  | nil => trivial
  | cons flag flags ih =>
    obtain ⟨name, busy⟩ := flag
    have count : (((name, busy) :: flags).map Prod.fst).count key = fee key name + (flags.map Prod.fst).count key := by
      rw [List.map_cons, List.count_cons, Nat.add_comm]
      simp [fee]
    rw [count]
    cases busy with
    | true => exact (ih sent).mono (Nat.le_add_left _ _)
    | false =>
      refine (q.pays_reconcile key name).bind fun r => ?_
      cases r with
      | error e => trivial
      | ok found =>
        cases found with
        | true => exact ih (sent + 1)
        | false => exact ih sent

/-- The checks of a chunk keep its names. -/
theorem yields_recoverFlags (now : ℤ) (names : List Key) :
    (recoverFlags now names).Yields fun flags => flags.map Prod.fst = names := by
  induction names with
  | nil => rfl
  | cons name names ih =>
    refine .then fun _ => .then fun live => .then fun locked => ih.bind fun flags same => ?_
    exact congrArg (name :: ·) same

theorem pays_recoverChunks (chunks : List (List Key)) (sent : ℕ) :
    (q.recoverChunks chunks sent).Pays key (chunks.flatten.count key) := by
  induction chunks generalizing sent with
  | nil => trivial
  | cons chunk chunks ih =>
    rw [List.flatten_cons, List.count_append]
    refine pays_after key (.one rfl) fun now => ?_
    refine .after_yields (mute_free (mute_recoverFlags now chunk) key) (yields_recoverFlags now chunk) ?_
    rintro flags rfl
    refine (q.pays_recoverOrphans key flags sent).bind fun r => ?_
    cases r with
    | error e => trivial
    | ok sent => exact ih sent

/-- A pass comes by each key once. -/
theorem pays_sweep (fuel : ℕ) : (q.sweep fuel).Pays key 1 := by
  refine pays_after key (mute_scanKeys ..) fun found => ?_
  refine (q.pays_recoverChunks key (recoverNames found) 0).mono ?_
  have flat : (recoverNames found).flatten = found.dedup.mergeSort (· ≤ ·) := flatten_toChunks ..
  have nodup : (recoverNames found).flatten.Nodup := by
    rw [flat, (List.mergeSort_perm _ _).nodup_iff]
    exact List.nodup_dedup found
  exact List.nodup_iff_count_le_one.1 nodup key

theorem pays_recover (force : Bool) (fuel : ℕ) : (q.recover force fuel).Pays key 1 := by
  refine pays_after key (.one rfl) fun paused => ?_
  split_ifs
  · trivial
  all_goals refine pays_after key (q.aside_hasBacklog.mono fun _ => Cmd.Aside.mute) fun backlog => ?_
  all_goals split_ifs
  · trivial
  · exact q.pays_sweep key fuel
  · trivial
  · refine pays_after key (.one rfl) fun won => ?_
    split_ifs
    · exact q.pays_sweep key fuel
    · trivial

end KeyedQueue

/-- Every call pays for its signals. -/
theorem KeyedCall.pays_code (o : KeyedCall) (key : Key) : o.code.Pays key (o.credit key) := by
  obtain ⟨q, op⟩ := o
  cases op with
  | push k body mid order => exact .map (q.pays_push key k body mid order) KeyedResult.pushed
  | lease fuel => exact KeyedQueue.pays_after key (q.mute_leaseTries ..) fun _ => trivial
  | leaseKey k ignoreDue fuel => exact KeyedQueue.pays_after key (q.mute_leaseKeyDetailed ..) fun _ => trivial
  | extend lease additionalMs commands =>
    have mute : (do return .extended (← q.extend lease additionalMs) : Script KeyedResult).All Cmd.Mute :=
      .bind (q.mute_extend ..) fun _ => trivial
    cases commands with
    | none => exact KeyedQueue.pays_mute key mute _
    | some n => exact KeyedQueue.pays_mute key (mute.cutoff ..) _
  | apply lease outcome => exact .map (q.pays_apply key lease outcome) KeyedResult.applied
  | abandon lease => exact KeyedQueue.pays_after key (KeyedQueue.mute_release ..) fun _ => trivial
  | expireHead k message => exact KeyedQueue.pays_after key (q.mute_expireHead ..) fun _ => trivial
  | promoteDue limit =>
    have promoted : (q.promoteDue limit).Pays key 0 :=
      KeyedQueue.pays_after key (.one rfl) fun now => KeyedQueue.pays_after key (.one rfl) fun due =>
        q.pays_promoteKeys key due
    exact .map promoted KeyedResult.sent
  | recover force fuel => exact .map (q.pays_recover key force fuel) KeyedResult.recovered
  | releaseHold k => exact .map (q.pays_releaseHold key k) KeyedResult.released
  | pause ttlMs reason => exact KeyedQueue.pays_after key (.one rfl) fun _ => trivial
  | resume => exact KeyedQueue.pays_after key (.one rfl) fun _ => trivial

/-! ## Deadlines -/

/-- The deadlines of the key that are set. -/
def Server.booked (key : Key) (σ : Server) : ℕ := if key ∈ σ.keyed.delayed then 1 else 0

theorem booked_le_one (key : Key) (σ : Server) : σ.booked key ≤ 1 := by
  unfold Server.booked
  split_ifs <;> omega

section Booked

variable (key : Key)

/-- A command that leaves the deadline of the key. -/
theorem booked_mono {σ σ' : Server} (h : key ∈ σ'.keyed.delayed → key ∈ σ.keyed.delayed) :
    σ'.booked key ≤ σ.booked key := by
  unfold Server.booked
  split_ifs with after before
  · exact Nat.le_refl _
  · exact absurd (h after) before
  · exact Nat.zero_le _
  · exact Nat.le_refl _

theorem booked_write (p : ℕ) (i : Input) (σ : Server) (w : Write) :
    (server.exec p (.keyed (.write w)) i σ).2.booked key +
      Cmd.promoted key (.keyed (.write w)) (server.exec p (.keyed (.write w)) i σ).1 ≤
      σ.booked key + Cmd.scheduled key (.keyed (.write w)) (server.exec p (.keyed (.write w)) i σ).1 := by
  have after : (server.exec p (.keyed (.write w)) i σ).2.keyed.delayed = (σ.keyed.write w).2.delayed :=
    Keyspace.delayed_exec p σ.now i (.write w)
  have kept (unscheduled : (σ.keyed.write w).2.delayed = σ.keyed.delayed) :
      (server.exec p (.keyed (.write w)) i σ).2.booked key ≤ σ.booked key :=
    booked_mono key fun mem => by rwa [after, unscheduled] at mem
  rw [Keyspace.delayed_write] at after kept
  cases w with
  | zaddDelayed k t =>
    have gain : Cmd.scheduled key (.keyed (.write (.zaddDelayed k t)))
      (server.exec p (.keyed (.write (.zaddDelayed k t))) i σ).1 = fee key k := rfl
    rw [gain]
    unfold fee
    split_ifs with same
    · have le := booked_le_one key (server.exec p (.keyed (.write (.zaddDelayed k t))) i σ).2
      exact le.trans (Nat.le_add_left _ _)
    · refine booked_mono key fun mem => ?_
      rw [after] at mem
      exact (SortedSet.mem_add.1 mem).resolve_left (Ne.symm same)
  | zremDelayed k =>
    have loss : Cmd.promoted key (.keyed (.write (.zremDelayed k)))
        (server.exec p (.keyed (.write (.zremDelayed k))) i σ).1 = if k ∈ σ.keyed.delayed then fee key k else 0 := by
      change (if (if k ∈ σ.keyed.delayed then 1 else 0) = 1 then fee key k else 0) = _
      split_ifs <;> simp_all
    have rest : (server.exec p (.keyed (.write (.zremDelayed k))) i σ).2.booked key =
        if key ≠ k ∧ key ∈ σ.keyed.delayed then 1 else 0 := by
      unfold Server.booked
      rw [after]
      exact if_congr SortedSet.mem_remove rfl rfl
    rw [loss, rest]
    unfold fee Server.booked
    split_ifs <;> simp_all
  | _ => exact kept rfl

theorem booked_tx (p : ℕ) (i : Input) (σ : Server) (w : Watch) (tx : Tx) :
    (server.exec p (.keyed (.exec w tx)) i σ).2.booked key ≤
      σ.booked key + Cmd.scheduled key (.keyed (.exec w tx)) (server.exec p (.keyed (.exec w tx)) i σ).1 := by
  have after : (server.exec p (.keyed (.exec w tx)) i σ).2.keyed.delayed =
      (if σ.keyed.unchanged w then σ.keyed.commit tx else σ.keyed).delayed :=
    Keyspace.delayed_exec p σ.now i (.exec w tx)
  have gain : Cmd.scheduled key (.keyed (.exec w tx)) (server.exec p (.keyed (.exec w tx)) i σ).1 =
      if σ.keyed.unchanged w = true ∧ tx.Schedules key then 1 else 0 := by
    have reply : (server.exec p (.keyed (.exec w tx)) i σ).1 = σ.keyed.unchanged w := by
      simp only [server, Server.exec, Keyspace.exec]
      cases σ.keyed.unchanged w <;> rfl
    rw [reply]
    rfl
  by_cases scheduled : σ.keyed.unchanged w = true ∧ tx.Schedules key
  · rw [gain, if_pos scheduled]
    exact (booked_le_one key _).trans (Nat.le_add_left _ _)
  · refine (booked_mono key fun mem => ?_).trans (Nat.le_add_right _ _)
    rw [after] at mem
    split_ifs at mem with done
    · rw [Keyspace.delayed_commit] at mem
      cases tx with
      | dropKey k => exact (SortedSet.mem_remove.1 mem).2
      | retry k | wait k =>
        exact (SortedSet.mem_add.1 mem).resolve_left fun same => scheduled ⟨done, same.symm⟩
      | _ => exact mem
    · exact mem

theorem booked_exec (p : ℕ) (c : Cmd) (i : Input) (σ : Server) :
    (server.exec p c i σ).2.booked key + c.promoted key (server.exec p c i σ).1 ≤
      σ.booked key + c.scheduled key (server.exec p c i σ).1 := by
  cases c with
  | now | stream => exact Nat.le_refl _
  | keyed c =>
    have after : (server.exec p (.keyed c) i σ).2.keyed.delayed = (σ.keyed.data c).delayed :=
      Keyspace.delayed_exec p σ.now i c
    cases c with
    | write w => exact booked_write key p i σ w
    | exec w tx => exact booked_tx key p i σ w tx
    | _ => exact booked_mono key fun mem => by rwa [after] at mem

theorem booked_disturb (d : Disturbance) (σ : Server) : (σ.disturb d).booked key ≤ σ.booked key := by
  cases d with
  | lapse k =>
    refine booked_mono key fun mem => ?_
    have same : (σ.keyed.lapse k).delayed = σ.keyed.delayed := by
      unfold Keyspace.lapse
      split_ifs <;> rfl
    rwa [← same]
  | _ => exact Nat.le_refl _

end Booked

/-- The signals for a key are paid for: each push, applied outcome and released hold of the key pays for one, each
`recover` pays for one, and every other signal for the key takes away a deadline of it that has been set. -/
theorem signals_paid {A : KeyedPool → Act actors → Prop} {P : KeyedPool} {h : History (Pool.Entry actors)}
    (hr : Pool.Recorded A Pool.journal KeyedPool.start [] P h) (key : Key) :
    History.total (Pool.Entry.spent (Cmd.cost key)) h ≤
      History.total (Pool.Entry.earned (KeyedCall.credit key) (Cmd.scheduled key)) h := by
  have paid : History.total (Pool.Entry.spent (Cmd.cost key)) h ≤
      History.total (Pool.Entry.earned (KeyedCall.credit key) (Cmd.promoted key)) h :=
    hr.balance (fun o => o.pays_code key) fun p => ⟨_, rfl⟩
  have stock := hr.stocked (Server.booked key) (booked_exec key) (fun _ _ _ _ => Nat.le_refl _)
    (booked_disturb key)
  have start : KeyedPool.start.shared.booked key = 0 := rfl
  rw [Pool.total_earned] at paid ⊢
  rw [start] at stock
  omega

namespace Scenario

/-- A message is pushed, leased and put off, and its deadline is promoted. -/
def promotion : List (Act actors) :=
  whole 0 push 8 ++ whole 0 (.leaseKey "k" false 1) 9 ++ whole 0 (.apply (lease 0 0 1) (.retry (some 5) none)) 11 ++
    .call 0 ⟨queue, .promoteDue none⟩ :: List.replicate 7 (.exec 0 { now := 10 })

end Scenario

open Scenario in
theorem signals_paid_witness : ∃ h : History (Pool.Entry actors),
    History.total (Pool.Entry.spent (Cmd.cost "k")) h = 2 ∧
      2 ≤ History.total (Pool.Entry.earned (KeyedCall.credit "k") (Cmd.scheduled "k")) h := by
  have run : ∃ Ph ∈ KeyedPool.start.recordSolo 0 (fun _ _ => true) Pool.journal [] promotion,
      History.total (Pool.Entry.spent (Cmd.cost "k")) Ph.2 = 2 := by decide +kernel
  obtain ⟨⟨P, h⟩, hrun, sent⟩ := run
  have recorded : Pool.Recorded (fun _ _ => True) Pool.journal KeyedPool.start [] P h :=
    .of_solo (fun _ _ _ _ => trivial) (fun _ _ => ⟨_, rfl⟩) hrun
  have paid := signals_paid recorded "k"
  rw [sent] at paid
  exact ⟨h, sent, paid⟩

end NavigatorEventbus
