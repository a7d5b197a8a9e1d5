import NavigatorEventbus.Keyed.Silent

/-!
# The transactions of an operation

Which transactions an operation of a keyed queue may commit (`Commits`), one lemma for each program.  What a
lease may commit is said once (`Leasing`): it drops an empty key, expires heads, and leases one of them.
-/

namespace NavigatorEventbus

open Interleave

/-- A command that commits only transactions that satisfy `T`, and writes only what may stand outside one. -/
def Commits (T : Tx → Prop) : Cmd → Prop
  | .keyed (.exec _ tx) => T tx
  | .keyed (.write w) => w.Loose
  | _ => True

/-- The transactions that a lease of `key` may commit satisfy `T`. -/
structure Leasing (T : Tx → Prop) (key : Key) : Prop where
  drop : T (.dropKey key)
  expire : ∀ mid lock unhold own, T (.expire key mid lock unhold own)
  lease : ∀ mid lock gen ignoreDue now, T (.lease key mid lock gen ignoreDue now)

variable {T : Tx → Prop}

theorem Silent.commits {c : Cmd} (h : Silent c) : Commits T c := by
  cases c with
  | now | stream => trivial
  | keyed c =>
    cases c with
    | exec => cases h
    | write w =>
      cases w with
      | hsetMsg => cases h
      | _ => exact h
    | _ => trivial

theorem OnPlane.commits {c : Cmd} (h : OnPlane c) : Commits T c := h.silent.commits

namespace KeyedQueue

variable (q : KeyedQueue)

theorem commits_signal (key : Key) : (q.signal key).All (Commits T) :=
  (q.onPlane_signal key).mono fun _ => OnPlane.commits

theorem commits_ackSignal (receipt : Option Receipt) (key : Option Key) :
    (q.ackSignal receipt key).All (Commits T) :=
  (q.onPlane_ackSignal receipt key).mono fun _ => OnPlane.commits

theorem commits_release (key : Key) (lock : Token) : (release key lock).All (Commits T) :=
  (silent_release key lock).mono fun _ => Silent.commits

theorem commits_handoffDlq (message : KeyedMessage) (error : String) :
    (q.handoffDlq message error).All (Commits T) :=
  (q.silent_handoffDlq message error).mono fun _ => Silent.commits

theorem commits_dropKeyIfEmpty {key : Key} (drop : T (.dropKey key)) (tries : ℕ) :
    (dropKeyIfEmpty key tries).All (Commits T) := by
  induction tries with
  | zero => trivial
  | succ tries ih =>
    refine .bind (.one trivial) fun w => .bind (.one trivial) fun n => ?_
    split_ifs
    · trivial
    · refine .bind (.one drop) fun done => ?_
      split_ifs
      · trivial
      · exact ih

theorem commits_verifyFence (lock : Token) (key : Key) (mid : MsgId) (gen : Option ℕ) (createdMs : Option ℤ) :
    (verifyFence lock key mid gen createdMs).All (Commits T) := by
  refine .bind (.one trivial) fun w => .bind (.one trivial) fun stored => ?_
  split_ifs
  · trivial
  · refine .bind (.one trivial) fun raw => ?_
    cases raw <;> trivial

theorem commits_reconcile {key : Key} (drop : T (.dropKey key)) : (q.reconcile key).All (Commits T) := by
  refine .bind (.one trivial) fun head => ?_
  cases head with
  | none => exact .bind (commits_dropKeyIfEmpty drop 2) fun _ => trivial
  | some mid =>
    refine .bind (.one trivial) fun raw => ?_
    cases raw with
    | none => exact .bind (q.commits_signal key) fun _ => trivial
    | some raw =>
      refine .bind (.one trivial) fun held => ?_
      split_ifs
      · exact .bind (.one trivial) fun _ => trivial
      · exact (q.silent_reconcileHead key mid raw).mono fun _ => Silent.commits

theorem commits_pushTries {key : Key} {mid : MsgId} {body : Body} {order : Option ℚ} {now : ℤ}
    (push : ∀ score default, T (.push key mid body score now default)) (tries : ℕ) :
    (pushTries key mid body order now tries).All (Commits T) := by
  induction tries with
  | zero => trivial
  | succ tries ih =>
    refine .bind (.one trivial) fun w => .bind (.one trivial) fun existing => ?_
    cases existing with
    | some existing =>
      dsimp only
      split_ifs <;> trivial
    | none =>
      refine .bind ?_ fun score => .bind (.one (push ..)) fun committed => ?_
      · cases order with
        | none => exact .bind (.one trivial) fun _ => trivial
        | some s => trivial
      · split_ifs
        · trivial
        · exact ih

theorem commits_push {key : Key} {mid : MsgId} {body : Body}
    (push : ∀ score now default, T (.push key mid body score now default)) (order : Option ℚ) :
    (q.push key body mid order).All (Commits T) := by
  refine .bind (.one trivial) fun now => .bind (commits_pushTries (fun _ _ => push ..) 64) fun r => ?_
  cases r with
  | error e => trivial
  | ok u => exact .bind (q.commits_signal key) fun _ => trivial

theorem commits_expireFenced {key : Key}
    (expire : ∀ mid lock unhold own, T (.expire key mid lock unhold own)) (message : KeyedMessage)
    (lock : Token) (own : Bool) : (q.expireFenced key message lock own).All (Commits T) := by
  refine .bind (commits_verifyFence ..) fun r => ?_
  match r with
  | .error e => trivial
  | .ok (w, _) =>
    refine .bind (q.commits_handoffDlq ..) fun _ => .bind (.one trivial) fun held =>
      .bind (.one (expire ..)) fun done => ?_
    split_ifs <;> trivial

theorem commits_expireHead {key : Key} (expire : ∀ mid lock unhold own, T (.expire key mid lock unhold own))
    (message : KeyedMessage) (lock : Option Token) :
    (q.expireHead key message lock).All (Commits T) := by
  unfold expireHead
  cases q.config.maxAgeMs with
  | none => trivial
  | some maxAge =>
    refine .bind (.one trivial) fun now => ?_
    split_ifs
    · trivial
    · cases lock with
      | some lock => exact q.commits_expireFenced expire ..
      | none =>
        refine .bind (.one trivial) fun own => ?_
        cases own with
        | none => trivial
        | some own =>
          exact .bind (q.commits_expireFenced expire ..) fun _ => .bind (commits_release ..) fun _ => trivial

theorem commits_leaseHead {key : Key} (leasing : Leasing T key) (lock : Token) (receipt : Option Receipt)
    (ignoreDue : Bool) (mid : MsgId) (message : KeyedMessage) (now : ℤ) :
    (leaseHead key lock receipt ignoreDue mid message now).All (Commits T) := by
  refine .bind (.one trivial) fun held => ?_
  split_ifs
  · trivial
  dsimp only
  split_ifs
  · exact .bind (.one trivial) fun _ => trivial
  · refine .bind (commits_verifyFence ..) fun r => ?_
    match r with
    | .error e =>
      dsimp only
      split_ifs <;> trivial
    | .ok (w, _) =>
      refine .bind (.one (leasing.lease ..)) fun done => ?_
      split_ifs <;> trivial

theorem commits_leaseLocked {key : Key} (leasing : Leasing T key) (lock : Token) (receipt : Option Receipt)
    (ignoreDue : Bool) (fuel : ℕ) : (q.leaseLocked key lock receipt ignoreDue fuel).All (Commits T) := by
  induction fuel with
  | zero => trivial
  | succ fuel ih =>
    refine .bind (.one trivial) fun head => ?_
    cases head with
    | none => exact .bind (commits_dropKeyIfEmpty leasing.drop 2) fun _ => trivial
    | some mid =>
      refine .bind (.one trivial) fun raw => ?_
      cases raw with
      | none => exact .bind (.one trivial) fun _ => .bind (.one trivial) fun _ => ih
      | some raw =>
        dsimp only
        split
        · trivial
        · refine .bind (.one trivial) fun now => .bind (q.commits_expireHead leasing.expire ..) fun r => ?_
          match r with
          | .ok true => exact ih
          | .ok false => exact commits_leaseHead leasing ..
          | .error e =>
            dsimp only
            split_ifs <;> trivial

theorem commits_leaseKeyDetailed {key : Key} (leasing : Leasing T key) (receipt : Option Receipt)
    (ignoreDue : Bool) (fuel : ℕ) : (q.leaseKeyDetailed key receipt ignoreDue fuel).All (Commits T) := by
  refine .bind (.one trivial) fun lock => ?_
  cases lock with
  | none => exact .bind (q.commits_ackSignal ..) fun _ => trivial
  | some lock =>
    refine .bind (q.commits_leaseLocked leasing ..) fun r => ?_
    match r with
    | .error e => exact .bind (commits_release ..) fun _ => trivial
    | .ok (some lease, reason) => trivial
    | .ok (none, reason) =>
      exact .bind (commits_release ..) fun _ => .bind (q.commits_ackSignal ..) fun _ => trivial

theorem commits_leaseTries (leasing : ∀ key, Leasing T key) (fuel tries : ℕ) :
    (q.leaseTries fuel tries).All (Commits T) := by
  induction tries with
  | zero => trivial
  | succ tries ih =>
    refine .bind (.one trivial) fun paused => ?_
    split_ifs
    · trivial
    refine .bind ((q.store.onPlane_receive ..).mono fun _ => OnPlane.commits) fun items => ?_
    cases items with
    | nil => trivial
    | cons item items =>
      refine .bind (.one trivial) fun paused => ?_
      split_ifs
      · exact .bind ((QueueStore.onPlane_changeVisibility ..).mono fun _ => OnPlane.commits) fun _ => trivial
      · split
        · exact .bind (q.commits_ackSignal ..) fun _ => ih
        · refine .bind ((q.onPlane_markSignal ..).mono fun _ => OnPlane.commits) fun _ =>
            .bind (q.commits_leaseKeyDetailed (leasing _) ..) fun r => ?_
          match r with
          | .error e => trivial
          | .ok (some lease, _) => trivial
          | .ok (none, _) => exact ih

theorem commits_settle (lease : KeyedLease) (drop : T (.dropKey lease.key)) (outcome : Outcome) :
    (q.settle lease outcome).All (Commits T) := by
  refine .bind (commits_release ..) fun _ => ?_
  cases outcome with
  | hold => exact .bind (q.commits_ackSignal ..) fun _ => trivial
  | ack | retry | wait =>
    refine .bind (q.commits_reconcile drop) fun r => ?_
    cases r with
    | error e => trivial
    | ok _ => exact .bind (q.commits_ackSignal ..) fun _ => trivial

theorem commits_apply (lease : KeyedLease) (drop : T (.dropKey lease.key)) {outcome : Outcome}
    (tx : ∀ current now, T (q.outcomeTx lease current now outcome)) :
    (q.apply lease outcome).All (Commits T) := by
  refine .bind (commits_verifyFence ..) fun r => ?_
  match r with
  | .error e => trivial
  | .ok (w, current) =>
    refine .bind (.one trivial) fun now => ?_
    have rest : (do
        if ← Script.keyed (.exec w (q.outcomeTx lease current now outcome)) then
          q.settle lease outcome
        else
          return .error (.leaseLost (.superseded lease.key)) : Script (Except Exc Unit)).All (Commits T) := by
      refine .bind (.one (tx ..)) fun done => ?_
      split_ifs
      · exact q.commits_settle lease drop outcome
      · trivial
    dsimp only
    split
    · exact rest
    · exact .bind (q.commits_handoffDlq ..) fun _ => rest

theorem commits_recoverOrphans (drop : ∀ key, T (.dropKey key)) (flags : List (Key × Bool)) (sent : ℕ) :
    (q.recoverOrphans flags sent).All (Commits T) := by
  induction flags generalizing sent with
  | nil => trivial
  | cons x flags ih =>
    obtain ⟨name, live⟩ := x
    cases live with
    | true => exact ih sent
    | false =>
      refine .bind (q.commits_reconcile (drop name)) fun r => ?_
      match r with
      | .error e => trivial
      | .ok true => exact ih _
      | .ok false => exact ih _

theorem commits_recoverChunks (drop : ∀ key, T (.dropKey key)) (chunks : List (List Key)) (sent : ℕ) :
    (q.recoverChunks chunks sent).All (Commits T) := by
  induction chunks generalizing sent with
  | nil => trivial
  | cons chunk chunks ih =>
    refine .bind (.one trivial) fun now => .bind ((silent_recoverFlags ..).mono fun _ => Silent.commits)
      fun flags => .bind (q.commits_recoverOrphans drop flags sent) fun r => ?_
    cases r with
    | error e => trivial
    | ok sent => exact ih sent

theorem commits_sweep (drop : ∀ key, T (.dropKey key)) (fuel : ℕ) : (q.sweep fuel).All (Commits T) :=
  .bind ((silent_scanKeys ..).mono fun _ => Silent.commits) fun _ => q.commits_recoverChunks drop ..

theorem commits_recover (drop : ∀ key, T (.dropKey key)) (force : Bool) (fuel : ℕ) :
    (q.recover force fuel).All (Commits T) := by
  refine .bind (.one trivial) fun paused => ?_
  split_ifs
  · trivial
  all_goals
    refine .bind (q.onPlane_hasBacklog.mono fun _ => OnPlane.commits) fun backlog => ?_
    split_ifs
  · trivial
  · exact q.commits_sweep drop fuel
  · trivial
  · refine .bind (.one trivial) fun set => ?_
    split_ifs
    · exact q.commits_sweep drop fuel
    · trivial

theorem commits_releaseHold (key : Key) : (q.releaseHold key).All (Commits T) := by
  refine .bind (.one trivial) fun n => ?_
  split_ifs
  · trivial
  · refine .bind (.one trivial) fun head => ?_
    cases head with
    | none => exact .bind (q.commits_signal key) fun _ => trivial
    | some mid =>
      refine .bind (.one trivial) fun present => ?_
      split_ifs
      · exact .bind (.one rfl) fun _ => .bind (q.commits_signal key) fun _ => trivial
      · exact .bind (q.commits_signal key) fun _ => trivial

end KeyedQueue

end NavigatorEventbus
