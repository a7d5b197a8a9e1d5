import NavigatorEventbus.Keyed.Consumer
import NavigatorEventbus.Keyed.LostLease
import NavigatorEventbus.Lib.Endings

/-!
# What an iteration of a consumer comes to

An iteration commits few fenced transactions, and its result tells which (`run_once_settled`): the expiry of heads, one
lease, and one outcome of the leased message under its lock, namely the one that the handler made of it.  An
iteration that returns no outcome has committed none.
-/

namespace NavigatorEventbus

open Interleave

/-! ## Fenced transactions -/

/-- The fenced transaction that a command has committed. -/
def fencedTx (x : Issued server) : Option Tx :=
  match x.cmd with
  | .keyed (.exec w tx) => if x.before.keyed.unchanged w = true ∧ tx.fence.isSome then some tx else none
  | _ => none

/-- The fenced transactions that have been committed, in order. -/
def fencedTxs (t : List (Issued server)) : List Tx := t.filterMap fencedTx

/-- Heads that expired. -/
def Expiries (txs : List Tx) : Prop := ∀ tx ∈ txs, tx.expires.isSome

/-- The transaction of a lease. -/
def KeyedLease.Grant (lease : KeyedLease) (tx : Tx) : Prop :=
  tx.leases = some (lease.key, lease.message.messageId, lease.lock)

/-- The transactions of a lease attempt: some heads expired, and the head after them was leased, if any. -/
def LeaseSettled (lease : Option KeyedLease) (txs : List Tx) : Prop :=
  ∃ es, Expiries es ∧
    match lease with
    | some lease => ∃ tx, lease.Grant tx ∧ txs = es ++ [tx]
    | none => txs = es

/-- The transactions of an `apply`: its outcome was committed, and the lease was not lost, or nothing was, and the call
raised. -/
def OutcomeSettled (q : KeyedQueue) (lease : KeyedLease) (outcome : Outcome) (r : Except Exc Unit)
    (txs : List Tx) : Prop :=
  (∃ current now, txs = [q.outcomeTx lease current now outcome] ∧ ∀ why, r ≠ .error (.leaseLost why)) ∨
    txs = [] ∧ ∃ e, r = .error e

/-- What an iteration came to that issued `t`. -/
inductive IterationSettled (c : KeyedConsumer) (handler : KeyedMessage → Handling) (t : List (Issued server)) :
    Iteration → Prop where
  /-- Nothing was leased. -/
  | unleased {r : Iteration} (expired : Expiries (fencedTxs t)) (hr : r = .returned none ∨ ∃ e, r = .raised e) :
      IterationSettled c handler t r
  /-- A message was leased, and no outcome was committed for it. -/
  | lost {lease : KeyedLease} {r : Iteration} (leased : LeaseSettled (some lease) (fencedTxs t))
      (hr : r = .returned none ∨ ∃ e, r = .raised e) : IterationSettled c handler t r
  /-- The handler was cancelled, and the lock was released. -/
  | cancelled {lease : KeyedLease} (leased : LeaseSettled (some lease) (fencedTxs t))
      (handled : runHandler c.callTimeoutMs (handler lease.message).ending = none)
      (released : ∃ x ∈ t, x.cmd = .keyed (.release lease.key lease.lock)) :
      IterationSettled c handler t .cancelled
  /-- The outcome that the handler made of the message was committed. -/
  | applied {lease : KeyedLease} {txs : List Tx} {current : KeyedMessage} {now : ℤ} {outcome : Outcome} {r : Iteration}
      (leased : LeaseSettled (some lease) txs)
      (handled : runHandler c.callTimeoutMs (handler lease.message).ending = some outcome)
      (committed : fencedTxs t = txs ++ [c.queue.outcomeTx lease current now outcome])
      (hr : r = .returned (some outcome) ∨ ∃ e, r = .raised e) : IterationSettled c handler t r

section Fenced

variable {p : ℕ} {α β : Type} {t t' : List (Issued server)} {es txs : List Tx} {T : Tx → Prop}

theorem Tx.fence_of_applies {tx : Tx} {key : Key} {mid : MsgId} {lock : Token}
    (h : tx.applies = some (key, mid, lock)) : tx.fence = some (key, mid, lock) := by
  cases tx <;> first | exact h | cases h

theorem fencedTxs_append (t t' : List (Issued server)) : fencedTxs (t ++ t') = fencedTxs t ++ fencedTxs t' :=
  List.filterMap_append

/-- A command that commits nothing. -/
theorem fencedTxs_cons {x : Issued server} (h : fencedTx x = none) : fencedTxs (x :: t) = fencedTxs t :=
  List.filterMap_cons_none h

theorem commits_fencedTxs (h : ∀ x ∈ t, Commits T x.cmd) : ∀ tx ∈ fencedTxs t, T tx := by
  intro tx mem
  obtain ⟨x, hx, fenced⟩ := List.mem_filterMap.1 mem
  have allowed := h x hx
  unfold fencedTx at fenced
  split at fenced
  · rename_i w tx' hc
    split_ifs at fenced
    cases fenced
    rwa [hc] at allowed
  · cases fenced

theorem fencedTxs_plain (h : ∀ x ∈ t, Commits (fun tx => tx.fence = none) x.cmd) : fencedTxs t = [] := by
  refine List.filterMap_eq_nil_iff.2 fun x hx => ?_
  have allowed := h x hx
  unfold fencedTx
  split
  · rename_i w tx hc
    rw [hc] at allowed
    refine if_neg fun fenced => ?_
    have fence := fenced.2
    rw [show tx.fence = none from allowed] at fence
    cases fence
  · rfl

/-- A first part that commits nothing under a fence. -/
theorem ends_after {x : Script α} {f : α → Script β} {R : β → List Tx → Prop}
    (hx : x.All (Commits fun tx => tx.fence = none))
    (hf : ∀ a, (f a).Ends server p fun b t => R b (fencedTxs t)) :
    (x >>= f).Ends server p fun b t => R b (fencedTxs t) := by
  refine (Prog.Ends.of_all hx).bind fun a t plain => (hf a).mono fun b t' h => ?_
  rwa [fencedTxs_append, fencedTxs_plain plain]

/-- A last part that commits nothing under a fence. -/
theorem ends_before {x : Script α} {f : α → Script β} {R : α → List Tx → Prop} {Q : β → List Tx → Prop}
    (hx : x.Ends server p fun a t => R a (fencedTxs t)) (hf : ∀ a, (f a).All (Commits fun tx => tx.fence = none))
    (hQ : ∀ a, (f a).Yields fun b => ∀ txs, R a txs → Q b txs) :
    (x >>= f).Ends server p fun b t => Q b (fencedTxs t) := by
  refine hx.bind fun a t h => ((Prog.Ends.of_all (hf a)).and (.of_yields (hQ a))).mono fun b t' h' => ?_
  rw [fencedTxs_append, fencedTxs_plain h'.1, List.append_nil]
  exact h'.2 _ h

/-- A fenced transaction with what follows it. -/
theorem ends_exec {w : Watch} {tx : Tx} {f : Bool → Script β} {R : β → List Tx → Prop} (fence : tx.fence.isSome)
    (done : (f true).Ends server p fun b t => R b (tx :: fencedTxs t))
    (failed : (f false).Ends server p fun b t => R b (fencedTxs t)) :
    (Script.keyed (.exec w tx) >>= f).Ends server p fun b t => R b (fencedTxs t) := by
  refine .cmd_bind fun i σ => ?_
  cases hw : σ.keyed.unchanged w with
  | true =>
    have reply : (server.exec p (.keyed (.exec w tx)) i σ).1 = true := exec_committed hw
    rw [reply]
    refine done.mono fun b t h => ?_
    have first : fencedTx ⟨.keyed (.exec w tx), i, σ⟩ = some tx := if_pos ⟨hw, fence⟩
    rwa [fencedTxs, List.filterMap_cons_some first]
  | false =>
    have reply : (server.exec p (.keyed (.exec w tx)) i σ).1 = false := congrArg Prod.fst (exec_failed hw)
    rw [reply]
    refine failed.mono fun b t h => ?_
    have first : fencedTx ⟨.keyed (.exec w tx), i, σ⟩ = none := if_neg fun both => absurd both.1 (by rw [hw]; decide)
    rwa [fencedTxs_cons first]

theorem LeaseSettled.nil : LeaseSettled none [] := ⟨[], fun _ h => absurd h List.not_mem_nil, rfl⟩

theorem LeaseSettled.expired (h : Expiries es) : LeaseSettled none es := ⟨es, h, rfl⟩

theorem LeaseSettled.grant {lease : KeyedLease} {tx : Tx} (h : lease.Grant tx) : LeaseSettled (some lease) [tx] :=
  ⟨[], fun _ h => absurd h List.not_mem_nil, tx, h, rfl⟩

theorem LeaseSettled.behind {lease : Option KeyedLease} (h : LeaseSettled lease txs) (expired : Expiries es) :
    LeaseSettled lease (es ++ txs) := by
  obtain ⟨es', expired', rest⟩ := h
  have both : Expiries (es ++ es') := fun tx mem => (List.mem_append.1 mem).elim (expired tx) (expired' tx)
  refine ⟨es ++ es', both, ?_⟩
  cases lease with
  | none => exact congrArg (es ++ ·) rest
  | some lease =>
    obtain ⟨tx, grant, rfl⟩ := rest
    exact ⟨tx, grant, (List.append_assoc _ _ _).symm⟩

theorem IterationSettled.behind {c : KeyedConsumer} {handler : KeyedMessage → Handling} {r : Iteration}
    (h : IterationSettled c handler t' r) (quiet : fencedTxs t = []) : IterationSettled c handler (t ++ t') r := by
  have same : fencedTxs (t ++ t') = fencedTxs t' := by rw [fencedTxs_append, quiet, List.nil_append]
  cases h with
  | unleased expired hr => exact .unleased (same ▸ expired) hr
  | lost leased hr => exact .lost (same ▸ leased) hr
  | cancelled leased handled released =>
    obtain ⟨x, hx, release⟩ := released
    exact .cancelled (same ▸ leased) handled ⟨x, List.mem_append_right t hx, release⟩
  | applied leased handled committed hr => exact .applied leased handled (same.trans committed) hr

end Fenced

/-! ## A lease attempt -/

/-- The lease that an attempt returns. -/
def grantedLease {α : Type} : Except Exc (Option KeyedLease × α) → Option KeyedLease
  | .ok (lease, _) => lease
  | .error _ => none

namespace KeyedQueue

variable (q : KeyedQueue) {p : ℕ}

theorem ends_leaseHead (key : Key) (lock : Token) (receipt : Option Receipt) (ignoreDue : Bool) (mid : MsgId)
    (message : KeyedMessage) (now : ℤ) (named : message.messageId = mid) :
    (leaseHead key lock receipt ignoreDue mid message now).Ends server p fun r t =>
      LeaseSettled (grantedLease r) (fencedTxs t) := by
  refine ends_after (.one trivial) fun held => ?_
  dsimp only
  split_ifs
  · exact .pure .nil
  · exact ends_after (.one trivial) fun _ => .pure .nil
  · refine ends_after (commits_verifyFence ..) fun fence => ?_
    cases fence with
    | error e =>
      dsimp only
      split_ifs <;> exact .pure .nil
    | ok fence =>
      refine ends_exec (R := fun r txs => LeaseSettled (grantedLease r) txs) rfl ?_ (.pure .nil)
      refine .pure (.grant ?_)
      rw [← named]
      rfl

theorem ends_expireHead (key : Key) (message : KeyedMessage) (lock : Option Token) :
    (q.expireHead key message lock).Ends server p fun _ t => Expiries (fencedTxs t) :=
  (Prog.Ends.of_all (q.commits_expireHead (T := fun tx => tx.expires.isSome) (fun _ _ _ _ => rfl) message lock)).mono
    fun _ _ h => commits_fencedTxs h

theorem ends_leaseLocked (key : Key) (lock : Token) (receipt : Option Receipt) (ignoreDue : Bool) (fuel : ℕ) :
    (q.leaseLocked key lock receipt ignoreDue fuel).Ends server p fun r t =>
      LeaseSettled (grantedLease r) (fencedTxs t) := by
  induction fuel with
  | zero => trivial
  | succ fuel ih =>
    refine ends_after (.one trivial) fun head => ?_
    cases head with
    | none => exact ends_after (commits_dropKeyIfEmpty (T := fun tx => tx.fence = none) rfl 2) fun _ => .pure .nil
    | some mid =>
      refine ends_after (.one trivial) fun raw => ?_
      cases raw with
      | none => exact ends_after (.one trivial) fun _ => ends_after (.one trivial) fun _ => ih
      | some raw =>
        dsimp only
        cases hm : toMessage raw mid with
        | error e => exact .pure .nil
        | ok message =>
          refine ends_after (.one trivial) fun now => (q.ends_expireHead key message (some lock)).bind ?_
          intro expired t es
          have stop : ∀ {reason : LeaseReason}, LeaseSettled (grantedLease (.ok (none, reason)))
              (fencedTxs (t ++ [])) := by
            rw [List.append_nil]
            exact .expired es
          cases expired with
          | error e =>
            dsimp only
            split_ifs
            · exact .pure stop
            · refine .pure ?_
              rw [List.append_nil]
              exact .expired es
          | ok expired =>
            cases expired with
            | true =>
              refine ih.mono fun r t' h => ?_
              rw [fencedTxs_append]
              exact h.behind es
            | false =>
              refine (ends_leaseHead key lock receipt ignoreDue mid message now (toMessage_messageId hm)).mono fun r t' h => ?_
              rw [fencedTxs_append]
              exact h.behind es

theorem ends_leaseKeyDetailed (key : Key) (receipt : Option Receipt) (ignoreDue : Bool) (fuel : ℕ) :
    (q.leaseKeyDetailed key receipt ignoreDue fuel).Ends server p fun r t =>
      LeaseSettled (grantedLease r) (fencedTxs t) := by
  refine ends_after (.one trivial) fun lock => ?_
  cases lock with
  | none => exact ends_after (q.commits_ackSignal receipt (some key)) fun _ => .pure .nil
  | some lock =>
    refine ends_before (q.ends_leaseLocked key lock receipt ignoreDue fuel) (fun r => ?_) fun r => ?_
    · rcases r with e | ⟨_ | lease, reason⟩
      · exact .bind (commits_release key lock) fun _ => trivial
      · exact .bind (commits_release key lock) fun _ => .bind (q.commits_ackSignal receipt (some key)) fun _ => trivial
      · trivial
    · rcases r with e | ⟨_ | lease, reason⟩
      · exact .then fun _ => fun _ h => h
      · exact .then fun _ => .then fun _ => fun _ h => h
      · exact fun _ h => h

theorem ends_leaseTries (fuel tries : ℕ) :
    (q.leaseTries fuel tries).Ends server p fun r t => LeaseSettled (r.toOption.join) (fencedTxs t) := by
  induction tries with
  | zero => exact .pure .nil
  | succ tries ih =>
    refine ends_after (.one trivial) fun paused => ?_
    split_ifs
    · exact .pure .nil
    · refine ends_after ((q.store.onPlane_receive ..).mono fun _ => OnPlane.commits) fun items => ?_
      cases items with
      | nil => exact .pure .nil
      | cons item items =>
        refine ends_after (.one trivial) fun paused => ?_
        split_ifs
        · refine ends_after ?_ fun _ => .pure .nil
          exact (QueueStore.onPlane_changeVisibility ..).mono fun _ => OnPlane.commits
        · cases signalKey item.envelope with
          | none => exact ends_after (q.commits_ackSignal ..) fun _ => ih
          | some key =>
            refine ends_after ((q.onPlane_markSignal ..).mono fun _ => OnPlane.commits) fun _ => ?_
            refine (q.ends_leaseKeyDetailed key (some item.receipt) false fuel).bind fun r t settled => ?_
            rcases r with e | ⟨_ | lease, reason⟩
            · refine .pure ?_
              rwa [List.append_nil]
            · refine ih.mono fun r t' h => ?_
              obtain ⟨es, expired, same⟩ := settled
              rw [fencedTxs_append, same]
              exact h.behind expired
            · refine .pure ?_
              rwa [List.append_nil]

theorem ends_apply (lease : KeyedLease) (outcome : Outcome) :
    (q.apply lease outcome).Ends server p fun r t => OutcomeSettled q lease outcome r (fencedTxs t) := by
  refine ends_after (commits_verifyFence ..) fun fence => ?_
  cases fence with
  | error e => exact .pure (.inr ⟨rfl, e, rfl⟩)
  | ok fence =>
    obtain ⟨w, current⟩ := fence
    refine ends_after (.one trivial) fun now => ?_
    have rest : (do
        if ← Script.keyed (.exec w (q.outcomeTx lease current now outcome)) then
          q.settle lease outcome
        else
          return .error (.leaseLost (.superseded lease.key)) : Script (Except Exc Unit)).Ends server p
        fun r t => OutcomeSettled q lease outcome r (fencedTxs t) := by
      have fence : (q.outcomeTx lease current now outcome).fence.isSome := by
        rw [Tx.fence_of_applies (outcomeTx_applies q lease current now outcome)]
        rfl
      refine ends_exec fence ?_ (.pure (.inr ⟨rfl, _, rfl⟩))
      have plain := Prog.Ends.of_all (M := server) (p := p)
        (q.commits_settle lease (T := fun tx => tx.fence = none) rfl outcome)
      refine (plain.and (.of_yields (settle_yields q lease outcome))).mono fun r t h => ?_
      rw [fencedTxs_plain h.1]
      exact .inl ⟨current, now, rfl, h.2⟩
    dsimp only
    split
    · exact rest
    · exact ends_after (q.commits_handoffDlq ..) fun _ => rest

end KeyedQueue

/-! ## An iteration -/

namespace KeyedConsumer

variable (c : KeyedConsumer) (handler : KeyedMessage → Handling) {p : ℕ}

/-- The keeper commits nothing under a fence. -/
theorem commits_keepExtended (lease : KeyedLease) (ticks : List (Option ℕ)) :
    (c.keepExtended lease ticks).code.All (Commits fun tx => tx.fence = none) := by
  induction ticks with
  | nil => trivial
  | cons tick ticks ih =>
    have extended : (KeyedCall.code ⟨c.queue, .extend lease none tick⟩).All (Commits fun tx => tx.fence = none) := by
      have whole : (do return .extended (← c.queue.extend lease none) : Script KeyedResult).All
          (Commits fun tx => tx.fence = none) :=
        .bind ((c.queue.silent_extend lease none).mono fun _ => Silent.commits) fun _ => trivial
      cases tick with
      | none => exact whole
      | some n => exact whole.cutoff ..
    refine Plan.all_call_bind extended fun r => ?_
    split
    · trivial
    · exact ih

theorem ends_conclude (lease : KeyedLease) (outcome : Outcome) {txs : List Tx} (leased : LeaseSettled (some lease) txs)
    (handled : runHandler c.callTimeoutMs (handler lease.message).ending = some outcome) :
    (c.conclude lease outcome).code.Ends server p fun r t' => ∀ t, fencedTxs t = txs →
      IterationSettled c handler (t ++ t') r := by
  have applied : (KeyedCall.code ⟨c.queue, .apply lease outcome⟩).Ends server p fun r t' => ∃ r', r = .applied r' ∧
      OutcomeSettled c.queue lease outcome r' (fencedTxs t') :=
    .map ((c.queue.ends_apply lease outcome).mono fun r' t' h => ⟨r', rfl, h⟩)
  refine Plan.ends_call_bind applied ?_
  rintro _ t' ⟨r, rfl, settled⟩
  -- the outcome was committed, or it was not
  have committed : ∀ {r' : Iteration}, (r' = .returned (some outcome) ∨ ∃ e, r' = .raised e) →
      (∃ current now, fencedTxs t' = [c.queue.outcomeTx lease current now outcome]) →
      ∀ t, fencedTxs t = txs → IterationSettled c handler (t ++ (t' ++ [])) r' := by
    rintro r' hr ⟨current, now, one⟩ t ht
    have whole : fencedTxs (t ++ (t' ++ [])) = txs ++ [c.queue.outcomeTx lease current now outcome] := by
      rw [List.append_nil, fencedTxs_append, ht, one]
    exact .applied leased handled whole hr
  have uncommitted : ∀ {r' : Iteration}, (r' = .returned none ∨ ∃ e, r' = .raised e) → fencedTxs t' = [] →
      ∀ t, fencedTxs t = txs → IterationSettled c handler (t ++ (t' ++ [])) r' := by
    intro r' hr none t ht
    have whole : fencedTxs (t ++ (t' ++ [])) = txs := by
      rw [List.append_nil, fencedTxs_append, ht, none, List.append_nil]
    exact .lost (whole ▸ leased) hr
  cases r with
  | ok done =>
    rcases settled with ⟨current, now, one, -⟩ | ⟨-, e, he⟩
    · exact .pure (committed (.inl rfl) ⟨current, now, one⟩)
    · cases he
  | error e =>
    dsimp only
    split_ifs with lost
    · rcases settled with ⟨-, -, -, kept⟩ | ⟨none, -⟩
      · cases e with
        | leaseLost why => exact absurd rfl (kept why)
        | _ => cases lost
      · exact .pure (uncommitted (.inl rfl) none)
    · rcases settled with ⟨current, now, one, -⟩ | ⟨none, -⟩
      · exact .pure (committed (.inr ⟨e, rfl⟩) ⟨current, now, one⟩)
      · exact .pure (uncommitted (.inr ⟨e, rfl⟩) none)

theorem ends_handle (handling : Handling) (lease : KeyedLease) :
    (c.handle handling lease).code.Ends server p fun r t =>
      r = runHandler c.callTimeoutMs handling.ending ∧ fencedTxs t = [] := by
  unfold handle
  rw [Plan.code_bind]
  exact (Prog.Ends.of_all (c.commits_keepExtended lease handling.ticks)).bind fun _ t plain =>
    .pure ⟨rfl, by rw [List.append_nil, fencedTxs_plain plain]⟩

/-- What an iteration does with a lease. -/
theorem ends_serve (lease : KeyedLease) {txs : List Tx} (leased : LeaseSettled (some lease) txs) :
    (c.serve handler lease).code.Ends server p fun r t' => ∀ t, fencedTxs t = txs →
      IterationSettled c handler (t ++ t') r := by
  unfold serve
  rw [Plan.code_bind]
  refine (c.ends_handle (handler lease.message) lease).bind fun ended t' handled => ?_
  obtain ⟨rfl, quiet⟩ := handled
  cases ended : runHandler c.callTimeoutMs (handler lease.message).ending with
  | none =>
    have released : (KeyedCall.code ⟨c.queue, .abandon lease⟩).Ends server p fun _ t =>
        fencedTxs t = [] ∧ ∃ x ∈ t, x.cmd = .keyed (.release lease.key lease.lock) :=
      .cmd_bind fun i σ => .pure ⟨rfl, _, List.mem_cons_self, rfl⟩
    refine Plan.ends_call_bind released fun _ t'' h => .pure fun t ht => ?_
    obtain ⟨quiet', x, hx, release⟩ := h
    have whole : fencedTxs (t ++ (t' ++ (t'' ++ []))) = txs := by
      rw [List.append_nil, fencedTxs_append, fencedTxs_append, ht, quiet, quiet', List.append_nil, List.append_nil]
    exact .cancelled (whole ▸ leased) ended ⟨x, by simp [hx], release⟩
  | some outcome =>
    refine (c.ends_conclude handler lease outcome leased ended).mono fun r t'' h t ht => ?_
    rw [← List.append_assoc]
    refine h (t ++ t') ?_
    rw [fencedTxs_append, ht, quiet, List.append_nil]

/-- The last part of an iteration: lease, handle, apply. -/
theorem ends_leased (fuel : ℕ) {f : KeyedResult → Plan actors Iteration}
    (hf : ∀ r, f r = match r with
      | .leased (.error e) => pure (.raised e)
      | .leased (.ok (some lease)) => c.serve handler lease
      | _ => pure (.returned none)) :
    (c.call (.lease fuel) >>= f).code.Ends server p fun r t => IterationSettled c handler t r := by
  have leased : (KeyedCall.code ⟨c.queue, .lease fuel⟩).Ends server p fun r t => ∃ r', r = .leased r' ∧
      LeaseSettled (r'.toOption.join) (fencedTxs t) :=
    .map ((c.queue.ends_leaseTries fuel maxSignalsPerLease).mono fun r t h => ⟨r, rfl, h⟩)
  refine Plan.ends_call_bind leased ?_
  rintro _ t ⟨r, rfl, settled⟩
  rw [hf]
  have idle : ∀ {r' : Iteration}, (r' = .returned none ∨ ∃ e, r' = .raised e) → LeaseSettled none (fencedTxs t) →
      IterationSettled c handler (t ++ []) r' := by
    rintro r' hr ⟨es, expired, same⟩
    rw [List.append_nil]
    exact .unleased (same ▸ expired) hr
  rcases r with e | _ | lease
  · exact .pure (idle (.inr ⟨e, rfl⟩) settled)
  · exact .pure (idle (.inl rfl) settled)
  · exact (c.ends_serve handler lease settled).mono fun r t' h => h t rfl

theorem ends_runOnce (fuel : ℕ) :
    (c.runOnce handler fuel).code.Ends server p fun r t => IterationSettled c handler t r := by
  refine Plan.ends_look_bind fun i σ => ?_
  split_ifs
  · exact .pure (.unleased (fun _ h => absurd h List.not_mem_nil) (.inl rfl))
  have recovered : (KeyedCall.code ⟨c.queue, .recover false fuel⟩).All (Commits fun tx => tx.fence = none) :=
    .bind (c.queue.commits_recover (fun _ => rfl) false fuel) fun _ => trivial
  have promoted : (KeyedCall.code ⟨c.queue, .promoteDue none⟩).All (Commits fun tx => tx.fence = none) :=
    .bind ((c.queue.silent_promoteDue none).mono fun _ => Silent.commits) fun _ => trivial
  refine Plan.ends_call_bind (.of_all recovered) fun r t plain => ?_
  have quiet : fencedTxs (⟨.stream .getPaused, i, σ⟩ :: t) = [] :=
    (fencedTxs_cons rfl).trans (fencedTxs_plain plain)
  have rest : (do
      let _ ← c.call (.promoteDue none)
      match ← c.call (.lease fuel) with
      | .leased (.error e) => return .raised e
      | .leased (.ok (some lease)) => c.serve handler lease
      | _ => return .returned none : Plan actors Iteration).code.Ends server p fun r t' =>
        IterationSettled c handler (⟨.stream .getPaused, i, σ⟩ :: (t ++ t')) r := by
    refine Plan.ends_call_bind (.of_all promoted) fun _ t' plain' => ?_
    refine (c.ends_leased handler fuel fun _ => rfl).mono fun r t'' h => ?_
    exact (h.behind (fencedTxs_plain plain')).behind quiet
  split
  · refine .pure (.unleased ?_ (.inr ⟨_, rfl⟩))
    rw [List.append_nil, quiet]
    exact fun _ h => absurd h List.not_mem_nil
  · exact rest

end KeyedConsumer

/-- In every run of consumers and others, what a `run_once` that has ended committed under a fence is the expiry of heads,
at most one lease, and at most one outcome: the one that the handler made of the leased message, under its lock.  It
returns an outcome only if it has committed it, and `None` only if it has committed none; when the handler is
cancelled, the lock is released and nothing is committed. -/
theorem run_once_settled {others : KeyedCall → Bool} {A : ConsumerPool others → Act (consumers others) → Prop}
    {P : ConsumerPool others} {g : ℕ → List (Issued server)}
    (hr : Pool.Recorded A Pool.issued (ConsumerPool.start others) (fun _ => []) P g) {p : ℕ} {c : KeyedConsumer}
    {handler : KeyedMessage → Handling} {fuel : ℕ} {r : ConsumerResult}
    (hp : P.actors p = .calling (.runOnce c handler fuel) (.pure r)) :
    ∃ r', r = .iteration r' ∧ IterationSettled c handler (g p) r' := by
  obtain ⟨σ, trace⟩ := hr.trace (fun p => ⟨_, rfl⟩) hp
  have ends : (ConsumerCall.plan (.runOnce c handler fuel)).code.Ends server p fun r t =>
      ∃ r', r = .iteration r' ∧ IterationSettled c handler t r' := by
    unfold ConsumerCall.plan
    rw [Plan.code_bind]
    exact .map ((c.ends_runOnce handler fuel).mono fun r' t h => ⟨r', rfl, h⟩)
  exact ends.trace trace

open Scenario in
theorem run_once_settled_witness : ∃ (c : KeyedConsumer) (handler : KeyedMessage → Handling) (t : List (Issued server)),
    IterationSettled c handler t (.returned (some .ack)) := by
  have run : ∃ Pg ∈ (ConsumerPool.start fun _ => true).recordSolo 0 (fun _ _ => true) Pool.issued (fun _ => [])
      consumed, acked (Pg.1.actors 0) = true := by decide +kernel
  obtain ⟨⟨P, g⟩, hrun, result⟩ := run
  have recorded : Pool.Recorded (fun _ _ => True) Pool.issued (ConsumerPool.start fun _ => true) (fun _ => []) P g :=
    .of_solo (fun _ _ _ _ => trivial) (fun _ _ => ⟨_, rfl⟩) hrun
  obtain ⟨c, handler, fuel, ended⟩ := acked_eq_true result
  obtain ⟨r, hr, settled⟩ := run_once_settled recorded ended
  cases hr
  exact ⟨c, handler, g 0, settled⟩

end NavigatorEventbus
