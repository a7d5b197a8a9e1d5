import NavigatorEventbus.Keyed.Shelter

/-!
# Silent programs

Most of what the operations of a keyed queue do needs no care: commands on the streams, readings,
and writes that change neither a message nor a lock.  A program of such commands (`Silent`) keeps
whatever its actor relies on.
-/

namespace NavigatorEventbus

open Interleave

/-- A command on the streams, or a reading of the clock. -/
def OnPlane : Cmd → Prop
  | .keyed _ => False
  | _ => True

/-- A command that commits nothing and changes no message. -/
def Silent : Cmd → Prop
  | .keyed (.exec _ _) => False
  | .keyed (.write (.hsetMsg _ _)) => False
  | .keyed (.write w) => w.Loose
  | _ => True

theorem OnPlane.silent {c : Cmd} (h : OnPlane c) : Silent c := by
  cases c with
  | keyed => cases h
  | now | stream => trivial

/-! ## The pull plane -/

namespace QueueStore

variable (store : QueueStore) (cfg : QueueConfig)

theorem onPlane_send (envelope : Envelope) : (store.send cfg envelope).All OnPlane :=
  .one trivial

theorem onPlane_ack (stream group : String) (id : EntryId) : (ack stream group id).All OnPlane :=
  .bind (.one trivial) fun _ => trivial

theorem onPlane_parkToDlq (group stream : String) (id : EntryId) (fields : Fields) (attempts : ℕ) :
    (store.parkToDlq cfg group stream id fields attempts).All OnPlane := by
  have rest : (do
      Script.stream (.warnParked stream group id attempts)
      ack stream group id : Script Unit).All OnPlane :=
    .bind (.one trivial) fun _ => onPlane_ack stream group id
  unfold parkToDlq
  dsimp only
  split_ifs
  · split
    · exact rest
    · exact .bind (.one trivial) fun _ => rest
  · exact rest

theorem onPlane_sortReclaimed (group stream : String) (seen : List (EntryId × ℕ))
    (l : List (EntryId × Fields)) : (store.sortReclaimed cfg group stream seen l).All OnPlane := by
  induction l with
  | nil => trivial
  | cons x l ih =>
    obtain ⟨id, fields⟩ := x
    unfold sortReclaimed
    split
    · exact .bind (store.onPlane_parkToDlq cfg ..) fun _ => ih
    · exact .bind ih fun _ => trivial

theorem onPlane_reclaim (group stream : String) (threshold : ℤ) (count : ℕ) :
    (store.reclaim cfg group stream threshold count).All OnPlane := by
  refine .bind (.one trivial) fun seen => ?_
  cases seen with
  | none => trivial
  | some seen =>
    refine .bind (.one trivial) fun entries => ?_
    cases entries with
    | none => trivial
    | some entries => exact store.onPlane_sortReclaimed cfg ..

theorem onPlane_deliver (group stream : String) (expiresAt : ℤ) (l : List Claimed) :
    (store.deliver cfg group stream expiresAt l).All OnPlane := by
  induction l with
  | nil => trivial
  | cons x l ih =>
    obtain ⟨id, fields, count⟩ := x
    unfold deliver
    split
    · exact .bind (onPlane_ack ..) fun _ => ih
    · exact .bind ih fun _ => trivial

theorem onPlane_applyVisibility (stream group : String) (ids : List EntryId) (threshold lease : ℤ) :
    (store.applyVisibility stream group ids threshold lease).All OnPlane := by
  unfold applyVisibility
  split_ifs
  · trivial
  · exact .bind (.one trivial) fun _ => trivial

theorem onPlane_receive (group : String) (n : ℕ) (visibility : Option ℤ) :
    (store.receive cfg group n visibility).All OnPlane := by
  refine .bind (.one trivial) fun _ => .bind (store.onPlane_reclaim cfg ..) fun reclaimed => ?_
  have rest : ∀ fresh : List Claimed, (if reclaimed ++ fresh = [] then pure [] else do
      store.applyVisibility (store.streamFor cfg.name) group ((reclaimed ++ fresh).map Prod.fst)
        cfg.maxVisibilityTimeoutMs (visibility.getD cfg.defaultVisibilityTimeoutMs)
      let now ← Script.now
      store.deliver cfg group (store.streamFor cfg.name)
        (now + visibility.getD cfg.defaultVisibilityTimeoutMs) (reclaimed ++ fresh) :
      Script (List DeliveredMessage)).All OnPlane := by
    intro fresh
    split_ifs
    · trivial
    · exact .bind (store.onPlane_applyVisibility ..) fun _ =>
        .bind (.one trivial) fun _ => store.onPlane_deliver cfg ..
  dsimp only
  split_ifs
  · exact .bind (.bind (.one trivial) fun _ => trivial) rest
  · exact rest []

theorem onPlane_leaseSuperseded (receipt : Receipt) : (leaseSuperseded receipt).All OnPlane := by
  refine .bind (.one trivial) fun pending => ?_
  cases pending <;> trivial

theorem onPlane_removeEntry (receipt : Receipt) : (removeEntry cfg receipt).All OnPlane := by
  refine .bind (onPlane_ack ..) fun _ => ?_
  split_ifs
  · exact .bind (.one trivial) fun _ => trivial
  · trivial

theorem onPlane_delete (receipt : Receipt) : (delete cfg receipt).All OnPlane := by
  have rest : ∀ stale : Bool, (if stale then return .error (.staleReceipt receipt.messageId) else do
      removeEntry cfg receipt
      return .ok () : Script (Except Exc Unit)).All OnPlane := by
    intro stale
    split_ifs
    · trivial
    · exact .bind (onPlane_removeEntry ..) fun _ => trivial
  unfold delete
  dsimp only
  split_ifs
  · exact .bind (onPlane_leaseSuperseded receipt) rest
  · exact rest false

theorem onPlane_changeVisibility (receipt : Receipt) (ms : ℤ) :
    (changeVisibility cfg receipt ms).All OnPlane :=
  .one trivial

end QueueStore

/-! ## The keyed queue -/

namespace KeyedQueue

variable (q : KeyedQueue)

theorem onPlane_markSignal (key : Key) (entry : EntryId) : (q.markSignal key entry).All OnPlane :=
  .bind (.one trivial) fun _ => .bind (.one trivial) fun _ => .one trivial

theorem onPlane_signal (key : Key) : (q.signal key).All OnPlane :=
  .bind (q.store.onPlane_send ..) fun _ => q.onPlane_markSignal key _

theorem onPlane_ackSignal (receipt : Option Receipt) (key : Option Key) :
    (q.ackSignal receipt key).All OnPlane := by
  cases receipt with
  | none => trivial
  | some receipt =>
    refine .bind (QueueStore.onPlane_delete ..) fun _ => ?_
    cases key with
    | none => trivial
    | some key => exact .one trivial

theorem onPlane_extendSignal (key : Key) (ms : ℤ) (receipt : Receipt) :
    (q.extendSignal key ms receipt).All OnPlane := by
  refine .bind (QueueStore.onPlane_changeVisibility ..) fun r => ?_
  cases r with
  | none => trivial
  | some r =>
    refine .bind (.one trivial) fun pending => ?_
    cases pending with
    | none => trivial
    | some pending =>
      dsimp only
      split_ifs
      · trivial
      · exact q.onPlane_markSignal ..

theorem onPlane_hasBacklog : q.hasBacklog.All OnPlane := by
  refine .bind (.one trivial) fun info => ?_
  match info with
  | none => trivial
  | some none => exact .one trivial
  | some (some (last, lag)) =>
    dsimp only
    split_ifs
    · trivial
    · exact .one trivial

theorem onPlane_pause (ttlMs : Option ℤ) (reason : String) : (q.pause ttlMs reason).All OnPlane :=
  .one trivial

theorem silent_release (key : Key) (lock : Token) : (release key lock).All Silent :=
  .bind (.one trivial) fun _ => trivial

theorem silent_handoffDlq (message : KeyedMessage) (error : String) :
    (q.handoffDlq message error).All Silent := by
  unfold handoffDlq
  split_ifs <;> exact .one trivial

theorem silent_reconcileHead (key : Key) (mid : MsgId) (raw : MsgHash) :
    (q.reconcileHead key mid raw).All Silent := by
  unfold reconcileHead
  split
  · trivial
  · refine .bind (.one trivial) fun now => ?_
    dsimp only
    split_ifs
    · exact .bind (.one trivial) fun _ => trivial
    · exact .bind (.one trivial) fun _ =>
        .bind ((q.onPlane_signal key).mono fun _ => OnPlane.silent) fun _ => trivial

theorem silent_extend (lease : KeyedLease) (additionalMs : Option ℤ) :
    (q.extend lease additionalMs).All Silent := by
  unfold extend
  dsimp only
  split_ifs
  · trivial
  · refine .bind (.one trivial) fun extended => ?_
    split_ifs
    · cases lease.receipt with
      | none => trivial
      | some receipt =>
        exact .bind ((q.onPlane_extendSignal ..).mono fun _ => OnPlane.silent) fun _ => trivial
    · trivial

theorem silent_promoteKeys (keys : List Key) : (q.promoteKeys keys).All Silent := by
  induction keys with
  | nil => trivial
  | cons key keys ih =>
    have signal : (q.signal key).All Silent := (q.onPlane_signal key).mono fun _ => OnPlane.silent
    unfold promoteKeys
    refine .bind (.one trivial) fun n => ?_
    split_ifs
    · exact signal.bind fun _ => ih.bind fun _ => trivial
    · exact ih

theorem silent_promoteDue (limit : Option ℕ) : (q.promoteDue limit).All Silent :=
  .bind (.one trivial) fun _ => .bind (.one trivial) fun due => q.silent_promoteKeys due

theorem silent_scanKeys (fuel cursor : ℕ) (found : List Key) :
    (scanKeys fuel cursor found).All Silent := by
  induction fuel generalizing cursor found with
  | zero => trivial
  | succ fuel ih =>
    unfold scanKeys
    refine .bind (.one trivial) fun page => ?_
    obtain ⟨cursor', members⟩ := page
    dsimp only
    split_ifs
    · trivial
    · exact ih ..

theorem silent_recoverFlags (now : ℤ) (names : List Key) : (recoverFlags now names).All Silent := by
  induction names with
  | nil => trivial
  | cons name names ih =>
    exact .bind (.one trivial) fun _ => .bind (.one trivial) fun _ => .bind (.one trivial) fun _ =>
      .bind ih fun _ => trivial

end KeyedQueue

end NavigatorEventbus
