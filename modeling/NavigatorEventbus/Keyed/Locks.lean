import NavigatorEventbus.Keyed.Snapshots

/-!
# Locks and holds

A key comes to be held only under its lock, so whoever has the lock and has found the key not held may lease from
it: where its transaction commits, the key is still not held (`TxLocked`).  The contract `locks` asks nothing else of
the actors, and nothing of what is stored.
-/

namespace NavigatorEventbus

open Interleave

/-- The tokens that lock a key have been handed out. -/
def Keyspace.Issued (κ : Keyspace) : Prop := ∀ k τ, κ.Holds k τ → τ.serial < κ.serial

/-- The lease of the phase is under a token of actor `p`. -/
def KeyedPhase.OwnedBy (p : ℕ) : KeyedPhase → Prop
  | .idle => True
  | .holding lease => lease.lock.owner = p

/-- What a lease and a hold find where they commit. -/
def TxLocked (p : ℕ) (κ : Keyspace) : Tx → Prop
  | .lease key _ _ _ _ _ => κ.held key = none
  | .hold key _ lock _ _ => lock.owner = p ∧ κ.Holds key lock
  | _ => True

/-- What every command respects. -/
def LockGuard (p : ℕ) (c : Cmd) (σ : Server) : Prop :=
  match c with
  | .keyed (.exec w tx) => σ.keyed.unchanged w = true → TxLocked p σ.keyed tx
  | .keyed (.write w) => w.Loose
  | _ => True

/-- A transaction that neither leases nor holds. -/
def Tx.Plain : Tx → Prop
  | .lease _ _ _ _ _ _ => False
  | .hold _ _ _ _ _ => False
  | _ => True

theorem Tx.Plain.locked {tx : Tx} (h : tx.Plain) (p : ℕ) (κ : Keyspace) : TxLocked p κ tx := by
  cases tx with
  | lease | hold => exact h.elim
  | _ => trivial

/-- The command does not hold a key. -/
def Cmd.HoldsNothing : Cmd → Prop
  | .keyed (.exec _ (.hold _ _ _ _ _)) => False
  | _ => True

/-- What the others leave of a state: what a token of `p` locks was locked with it before, and is not held if it
was not. -/
structure Apart (p : ℕ) (κ κ' : Keyspace) : Prop where
  serial : κ.serial ≤ κ'.serial
  versioned : κ.Versioned κ'
  holds : ∀ {k τ}, τ.serial < κ.serial → κ'.Holds k τ → κ.Holds k τ
  held : ∀ {k τ}, τ.owner = p → τ.serial < κ.serial → κ'.Holds k τ → κ.held k = none → κ'.held k = none

section Apart

variable {p q : ℕ} {κ κ' κ'' : Keyspace} {σ : Server} {c : Cmd} {i : Input}

theorem Apart.refl (p : ℕ) (κ : Keyspace) : Apart p κ κ := ⟨Nat.le_refl _, .refl κ, fun _ => id, fun _ _ _ => id⟩

theorem Apart.trans (first : Apart p κ κ') (second : Apart p κ' κ'') : Apart p κ κ'' where
  serial := first.serial.trans second.serial
  versioned := first.versioned.trans second.versioned
  holds hτ h := first.holds hτ (second.holds (hτ.trans_le first.serial) h)
  held owner hτ h free := by
    have hτ' := hτ.trans_le first.serial
    exact second.held owner hτ' h (first.held owner hτ (second.holds hτ' h) free)

theorem serial_le_exec (κ : Keyspace) (p : ℕ) (t : ℤ) (i : Input) (c : KeyedCmd) :
    κ.serial ≤ (κ.exec p t i c).2.serial := by
  rw [Keyspace.serial_exec]
  cases c with
  | acquire =>
    dsimp only
    split_ifs <;> omega
  | _ => exact Nat.le_refl _

/-- A guarded command leaves the tokens of `p` alone, unless it is a hold of its own. -/
theorem Apart.of_exec (guard : LockGuard q c σ) (other : q ≠ p ∨ c.HoldsNothing) :
    Apart p σ.keyed (σ.exec q c i).2.keyed := by
  cases c with
  | now | stream => exact .refl p _
  | keyed c =>
    change Apart p σ.keyed (σ.keyed.exec q σ.now i c).2
    have holds : ∀ {k τ}, τ.serial < σ.keyed.serial → (σ.keyed.exec q σ.now i c).2.Holds k τ → σ.keyed.Holds k τ := by
      intro k τ hτ h
      rcases Keyspace.holds_of_exec _ _ _ _ h with h | ⟨rfl, -⟩
      · exact h
      · exact absurd hτ (Nat.lt_irrefl _)
    refine ⟨serial_le_exec .., Keyspace.versioned_exec q σ.now i c, holds, fun {k τ} owner hτ h free => ?_⟩
    rw [Keyspace.held_exec]
    cases c with
    | exec w tx =>
      simp only [Keyspace.data]
      split_ifs with hw
      · rw [Keyspace.held_commit]
        cases tx with
        | dropKey key =>
          dsimp only
          split_ifs
          · rfl
          · exact free
        | expire key mid lock unhold own =>
          dsimp only
          split_ifs
          · rfl
          · exact free
        | hold key mid lock now reason =>
          dsimp only
          split_ifs with same
          · -- the hold is under the lock of its own actor
            obtain ⟨owner', holds'⟩ := guard hw
            subst same
            have mine : σ.keyed.Holds k τ := holds hτ h
            have token : τ = lock := Option.some.inj (mine.symm.trans holds')
            rcases other with ne | nothing
            · exact absurd (owner'.symm.trans (token ▸ owner)) ne
            · exact nothing.elim
          · exact free
        | _ => exact free
      · exact free
    | write w =>
      simp only [Keyspace.data, Keyspace.held_write]
      have loose : w.Loose := guard
      cases w with
      | hsetHeld => exact loose.elim
      | hdelHeld k' =>
        dsimp only
        split_ifs
        · rfl
        · exact free
      | _ => exact free
    | _ => exact free

theorem Apart.of_disturb (d : Disturbance) : Apart p σ.keyed (σ.disturb d).keyed := by
  cases d with
  | lapse k =>
    have quiet : Quiet σ.keyed (σ.keyed.lapse k) := .lapse _ k
    refine ⟨quiet.serial, Keyspace.versioned_lapse k, quiet.holds, fun _ _ _ free => ?_⟩
    rw [Server.disturb, quiet.held]
    exact free
  | _ => exact .refl p _

theorem Keyspace.Issued.exec (issued : σ.keyed.Issued) : (σ.exec p c i).2.keyed.Issued := by
  cases c with
  | now | stream => exact issued
  | keyed c =>
    intro k τ h
    change (σ.keyed.exec p σ.now i c).2.Holds k τ at h
    change τ.serial < (σ.keyed.exec p σ.now i c).2.serial
    rcases Keyspace.holds_of_exec _ _ _ _ h with h | ⟨rfl, free, ttl, rfl⟩
    · exact (issued k τ h).trans_le (serial_le_exec ..)
    · rw [Keyspace.serial_exec]
      simp [free]

theorem Keyspace.Issued.disturb (issued : σ.keyed.Issued) (d : Disturbance) : (σ.disturb d).keyed.Issued := by
  cases d with
  | lapse k =>
    have quiet : Quiet σ.keyed (σ.keyed.lapse k) := .lapse _ k
    intro l τ h
    by_cases hτ : τ.serial < σ.keyed.serial
    · exact hτ.trans_le quiet.serial
    · refine absurd (issued l τ ?_) hτ
      change (σ.keyed.lapse k).Holds l τ at h
      unfold Keyspace.lapse at h
      split_ifs at h
      · by_cases hl : l = k
        · subst hl
          simp [Keyspace.Holds, Keyspace.touch] at h
        · simpa [Keyspace.Holds, Keyspace.touch, hl] using h
      · exact h
  | _ => exact issued

end Apart

/-- The contract of locks and holds. -/
abbrev locks : Contract actors where
  Inv σ := σ.keyed.Issued
  Ok _ _ _ _ _ := True
  Guard p _ c _ σ := LockGuard p c σ
  Post p o r _ := (o.phase r).OwnedBy p
  inv_exec issued _ _ := issued.exec
  inv_note issued _ := issued
  inv_disturb d issued := issued.disturb d

/-! ## What stays -/

section Firm

variable {p : ℕ} {o : KeyedCall} {σ σ' : Server} {α β : Type} {A : Server → Prop} {Q : β → Server → Prop}

theorem Apart.of_rely (h : locks.Rely p σ σ') : Apart p σ.keyed σ'.keyed := by
  refine Contract.Rely.le locks (R := fun σ σ' => Apart p σ.keyed σ'.keyed) (fun _ => .refl p _)
    (fun h h' => h.trans h') (fun {σ σ'} move => ?_) h
  cases move with
  | exec ne _ _ guard => exact .of_exec guard (.inl ne)
  | note => exact .refl p _
  | disturb d => exact .of_disturb d

/-- An assertion that survives what the others do, and what its own actor does short of a hold. -/
structure Firm (p : ℕ) (A : Server → Prop) : Prop where
  keeps : ∀ {σ σ'}, Apart p σ.keyed σ'.keyed → A σ → A σ'

theorem Firm.const (P : Prop) : Firm p fun _ => P := ⟨fun _ => id⟩

theorem Firm.and {B : Server → Prop} (a : Firm p A) (b : Firm p B) : Firm p fun σ => A σ ∧ B σ :=
  ⟨fun h hab => ⟨a.keeps h hab.1, b.keeps h hab.2⟩⟩

theorem Steady.firm (steady : Steady A) : Firm p A := ⟨fun h => steady.keeps h.versioned⟩

theorem Firm.rely (firm : Firm p A) : ∀ {σ σ'}, locks.Rely p σ σ' → A σ → A σ' :=
  fun h => firm.keeps (.of_rely h)

/-- `lock` is a token of `p` that was handed out. -/
def Taken (p : ℕ) (lock : Token) (σ : Server) : Prop := lock.owner = p ∧ lock.serial < σ.keyed.serial

/-- The key is not held, as long as `lock` locks it. -/
def Unheld (p : ℕ) (key : Key) (lock : Token) (σ : Server) : Prop :=
  Taken p lock σ ∧ (σ.keyed.Holds key lock → σ.keyed.held key = none)

theorem Taken.firm (lock : Token) : Firm p (Taken p lock) := ⟨fun h a => ⟨a.1, a.2.trans_le h.serial⟩⟩

theorem Unheld.firm (key : Key) (lock : Token) : Firm p (Unheld p key lock) :=
  ⟨fun h a => ⟨(Taken.firm lock).keeps h a.1, fun holds =>
    h.held a.1.1 a.1.2 holds (a.2 (h.holds a.1.2 holds))⟩⟩

theorem FenceKeys.firm {key : Key} {mid : MsgId} {lock : Token} {w : Watch} (h : FenceKeys key mid w) :
    Firm p (Seen w fun κ => κ.Holds key lock) := by
  refine Steady.firm (Seen.steady fun {κ κ'} same holds => ?_)
  have watched : RedisKey.lock key ∈ w.map Prod.fst := by
    rw [h]
    simp
  obtain ⟨e, he, hk⟩ := List.mem_map.1 watched
  have := same e he
  rw [hk] at this
  rw [Keyspace.Holds, this]
  exact holds

/-- A command, with the rest of the program after it. -/
theorem lock_step (firm : Firm p A) {c : KeyedCmd} {f : c.Reply → Script β} (hA : A σ)
    (nothing : (Cmd.keyed c).HoldsNothing) (guard : ∀ {σ}, A σ → LockGuard p (.keyed c) σ)
    (rest : ∀ σ' i, A σ' → A (σ'.exec p (.keyed c) i).2 →
      locks.Safe p o (f (σ'.exec p (.keyed c) i).1) Q (σ'.exec p (.keyed c) i).2) :
    locks.Safe p o (Script.keyed c >>= f) Q σ :=
  Contract.Safe.step (c := Cmd.keyed c) firm.rely hA fun σ' i _ _ hA' =>
    ⟨guard hA', rest σ' i hA' (firm.keeps (.of_exec (guard hA') (.inr nothing)) hA')⟩

/-- A guarded transaction, after which nothing is relied on. -/
theorem lock_exec (firm : Firm p A) {w : Watch} {tx : Tx} {f : Bool → Script β} (hA : A σ)
    (guard : ∀ {σ}, A σ → LockGuard p (.keyed (.exec w tx)) σ)
    (rest : ∀ done σ', locks.Safe p o (f done) Q σ') : locks.Safe p o (Script.keyed (.exec w tx) >>= f) Q σ :=
  Contract.Safe.step (c := Cmd.keyed (.exec w tx)) firm.rely hA fun _ _ _ _ hA' => ⟨guard hA', rest _ _⟩

theorem lock_ret (firm : Firm p A) {b : β} (hA : A σ) (post : ∀ σ', A σ' → Q b σ') :
    locks.Safe p o (pure b : Script β) Q σ :=
  .ret firm.rely hA fun σ' _ => post σ'

theorem Commits.locked {c : Cmd} (h : Commits Tx.Plain c) : LockGuard p c σ := by
  cases c with
  | now | stream => trivial
  | keyed c =>
    cases c with
    | exec w tx => exact fun _ => Tx.Plain.locked h p _
    | write w => exact h
    | _ => trivial

theorem Commits.holdsNothing {c : Cmd} (h : Commits Tx.Plain c) : c.HoldsNothing := by
  cases c with
  | now | stream => trivial
  | keyed c =>
    cases c with
    | exec w tx =>
      cases tx with
      | hold => exact h.elim
      | _ => trivial
    | _ => trivial

/-- A program that neither leases nor holds keeps what stays. -/
theorem lock_plain (firm : Firm p A) {x : Script α} (hx : x.All (Commits Tx.Plain)) (hA : A σ) :
    locks.Safe p o x (fun _ => A) σ :=
  .of_all firm.rely (fun h _ _ _ => h.locked)
    (fun h _ _ hA => firm.keeps (.of_exec h.locked (.inr h.holdsNothing)) hA) hx hA

/-- The same, before the rest of a program. -/
theorem lock_then (firm : Firm p A) {x : Script α} {f : α → Script β} (hx : x.All (Commits Tx.Plain)) (hA : A σ)
    (rest : ∀ a σ', A σ' → locks.Safe p o (f a) Q σ') : locks.Safe p o (x >>= f) Q σ :=
  .bind ((lock_plain firm hx hA).mono fun a σ' _ => rest a σ')

theorem lock_done {x : Script α} (hx : x.All (Commits Tx.Plain)) : locks.Safe p o x (fun _ _ => True) σ :=
  (lock_plain (.const True) hx trivial).mono fun _ _ _ _ => trivial

end Firm

/-! ## The operations -/

section Operations

variable {p : ℕ} {o : KeyedCall} {σ : Server}

/-- A lease that an attempt may return is under a token of `p`. -/
def Owned (p : ℕ) (r : Except Exc (Option KeyedLease × LeaseReason)) : Prop :=
  ∀ lease reason, r = .ok (some lease, reason) → lease.lock.owner = p

theorem Owned.error (e : Exc) : Owned p (.error e) := fun _ _ h => by cases h

theorem Owned.none (reason : LeaseReason) : Owned p (.ok (none, reason)) := fun _ _ h => by cases h

theorem Owned.some {lease : KeyedLease} (owner : lease.lock.owner = p) (reason : LeaseReason) :
    Owned p (.ok (some lease, reason)) := fun _ _ h => by
  cases h
  exact owner

theorem lock_owned {r : Except Exc (Option KeyedLease × LeaseReason)} (owned : Owned p r) :
    locks.Safe p o (pure r : Script _) (fun r _ => Owned p r) σ :=
  lock_ret (.const True) trivial fun _ _ => owned

namespace KeyedQueue

variable (q : KeyedQueue)

/-- A passed fence has found its lock. -/
theorem lock_verifyFence {A : Server → Prop} (firm : Firm p A) (lock : Token) (key : Key) (mid : MsgId)
    (gen : Option ℕ) (createdMs : Option ℤ) (hA : A σ) :
    locks.Safe p o (verifyFence lock key mid gen createdMs) (fun r σ => A σ ∧ ∀ w current, r = .ok (w, current) →
      FenceKeys key mid w ∧ Seen w (fun κ => κ.Holds key lock) σ) σ := by
  refine lock_step firm hA trivial (fun _ => trivial) fun σ₁ i₁ _ hA => ?_
  have seen := Seen.of_watch p σ₁ [.lock key, .msg mid] i₁
  have keys : FenceKeys key mid (σ₁.exec p (.keyed (.watch [.lock key, .msg mid])) i₁).1 := rfl
  generalize (σ₁.exec p (.keyed (.watch [.lock key, .msg mid])) i₁).1 = w at seen keys
  have steady : Firm p (Seen w fun _ => True) := Seen.steady_true.firm
  refine lock_step (firm.and steady) ⟨hA, seen⟩ trivial (fun _ => trivial) fun σ₂ i₂ _ ⟨hA, seen⟩ => ?_
  split_ifs with stored
  · exact lock_ret firm hA fun _ hA => ⟨hA, nofun⟩
  · have holds : (σ₂.keyed.lock key).map LockValue.token = some lock := not_not.1 stored
    have locked : Seen w (fun κ => κ.Holds key lock) (σ₂.exec p (.keyed (.getLock key)) i₂).2 :=
      seen.imp fun _ _ => holds
    refine lock_step (firm.and keys.firm) ⟨hA, locked⟩ trivial (fun _ => trivial) fun σ₃ i₃ _ h => ?_
    cases (σ₃.exec p (.keyed (.hgetall mid)) i₃).1 with
    | none => exact lock_ret firm h.1 fun _ hA => ⟨hA, nofun⟩
    | some raw =>
      refine lock_ret (firm.and keys.firm) h fun σ₄ ⟨hA, locked⟩ => ⟨hA, fun w' current h => ?_⟩
      obtain ⟨rfl, -⟩ := checkFence_ok h
      exact ⟨keys, locked⟩

theorem lock_leaseHead (key : Key) (lock : Token) (receipt : Option Receipt) (ignoreDue : Bool) (mid : MsgId)
    (message : KeyedMessage) (now : ℤ) (taken : Taken p lock σ) :
    locks.Safe p o (leaseHead key lock receipt ignoreDue mid message now) (fun r _ => Owned p r) σ := by
  refine lock_step (Taken.firm lock) taken trivial (fun _ => trivial) fun σ₁ i₁ _ taken => ?_
  have reply : (σ₁.exec p (.keyed (.hgetHeld key)) i₁).1 = σ₁.keyed.held key := rfl
  rw [reply]
  split_ifs with held
  · exact lock_owned (.none _)
  have unheld : Unheld p key lock (σ₁.exec p (.keyed (.hgetHeld key)) i₁).2 := by
    refine ⟨taken, fun _ => ?_⟩
    change (σ₁.keyed.exec p σ₁.now i₁ (.hgetHeld key)).2.held key = none
    rw [Keyspace.held_exec]
    exact Option.not_isSome_iff_eq_none.1 held
  dsimp only
  split_ifs
  · exact lock_then (.const True) (.one trivial) trivial fun _ _ _ => lock_owned (.none _)
  refine .bind ((lock_verifyFence (Unheld.firm key lock) lock key mid _ _ unheld).mono fun r σ₂ _ passed => ?_)
  obtain ⟨unheld, passed⟩ := passed
  match r with
  | .error e =>
    dsimp only
    split_ifs
    · exact lock_owned (.none _)
    · exact lock_owned (.error e)
  | .ok (w, current) =>
    obtain ⟨keys, locked⟩ := passed w current rfl
    refine lock_step ((Unheld.firm key lock).and keys.firm) ⟨unheld, locked⟩ trivial
      (fun h unchanged => h.1.2 (h.2.same unchanged)) fun σ₃ i₃ _ h => ?_
    split_ifs
    · exact lock_owned (.some h.1.1.1 _)
    · exact lock_owned (.none _)

theorem lock_leaseLocked (key : Key) (lock : Token) (receipt : Option Receipt) (ignoreDue : Bool) (fuel : ℕ)
    (taken : Taken p lock σ) :
    locks.Safe p o (q.leaseLocked key lock receipt ignoreDue fuel) (fun r _ => Owned p r) σ := by
  induction fuel generalizing σ with
  | zero => trivial
  | succ fuel ih =>
    have firm := Taken.firm (p := p) lock
    refine lock_step firm taken trivial (fun _ => trivial) fun σ₁ i₁ _ taken => ?_
    cases (σ₁.exec p (.keyed (.zrangeHead key)) i₁).1 with
    | none =>
      exact lock_then firm (commits_dropKeyIfEmpty trivial 2) taken fun _ _ _ =>
        lock_owned (.none _)
    | some mid =>
      refine lock_step firm taken trivial (fun _ => trivial) fun σ₂ i₂ _ taken => ?_
      cases (σ₂.exec p (.keyed (.hgetall mid)) i₂).1 with
      | none =>
        exact lock_then firm (.one trivial) taken fun _ _ taken =>
          lock_then firm (.one trivial) taken fun _ _ taken => ih taken
      | some raw =>
        dsimp only
        split
        · exact lock_owned (.error _)
        · refine lock_then firm (.one trivial) taken fun now σ₃ taken =>
            lock_then firm (q.commits_expireHead (fun _ _ _ _ => trivial) ..) taken fun r σ₄ taken => ?_
          match r with
          | .ok true => exact ih taken
          | .ok false => exact lock_leaseHead key lock receipt ignoreDue mid _ now taken
          | .error e =>
            dsimp only
            split_ifs
            · exact lock_owned (.none _)
            · exact lock_owned (.error e)

theorem lock_leaseKeyDetailed (key : Key) (receipt : Option Receipt) (ignoreDue : Bool) (fuel : ℕ) :
    locks.Safe p o (q.leaseKeyDetailed key receipt ignoreDue fuel) (fun r _ => Owned p r) σ := by
  have refused : ∀ {x : Script Unit} {r : Except Exc (Option KeyedLease × LeaseReason)} {σ : Server},
      x.All (Commits Tx.Plain) → Owned p r → locks.Safe p o (x >>= fun _ => pure r) (fun r _ => Owned p r) σ :=
    fun hx owned => lock_then (.const True) hx trivial fun _ _ _ => lock_owned owned
  refine lock_step (.const True) trivial trivial (fun _ => trivial) fun σ₁ i₁ _ _ => ?_
  have acquired : ∀ lock, (σ₁.exec p (.keyed (.acquire key q.config.lockTtlMs)) i₁).1 = some lock →
      Taken p lock (σ₁.exec p (.keyed (.acquire key q.config.lockTtlMs)) i₁).2 := by
    intro lock hlock
    simp only [Server.exec, Keyspace.exec] at hlock ⊢
    cases free : σ₁.keyed.lock key with
    | some v =>
      rw [free] at hlock
      cases hlock
    | none =>
      rw [free] at hlock
      cases hlock
      exact ⟨rfl, Nat.lt_succ_self _⟩
  generalize (σ₁.exec p (.keyed (.acquire key q.config.lockTtlMs)) i₁) = reply at acquired
  obtain ⟨lock, σ₁⟩ := reply
  cases lock with
  | none => exact refused (q.commits_ackSignal ..) (.none _)
  | some lock =>
    refine .bind ((q.lock_leaseLocked key lock receipt ignoreDue fuel (acquired lock rfl)).mono fun r σ₂ _ owned => ?_)
    cases r with
    | error e => exact refused (commits_release ..) (.error e)
    | ok leased =>
      obtain ⟨lease, reason⟩ := leased
      cases lease with
      | some lease => exact lock_owned (.some (owned lease reason rfl) reason)
      | none =>
        refine lock_then (.const True) (commits_release ..) trivial fun _ _ _ => ?_
        exact refused (q.commits_ackSignal ..) (.none _)

theorem lock_leaseTries (fuel tries : ℕ) :
    locks.Safe p o (q.leaseTries fuel tries) (fun r _ => ∀ lease, r = .ok (some lease) → lease.lock.owner = p) σ := by
  have plain : ∀ {c : Cmd}, OnPlane c → Commits Tx.Plain c := OnPlane.commits
  have leaseless : ∀ {r : Except Exc (Option KeyedLease)} {σ : Server}, (∀ lease, r ≠ .ok (some lease)) →
      locks.Safe p o (pure r : Script _) (fun r _ => ∀ lease, r = .ok (some lease) → lease.lock.owner = p) σ :=
    fun ne => lock_ret (.const True) trivial fun _ _ lease h => absurd h (ne lease)
  have empty : ∀ {σ : Server}, locks.Safe p o (pure (.ok none) : Script (Except Exc (Option KeyedLease)))
      (fun r _ => ∀ lease, r = .ok (some lease) → lease.lock.owner = p) σ := leaseless fun _ h => by cases h
  induction tries generalizing σ with
  | zero => exact empty
  | succ tries ih =>
    refine lock_then (.const True) (.one trivial) trivial fun paused σ₁ _ => ?_
    split_ifs
    · exact empty
    refine lock_then (.const True) ((q.store.onPlane_receive ..).mono fun _ => plain) trivial fun items σ₂ _ => ?_
    cases items with
    | nil => exact empty
    | cons item items =>
      refine lock_then (.const True) (.one trivial) trivial fun paused σ₃ _ => ?_
      split_ifs
      · exact lock_then (.const True) ((QueueStore.onPlane_changeVisibility ..).mono fun _ => plain) trivial
          fun _ _ _ => empty
      · cases signalKey item.envelope with
        | none => exact lock_then (.const True) (q.commits_ackSignal ..) trivial fun _ _ _ => ih
        | some key =>
          have mark : (q.markSignal key item.receipt.messageId).All (Commits Tx.Plain) :=
            (q.onPlane_markSignal ..).mono fun _ => plain
          refine lock_then (.const True) mark trivial fun _ σ₄ _ => ?_
          refine .bind ((q.lock_leaseKeyDetailed key (some item.receipt) false fuel).mono fun r σ₅ _ owned => ?_)
          match r with
          | .error e => exact leaseless fun _ h => by cases h
          | .ok (some lease, reason) =>
            refine lock_ret (.const True) trivial fun _ _ lease' h => ?_
            cases h
            exact owned lease reason rfl
          | .ok (none, _) => exact ih

/-- An outcome commits where its lock is found. -/
theorem outcomeTx_locked {lease : KeyedLease} {outcome : Outcome} {current : KeyedMessage} {now : ℤ} {κ : Keyspace}
    (owner : lease.lock.owner = p) (holds : κ.Holds lease.key lease.lock) :
    TxLocked p κ (q.outcomeTx lease current now outcome) := by
  unfold outcomeTx
  dsimp only
  split_ifs
  · trivial
  · cases outcome with
    | hold => exact ⟨owner, holds⟩
    | _ => trivial

theorem lock_apply (lease : KeyedLease) (outcome : Outcome) (owner : lease.lock.owner = p) :
    locks.Safe p o (q.apply lease outcome) (fun _ _ => True) σ := by
  refine .bind ((lock_verifyFence (.const True) lease.lock lease.key lease.message.messageId (some lease.gen) none
    trivial).mono fun r σ₁ _ passed => ?_)
  match r with
  | .error e => exact lock_done trivial
  | .ok (w, current) =>
    obtain ⟨keys, locked⟩ := passed.2 w current rfl
    have finish : ∀ (σ : Server) (now : ℤ), Seen w (fun κ => κ.Holds lease.key lease.lock) σ →
        locks.Safe p o (do
          if ← Script.keyed (.exec w (q.outcomeTx lease current now outcome)) then
            q.settle lease outcome
          else
            return .error (.leaseLost (.superseded lease.key))) (fun _ _ => True) σ := by
      intro σ now locked
      refine lock_exec keys.firm locked (fun locked unchanged => q.outcomeTx_locked owner (locked.same unchanged))
        fun done σ₃ => ?_
      split_ifs
      · exact lock_done (q.commits_settle lease trivial outcome)
      · exact lock_done trivial
    refine lock_then keys.firm (.one trivial) locked fun now σ₂ locked => ?_
    dsimp only
    split
    · exact finish _ _ locked
    · exact lock_then keys.firm (q.commits_handoffDlq ..) locked fun _ σ₃ locked => finish σ₃ now locked

end KeyedQueue

/-- Every call keeps to its locks. -/
theorem KeyedCall.locked {φ : KeyedPhase} (o : KeyedCall) (accepted : o.accepted φ = true) (owned : φ.OwnedBy p) :
    locks.Safe p o o.code (fun r _ => (o.phase r).OwnedBy p) σ := by
  obtain ⟨q, op⟩ := o
  have plain : ∀ {x : Script KeyedResult}, x.All (Commits Tx.Plain) → (∀ r, (KeyedCall.phase ⟨q, op⟩ r).OwnedBy p) →
      locks.Safe p ⟨q, op⟩ x (fun r _ => (KeyedCall.phase ⟨q, op⟩ r).OwnedBy p) σ :=
    fun hx post => (lock_done hx).mono fun r _ _ _ => post r
  cases op with
  | push => exact plain (.bind (q.commits_push (fun _ _ _ => trivial) _) fun _ => trivial) fun _ => trivial
  | lease fuel =>
    refine .bind ((q.lock_leaseTries fuel _).mono fun r σ' _ owned => lock_ret (.const True) trivial fun _ _ => ?_)
    match r with
    | .ok (some lease) => exact owned lease rfl
    | .ok none => trivial
    | .error e => trivial
  | leaseKey key ignoreDue fuel =>
    refine .bind ((q.lock_leaseKeyDetailed key none ignoreDue fuel).mono fun r σ' _ owned =>
      lock_ret (.const True) trivial fun _ _ => ?_)
    match r with
    | .ok (some lease, reason) => exact owned lease reason rfl
    | .ok (none, _) => trivial
    | .error e => trivial
  | extend lease additionalMs commands =>
    have owner : lease.lock.owner = p := by
      cases φ with
      | idle => cases accepted
      | holding lease' =>
        obtain rfl : lease = lease' := of_decide_eq_true accepted
        exact owned
    have extended : (do return .extended (← q.extend lease additionalMs) :
        Script KeyedResult).All (Commits Tx.Plain) :=
      ((q.silent_extend lease additionalMs).mono fun _ => Silent.commits).bind fun _ => trivial
    cases commands with
    | none => exact plain extended fun _ => owner
    | some n => exact plain (extended.cutoff .done n) fun _ => owner
  | apply lease outcome =>
    have owner : lease.lock.owner = p := by
      cases φ with
      | idle => cases accepted
      | holding lease' =>
        obtain rfl : lease = lease' := of_decide_eq_true accepted
        exact owned
    refine .bind ((q.lock_apply lease outcome owner).mono fun r σ' _ _ =>
      lock_ret (.const True) trivial fun _ _ => ?_)
    cases r with
    | ok _ => trivial
    | error e => exact owner
  | abandon lease => exact plain (.bind (KeyedQueue.commits_release ..) fun _ => trivial) fun _ => trivial
  | expireHead key message =>
    exact plain (.bind (q.commits_expireHead (fun _ _ _ _ => trivial) ..) fun _ => trivial) fun _ => trivial
  | promoteDue limit =>
    exact plain (.bind ((q.silent_promoteDue limit).mono fun _ => Silent.commits) fun _ => trivial) fun _ => trivial
  | recover force fuel =>
    exact plain (.bind (q.commits_recover (fun _ => trivial) ..) fun _ => trivial) fun _ => trivial
  | releaseHold key => exact plain (.bind (q.commits_releaseHold key) fun _ => trivial) fun _ => trivial
  | pause ttlMs reason =>
    exact plain (.bind ((q.onPlane_pause ttlMs reason).mono fun _ => OnPlane.commits) fun _ => trivial) fun _ => trivial
  | resume => exact plain (.bind (.one trivial) fun _ => trivial) fun _ => trivial

end Operations

/-! ## Runs -/

theorem locks_kept (Admits : KeyedCall → Prop) : locks.Kept (fun p φ _ => φ.OwnedBy p) Admits where
  idle _ _ := trivial
  call {_ _ o _} _ accepted _ owned := o.locked accepted owned
  phase _ post := post
  stable _ h := h

/-- Nobody calls, and the server is in the state `σ`. -/
def KeyedPool.resting (σ : Server) : KeyedPool := ⟨σ, fun _ => .resting .idle⟩

variable {A : KeyedPool → Act actors → Prop}

/-- In a pool reached from any content, a transaction that commits next finds what it needs. -/
theorem locked_next {σ : Server} (issued : σ.keyed.Issued) {P : KeyedPool} (hr : Pool.Reach A (KeyedPool.resting σ) P) {p : ℕ}
    {o : KeyedCall} {w : Watch} {tx : Tx} {k : Bool → Script KeyedResult}
    (hp : P.actors p = .calling o (.op (.keyed (.exec w tx)) k)) (hw : P.shared.keyed.unchanged w = true) :
    TxLocked p P.shared.keyed tx := by
  have start : locks.Within (fun p φ _ => φ.OwnedBy p) (fun _ => True) (KeyedPool.resting σ) := by
    refine ⟨issued, fun {p φ} h => ?_, fun h => (by cases h), fun h => (by cases h)⟩
    cases h
    trivial
  have within : locks.Within (fun p φ _ => φ.OwnedBy p) (fun _ => True) P := by
    refine Contract.sound (locks_kept _) start (hr.mono fun Q a _ => ?_)
    cases a <;> first | trivial | exact fun _ _ _ _ _ => trivial
  exact within.guard (i := {}) hp trivial hw

end NavigatorEventbus
