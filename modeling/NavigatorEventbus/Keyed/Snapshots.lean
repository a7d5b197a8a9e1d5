import NavigatorEventbus.Keyed.Runs
import NavigatorEventbus.Keyed.Transactions

/-!
# What a transaction was computed from

A push and an outcome compute what they write from what they read under `WATCH`, and their `EXEC` fails when
any of it has changed since.  So where the transaction commits, it was computed from what is stored: the
default score from the last one, the attempts of a retry from the attempts of the message (`TxSound`).  The
contract `snapshots` asks nothing of the other actors, not even that they keep the fence.
-/

namespace NavigatorEventbus

open Interleave

/-- A transaction that stores what its actor has computed. -/
def Tx.Computes : Tx → Prop
  | .push _ _ _ _ _ _ => True
  | .retry _ _ _ _ _ _ => True
  | .ack _ _ _ dropped => dropped = true
  | _ => False

/-- The call pushes a message. -/
def KeyedCall.Pushes (o : KeyedCall) : Prop :=
  match o.op with
  | .push _ _ _ _ => True
  | _ => False

/-- The call applies a retry of `mid`. -/
def KeyedCall.Retries (o : KeyedCall) (mid : MsgId) : Prop :=
  match o.op with
  | .apply lease (.retry _ _) => lease.message.messageId = mid
  | _ => False

/-- The call pushes `mid` with this order. -/
def KeyedCall.PushesAs (o : KeyedCall) (key : Key) (mid : MsgId) (body : Body) (order : Option ℚ) : Prop :=
  o.op = .push key body mid order

/-- What a transaction finds where it commits: what it was computed from. -/
def TxSound (clock : ℤ → Prop) (o : KeyedCall) (κ : Keyspace) : Tx → Prop
  | .push key mid body score now default =>
    ∃ order, o.PushesAs key mid body order ∧ default = order.isNone ∧
      score = order.getD (KeyedQueue.defaultScore now κ.lastscore) ∧ (κ.msg mid).bind MsgHash.key = none ∧ clock now
  | .retry _ mid _ attempts _ _ =>
    o.Retries mid ∧ ∃ h, κ.msg mid = some h ∧ h.key.isSome ∧ attempts = h.attempts.getD 0 + 1 ∧
      (0 < o.queue.config.maxAttempts → attempts ≤ o.queue.config.maxAttempts)
  | .ack _ mid _ true =>
    o.Retries mid ∧ ∃ h, κ.msg mid = some h ∧ h.key.isSome ∧ 0 < o.queue.config.maxAttempts ∧
      o.queue.config.maxAttempts < h.attempts.getD 0 + 1
  | _ => True

theorem TxSound.of_not_computes {clock : ℤ → Prop} {o : KeyedCall} {κ : Keyspace} {tx : Tx}
    (h : ¬ tx.Computes) : TxSound clock o κ tx := by
  cases tx with
  | push | retry => exact absurd trivial h
  | ack _ _ _ dropped =>
    cases dropped with
    | true => exact absurd rfl h
    | false => trivial
  | _ => trivial

/-- What every command respects. -/
def SnapGuard (clock : ℤ → Prop) (o : KeyedCall) (c : Cmd) (σ : Server) : Prop :=
  match c with
  | .keyed (.exec w tx) => σ.keyed.unchanged w = true → TxSound clock o σ.keyed tx
  | .keyed (.write w) => w.Loose
  | _ => True

/-- The contract of computed transactions. The clocks that the pushes read satisfy `clock`. -/
abbrev snapshots (clock : ℤ → Prop) : Contract actors where
  Inv _ := True
  Ok _ o c i _ := o.Pushes → c = .now → clock i.now
  Guard _ o c _ σ := SnapGuard clock o c σ
  Post _ _ _ _ := True
  inv_exec _ _ _ := trivial
  inv_note _ _ := trivial
  inv_disturb _ _ := trivial

/-! ## What stays seen -/

section Steady

variable {clock : ℤ → Prop} {p : ℕ} {o : KeyedCall} {σ σ' : Server} {w : Watch} {B B' : Keyspace → Prop}
  {α β : Type}

theorem versioned_exec (p : ℕ) (c : Cmd) (i : Input) (σ : Server) :
    σ.keyed.Versioned (σ.exec p c i).2.keyed := by
  cases c with
  | now | stream => exact .refl _
  | keyed c => exact Keyspace.versioned_exec p σ.now i c

theorem versioned_disturb (d : Disturbance) : σ.keyed.Versioned (σ.disturb d).keyed := by
  cases d with
  | lapse k => exact Keyspace.versioned_lapse k
  | _ => exact .refl _

theorem versioned_rely (h : (snapshots clock).Rely p σ σ') : σ.keyed.Versioned σ'.keyed := by
  refine Contract.Rely.le (snapshots clock) (R := fun σ σ' => σ.keyed.Versioned σ'.keyed)
    (fun _ => .refl _) (fun h h' => h.trans h') (fun {σ σ'} move => ?_) h
  cases move with
  | exec => exact versioned_exec _ _ _ _
  | note => exact .refl _
  | disturb d => exact versioned_disturb d

/-- An assertion that no command breaks. -/
structure Steady (A : Server → Prop) : Prop where
  keeps : ∀ {σ σ'}, σ.keyed.Versioned σ'.keyed → A σ → A σ'

theorem Steady.const (P : Prop) : Steady fun _ => P := ⟨fun _ => id⟩

theorem Steady.rely {A : Server → Prop} (steady : Steady A) :
    ∀ {σ σ'}, (snapshots clock).Rely p σ σ' → A σ → A σ' :=
  fun h => steady.keeps (versioned_rely h)

/-- What was read of watched keys stays so in the snapshot. -/
theorem Seen.steady (keeps : ∀ {κ κ'}, (∀ e ∈ w, κ.SameAt κ' e.1) → B κ → B κ') : Steady (Seen w B) :=
  ⟨fun v seen => ⟨fun e he => (seen.le e he).trans (v e.1).1, fun unchanged =>
    keeps (fun _ he => v.same seen.le unchanged he) (seen.same (v.unchanged seen.le unchanged))⟩⟩

theorem Seen.steady_true : Steady (Seen w fun _ => True) := Seen.steady fun _ => id

/-- What the snapshot says of a message it watches. -/
theorem Seen.steady_msg {mid : MsgId} (watched : RedisKey.msg mid ∈ w.map Prod.fst)
    (P : Option MsgHash → Prop) : Steady (Seen w fun κ => P (κ.msg mid)) := by
  refine Seen.steady fun same h => ?_
  obtain ⟨e, he, hk⟩ := List.mem_map.1 watched
  have := same e he
  rw [hk] at this
  rwa [this]

/-- A command, with the rest of the program after it. -/
theorem snap_step {A : Server → Prop} {Q : β → Server → Prop} (steady : Steady A) {c : KeyedCmd}
    {f : c.Reply → Script β} (hA : A σ) (guard : ∀ {σ}, A σ → SnapGuard clock o (.keyed c) σ)
    (rest : ∀ σ' i, A σ' → A (σ'.exec p (.keyed c) i).2 →
      (snapshots clock).Safe p o (f (σ'.exec p (.keyed c) i).1) Q (σ'.exec p (.keyed c) i).2) :
    (snapshots clock).Safe p o (Script.keyed c >>= f) Q σ :=
  Contract.Safe.step (c := Cmd.keyed c) steady.rely hA fun σ' i _ _ hA' =>
    ⟨guard hA', rest σ' i hA' (steady.keeps (versioned_exec _ _ _ _) hA')⟩

theorem snap_ret {A : Server → Prop} {Q : β → Server → Prop} (steady : Steady A) {b : β} (hA : A σ)
    (post : ∀ σ', A σ' → Q b σ') : (snapshots clock).Safe p o (pure b : Script β) Q σ :=
  .ret steady.rely hA fun σ' _ => post σ'

/-! ## Programs that compute nothing -/

/-- A command that commits nothing computed. -/
def Tame : Cmd → Prop
  | .keyed (.exec _ tx) => ¬ tx.Computes
  | .keyed (.write w) => w.Loose
  | _ => True

theorem Silent.tame {c : Cmd} (h : Silent c) : Tame c := by
  cases c with
  | now | stream => trivial
  | keyed c =>
    cases c with
    | exec => cases h
    | write w =>
      cases w with
      | hsetMsg => cases h
      | _ => exact h
    | _ => trivial

theorem OnPlane.tame {c : Cmd} (h : OnPlane c) : Tame c := h.silent.tame

theorem Tame.guard {c : Cmd} (h : Tame c) : SnapGuard clock o c σ := by
  cases c with
  | now | stream => trivial
  | keyed c =>
    cases c with
    | exec w tx => exact fun _ => .of_not_computes h
    | write w => exact h
    | _ => trivial

/-- A tame program keeps what no command breaks. -/
theorem snap_tame {A : Server → Prop} (steady : Steady A) {x : Script α} (hx : x.All Tame) (hA : A σ) :
    (snapshots clock).Safe p o x (fun _ => A) σ :=
  .of_all steady.rely (fun h _ _ _ => h.guard) (fun _ _ _ hA => steady.keeps (versioned_exec _ _ _ _) hA) hx hA

theorem snap_done {x : Script α} (hx : x.All Tame) : (snapshots clock).Safe p o x (fun _ _ => True) σ :=
  (snap_tame (.const True) hx trivial).mono fun _ _ _ _ => trivial

end Steady

theorem leasing_tame (key : Key) : Leasing (fun tx => ¬ tx.Computes) key where
  drop h := h
  expire _ _ _ _ h := h
  lease _ _ _ _ _ h := h

/-! ## Programs that compute -/

section Computing

variable {clock : ℤ → Prop} {p : ℕ} {o : KeyedCall} {σ : Server}

namespace KeyedQueue

variable (q : KeyedQueue)

theorem snap_pushTries (key : Key) (mid : MsgId) (body : Body) (order : Option ℚ) (now : ℤ)
    (pushes : o.PushesAs key mid body order) (read : clock now) (tries : ℕ) :
    (snapshots clock).Safe p o (pushTries key mid body order now tries) (fun _ _ => True) σ := by
  induction tries generalizing σ with
  | zero => exact snap_done trivial
  | succ tries ih =>
    refine snap_step (.const True) trivial (fun _ => trivial) fun σ₁ i₁ _ _ => ?_
    generalize hrs : (RedisKey.msg mid :: if order.isNone then [.lastscore] else []) = rs
    have seen := Seen.of_watch p σ₁ rs i₁
    have keys : (σ₁.exec p (.keyed (.watch rs)) i₁).1.map Prod.fst = rs := by
      show List.map Prod.fst (List.map _ rs) = rs
      rw [List.map_map]
      exact List.map_id rs
    generalize (σ₁.exec p (.keyed (.watch rs)) i₁).1 = w at seen keys
    have watched : RedisKey.msg mid ∈ w.map Prod.fst := by
      rw [keys, ← hrs]
      exact List.mem_cons_self ..
    refine snap_step Seen.steady_true seen (fun _ => trivial) fun σ₂ i₂ seen _ => ?_
    cases hkey : (σ₂.exec p (.keyed (.hgetKey mid)) i₂).1 with
    | some existing =>
      dsimp only
      split_ifs <;> exact snap_done trivial
    | none =>
      have fresh : Seen w (fun κ => (κ.msg mid).bind MsgHash.key = none) σ₂ := seen.imp fun _ _ => hkey
      have steady : Steady (Seen w fun κ => (κ.msg mid).bind MsgHash.key = none) :=
        Seen.steady_msg watched fun h => h.bind MsgHash.key = none
      -- where the score is that of the state seen, the rest is safe
      have finish : ∀ (σ : Server) (score : ℚ), Steady (Seen w fun κ => (κ.msg mid).bind MsgHash.key = none ∧
            score = order.getD (defaultScore now κ.lastscore)) →
          Seen w (fun κ => (κ.msg mid).bind MsgHash.key = none ∧
            score = order.getD (defaultScore now κ.lastscore)) σ →
          (snapshots clock).Safe p o (do
            if ← Script.keyed (.exec w (.push key mid body score now order.isNone)) then return .ok ()
            pushTries key mid body order now tries) (fun _ _ => True) σ := by
        intro σ score steady seen
        refine snap_step steady seen (fun seen unchanged => ?_) fun σ₄ i₄ _ _ => ?_
        · obtain ⟨fresh, score⟩ := seen.same unchanged
          exact ⟨order, pushes, rfl, score, fresh, read⟩
        · split_ifs
          · exact snap_done trivial
          · exact ih
      cases order with
      | some s =>
        refine finish σ₂ s ?_ (fresh.imp fun _ fresh => ⟨fresh, rfl⟩)
        exact Seen.steady_msg watched fun h => h.bind MsgHash.key = none ∧ s = s
      | none =>
        refine snap_step steady fresh (fun _ => trivial) fun σ₃ i₃ fresh _ => ?_
        have score : (σ₃.exec p (.keyed .getLastscore) i₃).1 = σ₃.keyed.lastscore := rfl
        rw [score]
        refine finish _ _ ?_ (fresh.imp fun _ fresh => ⟨fresh, rfl⟩)
        refine Seen.steady fun same ⟨fresh, score⟩ => ?_
        have last : RedisKey.lastscore ∈ w.map Prod.fst := by
          rw [keys, ← hrs]
          simp
        obtain ⟨e, he, hk⟩ := List.mem_map.1 last
        obtain ⟨e', he', hk'⟩ := List.mem_map.1 watched
        have sameLast := same e he
        have sameMsg := same e' he'
        rw [hk] at sameLast
        rw [hk'] at sameMsg
        exact ⟨by rw [sameMsg]; exact fresh, by rw [sameLast]; exact score⟩

theorem snap_push (key : Key) (body : Body) (mid : MsgId) (order : Option ℚ)
    (pushes : o.PushesAs key mid body order) :
    (snapshots clock).Safe p o (q.push key body mid order) (fun _ _ => True) σ := by
  have push : o.Pushes := by
    unfold KeyedCall.Pushes
    rw [pushes]
    trivial
  refine Contract.Safe.step (K := snapshots clock) (c := Cmd.now) (A := fun _ => True) (fun _ _ => trivial)
    trivial fun σ₁ i₁ _ ok _ => ⟨trivial, ?_⟩
  change (snapshots clock).Safe p o (pushTries key mid body order i₁.now 64 >>= _) (fun _ _ => True)
    (server.exec p .now i₁ σ₁).2
  refine .bind ((snap_pushTries key mid body order i₁.now pushes (ok push rfl) 64).mono fun r σ₂ _ _ => ?_)
  cases r with
  | error e => exact snap_done trivial
  | ok _ => exact snap_done ((q.commits_signal key).bind fun _ => trivial)

/-- A passed fence has read the message it watches. -/
theorem snap_verifyFence (lock : Token) (key : Key) (mid : MsgId) (gen : Option ℕ) (createdMs : Option ℤ) :
    (snapshots clock).Safe p o (verifyFence lock key mid gen createdMs)
      (fun r σ => ∀ w current, r = .ok (w, current) → ∃ raw, FenceKeys key mid w ∧
        Seen w (fun κ => κ.msg mid = some raw) σ ∧ toMessage raw mid = .ok current) σ := by
  refine snap_step (.const True) trivial (fun _ => trivial) fun σ₁ i₁ _ _ => ?_
  have seen := Seen.of_watch p σ₁ [.lock key, .msg mid] i₁
  have keys : FenceKeys key mid (σ₁.exec p (.keyed (.watch [.lock key, .msg mid])) i₁).1 := rfl
  generalize (σ₁.exec p (.keyed (.watch [.lock key, .msg mid])) i₁).1 = w at seen keys
  refine snap_step Seen.steady_true seen (fun _ => trivial) fun σ₂ i₂ _ seen => ?_
  split_ifs
  · exact snap_ret (.const True) trivial fun _ _ => nofun
  · refine snap_step Seen.steady_true seen (fun _ => trivial) fun σ₃ i₃ seen _ => ?_
    cases hraw : (σ₃.exec p (.keyed (.hgetall mid)) i₃).1 with
    | none => exact snap_ret (.const True) trivial fun _ _ => nofun
    | some raw =>
      have watched : RedisKey.msg mid ∈ w.map Prod.fst := by
        rw [keys]
        simp
      refine snap_ret (Seen.steady_msg watched fun h => h = some raw) (seen.imp fun _ _ => hraw)
        fun σ₄ seen w' current h => ?_
      obtain ⟨rfl, message, -, -⟩ := checkFence_ok h
      exact ⟨raw, keys, seen, message⟩

theorem toMessage_attempts {h : MsgHash} {mid : MsgId} {m : KeyedMessage} (hm : toMessage h mid = .ok m) :
    m.attempts = h.attempts.getD 0 := by
  unfold toMessage at hm
  split at hm <;> cases hm
  rfl

/-- An outcome's transaction is sound where the message it read is stored. -/
theorem outcomeTx_sound {lease : KeyedLease} {outcome : Outcome} {current : KeyedMessage} {raw : MsgHash}
    {now : ℤ} {κ : Keyspace} (retries : ∀ d r, outcome = .retry d r → o.Retries lease.message.messageId) (same : o.queue = q)
    (stored : κ.msg lease.message.messageId = some raw)
    (message : toMessage raw lease.message.messageId = .ok current) :
    TxSound clock o κ (q.outcomeTx lease current now outcome) := by
  have named : raw.key.isSome := by
    rw [toMessage_key message]
    rfl
  have attempts := toMessage_attempts message
  subst same
  cases outcome with
  | ack => trivial
  | wait => trivial
  | hold => trivial
  | retry d r =>
    by_cases beyond : 0 < o.queue.config.maxAttempts ∧ o.queue.config.maxAttempts < current.attempts + 1
    · have dropped : o.queue.exhausted current (.retry d r) = some _ := if_pos beyond
      have tx : o.queue.outcomeTx lease current now (.retry d r) =
          .ack lease.key lease.message.messageId lease.lock true := if_pos (by rw [dropped]; rfl)
      rw [tx]
      exact ⟨retries d r rfl, raw, stored, named, beyond.1, attempts ▸ beyond.2⟩
    · have left : o.queue.exhausted current (.retry d r) = none := if_neg beyond
      obtain ⟨due, tx⟩ : ∃ due, o.queue.outcomeTx lease current now (.retry d r) =
          .retry lease.key lease.message.messageId lease.lock (current.attempts + 1) due r :=
        ⟨_, if_neg (by rw [left]; simp)⟩
      rw [tx]
      refine ⟨retries d r rfl, raw, stored, named, by rw [attempts], fun pos => ?_⟩
      by_contra more
      exact beyond ⟨pos, by omega⟩

theorem snap_apply (lease : KeyedLease) (outcome : Outcome) (same : o.queue = q)
    (retries : ∀ d r, outcome = .retry d r → o.Retries lease.message.messageId) :
    (snapshots clock).Safe p o (q.apply lease outcome) (fun _ _ => True) σ := by
  refine .bind ((snap_verifyFence lease.lock lease.key lease.message.messageId (some lease.gen) none).mono
    fun r σ₁ _ passed => ?_)
  cases r with
  | error e => exact snap_done trivial
  | ok x =>
    obtain ⟨w, current⟩ := x
    obtain ⟨raw, keys, seen, message⟩ := passed w current rfl
    have watched : RedisKey.msg lease.message.messageId ∈ w.map Prod.fst := by
      rw [keys]
      simp
    have steady : Steady (Seen w fun κ => κ.msg lease.message.messageId = some raw) :=
      Seen.steady_msg watched fun h => h = some raw
    have finish : ∀ (σ : Server) (now : ℤ), Seen w (fun κ => κ.msg lease.message.messageId = some raw) σ →
        (snapshots clock).Safe p o (do
          if ← Script.keyed (.exec w (q.outcomeTx lease current now outcome)) then
            q.settle lease outcome
          else
            return .error (.leaseLost (.superseded lease.key))) (fun _ _ => True) σ := by
      intro σ now seen
      refine snap_step steady seen (fun seen unchanged => ?_) fun σ₃ i₃ _ _ => ?_
      · exact q.outcomeTx_sound retries same (seen.same unchanged) message
      · split_ifs
        · exact snap_done (q.commits_settle lease id outcome)
        · exact snap_done trivial
    refine Contract.Safe.step (K := snapshots clock) (c := Cmd.now) steady.rely seen
      fun σ₂ i₂ _ _ seen => ⟨trivial, ?_⟩
    have seen : Seen w (fun κ => κ.msg lease.message.messageId = some raw) (σ₂.exec p .now i₂).2 := seen
    cases q.exhausted current outcome with
    | none => exact finish _ _ seen
    | some x =>
      change (snapshots clock).Safe p o (q.handoffDlq x.1 x.2 >>= _) _ _
      exact .bind ((snap_tame steady (q.commits_handoffDlq x.1 x.2) seen).mono fun _ σ₃ _ seen =>
        finish σ₃ i₂.now seen)

end KeyedQueue

/-- Every call computes what it commits from what it finds. -/
theorem KeyedCall.snap (o : KeyedCall) (σ : Server) :
    (snapshots clock).Safe p o o.code (fun _ _ => True) σ := by
  have tame : ∀ {x : Script KeyedResult}, x.All Tame → (snapshots clock).Safe p o x (fun _ _ => True) σ :=
    snap_done
  obtain ⟨q, op⟩ := o
  cases op with
  | push key body mid order =>
    exact .bind ((q.snap_push (o := ⟨q, .push key body mid order⟩) key body mid order rfl).mono
      fun r σ' _ _ => snap_done trivial)
  | lease fuel => exact tame (.bind (q.commits_leaseTries leasing_tame ..) fun _ => trivial)
  | leaseKey key ignoreDue fuel => exact tame (.bind (q.commits_leaseKeyDetailed (leasing_tame key) ..) fun _ => trivial)
  | extend lease additionalMs commands =>
    have extended : (do return .extended (← q.extend lease additionalMs) :
        Script KeyedResult).All Tame :=
      ((q.silent_extend lease additionalMs).mono fun _ => Silent.tame).bind fun _ => trivial
    cases commands with
    | none => exact tame extended
    | some n => exact tame (extended.cutoff .done n)
  | apply lease outcome =>
    refine .bind ((q.snap_apply (o := ⟨q, .apply lease outcome⟩) lease outcome rfl fun d r h => ?_).mono
      fun r σ' _ _ => snap_done trivial)
    subst h
    rfl
  | abandon lease => exact tame (.bind (KeyedQueue.commits_release ..) fun _ => trivial)
  | expireHead key message => exact tame (.bind (q.commits_expireHead (leasing_tame key).expire ..) fun _ => trivial)
  | promoteDue limit =>
    exact tame (.bind ((q.silent_promoteDue limit).mono fun _ => Silent.tame) fun _ => trivial)
  | recover force fuel => exact tame (.bind (q.commits_recover (fun _ => id) ..) fun _ => trivial)
  | releaseHold key => exact tame (.bind (q.commits_releaseHold key) fun _ => trivial)
  | pause ttlMs reason =>
    exact tame (.bind ((q.onPlane_pause ttlMs reason).mono fun _ => OnPlane.tame) fun _ => trivial)
  | resume => exact tame (.bind (.one trivial) fun _ => trivial)

theorem snapshots_kept (clock : ℤ → Prop) (Admits : KeyedCall → Prop) :
    (snapshots clock).Kept (fun _ _ _ => True) Admits where
  idle _ _ := trivial
  call {_ _ o σ} _ _ _ _ := o.snap σ
  phase _ _ := trivial
  stable _ _ := trivial

theorem snapshots_start (clock : ℤ → Prop) (Admits : KeyedCall → Prop) :
    (snapshots clock).Within (fun _ _ _ => True) Admits KeyedPool.start where
  inv := trivial
  resting _ := trivial
  admits h := by cases h
  calling h := by cases h

variable {C : ℕ → KeyedCall → Cmd → Input → Server → Prop}

/-- In a reached pool, a transaction that commits next is sound. -/
theorem sound_next (ok : ∀ {p o c i σ}, C p o c i σ → o.Pushes → c = .now → clock i.now) {P : KeyedPool}
    (hr : Pool.Reach (Pool.Meets C) KeyedPool.start P) {o : KeyedCall} {w : Watch} {tx : Tx}
    {k : Bool → Script KeyedResult} (hp : P.actors p = .calling o (.op (.keyed (.exec w tx)) k))
    (hw : P.shared.keyed.unchanged w = true) : TxSound clock o P.shared.keyed tx := by
  have within : (snapshots clock).Within (fun _ _ _ => True) (fun _ => True) P := by
    refine Contract.sound (snapshots_kept clock _) (snapshots_start clock _) (hr.mono fun Q a ha => ?_)
    cases a with
    | exec p i => exact fun o c k hp _ => ok (ha o c k hp)
    | _ => trivial
  exact within.guard (i := {}) hp nofun hw

/-- What sound transactions, loose writes and quiet commands keep, every run keeps. -/
theorem snapshots_invariant (ok : ∀ {p o c i σ}, C p o c i σ → o.Pushes → c = .now → clock i.now)
    {J : Keyspace → Prop}
    (commit : ∀ {p o w tx i σ}, C p o (.keyed (.exec w tx)) i σ → TxSound clock o σ.keyed tx → J σ.keyed →
      J ((σ.keyed.commit tx).record p (.committed tx i.now)))
    (write : ∀ {p κ w}, w.Loose → J κ → J ((κ.write w).2.record p (.wrote w)))
    (quiet : ∀ {κ κ'}, Quiet κ κ' → J κ → J κ') (start : J {}) {P : KeyedPool}
    (hr : Pool.Reach (Pool.Meets C) KeyedPool.start P) : J P.shared.keyed := by
  refine Contract.invariant (J := fun σ => J σ.keyed) (snapshots_kept clock fun _ => True) (C := C)
    ?_ (fun _ _ => id) ?_ (snapshots_start clock _) start (hr.mono ?_)
  · intro p o c i σ _ _ _ hC guard hJ
    cases c with
    | now | stream => exact hJ
    | keyed c =>
      change J (σ.keyed.exec p σ.now i c).2
      rcases keyed_cases σ.keyed p σ.now i c with ⟨w, tx, rfl, hw, eq⟩ | ⟨w, rfl, eq⟩ | quiet'
      · rw [eq]
        exact commit hC (guard hw) hJ
      · rw [eq]
        exact write guard hJ
      · exact quiet quiet' hJ
  · intro σ d _ hJ
    cases d with
    | lapse k => exact quiet (.lapse _ k) hJ
    | _ => exact hJ
  · intro Q a ha
    refine ⟨?_, ha⟩
    cases a with
    | exec p i => exact fun o c k hp _ => ok (ha o c k hp)
    | _ => trivial

end Computing

end NavigatorEventbus
