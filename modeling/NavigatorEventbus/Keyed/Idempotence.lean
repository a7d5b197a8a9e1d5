import NavigatorEventbus.Keyed.Snapshots

/-!
# Pushing a message again

While a message is stored nothing changes what it has from its push, and no push of its id commits: the
transaction of a push is the only command of it that writes, and it fails where a message has been found or has
come since.  So a push that raises, or that finds its message stored, leaves everything as it is.
-/

namespace NavigatorEventbus

open Interleave

/-- A transaction that pushes `mid`. -/
def Event.Pushes (mid : MsgId) : Event → Prop
  | .committed tx _ => tx.pushes = some mid
  | _ => False

/-- What a message has from its push. -/
structure Origin where
  key : Key
  body : Option Body
  order : Option ℚ
  createdMs : Option ℤ

/-- What a stored message has from its push. A hash without a key is no message. -/
def Keyspace.origin (κ : Keyspace) (mid : MsgId) : Option Origin :=
  (κ.msg mid).bind fun h => h.key.map fun key => ⟨key, h.body, h.order, h.createdMs⟩

/-- What a push gives its message. -/
def Tx.origin : Tx → Option (MsgId × Origin)
  | .push key mid body score now _ => some (mid, ⟨key, some body, some score, some now⟩)
  | _ => none

/-- The first push decides: every stored message is as the last push that committed left it, and no push has
committed while the message of an earlier one was there. -/
structure FirstDecides (κ : Keyspace) : Prop where
  stored : ∀ {mid origin}, κ.origin mid = some origin → ∃ q tx t, tx.origin = some (mid, origin) ∧
    History.Since q (.committed tx t) (fun e => e.Pushes mid ∨ e.Removes mid) κ.log
  first : κ.log.Each fun _ e before => ∀ mid, e.Pushes mid →
    ∀ q e', e'.Pushes mid → ¬ History.Since q e' (Event.Removes mid) before

namespace Keyspace

variable {κ κ' : Keyspace} {tx : Tx} {mid : MsgId}

theorem origin_isSome : (κ.origin mid).isSome ↔ (κ.msg mid).bind MsgHash.key ≠ none := by
  unfold origin
  cases κ.msg mid with
  | none => simp
  | some h => cases hk : h.key <;> simp [hk]

theorem origin_of_msg (h : κ'.msg mid = κ.msg mid) : κ'.origin mid = κ.origin mid := by
  unfold origin
  rw [h]

/-- Writing other fields of a hash. -/
theorem origin_of_hset {m : MsgId} {f : MsgHash} (key : f.key = none) (body : f.body = none)
    (order : f.order = none) (createdMs : f.createdMs = none)
    (h : κ'.msg mid = if mid = m then some (((κ.msg mid).getD {}).set f) else κ.msg mid) :
    κ'.origin mid = κ.origin mid := by
  unfold origin
  rw [h]
  split_ifs
  · cases κ.msg mid with
    | none => simp [MsgHash.set, key]
    | some h => simp [MsgHash.set, key, body, order, createdMs]
  · rfl

/-- A transaction pushes a message, removes it, or leaves what it has from its push. -/
theorem origin_commit (κ : Keyspace) (tx : Tx) (mid : MsgId) :
    (∃ og, tx.origin = some (mid, og) ∧ (κ.commit tx).origin mid = some og) ∨
      (tx.removes = some mid ∧ (κ.commit tx).origin mid = none) ∨
        tx.pushes ≠ some mid ∧ tx.removes ≠ some mid ∧ (κ.commit tx).origin mid = κ.origin mid := by
  have msg := κ.msg_commit tx mid
  cases tx with
  | dropKey => exact .inr (.inr ⟨nofun, nofun, origin_of_msg msg⟩)
  | push key m body score now default =>
    by_cases hm : mid = m
    · subst hm
      have stored := msg.trans (if_pos rfl)
      refine .inl ⟨_, rfl, ?_⟩
      rw [origin, stored]
      rfl
    · have ne : some m ≠ some mid := fun h => hm (Option.some.inj h).symm
      exact .inr (.inr ⟨ne, nofun, origin_of_msg (msg.trans (if_neg hm))⟩)
  | ack key m | expire key m =>
    by_cases hm : mid = m
    · subst hm
      have gone := msg.trans (if_pos rfl)
      refine .inr (.inl ⟨rfl, ?_⟩)
      rw [origin, gone]
      rfl
    · have ne : some m ≠ some mid := fun h => hm (Option.some.inj h).symm
      exact .inr (.inr ⟨nofun, ne, origin_of_msg (msg.trans (if_neg hm))⟩)
  | lease | retry | wait | hold => exact .inr (.inr ⟨nofun, nofun, origin_of_hset rfl rfl rfl rfl msg⟩)

theorem origin_write {w : Write} (loose : w.Loose) (mid : MsgId) : (κ.write w).2.origin mid = κ.origin mid := by
  have msg := κ.msg_write w mid
  cases w with
  | hsetMsg m f =>
    cases loose
    exact origin_of_hset rfl rfl rfl rfl msg
  | deleteMsg => cases loose
  | _ => exact origin_of_msg msg

end Keyspace

/-! ## The first push -/

/-- The message of a push that nothing has removed since is stored. -/
structure Decided (κ : Keyspace) : Prop extends FirstDecides κ where
  kept : ∀ {q e mid}, e.Pushes mid → History.Since q e (Event.Removes mid) κ.log → (κ.origin mid).isSome

namespace Decided

variable {κ κ' : Keyspace} {clock : ℤ → Prop} {p : ℕ} {o : KeyedCall} {tx : Tx} {t : ℤ}

theorem of_kept (h : Decided κ) (origin : ∀ mid, κ'.origin mid = κ.origin mid) {es : History Event}
    (log : κ'.log = es ++ κ.log) (quiet : ∀ x ∈ es, ∀ tx t, x.2 ≠ .committed tx t) : Decided κ' := by
  have pushes : ∀ x ∈ es, ∀ mid, ¬ x.2.Pushes mid := by
    rintro ⟨q, e⟩ hx mid he
    cases e with
    | committed tx t => exact quiet _ hx tx t rfl
    | _ => exact he
  have removes : ∀ x ∈ es, ∀ mid, ¬ x.2.Removes mid := by
    rintro ⟨q, e⟩ hx mid he
    cases e with
    | committed tx t => exact quiet _ hx tx t rfl
    | _ => exact he
  refine ⟨⟨fun {mid og} hm => ?_, ?_⟩, fun {q e mid} he since => ?_⟩
  · rw [origin] at hm
    obtain ⟨q, tx, t, hog, since⟩ := h.stored hm
    refine ⟨q, tx, t, hog, ?_⟩
    rw [log]
    exact since.append fun x hx bad => bad.elim (pushes x hx mid) (removes x hx mid)
  · rw [log]
    exact h.first.append fun x hx _ mid he => absurd he (pushes x hx mid)
  · rw [log] at since
    rw [origin]
    exact h.kept he (since.of_append fun hx => pushes _ hx mid he)

theorem commit (h : Decided κ) (sound : TxSound clock o κ tx) :
    Decided ((κ.commit tx).record p (.committed tx t)) := by
  have log : ((κ.commit tx).record p (.committed tx t)).log = (p, .committed tx t) :: κ.log :=
    congrArg _ (Keyspace.log_commit _ tx)
  have origin : ∀ mid, ((κ.commit tx).record p (.committed tx t)).origin mid = (κ.commit tx).origin mid :=
    fun _ => rfl
  -- a push finds no message of its id
  have fresh : ∀ {mid}, tx.pushes = some mid → κ.origin mid = none := by
    intro mid hp
    cases tx with
    | push key m body score now default =>
      cases hp
      obtain ⟨order, -, -, -, fresh, -⟩ := sound
      rw [← Option.not_isSome_iff_eq_none, Keyspace.origin_isSome, not_not]
      exact fresh
    | _ => cases hp
  refine ⟨⟨fun {mid og} hm => ?_, ?_⟩, fun {q e mid} he since => ?_⟩
  · rw [log]
    rw [origin] at hm
    rcases κ.origin_commit tx mid with ⟨og', hog, now⟩ | ⟨-, gone⟩ | ⟨new, kept, same⟩
    · rw [now] at hm
      cases hm
      exact ⟨p, tx, t, hog, .self⟩
    · rw [gone] at hm
      cases hm
    · rw [same] at hm
      obtain ⟨q, tx', t', hog, since⟩ := h.stored hm
      exact ⟨q, tx', t', hog, since.cons fun bad => bad.elim new kept⟩
  · rw [log]
    refine h.first.cons fun mid hp q e' he' since => ?_
    have := h.kept he' since
    rw [fresh hp] at this
    cases this
  · rw [log] at since
    rw [origin]
    rcases κ.origin_commit tx mid with ⟨og, -, now⟩ | ⟨removed, -⟩ | ⟨new, -, same⟩
    · rw [now]
      rfl
    · rcases since.cons_inv with heq | ⟨-, kept⟩
      · obtain ⟨rfl, rfl⟩ := Prod.mk.inj heq
        cases tx with
        | push => cases removed
        | _ => cases he
      · exact absurd removed kept
    · rcases since.cons_inv with heq | ⟨since, -⟩
      · obtain ⟨rfl, rfl⟩ := Prod.mk.inj heq
        exact absurd he new
      · rw [same]
        exact h.kept he since

theorem write (h : Decided κ) {w : Write} (loose : w.Loose) :
    Decided ((κ.write w).2.record p (.wrote w)) := by
  refine @of_kept _ _ h (Keyspace.origin_write loose) [(p, .wrote w)] (congrArg _ (Keyspace.log_write _ w))
    fun x hx tx t => ?_
  rw [List.mem_singleton.1 hx]
  nofun

theorem quiet (h : Decided κ) (same : Quiet κ κ') : Decided κ' := by
  obtain ⟨es, log, hes⟩ := same.log
  refine h.of_kept (fun mid => Keyspace.origin_of_msg (by rw [same.msg])) log fun x hx tx t he => ?_
  have := (hes x hx).1
  rw [he] at this
  exact this

theorem start : Decided {} := by
  refine ⟨⟨fun hm => ?_, .nil _⟩, fun _ since => ?_⟩
  · cases hm
  · cases since.mem

end Decided

/-- In every run, the first push of a message decides as long as the message is stored. -/
theorem decided {P : KeyedPool} (hr : Pool.Reach (Pool.Meets Unrestricted) KeyedPool.start P) :
    Decided P.shared.keyed :=
  (@snapshots_invariant (fun _ => True) _ fun _ _ _ => trivial) (fun _ sound h => h.commit sound)
    (fun loose h => h.write loose) (fun same h => h.quiet same) .start hr

/-! ## One push -/

/-- The command leaves the keys as they are, but for the history. -/
def KeepsKeys (p : ℕ) (x : Issued server) : Prop :=
  { (x.after p).keyed with log := x.before.keyed.log } = x.before.keyed

/-- The command changes nothing at all, but for the history. -/
def KeepsAll (p : ℕ) (x : Issued server) : Prop := KeepsKeys p x ∧ (x.after p).plane = x.before.plane

/-- The command reads under which key `mid` is stored, and finds `found`. -/
def Finds (mid : MsgId) (found : Option Key) (x : Issued server) : Prop :=
  x.cmd = .keyed (.hgetKey mid) ∧ (x.before.keyed.msg mid).bind MsgHash.key = found

/-- The command is a transaction that fails. -/
def fails (x : Issued server) : Bool :=
  match x.cmd with
  | .keyed (.exec w _) => !x.before.keyed.unchanged w
  | _ => false

/-- What a push of `mid` under `key` that issued `t` came to: one that raises has changed nothing, one that
finds the message under another key raises, one that finds it under `key` leaves the keys as they are, and one that
gives up has had its transaction fail 64 times. -/
structure PushSettled (p : ℕ) (key : Key) (mid : MsgId) (t : List (Issued server)) (r : Except Exc MsgId) :
    Prop where
  raised : ∀ e, r = .error e → ∀ x ∈ t, KeepsAll p x
  other : (∃ x ∈ t, ∃ found, Finds mid (some found) x ∧ found ≠ key) ↔ ∃ what, r = .error (.valueError what)
  same : (∃ x ∈ t, Finds mid (some key) x) → r = .ok mid ∧ ∀ x ∈ t, KeepsKeys p x
  gaveUp : ∀ what, r = .error (.runtimeError what) → t.countP fails = 64

/-- The same for the tries of a push. -/
structure TriesSettled (p : ℕ) (key : Key) (mid : MsgId) (tries : ℕ) (t : List (Issued server))
    (r : Except Exc Unit) : Prop where
  raised : ∀ e, r = .error e → ∀ x ∈ t, KeepsAll p x
  other : (∃ x ∈ t, ∃ found, Finds mid (some found) x ∧ found ≠ key) ↔ ∃ what, r = .error (.valueError what)
  same : (∃ x ∈ t, Finds mid (some key) x) → r = .ok () ∧ ∀ x ∈ t, KeepsAll p x
  gaveUp : ∀ what, r = .error (.runtimeError what) → t.countP fails = tries

section Push

variable {p : ℕ} {key : Key} {mid : MsgId} {body : Body} {order : Option ℚ} {t : List (Issued server)}
  {E : Server → Server → Prop} {σ σ' : Server}

theorem exec_committed {w : Watch} {tx : Tx} {i : Input} (hw : σ.keyed.unchanged w = true) :
    (σ.exec p (.keyed (.exec w tx)) i).1 = true := by
  simp only [Server.exec, Keyspace.exec, hw, if_true]

theorem exec_failed {w : Watch} {tx : Tx} {i : Input} (hw : σ.keyed.unchanged w = false) :
    σ.exec p (.keyed (.exec w tx)) i = (false, { σ with keyed := σ.keyed.record p (.aborted tx) }) := by
  simp only [Server.exec, Keyspace.exec, hw, Bool.false_eq_true, if_false]

/-- A transaction that fails changes nothing. -/
theorem keepsAll_failed {w : Watch} {tx : Tx} {i : Input} (hw : σ.keyed.unchanged w = false) :
    KeepsAll p ⟨.keyed (.exec w tx), i, σ⟩ := by
  unfold KeepsAll KeepsKeys Issued.after
  dsimp only
  rw [exec_failed hw]
  exact ⟨rfl, rfl⟩

/-- A command that does not touch the keys. -/
theorem OnPlane.keepsKeys {x : Issued server} (h : OnPlane x.cmd) : KeepsKeys p x := by
  obtain ⟨c, i, σ⟩ := x
  cases c with
  | keyed => cases h
  | now | stream => rfl

/-- A finished trace of a command on the keys, with what follows it. -/
theorem keyed_inv {c : KeyedCmd} {β : Type} {f : c.Reply → Script β} {b : β}
    (h : Trace server p E (Script.keyed c >>= f) σ t (.pure b) σ') :
    ∃ i σ₁ t', t = ⟨.keyed c, i, σ₁⟩ :: t' ∧
      Trace server p E (f (σ₁.exec p (.keyed c) i).1) (σ₁.exec p (.keyed c) i).2 t' (.pure b) σ' :=
  h.op_pure_inv

/-- Commands in front that change nothing and find nothing. -/
theorem TriesSettled.cons {n tries : ℕ} {x : Issued server} {r : Except Exc Unit}
    (h : TriesSettled p key mid tries t r) (keeps : KeepsAll p x) (finds : ∀ found, ¬ Finds mid (some found) x)
    (count : n = tries + if fails x then 1 else 0) : TriesSettled p key mid n (x :: t) r := by
  refine ⟨fun e he => ?_, ?_, fun ⟨y, hy, found⟩ => ?_, fun what he => ?_⟩
  · exact List.forall_mem_cons.2 ⟨keeps, h.raised e he⟩
  · rw [← h.other]
    refine ⟨fun ⟨y, hy, found, hf, ne⟩ => ?_, fun ⟨y, hy, rest⟩ => ⟨y, List.mem_cons_of_mem _ hy, rest⟩⟩
    rcases List.mem_cons.1 hy with rfl | hy
    · exact absurd hf (finds found)
    · exact ⟨y, hy, found, hf, ne⟩
  · rcases List.mem_cons.1 hy with rfl | hy
    · exact absurd found (finds key)
    · obtain ⟨ok, keep⟩ := h.same ⟨y, hy, found⟩
      exact ⟨ok, List.forall_mem_cons.2 ⟨keeps, keep⟩⟩
  · rw [List.countP_cons, h.gaveUp what he, count]

theorem now_inv {β : Type} {f : ℤ → Script β} {b : β}
    (h : Trace server p E (Script.now >>= f) σ t (.pure b) σ') :
    ∃ i σ₁ t', t = ⟨.now, i, σ₁⟩ :: t' ∧ Trace server p E (f i.now) σ₁ t' (.pure b) σ' :=
  h.op_pure_inv

/-- A single command that changes nothing. -/
theorem TriesSettled.single {tries : ℕ} {x : Issued server} {r : Except Exc Unit} (keeps : KeepsAll p x)
    (other : (∃ found, Finds mid (some found) x ∧ found ≠ key) ↔ ∃ what, r = .error (.valueError what))
    (same : Finds mid (some key) x → r = .ok ()) (gaveUp : ∀ what, r ≠ .error (.runtimeError what)) :
    TriesSettled p key mid tries [x] r := by
  refine ⟨fun _ _ => ?_, ?_, fun ⟨y, hy, found⟩ => ⟨?_, ?_⟩, fun what he => absurd he (gaveUp what)⟩
  · exact List.forall_mem_singleton.2 keeps
  · rw [← other]
    simp
  · exact same (List.mem_singleton.1 hy ▸ found)
  · exact List.forall_mem_singleton.2 keeps

theorem tries_settled (now : ℤ) (tries : ℕ) {r : Except Exc Unit}
    (h : Trace server p E (KeyedQueue.pushTries key mid body order now tries) σ t (.pure r) σ') :
    TriesSettled p key mid tries t r := by
  induction tries generalizing t σ with
  | zero =>
    obtain ⟨rfl, hr⟩ := h.pure_inv
    cases hr
    refine ⟨fun _ _ x hx => absurd hx List.not_mem_nil, ?_, ?_, fun _ _ => rfl⟩
    · refine iff_of_false ?_ ?_
      · rintro ⟨x, hx, -⟩
        exact absurd hx List.not_mem_nil
      · rintro ⟨what, hr⟩
        cases hr
    · rintro ⟨x, hx, -⟩
      exact absurd hx List.not_mem_nil
  | succ tries ih =>
    obtain ⟨i₁, σ₁, t₁, rfl, h₁⟩ := keyed_inv h
    refine @TriesSettled.cons _ _ _ _ _ (tries + 1) _ _ ?_ ⟨rfl, rfl⟩ (fun _ hf => by cases hf.1) rfl
    obtain ⟨i₂, σ₂, t₂, rfl, h₂⟩ := keyed_inv h₁
    generalize (σ₁.exec p (.keyed (.watch _)) i₁).1 = w at h₂
    have found : (σ₂.exec p (.keyed (.hgetKey mid)) i₂).1 = (σ₂.keyed.msg mid).bind MsgHash.key := rfl
    rw [found] at h₂
    cases hkey : (σ₂.keyed.msg mid).bind MsgHash.key with
    | some existing =>
      rw [hkey] at h₂
      dsimp only at h₂
      split_ifs at h₂ with ne
      · obtain ⟨rfl, hr⟩ := h₂.pure_inv
        cases hr
        refine .single ⟨rfl, rfl⟩ (iff_of_true ⟨existing, ⟨rfl, hkey⟩, ne⟩ ⟨_, rfl⟩) (fun hf => ?_) nofun
        exact absurd (Option.some.inj (hkey.symm.trans hf.2)) ne
      · obtain ⟨rfl, hr⟩ := h₂.pure_inv
        cases hr
        refine .single ⟨rfl, rfl⟩ (iff_of_false ?_ nofun) (fun _ => rfl) nofun
        rintro ⟨found, hf, ne'⟩
        exact ne fun same => ne' ((Option.some.inj (hf.2.symm.trans hkey)).trans same)
    | none =>
      rw [hkey] at h₂
      refine @TriesSettled.cons _ _ _ _ _ (tries + 1) _ _ ?_ ⟨rfl, rfl⟩ (fun _ hf => ?_) rfl
      · have finish : ∀ {t : List (Issued server)} {σ : Server} {score : ℚ}, Trace server p E (do
            if ← Script.keyed (.exec w (.push key mid body score now order.isNone)) then return .ok ()
            KeyedQueue.pushTries key mid body order now tries) σ t (.pure r) σ' →
            TriesSettled p key mid (tries + 1) t r := by
          intro t σ score h
          obtain ⟨i₃, σ₃, t₃, rfl, h₃⟩ := keyed_inv h
          cases hw : σ₃.keyed.unchanged w with
          | true =>
            rw [exec_committed hw] at h₃
            obtain ⟨rfl, hr⟩ := h₃.pure_inv
            cases hr
            refine ⟨nofun, iff_of_false ?_ nofun, ?_, nofun⟩
            · rintro ⟨x, hx, found, hf, -⟩
              rw [List.mem_singleton.1 hx] at hf
              cases hf.1
            · rintro ⟨x, hx, hf⟩
              rw [List.mem_singleton.1 hx] at hf
              cases hf.1
          | false =>
            rw [exec_failed hw] at h₃
            exact .cons (ih h₃) (keepsAll_failed hw) (fun _ hf => by cases hf.1) (by simp [fails, hw])
        cases order with
        | some s => exact finish h₂
        | none =>
          obtain ⟨i₃, σ₃, t₃, rfl, h₃⟩ := keyed_inv h₂
          exact .cons (finish h₃) ⟨rfl, rfl⟩ (fun _ hf => by cases hf.1) rfl
      · exact absurd (hkey.symm.trans hf.2) nofun

/-- What a push came to that has returned. -/
theorem push_settled (q : KeyedQueue) {r : Except Exc MsgId}
    (h : Trace server p E (q.push key body mid order) σ t (.pure r) σ') : PushSettled p key mid t r := by
  obtain ⟨i, σ₁, t₁, rfl, h₁⟩ := now_inv h
  obtain ⟨t₂, t₃, a, σ₂, rfl, tried, rest⟩ := Trace.bind_pure_inv h₁
  have settled : TriesSettled p key mid 64 (⟨.now, i, σ₁⟩ :: t₂) a :=
    (tries_settled _ _ tried).cons ⟨rfl, rfl⟩ (fun _ hf => by cases hf.1) rfl
  rw [← List.cons_append]
  generalize (⟨.now, i, σ₁⟩ :: t₂ : List (Issued server)) = t at settled
  cases a with
  | error e =>
    obtain ⟨rfl, hr⟩ := rest.pure_inv
    cases hr
    rw [List.append_nil]
    refine ⟨fun _ _ => settled.raised e rfl, ?_, fun found => ?_, fun what he => ?_⟩
    · rw [settled.other]
      simp
    · cases (settled.same found).1
    · cases he
      exact settled.gaveUp what rfl
  | ok u =>
    obtain ⟨t₄, t₅, u', σ₃, rfl, signal, done⟩ := Trace.bind_pure_inv rest
    obtain ⟨rfl, hr⟩ := done.pure_inv
    cases hr
    rw [List.append_nil]
    have plane := (signal.all (q.onPlane_signal key)).1
    have found : ∀ found x, x ∈ t ++ t₄ → Finds mid (some found) x → x ∈ t := by
      intro found x hx hf
      rcases List.mem_append.1 hx with hx | hx
      · exact hx
      · have := plane x hx
        rw [hf.1] at this
        cases this
    refine ⟨nofun, iff_of_false ?_ nofun, fun ⟨x, hx, hf⟩ => ⟨rfl, fun y hy => ?_⟩, nofun⟩
    · rintro ⟨x, hx, k, hf, ne⟩
      obtain ⟨what, he⟩ := settled.other.1 ⟨x, found k x hx hf, k, hf, ne⟩
      cases he
    · rcases List.mem_append.1 hy with hy | hy
      · exact ((settled.same ⟨x, found key x hx hf, hf⟩).2 y hy).1
      · exact (plane y hy).keepsKeys

/-- The commands of a push of `mid`. -/
def PushCommand (mid : MsgId) : Cmd → Prop
  | .keyed (.watch _) => True
  | .keyed (.hgetKey _) => True
  | .keyed .getLastscore => True
  | .keyed (.exec _ tx) => tx.pushes = some mid
  | .keyed _ => False
  | _ => True

theorem pushTries_commands (now : ℤ) (tries : ℕ) :
    (KeyedQueue.pushTries key mid body order now tries).All (PushCommand mid) := by
  induction tries with
  | zero => trivial
  | succ tries ih =>
    refine .bind (.one trivial) fun w => .bind (.one trivial) fun existing => ?_
    cases existing with
    | some existing =>
      dsimp only
      split_ifs <;> trivial
    | none =>
      refine .bind ?_ fun score => .bind (.one rfl) fun committed => ?_
      · cases order with
        | none => exact .bind (.one trivial) fun _ => trivial
        | some s => trivial
      · split_ifs
        · trivial
        · exact ih

theorem push_commands (q : KeyedQueue) : (q.push key body mid order).All (PushCommand mid) := by
  refine .bind (.one trivial) fun now => .bind (pushTries_commands now 64) fun r => ?_
  cases r with
  | error e => trivial
  | ok u =>
    refine .bind ((q.onPlane_signal key).mono fun c h => ?_) fun _ => trivial
    cases c with
    | keyed => cases h
    | now | stream => trivial

/-- The commands that a call allows, where it pushes. -/
def KeyedCall.Allows (o : KeyedCall) (c : Cmd) : Prop :=
  match o.op with
  | .push _ _ mid _ => PushCommand mid c
  | _ => True

theorem KeyedCall.allows (o : KeyedCall) : o.code.All o.Allows := by
  obtain ⟨q, op⟩ := o
  cases op with
  | push => exact .bind (push_commands q) fun _ => trivial
  | _ => exact .of_forall (fun _ => trivial) _

/-- While its message is stored, no command of a push changes the keys. -/
theorem keepsKeys_next {P : KeyedPool} (hr : Pool.Reach (Pool.Meets Unrestricted) KeyedPool.start P)
    {q : KeyedQueue} {c : Cmd} {k : c.Reply → Script KeyedResult}
    (hp : P.actors p = .calling ⟨q, .push key body mid order⟩ (.op c k))
    (stored : (P.shared.keyed.origin mid).isSome) (i : Input) : KeepsKeys p ⟨c, i, P.shared⟩ := by
  have allowed : PushCommand mid c :=
    (Pool.Reach.calls KeyedCall.allows (fun p o x hp => by cases hp) hr p _ _ hp).1
  cases c with
  | now | stream => rfl
  | keyed c =>
    cases c with
    | watch | hgetKey | getLastscore => rfl
    | exec w tx =>
      cases hw : P.shared.keyed.unchanged w with
      | true =>
        have sound := (@sound_next (fun _ => True) _ _ fun _ _ _ => trivial) hr hp hw
        cases tx with
        | push key' m body' score now default =>
          cases allowed
          obtain ⟨order', -, -, -, fresh, -⟩ := sound
          exact absurd fresh (Keyspace.origin_isSome.1 stored)
        | _ => cases allowed
      | false => exact (keepsAll_failed hw).1
    | _ => cases allowed

end Push

/-- In every run, the first push of a message decides as long as the message is stored: no command of a later push of
it changes the keys, and a push that has its result has raised, found its message or given up with nothing
changed. -/
theorem push_idempotent {P : KeyedPool} {g : ℕ → List (Issued server)}
    (hr : Pool.Recorded (Pool.Meets Unrestricted) Pool.issued KeyedPool.start (fun _ => []) P g) :
    FirstDecides P.shared.keyed ∧ ∀ p q key body mid order,
      (∀ c k, P.actors p = .calling ⟨q, .push key body mid order⟩ (.op c k) →
        (P.shared.keyed.origin mid).isSome → ∀ i, KeepsKeys p ⟨c, i, P.shared⟩) ∧
      ∀ r, P.actors p = .calling ⟨q, .push key body mid order⟩ (.pure r) →
        ∃ r', r = .pushed r' ∧ PushSettled p key mid (g p) r' := by
  refine ⟨(decided hr.reach).toFirstDecides, fun p q key body mid order =>
    ⟨fun c k hp stored i => keepsKeys_next hr.reach hp stored i, fun r hp => ?_⟩⟩
  obtain ⟨σ, trace⟩ := hr.trace (fun p => ⟨_, rfl⟩) hp
  obtain ⟨t, t', r', σ', split, push, rest⟩ := Trace.bind_pure_inv trace
  obtain ⟨rfl, hr⟩ := rest.pure_inv
  cases hr
  rw [split, List.append_nil]
  exact ⟨r', rfl, push_settled q push⟩

namespace Scenario

/-- A message is pushed, and pushed again under another key. -/
def again : List (Act actors) := whole 0 push 8 ++ begin 0 (.push "other" message.body "a" none) 3

end Scenario

open Scenario in
theorem push_idempotent_witness : ∃ (P : KeyedPool) (g : ℕ → List (Issued server)) (what : String),
    FirstDecides P.shared.keyed ∧ PushSettled 0 "other" "a" (g 0) (.error (.valueError what)) := by
  have run : ∃ Pg ∈ KeyedPool.start.recordSolo 0 (fun _ _ => true) Pool.issued (fun _ => []) again,
      ∃ what, (Pg.1.actors 0).result = some (⟨queue, .push "other" message.body "a" none⟩,
        .pushed (.error (.valueError what))) := ⟨_, rfl, _, rfl⟩
  obtain ⟨⟨P, g⟩, hrun, what, result⟩ := run
  have free : ∀ {Q : KeyedPool} {a}, Pool.Meets Unrestricted Q a := by
    intro Q a
    cases a with
    | exec => exact fun _ _ _ _ => trivial
    | _ => trivial
  obtain ⟨first, pushes⟩ := push_idempotent (.of_solo (fun _ _ _ _ => free) (fun _ _ => ⟨_, rfl⟩) hrun)
  obtain ⟨r, hr, settled⟩ := (pushes 0 _ _ _ _ _).2 _ (Actor.result_eq_some.1 result)
  cases hr
  exact ⟨P, g, what, first, settled⟩

end NavigatorEventbus
