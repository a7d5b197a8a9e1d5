import NavigatorEventbus.Keyed.Fence

/-!
# Under a lock

What an actor may rely on while it holds the lock of a key (`Sheltered`), and what it may rely on in
any case (`Later`).  Both relate a state to a later one, across any number of commands of the other
actors and any commands of its own but fenced transactions.
-/

namespace NavigatorEventbus

open Interleave

/-- The stored hash is the same, except that a `release_hold` may have marked it pending. -/
def MsgHash.Kept (h h' : MsgHash) : Prop := h' = h ∨ h' = h.set { state := some .pending }

theorem KeyedMessage.deadline_pending {m : KeyedMessage} {ignoreDue : Bool} {now : ℤ}
    (h : m.deadline ignoreDue now = 0) :
    KeyedMessage.deadline { m with state := .pending } ignoreDue now = 0 := by
  simp only [deadline] at h ⊢
  split_ifs at h ⊢ with hw hd <;> simp_all
  omega

namespace MsgHash.Kept

variable {h h' h'' : MsgHash}

theorem refl (h : MsgHash) : h.Kept h := .inl rfl

theorem pending (h : MsgHash) : h.Kept (h.set { state := some .pending }) := .inr rfl

theorem trans (a : h.Kept h') (b : h'.Kept h'') : h.Kept h'' := by
  rcases a with rfl | rfl
  · exact b
  · rcases b with rfl | rfl
    · exact .pending h
    · exact .inr (by simp [set])

theorem key (a : h.Kept h') : h'.key = h.key := by
  rcases a with rfl | rfl
  · rfl
  · simp [set]

/-- The message is the same, and leasable whenever it was. -/
theorem message (a : h.Kept h') {mid : MsgId} {m : KeyedMessage} (hm : toMessage h mid = .ok m) :
    ∃ m', toMessage h' mid = .ok m' ∧ m.Same m' ∧
      ∀ ignoreDue now, m.deadline ignoreDue now = 0 → m'.deadline ignoreDue now = 0 := by
  rcases a with rfl | rfl
  · exact ⟨m, hm, ⟨rfl, rfl, rfl, rfl, rfl, rfl⟩, fun _ _ => id⟩
  · refine ⟨{ m with state := .pending }, ?_, ⟨rfl, rfl, rfl, rfl, rfl, rfl⟩,
      fun _ _ => KeyedMessage.deadline_pending⟩
    unfold toMessage at hm ⊢
    split at hm
    · cases hm
    · rename_i key hkey
      cases hm
      simp [set, hkey]

end MsgHash.Kept

/-- Nothing happened to `key` but what its lock does not prevent: a hold ends, a `release_hold` marks
a message pending, a message of another key comes or goes. -/
structure Sheltered (key : Key) (κ κ' : Keyspace) : Prop where
  held : ∀ x, κ'.held key = some x → κ.held key = some x
  kept : ∀ {m h}, κ.msg m = some h → h.key = some key → ∃ h', κ'.msg m = some h' ∧ h.Kept h'
  log : ∃ recent, κ'.log = recent ++ κ.log ∧
    ∀ x ∈ recent, ∀ m, (κ.msg m).bind MsgHash.key = some key → ¬ x.2.Breaks key m

namespace Sheltered

variable {key : Key} {κ κ' κ'' : Keyspace}

theorem refl (key : Key) (κ : Keyspace) : Sheltered key κ κ :=
  ⟨fun _ => id, fun {_ h} hm _ => ⟨h, hm, .refl h⟩, [], rfl, fun _ hx => absurd hx List.not_mem_nil⟩

theorem named (a : Sheltered key κ κ') {m : MsgId} (hm : (κ.msg m).bind MsgHash.key = some key) :
    (κ'.msg m).bind MsgHash.key = some key := by
  obtain ⟨h, hm, hk⟩ := Option.bind_eq_some_iff.1 hm
  obtain ⟨h', hm', kept⟩ := a.kept hm hk
  rw [hm', Option.bind_some, kept.key, hk]

theorem trans (a : Sheltered key κ κ') (b : Sheltered key κ' κ'') : Sheltered key κ κ'' := by
  refine ⟨fun x hx => a.held x (b.held x hx), fun {m h} hm hk => ?_, ?_⟩
  · obtain ⟨h', hm', kept⟩ := a.kept hm hk
    obtain ⟨h'', hm'', kept'⟩ := b.kept hm' (kept.key.trans hk)
    exact ⟨h'', hm'', kept.trans kept'⟩
  · obtain ⟨r, hr, clean⟩ := a.log
    obtain ⟨r', hr', clean'⟩ := b.log
    refine ⟨r' ++ r, by rw [hr', hr, List.append_assoc], fun x hx m hm => ?_⟩
    rcases List.mem_append.1 hx with hx | hx
    · exact clean' x hx m (a.named hm)
    · exact clean x hx m hm

/-- What happened last to a message of the key is still what happened last. -/
theorem since (a : Sheltered key κ κ') {p : ℕ} {e : Event} {m : MsgId}
    (h : History.Since p e (Event.Breaks key m) κ.log)
    (hm : (κ.msg m).bind MsgHash.key = some key) :
    History.Since p e (Event.Breaks key m) κ'.log := by
  obtain ⟨recent, hr, clean⟩ := a.log
  rw [hr]
  exact h.append fun x hx => clean x hx m hm

end Sheltered

/-- What actor `p` may rely on later, whatever the others do. -/
structure Later (p : ℕ) (σ σ' : Server) : Prop where
  now : σ.now ≤ σ'.now
  versioned : σ.keyed.Versioned σ'.keyed
  serial : σ.keyed.serial ≤ σ'.keyed.serial
  holds : ∀ {k τ}, τ.serial < σ.keyed.serial → σ'.keyed.Holds k τ → σ.keyed.Holds k τ
  sheltered : ∀ {k τ}, τ.owner = p → τ.serial < σ.keyed.serial → σ'.keyed.Holds k τ →
    Sheltered k σ.keyed σ'.keyed
  own : ∃ es, σ'.keyed.log.own p = es ++ σ.keyed.log.own p ∧ ∀ e ∈ es, ¬ e.IsFenced

namespace Later

variable {clock whole : Prop} {p q : ℕ} {σ σ' σ'' : Server}

theorem refl (p : ℕ) (σ : Server) : Later p σ σ :=
  ⟨Int.le_refl _, .refl _, Nat.le_refl _, fun _ => id, fun {k _} _ _ _ => .refl k _, [], rfl,
    fun _ he => absurd he List.not_mem_nil⟩

theorem trans (a : Later p σ σ') (b : Later p σ' σ'') : Later p σ σ'' := by
  refine ⟨a.now.trans b.now, a.versioned.trans b.versioned, a.serial.trans b.serial,
    fun hτ holds => a.holds hτ (b.holds (hτ.trans_le a.serial) holds), fun owner hτ holds => ?_, ?_⟩
  · have hτ' := hτ.trans_le a.serial
    exact (a.sheltered owner hτ (b.holds hτ' holds)).trans (b.sheltered owner hτ' holds)
  · obtain ⟨es, hes, unfenced⟩ := a.own
    obtain ⟨es', hes', unfenced'⟩ := b.own
    refine ⟨es' ++ es, by rw [hes', hes, List.append_assoc], fun e he => ?_⟩
    rcases List.mem_append.1 he with he | he
    · exact unfenced' e he
    · exact unfenced e he

/-- A state whose keyspace is the same. -/
theorem of_keyed (h : σ'.keyed = σ.keyed) (now : σ.now ≤ σ'.now) : Later p σ σ' := by
  refine ⟨now, ?_, ?_, ?_, ?_, ?_⟩ <;> rw [h]
  · exact .refl _
  · exact fun _ => id
  · exact fun {k _} _ _ _ => .refl k _
  · exact ⟨[], rfl, fun _ he => absurd he List.not_mem_nil⟩

end Later

/-- A transaction fenced under another lock is about another key, and another key's message. -/
theorem TxGuard.elsewhere {clock : Prop} {q : ℕ} {o : KeyedCall} {σ : Server} {tx : Tx} {key k : Key} {mid : MsgId}
    {lock τ : Token} (guard : TxGuard clock q o σ tx) (hf : tx.fence = some (key, mid, lock))
    (holds : σ.keyed.Holds k τ) (ne : τ.owner ≠ q) :
    key ≠ k ∧ ∀ h, σ.keyed.msg mid = some h → h.key ≠ some k := by
  obtain ⟨h₀, fenced⟩ := guard.fenced hf
  have hk : key ≠ k := by
    rintro rfl
    have same : τ = lock := Option.some.inj (holds.symm.trans fenced.holds)
    exact ne (same ▸ fenced.owner)
  refine ⟨hk, fun h hm hkey => hk ?_⟩
  rw [fenced.stored] at hm
  cases hm
  exact Option.some.inj (fenced.key.symm.trans hkey)

section Exec

variable {clock whole : Prop} {p q : ℕ} {σ : Server} {o : KeyedCall} {i : Input}

/-- The lock of a key keeps the transactions of others from its messages. -/
theorem Sheltered.commit {k : Key} {τ : Token} {tx : Tx} (guard : TxGuard clock q o σ tx)
    (holds : σ.keyed.Holds k τ) (foreign : ∀ f, tx.fence = some f → τ.owner ≠ q) :
    Sheltered k σ.keyed ((σ.keyed.commit tx).record q (.committed tx i.now)) := by
  have elsewhere : ∀ {key mid lock}, tx.fence = some (key, mid, lock) →
      key ≠ k ∧ ∀ h, σ.keyed.msg mid = some h → h.key ≠ some k :=
    fun hf => guard.elsewhere hf holds (foreign _ hf)
  have untouched : ∀ {m h}, σ.keyed.msg m = some h → h.key = some k →
      (σ.keyed.commit tx).msg m = σ.keyed.msg m := by
    intro m h hm hk
    rw [Keyspace.msg_commit]
    cases tx with
    | dropKey => rfl
    | push key mid body score now default =>
      have fresh : (σ.keyed.msg mid).bind MsgHash.key = none := guard
      refine if_neg ?_
      rintro rfl
      rw [hm, Option.bind_some, hk] at fresh
      cases fresh
    | lease | ack | retry | wait | hold | expire =>
      refine if_neg ?_
      rintro rfl
      exact (elsewhere rfl).2 h hm hk
  refine ⟨fun x hx => ?_, fun {m h} hm hk => ?_, [(q, .committed tx i.now)], ?_, fun x hx m hm => ?_⟩
  · have hx : (σ.keyed.commit tx).held k = some x := hx
    rw [Keyspace.held_commit] at hx
    cases tx with
    | dropKey | expire =>
      dsimp only at hx
      split_ifs at hx
      exact hx
    | hold key mid lock now reason =>
      dsimp only at hx
      rwa [if_neg (elsewhere rfl).1.symm] at hx
    | push | lease | ack | retry | wait => exact hx
  · exact ⟨h, (untouched hm hk).trans hm, .refl h⟩
  · exact congrArg _ (Keyspace.log_commit _ tx)
  · rw [List.mem_singleton.1 hx]
    rintro (hf | hp)
    · obtain ⟨⟨key, mid, lock⟩, hf, hk⟩ := Option.map_eq_some_iff.1 hf
      exact (elsewhere hf).1 hk
    · cases tx with
      | push key mid body score now default =>
        cases hp
        have fresh : (σ.keyed.msg m).bind MsgHash.key = none := guard
        rw [fresh] at hm
        cases hm
      | _ => cases hp

theorem Sheltered.write {k : Key} {κ : Keyspace} {w : Write} (loose : w.Loose) :
    Sheltered k κ ((κ.write w).2.record q (.wrote w)) := by
  refine ⟨fun x hx => ?_, fun {m h} hm _ => ?_, [(q, .wrote w)], ?_, fun x hx m _ => ?_⟩
  · have hx : (κ.write w).2.held k = some x := hx
    rw [Keyspace.held_write] at hx
    cases w with
    | hdelHeld k' =>
      dsimp only at hx
      split_ifs at hx
      exact hx
    | hsetHeld => cases loose
    | _ => exact hx
  · have eq := κ.msg_write w m
    cases w with
    | hsetMsg m' f =>
      cases loose
      dsimp only at eq
      split_ifs at eq
      · rw [hm] at eq
        exact ⟨_, eq, .pending h⟩
      · exact ⟨h, eq.trans hm, .refl h⟩
    | deleteMsg => cases loose
    | _ => exact ⟨h, eq.trans hm, .refl h⟩
  · exact congrArg _ (Keyspace.log_write _ w)
  · rw [List.mem_singleton.1 hx]
    exact fun h => h

/-- A command that leaves messages and holds alone, and commits nothing. -/
theorem Sheltered.of_data {k : Key} {κ κ' : Keyspace} (msg : κ'.msg = κ.msg) (held : κ'.held = κ.held)
    {recent : History Event} (log : κ'.log = recent ++ κ.log)
    (quiet : ∀ x ∈ recent, ∀ k m, ¬ x.2.Breaks k m) : Sheltered k κ κ' :=
  ⟨fun x hx => held ▸ hx, fun {m h} hm _ => ⟨h, by rw [msg, hm], .refl h⟩, recent, log,
    fun x hx m _ => quiet x hx k m⟩

theorem eventOf_quiet {κ : Keyspace} {c : KeyedCmd} (hc : ∀ w tx, c ≠ .exec w tx) {e : Event}
    (he : κ.eventOf q i c = some e) : (∀ k m, ¬ e.Breaks k m) ∧ ¬ e.IsFenced := by
  cases c with
  | exec w tx => exact absurd rfl (hc w tx)
  | acquire | hgetHeld =>
    simp only [Keyspace.eventOf] at he
    split_ifs at he <;> cases he <;> exact ⟨fun _ _ h => h, fun h => h⟩
  | write | zrangeHead | onDlq | logDropped =>
    cases he
    exact ⟨fun _ _ h => h, fun h => h⟩
  | _ => cases he

/-- What a command of `q` adds to the events of `p`. -/
theorem own_exec {c : Cmd} : (σ.exec q c i).2.keyed.log.own p =
    match c with
    | .keyed c => if q = p then (σ.keyed.eventOf q i c).toList ++ σ.keyed.log.own p
      else σ.keyed.log.own p
    | _ => σ.keyed.log.own p := by
  cases c with
  | now | stream => rfl
  | keyed c =>
    simp only [Server.exec, Keyspace.log_exec, History.own_append]
    cases σ.keyed.eventOf q i c with
    | none => simp
    | some e =>
      by_cases hq : q = p
      · subst hq
        simp
      · simp [hq]

/-- The commands of others, and all commands but fenced transactions, leave what `p` relies on. -/
theorem Later.of_exec {c : Cmd} (guard : FenceGuard clock q o c σ)
    (foreign : ∀ w tx f, c = .keyed (.exec w tx) → tx.fence = some f → σ.keyed.unchanged w = true →
      q ≠ p) :
    Later p σ (σ.exec q c i).2 := by
  cases c with
  | now | stream => exact .of_keyed rfl (Int.le_refl _)
  | keyed c =>
    have holds : ∀ {k τ}, τ.serial < σ.keyed.serial →
        (σ.keyed.exec q σ.now i c).2.Holds k τ → σ.keyed.Holds k τ := by
      intro k τ hτ hk
      rcases Keyspace.holds_of_exec _ _ _ _ hk with hk | ⟨rfl, -⟩
      · exact hk
      · exact absurd hτ (Nat.lt_irrefl _)
    refine ⟨Int.le_refl _, Keyspace.versioned_exec q σ.now i c, ?_, holds,
      fun {k τ} owner hτ hk => ?_, ?_⟩
    · simp only [Server.exec, Keyspace.serial_exec]
      cases c with
      | acquire =>
        dsimp only
        split_ifs <;> omega
      | _ => exact Nat.le_refl _
    · have before : σ.keyed.Holds k τ := holds hτ hk
      by_cases hc : ∀ w tx, c ≠ .exec w tx
      · cases c with
        | write w => exact .write guard.1
        | exec w tx => exact absurd rfl (hc w tx)
        | _ =>
          refine .of_data (Keyspace.msg_exec ..) (Keyspace.held_exec ..) (Keyspace.log_exec ..) ?_
          intro x hx
          simp only [Option.mem_toList, Option.map_eq_some_iff] at hx
          obtain ⟨e, he, rfl⟩ := hx
          exact (eventOf_quiet hc he).1
      · push Not at hc
        obtain ⟨w, tx, rfl⟩ := hc
        simp only [Server.exec, Keyspace.exec]
        split_ifs with hw
        · exact .commit (guard hw) before fun f hf => owner ▸ (foreign w tx f rfl hf hw).symm
        · have log : (σ.keyed.record q (.aborted tx)).log = [(q, .aborted tx)] ++ σ.keyed.log := rfl
          refine .of_data rfl rfl log fun x hx => ?_
          rw [List.mem_singleton.1 hx]
          exact fun _ _ h => h
    · rw [own_exec]
      dsimp only
      split_ifs with hq
      · refine ⟨_, rfl, fun e he => ?_⟩
        rw [Option.mem_toList] at he
        by_cases hc : ∀ w tx, c ≠ .exec w tx
        · exact (eventOf_quiet hc he).2
        · push Not at hc
          obtain ⟨w, tx, rfl⟩ := hc
          simp only [Keyspace.eventOf] at he
          cases he
          split_ifs with hw
          · intro hf
            obtain ⟨f, hf⟩ := Option.isSome_iff_exists.1 hf
            exact foreign w tx f rfl hf hw hq
          · exact fun h => h
      · exact ⟨[], rfl, fun _ he => absurd he List.not_mem_nil⟩

theorem Later.of_disturb (d : Disturbance) : Later p σ (σ.disturb d) := by
  cases d with
  | lapse k =>
    simp only [Server.disturb, Keyspace.lapse]
    split_ifs
    · refine ⟨Int.le_refl _, Keyspace.versioned_lock, Nat.le_refl _, fun {k' τ} _ hk => ?_,
        fun {k' τ} _ _ _ => .of_data rfl rfl rfl fun x hx => absurd hx List.not_mem_nil, [], rfl,
        fun _ he => absurd he List.not_mem_nil⟩
      by_cases hkk : k' = k
      · subst hkk
        simp [Keyspace.Holds, Keyspace.touch] at hk
      · simpa [Keyspace.Holds, Keyspace.touch, hkk] using hk
    · exact .refl p σ
  | advance ms =>
    refine .of_keyed rfl ?_
    simp only [Server.disturb]
    omega
  | _ => exact .of_keyed rfl (Int.le_refl _)

end Exec

/-! ## The contract -/

end NavigatorEventbus
