import NavigatorEventbus.Keyed.Silent

/-!
# Every operation keeps the fence

The operations of a keyed queue are safe for the contract `fence`, one lemma for each.  What a lock
holder establishes is stated as `Mine`: true as long as its token is the value of the lock.
-/

namespace NavigatorEventbus

open Interleave

/-! ## Assertions -/

/-- `lock` is a token of `p`, and `A` holds as long as it is the value of the lock of `key`. -/
structure Mine (p : ℕ) (key : Key) (lock : Token) (A : Keyspace → Prop) (σ : Server) : Prop where
  owner : lock.owner = p
  issued : lock.serial < σ.keyed.serial
  holding : σ.keyed.Holds key lock → A σ.keyed

/-- What a lease says of its message: it was leased, and has the lease's generation. -/
def LeaseStands (p : ℕ) (lease : KeyedLease) (κ : Keyspace) : Prop :=
  LeasedBy p lease.key lease.message.messageId lease.lock κ.log ∧
    ∃ h m, κ.msg lease.message.messageId = some h ∧
      toMessage h lease.message.messageId = .ok m ∧ m.key = lease.key ∧ m.gen = lease.gen

/-- What an actor with a lease may rely on. -/
def Leased (p : ℕ) (lease : KeyedLease) (σ : Server) : Prop :=
  Mine p lease.key lease.lock (LeaseStands p lease) σ

/-- The assertion of a phase. -/
def KeyedPhase.Stands (p : ℕ) (φ : KeyedPhase) (σ : Server) : Prop :=
  match φ with
  | .idle => True
  | .holding lease => Leased p lease σ

/-- The contract of the actors on a keyed queue. -/
abbrev fence (clock whole : Prop) : Contract actors where
  Inv := FenceInv whole
  Ok _ := FenceOk clock whole
  Guard p o c _ σ := FenceGuard clock p o c σ
  Post p o r σ := (o.phase r).Stands p σ
  inv_exec := FenceInv.exec
  inv_note inv _ := inv
  inv_disturb d inv := inv.disturb d

section Stable

variable {clock whole : Prop} {p : ℕ} {σ σ' : Server}

theorem Later.of_rely (h : (fence clock whole).Rely p σ σ') : Later p σ σ' := by
  refine Contract.Rely.le (fence clock whole) (Later.refl p) Later.trans (fun {σ σ'} hO => ?_) h
  cases hO with
  | exec ne inv ok guard => exact .of_exec guard fun _ _ _ _ _ _ => ne
  | note ne inv post => exact .refl p σ
  | disturb d inv => exact .of_disturb d

/-- An assertion that survives the commands of others and the unfenced ones of its own actor. -/
structure Stable (p : ℕ) (A : Server → Prop) : Prop where
  keeps : ∀ {σ σ'}, Later p σ σ' → A σ → A σ'

theorem Stable.and {A B : Server → Prop} (a : Stable p A) (b : Stable p B) :
    Stable p fun σ => A σ ∧ B σ :=
  ⟨fun h hab => ⟨a.keeps h hab.1, b.keeps h hab.2⟩⟩

theorem Stable.const (P : Prop) : Stable p fun _ => P := ⟨fun _ => id⟩

theorem Stable.rely {A : Server → Prop} (stable : Stable p A) :
    ∀ {σ σ'}, (fence clock whole).Rely p σ σ' → A σ → A σ' :=
  fun h => stable.keeps (.of_rely h)

theorem Mine.stable {key : Key} {lock : Token} {A : Keyspace → Prop}
    (sheltered : ∀ {κ κ'}, Sheltered key κ κ' → A κ → A κ') : Stable p (Mine p key lock A) :=
  ⟨fun later h => ⟨h.owner, h.issued.trans_le later.serial, fun holds =>
    sheltered (later.sheltered h.owner h.issued holds) (h.holding (later.holds h.issued holds))⟩⟩

theorem Leased.stable (lease : KeyedLease) : Stable p (Leased p lease) := by
  refine Mine.stable fun {κ κ'} s ⟨⟨gen, ignoreDue, now, t, since⟩, h, m, hm, hmsg, key, hgen⟩ => ?_
  have hk : h.key = some lease.key := key ▸ toMessage_key hmsg
  obtain ⟨h', hm', kept⟩ := s.kept hm hk
  obtain ⟨m', hmsg', same, -⟩ := kept.message hmsg
  refine ⟨⟨gen, ignoreDue, now, t, s.since since ?_⟩, h', m', hm', hmsg', ?_, ?_⟩
  · rw [hm, Option.bind_some, hk]
  · exact same.2.1.symm.trans key
  · exact same.2.2.2.2.2.symm.trans hgen

theorem KeyedPhase.stands_stable (φ : KeyedPhase) : Stable p fun σ => φ.Stands p σ := by
  cases φ with
  | idle => exact .const True
  | holding lease => exact Leased.stable lease

/-- A lock that is gone for good. -/
theorem Mine.of_gone {key : Key} {lock : Token} {A : Keyspace → Prop} (owner : lock.owner = p)
    (issued : lock.serial < σ.keyed.serial) (gone : ¬ σ.keyed.Holds key lock) : Mine p key lock A σ :=
  ⟨owner, issued, fun holds => absurd holds gone⟩

end Stable

/-! ## What a transaction watches -/

/-- The snapshot `w` is of this state or an earlier one, and `B` holds if nothing in it changed. -/
structure Seen (w : Watch) (B : Keyspace → Prop) (σ : Server) : Prop where
  le : ∀ e ∈ w, e.2 ≤ σ.keyed.ver e.1
  same : σ.keyed.unchanged w = true → B σ.keyed

namespace Seen

variable {w : Watch} {B B' : Keyspace → Prop} {p : ℕ} {σ : Server}

theorem stable (keeps : ∀ {σ σ' : Server}, Later p σ σ' → (∀ e ∈ w, σ.keyed.SameAt σ'.keyed e.1) →
    σ'.keyed.unchanged w = true → B σ.keyed → B σ'.keyed) : Stable p (Seen w B) :=
  ⟨fun later seen => ⟨fun e he => (seen.le e he).trans (later.versioned e.1).1, fun unchanged =>
    keeps later (fun _ he => later.versioned.same seen.le unchanged he) unchanged
      (seen.same (later.versioned.unchanged seen.le unchanged))⟩⟩

theorem true_stable : Stable p (Seen w fun _ => True) := stable fun _ _ _ => id

theorem imp (seen : Seen w B σ) (h : σ.keyed.unchanged w = true → B σ.keyed → B' σ.keyed) :
    Seen w B' σ :=
  ⟨seen.le, fun unchanged => h unchanged (seen.same unchanged)⟩

theorem of_watch (p : ℕ) (σ : Server) (rs : List RedisKey) (i : Input) :
    Seen (σ.exec p (.keyed (.watch rs)) i).1 (fun _ => True) (σ.exec p (.keyed (.watch rs)) i).2 := by
  refine ⟨fun e he => ?_, fun _ => trivial⟩
  obtain ⟨r, -, rfl⟩ := List.mem_map.1 he
  exact Nat.le_refl _

end Seen

/-! ## Steps -/

section Steps

variable {clock whole : Prop} {p : ℕ} {o : KeyedCall} {α β : Type} {A : Server → Prop}
  {Q : β → Server → Prop} {σ : Server}

theorem Silent.guard {c : Cmd} (h : Silent c) : FenceGuard clock p o c σ := by
  cases c with
  | now | stream => trivial
  | keyed c =>
    cases c with
    | exec => cases h
    | write w =>
      cases w with
      | hsetMsg => cases h
      | _ =>
        refine ⟨h, fun m f hw => ?_⟩
        cases hw
    | _ => trivial

theorem Silent.later (o : KeyedCall) {c : Cmd} (h : Silent c) (i : Input) :
    Later p σ (σ.exec p c i).2 := by
  have guard : FenceGuard True p o c σ := h.guard
  refine .of_exec guard fun w tx f hc => ?_
  rw [hc] at h
  cases h

theorem Later.of_unfenced {w : Watch} {tx : Tx} (hf : tx.fence = none)
    (guard : FenceGuard clock p o (.keyed (.exec w tx)) σ) (i : Input) :
    Later p σ (σ.exec p (.keyed (.exec w tx)) i).2 := by
  refine .of_exec guard fun w' tx' f hc hf' _ => ?_
  cases hc
  rw [hf] at hf'
  cases hf'

/-- A command on the keys of the queue, with the rest of the program after it. -/
theorem safe_keyed (stable : Stable p A) {c : KeyedCmd} {f : c.Reply → Script β} (hA : A σ)
    (guard : ∀ {i σ}, FenceOk clock whole o (.keyed c) i σ → A σ → FenceGuard clock p o (.keyed c) σ)
    (rest : ∀ σ' i, FenceInv whole σ' → A σ' →
      (fence clock whole).Safe p o (f (σ'.exec p (.keyed c) i).1) Q (σ'.exec p (.keyed c) i).2) :
    (fence clock whole).Safe p o (Script.keyed c >>= f) Q σ :=
  Contract.Safe.step (c := Cmd.keyed c) stable.rely hA fun σ' i inv ok hA' =>
    ⟨guard ok hA', rest σ' i inv hA'⟩

/-- A silent command with the rest of the program after it. -/
theorem safe_read (stable : Stable p A) {c : KeyedCmd} {f : c.Reply → Script β}
    (hc : Silent (.keyed c)) (hA : A σ)
    (rest : ∀ σ' i, FenceInv whole σ' → A σ' → A (σ'.exec p (.keyed c) i).2 →
      (fence clock whole).Safe p o (f (σ'.exec p (.keyed c) i).1) Q (σ'.exec p (.keyed c) i).2) :
    (fence clock whole).Safe p o (Script.keyed c >>= f) Q σ :=
  safe_keyed stable hA (fun _ _ => hc.guard) fun σ' i inv hA' =>
    rest σ' i inv hA' (stable.keeps (hc.later o i) hA')

/-- A reading of the clock with the rest of the program after it. -/
theorem safe_now (stable : Stable p A) {f : ℤ → Script β} (hA : A σ)
    (rest : ∀ (i : Input) σ', (clock → 0 ≤ i.now ∧ i.now = σ'.now) → A σ' →
      (fence clock whole).Safe p o (f i.now) Q σ') :
    (fence clock whole).Safe p o (Script.now >>= f) Q σ := by
  refine Contract.Safe.step (c := Cmd.now) stable.rely hA fun σ' i inv ok hA' => ?_
  exact ⟨trivial, rest i σ' (fun hc => ⟨ok.clock hc ▸ inv.now, ok.clock hc⟩) hA'⟩

/-- A silent program with the rest of the program after it. -/
theorem safe_silent (stable : Stable p A) {x : Script α} {f : α → Script β} (hx : x.All Silent)
    (hA : A σ) (rest : ∀ a σ', A σ' → (fence clock whole).Safe p o (f a) Q σ') :
    (fence clock whole).Safe p o (x >>= f) Q σ :=
  .bind <| .mono (.of_all stable.rely (fun hc _ _ _ => hc.guard)
    (fun hc _ _ hA => stable.keeps (hc.later o _) hA) hx hA) fun a σ' _ hA' => rest a σ' hA'

theorem safe_ret (stable : Stable p A) {b : β} (hA : A σ) (post : ∀ σ', A σ' → Q b σ') :
    (fence clock whole).Safe p o (pure b) Q σ :=
  .ret stable.rely hA fun σ' _ => post σ'

theorem safe_bind {B : α → Server → Prop} {x : Script α} {f : α → Script β}
    (hx : (fence clock whole).Safe p o x B σ)
    (rest : ∀ a σ', FenceInv whole σ' → B a σ' → (fence clock whole).Safe p o (f a) Q σ') :
    (fence clock whole).Safe p o (x >>= f) Q σ :=
  .bind (hx.mono fun a σ' inv hB => rest a σ' inv hB)

end Steps

/-! ## Unfenced operations -/

/-- A program that keeps whatever its actor relies on. -/
structure Neutral (clock whole : Prop) (p : ℕ) (o : KeyedCall) {α : Type} (x : Script α) : Prop where
  safe : ∀ {A : Server → Prop} {σ : Server}, Stable p A → A σ →
    (fence clock whole).Safe p o x (fun _ => A) σ

section Unfenced

variable {clock whole : Prop} {p : ℕ} {o : KeyedCall} {α β : Type}

namespace Neutral

theorem ret (a : α) : Neutral clock whole p o (pure a : Script α) :=
  ⟨fun stable hA => safe_ret stable hA fun _ => id⟩

theorem bind {x : Script α} {f : α → Script β} (hx : Neutral clock whole p o x)
    (hf : ∀ a, Neutral clock whole p o (f a)) : Neutral clock whole p o (x >>= f) :=
  ⟨fun stable hA => safe_bind (hx.safe stable hA) fun a _ _ => (hf a).safe stable⟩

theorem silent {x : Script α} (hx : x.All Silent) : Neutral clock whole p o x :=
  ⟨fun stable hA => .of_all stable.rely (fun hc _ _ _ => hc.guard)
    (fun hc _ _ hA => stable.keeps (hc.later o _) hA) hx hA⟩

theorem onPlane {x : Script α} (hx : x.All OnPlane) : Neutral clock whole p o x :=
  silent (hx.mono fun _ => OnPlane.silent)

theorem read {c : KeyedCmd} (hc : Silent (.keyed c)) : Neutral clock whole p o (Script.keyed c) :=
  silent (.one hc)

end Neutral

namespace KeyedQueue

variable (q : KeyedQueue)

theorem neutral_dropKeyIfEmpty (key : Key) (tries : ℕ) :
    Neutral clock whole p o (dropKeyIfEmpty key tries) := by
  refine ⟨fun {A σ} stable hA => ?_⟩
  induction tries generalizing σ with
  | zero => exact safe_ret stable hA fun _ => id
  | succ tries ih =>
    refine safe_read stable trivial hA fun σ₁ i₁ _ _ hA => ?_
    have seen := Seen.of_watch p σ₁ [.key key] i₁
    generalize hw : (σ₁.exec p (.keyed (.watch [.key key])) i₁).1 = w at seen
    refine safe_read (stable.and Seen.true_stable) trivial ⟨hA, seen⟩
      fun σ₂ i₂ _ before after => ?_
    obtain ⟨-, seen⟩ := before
    obtain ⟨hA, -⟩ := after
    split_ifs with hn
    · exact safe_ret stable hA fun _ => id
    · have members : w.map Prod.fst = [.key key] := by rw [← hw]; rfl
      have empty : ∀ m, σ₂.keyed.scoreOf key m = none := by
        intro m
        rw [Keyspace.scoreOf_eq_none_iff]
        exact fun hm => hn (SortedSet.card_pos_iff.2 ⟨m, hm⟩)
      have seen' : Seen w (fun κ => ∀ m, κ.scoreOf key m = none) σ₂ := seen.imp fun _ _ => empty
      have stable' : Stable p (Seen w fun κ => ∀ m, κ.scoreOf key m = none) := by
        refine Seen.stable fun _ same _ none m => ?_
        obtain ⟨e, he, hk⟩ := List.mem_map.1 (members ▸ List.mem_singleton_self (RedisKey.key key))
        have := same e he
        rw [hk] at this
        rw [Keyspace.scoreOf, this]
        exact none m
      refine safe_keyed (stable.and stable') ⟨hA, seen'⟩ (fun _ h unchanged => h.2.same unchanged)
        fun σ₃ i₃ _ after => ?_
      obtain ⟨hA, seen⟩ := after
      have guard : FenceGuard clock p o (.keyed (.exec w (.dropKey key))) σ₃ := seen.same
      have hA := stable.keeps (.of_unfenced rfl guard i₃) hA
      split_ifs
      · exact safe_ret stable hA fun _ => id
      · exact ih hA

theorem neutral_reconcile (key : Key) : Neutral clock whole p o (q.reconcile key) := by
  have signal : Neutral clock whole p o (q.signal key) := .onPlane (q.onPlane_signal key)
  refine .bind (.read trivial) fun head => ?_
  cases head with
  | none => exact .bind (neutral_dropKeyIfEmpty key 2) fun _ => .ret _
  | some mid =>
    refine .bind (.read trivial) fun raw => ?_
    cases raw with
    | none => exact .bind signal fun _ => .ret _
    | some raw =>
      refine .bind (.read trivial) fun held => ?_
      split_ifs
      · exact .bind (.read trivial) fun _ => .ret _
      · exact .silent (q.silent_reconcileHead key mid raw)

theorem neutral_pushTries (key : Key) (mid : MsgId) (body : Body) (order : Option ℚ) (now : ℤ)
    (tries : ℕ) : Neutral clock whole p o (pushTries key mid body order now tries) := by
  refine ⟨fun {A σ} stable hA => ?_⟩
  induction tries generalizing σ with
  | zero => exact safe_ret stable hA fun _ => id
  | succ tries ih =>
    refine safe_read stable trivial hA fun σ₁ i₁ _ _ hA => ?_
    generalize hrs : (RedisKey.msg mid :: if order.isNone then [.lastscore] else []) = rs
    have seen := Seen.of_watch p σ₁ rs i₁
    generalize hw : (σ₁.exec p (.keyed (.watch rs)) i₁).1 = w at seen
    refine safe_read (stable.and Seen.true_stable) trivial ⟨hA, seen⟩
      fun σ₂ i₂ _ ⟨_, seen⟩ ⟨hA, _⟩ => ?_
    cases hkey : (σ₂.exec p (.keyed (.hgetKey mid)) i₂).1 with
    | some existing =>
      dsimp only
      split_ifs <;> exact safe_ret stable hA fun _ => id
    | none =>
      have seen' : Seen w (fun κ => (κ.msg mid).bind MsgHash.key = none) σ₂ :=
        seen.imp fun _ _ => hkey
      have stable' : Stable p (Seen w fun κ => (κ.msg mid).bind MsgHash.key = none) := by
        refine Seen.stable fun _ same _ none => ?_
        have he : ∃ e ∈ w, e.1 = .msg mid := by
          rw [← hw, ← hrs]
          exact ⟨_, List.mem_cons_self .., rfl⟩
        obtain ⟨e, he, hk⟩ := he
        have := same e he
        rw [hk] at this
        rw [this]
        exact none
      refine safe_silent (stable.and stable') ?_ ⟨hA, seen'⟩ fun score σ₃ h => ?_
      · unfold pushScore
        split
        · trivial
        · refine .bind (.one trivial) fun last => ?_
          cases last <;> trivial
      · refine safe_keyed (stable.and stable') h (fun _ h unchanged => h.2.same unchanged)
          fun σ₄ i₄ _ ⟨hA, seen⟩ => ?_
        have guard : FenceGuard clock p o
          (.keyed (.exec w (.push key mid body score now order.isNone))) σ₄ := seen.same
        have hA := stable.keeps (.of_unfenced rfl guard i₄) hA
        split_ifs
        · exact safe_ret stable hA fun _ => id
        · exact ih hA

theorem neutral_push (key : Key) (body : Body) (mid : MsgId) (order : Option ℚ) :
    Neutral clock whole p o (q.push key body mid order) := by
  refine .bind (.silent (.one trivial)) fun now => .bind (neutral_pushTries ..) fun r => ?_
  cases r with
  | error e => exact .ret _
  | ok _ => exact .bind (.onPlane (q.onPlane_signal key)) fun _ => .ret _

theorem neutral_recoverOrphans (flags : List (Key × Bool)) (sent : ℕ) :
    Neutral clock whole p o (q.recoverOrphans flags sent) := by
  induction flags generalizing sent with
  | nil => exact .ret _
  | cons x flags ih =>
    obtain ⟨name, live⟩ := x
    cases live with
    | true => exact ih sent
    | false =>
      refine .bind (q.neutral_reconcile name) fun r => ?_
      match r with
      | .error e => exact .ret _
      | .ok true => exact ih _
      | .ok false => exact ih _

theorem neutral_recoverChunks (chunks : List (List Key)) (sent : ℕ) :
    Neutral clock whole p o (q.recoverChunks chunks sent) := by
  induction chunks generalizing sent with
  | nil => exact .ret _
  | cons chunk chunks ih =>
    refine .bind (.silent (.one trivial)) fun now => .bind (.silent (silent_recoverFlags ..))
      fun flags => .bind (q.neutral_recoverOrphans flags sent) fun r => ?_
    cases r with
    | error e => exact .ret _
    | ok sent => exact ih sent

theorem neutral_sweep (fuel : ℕ) : Neutral clock whole p o (q.sweep fuel) :=
  .bind (.silent (silent_scanKeys ..)) fun _ => q.neutral_recoverChunks ..

theorem neutral_recover (force : Bool) (fuel : ℕ) :
    Neutral clock whole p o (q.recover force fuel) := by
  refine .bind (.silent (.one trivial)) fun paused => ?_
  split_ifs
  · exact .ret _
  all_goals
    refine .bind (.onPlane q.onPlane_hasBacklog) fun backlog => ?_
    split_ifs
  · exact .ret _
  · exact q.neutral_sweep fuel
  · exact .ret _
  · refine .bind (.silent (.one trivial)) fun set => ?_
    split_ifs
    · exact q.neutral_sweep fuel
    · exact .ret _

theorem neutral_releaseHold (releases : o.Releases) (key : Key) :
    Neutral clock whole p o (q.releaseHold key) := by
  have signal : Neutral clock whole p o (q.signal key) := .onPlane (q.onPlane_signal key)
  refine .bind (.read trivial) fun n => ?_
  split_ifs
  · exact .ret _
  · refine .bind (.read trivial) fun head => ?_
    cases head with
    | none => exact .bind signal fun _ => .ret _
    | some mid =>
      refine .bind (.read trivial) fun present => ?_
      split_ifs
      · refine .bind ?_ fun _ => .bind signal fun _ => .ret _
        refine ⟨fun {A σ} stable hA => ?_⟩
        have guard : ∀ σ, FenceGuard clock p o
            (.keyed (.write (.hsetMsg mid { state := some .pending }))) σ :=
          fun σ => ⟨rfl, fun _ _ _ => releases⟩
        refine Contract.Safe.step stable.rely hA fun σ' i _ _ hA => ⟨guard σ', ?_⟩
        refine safe_ret stable (stable.keeps (.of_exec (guard σ') ?_) hA) fun _ => id
        intro w tx f hc
        cases hc
      · exact .bind signal fun _ => .ret _

end KeyedQueue

end Unfenced

/-! ## Fenced operations -/

section Fenced

variable {clock whole : Prop} {p : ℕ} {o : KeyedCall} {A : Server → Prop} {σ : Server}

/-- The snapshot `w` was taken for a fence that has been checked: the lock is held and the message
stored as `raw`, if nothing in it changed. -/
abbrev Checked (key : Key) (mid : MsgId) (lock : Token) (raw : MsgHash) (w : Watch) :
    Server → Prop :=
  Seen w fun κ => κ.Holds key lock ∧ κ.msg mid = some raw

/-- The keys of a fence. -/
def FenceKeys (key : Key) (mid : MsgId) (w : Watch) : Prop :=
  w.map Prod.fst = [.lock key, .msg mid]

theorem FenceKeys.lock {key : Key} {mid : MsgId} {w : Watch} (h : FenceKeys key mid w) {κ κ' : Keyspace}
    (same : ∀ e ∈ w, κ.SameAt κ' e.1) : κ'.lock key = κ.lock key := by
  have hm : RedisKey.lock key ∈ w.map Prod.fst := by rw [h]; simp
  obtain ⟨e, he, hk⟩ := List.mem_map.1 hm
  have := same e he
  rwa [hk] at this

theorem FenceKeys.holds {key : Key} {mid : MsgId} {w : Watch} (h : FenceKeys key mid w)
    {κ κ' : Keyspace} (same : ∀ e ∈ w, κ.SameAt κ' e.1) {lock : Token} (holds : κ.Holds key lock) :
    κ'.Holds key lock := by
  unfold Keyspace.Holds
  rw [h.lock same]
  exact holds

theorem FenceKeys.msg {key : Key} {mid : MsgId} {w : Watch} (h : FenceKeys key mid w) {κ κ' : Keyspace}
    (same : ∀ e ∈ w, κ.SameAt κ' e.1) : κ'.msg mid = κ.msg mid := by
  have hm : RedisKey.msg mid ∈ w.map Prod.fst := by rw [h]; simp
  obtain ⟨e, he, hk⟩ := List.mem_map.1 hm
  have := same e he
  rwa [hk] at this

theorem FenceKeys.holds_stable {key : Key} {mid : MsgId} {lock : Token} {w : Watch}
    (h : FenceKeys key mid w) : Stable p (Seen w fun κ => κ.Holds key lock) :=
  Seen.stable fun _ same _ => h.holds same

theorem Checked.stable {key : Key} {mid : MsgId} (lock : Token) (raw : MsgHash) {w : Watch}
    (h : FenceKeys key mid w) : Stable p (Checked key mid lock raw w) :=
  Seen.stable fun _ same _ ⟨holds, stored⟩ => ⟨h.holds same holds, (h.msg same).trans stored⟩

namespace KeyedQueue

variable (q : KeyedQueue)

/-- What a fence that was passed has checked. -/
structure Passed (lock : Token) (key : Key) (mid : MsgId) (gen : Option ℕ) (createdMs : Option ℤ)
    (w : Watch) (current : KeyedMessage) (raw : MsgHash) (σ : Server) : Prop where
  keys : FenceKeys key mid w
  checked : Checked key mid lock raw w σ
  message : toMessage raw mid = .ok current
  gen : ∀ g ∈ gen, current.gen = g
  created : ∀ c ∈ createdMs, current.createdMs = c

theorem checkFence_ok {mid : MsgId} {gen : Option ℕ} {createdMs : Option ℤ} {w w' : Watch}
    {raw : MsgHash} {current : KeyedMessage}
    (h : checkFence mid gen createdMs w raw = .ok (w', current)) :
    w' = w ∧ toMessage raw mid = .ok current ∧ (∀ g ∈ gen, current.gen = g) ∧
      ∀ c ∈ createdMs, current.createdMs = c := by
  unfold checkFence at h
  split at h
  · cases h
  · rename_i current' hm
    split_ifs at h with hg hc
    cases h
    refine ⟨rfl, hm, ?_, ?_⟩
    · intro g hg'
      cases hg'
      simp only [Option.any_some, decide_eq_true_eq, ne_eq, not_not] at hg
      exact hg.symm
    · intro c hc'
      cases hc'
      simp only [Option.any_some, decide_eq_true_eq, ne_eq, not_not] at hc
      exact hc.symm

theorem safe_verifyFence (stable : Stable p A) (lock : Token) (key : Key) (mid : MsgId)
    (gen : Option ℕ) (createdMs : Option ℤ) (hA : A σ) :
    (fence clock whole).Safe p o (verifyFence lock key mid gen createdMs)
      (fun r σ => A σ ∧ ∀ w current, r = .ok (w, current) →
        ∃ raw, Passed lock key mid gen createdMs w current raw σ) σ := by
  refine safe_read stable trivial hA fun σ₁ i₁ _ _ hA => ?_
  have seen := Seen.of_watch p σ₁ [.lock key, .msg mid] i₁
  have keys : FenceKeys key mid (σ₁.exec p (.keyed (.watch [.lock key, .msg mid])) i₁).1 := rfl
  generalize (σ₁.exec p (.keyed (.watch [.lock key, .msg mid])) i₁).1 = w at seen keys
  refine safe_read (stable.and Seen.true_stable) trivial ⟨hA, seen⟩
    fun σ₂ i₂ _ ⟨_, seen⟩ ⟨hA, _⟩ => ?_
  split_ifs with hlock
  · exact safe_ret stable hA fun _ hA => ⟨hA, nofun⟩
  · have holds : σ₂.keyed.Holds key lock := not_not.1 hlock
    have seen : Seen w (fun κ => κ.Holds key lock) σ₂ := seen.imp fun _ _ => holds
    refine safe_read (stable.and (keys.holds_stable)) trivial ⟨hA, seen⟩
      fun σ₃ i₃ _ ⟨_, seen⟩ ⟨hA, _⟩ => ?_
    cases hraw : (σ₃.exec p (.keyed (.hgetall mid)) i₃).1 with
    | none => exact safe_ret stable hA fun _ hA => ⟨hA, nofun⟩
    | some raw =>
      have checked : Checked key mid lock raw w σ₃ := seen.imp fun _ holds => ⟨holds, hraw⟩
      refine safe_ret (stable.and (Checked.stable _ _ keys)) ⟨hA, checked⟩
        fun σ₄ ⟨hA, checked⟩ => ⟨hA, fun w' current h => ?_⟩
      obtain ⟨rfl, message, gen, created⟩ := checkFence_ok h
      exact ⟨raw, keys, checked, message, gen, created⟩

/-- A hand-off leaves its record. -/
theorem safe_handoffDlq {B : Server → Prop} (stable : Stable p A) (stable' : Stable p B)
    (message : KeyedMessage) (error : String) (hA : A σ)
    (handed : ∀ {σ : Server}, A σ →
      B { σ with keyed := σ.keyed.record p (.deadLetter { message, error }) }) :
    (fence clock whole).Safe p o (q.handoffDlq message error) (fun _ => B) σ := by
  unfold handoffDlq
  split_ifs
  · exact Contract.Safe.step stable.rely hA fun σ' i _ _ hA =>
      ⟨trivial, safe_ret stable' (handed hA) fun _ => id⟩
  · exact Contract.Safe.step stable.rely hA fun σ' i _ _ hA =>
      ⟨trivial, safe_ret stable' (handed hA) fun _ => id⟩

end KeyedQueue

/-- The key's message is stored as the snapshot `message` has it, and leasable if it was then. -/
def StoredAs (key : Key) (message : KeyedMessage) (κ : Keyspace) : Prop :=
  ∃ h m, κ.msg message.messageId = some h ∧ toMessage h message.messageId = .ok m ∧ m.key = key ∧
    message.Same m ∧ ∀ ignoreDue now,
      message.deadline ignoreDue now = 0 → m.deadline ignoreDue now = 0

theorem KeyedMessage.Same.trans {m m' m'' : KeyedMessage} (a : m.Same m') (b : m'.Same m'') :
    m.Same m'' := by
  obtain ⟨a₁, a₂, a₃, a₄, a₅, a₆⟩ := a
  obtain ⟨b₁, b₂, b₃, b₄, b₅, b₆⟩ := b
  exact ⟨a₁.trans b₁, a₂.trans b₂, a₃.trans b₃, a₄.trans b₄, a₅.trans b₅, a₆.trans b₆⟩

theorem StoredAs.sheltered {key : Key} {message : KeyedMessage} {κ κ' : Keyspace}
    (s : Sheltered key κ κ') (stored : StoredAs key message κ) : StoredAs key message κ' := by
  obtain ⟨h, m, hm, hmsg, hkey, same, deadline⟩ := stored
  obtain ⟨h', hm', kept⟩ := s.kept hm (hkey ▸ toMessage_key hmsg)
  obtain ⟨m', hmsg', same', deadline'⟩ := kept.message hmsg
  exact ⟨h', m', hm', hmsg', same'.2.1.symm.trans hkey, same.trans same',
    fun d t h => deadline' d t (deadline d t h)⟩

/-- What a hand-off under a checked fence leaves. -/
structure Handed (p : ℕ) (key : Key) (mid : MsgId) (lock : Token) (raw : MsgHash) (d : DeadLetter)
    (κ : Keyspace) : Prop where
  owner : lock.owner = p
  issued : lock.serial < κ.serial
  holds : κ.Holds key lock
  stored : κ.msg mid = some raw
  since : raw.key = some key → History.Since p (.deadLetter d) (Event.Breaks key mid) κ.log

theorem Handed.stable {key : Key} {mid : MsgId} (lock : Token) (raw : MsgHash) (d : DeadLetter)
    {w : Watch} (h : FenceKeys key mid w) : Stable p (Seen w (Handed p key mid lock raw d)) := by
  refine Seen.stable fun later same _ handed => ?_
  have holds := h.holds same handed.holds
  refine ⟨handed.owner, handed.issued.trans_le later.serial, holds, ?_, fun hk => ?_⟩
  · rw [h.msg same]
    exact handed.stored
  · refine (later.sheltered handed.owner handed.issued holds).since (handed.since hk) ?_
    rw [handed.stored, Option.bind_some, hk]

/-- A hand-off, recorded. -/
theorem Handed.of_record {key : Key} {mid : MsgId} {lock : Token} {raw : MsgHash} {d : DeadLetter}
    {w : Watch} (owner : lock.owner = p) (issued : lock.serial < σ.keyed.serial)
    (checked : Checked key mid lock raw w σ) :
    Seen w (Handed p key mid lock raw d)
      { σ with keyed := σ.keyed.record p (.deadLetter d) } :=
  ⟨checked.le, fun unchanged =>
    have ⟨holds, stored⟩ := checked.same unchanged
    ⟨owner, issued, holds, stored, fun _ => .self⟩⟩

/-- An `EXEC` that is not overtaken by its own success leaves what its actor relies on. -/
theorem Later.of_aborted {o : KeyedCall} {w : Watch} {tx : Tx} {i : Input} (hw : ¬ σ.keyed.unchanged w = true) :
    Later p σ (σ.exec p (.keyed (.exec w tx)) i).2 := by
  have guard : FenceGuard True p o (.keyed (.exec w tx)) σ := fun unchanged => absurd unchanged hw
  refine .of_exec guard fun w' tx' f hc _ unchanged => ?_
  cases hc
  exact absurd unchanged hw

theorem exec_fst {w : Watch} {tx : Tx} {i : Input} :
    (σ.exec p (.keyed (.exec w tx)) i).1 = σ.keyed.unchanged w := by
  simp only [Server.exec, Keyspace.exec]
  split_ifs with hw <;> simp [hw]

namespace KeyedQueue

variable (q : KeyedQueue)

theorem safe_expireFenced {C : Server → Prop} (stable : Stable p A) (stable' : Stable p C)
    (key : Key) (message : KeyedMessage) (lock : Token) (own : Bool) (hA : A σ)
    (snapshot : Mine p key lock (fun κ => own = false → StoredAs key message κ) σ)
    (standalone : own = true → o.Standalone)
    (committed : ∀ {σ : Server} {w unhold i}, A σ →
      C (σ.exec p (.keyed (.exec w (.expire key message.messageId lock unhold own))) i).2) :
    (fence clock whole).Safe p o (q.expireFenced key message lock own)
      (fun r σ => (r = .ok true → C σ) ∧ (r ≠ .ok true → A σ)) σ := by
  have stable_snapshot : Stable p (Mine p key lock fun κ => own = false → StoredAs key message κ) :=
    Mine.stable fun s stored hown => (stored hown).sheltered s
  refine safe_bind (safe_verifyFence (stable.and stable_snapshot) lock key message.messageId
    (some message.gen) (some message.createdMs) ⟨hA, snapshot⟩)
    fun r σ₁ _ verified => ?_
  obtain ⟨⟨hA, snapshot⟩, passed⟩ := verified
  cases r with
  | error e => exact safe_ret stable hA fun _ hA => ⟨(fun h => by cases h), fun _ => hA⟩
  | ok x =>
    obtain ⟨w, current⟩ := x
    obtain ⟨raw, keys, checked, message_eq, gen, created⟩ := passed w current rfl
    have stable₁ := (stable.and stable_snapshot).and (Checked.stable lock raw keys)
    generalize hd : DeadLetter.mk message "expired: max_age_ms exceeded" = d
    have stable₂ := (stable.and stable_snapshot).and
      (Handed.stable lock raw d keys)
    refine safe_bind (q.safe_handoffDlq stable₁ stable₂ message "expired: max_age_ms exceeded"
      ⟨⟨hA, snapshot⟩, checked⟩ fun {σ} before => ?_) fun _ σ₂ _ h => ?_
    · obtain ⟨⟨hA, snapshot⟩, checked⟩ := before
      have later : Later p σ { σ with keyed := σ.keyed.record p (.deadLetter d) } :=
        Silent.later (c := .keyed (.onDlq d)) o trivial {}
      rw [hd]
      exact ⟨⟨stable.keeps later hA, stable_snapshot.keeps later snapshot⟩,
        Handed.of_record snapshot.owner snapshot.issued checked⟩
    · refine safe_read stable₂ trivial h fun σ₃ i₃ _ _ after => ?_
      obtain ⟨⟨hA, snapshot⟩, handed⟩ := after
      have held : Mine p key lock (fun κ =>
          ((σ₃.exec p (.keyed (.hgetHeld key)) i₃).1.any fun x =>
            x.messageId = message.messageId) = true →
          ∀ x, κ.held key = some x → x.messageId = message.messageId)
          (σ₃.exec p (.keyed (.hgetHeld key)) i₃).2 := by
        refine ⟨snapshot.owner, snapshot.issued, fun _ hany x hx => ?_⟩
        have hx : σ₃.keyed.held key = some x := by
          rw [← hx]
          exact congrFun (Keyspace.held_exec p σ₃.now i₃ (.hgetHeld key)).symm key
        simp only [Server.exec, Keyspace.exec, hx, Option.any_some, decide_eq_true_eq] at hany
        exact hany
      generalize ((σ₃.exec p (.keyed (.hgetHeld key)) i₃).1.any fun x =>
        x.messageId = message.messageId) = unhold at held ⊢
      have stable_held : Stable p (Mine p key lock fun κ => unhold = true →
          ∀ x, κ.held key = some x → x.messageId = message.messageId) :=
        Mine.stable fun s h hu x hx => h hu x (s.held x hx)
      refine safe_keyed (stable₂.and stable_held) ⟨⟨⟨hA, snapshot⟩, handed⟩, held⟩
        (fun {i σ} ok before unchanged => ?_) fun σ₄ i₄ _ before => ?_
      · obtain ⟨⟨⟨-, snapshot⟩, handed⟩, held⟩ := before
        have handed := handed.same unchanged
        have hkey : raw.key = some key := by
          cases own with
          | false =>
            obtain ⟨h, m, hm, hmsg, hk, -⟩ := snapshot.holding handed.holds rfl
            rw [handed.stored] at hm
            cases hm
            exact hk ▸ toMessage_key hmsg
          | true =>
            have named := ok.named (standalone rfl) unchanged
            rwa [handed.stored, Option.bind_some] at named
        refine ⟨raw, ⟨handed.owner, handed.holds, handed.stored, hkey⟩,
          ⟨d, handed.since hkey, by rw [← hd], fun hown => ?_⟩, fun hu x hx =>
          held.holding handed.holds hu x hx, standalone⟩
        obtain ⟨h, m, hm, hmsg, -, same, -⟩ := snapshot.holding handed.holds hown
        rw [handed.stored] at hm
        cases hm
        rw [← hd]
        exact ⟨m, hmsg, same⟩
      · obtain ⟨⟨⟨hA, -⟩, -⟩, -⟩ := before
        rw [exec_fst]
        split_ifs with hw
        · exact safe_ret stable' (committed hA) fun _ hC => ⟨fun _ => hC, fun h => absurd rfl h⟩
        · exact safe_ret stable (stable.keeps (.of_aborted (o := o) hw) hA) fun _ hA =>
            ⟨(fun h => by cases h), fun _ => hA⟩

end KeyedQueue

/-- The token that `p` acquired for `key`, under which it has not leased yet. -/
structure Acquired (p : ℕ) (key : Key) (lock : Token) (σ : Server) : Prop where
  owner : lock.owner = p
  issued : lock.serial < σ.keyed.serial
  acquired : .acquired key lock ∈ σ.keyed.log.own p
  unleased : Unleased p lock σ.keyed.log

namespace Acquired

variable {key : Key} {lock : Token}

theorem stable : Stable p (Acquired p key lock) := by
  refine ⟨fun later h => ?_⟩
  obtain ⟨es, hes, unfenced⟩ := later.own
  refine ⟨h.owner, h.issued.trans_le later.serial, ?_, fun key' mid gen ignoreDue now t he => ?_⟩
  · rw [hes]
    exact List.mem_append_right _ h.acquired
  · rw [hes] at he
    rcases List.mem_append.1 he with he | he
    · exact unfenced _ he rfl
    · exact h.unleased _ _ _ _ _ _ he

theorem of_acquire (inv : FenceInv whole σ) {ttl : ℤ} {i : Input}
    (h : (σ.exec p (.keyed (.acquire key ttl)) i).1 = some lock) :
    Acquired p key lock (σ.exec p (.keyed (.acquire key ttl)) i).2 := by
  simp only [Server.exec, Keyspace.exec] at h ⊢
  cases hl : σ.keyed.lock key with
  | some v =>
    rw [hl] at h
    cases h
  | none =>
    rw [hl] at h
    cases h
    refine ⟨rfl, Nat.lt_succ_self _, by simp [Keyspace.record], fun key' mid gen ignoreDue now t he => ?_⟩
    have he : .committed (.lease key' mid ⟨p, σ.keyed.serial⟩ gen ignoreDue now) t ∈
        σ.keyed.log.own p := by
      simpa [Keyspace.record, Keyspace.touch] using he
    exact Nat.lt_irrefl _ (inv.serials.fenced (History.mem_own.1 he) rfl).2

/-- A transaction that leases nothing leaves the token as it is. -/
theorem exec (h : Acquired p key lock σ) {w : Watch} {tx : Tx} {i : Input}
    (lease : ∀ key' mid gen ignoreDue now, tx ≠ .lease key' mid lock gen ignoreDue now) :
    Acquired p key lock (σ.exec p (.keyed (.exec w tx)) i).2 := by
  have own : (σ.exec p (.keyed (.exec w tx)) i).2.keyed.log.own p =
      (σ.keyed.eventOf p i (.exec w tx)).toList ++ σ.keyed.log.own p := by
    simp only [own_exec, if_true]
  refine ⟨h.owner, ?_, ?_, fun key' mid gen ignoreDue now t he => ?_⟩
  · simp only [Server.exec, Keyspace.serial_exec]
    exact h.issued
  · rw [own]
    exact List.mem_append_right _ h.acquired
  · rw [own] at he
    rcases List.mem_append.1 he with he | he
    · simp only [Keyspace.eventOf, Option.mem_toList, Option.some.injEq] at he
      split_ifs at he
      cases he
      exact lease _ _ _ _ _ rfl
    · exact h.unleased _ _ _ _ _ _ he

end Acquired

/-- A head that is read stays the last one read. -/
theorem ReadHead.stable {key : Key} {mid : MsgId} {lock : Token} :
    Stable p fun σ => ReadHead p key mid lock σ.keyed.log := by
  refine ⟨fun later ⟨es, older, hown, unfenced, acquired⟩ => ?_⟩
  obtain ⟨es', hes', unfenced'⟩ := later.own
  refine ⟨es' ++ es, older, by rw [hes', hown, List.append_assoc], fun e he => ?_, acquired⟩
  rcases List.mem_append.1 he with he | he
  · exact unfenced' e he
  · exact unfenced e he

/-- The lease that a committed lease transaction returns. -/
theorem Leased.of_exec {key : Key} {mid : MsgId} {lock : Token} {raw : MsgHash} {w : Watch}
    {ignoreDue : Bool} {now : ℤ} {i : Input} {lease : KeyedLease}
    (unchanged : σ.keyed.unchanged w = true) (issued : lock.serial < σ.keyed.serial)
    (fenced : Fenced p key mid lock raw σ.keyed) {gen : ℕ} (lease_key : lease.key = key)
    (lease_lock : lease.lock = lock) (lease_mid : lease.message.messageId = mid)
    (lease_gen : lease.gen = gen + 1) :
    Leased p lease
      (σ.exec p (.keyed (.exec w (.lease key mid lock gen ignoreDue now))) i).2 := by
  subst lease_key lease_lock lease_mid
  have hm : (σ.exec p (.keyed (.exec w
      (.lease lease.key lease.message.messageId lease.lock gen ignoreDue now))) i).2.keyed.msg
        lease.message.messageId = some (raw.set (leasedFields (gen + 1))) := by
    simp only [Server.exec, Keyspace.msg_exec, Keyspace.data, unchanged, if_true,
      Keyspace.msg_commit, fenced.stored, Option.getD_some]
  refine ⟨fenced.owner, ?_, fun _ => ⟨⟨gen, ignoreDue, now, i.now, ?_⟩,
    raw.set (leasedFields (gen + 1)), ?_⟩⟩
  · simp only [Server.exec, Keyspace.serial_exec]
    exact issued
  · simp only [Server.exec, Keyspace.log_exec, Keyspace.eventOf, unchanged, if_true]
    exact .self
  · have hk : (raw.set (leasedFields (gen + 1))).key = some lease.key := by
      simpa [MsgHash.set, leasedFields] using fenced.key
    obtain ⟨m, hmsg⟩ := toMessage_of_key lease.message.messageId hk
    refine ⟨m, hm, hmsg, ?_, ?_⟩
    · exact Option.some.inj ((toMessage_key hmsg).symm.trans hk)
    · rw [toMessage_gen hmsg, lease_gen]
      simp [MsgHash.set, leasedFields]

/-- What a lease attempt may return. -/
def Attempted (p : ℕ) (r : Except Exc (Option KeyedLease × LeaseReason)) (σ : Server) : Prop :=
  ∀ lease reason, r = .ok (some lease, reason) → Leased p lease σ

theorem Attempted.none (reason : LeaseReason) : Attempted p (.ok (none, reason)) σ := by
  intro lease reason' h
  cases h

theorem Attempted.error (e : Exc) : Attempted p (.error e) σ := by
  intro lease reason h
  cases h

namespace KeyedQueue

variable (q : KeyedQueue)

/-- What a lease attempt knows of the head it has read. -/
structure Examined (clock : Prop) (p : ℕ) (key : Key) (mid : MsgId) (lock : Token)
    (message : KeyedMessage) (now : ℤ) (σ : Server) : Prop where
  acquired : Acquired p key lock σ
  head : ReadHead p key mid lock σ.keyed.log
  snapshot : Mine p key lock (StoredAs key message) σ
  now : clock → 0 ≤ now ∧ now ≤ σ.now

theorem Examined.stable {key : Key} {mid : MsgId} {lock : Token} {message : KeyedMessage} {now : ℤ} :
    Stable p (Examined clock p key mid lock message now) :=
  ⟨fun later h => ⟨Acquired.stable.keeps later h.acquired, ReadHead.stable.keeps later h.head,
    (Mine.stable StoredAs.sheltered).keeps later h.snapshot, fun hc => ⟨(h.now hc).1, (h.now hc).2.trans later.now⟩⟩⟩

theorem safe_leaseHead (key : Key) (lock : Token) (receipt : Option Receipt) (ignoreDue : Bool)
    (mid : MsgId) (message : KeyedMessage) (now : ℤ) (hmid : message.messageId = mid)
    (h : Examined clock p key mid lock message now σ) :
    (fence clock whole).Safe p o (leaseHead key lock receipt ignoreDue mid message now)
      (Attempted p) σ := by
  have stable : Stable p (Examined clock p key mid lock message now) := Examined.stable
  refine safe_read stable trivial h fun σ₁ i₁ _ _ h => ?_
  split_ifs with hheld
  · exact safe_ret stable h fun _ _ => .none _
  dsimp only
  split_ifs with hdeadline
  · exact safe_read stable trivial h fun _ _ _ _ h => safe_ret stable h fun _ _ => .none _
  · have free : Mine p key lock (fun κ => κ.held key = none) (σ₁.exec p (.keyed (.hgetHeld key)) i₁).2 := by
      refine ⟨h.acquired.owner, h.acquired.issued, fun _ => ?_⟩
      have eq : (σ₁.exec p (.keyed (.hgetHeld key)) i₁).2.keyed.held key = σ₁.keyed.held key :=
        congrFun (Keyspace.held_exec p σ₁.now i₁ (.hgetHeld key)) key
      rw [eq, ← Option.not_isSome_iff_eq_none]
      exact hheld
    have stable_none : Stable p (Mine p key lock fun κ => κ.held key = none) :=
      Mine.stable fun s hn => by
        rw [Option.eq_none_iff_forall_ne_some] at hn ⊢
        exact fun x hx => hn x (s.held x hx)
    refine safe_bind (safe_verifyFence (stable.and stable_none) lock key mid (some message.gen)
      (some message.createdMs) ⟨h, free⟩) fun r σ₂ _ ⟨⟨h, free⟩, passed⟩ => ?_
    cases r with
    | error e =>
      dsimp only
      split_ifs
      · exact safe_ret stable h fun _ _ => .none _
      · exact safe_ret stable h fun _ _ => .error e
    | ok x =>
      obtain ⟨w, current⟩ := x
      obtain ⟨raw, keys, checked, hmsg, gen, -⟩ := passed w current rfl
      have fenced : ∀ {σ : Server}, Examined clock p key mid lock message now σ →
          Checked key mid lock raw w σ → σ.keyed.unchanged w = true →
            Fenced p key mid lock raw σ.keyed ∧ current.deadline ignoreDue now = 0 := by
        intro σ h checked unchanged
        obtain ⟨holds, stored⟩ := checked.same unchanged
        obtain ⟨h', m, hm, hmsg', hk, -, deadline⟩ := h.snapshot.holding holds
        rw [hmid] at hm hmsg'
        rw [stored] at hm
        cases hm
        rw [hmsg] at hmsg'
        cases hmsg'
        exact ⟨⟨h.acquired.owner, holds, stored, hk ▸ toMessage_key hmsg⟩,
          deadline _ _ (not_not.1 hdeadline)⟩
      refine safe_keyed ((stable.and stable_none).and (Checked.stable _ _ keys)) ⟨⟨h, free⟩, checked⟩
        (fun {i σ} ok ⟨⟨h, free⟩, checked⟩ unchanged => ?_) fun σ₃ i₃ _ ⟨⟨h, free⟩, checked⟩ => ?_
      · obtain ⟨fenced, deadline⟩ := fenced h checked unchanged
        exact ⟨⟨raw, current, fenced, hmsg, gen _ rfl, deadline⟩, free.holding fenced.holds, h.now,
          h.head, h.acquired.unleased⟩
      · rw [exec_fst]
        split_ifs with hw
        · generalize hlease : KeyedLease.mk key { message with
            gen := message.gen + 1, state := .leased, waitUntilMs := none, dueMs := none }
              lock (message.gen + 1) receipt = lease
          have leased : Leased p lease (σ₃.exec p (.keyed (.exec w
              (.lease key mid lock message.gen ignoreDue now))) i₃).2 := by
            subst hlease
            exact .of_exec hw h.acquired.issued (fenced h checked hw).1 rfl rfl hmid rfl
          refine safe_ret (Leased.stable lease) leased fun σ leased lease' reason hr => ?_
          cases hr
          exact leased
        · refine safe_ret stable (stable.keeps (.of_aborted (o := o) hw) h) fun _ _ => .none _

theorem safe_expireHead_locked {C : Server → Prop} (stable : Stable p A) (stable' : Stable p C)
    (key : Key) (message : KeyedMessage) (lock : Token) (hA : A σ)
    (snapshot : Mine p key lock (StoredAs key message) σ)
    (committed : ∀ {σ : Server} {w unhold i}, A σ →
      C (σ.exec p (.keyed (.exec w (.expire key message.messageId lock unhold false))) i).2) :
    (fence clock whole).Safe p o (q.expireHead key message (some lock))
      (fun r σ => (r = .ok true → C σ) ∧ (r ≠ .ok true → A σ)) σ := by
  have kept : ∀ r : Except Exc Bool, r ≠ .ok true → A σ → (r = .ok true → C σ) ∧ (r ≠ .ok true → A σ) :=
    fun r hr hA => ⟨fun h => absurd h hr, fun _ => hA⟩
  have no : (Except.ok false : Except Exc Bool) ≠ .ok true := by simp
  have stable_snapshot : Stable p (Mine p key lock (StoredAs key message)) :=
    Mine.stable StoredAs.sheltered
  unfold expireHead
  cases q.config.maxAgeMs with
  | none => exact safe_ret stable hA fun _ hA => ⟨fun h => absurd h no, fun _ => hA⟩
  | some maxAge =>
    refine safe_silent (stable.and stable_snapshot) (.one trivial) ⟨hA, snapshot⟩
      fun now σ₁ ⟨hA, snapshot⟩ => ?_
    dsimp only
    split_ifs
    · exact safe_ret stable hA fun _ hA => ⟨fun h => absurd h no, fun _ => hA⟩
    · exact q.safe_expireFenced stable stable' key message lock false hA
        ⟨snapshot.owner, snapshot.issued, fun holds _ => snapshot.holding holds⟩ nofun committed

theorem safe_leaseLocked (key : Key) (lock : Token) (receipt : Option Receipt) (ignoreDue : Bool)
    (fuel : ℕ) (h : Acquired p key lock σ) :
    (fence clock whole).Safe p o (q.leaseLocked key lock receipt ignoreDue fuel) (Attempted p) σ := by
  have stable : Stable p (Acquired p key lock) := Acquired.stable
  induction fuel generalizing σ with
  | zero => trivial
  | succ fuel ih =>
    refine safe_read stable trivial h fun σ₁ i₁ inv h _ => ?_
    cases hhead : (σ₁.exec p (.keyed (.zrangeHead key)) i₁).1 with
    | none =>
      exact safe_bind ((neutral_dropKeyIfEmpty key 2).safe (.const True) trivial) fun _ _ _ _ =>
        safe_ret (.const True) trivial fun _ _ => .none _
    | some mid =>
      have head : ReadHead p key mid lock (σ₁.exec p (.keyed (.zrangeHead key)) i₁).2.keyed.log := by
        have hhead : (σ₁.keyed.index key).head = some mid := hhead
        refine ⟨[], σ₁.keyed.log.own p, ?_, by simp, h.acquired⟩
        simp [Server.exec, Keyspace.exec, Keyspace.record, hhead]
      have named : Mine p key lock (fun κ => (κ.msg mid).bind MsgHash.key = some key)
          (σ₁.exec p (.keyed (.zrangeHead key)) i₁).2 := by
        refine ⟨h.owner, h.issued, fun _ => ?_⟩
        obtain ⟨s, hs⟩ := Keyspace.mem_index_iff.1 (SortedSet.head_mem hhead)
        obtain ⟨h', hm, hk, -⟩ := inv.stored.indexed hs
        exact Option.bind_eq_some_iff.2 ⟨h', hm, hk⟩
      have h : Acquired p key lock (σ₁.exec p (.keyed (.zrangeHead key)) i₁).2 :=
        stable.keeps (Silent.later (c := .keyed (.zrangeHead key)) o trivial i₁) h
      have stable_named : Stable p
          (Mine p key lock fun κ => (κ.msg mid).bind MsgHash.key = some key) :=
        Mine.stable fun s hn => s.named hn
      refine safe_read ((stable.and ReadHead.stable).and stable_named) trivial ⟨⟨h, head⟩, named⟩
        fun σ₂ i₂ _ after _ => ?_
      obtain ⟨⟨h, head⟩, named⟩ := after
      cases hraw : (σ₂.exec p (.keyed (.hgetall mid)) i₂).1 with
      | none =>
        exact safe_read stable trivial h fun _ _ _ _ h => safe_read stable trivial h
          fun _ _ _ _ h => ih h
      | some raw =>
        dsimp only
        cases hmsg : toMessage raw mid with
        | error e => exact safe_ret stable h fun _ _ => .error e
        | ok message =>
          have hmid := toMessage_messageId hmsg
          have snapshot : Mine p key lock (StoredAs key message) σ₂ := by
            refine ⟨h.owner, h.issued, fun holds => ?_⟩
            have hraw : σ₂.keyed.msg mid = some raw := hraw
            have hn := named.holding holds
            rw [hraw, Option.bind_some] at hn
            subst hmid
            exact ⟨raw, message, hraw, hmsg, Option.some.inj ((toMessage_key hmsg).symm.trans hn),
              ⟨rfl, rfl, rfl, rfl, rfl, rfl⟩, fun _ _ => id⟩
          have stable_snapshot : Stable p (Mine p key lock (StoredAs key message)) :=
            Mine.stable StoredAs.sheltered
          refine safe_now ((stable.and ReadHead.stable).and stable_snapshot) ⟨⟨h, head⟩, snapshot⟩
            fun i₃ σ₃ now after => ?_
          obtain ⟨⟨h, head⟩, snapshot⟩ := after
          have examined : Examined clock p key mid lock message i₃.now σ₃ :=
            ⟨h, head, snapshot, fun hc => ⟨(now hc).1, (now hc).2.le⟩⟩
          refine safe_bind (q.safe_expireHead_locked Examined.stable stable key message lock examined
            examined.snapshot fun h => h.acquired.exec fun _ _ _ _ _ h => by cases h) fun r σ₄ _ after => ?_
          obtain ⟨expired, kept⟩ := after
          cases r with
          | ok gone =>
            cases gone with
            | true => exact ih (expired rfl)
            | false => exact safe_leaseHead key lock receipt ignoreDue mid message _ hmid (kept (by simp))
          | error e =>
            dsimp only
            split_ifs
            · exact safe_ret Examined.stable (kept (by simp)) fun _ _ => .none _
            · exact safe_ret Examined.stable (kept (by simp)) fun _ _ => .error e

theorem neutral_release (key : Key) (lock : Token) : Neutral clock whole p o (release key lock) :=
  .silent (silent_release key lock)

theorem neutral_ackSignal (receipt : Option Receipt) (key : Option Key) :
    Neutral clock whole p o (q.ackSignal receipt key) :=
  .onPlane (q.onPlane_ackSignal receipt key)

theorem safe_leaseKeyDetailed (key : Key) (receipt : Option Receipt) (ignoreDue : Bool) (fuel : ℕ) :
    (fence clock whole).Safe p o (q.leaseKeyDetailed key receipt ignoreDue fuel) (Attempted p) σ := by
  refine safe_keyed (.const True) trivial (fun _ _ => trivial) fun σ₁ i₁ inv _ => ?_
  cases hlock : (σ₁.exec p (.keyed (.acquire key q.config.lockTtlMs)) i₁).1 with
  | none =>
    exact safe_bind ((q.neutral_ackSignal receipt (some key)).safe (.const True) trivial)
      fun _ _ _ _ => safe_ret (.const True) trivial fun _ _ => .none _
  | some lock =>
    have h := Acquired.of_acquire inv hlock
    refine safe_bind (q.safe_leaseLocked key lock receipt ignoreDue fuel h) fun r σ₂ _ attempted => ?_
    match r with
    | .error e =>
      exact safe_bind ((neutral_release key lock).safe (.const True) trivial) fun _ _ _ _ =>
        safe_ret (.const True) trivial fun _ _ => .error e
    | .ok (some lease, reason) =>
      refine safe_ret (Leased.stable lease) (attempted lease reason rfl) fun _ leased _ _ h => ?_
      cases h
      exact leased
    | .ok (none, reason) =>
      refine safe_bind ((neutral_release key lock).safe (.const True) trivial) fun _ _ _ _ => ?_
      exact safe_bind ((q.neutral_ackSignal receipt (some key)).safe (.const True) trivial)
        fun _ _ _ _ => safe_ret (.const True) trivial fun _ _ => .none _

/-- What a lease may return. -/
def Returned (p : ℕ) (r : Except Exc (Option KeyedLease)) (σ : Server) : Prop :=
  ∀ lease, r = .ok (some lease) → Leased p lease σ

theorem safe_leaseTries (fuel tries : ℕ) :
    (fence clock whole).Safe p o (q.leaseTries fuel tries) (Returned p) σ := by
  have nothing : ∀ {σ}, (fence clock whole).Safe p o
      (pure (.ok none) : Script (Except Exc (Option KeyedLease))) (Returned p) σ := by
    intro σ
    refine safe_ret (.const True) trivial fun _ _ lease h => ?_
    cases h
  have receive : Neutral clock whole p o
      (q.store.receive q.config.signal q.config.signalGroup 1 none) :=
    .onPlane (q.store.onPlane_receive q.config.signal q.config.signalGroup 1 none)
  induction tries generalizing σ with
  | zero => exact nothing
  | succ tries ih =>
    refine safe_silent (.const True) (.one trivial) trivial fun paused σ₁ _ => ?_
    split_ifs
    · exact nothing
    · refine safe_bind (receive.safe (.const True) trivial) fun items σ₂ _ _ => ?_
      cases items with
      | nil => exact nothing
      | cons item items =>
        refine safe_silent (.const True) (.one trivial) trivial fun paused σ₃ _ => ?_
        split_ifs
        · exact safe_silent (.const True) (.one trivial) trivial fun _ _ _ => nothing
        · split
          · exact safe_bind ((q.neutral_ackSignal _ _).safe (.const True) trivial) fun _ _ _ _ => ih
          · rename_i key _
            refine safe_bind ((Neutral.onPlane (q.onPlane_markSignal key _)).safe (.const True)
              trivial) fun _ σ₄ _ _ => ?_
            refine safe_bind (q.safe_leaseKeyDetailed key _ false fuel) fun r σ₅ _ attempted => ?_
            match r with
            | .error e =>
              refine safe_ret (.const True) trivial fun _ _ lease h => ?_
              cases h
            | .ok (some lease, reason) =>
              refine safe_ret (Leased.stable lease) (attempted lease reason rfl)
                fun _ leased _ h => ?_
              cases h
              exact leased
            | .ok (none, reason) => exact ih

theorem exhausted_same {current message : KeyedMessage} {outcome : Outcome} {error : String}
    (h : q.exhausted current outcome = some (message, error)) : message.Same current := by
  unfold exhausted at h
  split at h
  · split_ifs at h
    cases h
    exact ⟨rfl, rfl, rfl, rfl, rfl, rfl⟩
  · cases h

/-- The transaction of an outcome is guarded where the lease stands. -/
theorem outcomeTx_guard {lease : KeyedLease} {outcome : Outcome} {current : KeyedMessage}
    {raw : MsgHash} {now : ℤ} (fenced : Fenced p lease.key lease.message.messageId lease.lock raw σ.keyed)
    (leased : LeasedBy p lease.key lease.message.messageId lease.lock σ.keyed.log)
    (handed : (q.exhausted current outcome).isSome →
      HandedOff p lease.key lease.message.messageId raw false σ.keyed.log) :
    TxGuard clock p o σ (q.outcomeTx lease current now outcome) := by
  unfold outcomeTx
  split_ifs with hex
  · exact ⟨raw, fenced, leased, fun _ => handed hex⟩
  · cases outcome with
    | ack => exact ⟨raw, fenced, leased, nofun⟩
    | retry | wait | hold => exact ⟨raw, fenced, leased⟩

/-- After its outcome a lease is released, so that nothing is left to rely on. -/
theorem safe_settle (lease : KeyedLease) (outcome : Outcome)
    (token : Mine p lease.key lease.lock (fun _ => True) σ) :
    (fence clock whole).Safe p o (q.settle lease outcome) (fun _ => Leased p lease) σ := by
  have stable : Stable p (Mine p lease.key lease.lock fun _ => True) := Mine.stable fun _ => id
  have released : ∀ {β : Type} {f : Unit → Script β}, (∀ a, Neutral clock whole p o (f a)) →
      (fence clock whole).Safe p o (release lease.key lease.lock >>= f) (fun _ => Leased p lease) σ := by
    intro β f hf
    refine safe_read stable trivial token fun σ₁ i₁ _ _ token => ?_
    have leased : Leased p lease (σ₁.exec p (.keyed (.release lease.key lease.lock)) i₁).2 :=
      .of_gone token.owner token.issued fun holds => Keyspace.not_holds_release _ _ _ holds
    exact (hf ()).safe (Leased.stable lease) leased
  cases outcome with
  | hold => exact released fun _ => (q.neutral_ackSignal ..).bind fun _ => .ret _
  | ack | retry | wait =>
    refine released fun _ => .bind (q.neutral_reconcile lease.key) fun r => ?_
    cases r with
    | error e => exact .ret _
    | ok _ => exact (q.neutral_ackSignal ..).bind fun _ => .ret _

theorem safe_apply (lease : KeyedLease) (outcome : Outcome) (h : Leased p lease σ) :
    (fence clock whole).Safe p o (q.apply lease outcome) (fun _ => Leased p lease) σ := by
  have stable := Leased.stable (p := p) lease
  refine safe_bind (safe_verifyFence stable lease.lock lease.key lease.message.messageId
    (some lease.gen) none h) fun r σ₁ _ verified => ?_
  obtain ⟨h, passed⟩ := verified
  cases r with
  | error e => exact safe_ret stable h fun _ => id
  | ok x =>
    obtain ⟨w, current⟩ := x
    obtain ⟨raw, keys, checked, hmsg, -, -⟩ := passed w current rfl
    refine safe_now (stable.and (Checked.stable _ _ keys)) ⟨h, checked⟩ fun i σ₂ _ after => ?_
    obtain ⟨h, checked⟩ := after
    have fenced : ∀ {σ : Server}, Leased p lease σ → Checked lease.key lease.message.messageId lease.lock raw w σ →
        σ.keyed.unchanged w = true →
          Fenced p lease.key lease.message.messageId lease.lock raw σ.keyed ∧
            LeasedBy p lease.key lease.message.messageId lease.lock σ.keyed.log := by
      intro σ h checked unchanged
      obtain ⟨holds, stored⟩ := checked.same unchanged
      obtain ⟨leased, h', m, hm, hmsg', hk, -⟩ := h.holding holds
      rw [stored] at hm
      cases hm
      exact ⟨⟨h.owner, holds, stored, hk ▸ toMessage_key hmsg'⟩, leased⟩
    have finish : ∀ {B : Server → Prop} {σ : Server}, Stable p B → B σ →
        (∀ {σ : Server}, B σ → Leased p lease σ ∧ Checked lease.key lease.message.messageId lease.lock raw w σ) →
        (∀ {σ : Server}, B σ → σ.keyed.unchanged w = true → (q.exhausted current outcome).isSome →
          HandedOff p lease.key lease.message.messageId raw false σ.keyed.log) →
        (fence clock whole).Safe p o (do
          if ← Script.keyed (.exec w (q.outcomeTx lease current i.now outcome)) then
            q.settle lease outcome
          else
            return .error (.leaseLost (.superseded lease.key))) (fun _ => Leased p lease) σ := by
      intro B σ stable' hB parts handed
      refine safe_keyed stable' hB (fun _ hB unchanged => ?_) fun σ₃ i₃ _ hB => ?_
      · obtain ⟨h, checked⟩ := parts hB
        obtain ⟨fenced, leased⟩ := fenced h checked unchanged
        exact q.outcomeTx_guard fenced leased (handed hB unchanged)
      · obtain ⟨h, checked⟩ := parts hB
        rw [exec_fst]
        split_ifs with hw
        · refine q.safe_settle lease outcome ⟨h.owner, ?_, fun _ => trivial⟩
          simp only [Server.exec, Keyspace.serial_exec]
          exact h.issued
        · exact safe_ret stable (stable.keeps (.of_aborted (o := o) hw) h) fun _ => id
    cases hex : q.exhausted current outcome with
    | none =>
      exact finish (stable.and (Checked.stable _ _ keys)) ⟨h, checked⟩ id (fun _ _ h => by simp [hex] at h)
    | some x =>
      obtain ⟨message, error⟩ := x
      have same := q.exhausted_same hex
      have stable₂ := (stable.and (Checked.stable lease.lock raw keys)).and
        (Handed.stable lease.lock raw ⟨message, error⟩ keys)
      refine safe_bind (q.safe_handoffDlq (stable.and (Checked.stable _ _ keys)) stable₂ message error
        ⟨h, checked⟩ fun {σ} before => ?_) fun _ σ₃ _ h => ?_
      · obtain ⟨h, checked⟩ := before
        have later : Later p σ { σ with keyed := σ.keyed.record p (.deadLetter ⟨message, error⟩) } :=
          Silent.later (c := .keyed (.onDlq ⟨message, error⟩)) o trivial {}
        exact ⟨⟨stable.keeps later h, (Checked.stable _ _ keys).keeps later checked⟩,
          Handed.of_record h.owner h.issued checked⟩
      · refine finish stable₂ h (fun h => h.1) fun {σ} before unchanged _ => ?_
        obtain ⟨⟨h, checked⟩, handed⟩ := before
        have hk := (fenced h checked unchanged).1.key
        exact ⟨_, (handed.same unchanged).since hk, same.1.trans (toMessage_messageId hmsg),
          fun _ => ⟨current, hmsg, same⟩⟩

theorem safe_expireHead_own (standalone : o.Standalone) (key : Key) (message : KeyedMessage) :
    (fence clock whole).Safe p o (q.expireHead key message none) (fun _ _ => True) σ := by
  have done : ∀ {r : Except Exc Bool} {σ}, (fence clock whole).Safe p o
      (pure r : Script (Except Exc Bool)) (fun _ _ => True) σ :=
    safe_ret (.const True) trivial fun _ _ => trivial
  unfold expireHead
  cases q.config.maxAgeMs with
  | none => exact done
  | some maxAge =>
    refine safe_silent (.const True) (.one trivial) trivial fun now σ₁ _ => ?_
    dsimp only
    split_ifs
    · exact done
    · refine safe_keyed (.const True) trivial (fun _ _ => trivial) fun σ₂ i₂ inv _ => ?_
      cases hlock : (σ₂.exec p (.keyed (.acquire key q.config.lockTtlMs)) i₂).1 with
      | none => exact done
      | some own =>
        have h := Acquired.of_acquire inv hlock
        refine safe_bind (q.safe_expireFenced (.const True) (.const True) key message own true trivial
          ⟨h.owner, h.issued, nofun⟩ (fun _ => standalone) fun _ => trivial) fun r σ₃ _ _ => ?_
        exact safe_bind ((neutral_release key own).safe (.const True) trivial) fun _ _ _ _ => done

end KeyedQueue

end Fenced

/-! ## Every call -/

section Calls

variable {clock whole : Prop} {p : ℕ} {o : KeyedCall} {σ : Server}

theorem Neutral.call {x : Script KeyedResult} (hx : Neutral clock whole p o x)
    (idle : ∀ r, o.phase r = .idle) :
    (fence clock whole).Safe p o x ((fence clock whole).Post p o) σ :=
  (hx.safe (.const True) trivial).mono fun r σ' _ _ => by
    change (o.phase r).Stands p σ'
    rw [idle]
    trivial

/-- Every call is safe in the phases that accept it. -/
theorem KeyedCall.safe {φ : KeyedPhase} (accepted : o.accepted φ = true) (h : φ.Stands p σ) :
    (fence clock whole).Safe p o o.code ((fence clock whole).Post p o) σ := by
  obtain ⟨q, op⟩ := o
  cases op with
  | push key body mid order =>
    exact Neutral.call ((q.neutral_push key body mid order).bind fun _ => .ret _) fun _ => rfl
  | lease fuel =>
    refine safe_bind (q.safe_leaseTries fuel maxSignalsPerLease) fun r σ₁ _ returned => ?_
    match r with
    | .ok (some lease) => exact safe_ret (Leased.stable lease) (returned lease rfl) fun _ => id
    | .ok none => exact safe_ret (.const True) trivial fun _ _ => trivial
    | .error e => exact safe_ret (.const True) trivial fun _ _ => trivial
  | leaseKey key ignoreDue fuel =>
    refine safe_bind (q.safe_leaseKeyDetailed key none ignoreDue fuel) fun r σ₁ _ attempted => ?_
    match r with
    | .ok (some lease, reason) =>
      exact safe_ret (Leased.stable lease) (attempted lease reason rfl) fun _ => id
    | .ok (none, reason) => exact safe_ret (.const True) trivial fun _ _ => trivial
    | .error e => exact safe_ret (.const True) trivial fun _ _ => trivial
  | extend lease additionalMs commands =>
    cases φ with
    | idle => cases accepted
    | holding lease' =>
      obtain rfl : lease = lease' := of_decide_eq_true accepted
      have extended : (do return .extended (← q.extend lease additionalMs) :
          Script KeyedResult).All Silent := (q.silent_extend lease additionalMs).bind fun _ => trivial
      cases commands with
      | none => exact (Neutral.silent extended).safe (Leased.stable lease) h
      | some n => exact (Neutral.silent (extended.cutoff .done n)).safe (Leased.stable lease) h
  | apply lease outcome =>
    cases φ with
    | idle => cases accepted
    | holding lease' =>
      obtain rfl : lease = lease' := of_decide_eq_true accepted
      refine safe_bind (q.safe_apply lease outcome h) fun r σ₁ _ leased => ?_
      cases r with
      | error e => exact safe_ret (Leased.stable lease) leased fun _ => id
      | ok _ => exact safe_ret (.const True) trivial fun _ _ => trivial
  | abandon lease =>
    exact Neutral.call ((KeyedQueue.neutral_release lease.key lease.lock).bind fun _ => .ret _) fun _ => rfl
  | expireHead key message =>
    refine safe_bind (q.safe_expireHead_own (o := ⟨q, .expireHead key message⟩) trivial key message) fun r σ₁ _ _ => ?_
    exact safe_ret (.const True) trivial fun _ _ => trivial
  | promoteDue limit =>
    exact Neutral.call ((Neutral.silent (q.silent_promoteDue limit)).bind fun _ => .ret _) fun _ => rfl
  | recover force fuel =>
    exact Neutral.call ((q.neutral_recover force fuel).bind fun _ => .ret _) fun _ => rfl
  | releaseHold key =>
    exact Neutral.call ((q.neutral_releaseHold (o := ⟨q, .releaseHold key⟩) trivial key).bind fun _ => .ret _) fun _ => rfl
  | pause ttlMs reason =>
    exact Neutral.call ((Neutral.onPlane (q.onPlane_pause ttlMs reason)).bind fun _ => .ret _) fun _ => rfl
  | resume =>
    exact Neutral.call ((Neutral.onPlane (x := KeyedQueue.resume) (.one trivial)).bind fun _ => .ret _)
      fun _ => rfl

/-- The actors of a keyed queue keep the fence. -/
theorem fence_kept (clock whole : Prop) (Admits : KeyedCall → Prop) :
    (fence clock whole).Kept (fun p φ σ => φ.Stands p σ) Admits where
  idle _ _ := trivial
  call _ accepted _ h := KeyedCall.safe accepted h
  phase _ post := post
  stable hO h := (KeyedPhase.stands_stable _).keeps (.of_rely (.single hO)) h

/-- Nobody has called yet. -/
theorem fence_start (clock whole : Prop) (Admits : KeyedCall → Prop) :
    (fence clock whole).Within (fun p φ σ => φ.Stands p σ) Admits KeyedPool.start where
  inv := by
    refine ⟨⟨fun {k m s} hs => ?_, fun {m h} hm => ?_, fun _ {m h} hm => ?_⟩,
      ⟨fun hk => ?_, fun hq => ?_, fun hq => ?_⟩, Int.le_refl 0⟩
    · cases hs
    · cases hm
    · cases hm
    · cases hk
    · cases hq
    · cases hq
  resting h := by
    cases h
    trivial
  admits h := by cases h
  calling h := by cases h

end Calls

end NavigatorEventbus
