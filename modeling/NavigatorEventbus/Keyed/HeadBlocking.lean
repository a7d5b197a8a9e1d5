import NavigatorEventbus.Keyed.Exclusion

/-!
# Head blocking

A key is worked off in the order of its scores, and of the ids where scores are equal.  Whoever leases a message has read
it as the head of its key, under the lock it leases with; from then on the message stays stored with its order,
and what stands before it in the index has been pushed since.  Neither a retry nor a wait nor a hold changes that, so a
later message is leased only once the head is acked, expired or dropped.
-/

namespace NavigatorEventbus

open Interleave

/-- A push of `mid` under `key`. -/
def Event.PushesTo (key : Key) (mid : MsgId) : Event → Prop
  | .committed (.push key' mid' _ _ _ _) _ => key' = key ∧ mid' = mid
  | _ => False

/-- A fenced transaction on `key`, other than the lease of `mid` under `lock`. -/
def Event.EndsLease (key : Key) (mid : MsgId) (lock : Token) : Event → Prop
  | .committed tx _ => tx.fence.map Prod.fst = some key ∧ tx.leases ≠ some (key, mid, lock)
  | _ => False

/-- Actor `p` acquired `lock`, then read `mid` as the head of `key`, and has since committed no fenced transaction on the
key but a lease of `mid`. -/
structure HeadSince (p : ℕ) (key : Key) (mid : MsgId) (lock : Token) (recent older log : History Event) : Prop where
  split : log = recent ++ (p, .headRead key (some mid)) :: older
  acquired : (p, .acquired key lock) ∈ older
  working : ∀ e, (p, e) ∈ recent → ¬ e.EndsLease key mid lock

/-- The message is stored under its key, and what stands before it in the index was pushed `recent`ly. -/
def Least (key : Key) (mid : MsgId) (recent : History Event) (κ : Keyspace) : Prop :=
  ∃ h s, κ.msg mid = some h ∧ h.key = some key ∧ h.order = some s ∧
    ∀ m s', κ.scoreOf key m = some s' → (∃ x ∈ recent, x.2.PushesTo key m) ∨ toLex (s, mid) ≤ toLex (s', m)

/-- A head is the least as long as its lock is held, and whoever leased it had read it. -/
structure Foremost (κ : Keyspace) : Prop where
  heads : ∀ {p key mid lock recent older}, HeadSince p key mid lock recent older κ.log → κ.Holds key lock →
    Least key mid recent κ
  read : κ.log.Each fun p e before => ∀ key mid lock, e.Leases key mid lock → ReadHead p key mid lock before

section HeadSince

variable {p q : ℕ} {key : Key} {mid : MsgId} {lock : Token} {recent older log es : History Event} {e : Event}

theorem HeadSince.mem (h : HeadSince p key mid lock recent older log) : (p, .acquired key lock) ∈ log := by
  rw [h.split]
  exact List.mem_append_right _ (List.mem_cons_of_mem _ h.acquired)

/-- A head has been read among the newest events, or before them. -/
theorem HeadSince.append_inv (h : HeadSince p key mid lock recent older (es ++ log)) :
    (p, .headRead key (some mid)) ∈ es ∨
      ∃ recent', recent = es ++ recent' ∧ HeadSince p key mid lock recent' older log := by
  rcases List.append_eq_append_iff.1 h.split with ⟨mine, rfl, hlog⟩ | ⟨mine, rfl, hmine⟩
  · exact .inr ⟨mine, rfl, hlog, h.acquired, fun e he => h.working e (List.mem_append_right _ he)⟩
  · cases mine with
    | nil =>
      refine .inr ⟨[], by simp, by simpa using hmine.symm, h.acquired, fun e he => absurd he List.not_mem_nil⟩
    | cons x mine =>
      obtain ⟨rfl, -⟩ := List.cons.inj hmine
      exact .inl (by simp)

theorem HeadSince.cons_inv (h : HeadSince p key mid lock recent older ((q, e) :: log))
    (other : e ≠ .headRead key (some mid)) :
    ∃ recent', recent = (q, e) :: recent' ∧ HeadSince p key mid lock recent' older log := by
  have h' : HeadSince p key mid lock recent older ([(q, e)] ++ log) := h
  rcases h'.append_inv with read | before
  · cases List.mem_singleton.1 read
    exact absurd rfl other
  · exact before

end HeadSince

/-! ## The invariant -/

section Least

variable {key : Key} {mid : MsgId} {recent : History Event} {κ κ' : Keyspace} {clock whole : Prop} {p q : ℕ}
  {o : KeyedCall} {σ : Server} {tx : Tx} {t : ℤ} {lock : Token} {x : ℕ × Event}

/-- What keeps the key and the order of a message, and adds to its index what it pushes. -/
theorem Least.keep (h : Least key mid recent κ) {recent' : History Event} (grown : ∀ x ∈ recent, x ∈ recent')
    (msg : ∀ h, κ.msg mid = some h → ∃ h', κ'.msg mid = some h' ∧ h'.key = h.key ∧ h'.order = h.order)
    (scoreOf : ∀ m s, κ'.scoreOf key m = some s →
      (∃ x ∈ recent', x.2.PushesTo key m) ∨ κ.scoreOf key m = some s) : Least key mid recent' κ' := by
  obtain ⟨h, s, hm, hk, ho, least⟩ := h
  obtain ⟨h', hm', hk', ho'⟩ := msg h hm
  refine ⟨h', s, hm', hk'.trans hk, ho'.trans ho, fun m s' hs => ?_⟩
  rcases scoreOf m s' hs with pushed | hs
  · exact .inl pushed
  · rcases least m s' hs with ⟨x, hx, pushed⟩ | le
    · exact .inl ⟨x, grown x hx, pushed⟩
    · exact .inr le

/-- Writing fields other than the key and the order. -/
theorem hset_keeps {m : MsgId} {f : MsgHash} (f_key : f.key = none) (f_order : f.order = none)
    (msg : κ'.msg mid = if mid = m then some (((κ.msg mid).getD {}).set f) else κ.msg mid) {h : MsgHash}
    (hm : κ.msg mid = some h) : ∃ h', κ'.msg mid = some h' ∧ h'.key = h.key ∧ h'.order = h.order := by
  rw [hm, Option.getD_some] at msg
  split_ifs at msg
  · exact ⟨_, msg, by simp [MsgHash.set, f_key], by simp [MsgHash.set, f_order]⟩
  · exact ⟨h, msg, rfl, rfl⟩

/-- Whoever holds the lock of a key is the one that removes a message of it. -/
theorem Least.commit (inv : FenceInv whole σ) (guard : TxGuard clock q o σ tx) (h : Least key mid recent σ.keyed)
    (acquired : (p, Event.acquired key lock) ∈ σ.keyed.log) (holds : σ.keyed.Holds key lock)
    (working : q = p → ¬ (Event.committed tx t).EndsLease key mid lock) :
    Least key mid ((q, .committed tx t) :: recent) ((σ.keyed.commit tx).record q (.committed tx t)) := by
  have grown : ∀ x ∈ recent, x ∈ (q, Event.committed tx t) :: recent := fun x hx => List.mem_cons_of_mem _ hx
  obtain ⟨h₀, s, hm₀, hk₀, ho₀, least⟩ := id h
  have msg := σ.keyed.msg_commit tx mid
  have scoreOf := σ.keyed.scoreOf_commit tx key
  -- a removal of the message would be fenced under the lock of its key
  have kept : ∀ {key' lock'}, tx.fence = some (key', mid, lock') → tx.leases = none → False := by
    intro key' lock' hf unleased
    obtain ⟨h', fenced⟩ := guard.fenced hf
    have eq : h₀ = h' := Option.some.inj (hm₀.symm.trans fenced.stored)
    subst eq
    have same : key = key' := Option.some.inj (hk₀.symm.trans fenced.key)
    subst same
    have owner : lock = lock' := Option.some.inj (holds.symm.trans fenced.holds)
    subst owner
    have mine : q = p := fenced.owner.symm.trans (inv.serials.acquired acquired).1
    refine working mine ⟨by rw [hf]; rfl, fun leases => ?_⟩
    rw [unleased] at leases
    cases leases
  cases tx with
  | dropKey => exact h.keep grown (fun h hm => ⟨h, msg.trans hm, rfl, rfl⟩) fun m s hs => .inr ((scoreOf m).symm.trans hs)
  | push key' mid' body score now default =>
    have fresh : (σ.keyed.msg mid').bind MsgHash.key = none := guard
    have ne : mid ≠ mid' := by
      rintro rfl
      rw [hm₀, Option.bind_some, hk₀] at fresh
      cases fresh
    refine h.keep grown (fun h hm => ⟨h, (msg.trans (if_neg ne)).trans hm, rfl, rfl⟩) fun m s hs => ?_
    have hs := (scoreOf m).symm.trans hs
    dsimp only at hs
    split_ifs at hs with hkm
    · exact .inl ⟨_, List.mem_cons_self .., hkm.1.symm, hkm.2.symm⟩
    · exact .inr hs
  | lease | retry | wait | hold =>
    exact h.keep grown (fun h hm => hset_keeps rfl rfl msg hm) fun m s hs => .inr ((scoreOf m).symm.trans hs)
  | ack key' mid' lock' | expire key' mid' lock' =>
    have ne : mid ≠ mid' := by
      rintro rfl
      exact kept rfl rfl
    refine h.keep grown (fun h hm => ⟨h, (msg.trans (if_neg ne)).trans hm, rfl, rfl⟩) fun m s hs => .inr ?_
    have hs := (scoreOf m).symm.trans hs
    dsimp only at hs
    split_ifs at hs
    exact hs

theorem Least.write (h : Least key mid recent κ) {w : Write} (loose : w.Loose) :
    Least key mid ((q, .wrote w) :: recent) ((κ.write w).2.record q (.wrote w)) := by
  have msg := κ.msg_write w mid
  have scoreOf := κ.scoreOf_write w key
  have grown : ∀ x ∈ recent, x ∈ (q, Event.wrote w) :: recent := fun x hx => List.mem_cons_of_mem _ hx
  cases w with
  | hsetMsg m f =>
    cases loose
    exact h.keep grown (fun h hm => hset_keeps rfl rfl msg hm) fun m s hs => .inr ((scoreOf m).symm.trans hs)
  | zremKey k m =>
    refine h.keep grown (fun h hm => ⟨h, msg.trans hm, rfl, rfl⟩) fun m s hs => .inr ?_
    have hs := (scoreOf m).symm.trans hs
    dsimp only at hs
    split_ifs at hs
    exact hs
  | deleteMsg => cases loose
  | zaddKey => cases loose
  | _ => exact h.keep grown (fun h hm => ⟨h, msg.trans hm, rfl, rfl⟩) fun m s hs => .inr ((scoreOf m).symm.trans hs)

/-- What the head of an index is when it is read. -/
theorem Least.of_head (inv : FenceInv whole σ) (head : (σ.keyed.index key).head = some mid) :
    Least key mid recent σ.keyed := by
  obtain ⟨s, hs⟩ := Keyspace.mem_index_iff.1 (SortedSet.head_mem head)
  obtain ⟨h, hm, hk, ho⟩ := inv.stored.indexed hs
  exact ⟨h, s, hm, hk, ho, fun m s' hs' => .inr (SortedSet.head_le head hs hs')⟩

end Least

namespace Foremost

variable {κ κ' : Keyspace} {clock whole : Prop} {q : ℕ} {o : KeyedCall} {σ : Server} {tx : Tx} {t : ℤ}

theorem commit (inv : FenceInv whole σ) (guard : TxGuard clock q o σ tx) (h : Foremost σ.keyed) :
    Foremost ((σ.keyed.commit tx).record q (.committed tx t)) := by
  have log : ((σ.keyed.commit tx).record q (.committed tx t)).log = (q, .committed tx t) :: σ.keyed.log :=
    congrArg _ (Keyspace.log_commit _ tx)
  refine ⟨fun {p key mid lock recent older} head holds => ?_, ?_⟩
  · rw [log] at head
    obtain ⟨recent, rfl, before⟩ := head.cons_inv fun he => by cases he
    have held : σ.keyed.Holds key lock := by
      unfold Keyspace.Holds at holds ⊢
      rwa [← Keyspace.lock_commit σ.keyed tx]
    refine (h.heads before held).commit inv guard before.mem held fun hq => ?_
    subst hq
    exact head.working _ (List.mem_cons_self ..)
  · rw [log]
    refine h.read.cons fun key mid lock leases => ?_
    cases tx with
    | lease =>
      cases leases
      exact guard.2.2.2.1
    | _ => cases leases

theorem write (h : Foremost σ.keyed) {w : Write} (loose : w.Loose) :
    Foremost ((σ.keyed.write w).2.record q (.wrote w)) := by
  have log : ((σ.keyed.write w).2.record q (.wrote w)).log = (q, .wrote w) :: σ.keyed.log :=
    congrArg _ (Keyspace.log_write _ w)
  refine ⟨fun {p key mid lock recent older} head holds => ?_, ?_⟩
  · rw [log] at head
    obtain ⟨recent, rfl, before⟩ := head.cons_inv fun he => by cases he
    refine (h.heads before ?_).write loose
    unfold Keyspace.Holds at holds ⊢
    rwa [← Keyspace.lock_write σ.keyed w]
  · rw [log]
    exact h.read.cons fun _ _ _ leases => by cases leases

theorem quiet (inv : FenceInv whole σ) (h : Foremost σ.keyed) (same : Quiet σ.keyed κ') : Foremost κ' := by
  obtain ⟨es, log, hes⟩ := same.log
  have keep : ∀ {key mid recent recent'}, Least key mid recent σ.keyed → (∀ x ∈ recent, x ∈ recent') →
      Least key mid recent' κ' := by
    intro key mid recent recent' least grown
    refine least.keep grown (fun h hm => ⟨h, by rw [same.msg, hm], rfl, rfl⟩) fun m s hs => .inr ?_
    rwa [same.scoreOf] at hs
  refine ⟨fun {p key mid lock recent older} head holds => ?_, ?_⟩
  · rw [log] at head
    rcases head.append_inv with read | ⟨recent, rfl, before⟩
    · exact keep (.of_head inv ((hes _ read).2 key _ rfl).symm) fun _ hx => hx
    · have serial := (inv.serials.acquired before.mem).2
      exact keep (h.heads before (same.holds serial holds)) fun x hx => List.mem_append_right _ hx
  · rw [log]
    refine h.read.append fun x hx _ key mid lock leases => ?_
    obtain ⟨gen, ignoreDue, now, t, he⟩ := leases.inv
    have := (hes x hx).1
    rw [he] at this
    cases this

theorem start : Foremost {} :=
  ⟨fun {_ _ _ _ _ _} head _ => absurd head.mem List.not_mem_nil, .nil _⟩

end Foremost

namespace Scenario

end Scenario

end NavigatorEventbus
