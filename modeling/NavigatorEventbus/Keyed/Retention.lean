import NavigatorEventbus.Keyed.Runs

/-!
# No accepted message is lost

Once its push has committed, a message stays stored and in the index of its key until it is acked
under a lease of its own, or handed off to `on_dlq` and removed.  The one command that can lose it is
the repair of a dangling index member, when the message is pushed again between the `HGETALL` that
found no hash and the `ZREM`.
-/

namespace NavigatorEventbus

open Interleave

/-- The message is stored as it was pushed, in the index of its key. -/
def Present (key : Key) (mid : MsgId) (body : Body) (κ : Keyspace) : Prop :=
  ∃ h, κ.msg mid = some h ∧ h.key = some key ∧ h.body = some body ∧ mid ∈ κ.index key

/-- The right to remove a message: a lease of it, or its hand-off, since it was pushed. -/
def MayRemove (key : Key) (mid : MsgId) (body : Body) (p : ℕ) (tx : Tx) (before : History Event) :
    Prop :=
  (∃ lock, tx = .ack key mid lock false ∧ LeasedBy p key mid lock before) ∨
    ∃ d, History.Since p (.deadLetter d) (Event.Breaks key mid) before ∧
      d.message.messageId = mid ∧ d.message.key = key ∧ d.message.body = body

/-- The message of a push that nothing removed since is present, every removal was justified, and
every index entry is that of such a push. -/
structure Lossless (κ : Keyspace) : Prop where
  present : ∀ {q key mid body score now default t},
    History.Since q (.committed (.push key mid body score now default) t) (Event.Removes mid) κ.log →
      Present key mid body κ
  removed : κ.log.Each fun p e before => ∀ tx t mid, e = .committed tx t → tx.removes = some mid →
    ∀ {q key body score now default t'},
      History.Since q (.committed (.push key mid body score now default) t') (Event.Removes mid)
        before → MayRemove key mid body p tx before
  pushed : ∀ {key mid}, mid ∈ κ.index key → ∃ q body score now default t,
    History.Since q (.committed (.push key mid body score now default) t) (Event.Removes mid) κ.log

/-- No standalone expiry, and repairs clear the entries of missing messages only. -/
def RepairsHold (_p : ℕ) (o : KeyedCall) (c : Cmd) (_i : Input) (σ : Server) : Prop :=
  ¬ o.Standalone ∧ RepairsAbsent c σ

instance (p : ℕ) (o : KeyedCall) (c : Cmd) (i : Input) (σ : Server) :
    Decidable (RepairsHold p o c i σ) :=
  inferInstanceAs (Decidable (_ ∧ _))

theorem RepairsHold.ok {p : ℕ} {o : KeyedCall} {c : Cmd} {i : Input} {σ : Server}
    (h : RepairsHold p o c i σ) : FenceOk False False o c i σ :=
  ⟨False.elim, fun hs => absurd hs h.1, False.elim⟩

section Present

variable {key : Key} {mid : MsgId} {body : Body} {κ κ' : Keyspace} {clock whole : Prop} {p : ℕ}
  {o : KeyedCall} {σ : Server}

theorem Present.iff_scoreOf : Present key mid body κ ↔
    ∃ h s, κ.msg mid = some h ∧ h.key = some key ∧ h.body = some body ∧ κ.scoreOf key mid = some s := by
  simp only [Present, Keyspace.mem_index_iff, exists_and_left]

theorem Present.of_eq (h : Present key mid body κ) (msg : κ'.msg mid = κ.msg mid)
    (scoreOf : κ'.scoreOf key mid = κ.scoreOf key mid) : Present key mid body κ' := by
  rw [iff_scoreOf] at h ⊢
  rwa [msg, scoreOf]

/-- Writing fields other than the key and the body. -/
theorem Present.of_hset (h : Present key mid body κ) {m : MsgId} {f : MsgHash} (f_key : f.key = none)
    (f_body : f.body = none)
    (msg : κ'.msg mid = if mid = m then some (((κ.msg mid).getD {}).set f) else κ.msg mid)
    (scoreOf : κ'.scoreOf key mid = κ.scoreOf key mid) : Present key mid body κ' := by
  rw [iff_scoreOf] at h ⊢
  obtain ⟨h, s, hm, hk, hb, hs⟩ := h
  rw [hm, Option.getD_some] at msg
  split_ifs at msg
  · exact ⟨_, s, msg, by simpa [MsgHash.set, f_key] using hk, by simpa [MsgHash.set, f_body] using hb,
      scoreOf.trans hs⟩
  · exact ⟨h, s, msg, hk, hb, scoreOf.trans hs⟩

/-- A stored message is not pushed again. -/
theorem Present.not_pushed (h : Present key mid body σ.keyed) {tx : Tx}
    (guard : TxGuard clock p o σ tx) : tx.pushes ≠ some mid := by
  intro hp
  cases tx with
  | push key' mid' body' score now default =>
    cases hp
    have fresh : (σ.keyed.msg mid).bind MsgHash.key = none := guard
    obtain ⟨h, hm, hk, -⟩ := h
    rw [hm, Option.bind_some, hk] at fresh
    cases fresh
  | _ => cases hp

theorem Present.commit (h : Present key mid body σ.keyed) {tx : Tx} (guard : TxGuard clock p o σ tx)
    (kept : tx.removes ≠ some mid) : Present key mid body (σ.keyed.commit tx) := by
  have msg := σ.keyed.msg_commit tx mid
  have scoreOf := σ.keyed.scoreOf_commit tx key mid
  have fresh := h.not_pushed guard
  cases tx with
  | dropKey => exact h.of_eq msg scoreOf
  | push key' mid' =>
    have ne : mid ≠ mid' := fun eq => fresh (by rw [eq]; rfl)
    exact h.of_eq (msg.trans (if_neg ne)) (scoreOf.trans (if_neg fun hkm => ne hkm.2))
  | lease | retry | wait | hold => exact h.of_hset rfl rfl msg scoreOf
  | ack key' mid' | expire key' mid' =>
    have ne : mid ≠ mid' := fun eq => kept (by rw [eq]; rfl)
    exact h.of_eq (msg.trans (if_neg ne)) (scoreOf.trans (if_neg fun hkm => ne hkm.2))

theorem Present.write (h : Present key mid body κ) {w : Write} (loose : w.Loose)
    (absent : ∀ m ∈ w.repairs, κ.msg m = none) : Present key mid body (κ.write w).2 := by
  have msg := κ.msg_write w mid
  have scoreOf := κ.scoreOf_write w key mid
  cases w with
  | hsetMsg m f =>
    cases loose
    exact h.of_hset rfl rfl msg scoreOf
  | zremKey k m =>
    have ne : mid ≠ m := by
      rintro rfl
      obtain ⟨h, hm, -⟩ := h
      rw [absent mid rfl] at hm
      cases hm
    exact h.of_eq msg (scoreOf.trans (if_neg fun hkm => ne hkm.2))
  | zremAll | zaddDelayed | zremDelayed | hdelHeld => exact h.of_eq msg scoreOf
  | deleteMsg | zaddKey | saddKeys | sremKeys | zaddAll | hsetHeld | setLastscore => cases loose

/-- A removal under the fence is justified. -/
theorem Present.mayRemove (h : Present key mid body σ.keyed) {tx : Tx}
    (guard : TxGuard clock p o σ tx) (own : ¬ o.Standalone) (hr : tx.removes = some mid) :
    MayRemove key mid body p tx σ.keyed.log := by
  obtain ⟨h, hm, hk, hb, -⟩ := h
  have here : ∀ {key' lock h'}, Fenced p key' mid lock h' σ.keyed → h' = h ∧ key' = key := by
    intro key' lock h' fenced
    have eq : h = h' := Option.some.inj (hm.symm.trans fenced.stored)
    subst eq
    exact ⟨rfl, Option.some.inj (fenced.key.symm.trans hk)⟩
  have handed : ∀ {own}, own = false → HandedOff p key mid h own σ.keyed.log →
      MayRemove key mid body p tx σ.keyed.log := by
    rintro own howns ⟨d, since, hid, same⟩
    obtain ⟨m, hmsg, same⟩ := same howns
    refine .inr ⟨d, since, hid, ?_, ?_⟩
    · exact same.2.1.trans (Option.some.inj ((toMessage_key hmsg).symm.trans hk))
    · rw [same.2.2.1, toMessage_body hmsg, hb, Option.getD_some]
  cases tx with
  | ack key' mid' lock dropped =>
    cases hr
    obtain ⟨h', fenced, leased, dlq⟩ := guard
    obtain ⟨rfl, rfl⟩ := here fenced
    cases dropped with
    | false => exact .inl ⟨lock, rfl, leased⟩
    | true => exact handed rfl (dlq rfl)
  | expire key' mid' lock unhold own' =>
    cases hr
    obtain ⟨h', fenced, dlq, -, standalone⟩ := guard
    obtain ⟨rfl, rfl⟩ := here fenced
    exact handed (Bool.eq_false_iff.2 fun ho => own (standalone ho)) dlq
  | _ => cases hr

end Present

namespace Lossless

variable {key : Key} {mid : MsgId} {κ κ' : Keyspace} {clock whole : Prop} {p : ℕ} {o : KeyedCall}
  {σ : Server} {tx : Tx} {t : ℤ}

/-- A transaction that is not the push of an index entry it leaves leaves what was there. -/
theorem index_commit (inv : FenceInv whole σ) (guard : TxGuard clock p o σ tx)
    (hm : mid ∈ (σ.keyed.commit tx).index key) :
    (∃ body score now default, tx = .push key mid body score now default) ∨
      mid ∈ σ.keyed.index key ∧ tx.removes ≠ some mid := by
  obtain ⟨s, hs⟩ := Keyspace.mem_index_iff.1 hm
  rw [Keyspace.scoreOf_commit] at hs
  have old : ∀ {s}, σ.keyed.scoreOf key mid = some s → mid ∈ σ.keyed.index key :=
    fun hs => Keyspace.mem_index_iff.2 ⟨_, hs⟩
  have removal : ∀ {key' mid' lock}, tx.fence = some (key', mid', lock) →
      (if key = key' ∧ mid = mid' then none else σ.keyed.scoreOf key mid) = some s →
        mid ∈ σ.keyed.index key ∧ mid' ≠ mid := by
    intro key' mid' lock hf hs
    split_ifs at hs with hkm
    refine ⟨old hs, ?_⟩
    rintro rfl
    obtain ⟨h, hm, hk, -⟩ := inv.stored.indexed hs
    obtain ⟨h', fenced⟩ := guard.fenced hf
    rw [fenced.stored] at hm
    cases hm
    exact hkm ⟨Option.some.inj (hk.symm.trans fenced.key), rfl⟩
  cases tx with
  | push key' mid' body score now default =>
    dsimp only at hs
    split_ifs at hs with hkm
    · obtain ⟨rfl, rfl⟩ := hkm
      exact .inl ⟨body, score, now, default, rfl⟩
    · exact .inr ⟨old hs, nofun⟩
  | ack key' mid' lock dropped =>
    obtain ⟨hm, ne⟩ := removal rfl hs
    exact .inr ⟨hm, fun h => ne (Option.some.inj h)⟩
  | expire key' mid' lock unhold own =>
    obtain ⟨hm, ne⟩ := removal rfl hs
    exact .inr ⟨hm, fun h => ne (Option.some.inj h)⟩
  | dropKey | lease | retry | wait | hold => exact .inr ⟨old hs, nofun⟩

theorem commit (inv : FenceInv whole σ) (h : Lossless σ.keyed) (guard : TxGuard clock p o σ tx)
    (own : ¬ o.Standalone) : Lossless ((σ.keyed.commit tx).record p (.committed tx t)) := by
  have log : ((σ.keyed.commit tx).record p (.committed tx t)).log =
      (p, .committed tx t) :: σ.keyed.log := congrArg _ (Keyspace.log_commit _ tx)
  refine ⟨fun {q key mid body score now default t'} since => ?_, ?_, fun {key mid} hm => ?_⟩
  · rw [log] at since
    rcases since.cons_inv with heq | ⟨since, kept⟩
    · cases heq
      have hm := (σ.keyed.msg_commit (.push key mid body score now default) mid).trans
        (if_pos rfl)
      have hs := (σ.keyed.scoreOf_commit (.push key mid body score now default) key
        mid).trans (if_pos ⟨rfl, rfl⟩)
      exact Present.iff_scoreOf.2 ⟨_, score, hm, rfl, rfl, hs⟩
    · exact ((h.present since).commit guard kept).of_eq rfl rfl
  · rw [log]
    refine h.removed.cons fun tx' t' mid he hr {q key body score now default t''} since => ?_
    cases he
    exact (h.present since).mayRemove guard own hr
  · rw [log]
    rcases index_commit inv guard hm with ⟨body, score, now, default, rfl⟩ | ⟨hm, kept⟩
    · exact ⟨p, body, score, now, default, t, .self⟩
    · obtain ⟨q, body, score, now, default, t', since⟩ := h.pushed hm
      exact ⟨q, body, score, now, default, t', since.cons kept⟩

theorem of_kept (h : Lossless κ)
    (kept : ∀ {key mid body}, Present key mid body κ → Present key mid body κ')
    (index : ∀ {key mid}, mid ∈ κ'.index key → mid ∈ κ.index key)
    {es : History Event} (log : κ'.log = es ++ κ.log) (quiet : ∀ x ∈ es, ∀ tx t, x.2 ≠ .committed tx t) :
    Lossless κ' := by
  refine ⟨fun {q key mid body score now default t} since => ?_, ?_, fun {key mid} hm => ?_⟩
  · rw [log] at since
    exact kept (h.present (since.of_append fun hm => quiet _ hm _ _ rfl))
  · rw [log]
    exact h.removed.append fun x hx _ tx t _ he => absurd he (quiet x hx tx t)
  · obtain ⟨q, body, score, now, default, t, since⟩ := h.pushed (index hm)
    refine ⟨q, body, score, now, default, t, ?_⟩
    rw [log]
    refine since.append fun x hx hr => ?_
    cases he : x.2 with
    | committed tx t => exact quiet x hx tx t he
    | _ =>
      rw [he] at hr
      exact hr

end Lossless

/-- In every run whose repairs clear the entries of missing messages only, no message is lost. -/
theorem nothing_lost {P : KeyedPool} (hr : Pool.Reach (Pool.Meets RepairsHold) KeyedPool.start P) :
    Lossless P.shared.keyed := by
  refine keyed_invariant RepairsHold.ok ?_ ?_ ?_ ?_ hr
  · exact fun inv hC guard h => h.commit inv guard hC.1
  · intro p o w i σ _ hC loose h
    have log : ((σ.keyed.write w).2.record p (.wrote w)).log = [(p, .wrote w)] ++ σ.keyed.log :=
      congrArg _ (Keyspace.log_write _ w)
    refine h.of_kept (fun hp => (hp.write loose hC.2).of_eq rfl rfl) (fun {key mid} hm => ?_) log ?_
    · obtain ⟨s, hs⟩ := Keyspace.mem_index_iff.1 hm
      have hs := (σ.keyed.scoreOf_write w key mid).symm.trans hs
      refine Keyspace.mem_index_iff.2 ⟨s, ?_⟩
      cases w with
      | zremKey k m =>
        dsimp only at hs
        split_ifs at hs
        exact hs
      | zaddKey => cases loose
      | _ => exact hs
    · intro x hx tx t
      rw [List.mem_singleton.1 hx]
      nofun
  · intro _ σ κ' _ quiet h
    obtain ⟨es, log, hes⟩ := quiet.log
    refine h.of_kept (fun hp => hp.of_eq (by rw [quiet.msg]) (quiet.scoreOf _ _))
      (fun hm => by rwa [quiet.index] at hm) log ?_
    intro x hx tx t he
    have := (hes x hx).1
    rw [he] at this
    exact this
  · refine ⟨fun since => ?_, .nil _, fun {key mid} hm => ?_⟩
    · obtain ⟨l, l', hl, -⟩ := since
      cases l <;> cases hl
    · exact absurd hm (SortedSet.notMem_empty mid)

/-! ## A repair that comes too late -/

namespace Scenario

/-- A lease whose lock has lapsed finds the head acked by another; it is pushed again before the
repair removes it from the index. -/
def repaired : List (Act actors) :=
  whole 0 push 8 ++ begin 1 (.leaseKey "k" false 3) 2 ++ [.disturb (.lapse "k")] ++
    whole 0 (.leaseKey "k" false 3) 9 ++ begin 0 (.apply (lease 0 1 1) .ack) 5 ++ [.exec 1 {}] ++
    begin 2 push 6 ++ [.exec 1 {}]

end Scenario

open Scenario in
theorem message_lost : ¬ ∀ P : KeyedPool,
    Pool.Reach (Pool.Meets Unrestricted) KeyedPool.start P → Lossless P.shared.keyed := by
  intro h
  have run : ∃ P ∈ KeyedPool.start.runIf Unrestricted repaired,
      P.shared.keyed.scoreOf "k" "a" = none ∧ P.shared.keyed.log.take 2 =
        [(1, .wrote (.zremKey "k" "a")), (2, .committed (.push "k" "a" message.body 1 0 false) 0)] := by
    decide +kernel
  obtain ⟨P, hP, unlisted, log⟩ := run
  have since : History.Since 2 (.committed (.push "k" "a" message.body 1 0 false) 0)
      (Event.Removes "a") P.shared.keyed.log := by
    rw [← List.take_append_drop 2 P.shared.keyed.log, log]
    refine ⟨[(1, .wrote (.zremKey "k" "a"))], P.shared.keyed.log.drop 2, rfl, fun x hx => ?_⟩
    rw [List.mem_singleton.1 hx]
    exact id
  obtain ⟨-, -, -, -, listed⟩ := (h P (.of_runIf hP)).present since
  obtain ⟨s, hs⟩ := Keyspace.mem_index_iff.1 listed
  rw [unlisted] at hs
  cases hs

open Scenario in
theorem nothing_lost_witness : ∃ P : KeyedPool, "a" ∈ P.shared.keyed.index "k" ∧
    Lossless P.shared.keyed := by
  have run : ∃ P ∈ KeyedPool.start.runIf RepairsHold
      (whole 0 push 8 ++ whole 0 (.leaseKey "k" false 3) 9), "a" ∈ P.shared.keyed.index "k" := by
    decide +kernel
  obtain ⟨P, hP, stored⟩ := run
  exact ⟨P, stored, nothing_lost (.of_runIf hP)⟩

end NavigatorEventbus
