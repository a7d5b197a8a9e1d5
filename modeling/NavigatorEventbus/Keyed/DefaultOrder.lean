import NavigatorEventbus.Keyed.Idempotence

/-!
# The default order

A push without an order gets the enqueue time as its score, or the last default score and a little more when that
is later.  As long as the scores stay below 2⁴³ ms the little more is never rounded away, so the scores increase
in the order of the commits, whatever the clocks of the producers say, and the messages of a key are leased in
that order.
-/

namespace NavigatorEventbus

open Interleave

/-! ## Default pushes -/

/-- The key, the message and the score of a default push. -/
def Event.defaultPush : Event → Option (Key × MsgId × ℚ)
  | .committed (.push key mid _ score _ true) _ => some (key, mid, score)
  | _ => none

/-- What takes `mid` out of the index of `key`, or pushes it again. -/
def Event.Unlists (key : Key) (mid : MsgId) (e : Event) : Prop :=
  e.Pushes mid ∨ e.Removes mid ∨ e = .wrote (.zremKey key mid)

/-- `mid` was pushed under `key` with this default score, and has not been taken out since. -/
def Listed (key : Key) (mid : MsgId) (score : ℚ) (log : History Event) : Prop :=
  ∃ q e, e.defaultPush = some (key, mid, score) ∧ History.Since q e (Event.Unlists key mid) log

/-- The score of a default push is more than those of all default pushes before. -/
def Increasing (log : History Event) : Prop :=
  log.Each fun _ e before => ∀ key mid score, e.defaultPush = some (key, mid, score) →
    ∀ q e' key' mid' score', (q, e') ∈ before → e'.defaultPush = some (key', mid', score') → score' < score

/-- Default scores are exact doubles, they increase in the order of the commits, and of the default pushes of
a key the one with the least score is leased. -/
structure DefaultOrder (log : History Event) : Prop where
  exact : ∀ q e key mid score, (q, e) ∈ log → e.defaultPush = some (key, mid, score) →
    Double.IsDouble score ∧ ∃ n : ℤ, score = n / 2 ^ 10
  increasing : Increasing log
  leased : log.Each fun _ e before => ∀ key mid lock gen ignoreDue now t,
    e = .committed (.lease key mid lock gen ignoreDue now) t →
      ∀ score mid' score', Listed key mid score before → Listed key mid' score' before → score ≤ score'

/-- The clocks of the producers are below 2⁴³ ms. -/
def ClockBelow (o : KeyedCall) (c : Cmd) (i : Input) : Prop :=
  match o.op, c with
  | .push _ _ _ _, .now => |i.now| < 2 ^ 43
  | _, _ => True

/-- A default push that is committed finds the last score below 2⁴³. -/
def ScoreBelow (c : Cmd) (σ : Server) : Prop :=
  match c with
  | .keyed (.exec _ (.push _ _ _ _ _ true)) => ∀ s ∈ σ.keyed.lastscore, s < 2 ^ 43
  | _ => True

instance (o : KeyedCall) (c : Cmd) (i : Input) : Decidable (ClockBelow o c i) := by
  apply o.op.casesOn (motive := fun op => Decidable (ClockBelow ⟨o.queue, op⟩ c i)) <;> intros <;>
    apply c.casesOn (motive := fun c => Decidable (ClockBelow ⟨o.queue, _⟩ c i)) <;> intros <;>
    dsimp only [ClockBelow] <;> infer_instance

instance (c : Cmd) (σ : Server) : Decidable (ScoreBelow c σ) := by
  unfold ScoreBelow
  split <;> infer_instance

/-- The clocks and the scores stay below 2⁴³, and a head that a caller expires by itself is stored under its
key. -/
def Unsaturated (_p : ℕ) (o : KeyedCall) (c : Cmd) (i : Input) (σ : Server) : Prop :=
  ClockBelow o c i ∧ ScoreBelow c σ ∧ (o.Standalone → NamedAt c σ)

instance (p : ℕ) (o : KeyedCall) (c : Cmd) (i : Input) (σ : Server) : Decidable (Unsaturated p o c i σ) :=
  inferInstanceAs (Decidable (_ ∧ _))

/-! ## Scores -/

/-- A multiple of 2⁻¹⁰ of at most 2⁴³. -/
def Fine (s : ℚ) : Prop := ∃ n : ℤ, |n| ≤ 2 ^ 53 ∧ s = n / 2 ^ 10

theorem Fine.isDouble {s : ℚ} (h : Fine s) : Double.IsDouble s := by
  obtain ⟨n, bound, rfl⟩ := h
  exact Double.isDouble_div bound (by norm_num)

theorem fine_intCast {now : ℤ} (h : |now| < 2 ^ 43) : Fine now := by
  refine ⟨now * 2 ^ 10, ?_, ?_⟩
  · rw [abs_lt] at h
    rw [abs_le]
    omega
  · push_cast
    ring

/-- The next score after one below 2⁴³ is exact. -/
theorem Fine.succ {s : ℚ} (h : Fine s) (below : s < 2 ^ 43) : Fine (s + 1 / 1024) := by
  obtain ⟨n, bound, rfl⟩ := h
  have less : n < 2 ^ 53 := by
    rw [div_lt_iff₀ (by norm_num)] at below
    have : (n : ℚ) < ((2 ^ 53 : ℤ) : ℚ) := by
      push_cast
      linarith
    exact_mod_cast this
  refine ⟨n + 1, ?_, ?_⟩
  · rw [abs_le] at bound ⊢
    omega
  · push_cast
    ring

theorem defaultScore_none {now : ℤ} (h : |now| < 2 ^ 43) : KeyedQueue.defaultScore now none = now :=
  (fine_intCast h).isDouble.round

theorem defaultScore_some {now : ℤ} {s : ℚ} (h : |now| < 2 ^ 43) (fine : Fine s) (below : s < 2 ^ 43) :
    KeyedQueue.defaultScore now (some s) = max (now : ℚ) (s + 1 / 1024) := by
  rw [KeyedQueue.defaultScore, (fine_intCast h).isDouble.round, (fine.succ below).isDouble.round]

/-- A default score is exact, and more than the last one. -/
theorem defaultScore_fine {now : ℤ} {last : Option ℚ} (h : |now| < 2 ^ 43) (fine : ∀ s ∈ last, Fine s)
    (below : ∀ s ∈ last, s < 2 ^ 43) :
    Fine (KeyedQueue.defaultScore now last) ∧ ∀ s ∈ last, s < KeyedQueue.defaultScore now last := by
  cases last with
  | none =>
    rw [defaultScore_none h]
    exact ⟨fine_intCast h, nofun⟩
  | some s =>
    have fine := fine s rfl
    have below := below s rfl
    rw [defaultScore_some h fine below]
    refine ⟨?_, fun s' hs => ?_⟩
    · rcases max_choice (now : ℚ) (s + 1 / 1024) with eq | eq <;> rw [eq]
      · exact fine_intCast h
      · exact fine.succ below
    · cases hs
      exact lt_max_of_lt_right (by linarith)

/-- The default scores so far are exact, increase, and are at most the last one. -/
structure Scored (κ : Keyspace) : Prop where
  last : ∀ s ∈ κ.lastscore, Fine s
  below : ∀ {q e key mid score}, (q, e) ∈ κ.log → e.defaultPush = some (key, mid, score) →
    Fine score ∧ ∃ s ∈ κ.lastscore, score ≤ s
  increasing : Increasing κ.log

namespace Scored

variable {κ κ' : Keyspace} {o : KeyedCall} {p : ℕ} {tx : Tx} {t : ℤ}

theorem of_kept (h : Scored κ) (lastscore : κ'.lastscore = κ.lastscore) {es : History Event}
    (log : κ'.log = es ++ κ.log) (quiet : ∀ x ∈ es, x.2.defaultPush = none) : Scored κ' := by
  refine ⟨by rw [lastscore]; exact h.last, fun {q e key mid score} he hp => ?_, ?_⟩
  · rw [lastscore]
    rw [log] at he
    rcases List.mem_append.1 he with he | he
    · have := (quiet _ he).symm.trans hp
      cases this
    · exact h.below he hp
  · rw [Increasing, log]
    refine h.increasing.append fun x hx _ key mid score hp => ?_
    have := (quiet _ hx).symm.trans hp
    cases this

/-- A transaction is a default push, or leaves the last score. -/
theorem defaultPush_cases (κ : Keyspace) (tx : Tx) (t : ℤ) :
    (∃ key mid body score now, tx = .push key mid body score now true) ∨
      (Event.committed tx t).defaultPush = none ∧ (κ.commit tx).lastscore = κ.lastscore := by
  have lastscore := κ.lastscore_commit tx
  cases tx with
  | push key mid body score now default =>
    cases default with
    | true => exact .inl ⟨key, mid, body, score, now, rfl⟩
    | false => exact .inr ⟨rfl, lastscore⟩
  | _ => exact .inr ⟨rfl, lastscore⟩

theorem commit (h : Scored κ) (sound : TxSound (fun now => |now| < 2 ^ 43) o κ tx)
    (below : ∀ key mid body score now, tx = .push key mid body score now true → ∀ s ∈ κ.lastscore, s < 2 ^ 43) :
    Scored ((κ.commit tx).record p (.committed tx t)) := by
  have log : ((κ.commit tx).record p (.committed tx t)).log = (p, .committed tx t) :: κ.log :=
    congrArg _ (Keyspace.log_commit _ tx)
  rcases defaultPush_cases κ tx t with ⟨key, mid, body, score, now, rfl⟩ | ⟨quiet, same⟩
  · obtain ⟨order, -, default, computed, -, clock⟩ := sound
    cases order with
    | some => cases default
    | none =>
      obtain ⟨fine, more⟩ := defaultScore_fine clock h.last (below _ _ _ _ _ rfl)
      rw [Option.getD_none] at computed
      rw [← computed] at fine more
      have last := κ.lastscore_commit (.push key mid body score now true)
      refine ⟨fun s hs => ?_, fun {q e key' mid' score'} he hp => ?_, ?_⟩
      · cases last.symm.trans hs
        exact fine
      · rw [log] at he
        rcases List.mem_cons.1 he with heq | he
        · cases heq
          cases hp
          exact ⟨fine, score, last, le_refl _⟩
        · obtain ⟨fine', s, hs, le⟩ := h.below he hp
          exact ⟨fine', score, last, le.trans (more s hs).le⟩
      · rw [Increasing, log]
        refine h.increasing.cons fun key' mid' score' hp q e' key'' mid'' score'' he' hp' => ?_
        cases hp
        obtain ⟨-, s, hs, le⟩ := h.below he' hp'
        exact le.trans_lt (more s hs)
  · refine @of_kept _ _ h same [(p, .committed tx t)] log fun x hx => ?_
    rw [List.mem_singleton.1 hx]
    exact quiet

theorem write (h : Scored κ) {w : Write} (loose : w.Loose) :
    Scored ((κ.write w).2.record p (.wrote w)) := by
  have lastscore : (κ.write w).2.lastscore = κ.lastscore := by
    rw [Keyspace.lastscore_write]
    cases w with
    | setLastscore => cases loose
    | _ => rfl
  refine @of_kept _ _ h lastscore [(p, .wrote w)] (congrArg _ (Keyspace.log_write _ w)) fun x hx => ?_
  rw [List.mem_singleton.1 hx]
  rfl

theorem quiet (h : Scored κ) (same : Quiet κ κ') : Scored κ' := by
  obtain ⟨es, log, hes⟩ := same.log
  refine h.of_kept same.lastscore log fun x hx => ?_
  have := (hes x hx).1
  cases he : x.2 with
  | committed =>
    rw [he] at this
    cases this
  | _ => rfl

theorem start : Scored {} :=
  ⟨nofun, fun he => absurd he List.not_mem_nil, .nil _⟩

end Scored

theorem Unsaturated.clock {p : ℕ} {o : KeyedCall} {c : Cmd} {i : Input} {σ : Server}
    (h : Unsaturated p o c i σ) (pushes : o.Pushes) (now : c = .now) : |i.now| < 2 ^ 43 := by
  obtain ⟨q, op⟩ := o
  subst now
  cases op with
  | push => exact h.1
  | _ => cases pushes

theorem Unsaturated.ok {p : ℕ} {o : KeyedCall} {c : Cmd} {i : Input} {σ : Server}
    (h : Unsaturated p o c i σ) : FenceOk False False o c i σ :=
  ⟨False.elim, h.2.2, False.elim⟩

/-- In every run whose clocks and scores stay below 2⁴³, the default scores are exact and increase. -/
theorem scored {P : KeyedPool} (hr : Pool.Reach (Pool.Meets Unsaturated) KeyedPool.start P) :
    Scored P.shared.keyed :=
  (@snapshots_invariant (fun now => |now| < 2 ^ 43) _ Unsaturated.clock)
    (fun hC sound h => h.commit sound fun _ _ _ _ _ push => by subst push; exact hC.2.1) (fun loose h => h.write loose)
    (fun same h => h.quiet same) .start hr

/-! ## Leases -/

/-- A default push that is listed is in the index with its score; whoever has read the head of a key and still holds
its lock has read the least of them; and what was leased was the least. -/
structure Headed (κ : Keyspace) : Prop where
  placed : ∀ {key mid score}, Listed key mid score κ.log → κ.scoreOf key mid = some score
  heads : ∀ {p key mid lock}, ReadHead p key mid lock κ.log → κ.Holds key lock →
    (∃ og, κ.origin mid = some og ∧ og.key = key) ∧
      ∀ score mid' score', Listed key mid score κ.log → Listed key mid' score' κ.log → score ≤ score'
  leased : κ.log.Each fun _ e before => ∀ key mid lock gen ignoreDue now t,
    e = .committed (.lease key mid lock gen ignoreDue now) t →
      ∀ score mid' score', Listed key mid score before → Listed key mid' score' before → score ≤ score'

section Logs

variable {key : Key} {mid : MsgId} {score : ℚ} {log es : History Event} {p q : ℕ} {e : Event} {lock : Token}

theorem Increasing.of_append (h : Increasing (es ++ log)) : Increasing log := by
  intro later p e before hlog
  exact h (es ++ later) p e before (by rw [hlog, List.append_assoc])

theorem Listed.cons_inv (h : Listed key mid score ((q, e) :: log)) :
    e.defaultPush = some (key, mid, score) ∨ Listed key mid score log ∧ ¬ e.Unlists key mid := by
  obtain ⟨q', e', push, since⟩ := h
  rcases since.cons_inv with heq | ⟨since, kept⟩
  · cases heq
    exact .inl push
  · exact .inr ⟨⟨q', e', push, since⟩, kept⟩

/-- Events that are no default pushes list nothing. -/
theorem Listed.of_append (h : Listed key mid score (es ++ log)) (quiet : ∀ x ∈ es, x.2.defaultPush = none) :
    Listed key mid score log := by
  obtain ⟨q', e', push, since⟩ := h
  refine ⟨q', e', push, since.of_append fun he => ?_⟩
  have := (quiet _ he).symm.trans push
  cases this

theorem Listed.mem (h : Listed key mid score log) :
    ∃ q e, (q, e) ∈ log ∧ e.defaultPush = some (key, mid, score) := by
  obtain ⟨q, e, push, since⟩ := h
  exact ⟨q, e, since.mem, push⟩

theorem ReadHead.acquired (h : ReadHead p key mid lock log) : (p, Event.acquired key lock) ∈ log := by
  obtain ⟨es, older, own, -, acquired⟩ := h
  refine History.mem_own.1 ?_
  rw [own]
  exact List.mem_append_right _ (List.mem_cons_of_mem _ acquired)

/-- A head that has been read was read by the last command, or the last command of the actor was none of a
transaction. -/
theorem ReadHead.cons_inv (h : ReadHead p key mid lock ((q, e) :: log)) :
    e = .headRead key (some mid) ∨ ReadHead p key mid lock log ∧ (q = p → ¬ e.IsFenced) := by
  obtain ⟨es, older, own, quiet, acquired⟩ := h
  by_cases hq : q = p
  · subst hq
    rw [History.own_cons_self] at own
    cases es with
    | nil =>
      obtain ⟨rfl, -⟩ := List.cons.inj own
      exact .inl rfl
    | cons x es =>
      obtain ⟨rfl, rest⟩ := List.cons.inj own
      exact .inr ⟨⟨es, older, rest, fun x hx => quiet x (List.mem_cons_of_mem _ hx), acquired⟩,
        fun _ => quiet _ (List.mem_cons_self ..)⟩
  · rw [History.own_cons_of_ne hq] at own
    exact .inr ⟨⟨es, older, own, quiet, acquired⟩, fun h => absurd h hq⟩

theorem ReadHead.append_inv (h : ReadHead p key mid lock (es ++ log)) :
    (∃ x ∈ es, x.2 = .headRead key (some mid)) ∨ ReadHead p key mid lock log := by
  induction es with
  | nil => exact .inr h
  | cons x es ih =>
    rcases ReadHead.cons_inv (e := x.2) (q := x.1) h with read | ⟨h, -⟩
    · exact .inl ⟨x, List.mem_cons_self .., read⟩
    · rcases ih h with ⟨y, hy, read⟩ | h
      · exact .inl ⟨y, List.mem_cons_of_mem _ hy, read⟩
      · exact .inr h

end Logs

namespace Headed

variable {κ' : Keyspace} {clock whole : Prop} {o : KeyedCall} {p : ℕ} {σ : Server} {tx : Tx} {t : ℤ}

theorem placed_commit (h : Headed σ.keyed) {key : Key} {mid : MsgId} {score : ℚ}
    (listed : Listed key mid score ((p, .committed tx t) :: σ.keyed.log)) :
    (σ.keyed.commit tx).scoreOf key mid = some score := by
  have scoreOf := σ.keyed.scoreOf_commit tx key mid
  rcases listed.cons_inv with push | ⟨listed, kept⟩
  · cases tx with
    | push key' mid' body score' now default =>
      cases default with
      | true =>
        cases push
        exact scoreOf.trans (if_pos ⟨rfl, rfl⟩)
      | false => cases push
    | _ => cases push
  · rw [← h.placed listed]
    cases tx with
    | push key' mid' =>
      have ne : mid ≠ mid' := fun eq => kept (.inl (congrArg some eq.symm))
      exact scoreOf.trans (if_neg fun hkm => ne hkm.2)
    | ack key' mid' | expire key' mid' =>
      have ne : mid ≠ mid' := fun eq => kept (.inr (.inl (congrArg some eq.symm)))
      exact scoreOf.trans (if_neg fun hkm => ne hkm.2)
    | _ => exact scoreOf

/-- Nobody else removes or pushes the message whose head an actor has read while it holds the lock. -/
theorem origin_commit (inv : FenceInv whole σ) (guard : TxGuard clock p o σ tx) {q : ℕ} {key : Key}
    {mid : MsgId} {lock : Token} {og : Origin} (head : ReadHead q key mid lock σ.keyed.log)
    (holds : σ.keyed.Holds key lock) (unfenced : p = q → tx.fence = none)
    (stored : σ.keyed.origin mid = some og) (named : og.key = key) :
    tx.pushes ≠ some mid ∧ (σ.keyed.commit tx).origin mid = some og := by
  have found : (σ.keyed.msg mid).bind MsgHash.key = some key := by
    unfold Keyspace.origin at stored
    obtain ⟨h, hm, hk⟩ := Option.bind_eq_some_iff.1 stored
    obtain ⟨key', hk', rfl⟩ := Option.map_eq_some_iff.1 hk
    rw [hm, Option.bind_some, hk', ← named]
  have new : tx.pushes ≠ some mid := by
    intro hp
    cases tx with
    | push key' mid' =>
      cases hp
      cases found.symm.trans (guard : (σ.keyed.msg mid).bind MsgHash.key = none)
    | _ => cases hp
  have removal : ∀ {key' lock'}, tx.fence ≠ some (key', mid, lock') := by
    intro key' lock' hf
    obtain ⟨h, fenced⟩ := guard.fenced hf
    rw [fenced.stored, Option.bind_some, fenced.key] at found
    cases found
    have same : lock = lock' := Option.some.inj (holds.symm.trans fenced.holds)
    have owner := (inv.serials.acquired head.acquired).1
    have none := unfenced (fenced.owner.symm.trans ((congrArg Token.owner same).symm.trans owner))
    rw [hf] at none
    cases none
  refine ⟨new, ?_⟩
  rcases σ.keyed.origin_commit tx mid with ⟨og', hog, -⟩ | ⟨removed, -⟩ | ⟨-, -, same⟩
  · cases tx with
    | push =>
      cases hog
      exact absurd rfl new
    | _ => cases hog
  · cases tx with
    | ack | expire =>
      cases removed
      exact absurd rfl removal
    | _ => cases removed
  · exact same.trans stored

theorem commit (inv : FenceInv whole σ) (guard : TxGuard clock p o σ tx) (h : Headed σ.keyed)
    (increasing : Increasing ((p, .committed tx t) :: σ.keyed.log)) :
    Headed ((σ.keyed.commit tx).record p (.committed tx t)) := by
  have log : ((σ.keyed.commit tx).record p (.committed tx t)).log = (p, .committed tx t) :: σ.keyed.log :=
    congrArg _ (Keyspace.log_commit _ tx)
  refine ⟨fun {key mid score} listed => ?_, fun {q key mid lock} head holds => ?_, ?_⟩
  · rw [log] at listed
    exact h.placed_commit listed
  · rw [log] at head
    rcases head.cons_inv with heq | ⟨head, unfenced⟩
    · cases heq
    · have before : σ.keyed.Holds key lock := by
        unfold Keyspace.Holds at holds ⊢
        rwa [← Keyspace.lock_commit σ.keyed tx]
      obtain ⟨⟨og, stored, named⟩, least⟩ := h.heads head before
      obtain ⟨new, same⟩ := origin_commit inv guard head before
        (fun hpq => Option.not_isSome_iff_eq_none.1 (unfenced hpq)) stored named
      refine ⟨⟨og, same, named⟩, fun score mid' score' listed listed' => ?_⟩
      rw [log] at listed listed'
      rcases listed.cons_inv with push | ⟨listed, -⟩
      · cases tx with
        | push key' mid' body score' now default =>
          cases default with
          | true =>
            cases push
            exact absurd rfl new
          | false => cases push
        | _ => cases push
      · rcases listed'.cons_inv with push | ⟨listed', -⟩
        · obtain ⟨q', e', he', push'⟩ := listed.mem
          exact (increasing [] p _ _ rfl key mid' score' push q' e' key mid score he' push').le
        · exact least score mid' score' listed listed'
  · rw [log]
    refine h.leased.cons fun key mid lock gen ignoreDue now t' he => ?_
    cases he
    obtain ⟨⟨_, _, fenced, -⟩, -, -, head, -⟩ := guard
    exact (h.heads head fenced.holds).2

theorem write (h : Headed σ.keyed) {w : Write} (loose : w.Loose) :
    Headed ((σ.keyed.write w).2.record p (.wrote w)) := by
  have log : ((σ.keyed.write w).2.record p (.wrote w)).log = (p, .wrote w) :: σ.keyed.log :=
    congrArg _ (Keyspace.log_write _ w)
  refine ⟨fun {key mid score} listed => ?_, fun {q key mid lock} head holds => ?_, ?_⟩
  · rw [log] at listed
    rcases listed.cons_inv with push | ⟨listed, kept⟩
    · cases push
    · have scoreOf := σ.keyed.scoreOf_write w key mid
      rw [← h.placed listed]
      cases w with
      | zremKey k m =>
        refine scoreOf.trans (if_neg fun hkm => kept (.inr (.inr ?_)))
        rw [hkm.1, hkm.2]
      | zaddKey => cases loose
      | _ => exact scoreOf
  · rw [log] at head
    rcases head.cons_inv with heq | ⟨head, -⟩
    · cases heq
    · have before : σ.keyed.Holds key lock := by
        unfold Keyspace.Holds at holds ⊢
        rwa [← Keyspace.lock_write σ.keyed w]
      obtain ⟨⟨og, stored, named⟩, least⟩ := h.heads head before
      refine ⟨⟨og, (Keyspace.origin_write loose mid).trans stored, named⟩, fun score mid' score' listed listed' => ?_⟩
      rw [log] at listed listed'
      have quiet : ∀ x ∈ [(p, Event.wrote w)], x.2.defaultPush = none := fun x hx => by
        rw [List.mem_singleton.1 hx]
        rfl
      exact least score mid' score' (@Listed.of_append _ _ _ _ [_] listed quiet)
        (@Listed.of_append _ _ _ _ [_] listed' quiet)
  · rw [log]
    refine h.leased.cons fun key mid lock gen ignoreDue now t' he => ?_
    cases he

theorem quiet (inv : FenceInv whole σ) (h : Headed σ.keyed) (same : Quiet σ.keyed κ') : Headed κ' := by
  obtain ⟨es, log, hes⟩ := same.log
  have noPush : ∀ x ∈ es, x.2.defaultPush = none := by
    intro x hx
    have := (hes x hx).1
    cases he : x.2 with
    | committed =>
      rw [he] at this
      cases this
    | _ => rfl
  have origin : ∀ mid, κ'.origin mid = σ.keyed.origin mid := fun mid => Keyspace.origin_of_msg (by rw [same.msg])
  refine ⟨fun {key mid score} listed => ?_, fun {q key mid lock} head holds => ?_, ?_⟩
  · rw [log] at listed
    exact (same.scoreOf key mid).trans (h.placed (listed.of_append noPush))
  · rw [log] at head ⊢
    simp only [origin]
    rcases head.append_inv with ⟨x, hx, read⟩ | head
    · have hhead := ((hes x hx).2 key _ read).symm
      obtain ⟨s, hs⟩ := Keyspace.mem_index_iff.1 (SortedSet.head_mem hhead)
      obtain ⟨h₀, hm, hk, -⟩ := inv.stored.indexed hs
      refine ⟨⟨⟨key, h₀.body, h₀.order, h₀.createdMs⟩, ?_, rfl⟩, fun score mid' score' listed listed' => ?_⟩
      · rw [Keyspace.origin, hm, Option.bind_some, hk]
        rfl
      · have le := SortedSet.head_le hhead (h.placed (listed.of_append noPush))
          (h.placed (listed'.of_append noPush))
        rcases Prod.Lex.toLex_le_toLex.1 le with lt | ⟨eq, -⟩
        · exact lt.le
        · exact eq.le
    · have before : σ.keyed.Holds key lock := same.holds (inv.serials.acquired head.acquired).2 holds
      obtain ⟨stored, least⟩ := h.heads head before
      exact ⟨stored, fun score mid' score' listed listed' =>
        least score mid' score' (listed.of_append noPush) (listed'.of_append noPush)⟩
  · rw [log]
    refine h.leased.append fun x hx _ key mid lock gen ignoreDue now t' he => ?_
    have := (hes x hx).1
    rw [he] at this
    cases this

theorem start : Headed {} := by
  refine ⟨fun listed => ?_, fun head => ?_, .nil _⟩
  · obtain ⟨q, e, he, -⟩ := listed.mem
    cases he
  · cases head.acquired

end Headed

/-- In every run whose clocks and scores stay below 2⁴³ the default scores are exact and increase, and the default
pushes of a key are leased in the order of their commits. -/
theorem default_order {P : KeyedPool} (hr : Pool.Reach (Pool.Meets Unsaturated) KeyedPool.start P) :
    DefaultOrder P.shared.keyed.log := by
  have scored := scored hr
  have headed : Increasing P.shared.keyed.log → Headed P.shared.keyed := by
    refine keyed_invariant Unsaturated.ok (J := fun κ => Increasing κ.log → Headed κ) ?_ ?_ ?_ ?_ hr
    · intro p o w tx i σ inv _ guard h increasing
      have log : ((σ.keyed.commit tx).record p (.committed tx i.now)).log =
          (p, .committed tx i.now) :: σ.keyed.log := congrArg _ (Keyspace.log_commit _ tx)
      rw [log] at increasing
      exact (h (@Increasing.of_append _ [_] increasing)).commit inv guard increasing
    · intro p o w i σ _ _ loose h increasing
      have log : ((σ.keyed.write w).2.record p (.wrote w)).log = (p, .wrote w) :: σ.keyed.log :=
        congrArg _ (Keyspace.log_write _ w)
      rw [log] at increasing
      exact (h (@Increasing.of_append _ [_] increasing)).write loose
    · intro whole σ κ' inv same h increasing
      obtain ⟨es, log, -⟩ := same.log
      rw [log] at increasing
      exact (h increasing.of_append).quiet inv same
    · exact fun _ => .start
  refine ⟨fun q e key mid score he push => ?_, scored.increasing, (headed scored.increasing).leased⟩
  obtain ⟨fine, -⟩ := scored.below he push
  obtain ⟨n, -, rfl⟩ := id fine
  exact ⟨fine.isDouble, n, rfl⟩

/-! ## A burst at the last millisecond -/

/-- The clocks of the producers are below 2⁴³ ms, and nothing else is asked. -/
def Clocked (_p : ℕ) (o : KeyedCall) (c : Cmd) (i : Input) (_σ : Server) : Prop := ClockBelow o c i

theorem exec_next {Q : KeyedPool} {p : ℕ} {o : KeyedCall} {c : Cmd} {k : c.Reply → Script KeyedResult}
    (hp : Q.actors p = .calling o (.op c k)) (i : Input) : ∃ Q', Q.act (.exec p i) = some Q' ∧
      Q'.actors p = .calling o (k (Q.shared.exec p c i).1) ∧ Q'.shared = (Q.shared.exec p c i).2 ∧
      ∀ q, q ≠ p → Q'.actors q = Q.actors q := by
  refine ⟨({ Q with shared := (Q.shared.exec p c i).2 } : KeyedPool).set p (.calling o (k (Q.shared.exec p c i).1)),
    ?_, Pool.set_actors_self .., rfl, fun q hq => Pool.set_actors_of_ne _ hq _⟩
  simp only [Pool.act, hp]

/-- A default push of a new message that nobody overtakes, up to its commit. -/
theorem push_alone {P Q : KeyedPool} {p : ℕ} {mid : MsgId} {now : ℤ} (hr : Pool.Reach (Pool.Meets Clocked) P Q)
    (idle : Q.actors p = .resting .idle) (fresh : (Q.shared.keyed.msg mid).bind MsgHash.key = none)
    (clock : |now| < 2 ^ 43) : ∃ Q', Pool.Reach (Pool.Meets Clocked) P Q' ∧
      (∀ q, q ≠ p → Q'.actors q = Q.actors q) ∧
      ∃ tx, tx = .push "k" mid "\x7b\x7d" (KeyedQueue.defaultScore now Q.shared.keyed.lastscore) now true ∧
        Q'.shared.keyed = (Q.shared.keyed.commit tx).record p (.committed tx 0) := by
  let o : KeyedCall := ⟨Scenario.queue, .push "k" "\x7b\x7d" mid none⟩
  have h₁ : Pool.Reach (Pool.Meets Clocked) P (Q.set p (.calling o o.code)) := by
    refine .step (.call p o) hr trivial ?_
    simp only [Pool.act, idle]
    rfl
  have meets : ∀ {Q : KeyedPool} {c k i}, Q.actors p = .calling o (.op c k) → |i.now| < 2 ^ 43 →
      Pool.Meets Clocked Q (.exec p i) := by
    intro Q c k i hp hi o' c' k' hp'
    cases hp.symm.trans hp'
    cases c with
    | now => exact hi
    | _ => trivial
  have hp₁ := Pool.set_actors_self Q p (.calling o o.code)
  obtain ⟨Q₂, act, hp₂, shared₂, others₂⟩ := exec_next (c := .now) hp₁ { now := now }
  have h₂ := h₁.step _ (meets (c := .now) hp₁ clock) act
  obtain ⟨Q₃, act, hp₃, shared₃, others₃⟩ := exec_next (c := .keyed (.watch [.msg mid, .lastscore])) hp₂ {}
  have h₃ := h₂.step _ (meets hp₂ (by norm_num)) act
  obtain ⟨Q₄, act, hp₄, shared₄, others₄⟩ := exec_next (c := .keyed (.hgetKey mid)) hp₃ {}
  have h₄ := h₃.step _ (meets hp₃ (by norm_num)) act
  have keyed₂ : Q₂.shared.keyed = Q.shared.keyed := by rw [shared₂]; rfl
  have keyed₃ : Q₃.shared.keyed = Q.shared.keyed := by rw [shared₃, ← keyed₂]; rfl
  have keyed₄ : Q₄.shared.keyed = Q.shared.keyed := by rw [shared₄, ← keyed₃]; rfl
  have found : (Q₃.shared.exec p (.keyed (.hgetKey mid)) {}).1 = none := by
    rw [← fresh, ← keyed₃]
    rfl
  rw [found] at hp₄
  obtain ⟨Q₅, act, hp₅, shared₅, others₅⟩ := exec_next (c := .keyed .getLastscore) hp₄ {}
  have h₅ := h₄.step _ (meets hp₄ (by norm_num)) act
  have keyed₅ : Q₅.shared.keyed = Q.shared.keyed := by rw [shared₅, ← keyed₄]; rfl
  obtain ⟨Q₆, act, -, shared₆, others₆⟩ := exec_next (c := .keyed (.exec _ _)) hp₅ {}
  have h₆ := h₅.step _ (meets hp₅ (by norm_num)) act
  have last : (Q₄.shared.exec p (.keyed .getLastscore) {}).1 = Q.shared.keyed.lastscore := by
    rw [← keyed₄]
    rfl
  have watched : (Q₂.shared.exec p (.keyed (.watch [.msg mid, .lastscore])) {}).1 =
      [(.msg mid, Q.shared.keyed.ver (.msg mid)), (.lastscore, Q.shared.keyed.ver .lastscore)] := by
    rw [← keyed₂]
    rfl
  refine ⟨Q₆, h₆, fun q hq => ?_, _, rfl, ?_⟩
  · rw [others₆ q hq, others₅ q hq, others₄ q hq, others₃ q hq, others₂ q hq, Pool.set_actors_of_ne _ hq]
  · rw [shared₆, last, watched]
    change (Q₅.shared.keyed.exec p _ _ (.exec _ _)).2 = _
    rw [keyed₅]
    refine congrArg Prod.snd (if_pos ?_)
    simp [Keyspace.unchanged]

namespace Scenario

/-- The message of producer `n`. -/
def burstId (n : ℕ) : MsgId := String.ofList (List.replicate n 'm')

theorem burstId_injective : Function.Injective burstId := by
  intro m n h
  have lists := congrArg String.toList h
  simp only [burstId, String.toList_ofList] at lists
  simpa using congrArg List.length lists

/-- Of the producers that push at the last millisecond below 2⁴³, the first `n` have committed. -/
structure Burst (n : ℕ) (last : Option ℚ) (P : KeyedPool) : Prop where
  reach : Pool.Reach (Pool.Meets Clocked) KeyedPool.start P
  idle : ∀ q, n ≤ q → P.actors q = .resting .idle
  fresh : ∀ m, n ≤ m → (P.shared.keyed.msg (burstId m)).bind MsgHash.key = none
  last : P.shared.keyed.lastscore = last

theorem Burst.next {n : ℕ} {last : Option ℚ} {P : KeyedPool} (h : Burst n last P) :
    ∃ P', Burst (n + 1) (some (KeyedQueue.defaultScore (2 ^ 43 - 1) last)) P' ∧ ∃ e,
      e.defaultPush = some ("k", burstId n, KeyedQueue.defaultScore (2 ^ 43 - 1) last) ∧
        P'.shared.keyed.log = (n, e) :: P.shared.keyed.log := by
  obtain ⟨P', reach, others, tx, rfl, keyed⟩ :=
    @push_alone _ _ _ _ (2 ^ 43 - 1) h.reach (h.idle n (le_refl _)) (h.fresh n (le_refl _)) (by norm_num)
  rw [h.last] at keyed
  refine ⟨P', ⟨reach, fun q hq => ?_, fun m hm => ?_, ?_⟩, .committed (.push "k" (burstId n) "\x7b\x7d"
    (KeyedQueue.defaultScore (2 ^ 43 - 1) last) (2 ^ 43 - 1) true) 0, rfl, ?_⟩
  · rw [others q (by omega)]
    exact h.idle q (by omega)
  · have ne : burstId m ≠ burstId n := fun eq => by
      have := burstId_injective eq
      omega
    rw [keyed]
    have msg := P.shared.keyed.msg_commit (.push "k" (burstId n) "\x7b\x7d"
      (KeyedQueue.defaultScore (2 ^ 43 - 1) last) (2 ^ 43 - 1) true) (burstId m)
    have same := msg.trans (if_neg ne)
    exact (congrArg (Option.bind · MsgHash.key) same).trans (h.fresh m (by omega))
  · rw [keyed]
    exact Keyspace.lastscore_commit _ _
  · rw [keyed]
    exact congrArg _ (Keyspace.log_commit _ _)

/-- The scores of the first 1024 pushes end in steps of 2⁻¹⁰. -/
theorem burst (n : ℕ) (hn : n ≤ 1024) : ∃ P, Burst (n + 1) (some (2 ^ 43 - 1 + n / 1024)) P := by
  have clock : |(2 ^ 43 - 1 : ℤ)| < 2 ^ 43 := by norm_num
  induction n with
  | zero =>
    have start : Burst 0 none KeyedPool.start := ⟨.refl, fun _ _ => rfl, fun _ _ => rfl, rfl⟩
    obtain ⟨P, h, -⟩ := start.next
    rw [defaultScore_none clock] at h
    refine ⟨P, ?_⟩
    norm_num at h ⊢
    exact h
  | succ n ih =>
    obtain ⟨P, h⟩ := ih (by omega)
    obtain ⟨P', h', -⟩ := h.next
    have small : (n : ℚ) + 1 ≤ 1024 := by exact_mod_cast hn
    have fine : Fine (2 ^ 43 - 1 + n / 1024) := by
      refine ⟨(2 ^ 43 - 1) * 2 ^ 10 + n, ?_, ?_⟩
      · rw [abs_of_nonneg] <;> omega
      · push_cast
        ring
    rw [defaultScore_some clock fine (by linarith), max_eq_right] at h'
    · refine ⟨P', ?_⟩
      have eq : (2 : ℚ) ^ 43 - 1 + n / 1024 + 1 / 1024 = 2 ^ 43 - 1 + (n + 1 : ℕ) / 1024 := by
        push_cast
        ring
      rwa [eq] at h'
    · have : (0 : ℚ) ≤ n / 1024 := by positivity
      push_cast
      linarith

/-- A queue whose messages may expire. -/
def aging : KeyedQueue :=
  { queue with config := { config with maxAgeMs := some 10, maxAge_pos := fun _ h => by cases h; decide } }

/-- The first commands of a call on it, at a time. -/
def atTime (now : ℤ) (p : ℕ) (op : KeyedOp) (n : ℕ) : List (Act actors) :=
  .call p ⟨aging, op⟩ :: List.replicate n (.exec p { now := now })

/-- A head that has been read is expired from another key and pushed again, after another message, before it is
leased. -/
def overtaken : List (Act actors) :=
  atTime 0 0 (.push "k" message.body "b" none) 5 ++ atTime 0 1 (.leaseKey "k" false 3) 6 ++
    atTime 11 2 (.expireHead "other" { message with messageId := "b", order := 0 }) 8 ++
    atTime 0 3 (.push "k" message.body "a" none) 5 ++ atTime 0 4 (.push "k" message.body "b" none) 5 ++
    List.replicate 4 (.exec 1 {})

end Scenario

instance (p : ℕ) (o : KeyedCall) (c : Cmd) (i : Input) (σ : Server) : Decidable (Clocked p o c i σ) :=
  inferInstanceAs (Decidable (ClockBelow o c i))

/-- Clocks below 2⁴³ are not enough for the scores to increase, and scores below 2⁴³ are not enough for the
messages to be leased in their order. -/
theorem default_order_fails :
    (¬ ∀ P : KeyedPool, Pool.Reach (Pool.Meets Clocked) KeyedPool.start P → Increasing P.shared.keyed.log) ∧
      ¬ ∀ P : KeyedPool,
        Pool.Reach (Pool.Meets fun _ o c i σ => ClockBelow o c i ∧ ScoreBelow c σ) KeyedPool.start P →
          DefaultOrder P.shared.keyed.log := by
  refine ⟨fun h => ?_, fun h => ?_⟩
  · obtain ⟨P, hP⟩ := Scenario.burst 1023 (by norm_num)
    obtain ⟨Q, hQ, e, push, log⟩ := hP.next
    obtain ⟨R, hR, e', push', log'⟩ := hQ.next
    have increasing := h R hR.reach
    rw [log', log] at increasing
    have less := increasing [] _ _ _ rfl _ _ _ push' _ _ _ _ _ (List.mem_cons_self ..) push
    -- half of the last place at 2⁴³ is rounded to even
    have full : KeyedQueue.defaultScore (2 ^ 43 - 1) (some (2 ^ 43 - 1 + (1023 : ℕ) / 1024)) = 2 ^ 43 := by
      decide +kernel
    have stuck : KeyedQueue.defaultScore (2 ^ 43 - 1) (some (2 ^ 43)) = 2 ^ 43 := by decide +kernel
    rw [full, stuck] at less
    exact lt_irrefl _ less
  · have run : ∃ P ∈ KeyedPool.start.runIf (fun _ o c i σ => ClockBelow o c i ∧ ScoreBelow c σ)
        Scenario.overtaken, P.shared.keyed.log.take 3 =
          [(1, .committed (.lease "k" "b" ⟨1, 0⟩ 0 false 0) 0),
            (4, .committed (.push "k" "b" Scenario.message.body (1 / 512) 0 true) 0),
            (3, .committed (.push "k" "a" Scenario.message.body (1 / 1024) 0 true) 0)] := by
      decide +kernel
    obtain ⟨P, hP, log⟩ := run
    have order := h P (.of_runIf hP)
    generalize P.shared.keyed.log = l at order log
    rw [← List.take_append_drop 3 l, log] at order
    generalize l.drop 3 = older at order
    have listed : Listed "k" "b" (1 / 512)
        ((4, .committed (.push "k" "b" Scenario.message.body (1 / 512) 0 true) 0) ::
          (3, .committed (.push "k" "a" Scenario.message.body (1 / 1024) 0 true) 0) :: older) :=
      ⟨4, .committed (.push "k" "b" Scenario.message.body (1 / 512) 0 true) 0, rfl, .self⟩
    have listed' : Listed "k" "a" (1 / 1024)
        ((4, .committed (.push "k" "b" Scenario.message.body (1 / 512) 0 true) 0) ::
          (3, .committed (.push "k" "a" Scenario.message.body (1 / 1024) 0 true) 0) :: older) := by
      refine ⟨3, .committed (.push "k" "a" Scenario.message.body (1 / 1024) 0 true) 0, rfl,
        History.Since.self.cons fun unlists => ?_⟩
      rcases unlists with pushes | removes | wrote
      · exact absurd (Option.some.inj pushes) (by decide)
      · cases removes
      · cases wrote
    have least := order.leased [] _ _ _ rfl _ _ _ _ _ _ _ rfl _ _ _ listed listed'
    norm_num at least

/-- A default push, then one of a producer whose clock is behind. -/
theorem default_order_witness : ∃ P : KeyedPool,
    (∃ t t' : ℤ, P.shared.keyed.log =
      [(1, .committed (.push "k" "b" Scenario.message.body (5 + 1 / 1024) 3 true) t),
        (0, .committed (.push "k" "a" Scenario.message.body 5 5 true) t')]) ∧
      DefaultOrder P.shared.keyed.log := by
  have run : ∃ P ∈ KeyedPool.start.runIf Unsaturated
      (Scenario.atTime 5 0 (.push "k" Scenario.message.body "a" none) 5 ++
        Scenario.atTime 3 1 (.push "k" Scenario.message.body "b" none) 5), P.shared.keyed.log =
      [(1, .committed (.push "k" "b" Scenario.message.body (5 + 1 / 1024) 3 true) 3),
        (0, .committed (.push "k" "a" Scenario.message.body 5 5 true) 5)] := by
    decide +kernel
  obtain ⟨P, hP, log⟩ := run
  exact ⟨P, ⟨3, 5, log⟩, default_order (.of_runIf hP)⟩

end NavigatorEventbus
