import NavigatorEventbus.Keyed.Runs

/-!
# Index consistency

A message hash, its place in the index of its key, its entry in `all` and its key in `keys` come and
go together (`Consistent`), as long as no command outside the transactions is overtaken between its
check and its write.  Three are not protected from that: the repair of a dangling index member, the
`HSET` of `release_hold`, and an `expire_head` that is given an outdated snapshot.
-/

namespace NavigatorEventbus

open Interleave

/-- The hashes, the indexes, `all` and `keys` agree. -/
structure Consistent (κ : Keyspace) : Prop where
  exists_iff : ∀ m, (κ.msg m).isSome ↔
    (∃ k, m ∈ κ.index k ∧ ∀ k', m ∈ κ.index k' → k' = k) ∧ m ∈ κ.all
  named : ∀ m h k, κ.msg m = some h → m ∈ κ.index k → h.key = some k
  complete : ∀ m h, κ.msg m = some h → h.Complete
  keys : ∀ k, (∃ m, m ∈ κ.index k) → k ∈ κ.keys

/-- No command acts on an outdated check: a repair clears the entries of a missing message, a
`release_hold` marks a stored one, a standalone expiry removes one that is still under its key. -/
def ChecksHold (_p : ℕ) (_o : KeyedCall) (c : Cmd) (_i : Input) (σ : Server) : Prop :=
  RepairsAbsent c σ ∧ PresentAt c σ ∧ NamedAt c σ

instance (p : ℕ) (o : KeyedCall) (c : Cmd) (i : Input) (σ : Server) :
    Decidable (ChecksHold p o c i σ) :=
  inferInstanceAs (Decidable (_ ∧ _))

theorem ChecksHold.ok {p : ℕ} {o : KeyedCall} {c : Cmd} {i : Input} {σ : Server}
    (h : ChecksHold p o c i σ) : FenceOk False True o c i σ :=
  ⟨False.elim, fun _ => h.2.2, fun _ _ => h.2.1⟩

/-- The part of consistency that the fence does not give. -/
structure Filed (κ : Keyspace) : Prop where
  indexed : ∀ {m h}, κ.msg m = some h → ∃ k s, h.key = some k ∧ κ.scoreOf k m = some s
  all : ∀ m, m ∈ κ.all ↔ (κ.msg m).isSome
  keys : ∀ {k m s}, κ.scoreOf k m = some s → k ∈ κ.keys

namespace Filed

variable {κ κ' : Keyspace} {p : ℕ} {o : KeyedCall} {σ : Server}

theorem of_eq (h : Filed κ) (msg : κ'.msg = κ.msg) (scoreOf : ∀ k m, κ'.scoreOf k m = κ.scoreOf k m)
    (all : κ'.all = κ.all) (keys : κ'.keys = κ.keys) : Filed κ' := by
  refine ⟨fun {m h'} hm => ?_, fun m => ?_, fun {k m s} hs => ?_⟩
  · rw [msg] at hm
    obtain ⟨k, s, hk, hs⟩ := h.indexed hm
    exact ⟨k, s, hk, (scoreOf k m).trans hs⟩
  · rw [all, msg]
    exact h.all m
  · rw [keys]
    exact h.keys ((scoreOf k m).symm.trans hs)

/-- Writing fields of a stored message other than its key. -/
theorem of_hset (h : Filed κ) {mid : MsgId} {f : MsgHash} (f_key : f.key = none)
    (stored : (κ.msg mid).isSome)
    (msg : ∀ m, κ'.msg m = if m = mid then some (((κ.msg m).getD {}).set f) else κ.msg m)
    (scoreOf : ∀ k m, κ'.scoreOf k m = κ.scoreOf k m)
    (all : κ'.all = κ.all) (keys : κ'.keys = κ.keys) : Filed κ' := by
  obtain ⟨h₀, hm₀⟩ := Option.isSome_iff_exists.1 stored
  refine ⟨fun {m h'} hm => ?_, fun m => ?_, fun {k m s} hs => ?_⟩
  · rw [msg] at hm
    split_ifs at hm with hmid
    · subst hmid
      rw [hm₀] at hm
      cases hm
      obtain ⟨k, s, hk, hs⟩ := h.indexed hm₀
      refine ⟨k, s, ?_, (scoreOf k m).trans hs⟩
      simpa [MsgHash.set, f_key] using hk
    · obtain ⟨k, s, hk, hs⟩ := h.indexed hm
      exact ⟨k, s, hk, (scoreOf k m).trans hs⟩
  · rw [all, h.all, msg]
    split_ifs with hmid
    · subst hmid
      simp [hm₀]
    · rfl
  · rw [keys]
    exact h.keys ((scoreOf k m).symm.trans hs)

/-- Removing a message everywhere. -/
theorem of_remove (h : Filed κ) {key : Key} {mid : MsgId}
    (msg : ∀ m, κ'.msg m = if m = mid then none else κ.msg m)
    (scoreOf : ∀ k m, κ'.scoreOf k m = if k = key ∧ m = mid then none else κ.scoreOf k m)
    (all : κ'.all = κ.all.remove mid) (keys : κ'.keys = κ.keys) : Filed κ' := by
  refine ⟨fun {m h'} hm => ?_, fun m => ?_, fun {k m s} hs => ?_⟩
  · rw [msg] at hm
    split_ifs at hm with hmid
    obtain ⟨k, s, hk, hs⟩ := h.indexed hm
    refine ⟨k, s, hk, ?_⟩
    rw [scoreOf, if_neg fun hkm => hmid hkm.2, hs]
  · rw [all, SortedSet.mem_remove, h.all, msg]
    split_ifs with hmid <;> simp [hmid]
  · rw [scoreOf] at hs
    split_ifs at hs
    rw [keys]
    exact h.keys hs

theorem commit (h : Filed σ.keyed) {tx : Tx} (guard : TxGuard False p o σ tx) :
    Filed (σ.keyed.commit tx) := by
  have msg := σ.keyed.msg_commit tx
  have scoreOf := σ.keyed.scoreOf_commit tx
  have all := σ.keyed.all_commit tx
  have keys := σ.keyed.keys_commit tx
  cases tx with
  | dropKey key =>
    have empty : ∀ m, σ.keyed.scoreOf key m = none := guard
    refine ⟨fun {m h'} hm => ?_, fun m => ?_, fun {k m s} hs => ?_⟩
    · rw [msg] at hm
      obtain ⟨k, s, hk, hs⟩ := h.indexed hm
      exact ⟨k, s, hk, (scoreOf k m).trans hs⟩
    · rw [all, msg]
      exact h.all m
    · have hs := (scoreOf k m).symm.trans hs
      rw [keys]
      refine Finset.mem_erase.2 ⟨?_, h.keys hs⟩
      rintro rfl
      rw [empty m] at hs
      cases hs
  | push key mid body score now default =>
    refine ⟨fun {m h'} hm => ?_, fun m => ?_, fun {k m s} hs => ?_⟩
    · rw [msg] at hm
      dsimp only at hm
      split_ifs at hm with hmid
      · cases hm
        refine ⟨key, score, rfl, ?_⟩
        rw [scoreOf]
        exact if_pos ⟨rfl, hmid⟩
      · obtain ⟨k, s, hk, hs⟩ := h.indexed hm
        refine ⟨k, s, hk, ?_⟩
        rw [scoreOf]
        exact (if_neg fun hkm => hmid hkm.2).trans hs
    · rw [all, msg]
      dsimp only
      rw [SortedSet.mem_add, h.all]
      split_ifs with hmid <;> simp [hmid]
    · rw [scoreOf] at hs
      dsimp only at hs
      rw [keys]
      split_ifs at hs with hkm
      · exact hkm.1 ▸ Finset.mem_insert_self _ _
      · exact Finset.mem_insert_of_mem (h.keys hs)
  | lease | retry | wait | hold =>
    obtain ⟨h₀, fenced⟩ := guard.fenced rfl
    exact h.of_hset rfl (Option.isSome_iff_exists.2 ⟨h₀, fenced.stored⟩) msg scoreOf all keys
  | ack | expire => exact h.of_remove msg scoreOf all keys

theorem write (inv : FenceInv True σ) (h : Filed σ.keyed) {w : Write} (loose : w.Loose)
    (absent : ∀ m ∈ w.repairs, σ.keyed.msg m = none) (present : PresentAt (.keyed (.write w)) σ) :
    Filed (σ.keyed.write w).2 := by
  have msg := σ.keyed.msg_write w
  have scoreOf := σ.keyed.scoreOf_write w
  have all := σ.keyed.all_write w
  have keys := σ.keyed.keys_write w
  cases w with
  | hsetMsg m f =>
    cases loose
    exact h.of_hset rfl present msg scoreOf all keys
  | zremKey k m =>
    have gone : ∀ k, σ.keyed.scoreOf k m = none := by
      intro k
      rw [Option.eq_none_iff_forall_ne_some]
      intro s hs
      obtain ⟨h₀, hm, -⟩ := inv.stored.indexed hs
      rw [absent m rfl] at hm
      cases hm
    refine h.of_eq (funext msg) (fun k' m' => ?_) all keys
    rw [scoreOf]
    dsimp only
    split_ifs with hkm
    · rw [hkm.2, gone]
    · rfl
  | zremAll m =>
    refine ⟨fun {m' h'} hm => h.indexed hm, fun m' => ?_, fun {k m' s} hs => h.keys hs⟩
    rw [all, msg]
    dsimp only
    rw [SortedSet.mem_remove, h.all]
    refine and_iff_right_of_imp fun hm => ?_
    rintro rfl
    rw [absent m' rfl] at hm
    cases hm
  | zaddDelayed | zremDelayed | hdelHeld => exact h.of_eq rfl (fun _ _ => rfl) rfl rfl
  | deleteMsg | zaddKey | saddKeys | sremKeys | zaddAll | hsetHeld | setLastscore => cases loose

theorem consistent (h : Filed κ) (stored : Stored True κ) : Consistent κ := by
  have named : ∀ m h' k, κ.msg m = some h' → m ∈ κ.index k → h'.key = some k := by
    intro m h' k hm hk
    obtain ⟨s, hs⟩ := Keyspace.mem_index_iff.1 hk
    obtain ⟨h'', hm', hkey, -⟩ := stored.indexed hs
    rw [hm] at hm'
    cases hm'
    exact hkey
  refine ⟨fun m => ⟨fun hm => ?_, fun ⟨_, hm⟩ => (h.all m).1 hm⟩, named, fun m h' hm => ?_,
    fun k ⟨m, hm⟩ => ?_⟩
  · obtain ⟨h', hm'⟩ := Option.isSome_iff_exists.1 hm
    obtain ⟨k, s, hk, hs⟩ := h.indexed hm'
    refine ⟨⟨k, Keyspace.mem_index_iff.2 ⟨s, hs⟩, fun k' hk' => ?_⟩, (h.all m).2 hm⟩
    exact Option.some.inj ((named m h' k' hm' hk').symm.trans hk)
  · exact stored.complete hm (stored.whole trivial hm)
  · obtain ⟨s, hs⟩ := Keyspace.mem_index_iff.1 hm
    exact h.keys hs

end Filed

/-- In every run whose commands act on checks that still hold, the structures agree in every state. -/
theorem index_consistent {P : KeyedPool}
    (hr : Pool.Reach (Pool.Meets ChecksHold) KeyedPool.start P) : Consistent P.shared.keyed := by
  have filed : Filed P.shared.keyed := by
    refine keyed_invariant ChecksHold.ok (J := Filed) ?_ ?_ ?_ ?_ hr
    · exact fun _ _ guard h => (h.commit guard).of_eq rfl (fun _ _ => rfl) rfl rfl
    · exact fun inv hC loose h => (h.write inv loose hC.1 hC.2.1).of_eq rfl (fun _ _ => rfl) rfl rfl
    · exact fun _ quiet h => h.of_eq quiet.msg quiet.scoreOf quiet.all quiet.keys
    · refine ⟨fun {m h} hm => ?_, fun m => ?_, fun {k m s} hs => ?_⟩
      · cases hm
      · exact iff_of_false (SortedSet.notMem_empty m) nofun
      · cases hs
  have within : (fence False True).Within (fun p φ σ => φ.Stands p σ) (fun _ => True) P :=
    fence_reached ChecksHold.ok hr
  exact filed.consistent within.inv.stored

/-! ## A hash that comes back -/

namespace Scenario

/-- A held message is released, leased and acked between the check and the write of the release. -/
def ghost : List (Act actors) :=
  whole 0 push 8 ++ whole 0 (.leaseKey "k" false 3) 9 ++ whole 0 (.apply (lease 0 0 1) (.hold none)) 6 ++
    begin 1 (.releaseHold "k") 3 ++ whole 0 (.leaseKey "k" false 3) 9 ++
    begin 0 (.apply (lease 0 1 2) .ack) 5 ++ [.exec 1 {}]

end Scenario

open Scenario in
theorem index_inconsistent : ¬ ∀ P : KeyedPool,
    Pool.Reach (Pool.Meets Unrestricted) KeyedPool.start P → Consistent P.shared.keyed := by
  intro h
  have run : ∃ P ∈ KeyedPool.start.runIf Unrestricted ghost,
      ∃ x ∈ P.shared.keyed.msg "a", x.body = none := by decide +kernel
  obtain ⟨P, hP, x, hx, incomplete⟩ := run
  obtain ⟨-, body, -⟩ := (h P (.of_runIf hP)).complete "a" x hx
  rw [incomplete] at body
  cases body

open Scenario in
theorem index_consistent_witness : ∃ P : KeyedPool, "a" ∈ P.shared.keyed.index "k" ∧
    Consistent P.shared.keyed := by
  have run : ∃ P ∈ KeyedPool.start.runIf ChecksHold
      (whole 0 push 8 ++ whole 0 (.leaseKey "k" false 3) 9), "a" ∈ P.shared.keyed.index "k" := by
    decide +kernel
  obtain ⟨P, hP, stored⟩ := run
  exact ⟨P, stored, index_consistent (.of_runIf hP)⟩

end NavigatorEventbus
