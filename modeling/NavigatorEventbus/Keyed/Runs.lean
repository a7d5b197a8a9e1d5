import NavigatorEventbus.Keyed.Guarded

/-!
# Runs of a keyed queue

A run is a sequence of scheduling decisions from the empty queue, all of whose commands meet a
condition (`Pool.Meets`).  What an invariant of the keys has to survive is a committed transaction,
a write outside a transaction, or a command that leaves the data alone (`keyed_invariant`).
-/

namespace NavigatorEventbus

open Interleave

/-- The message that a transaction removes. -/
def Tx.removes : Tx → Option MsgId
  | .ack _ mid _ _ => some mid
  | .expire _ mid _ _ _ => some mid
  | _ => none

/-- A transaction that removes `mid`. -/
def Event.Removes (mid : MsgId) : Event → Prop
  | .committed tx _ => tx.removes = some mid
  | _ => False

/-! ## Conditions on commands -/

/-- No condition at all. -/
abbrev Unrestricted (_p : ℕ) (_o : KeyedCall) (_c : Cmd) (_i : Input) (_σ : Server) : Prop := True

/-- The message whose dangling index entry a write of `_lease_locked` clears. -/
def Write.repairs : Write → Option MsgId
  | .zremKey _ m => some m
  | .zremAll m => some m
  | _ => none

/-- No repair clears the index entry of a message that is stored. -/
def RepairsAbsent (c : Cmd) (σ : Server) : Prop :=
  match c with
  | .keyed (.write w) => ∀ m ∈ w.repairs, σ.keyed.msg m = none
  | _ => True

/-- No `release_hold` marks a waiting message pending. -/
def SparesWaiting (c : Cmd) (σ : Server) : Prop :=
  match c with
  | .keyed (.write (.hsetMsg m _)) => (σ.keyed.msg m).bind MsgHash.state ≠ some .waiting
  | _ => True

instance (c : Cmd) (σ : Server) : Decidable (RepairsAbsent c σ) := by
  unfold RepairsAbsent
  split <;> infer_instance

instance (c : Cmd) (σ : Server) : Decidable (SparesWaiting c σ) := by
  cases c with
  | keyed k =>
    cases k with
    | write w => cases w <;> dsimp only [SparesWaiting] <;> infer_instance
    | _ => dsimp only [SparesWaiting]; infer_instance
  | _ => dsimp only [SparesWaiting]; infer_instance

/-! ## One command -/

/-- An event of a command that leaves the data alone. -/
def Event.IsQuiet : Event → Prop
  | .committed _ _ => False
  | .wrote _ => False
  | _ => True

/-- A command that leaves the data alone. -/
structure Quiet (κ κ' : Keyspace) : Prop where
  msg : κ'.msg = κ.msg
  index : κ'.index = κ.index
  all : κ'.all = κ.all
  keys : κ'.keys = κ.keys
  held : κ'.held = κ.held
  lastscore : κ'.lastscore = κ.lastscore
  serial : κ.serial ≤ κ'.serial
  holds : ∀ {k τ}, τ.serial < κ.serial → κ'.Holds k τ → κ.Holds k τ
  log : ∃ es : History Event, κ'.log = es ++ κ.log ∧
    ∀ x ∈ es, x.2.IsQuiet ∧ ∀ k m, x.2 = .headRead k m → m = (κ.index k).head

theorem Quiet.refl (κ : Keyspace) : Quiet κ κ :=
  ⟨rfl, rfl, rfl, rfl, rfl, rfl, Nat.le_refl _, fun _ => id, [], rfl, fun _ hx => absurd hx List.not_mem_nil⟩

theorem Quiet.scoreOf {κ κ' : Keyspace} (h : Quiet κ κ') (k : Key) (m : MsgId) :
    κ'.scoreOf k m = κ.scoreOf k m := by
  rw [Keyspace.scoreOf, h.index]
  rfl

theorem Quiet.of_event {κ : Keyspace} {p : ℕ} {t : ℤ} {i : Input} {c : KeyedCmd}
    (data : κ.data c = κ) (quiet : ∀ e, κ.eventOf p i c = some e →
      e.IsQuiet ∧ ∀ k m, e = .headRead k m → m = (κ.index k).head) :
    Quiet κ (κ.exec p t i c).2 := by
  refine ⟨?_, ?_, ?_, ?_, ?_, ?_, ?_, fun hτ hk => ?_, _, Keyspace.log_exec p t i c, fun x hx => ?_⟩
  · rw [Keyspace.msg_exec, data]
  · rw [Keyspace.index_exec, data]
  · rw [Keyspace.all_exec, data]
  · rw [Keyspace.keys_exec, data]
  · rw [Keyspace.held_exec, data]
  · rw [Keyspace.lastscore_exec, data]
  · rw [Keyspace.serial_exec]
    cases c with
    | acquire =>
      dsimp only
      split_ifs <;> omega
    | _ => exact Nat.le_refl _
  · rcases Keyspace.holds_of_exec _ _ _ _ hk with hk | ⟨rfl, -⟩
    · exact hk
    · exact absurd hτ (Nat.lt_irrefl _)
  · simp only [Option.mem_toList, Option.map_eq_some_iff] at hx
    obtain ⟨e, he, rfl⟩ := hx
    exact quiet e he

/-- A command commits a transaction, writes, or leaves the data alone. -/
theorem keyed_cases (κ : Keyspace) (p : ℕ) (t : ℤ) (i : Input) (c : KeyedCmd) :
    (∃ w tx, c = .exec w tx ∧ κ.unchanged w = true ∧
      (κ.exec p t i c).2 = (κ.commit tx).record p (.committed tx i.now)) ∨
    (∃ w, c = .write w ∧ (κ.exec p t i c).2 = (κ.write w).2.record p (.wrote w)) ∨
    Quiet κ (κ.exec p t i c).2 := by
  have other : ∀ {e : Event}, e.IsQuiet → (∀ k m, e ≠ .headRead k m) →
      e.IsQuiet ∧ ∀ k m, e = .headRead k m → m = (κ.index k).head :=
    fun quiet ne => ⟨quiet, fun k m h => absurd h (ne k m)⟩
  cases c with
  | exec w tx =>
    by_cases hw : κ.unchanged w = true
    · refine .inl ⟨w, tx, rfl, hw, ?_⟩
      simp only [Keyspace.exec, hw, if_true]
      rfl
    · refine .inr (.inr (.of_event (if_neg hw) fun e he => ?_))
      simp only [Keyspace.eventOf, if_neg hw] at he
      cases he
      exact other trivial fun _ _ h => by cases h
  | write w => exact .inr (.inl ⟨w, rfl, rfl⟩)
  | zrangeHead k =>
    refine .inr (.inr (.of_event rfl fun e he => ?_))
    cases he
    refine ⟨trivial, fun k' m h => ?_⟩
    cases h
    rfl
  | acquire | hgetHeld =>
    refine .inr (.inr (.of_event rfl fun e he => ?_))
    simp only [Keyspace.eventOf] at he
    split_ifs at he <;> cases he <;> exact other trivial fun _ _ h => by cases h
  | onDlq | logDropped =>
    refine .inr (.inr (.of_event rfl fun e he => ?_))
    cases he
    exact other trivial fun _ _ h => by cases h
  | _ =>
    refine .inr (.inr (.of_event rfl fun e he => ?_))
    cases he

theorem Quiet.lapse (κ : Keyspace) (k : Key) : Quiet κ (κ.lapse k) := by
  unfold Keyspace.lapse
  split_ifs
  · refine ⟨rfl, rfl, rfl, rfl, rfl, rfl, Nat.le_refl _, fun {k' τ} _ hk => ?_, [], rfl,
      fun _ hx => absurd hx List.not_mem_nil⟩
    by_cases hkk : k' = k
    · subst hkk
      simp [Keyspace.Holds, Keyspace.touch] at hk
    · simpa [Keyspace.Holds, Keyspace.touch, hkk] using hk
  · exact .refl κ

/-! ## Invariants of runs -/

section Invariant

variable {clock whole : Prop} {C : ℕ → KeyedCall → Cmd → Input → Server → Prop}

/-- Every pool that a run reaches is within the fence. -/
theorem fence_reached (ok : ∀ {p o c i σ}, C p o c i σ → FenceOk clock whole o c i σ) {P : KeyedPool}
    (hr : Pool.Reach (Pool.Meets C) KeyedPool.start P) :
    (fence clock whole).Within (fun p φ σ => φ.Stands p σ) (fun _ => True) P := by
  refine Contract.sound (fence_kept clock whole _) (fence_start clock whole _) (hr.mono ?_)
  intro Q a ha
  cases a with
  | exec p i => exact fun o c k hp _ => ok (ha o c k hp)
  | _ => trivial

/-- What transactions, writes and quiet commands keep, every run keeps. -/
theorem keyed_invariant (ok : ∀ {p o c i σ}, C p o c i σ → FenceOk clock whole o c i σ)
    {J : Keyspace → Prop}
    (commit : ∀ {p o w tx i σ}, FenceInv whole σ → C p o (.keyed (.exec w tx)) i σ →
      TxGuard clock p o σ tx → J σ.keyed →
        J ((σ.keyed.commit tx).record p (.committed tx i.now)))
    (write : ∀ {p o w i σ}, FenceInv whole σ → C p o (.keyed (.write w)) i σ → w.Loose →
      J σ.keyed → J ((σ.keyed.write w).2.record p (.wrote w)))
    (quiet : ∀ {whole σ κ'}, FenceInv whole σ → Quiet σ.keyed κ' → J σ.keyed → J κ')
    (start : J {}) {P : KeyedPool} (hr : Pool.Reach (Pool.Meets C) KeyedPool.start P) :
    J P.shared.keyed := by
  refine Contract.invariant (J := fun σ => J σ.keyed) (fence_kept clock whole fun _ => True)
    (C := C) ?_ (fun _ _ => id) ?_ (fence_start clock whole _) start (hr.mono ?_)
  · intro p o c i σ _ inv _ hC guard hJ
    cases c with
    | now => exact hJ
    | stream c => exact hJ
    | keyed c =>
      change J (σ.keyed.exec p σ.now i c).2
      rcases keyed_cases σ.keyed p σ.now i c with ⟨w, tx, rfl, hw, eq⟩ | ⟨w, rfl, eq⟩ | quiet'
      · rw [eq]
        exact commit inv hC (guard hw) hJ
      · rw [eq]
        exact write inv hC guard.1 hJ
      · exact quiet inv quiet' hJ
  · intro σ d inv hJ
    cases d with
    | lapse k => exact quiet inv (.lapse _ k) hJ
    | _ => exact hJ
  · intro Q a ha
    refine ⟨?_, ha⟩
    cases a with
    | exec p i => exact fun o c k hp _ => ok (ha o c k hp)
    | _ => trivial

end Invariant

/-! ## Scenarios -/

namespace Scenario

/-- The queue of the runs that are played through. -/
def config : KeyedQueueConfig where
  name := "orders"
  signal := {
    name := "signals"
    groups := [{ name := "workers" }]
    defaultVisibilityTimeoutMs := 110
    maxVisibilityTimeoutMs := 200
    groups_ne := QueueConfig.steady.groups_ne
    groups_nodup := QueueConfig.steady.groups_nodup
    default_nonneg := by decide
    max_pos := QueueConfig.steady.max_pos
    maxReceives_pos := QueueConfig.brief.maxReceives_pos
    maxlen_pos := QueueConfig.brief.maxlen_pos
    default_le_max := by decide
    delete_single := QueueConfig.steady.delete_single }
  lockTtlMs := 100
  lockTtl_pos := by decide
  maxAge_pos := fun _ h => by cases h
  retryBase_pos := by decide
  retryFactor_ge := by decide +kernel
  promoteBatch_pos := by decide
  pauseDefaultTtl_pos := by decide
  recoverInterval_pos := by decide
  waitSafety_pos := fun _ h => by cases h
  single_group := by decide
  lockTtl_lt_visibility := by decide
  retryBase_le_max := by decide

def queue : KeyedQueue where
  config := config
  store := { consumer := "w" }
  consumer := "w"

/-- The call of an operation, and the next `n` commands of the actor. -/
def begin (p : ℕ) (op : KeyedOp) (n : ℕ) : List (Act actors) :=
  .call p ⟨queue, op⟩ :: List.replicate n (.exec p {})

/-- A whole call, of `n` commands. -/
def whole (p : ℕ) (op : KeyedOp) (n : ℕ) : List (Act actors) := begin p op n ++ [.ret p]

/-- The message `"a"` as it was pushed. -/
def message : KeyedMessage where
  messageId := "a"
  key := "k"
  body := "\x7b\x7d"
  order := 1
  createdMs := 0

/-- The lease number `gen` of the message, under the lock of number `serial`. -/
def lease (p serial gen : ℕ) : KeyedLease where
  key := "k"
  message := { message with gen := gen, state := .leased }
  lock := ⟨p, serial⟩
  gen := gen
  receipt := none

def push : KeyedOp := .push "k" message.body "a" (some 1)

end Scenario

end NavigatorEventbus
