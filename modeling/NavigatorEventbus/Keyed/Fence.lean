import NavigatorEventbus.Keyed.System

/-!
# The fence

What the actors of a keyed queue owe each other (`fence`).  A transaction made on behalf of a lock
holder commits only while its token is the value of the lock, so nobody else touches the key's
messages meanwhile: whatever the holder has established about them is still true at its `EXEC`
(`Sheltered`).  A lost token never returns (`Later`), and with it everything established is void.
-/

namespace NavigatorEventbus

open Interleave

/-! ## Transactions and their history -/

namespace Tx

/-- The key, the message and the lock token under which a transaction is fenced. -/
def fence : Tx → Option (Key × MsgId × Token)
  | dropKey _ => none
  | push _ _ _ _ _ _ => none
  | lease key mid lock _ _ _ => some (key, mid, lock)
  | ack key mid lock _ => some (key, mid, lock)
  | retry key mid lock _ _ _ => some (key, mid, lock)
  | wait key mid lock _ _ => some (key, mid, lock)
  | hold key mid lock _ _ => some (key, mid, lock)
  | expire key mid lock _ _ => some (key, mid, lock)

/-- The message that a transaction creates. -/
def pushes : Tx → Option MsgId
  | push _ mid _ _ _ _ => some mid
  | _ => none

end Tx

namespace Event

/-- A fenced transaction on `key`, or a push of `mid`. -/
def Breaks (key : Key) (mid : MsgId) : Event → Prop
  | committed tx _ => tx.fence.map Prod.fst = some key ∨ tx.pushes = some mid
  | _ => False

/-- A fenced transaction. -/
def IsFenced : Event → Prop
  | committed tx _ => tx.fence.isSome
  | _ => False

end Event

/-- Actor `p` leased `mid` under `lock`, and neither the key nor the message was touched since. -/
def LeasedBy (p : ℕ) (key : Key) (mid : MsgId) (lock : Token) (log : History Event) : Prop :=
  ∃ gen ignoreDue now t,
    History.Since p (.committed (.lease key mid lock gen ignoreDue now) t) (Event.Breaks key mid) log

/-- Actor `p` committed no lease under `lock`. -/
def Unleased (p : ℕ) (lock : Token) (log : History Event) : Prop :=
  ∀ key mid gen ignoreDue now t,
    .committed (.lease key mid lock gen ignoreDue now) t ∉ log.own p

/-- Actor `p` acquired `lock` for `key`, then read `mid` as its head, and committed no fenced
transaction since. -/
def ReadHead (p : ℕ) (key : Key) (mid : MsgId) (lock : Token) (log : History Event) : Prop :=
  ∃ es older, log.own p = es ++ .headRead key (some mid) :: older ∧ (∀ e ∈ es, ¬ e.IsFenced) ∧
    .acquired key lock ∈ older

/-- The same message, whatever its attempts, state and deadlines. -/
def KeyedMessage.Same (m m' : KeyedMessage) : Prop :=
  m.messageId = m'.messageId ∧ m.key = m'.key ∧ m.body = m'.body ∧ m.order = m'.order ∧
    m.createdMs = m'.createdMs ∧ m.gen = m'.gen

/-- Actor `p` handed `mid` off to `on_dlq`, as stored in `h` unless the snapshot was its caller's, and
neither the key nor the message was touched since. -/
def HandedOff (p : ℕ) (key : Key) (mid : MsgId) (h : MsgHash) (own : Bool) (log : History Event) :
    Prop :=
  ∃ d, History.Since p (.deadLetter d) (Event.Breaks key mid) log ∧ d.message.messageId = mid ∧
    (own = false → ∃ m, toMessage h mid = .ok m ∧ d.message.Same m)

/-! ## The contract -/

/-- Where `mid` may be changed on behalf of the holder of `lock`. -/
structure Fenced (p : ℕ) (key : Key) (mid : MsgId) (lock : Token) (h : MsgHash) (κ : Keyspace) :
    Prop where
  owner : lock.owner = p
  holds : κ.Holds key lock
  stored : κ.msg mid = some h
  key : h.key = some key

/-- The call expires a head under a lock of its own, with a snapshot that its caller brings. -/
def KeyedCall.Standalone (o : KeyedCall) : Prop :=
  match o.op with
  | .expireHead _ _ => True
  | _ => False

/-- What holds where a transaction commits. With `clock`, the clients read the server's clock. -/
def TxGuard (clock : Prop) (p : ℕ) (o : KeyedCall) (σ : Server) : Tx → Prop
  | .dropKey key => ∀ m, σ.keyed.scoreOf key m = none
  | .push _ mid _ _ _ _ => (σ.keyed.msg mid).bind MsgHash.key = none
  | .lease key mid lock gen ignoreDue now =>
    (∃ h m, Fenced p key mid lock h σ.keyed ∧ toMessage h mid = .ok m ∧ m.gen = gen ∧
      m.deadline ignoreDue now = 0) ∧
    σ.keyed.held key = none ∧ (clock → 0 ≤ now ∧ now ≤ σ.now) ∧
    ReadHead p key mid lock σ.keyed.log ∧ Unleased p lock σ.keyed.log
  | .ack key mid lock dropped =>
    ∃ h, Fenced p key mid lock h σ.keyed ∧ LeasedBy p key mid lock σ.keyed.log ∧
      (dropped = true → HandedOff p key mid h false σ.keyed.log)
  | .retry key mid lock _ _ _ =>
    ∃ h, Fenced p key mid lock h σ.keyed ∧ LeasedBy p key mid lock σ.keyed.log
  | .wait key mid lock _ _ =>
    ∃ h, Fenced p key mid lock h σ.keyed ∧ LeasedBy p key mid lock σ.keyed.log
  | .hold key mid lock _ _ =>
    ∃ h, Fenced p key mid lock h σ.keyed ∧ LeasedBy p key mid lock σ.keyed.log
  | .expire key mid lock unhold own =>
    ∃ h, Fenced p key mid lock h σ.keyed ∧ HandedOff p key mid h own σ.keyed.log ∧
      (unhold = true → ∀ x, σ.keyed.held key = some x → x.messageId = mid) ∧
      (own = true → o.Standalone)

theorem TxGuard.fenced {clock : Prop} {p : ℕ} {o : KeyedCall} {σ : Server} {tx : Tx} {key : Key} {mid : MsgId}
    {lock : Token} (guard : TxGuard clock p o σ tx) (hf : tx.fence = some (key, mid, lock)) :
    ∃ h, Fenced p key mid lock h σ.keyed := by
  cases tx with
  | dropKey | push => cases hf
  | lease =>
    cases hf
    obtain ⟨⟨h, m, fenced, -⟩, -⟩ := guard
    exact ⟨h, fenced⟩
  | ack | retry | wait | hold | expire =>
    cases hf
    obtain ⟨h, fenced, -⟩ := guard
    exact ⟨h, fenced⟩

/-- The writes that are issued outside transactions. -/
def Write.Loose : Write → Prop
  | .hsetMsg _ f => f = { state := some .pending }
  | .zremKey _ _ => True
  | .zremAll _ => True
  | .zaddDelayed _ _ => True
  | .zremDelayed _ => True
  | .hdelHeld _ => True
  | _ => False

/-- What holds of a message and its place in an index. With `whole`, no hash lacks its key. -/
structure Stored (whole : Prop) (κ : Keyspace) : Prop where
  indexed : ∀ {k m s}, κ.scoreOf k m = some s →
    ∃ h, κ.msg m = some h ∧ h.key = some k ∧ h.order = some s
  complete : ∀ {m h}, κ.msg m = some h → h.key.isSome → h.Complete
  whole : whole → ∀ {m h}, κ.msg m = some h → h.key.isSome

/-- Tokens are handed out in order, each to the actor that acquired it. -/
structure Serials (κ : Keyspace) : Prop where
  lock : ∀ {k τ}, κ.Holds k τ → τ.serial < κ.serial
  acquired : ∀ {q k τ}, (q, Event.acquired k τ) ∈ κ.log → τ.owner = q ∧ τ.serial < κ.serial
  fenced : ∀ {q tx t key mid lock}, (q, Event.committed tx t) ∈ κ.log →
    tx.fence = some (key, mid, lock) → lock.owner = q ∧ lock.serial < κ.serial

/-- The invariant of the fence. -/
structure FenceInv (whole : Prop) (σ : Server) : Prop where
  stored : Stored whole σ.keyed
  serials : Serials σ.keyed
  now : 0 ≤ σ.now

/-- The call releases a hold. -/
def KeyedCall.Releases (o : KeyedCall) : Prop :=
  match o.op with
  | .releaseHold _ => True
  | _ => False

instance (o : KeyedCall) : Decidable o.Standalone := by
  unfold KeyedCall.Standalone
  split <;> infer_instance

instance (o : KeyedCall) : Decidable o.Releases := by
  unfold KeyedCall.Releases
  split <;> infer_instance

/-- A head that expires is stored under the key it is expired from. -/
def NamedAt (c : Cmd) (σ : Server) : Prop :=
  match c with
  | .keyed (.exec w (.expire key mid _ _ _)) =>
    σ.keyed.unchanged w = true → (σ.keyed.msg mid).bind MsgHash.key = some key
  | _ => True

/-- A message that `release_hold` marks pending is stored. -/
def PresentAt (c : Cmd) (σ : Server) : Prop :=
  match c with
  | .keyed (.write (.hsetMsg m _)) => (σ.keyed.msg m).isSome
  | _ => True

instance (c : Cmd) (σ : Server) : Decidable (NamedAt c σ) := by
  unfold NamedAt
  split <;> infer_instance

instance (c : Cmd) (σ : Server) : Decidable (PresentAt c σ) := by
  unfold PresentAt
  split <;> infer_instance

/-- The commands considered. With `clock`, the clients read the server's clock; with `whole`, no
`release_hold` creates a hash. -/
structure FenceOk (clock whole : Prop) (o : KeyedCall) (c : Cmd) (i : Input) (σ : Server) : Prop where
  clock : clock → i.now = σ.now
  named : o.Standalone → NamedAt c σ
  present : whole → o.Releases → PresentAt c σ

/-- What every command respects. -/
def FenceGuard (clock : Prop) (p : ℕ) (o : KeyedCall) (c : Cmd) (σ : Server) : Prop :=
  match c with
  | .keyed (.exec w tx) => σ.keyed.unchanged w = true → TxGuard clock p o σ tx
  | .keyed (.write w) => w.Loose ∧ ∀ m f, w = .hsetMsg m f → o.Releases
  | _ => True

/-! ## The invariant -/

section Inv

variable {clock whole : Prop} {p : ℕ} {o : KeyedCall} {κ : Keyspace} {σ : Server}

theorem Stored.of_eq (h : Stored whole κ) {κ' : Keyspace} (msg : κ'.msg = κ.msg)
    (index : κ'.index = κ.index) : Stored whole κ' := by
  refine ⟨fun {k m s} hs => ?_, fun {m h'} => ?_, fun hw {m h'} => ?_⟩
  · rw [Keyspace.scoreOf, index] at hs
    rw [msg]
    exact h.indexed hs
  · rw [msg]
    exact h.complete
  · rw [msg]
    exact h.whole hw

/-- Writing fields of a message that has its key, and none of those that make it complete. -/
theorem Stored.of_hset (h : Stored whole κ) {κ' : Keyspace} {mid : MsgId} {f : MsgHash}
    (msg : ∀ m, κ'.msg m = if m = mid then some (((κ.msg m).getD {}).set f) else κ.msg m)
    (scoreOf : ∀ k m, κ'.scoreOf k m = κ.scoreOf k m)
    (f_key : f.key = none) (f_body : f.body = none) (f_order : f.order = none)
    (f_created : f.createdMs = none) (present : whole → (κ.msg mid).isSome) : Stored whole κ' := by
  refine ⟨fun {k m s} hs => ?_, fun {m h'} hm hk => ?_, fun hw {m h'} hm => ?_⟩
  · rw [scoreOf] at hs
    obtain ⟨h', hm, key, order⟩ := h.indexed hs
    by_cases hmid : m = mid
    · refine ⟨h'.set f, by rw [msg, if_pos hmid, hm]; rfl, ?_, ?_⟩
      · simpa [MsgHash.set, f_key] using key
      · simpa [MsgHash.set, f_order] using order
    · exact ⟨h', by rw [msg, if_neg hmid, hm], key, order⟩
  · rw [msg] at hm
    split_ifs at hm with hmid
    · cases hm
      cases hm : κ.msg m with
      | none => simp [hm, MsgHash.set, f_key] at hk
      | some h₀ =>
        have key : h₀.key.isSome := by simpa [hm, MsgHash.set, f_key] using hk
        simpa [MsgHash.Complete, MsgHash.set, f_key, f_body, f_order, f_created] using
          h.complete hm key
    · exact h.complete hm hk
  · rw [msg] at hm
    split_ifs at hm with hmid
    · subst hmid
      obtain ⟨h₀, hm₀⟩ := Option.isSome_iff_exists.1 (present hw)
      cases hm
      simpa [hm₀, MsgHash.set, f_key] using h.whole hw hm₀
    · exact h.whole hw hm

/-- Removing a message from the index of its key together with its hash. -/
theorem Stored.of_remove (h : Stored whole κ) {κ' : Keyspace} {key : Key} {mid : MsgId} {h₀ : MsgHash}
    (msg : ∀ m, κ'.msg m = if m = mid then none else κ.msg m)
    (scoreOf : ∀ k m, κ'.scoreOf k m = if k = key ∧ m = mid then none else κ.scoreOf k m)
    (stored : κ.msg mid = some h₀) (named : h₀.key = some key) : Stored whole κ' := by
  refine ⟨fun {k m s} hs => ?_, fun {m h'} hm hk => ?_, fun hw {m h'} hm => ?_⟩
  · rw [scoreOf] at hs
    split_ifs at hs with hkm
    obtain ⟨h', hm, hkey, order⟩ := h.indexed hs
    have ne : m ≠ mid := by
      rintro rfl
      rw [stored] at hm
      cases hm
      rw [named] at hkey
      exact hkm ⟨(Option.some.inj hkey).symm, rfl⟩
    exact ⟨h', by rw [msg, if_neg ne, hm], hkey, order⟩
  · rw [msg] at hm
    split_ifs at hm
    exact h.complete hm hk
  · rw [msg] at hm
    split_ifs at hm
    exact h.whole hw hm

theorem Stored.write (h : Stored whole κ) {w : Write} (loose : w.Loose)
    (present : whole → ∀ m f, w = .hsetMsg m f → (κ.msg m).isSome) : Stored whole (κ.write w).2 := by
  cases w with
  | hsetMsg m f =>
    cases loose
    exact h.of_hset (κ.msg_write _) (κ.scoreOf_write _)
      rfl rfl rfl rfl fun hw => present hw m _ rfl
  | zremKey k m =>
    have msg := κ.msg_write (.zremKey k m)
    refine ⟨fun {k' m' s} hs => ?_, fun {m' h'} => ?_, fun hw {m' h'} => ?_⟩
    · rw [Keyspace.scoreOf_write] at hs
      dsimp only at hs
      split_ifs at hs
      rw [msg]
      exact h.indexed hs
    · rw [msg]
      exact h.complete
    · rw [msg]
      exact h.whole hw
  | zremAll | zaddDelayed | zremDelayed | hdelHeld => exact h.of_eq rfl rfl
  | deleteMsg | zaddKey | saddKeys | sremKeys | zaddAll | hsetHeld | setLastscore => cases loose

theorem Stored.commit (h : Stored whole σ.keyed) {tx : Tx} (guard : TxGuard clock p o σ tx) :
    Stored whole (σ.keyed.commit tx) := by
  have msg := σ.keyed.msg_commit tx
  have scoreOf := σ.keyed.scoreOf_commit tx
  cases tx with
  | dropKey key => exact h.of_eq rfl rfl
  | push key mid body score now default =>
    have fresh : (σ.keyed.msg mid).bind MsgHash.key = none := guard
    have none_of : ∀ h₀, σ.keyed.msg mid = some h₀ → h₀.key = none := fun h₀ hm => by
      simpa [hm] using fresh
    refine ⟨fun {k m s} hs => ?_, fun {m h'} hm hk => ?_, fun hw {m h'} hm => ?_⟩
    · rw [scoreOf] at hs
      dsimp only at hs
      split_ifs at hs with hkm
      · obtain ⟨rfl, rfl⟩ := hkm
        cases hs
        exact ⟨_, by rw [msg]; exact if_pos rfl, rfl, rfl⟩
      · obtain ⟨h', hm, key', order⟩ := h.indexed hs
        have ne : m ≠ mid := by
          rintro rfl
          rw [none_of h' hm] at key'
          cases key'
        exact ⟨h', by rw [msg]; exact (if_neg ne).trans hm, key', order⟩
    · rw [msg] at hm
      dsimp only at hm
      split_ifs at hm
      · cases hm
        simp [MsgHash.Complete, MsgHash.set, pushedHash]
      · exact h.complete hm hk
    · rw [msg] at hm
      dsimp only at hm
      split_ifs at hm
      · cases hm
        rfl
      · exact h.whole hw hm
  | lease key mid lock gen ignoreDue now =>
    obtain ⟨h₀, fenced⟩ := guard.fenced rfl
    exact h.of_hset msg scoreOf rfl rfl rfl rfl fun _ => by rw [fenced.stored]; rfl
  | retry | wait | hold =>
    obtain ⟨h₀, fenced⟩ := guard.fenced rfl
    exact h.of_hset msg scoreOf rfl rfl rfl rfl fun _ => by rw [fenced.stored]; rfl
  | ack | expire =>
    obtain ⟨h₀, fenced⟩ := guard.fenced rfl
    exact h.of_remove msg scoreOf fenced.stored fenced.key

theorem Serials.exec (h : Serials σ.keyed) {c : KeyedCmd} {i : Input}
    (guard : FenceGuard clock p o (.keyed c) σ) :
    Serials (σ.keyed.exec p σ.now i c).2 := by
  have le : σ.keyed.serial ≤ (σ.keyed.exec p σ.now i c).2.serial := by
    rw [Keyspace.serial_exec]
    cases c with
    | acquire =>
      dsimp only
      split_ifs <;> omega
    | _ => exact Nat.le_refl _
  have event : ∀ {q e}, (q, e) ∈ (σ.keyed.exec p σ.now i c).2.log →
      (q = p ∧ σ.keyed.eventOf p i c = some e) ∨ (q, e) ∈ σ.keyed.log := by
    intro q e he
    rw [Keyspace.log_exec] at he
    rcases List.mem_append.1 he with he | he
    · simp only [Option.mem_toList, Option.map_eq_some_iff, Prod.mk.injEq] at he
      obtain ⟨e', he', rfl, rfl⟩ := he
      exact .inl ⟨rfl, he'⟩
    · exact .inr he
  refine ⟨fun {k τ} hk => ?_, fun {q k τ} hq => ?_, fun {q tx t key mid lock} hq hf => ?_⟩
  · rcases Keyspace.holds_of_exec _ _ _ _ hk with hk | ⟨rfl, free, ttl, rfl⟩
    · exact (h.lock hk).trans_le le
    · rw [Keyspace.serial_exec]
      simp [free]
  · rcases event hq with ⟨rfl, he⟩ | hq
    · cases c with
      | acquire k' ttl =>
        simp only [Keyspace.eventOf] at he
        split_ifs at he with free
        · cases he
          rw [Keyspace.serial_exec]
          simp [free]
        · cases he
      | exec w tx =>
        simp only [Keyspace.eventOf] at he
        split_ifs at he <;> cases he
      | hgetHeld =>
        simp only [Keyspace.eventOf] at he
        split_ifs at he
        cases he
      | _ => cases he
    · exact ⟨(h.acquired hq).1, (h.acquired hq).2.trans_le le⟩
  · rcases event hq with ⟨rfl, he⟩ | hq
    · cases c with
      | exec w tx' =>
        simp only [Keyspace.eventOf] at he
        split_ifs at he with hw
        · cases he
          obtain ⟨h₀, fenced⟩ := (guard hw).fenced hf
          exact ⟨fenced.owner, (h.lock fenced.holds).trans_le le⟩
        · cases he
      | acquire =>
        simp only [Keyspace.eventOf] at he
        split_ifs at he <;> cases he
      | hgetHeld =>
        simp only [Keyspace.eventOf] at he
        split_ifs at he
        cases he
      | _ => cases he
    · exact ⟨(h.fenced hq hf).1, (h.fenced hq hf).2.trans_le le⟩

theorem FenceInv.exec {c : Cmd} {i : Input} (h : FenceInv whole σ)
    (ok : FenceOk clock whole o c i σ) (guard : FenceGuard clock p o c σ) :
    FenceInv whole (σ.exec p c i).2 := by
  cases c with
  | now => exact h
  | stream c => exact ⟨h.stored, h.serials, h.now⟩
  | keyed c =>
    refine ⟨?_, h.serials.exec guard, h.now⟩
    have data : Stored whole (σ.keyed.data c) := by
      cases c with
      | exec w tx =>
        simp only [Keyspace.data]
        split_ifs with hw
        · exact h.stored.commit (guard hw)
        · exact h.stored
      | write w =>
        obtain ⟨loose, releases⟩ := guard
        refine h.stored.write loose fun hw m f hwf => ?_
        have present := ok.present hw (releases m f hwf)
        rw [hwf] at present
        exact present
      | _ => exact h.stored
    exact data.of_eq (Keyspace.msg_exec ..) (Keyspace.index_exec ..)

theorem FenceInv.disturb (h : FenceInv whole σ) (d : Disturbance) : FenceInv whole (σ.disturb d) := by
  cases d with
  | advance ms => exact ⟨h.stored, h.serials, Int.add_nonneg h.now (Int.natCast_nonneg ms)⟩
  | lapse k =>
    simp only [Server.disturb, Keyspace.lapse]
    split_ifs
    · refine ⟨h.stored.of_eq rfl rfl,
        ⟨fun {k' τ} hk => ?_, h.serials.acquired, h.serials.fenced⟩, h.now⟩
      by_cases hkk : k' = k
      · subst hkk
        simp [Keyspace.Holds, Keyspace.touch] at hk
      · refine h.serials.lock (k := k') ?_
        simpa [Keyspace.Holds, Keyspace.touch, hkk] using hk
    · exact h
  | _ => exact ⟨h.stored, h.serials, h.now⟩

end Inv

end NavigatorEventbus
