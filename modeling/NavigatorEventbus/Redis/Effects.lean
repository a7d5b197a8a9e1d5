import NavigatorEventbus.Redis.Keyspace

/-!
# What writes leave

One equation for each part of the keyspace and each kind of write, and from these one for each part
and each kind of transaction.  Later modules read the effect of a command here and never unfold it.
-/

namespace NavigatorEventbus

namespace Keyspace

variable {κ : Keyspace}

/-- The score of `m` in the index of `k`. -/
def scoreOf (κ : Keyspace) (k : Key) (m : MsgId) : Option ℚ := (κ.index k).score m

theorem mem_index_iff {k : Key} {m : MsgId} : m ∈ κ.index k ↔ ∃ s, κ.scoreOf k m = some s :=
  SortedSet.mem_iff_score

theorem scoreOf_eq_none_iff {k : Key} {m : MsgId} : κ.scoreOf k m = none ↔ m ∉ κ.index k := by
  rw [mem_index_iff, ← Option.isSome_iff_exists, Option.not_isSome_iff_eq_none]

/-- `token` is the value of `lock:<k>`. -/
def Holds (κ : Keyspace) (k : Key) (token : Token) : Prop :=
  (κ.lock k).map LockValue.token = some token

instance (k : Key) (token : Token) : Decidable (κ.Holds k token) :=
  inferInstanceAs (Decidable (_ = _))

/-! ## Single writes -/

section Write

variable (κ) (w : Write)

theorem lock_write : (κ.write w).2.lock = κ.lock := by
  cases w <;> simp only [write, touch] <;> split_ifs <;> rfl

theorem serial_write : (κ.write w).2.serial = κ.serial := by
  cases w <;> simp only [write, touch] <;> split_ifs <;> rfl

theorem log_write : (κ.write w).2.log = κ.log := by
  cases w <;> simp only [write, touch] <;> split_ifs <;> rfl

theorem msg_write (m : MsgId) : (κ.write w).2.msg m =
    match w with
    | .hsetMsg m' f => if m = m' then some (((κ.msg m).getD {}).set f) else κ.msg m
    | .deleteMsg m' => if m = m' then none else κ.msg m
    | _ => κ.msg m := by
  cases w with
  | hsetMsg m' f =>
    simp only [write, touch, Function.update_apply]
    split_ifs with h
    · rw [h]
    · rfl
  | deleteMsg m' =>
    simp only [write, touch]
    split_ifs with h h' h'
    · simp [h']
    · simp [h']
    · simpa [h'] using h
    · rfl
  | zaddKey | zremKey => simp only [write, touch]; split_ifs <;> rfl
  | _ => rfl

theorem scoreOf_write (k : Key) (m : MsgId) : (κ.write w).2.scoreOf k m =
    match w with
    | .zaddKey k' m' s => if k = k' ∧ m = m' then some s else κ.scoreOf k m
    | .zremKey k' m' => if k = k' ∧ m = m' then none else κ.scoreOf k m
    | _ => κ.scoreOf k m := by
  cases w with
  | zaddKey k' m' s =>
    simp only [write, touch]
    split_ifs with h h' h'
    · obtain ⟨rfl, rfl⟩ := h'
      exact h
    · rfl
    · obtain ⟨rfl, rfl⟩ := h'
      simp [scoreOf]
    · by_cases hk : k = k'
      · subst hk
        have hm : m ≠ m' := fun hm => h' ⟨rfl, hm⟩
        simp [scoreOf, SortedSet.score_add_of_ne hm]
      · simp [scoreOf, hk]
  | zremKey k' m' =>
    simp only [write, touch]
    split_ifs with h h' h'
    · obtain ⟨rfl, rfl⟩ := h'
      simp [scoreOf, SortedSet.score_remove]
    · by_cases hk : k = k'
      · subst hk
        have hm : m ≠ m' := fun hm => h' ⟨rfl, hm⟩
        simp [scoreOf, SortedSet.score_remove_of_ne hm]
      · simp [scoreOf, hk]
    · obtain ⟨rfl, rfl⟩ := h'
      rw [← Option.not_isSome_iff_eq_none, Option.isSome_iff_exists]
      exact fun hs => h (mem_index_iff.2 hs)
    · rfl
  | deleteMsg => simp only [write, touch]; split_ifs <;> rfl
  | _ => rfl

theorem held_write (k : Key) : (κ.write w).2.held k =
    match w with
    | .hsetHeld k' h => if k = k' then some h else κ.held k
    | .hdelHeld k' => if k = k' then none else κ.held k
    | _ => κ.held k := by
  cases w with
  | hsetHeld k' h => simp [write, Function.update_apply]
  | hdelHeld k' => simp [write, Function.update_apply]
  | zaddKey | zremKey | deleteMsg => simp only [write, touch]; split_ifs <;> rfl
  | _ => rfl

theorem delayed_write : (κ.write w).2.delayed =
    match w with
    | .zaddDelayed k t => κ.delayed.add k t
    | .zremDelayed k => κ.delayed.remove k
    | _ => κ.delayed := by
  cases w with
  | zaddKey | zremKey | deleteMsg => simp only [write, touch]; split_ifs <;> rfl
  | _ => rfl

theorem all_write : (κ.write w).2.all =
    match w with
    | .zaddAll m s => κ.all.add m s
    | .zremAll m => κ.all.remove m
    | _ => κ.all := by
  cases w with
  | zaddKey | zremKey | deleteMsg => simp only [write, touch]; split_ifs <;> rfl
  | _ => rfl

theorem keys_write : (κ.write w).2.keys =
    match w with
    | .saddKeys k => insert k κ.keys
    | .sremKeys k => κ.keys.erase k
    | _ => κ.keys := by
  cases w with
  | zaddKey | zremKey | deleteMsg => simp only [write, touch]; split_ifs <;> rfl
  | _ => rfl

theorem lastscore_write : (κ.write w).2.lastscore =
    match w with
    | .setLastscore s => some s
    | _ => κ.lastscore := by
  cases w with
  | zaddKey | zremKey | deleteMsg => simp only [write, touch]; split_ifs <;> rfl
  | _ => rfl

end Write

/-! ## Transactions -/

/-- The state that the commands of a transaction leave. -/
def commit (κ : Keyspace) (tx : Tx) : Keyspace := κ.writes tx.writes

@[simp] theorem writes_nil : κ.writes [] = κ := rfl

@[simp] theorem writes_cons (w : Write) (ws : List Write) :
    κ.writes (w :: ws) = (κ.write w).2.writes ws := rfl

theorem writes_append (ws ws' : List Write) : κ.writes (ws ++ ws') = (κ.writes ws).writes ws' :=
  List.foldl_append

/-- What every write keeps, a sequence of writes keeps. -/
theorem writes_induction {R : Keyspace → Keyspace → Prop} (refl : ∀ κ, R κ κ)
    (trans : ∀ {κ₁ κ₂ κ₃}, R κ₁ κ₂ → R κ₂ κ₃ → R κ₁ κ₃) (ws : List Write)
    (step : ∀ κ, ∀ w ∈ ws, R κ (κ.write w).2) : R κ (κ.writes ws) := by
  induction ws generalizing κ with
  | nil => exact refl κ
  | cons w ws ih =>
    exact trans (step κ w (List.mem_cons_self ..))
      (ih fun κ' w' hw' => step κ' w' (List.mem_cons_of_mem _ hw'))

section Commit

variable (κ) (tx : Tx)

theorem lock_commit : (κ.commit tx).lock = κ.lock :=
  (writes_induction (R := fun κ κ' => κ'.lock = κ.lock) (fun _ => rfl) (fun h h' => h'.trans h) _
    fun κ w _ => lock_write κ w)

theorem serial_commit : (κ.commit tx).serial = κ.serial :=
  (writes_induction (R := fun κ κ' => κ'.serial = κ.serial) (fun _ => rfl) (fun h h' => h'.trans h) _
    fun κ w _ => serial_write κ w)

theorem log_commit : (κ.commit tx).log = κ.log :=
  (writes_induction (R := fun κ κ' => κ'.log = κ.log) (fun _ => rfl) (fun h h' => h'.trans h) _
    fun κ w _ => log_write κ w)

theorem msg_commit (m : MsgId) : (κ.commit tx).msg m =
    match tx with
    | .dropKey _ => κ.msg m
    | .push key mid body score now _ =>
      if m = mid then some (((κ.msg m).getD {}).set (pushedHash mid key body score now)) else κ.msg m
    | .lease _ mid _ gen _ _ =>
      if m = mid then some (((κ.msg m).getD {}).set (leasedFields (gen + 1))) else κ.msg m
    | .ack _ mid _ _ => if m = mid then none else κ.msg m
    | .retry _ mid _ attempts due reason =>
      if m = mid then some (((κ.msg m).getD {}).set (retryFields attempts due reason)) else κ.msg m
    | .wait _ mid _ untilMs reason =>
      if m = mid then some (((κ.msg m).getD {}).set (waitFields untilMs reason)) else κ.msg m
    | .hold _ mid _ _ reason =>
      if m = mid then some (((κ.msg m).getD {}).set (holdFields reason)) else κ.msg m
    | .expire _ mid _ _ _ => if m = mid then none else κ.msg m := by
  cases tx with
  | push key mid body score now default =>
    cases default <;> simp [commit, Tx.writes, msg_write]
  | expire key mid lock unhold own =>
    cases unhold <;> simp [commit, Tx.writes, msg_write]
  | _ => simp [commit, Tx.writes, msg_write]

theorem scoreOf_commit (k : Key) (m : MsgId) : (κ.commit tx).scoreOf k m =
    match tx with
    | .push key mid _ score _ _ => if k = key ∧ m = mid then some score else κ.scoreOf k m
    | .ack key mid _ _ => if k = key ∧ m = mid then none else κ.scoreOf k m
    | .expire key mid _ _ _ => if k = key ∧ m = mid then none else κ.scoreOf k m
    | _ => κ.scoreOf k m := by
  cases tx with
  | push key mid body score now default =>
    cases default <;> simp [commit, Tx.writes, scoreOf_write]
  | expire key mid lock unhold own =>
    cases unhold <;> simp [commit, Tx.writes, scoreOf_write]
  | _ => simp [commit, Tx.writes, scoreOf_write]

theorem held_commit (k : Key) : (κ.commit tx).held k =
    match tx with
    | .dropKey key => if k = key then none else κ.held k
    | .hold key mid _ now reason =>
      if k = key then some { reason := reason, sinceMs := now, messageId := mid } else κ.held k
    | .expire key _ _ unhold _ => if unhold = true ∧ k = key then none else κ.held k
    | _ => κ.held k := by
  cases tx with
  | push key mid body score now default =>
    cases default <;> simp [commit, Tx.writes, held_write]
  | expire key mid lock unhold own =>
    cases unhold <;> simp [commit, Tx.writes, held_write]
  | _ => simp [commit, Tx.writes, held_write]

theorem delayed_commit : (κ.commit tx).delayed =
    match tx with
    | .dropKey key => κ.delayed.remove key
    | .retry key _ _ _ due _ => κ.delayed.add key due
    | .wait key _ _ untilMs _ => κ.delayed.add key untilMs
    | _ => κ.delayed := by
  cases tx with
  | push key mid body score now default =>
    cases default <;> simp [commit, Tx.writes, delayed_write]
  | expire key mid lock unhold own =>
    cases unhold <;> simp [commit, Tx.writes, delayed_write]
  | _ => simp [commit, Tx.writes, delayed_write]

theorem all_commit : (κ.commit tx).all =
    match tx with
    | .push _ mid _ _ now _ => κ.all.add mid now
    | .ack _ mid _ _ => κ.all.remove mid
    | .expire _ mid _ _ _ => κ.all.remove mid
    | _ => κ.all := by
  cases tx with
  | push key mid body score now default =>
    cases default <;> simp [commit, Tx.writes, all_write]
  | expire key mid lock unhold own =>
    cases unhold <;> simp [commit, Tx.writes, all_write]
  | _ => simp [commit, Tx.writes, all_write]

theorem keys_commit : (κ.commit tx).keys =
    match tx with
    | .dropKey key => κ.keys.erase key
    | .push key _ _ _ _ _ => insert key κ.keys
    | _ => κ.keys := by
  cases tx with
  | push key mid body score now default =>
    cases default <;> simp [commit, Tx.writes, keys_write]
  | expire key mid lock unhold own =>
    cases unhold <;> simp [commit, Tx.writes, keys_write]
  | _ => simp [commit, Tx.writes, keys_write]

theorem lastscore_commit : (κ.commit tx).lastscore =
    match tx with
    | .push _ _ _ score _ default => if default = true then some score else κ.lastscore
    | _ => κ.lastscore := by
  cases tx with
  | push key mid body score now default =>
    cases default <;> simp [commit, Tx.writes, lastscore_write]
  | expire key mid lock unhold own =>
    cases unhold <;> simp [commit, Tx.writes, lastscore_write]
  | _ => simp [commit, Tx.writes, lastscore_write]

end Commit

/-! ## Commands -/

section Exec

variable (p : ℕ) (t : ℤ) (i : Input) (c : KeyedCmd)

/-- What a command does to messages, indexes and the other structures of the queue. -/
def data (κ : Keyspace) : KeyedCmd → Keyspace
  | .exec w tx => if κ.unchanged w then κ.commit tx else κ
  | .write w => (κ.write w).2
  | _ => κ

theorem exec_data : (κ.exec p t i c).2.msg = (κ.data c).msg ∧
    (κ.exec p t i c).2.index = (κ.data c).index ∧ (κ.exec p t i c).2.all = (κ.data c).all ∧
    (κ.exec p t i c).2.keys = (κ.data c).keys ∧ (κ.exec p t i c).2.held = (κ.data c).held ∧
    (κ.exec p t i c).2.delayed = (κ.data c).delayed := by
  cases c with
  | exec w tx =>
    simp only [exec, data]
    split_ifs <;> exact ⟨rfl, rfl, rfl, rfl, rfl, rfl⟩
  | acquire k ttl =>
    simp only [exec, data]
    cases κ.lock k <;> exact ⟨rfl, rfl, rfl, rfl, rfl, rfl⟩
  | release | extend | hgetHeld =>
    simp only [exec, data]
    split_ifs <;> exact ⟨rfl, rfl, rfl, rfl, rfl, rfl⟩
  | _ => exact ⟨rfl, rfl, rfl, rfl, rfl, rfl⟩

theorem msg_exec : (κ.exec p t i c).2.msg = (κ.data c).msg := (exec_data p t i c).1

theorem index_exec : (κ.exec p t i c).2.index = (κ.data c).index := (exec_data p t i c).2.1

theorem scoreOf_exec (k : Key) (m : MsgId) :
    (κ.exec p t i c).2.scoreOf k m = (κ.data c).scoreOf k m := by
  rw [scoreOf, index_exec]
  rfl

theorem all_exec : (κ.exec p t i c).2.all = (κ.data c).all := (exec_data p t i c).2.2.1

theorem keys_exec : (κ.exec p t i c).2.keys = (κ.data c).keys := (exec_data p t i c).2.2.2.1

theorem held_exec : (κ.exec p t i c).2.held = (κ.data c).held := (exec_data p t i c).2.2.2.2.1

theorem delayed_exec : (κ.exec p t i c).2.delayed = (κ.data c).delayed :=
  (exec_data p t i c).2.2.2.2.2

theorem lastscore_exec : (κ.exec p t i c).2.lastscore = (κ.data c).lastscore := by
  cases c with
  | exec w tx =>
    simp only [exec, data]
    split_ifs <;> rfl
  | acquire k ttl =>
    simp only [exec, data]
    cases κ.lock k <;> rfl
  | release | extend | hgetHeld =>
    simp only [exec, data]
    split_ifs <;> rfl
  | _ => rfl

/-- What a command does to the locks. -/
theorem lock_exec (k : Key) : (κ.exec p t i c).2.lock k =
    match c with
    | .acquire k' ttl =>
      if k = k' ∧ κ.lock k = none then some ⟨⟨p, κ.serial⟩, t + ttl⟩ else κ.lock k
    | .release k' token => if k = k' ∧ κ.Holds k token then none else κ.lock k
    | .extend k' token ttl => if k = k' ∧ κ.Holds k token then some ⟨token, t + ttl⟩ else κ.lock k
    | _ => κ.lock k := by
  cases c with
  | exec w tx =>
    simp only [exec]
    split_ifs
    · exact congrFun (lock_commit κ tx) k
    · rfl
  | write w => exact congrFun (lock_write κ w) k
  | acquire k' ttl =>
    simp only [exec]
    cases hl : κ.lock k' with
    | none =>
      by_cases hk : k = k'
      · subst hk
        simp [record, touch, hl]
      · simp [record, touch, hk]
    | some v =>
      by_cases hk : k = k'
      · subst hk
        simp [record, hl]
      · simp [record, hk]
  | release k' token =>
    simp only [exec, Holds]
    by_cases hk : k = k'
    · subst hk
      split_ifs <;> simp_all [touch]
    · split_ifs <;> simp_all [touch]
  | extend k' token ttl =>
    simp only [exec, Holds]
    by_cases hk : k = k'
    · subst hk
      split_ifs <;> simp_all [touch]
    · split_ifs <;> simp_all [touch]
  | hgetHeld =>
    simp only [exec]
    split_ifs <;> rfl
  | _ => rfl

/-- A token is the value of a lock after a command when it was before, or was acquired by it. -/
theorem holds_of_exec {k : Key} {token : Token} (h : (κ.exec p t i c).2.Holds k token) :
    κ.Holds k token ∨ token = ⟨p, κ.serial⟩ ∧ κ.lock k = none ∧ ∃ ttl, c = .acquire k ttl := by
  unfold Holds at h
  rw [lock_exec] at h
  cases c with
  | acquire k' ttl =>
    dsimp only at h
    split_ifs at h with hc
    · obtain ⟨rfl, free⟩ := hc
      exact .inr ⟨(Option.some.inj h).symm, free, ttl, rfl⟩
    · exact .inl h
  | release k' token' =>
    dsimp only at h
    split_ifs at h
    · cases h
    · exact .inl h
  | extend k' token' ttl =>
    dsimp only at h
    split_ifs at h with hc
    · obtain ⟨rfl, holds⟩ := hc
      exact .inl (holds.trans h)
    · exact .inl h
  | _ => exact .inl h

/-- A released token is not the value of the lock. -/
theorem not_holds_release {k : Key} {token : Token} :
    ¬ (κ.exec p t i (.release k token)).2.Holds k token := by
  unfold Holds
  rw [lock_exec]
  simp only [true_and]
  split_ifs with h
  · exact nofun
  · exact h

theorem serial_exec : (κ.exec p t i c).2.serial =
    match c with
    | .acquire k _ => if κ.lock k = none then κ.serial + 1 else κ.serial
    | _ => κ.serial := by
  cases c with
  | exec w tx =>
    simp only [exec]
    split_ifs
    · exact serial_commit κ tx
    · rfl
  | write w => exact serial_write κ w
  | acquire k ttl =>
    simp only [exec]
    cases κ.lock k <;> rfl
  | release | extend | hgetHeld =>
    simp only [exec]
    split_ifs <;> rfl
  | _ => rfl

/-- What the history records of a command. -/
def eventOf (κ : Keyspace) (p : ℕ) (i : Input) : KeyedCmd → Option Event
  | .exec w tx => some (if κ.unchanged w then .committed tx i.now else .aborted tx)
  | .write w => some (.wrote w)
  | .zrangeHead k => some (.headRead k (κ.index k).head)
  | .hgetHeld k => if (κ.held k).isSome then some (.heldRead k) else none
  | .acquire k _ => some (if κ.lock k = none then .acquired k ⟨p, κ.serial⟩ else .busy k)
  | .onDlq d => some (.deadLetter d)
  | .logDropped d => some (.deadLetter d)
  | _ => none

theorem log_exec : (κ.exec p t i c).2.log = ((κ.eventOf p i c).map fun e => (p, e)).toList ++ κ.log := by
  cases c with
  | exec w tx =>
    simp only [exec, eventOf]
    split_ifs
    · exact congrArg _ (log_commit κ tx)
    · rfl
  | write w => exact congrArg _ (log_write κ w)
  | acquire k ttl =>
    simp only [exec, eventOf]
    cases hl : κ.lock k <;> simp [record, touch]
  | hgetHeld k =>
    simp only [exec, eventOf]
    split_ifs <;> rfl
  | release | extend =>
    simp only [exec]
    split_ifs <;> rfl
  | _ => rfl

end Exec

/-! ## Versions -/

/-- The value behind a watched key is the same. -/
def SameAt (κ κ' : Keyspace) : RedisKey → Prop
  | .lock k => κ'.lock k = κ.lock k
  | .msg m => κ'.msg m = κ.msg m
  | .key k => κ'.index k = κ.index k
  | .lastscore => κ'.lastscore = κ.lastscore

/-- Versions only grow, and a key whose version stands has its value. -/
def Versioned (κ κ' : Keyspace) : Prop :=
  ∀ r, κ.ver r ≤ κ'.ver r ∧ (κ'.ver r = κ.ver r → κ.SameAt κ' r)

theorem Versioned.refl (κ : Keyspace) : κ.Versioned κ :=
  fun r => ⟨Nat.le_refl _, fun _ => by cases r <;> rfl⟩

theorem SameAt.trans {κ₁ κ₂ κ₃ : Keyspace} {r : RedisKey} (h : κ₁.SameAt κ₂ r) (h' : κ₂.SameAt κ₃ r) :
    κ₁.SameAt κ₃ r := by
  cases r <;> exact Eq.trans h' h

theorem Versioned.trans {κ₁ κ₂ κ₃ : Keyspace} (h : κ₁.Versioned κ₂) (h' : κ₂.Versioned κ₃) :
    κ₁.Versioned κ₃ := by
  intro r
  obtain ⟨le, same⟩ := h r
  obtain ⟨le', same'⟩ := h' r
  refine ⟨le.trans le', fun eq => ?_⟩
  have mid : κ₂.ver r = κ₁.ver r := by omega
  exact (same mid).trans (same' (by omega))

/-- A change behind one key, with its version. -/
theorem Versioned.touch {κ κ' : Keyspace} (r : RedisKey) (ver : κ'.ver = κ.ver)
    (same : ∀ r', r' ≠ r → κ.SameAt κ' r') : κ.Versioned (κ'.touch r) := by
  intro r'
  by_cases h : r' = r
  · subst h
    simp only [Keyspace.touch, ver, Function.update_self]
    exact ⟨Nat.le_succ _, fun eq => absurd eq (Nat.succ_ne_self _)⟩
  · simp only [Keyspace.touch, ver, Function.update_of_ne h]
    exact ⟨Nat.le_refl _, fun _ => by cases r' <;> exact same _ h⟩

/-- A change that no transaction can watch. -/
theorem Versioned.of_same {κ κ' : Keyspace} (ver : κ'.ver = κ.ver) (same : ∀ r, κ.SameAt κ' r) :
    κ.Versioned κ' :=
  fun r => ⟨by rw [ver], fun _ => same r⟩

theorem versioned_write (w : Write) : κ.Versioned (κ.write w).2 := by
  cases w with
  | hsetMsg m f =>
    refine .touch (.msg m) rfl fun r hr => ?_
    cases r with
    | msg m' => exact Function.update_of_ne (fun h => hr (by rw [h])) _ _
    | _ => rfl
  | deleteMsg m =>
    simp only [write]
    split_ifs
    · refine .touch (.msg m) rfl fun r hr => ?_
      cases r with
      | msg m' => exact Function.update_of_ne (fun h => hr (by rw [h])) _ _
      | _ => rfl
    · exact .refl κ
  | zaddKey k m s =>
    simp only [write]
    split_ifs
    · exact .refl κ
    · refine .touch (.key k) rfl fun r hr => ?_
      cases r with
      | key k' => exact Function.update_of_ne (fun h => hr (by rw [h])) _ _
      | _ => rfl
  | zremKey k m =>
    simp only [write]
    split_ifs
    · refine .touch (.key k) rfl fun r hr => ?_
      cases r with
      | key k' => exact Function.update_of_ne (fun h => hr (by rw [h])) _ _
      | _ => rfl
    · exact .refl κ
  | setLastscore s =>
    refine .touch .lastscore rfl fun r hr => ?_
    cases r with
    | lastscore => exact absurd rfl hr
    | _ => rfl
  | _ => exact .of_same rfl fun r => by cases r <;> rfl

theorem versioned_commit (tx : Tx) : κ.Versioned (κ.commit tx) :=
  writes_induction Versioned.refl Versioned.trans _ fun _ w _ => versioned_write w

theorem versioned_record {p : ℕ} {e : Event} : κ.Versioned (κ.record p e) :=
  .of_same rfl fun r => by cases r <;> rfl

theorem versioned_lock {k : Key} {v : Option LockValue} {serial : ℕ} :
    κ.Versioned ({ κ with lock := Function.update κ.lock k v, serial := serial }.touch (.lock k)) := by
  refine .touch (.lock k) rfl fun r hr => ?_
  cases r with
  | lock k' => exact Function.update_of_ne (fun h => hr (by rw [h])) _ _
  | _ => rfl

theorem versioned_exec (p : ℕ) (t : ℤ) (i : Input) (c : KeyedCmd) :
    κ.Versioned (κ.exec p t i c).2 := by
  cases c with
  | exec w tx =>
    simp only [exec]
    split_ifs
    · exact (versioned_commit tx).trans versioned_record
    · exact versioned_record
  | write w => exact (versioned_write w).trans versioned_record
  | acquire k ttl =>
    simp only [exec]
    cases κ.lock k with
    | none => exact versioned_lock.trans versioned_record
    | some v => exact versioned_record
  | release k token =>
    simp only [exec]
    split_ifs
    · exact versioned_lock
    · exact .refl κ
  | extend k token ttl =>
    simp only [exec]
    split_ifs
    · exact versioned_lock
    · exact .refl κ
  | hgetHeld k =>
    simp only [exec]
    split_ifs
    · exact versioned_record
    · exact .refl κ
  | zrangeHead | onDlq | logDropped => exact versioned_record
  | _ => exact .refl κ

theorem versioned_lapse (k : Key) : κ.Versioned (κ.lapse k) := by
  simp only [lapse]
  split_ifs
  · exact versioned_lock
  · exact .refl κ

/-- A watch that is unchanged later was unchanged before. -/
theorem Versioned.unchanged {κ κ' : Keyspace} (h : κ.Versioned κ') {w : Watch}
    (le : ∀ e ∈ w, e.2 ≤ κ.ver e.1) (hw : κ'.unchanged w = true) : κ.unchanged w = true := by
  simp only [Keyspace.unchanged, List.all_eq_true, decide_eq_true_eq] at hw ⊢
  intro e he
  have := hw e he
  have := (h e.1).1
  have := le e he
  omega

theorem Versioned.same {κ κ' : Keyspace} (h : κ.Versioned κ') {w : Watch}
    (le : ∀ e ∈ w, e.2 ≤ κ.ver e.1) (hw : κ'.unchanged w = true) {e : RedisKey × ℕ} (he : e ∈ w) :
    κ.SameAt κ' e.1 := by
  refine (h e.1).2 ?_
  simp only [Keyspace.unchanged, List.all_eq_true, decide_eq_true_eq] at hw
  have := hw e he
  have := (h e.1).1
  have := le e he
  omega

end Keyspace

end NavigatorEventbus
