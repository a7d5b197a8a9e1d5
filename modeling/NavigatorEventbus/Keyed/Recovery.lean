import NavigatorEventbus.Keyed.Runs
import NavigatorEventbus.Lib.Endings

/-!
# What a recover pass repairs

A wake-up of a key is lost when its messages could be leased and there is neither a signal nor a lock for it.  A pass
of `recover` comes by every key that its scan finds: at some moment of the pass the key has a marker of a signal, a lock,
a hold, a deadline or no messages, whatever the others do meanwhile.  It sends at most one signal for a key, and only
after it has seen no marker, no lock and a head that can be leased.
-/

namespace NavigatorEventbus

open Interleave

/-! ## What a pass has seen -/

/-- Somebody will look after the messages of the key: there is a marker of a signal, a lock, a hold or a deadline, or
there are none. -/
def Server.Tended (σ : Server) (key : Key) : Prop :=
  (∃ entry, entry ∈ σ.plane.sig key) ∨ (σ.keyed.lock key).isSome ∨ (σ.keyed.held key).isSome ∨
    key ∈ σ.keyed.delayed ∨ (σ.keyed.index key).head = none

/-- A scan has returned the key. -/
def Found (t : List (Issued server)) (key : Key) : Prop :=
  ∃ x ∈ t, ∃ cursor, x.cmd = .keyed (.sscanKeys cursor) ∧ key ∈ x.input.page.2 ∧ key ∈ x.before.keyed.keys

/-- Neither a marker of a signal nor a lock of the key was there. -/
def SeenIdle (t : List (Issued server)) (key : Key) : Prop :=
  (∃ x ∈ t, x.cmd = .stream (.zcardSig key) ∧ ∀ entry, entry ∉ x.before.plane.sig key) ∧
    ∃ x ∈ t, x.cmd = .keyed (.existsLock key) ∧ x.before.keyed.lock key = none

/-- The head of the key had lost its hash, or was not held and not to wait any longer. -/
def SeenRipe (t : List (Issued server)) (key : Key) : Prop :=
  ∃ mid, (∃ x ∈ t, x.cmd = .keyed (.zrangeHead key) ∧ (x.before.keyed.index key).head = some mid) ∧
    ∃ y ∈ t, y.cmd = .keyed (.hgetall mid) ∧ (y.before.keyed.msg mid = none ∨
      ∃ h message, y.before.keyed.msg mid = some h ∧ toMessage h mid = .ok message ∧
        (∃ z ∈ t, z.cmd = .keyed (.hgetHeld key) ∧ z.before.keyed.held key = none) ∧
        ∃ z ∈ t, z.cmd = .now ∧ message.deadline false z.input.now = 0)

/-- The key of the signal that a command sends. -/
def Cmd.signalled : Cmd → Option Key
  | .stream (.xadd _ (some e) _) => e.payload.lookup "key"
  | _ => none

/-- The keys of the signals that have been sent, in order. -/
def signals (t : List (Issued server)) : List Key := t.filterMap fun x => x.cmd.signalled

/-- At some moment the key was tended to. -/
def OnceTended (p : ℕ) (t : List (Issued server)) (key : Key) : Prop := ∃ x ∈ t, (x.after p).Tended key

/-- What a `recover` came to that issued `t`. -/
structure RecoverSettled (p : ℕ) (t : List (Issued server)) (r : Except Exc ℕ) : Prop where
  tended : ∀ n, r = .ok n → ∀ key, Found t key → OnceTended p t key
  counted : ∀ n, r = .ok n → (signals t).length = n
  once : (signals t).Nodup
  spared : ∀ key ∈ signals t, Found t key ∧ SeenIdle t key ∧ SeenRipe t key

/-- A page of a scan. -/
def Cmd.Scans : Cmd → Prop
  | .keyed (.sscanKeys _) => True
  | _ => False

/-- A command that neither sends a signal nor scans. -/
def Cmd.Aside (c : Cmd) : Prop := c.signalled = none ∧ ¬ c.Scans

/-! ## Longer traces -/

section Traces

variable {p : ℕ} {t t' : List (Issued server)} {key : Key}

theorem signals_append (t t' : List (Issued server)) : signals (t ++ t') = signals t ++ signals t' :=
  List.filterMap_append

theorem signals_cons (x : Issued server) (t : List (Issued server)) (quiet : x.cmd.signalled = none) :
    signals (x :: t) = signals t :=
  List.filterMap_cons_none quiet

theorem signals_aside (aside : ∀ x ∈ t, x.cmd.Aside) : signals t = [] :=
  List.filterMap_eq_nil_iff.2 fun x hx => (aside x hx).1

theorem Found.mono (h : Found t key) (hs : t ⊆ t') : Found t' key := by
  obtain ⟨x, hx, rest⟩ := h
  exact ⟨x, hs hx, rest⟩

theorem SeenIdle.mono (h : SeenIdle t key) (hs : t ⊆ t') : SeenIdle t' key := by
  obtain ⟨⟨x, hx, marks⟩, y, hy, lock⟩ := h
  exact ⟨⟨x, hs hx, marks⟩, y, hs hy, lock⟩

theorem SeenRipe.mono (h : SeenRipe t key) (hs : t ⊆ t') : SeenRipe t' key := by
  obtain ⟨mid, ⟨x, hx, head⟩, y, hy, read, stored⟩ := h
  refine ⟨mid, ⟨x, hs hx, head⟩, y, hs hy, read, ?_⟩
  rcases stored with lost | ⟨h, message, stored, parsed, ⟨z, hz, held⟩, c, hc, clock⟩
  · exact .inl lost
  · exact .inr ⟨h, message, stored, parsed, ⟨z, hs hz, held⟩, c, hs hc, clock⟩

theorem OnceTended.mono (h : OnceTended p t key) (hs : t ⊆ t') : OnceTended p t' key := by
  obtain ⟨x, hx, tended⟩ := h
  exact ⟨x, hs hx, tended⟩

theorem found_cons (x : Issued server) (t : List (Issued server)) (key : Key) :
    Found (x :: t) key ↔ Found [x] key ∨ Found t key := by
  simp [Found]

theorem not_found (h : ∀ x ∈ t, ¬ x.cmd.Scans) : ¬ Found t key := by
  rintro ⟨x, hx, cursor, scan, -⟩
  refine h x hx ?_
  rw [scan]
  trivial

theorem found_append (h : ∀ x ∈ t', ¬ x.cmd.Scans) : Found (t ++ t') key ↔ Found t key := by
  refine ⟨?_, fun found => found.mono (List.subset_append_left _ _)⟩
  rintro ⟨x, hx, scan⟩
  rcases List.mem_append.1 hx with hx | hx
  · exact ⟨x, hx, scan⟩
  · exact absurd ⟨x, hx, scan⟩ (not_found h)

end Traces

section Chunks

variable {α : Type} (n : ℕ) (l : List α)

theorem flatten_go (now : Array α) (done : Array (List α)) :
    (List.toChunks.go n l now done).flatten = done.toList.flatten ++ now.toList ++ l := by
  induction l generalizing now done with
  | nil => simp [List.toChunks.go]
  | cons a l ih =>
    rw [List.toChunks.go]
    split_ifs
    · simp [ih]
    · simp [ih]

/-- The chunks of a list are the list. -/
theorem flatten_toChunks : (l.toChunks n).flatten = l := by
  cases n with
  | zero => cases l <;> simp [List.toChunks]
  | succ n =>
    cases l with
    | nil => rfl
    | cons a l => simpa [List.toChunks] using flatten_go (n + 1) l #[a] #[]

end Chunks

/-- A `recover` that has not begun a pass. -/
theorem RecoverSettled.of_unswept {p : ℕ} {t : List (Issued server)} (aside : ∀ x ∈ t, x.cmd.Aside) :
    RecoverSettled p t (.ok 0) where
  tended _ _ _ mem := absurd mem (not_found fun x hx => (aside x hx).2)
  counted n hn := by
    cases hn
    rw [signals_aside aside]
    rfl
  once := by
    rw [signals_aside aside]
    exact List.nodup_nil
  spared key mem := by
    rw [signals_aside aside] at mem
    exact absurd mem List.not_mem_nil

theorem RecoverSettled.behind {p : ℕ} {t t' : List (Issued server)} {r : Except Exc ℕ} (h : RecoverSettled p t' r)
    (aside : ∀ x ∈ t, x.cmd.Aside) : RecoverSettled p (t ++ t') r := by
  have all : signals (t ++ t') = signals t' := by rw [signals_append, signals_aside aside, List.nil_append]
  have later : t' ⊆ t ++ t' := List.subset_append_right _ _
  refine ⟨fun n hn key mem => ?_, ?_, ?_, fun key mem => ?_⟩
  · obtain ⟨x, hx, cursor, scan, found⟩ := mem
    rcases List.mem_append.1 hx with hx | hx
    · refine absurd trivial (?_ : ¬ True)
      have unscanned := (aside x hx).2
      rwa [scan] at unscanned
    · exact (h.tended n hn key ⟨x, hx, cursor, scan, found⟩).mono later
  · rw [all]
    exact h.counted
  · rw [all]
    exact h.once
  · rw [all] at mem
    obtain ⟨found, idle, ripe⟩ := h.spared key mem
    exact ⟨found.mono later, idle.mono later, ripe.mono later⟩

/-! ## The parts of a pass -/

section Commands

variable {p : ℕ} {i : Input} {σ : Server} {key : Key}

theorem tended_zaddSig (entry : EntryId) (deadline : ℤ) :
    ((⟨.stream (.zaddSig key entry deadline), i, σ⟩ : Issued server).after p).Tended key := by
  refine .inl ⟨entry, ?_⟩
  change entry ∈ Function.update σ.plane.sig key ((σ.plane.sig key).add entry deadline) key
  rw [Function.update_self]
  exact SortedSet.mem_add.2 (.inl rfl)

theorem tended_zaddDelayed (deadline : ℤ) :
    ((⟨.keyed (.write (.zaddDelayed key deadline)), i, σ⟩ : Issued server).after p).Tended key :=
  .inr (.inr (.inr (.inl (SortedSet.mem_add.2 (.inl rfl)))))

theorem tended_zrangeHead (none : (σ.keyed.index key).head = none) :
    ((⟨.keyed (.zrangeHead key), i, σ⟩ : Issued server).after p).Tended key :=
  .inr (.inr (.inr (.inr none)))

theorem tended_hgetHeld (held : (σ.keyed.held key).isSome) :
    ((⟨.keyed (.hgetHeld key), i, σ⟩ : Issued server).after p).Tended key := by
  refine .inr (.inr (.inl ?_))
  change (((if (σ.keyed.held key).isSome then σ.keyed.record p (.heldRead key) else σ.keyed).held) key).isSome
  rwa [if_pos held]

theorem tended_zcardSig (marked : 0 < (σ.plane.sig key).card) :
    ((⟨.stream (.zcardSig key), i, σ⟩ : Issued server).after p).Tended key :=
  .inl (SortedSet.card_pos_iff.1 marked)

theorem tended_existsLock (locked : (σ.keyed.lock key).isSome) :
    ((⟨.keyed (.existsLock key), i, σ⟩ : Issued server).after p).Tended key :=
  .inr (.inl locked)

end Commands

/-- What a `_reconcile` of the key came to that issued `t`. -/
structure Reconciled (p : ℕ) (key : Key) (t : List (Issued server)) (r : Except Exc Bool) : Prop where
  sent : r = .ok true → signals t = [key] ∧ SeenRipe t key
  unsent : r ≠ .ok true → signals t = []
  tended : ∀ b, r = .ok b → OnceTended p t key

/-- What the sweep over some keys came to that issued `t`, with the count that it began with. -/
structure Swept (p : ℕ) (names : List Key) (sent : ℕ) (t : List (Issued server)) (r : Except Exc ℕ) : Prop where
  signalled : (signals t).Sublist names
  ripe : ∀ key ∈ signals t, SeenRipe t key
  counted : ∀ n, r = .ok n → n = sent + (signals t).length
  tended : ∀ n, r = .ok n → ∀ key ∈ names, OnceTended p t key

section Swept

variable {p sent m : ℕ} {names names' : List Key} {t t' : List (Issued server)} {r : Except Exc ℕ} {key : Key}

theorem Swept.nil (p sent : ℕ) : Swept p [] sent [] (.ok sent) where
  signalled := List.Sublist.refl _
  ripe _ h := absurd h List.not_mem_nil
  counted n hn := by
    cases hn
    rfl
  tended _ _ _ h := absurd h List.not_mem_nil

theorem Swept.append (h : Swept p names sent t (.ok m)) (h' : Swept p names' m t' r) :
    Swept p (names ++ names') sent (t ++ t') r where
  signalled := by
    rw [signals_append]
    exact h.signalled.append h'.signalled
  ripe key mem := by
    rw [signals_append] at mem
    rcases List.mem_append.1 mem with mem | mem
    · exact (h.ripe key mem).mono (List.subset_append_left _ _)
    · exact (h'.ripe key mem).mono (List.subset_append_right _ _)
  counted n hn := by
    have before := h.counted m rfl
    have after := h'.counted n hn
    rw [signals_append, List.length_append]
    omega
  tended n hn key mem := by
    rcases List.mem_append.1 mem with mem | mem
    · exact (h.tended m rfl key mem).mono (List.subset_append_left _ _)
    · exact (h'.tended n hn key mem).mono (List.subset_append_right _ _)

theorem Swept.error {e e' : Exc} (h : Swept p names sent t (.error e)) :
    Swept p (names ++ names') sent t (.error e') where
  signalled := h.signalled.trans (List.sublist_append_left _ _)
  ripe := h.ripe
  counted n hn := by cases hn
  tended n hn := by cases hn

theorem Reconciled.swept {found : Bool} (h : Reconciled p key t (.ok found)) (sent : ℕ) :
    Swept p [key] sent t (.ok (if found then sent + 1 else sent)) := by
  have tended : ∀ name ∈ [key], OnceTended p t name := List.forall_mem_singleton.2 (h.tended _ rfl)
  cases found with
  | true =>
    obtain ⟨sent, ripe⟩ := h.sent rfl
    refine ⟨?_, ?_, fun n hn => ?_, fun _ _ => tended⟩
    · rw [sent]
    · rw [sent]
      exact List.forall_mem_singleton.2 ripe
    · cases hn
      rw [sent]
      rfl
  | false =>
    have unsent := h.unsent fun h => by cases h
    refine ⟨?_, ?_, fun n hn => ?_, fun _ _ => tended⟩
    · rw [unsent]
      exact List.nil_sublist _
    · rw [unsent]
      exact fun _ h => absurd h List.not_mem_nil
    · cases hn
      rw [unsent]
      rfl

theorem Reconciled.swept_error {e e' : Exc} (h : Reconciled p key t (.error e)) :
    Swept p (key :: names) sent t (.error e') := by
  have unsent := h.unsent fun h => by cases h
  refine ⟨?_, ?_, (fun n hn => by cases hn), fun n hn => by cases hn⟩
  · rw [unsent]
    exact List.nil_sublist _
  · rw [unsent]
    exact fun _ h => absurd h List.not_mem_nil

/-- The names that a check has found idle are swept, and the others are tended to. -/
theorem Swept.checked {flags : List (Key × Bool)} (quiet : signals t = [])
    (checks : ∀ key busy, (key, busy) ∈ flags → if busy then OnceTended p t key else SeenIdle t key)
    (h : Swept p ((flags.filter fun f => !f.2).map Prod.fst) sent t' r) :
    Swept p (flags.map Prod.fst) sent (t ++ t') r ∧ ∀ key ∈ signals (t ++ t'), SeenIdle (t ++ t') key := by
  rw [signals_append, quiet, List.nil_append]
  refine ⟨⟨?_, fun key mem => ?_, ?_, fun n hn key mem => ?_⟩, fun key mem => ?_⟩
  · rw [signals_append, quiet, List.nil_append]
    exact h.signalled.trans (List.filter_sublist.map _)
  · rw [signals_append, quiet, List.nil_append] at mem
    exact (h.ripe key mem).mono (List.subset_append_right _ _)
  · rw [signals_append, quiet, List.nil_append]
    exact h.counted
  · obtain ⟨⟨name, busy⟩, found, rfl⟩ := List.mem_map.1 mem
    cases busy with
    | true => exact OnceTended.mono (checks name true found) (List.subset_append_left _ _)
    | false =>
      have idle : name ∈ (flags.filter fun f => !f.2).map Prod.fst :=
        List.mem_map.2 ⟨_, List.mem_filter.2 ⟨found, rfl⟩, rfl⟩
      exact (h.tended n hn name idle).mono (List.subset_append_right _ _)
  · obtain ⟨⟨name, busy⟩, found, rfl⟩ := List.mem_map.1 (h.signalled.subset mem)
    obtain ⟨found, idle⟩ := List.mem_filter.1 found
    cases busy with
    | true => cases idle
    | false => exact SeenIdle.mono (checks name false found) (List.subset_append_left _ _)

end Swept

namespace KeyedQueue

variable {p : ℕ} (q : KeyedQueue)

theorem ends_signal (key : Key) :
    (q.signal key).Ends server p fun _ t => signals t = [key] ∧ OnceTended p t key := by
  refine .cmd_bind fun i σ => .cmd_bind fun i' σ' => .cmd_bind fun i₂ σ₂ => .cmd fun i₃ σ₃ => ⟨rfl, ?_⟩
  exact ⟨_, List.mem_cons_of_mem _ (List.mem_cons_of_mem _ List.mem_cons_self), tended_zaddSig _ _⟩

theorem aside_dropKeyIfEmpty (key : Key) (tries : ℕ) : (dropKeyIfEmpty key tries).All Cmd.Aside := by
  induction tries with
  | zero => trivial
  | succ tries ih =>
    refine .cmd_bind ⟨rfl, id⟩ fun w => .cmd_bind ⟨rfl, id⟩ fun n => ?_
    split_ifs
    · trivial
    · refine .cmd_bind ⟨rfl, id⟩ fun done => ?_
      split_ifs
      · trivial
      · exact ih

theorem unscanned_signal (key : Key) : (q.signal key).All fun c : Cmd => ¬ c.Scans :=
  .cmd_bind id fun _ => .cmd_bind id fun _ => .cmd_bind id fun _ => .one id

theorem unscanned_reconcile (key : Key) : (q.reconcile key).All fun c : Cmd => ¬ c.Scans := by
  have signalled : (do
      q.signal key
      return .ok true : Script (Except Exc Bool)).All fun c : Cmd => ¬ c.Scans :=
    (q.unscanned_signal key).bind fun _ => trivial
  refine .cmd_bind id fun head => ?_
  cases head with
  | none => exact ((aside_dropKeyIfEmpty key 2).mono fun _ h => h.2).bind fun _ => trivial
  | some mid =>
    refine .cmd_bind id fun raw => ?_
    cases raw with
    | none => exact signalled
    | some raw =>
      refine .cmd_bind id fun held => ?_
      split_ifs
      · exact .cmd_bind id fun _ => trivial
      · unfold reconcileHead
        cases toMessage raw mid with
        | error e => trivial
        | ok message =>
          refine .cmd_bind id fun now => ?_
          dsimp only
          split_ifs
          · exact .cmd_bind id fun _ => trivial
          · exact .cmd_bind id fun _ => signalled

theorem unscanned_recoverFlags (now : ℤ) (names : List Key) :
    (recoverFlags now names).All fun c : Cmd => ¬ c.Scans := by
  induction names with
  | nil => trivial
  | cons name names ih =>
    exact .cmd_bind id fun _ => .cmd_bind id fun _ => .cmd_bind id fun _ => ih.bind fun _ => trivial

theorem unscanned_recoverOrphans (flags : List (Key × Bool)) (sent : ℕ) :
    (q.recoverOrphans flags sent).All fun c : Cmd => ¬ c.Scans := by
  induction flags generalizing sent with
  | nil => trivial
  | cons flag flags ih =>
    obtain ⟨name, busy⟩ := flag
    cases busy with
    | true => exact ih sent
    | false =>
      refine (q.unscanned_reconcile name).bind fun r => ?_
      rcases r with e | found
      · trivial
      · cases found with
        | true => exact ih (sent + 1)
        | false => exact ih sent

theorem unscanned_recoverChunks (chunks : List (List Key)) (sent : ℕ) :
    (q.recoverChunks chunks sent).All fun c : Cmd => ¬ c.Scans := by
  induction chunks generalizing sent with
  | nil => trivial
  | cons chunk chunks ih =>
    refine .cmd_bind id fun now => (unscanned_recoverFlags now chunk).bind fun flags => ?_
    refine (q.unscanned_recoverOrphans flags sent).bind fun r => ?_
    cases r with
    | error e => trivial
    | ok sent => exact ih sent

/-- A reconcile of a head that is not held. -/
theorem ends_reconcileHead (key : Key) (mid : MsgId) (raw : MsgHash) :
    (q.reconcileHead key mid raw).Ends server p fun r t =>
      (r = .ok true → signals t = [key] ∧ ∃ message, toMessage raw mid = .ok message ∧
        ∃ z ∈ t, z.cmd = .now ∧ message.deadline false z.input.now = 0) ∧
      (r ≠ .ok true → signals t = []) ∧ ∀ b, r = .ok b → OnceTended p t key := by
  unfold reconcileHead
  cases hm : toMessage raw mid with
  | error e => exact .pure ⟨(fun h => by cases h), fun _ => rfl, fun b h => by cases h⟩
  | ok message =>
    refine .cmd_bind fun i σ => ?_
    dsimp only
    split_ifs with waiting
    · refine .cmd_bind fun i' σ' => .pure ⟨(fun h => by cases h), fun _ => rfl, fun _ _ => ?_⟩
      exact ⟨_, List.mem_cons_of_mem _ List.mem_cons_self, tended_zaddDelayed _⟩
    · refine .cmd_bind fun i' σ' => Prog.Ends.map (g := fun _ => Except.ok true) ((q.ends_signal key).mono ?_)
      rintro _ t ⟨sent, tended⟩
      refine ⟨fun _ => ⟨sent, message, rfl, _, List.mem_cons_self, rfl, not_not.1 waiting⟩, fun h => absurd rfl h,
        fun _ _ => tended.mono fun x hx => List.mem_cons_of_mem _ (List.mem_cons_of_mem _ hx)⟩

theorem ends_reconcile (key : Key) : (q.reconcile key).Ends server p fun r t => Reconciled p key t r := by
  refine .cmd_bind fun i σ => ?_
  have reply : (server.exec p (.keyed (.zrangeHead key)) i σ).1 = (σ.keyed.index key).head := rfl
  rw [reply]
  cases head : (σ.keyed.index key).head with
  | none =>
    refine Prog.Ends.map (g := fun _ => Except.ok false) ((Prog.Ends.of_all (aside_dropKeyIfEmpty key 2)).mono ?_)
    intro _ t aside
    refine ⟨(fun h => by cases h), fun _ => ?_, fun _ _ => ⟨_, List.mem_cons_self, tended_zrangeHead head⟩⟩
    rw [signals_cons _ _ rfl]
    exact signals_aside aside
  | some mid =>
    have read : ∀ {t : List (Issued server)}, ∃ x ∈ (⟨.keyed (.zrangeHead key), i, σ⟩ : Issued server) :: t,
        x.cmd = .keyed (.zrangeHead key) ∧ (x.before.keyed.index key).head = some mid :=
      ⟨_, List.mem_cons_self, rfl, head⟩
    refine .cmd_bind fun i' σ' => ?_
    have reply : (server.exec p (.keyed (.hgetall mid)) i' σ').1 = σ'.keyed.msg mid := rfl
    rw [reply]
    cases stored : σ'.keyed.msg mid with
    | none =>
      refine Prog.Ends.map (g := fun _ => Except.ok true) ((q.ends_signal key).mono ?_)
      rintro _ t ⟨sent, tended⟩
      refine ⟨fun _ => ⟨sent, mid, read, _, List.mem_cons_of_mem _ List.mem_cons_self, rfl, .inl stored⟩,
        fun h => absurd rfl h, fun _ _ => tended.mono fun x hx => List.mem_cons_of_mem _ (List.mem_cons_of_mem _ hx)⟩
    | some raw =>
      refine .cmd_bind fun i₂ σ₂ => ?_
      have reply : (server.exec p (.keyed (.hgetHeld key)) i₂ σ₂).1 = σ₂.keyed.held key := rfl
      rw [reply]
      split_ifs with held
      · refine .cmd_bind fun i₃ σ₃ => .pure ⟨(fun h => by cases h), fun _ => rfl, fun _ _ => ?_⟩
        exact ⟨_, List.mem_cons_of_mem _ (List.mem_cons_of_mem _ List.mem_cons_self), tended_hgetHeld held⟩
      · refine (q.ends_reconcileHead key mid raw).mono ?_
        rintro r t ⟨sent, unsent, tended⟩
        refine ⟨fun hr => ?_, unsent, fun b hb => (tended b hb).mono fun x hx => by simp [hx]⟩
        obtain ⟨sent, message, parsed, z, hz, clock⟩ := sent hr
        refine ⟨sent, mid, read, ⟨.keyed (.hgetall mid), i', σ'⟩, by simp, rfl, .inr ⟨raw, message, stored, parsed,
          ⟨⟨.keyed (.hgetHeld key), i₂, σ₂⟩, by simp, rfl, ?_⟩, z, by simp [hz], clock⟩⟩
        simpa using held

/-- The checks of a chunk, which find a marker or a lock, or neither. -/
theorem ends_recoverFlags (now : ℤ) (names : List Key) :
    (recoverFlags now names).Ends server p fun flags t => flags.map Prod.fst = names ∧ signals t = [] ∧
      ∀ key flag, (key, flag) ∈ flags → if flag then OnceTended p t key else SeenIdle t key := by
  induction names with
  | nil => exact .pure ⟨rfl, rfl, fun _ _ h => absurd h List.not_mem_nil⟩
  | cons name names ih =>
    refine .cmd_bind fun i σ => .cmd_bind fun i' σ' => .cmd_bind fun i₂ σ₂ => ?_
    refine ih.bind fun flags t h => .pure ?_
    obtain ⟨same, quiet, checked⟩ := h
    have reply : (server.exec p (.stream (.zcardSig name)) i' σ').1 = (σ'.plane.sig name).card := rfl
    have reply' : (server.exec p (.keyed (.existsLock name)) i₂ σ₂).1 = (σ₂.keyed.lock name).isSome := rfl
    rw [List.append_nil, reply, reply']
    refine ⟨by rw [List.map_cons, same], ?_, fun key flag mem => ?_⟩
    · rw [signals_cons _ _ rfl, signals_cons _ _ rfl, signals_cons _ _ rfl, quiet]
    · rcases List.mem_cons.1 mem with first | later
      · obtain ⟨rfl, rfl⟩ := Prod.mk.inj first
        split_ifs with busy
        · rcases Bool.or_eq_true_iff.1 busy with marked | locked
          · exact ⟨_, List.mem_cons_of_mem _ List.mem_cons_self, tended_zcardSig (of_decide_eq_true marked)⟩
          · exact ⟨_, List.mem_cons_of_mem _ (List.mem_cons_of_mem _ List.mem_cons_self), tended_existsLock locked⟩
        · obtain ⟨unmarked, unlocked⟩ := not_or.1 (mt Bool.or_eq_true_iff.2 busy)
          refine ⟨⟨⟨.stream (.zcardSig key), i', σ'⟩, by simp, rfl, fun entry mem => ?_⟩,
            ⟨.keyed (.existsLock key), i₂, σ₂⟩, by simp, rfl, by simpa using unlocked⟩
          exact unmarked (decide_eq_true (SortedSet.card_pos_iff.2 ⟨entry, mem⟩))
      · have checked := checked key flag later
        split_ifs at checked ⊢
        · exact checked.mono fun x hx => by simp [hx]
        · exact checked.mono fun x hx => by simp [hx]

/-- The orphans of a chunk are reconciled. -/
theorem ends_recoverOrphans (flags : List (Key × Bool)) (sent : ℕ) :
    (q.recoverOrphans flags sent).Ends server p fun r t =>
      Swept p ((flags.filter fun f => !f.2).map Prod.fst) sent t r := by
  induction flags generalizing sent with
  | nil => exact .pure (.nil p sent)
  | cons flag flags ih =>
    obtain ⟨name, busy⟩ := flag
    cases busy with
    | true => exact ih sent
    | false =>
      refine (q.ends_reconcile name).bind fun r t reconciled => ?_
      cases r with
      | error e =>
        refine .pure ?_
        rw [List.append_nil]
        exact reconciled.swept_error
      | ok found =>
        have first := reconciled.swept sent
        cases found with
        | true => exact (ih (sent + 1)).mono fun r' t' rest => first.append rest
        | false => exact (ih sent).mono fun r' t' rest => first.append rest

/-- The chunks of a pass, one after the other. -/
theorem ends_recoverChunks (chunks : List (List Key)) (sent : ℕ) :
    (q.recoverChunks chunks sent).Ends server p fun r t =>
      Swept p chunks.flatten sent t r ∧ ∀ key ∈ signals t, SeenIdle t key := by
  induction chunks generalizing sent with
  | nil => exact .pure ⟨.nil p sent, fun _ h => absurd h List.not_mem_nil⟩
  | cons chunk chunks ih =>
    refine .cmd_bind fun i σ => (ends_recoverFlags _ chunk).bind fun flags t checks => ?_
    obtain ⟨rfl, quiet, checks⟩ := checks
    refine (q.ends_recoverOrphans flags sent).bind fun r t' orphans => ?_
    have quiet' : signals (⟨.now, i, σ⟩ :: t) = [] := by rw [signals_cons _ _ rfl, quiet]
    obtain ⟨swept, idle⟩ := orphans.checked quiet' fun key busy mem => by
      have check := checks key busy mem
      split_ifs at check ⊢
      · exact check.mono (List.subset_cons_self _ _)
      · exact check.mono (List.subset_cons_self _ _)
    cases r with
    | error e =>
      refine .pure ?_
      rw [List.append_nil]
      exact ⟨swept.error, idle⟩
    | ok sent' =>
      refine (ih sent').mono fun r t'' rest => ?_
      rw [← List.append_assoc, ← List.cons_append, List.flatten_cons]
      refine ⟨swept.append rest.1, fun key mem => ?_⟩
      rw [signals_append] at mem
      rcases List.mem_append.1 mem with mem | mem
      · exact (idle key mem).mono (List.subset_append_left _ _)
      · exact (rest.2 key mem).mono (List.subset_append_right _ _)

/-- A scan that comes to its end has collected what its pages returned. -/
theorem ends_scanKeys (fuel cursor : ℕ) (found : List Key) :
    (scanKeys fuel cursor found).Ends server p fun names t => signals t = [] ∧
      ∀ key, key ∈ names ↔ key ∈ found ∨ Found t key := by
  induction fuel generalizing cursor found with
  | zero => trivial
  | succ fuel ih =>
    refine .cmd_bind fun i σ => ?_
    have page : ∀ key, key ∈ i.page.2.filter (· ∈ σ.keyed.keys) ↔
        Found [(⟨.keyed (.sscanKeys cursor), i, σ⟩ : Issued server)] key := fun key => by
      simp [Found]
    have reply : (server.exec p (.keyed (.sscanKeys cursor)) i σ).1 =
        (i.page.1, i.page.2.filter (· ∈ σ.keyed.keys)) := rfl
    rw [reply]
    dsimp only
    split_ifs
    · exact .pure ⟨rfl, fun key => by rw [List.mem_append, page]⟩
    · refine (ih i.page.1 _).mono fun names t h => ⟨by rw [signals_cons _ _ rfl, h.1], fun key => ?_⟩
      rw [h.2, List.mem_append, page, found_cons _ t, or_assoc]

theorem ends_sweep (fuel : ℕ) : (q.sweep fuel).Ends server p fun r t => RecoverSettled p t r := by
  refine (ends_scanKeys fuel 0 []).bind fun names t scanned => ?_
  obtain ⟨quiet, found⟩ := scanned
  have flat : (recoverNames names).flatten = names.dedup.mergeSort (· ≤ ·) := flatten_toChunks ..
  have mem_flat : ∀ key, key ∈ (recoverNames names).flatten ↔ Found t key := fun key => by
    rw [flat, List.mem_mergeSort, List.mem_dedup, found]
    simp
  have nodup : (recoverNames names).flatten.Nodup := by
    rw [flat, (List.mergeSort_perm _ _).nodup_iff]
    exact List.nodup_dedup names
  have chunks := (q.ends_recoverChunks (p := p) (recoverNames names) 0).and
    (.of_all (q.unscanned_recoverChunks (recoverNames names) 0))
  refine chunks.mono fun r t' h => ?_
  obtain ⟨⟨swept, idle⟩, unscanned⟩ := h
  have all : signals (t ++ t') = signals t' := by rw [signals_append, quiet, List.nil_append]
  refine ⟨fun n hn key mem => ?_, fun n hn => ?_, ?_, fun key mem => ?_⟩
  · have mem := (mem_flat key).2 ((found_append unscanned).1 mem)
    exact (swept.tended n hn key mem).mono (List.subset_append_right _ _)
  · have counted := swept.counted n hn
    rw [all]
    omega
  · rw [all]
    exact nodup.sublist swept.signalled
  · rw [all] at mem
    exact ⟨(found_append unscanned).2 ((mem_flat key).1 (swept.signalled.subset mem)),
      (idle key mem).mono (List.subset_append_right _ _), (swept.ripe key mem).mono (List.subset_append_right _ _)⟩

theorem aside_hasBacklog : q.hasBacklog.All Cmd.Aside := by
  refine .cmd_bind ⟨rfl, id⟩ fun info => ?_
  rcases info with _ | _ | ⟨last, lag⟩
  · trivial
  · exact .one ⟨rfl, id⟩
  · dsimp only
    split_ifs
    · trivial
    · exact .one ⟨rfl, id⟩

theorem ends_recover (force : Bool) (fuel : ℕ) :
    (q.recover force fuel).Ends server p fun r t => RecoverSettled p t r := by
  have sweep : ∀ {t : List (Issued server)}, (∀ x ∈ t, x.cmd.Aside) →
      (q.sweep fuel).Ends server p fun r t' => RecoverSettled p (t ++ t') r := fun aside =>
    (q.ends_sweep fuel).mono fun _ _ h => h.behind aside
  refine .cmd_bind fun i σ => ?_
  have read : ∀ x ∈ [(⟨.stream .getPaused, i, σ⟩ : Issued server)], x.cmd.Aside :=
    List.forall_mem_singleton.2 ⟨rfl, id⟩
  by_cases paused : ((server.exec p (.stream .getPaused) i σ).1 : Option String).isSome
  · rw [if_pos paused]
    exact .pure (.of_unswept read)
  rw [if_neg paused]
  refine (Prog.Ends.of_all q.aside_hasBacklog).bind fun backlog t aside => ?_
  have before : ∀ x ∈ (⟨.stream .getPaused, i, σ⟩ : Issued server) :: t, x.cmd.Aside :=
    List.forall_mem_cons.2 ⟨⟨rfl, id⟩, aside⟩
  cases backlog with
  | true =>
    refine .pure (.of_unswept ?_)
    rwa [List.append_nil]
  | false =>
    cases force with
    | true => exact sweep before
    | false =>
      refine .cmd_bind fun i' σ' => ?_
      have before : ∀ x ∈ (⟨.stream .getPaused, i, σ⟩ : Issued server) ::
          (t ++ [⟨.stream (.setRecover q.consumer q.config.recoverIntervalMs), i', σ'⟩]), x.cmd.Aside := by
        refine List.forall_mem_cons.2 ⟨⟨rfl, id⟩, List.forall_mem_append.2 ⟨aside, ?_⟩⟩
        exact List.forall_mem_singleton.2 ⟨rfl, id⟩
      split_ifs with won
      · exact (sweep before).mono fun r t' h => by simpa using h
      · exact .pure (.of_unswept before)

end KeyedQueue

/-- Whatever others do meanwhile, a `recover` that returns has come by every key that its scan found at a moment when
somebody looked after it: when there was a marker of a signal, a lock, a hold, a deadline or no message.  It has sent as
many signals as it reports, at most one for a key, each for a key that it saw with neither a marker nor a lock and
with a head that could be leased. -/
theorem orphans_tended {A : KeyedPool → Act actors → Prop} {P : KeyedPool} {g : ℕ → List (Issued server)}
    (hr : Pool.Recorded A Pool.issued KeyedPool.start (fun _ => []) P g) {p : ℕ} {q : KeyedQueue} {force : Bool}
    {fuel : ℕ} {r : KeyedResult} (hp : P.actors p = .calling ⟨q, .recover force fuel⟩ (.pure r)) :
    ∃ r', r = .recovered r' ∧ RecoverSettled p (g p) r' := by
  obtain ⟨σ, trace⟩ := hr.trace (fun p => ⟨_, rfl⟩) hp
  have ends : (KeyedCall.code ⟨q, .recover force fuel⟩).Ends server p fun r t =>
      ∃ r', r = .recovered r' ∧ RecoverSettled p t r' :=
    .map ((q.ends_recover force fuel).mono fun r' t h => ⟨r', rfl, h⟩)
  exact ends.trace trace

namespace Scenario

/-- A push is cut off before its signal, and the message is found by the next pass. -/
def unsignalled : List (Act actors) :=
  begin 0 push 4 ++ [.crash 0, .call 0 ⟨queue, .recover true 3⟩] ++ List.replicate 17 (.exec 0 { page := (0, ["k"]) })

/-- The count of a `recover` that has returned. -/
def recoveredBy : Actor redis KeyedCall KeyedResult KeyedPhase → Option ℕ
  | .calling ⟨_, .recover _ _⟩ (.pure (.recovered (.ok n))) => some n
  | _ => none

theorem recoveredBy_eq_some {a : Actor redis KeyedCall KeyedResult KeyedPhase} {n : ℕ} (h : recoveredBy a = some n) :
    ∃ q force fuel, a = .calling ⟨q, .recover force fuel⟩ (.pure (.recovered (.ok n))) := by
  unfold recoveredBy at h
  split at h
  · cases h
    exact ⟨_, _, _, rfl⟩
  · cases h

end Scenario

open Scenario in
theorem orphans_tended_witness : ∃ g : ℕ → List (Issued server),
    signals (g 0) = ["k"] ∧ RecoverSettled 0 (g 0) (.ok 1) := by
  have run : ∃ Pg ∈ KeyedPool.start.recordSolo 0 (fun _ _ => true) Pool.issued (fun _ => []) unsignalled,
      recoveredBy (Pg.1.actors 0) = some 1 ∧ signals (Pg.2 0) = ["k"] := by decide +kernel
  obtain ⟨⟨P, g⟩, hrun, result, sent⟩ := run
  have recorded : Pool.Recorded (fun _ _ => True) Pool.issued KeyedPool.start (fun _ => []) P g :=
    .of_solo (fun _ _ _ _ => trivial) (fun _ _ => ⟨_, rfl⟩) hrun
  obtain ⟨q, force, fuel, recovered⟩ := recoveredBy_eq_some result
  obtain ⟨r, hr, settled⟩ := orphans_tended recorded recovered
  cases hr
  exact ⟨g, sent, settled⟩

end NavigatorEventbus
