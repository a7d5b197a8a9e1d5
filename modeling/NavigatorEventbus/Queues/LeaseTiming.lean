import NavigatorEventbus.Queues.Footprint
import NavigatorEventbus.Queues.Generation

/-!
# Lease timing

A visibility timeout is kept in the idle time of the pending entry, against one threshold: a lease of
`v` ms is an idle time of `threshold - v`, set by an `XCLAIM`.  The idle time counts from that
`XCLAIM`, so an entry granted at `t` and shifted at `t'` may be claimed from `t' + v` on, which is later
than the end `t + v` of its lease by the time that passed in between; without the shift it may be
claimed from `t + threshold` on.  A ledger of the grants and visibility changes (`Leases`) is kept next
to the run, and the pending list agrees with it.
-/

namespace NavigatorEventbus

open Interleave

/-- A lease: the time of the grant or of the visibility change, the visibility asked for there, and the
time of the `XCLAIM` that shifted the entry's idle time for it. -/
structure Lease where
  since : ℤ
  asked : ℤ
  shifted : Option ℤ := none
  deriving DecidableEq

namespace Lease

/-- The lease end. -/
def ends (l : Lease) : ℤ := l.since + l.asked

/-- The time from which on the entry may be claimed. -/
def eligibleAt (l : Lease) (threshold : ℤ) : ℤ :=
  match l.shifted with
  | some t => t + l.asked
  | none => l.since + threshold

end Lease

/-- The last lease of every entry. -/
abbrev Leases := String → String → EntryId → Option Lease

namespace Pull

variable {cfg : QueueConfig}

/-- The lease of entry `id` of a group after a command of the call `o`. -/
def lease (cfg : QueueConfig) (o : PullCall) (c : StreamCmd) (i : Input) (σ : Server) (s g : String)
    (id : EntryId) (old : Option Lease) : Option Lease :=
  match o with
  | .receive _ _ _ visibilityMs =>
    if GrantedBy σ.plane σ.now i s g id c then
      some { since := σ.now, asked := visibilityMs.getD cfg.defaultVisibilityTimeoutMs }
    else if MovedBy i s g id c then old.map fun l => { l with shifted := some σ.now }
    else old
  | .changeVisibility _ visibilityMs =>
    -- a visibility of `0` or less is a nack
    if MovedBy i s g id c then old.map fun _ => ⟨σ.now, max visibilityMs 0, some σ.now⟩ else old
  | _ => old

/-- The ledger after a decision. -/
def Leases.after (cfg : QueueConfig) (P : Pool (pull cfg)) (a : Act (pull cfg)) (L : Leases) : Leases :=
  match a with
  | .exec p i =>
    match P.actors p with
    | .calling o (.op (.stream c) _) => fun s g id => lease cfg o c i P.shared s g id (L s g id)
    | _ => L
  | _ => L

/-- Actor `q` is in a receive of the group. -/
def Receiving (P : Pool (pull cfg)) (q : ℕ) (s g : String) : Prop :=
  ∃ store maxMessages visibilityMs x,
    P.actors q = .calling (.receive store g maxMessages visibilityMs) x ∧ store.streamFor cfg.name = s

/-- Actor `q` is in a receive that was granted the entry. -/
def Holding (P : Pool (pull cfg)) (q : ℕ) (s g : String) (id : EntryId) : Prop :=
  ∃ store maxMessages visibilityMs x,
    P.actors q = .calling (.receive store g maxMessages visibilityMs) x ∧
      x ≠ (pull cfg).code (.receive store g maxMessages visibilityMs) ∧
      store.streamFor cfg.name = s ∧ ∃ n, .granted s g id n ∈ thisCall (own q P.shared)

/-- A call asks for a visibility within the threshold. -/
def WithinThreshold (cfg : QueueConfig) : PullCall → Prop
  | .receive _ _ _ visibilityMs =>
    visibilityMs.getD cfg.defaultVisibilityTimeoutMs ≤ cfg.maxVisibilityTimeoutMs
  | .changeVisibility _ visibilityMs => visibilityMs ≤ cfg.maxVisibilityTimeoutMs
  | _ => True

/-- The receives of a group run one after another, and the visibility of an entry is changed by whom
a receive has returned it to. -/
def OneByOne (P : Pool (pull cfg)) : Act (pull cfg) → Prop
  | .call _ o => WithinThreshold cfg o ∧ ∀ store group maxMessages visibilityMs,
      o = .receive store group maxMessages visibilityMs →
        ∀ q, ¬ Receiving P q (store.streamFor cfg.name) group
  | .exec p _ => ∀ receipt visibilityMs x,
      P.actors p = .calling (.changeVisibility receipt visibilityMs) x →
        ∀ q, ¬ Holding P q receipt.stream receipt.group receipt.messageId
  | _ => True

/-- What holds of the pool and its ledger. -/
structure Timely (P : Pool (pull cfg)) (L : Leases) : Prop where
  within : ∀ p o x, P.actors p = .calling o x → WithinThreshold cfg o
  single : ∀ p q s g, Receiving P p s g → Receiving P q s g → p = q
  leased : ∀ s g id e, P.shared.plane.pendingEntry s g id = some e →
    ∃ l, L s g id = some l ∧
      e.deliveredAt + cfg.maxVisibilityTimeoutMs = l.eligibleAt cfg.maxVisibilityTimeoutMs
  sound : ∀ s g id l, L s g id = some l →
    l.since ≤ P.shared.now ∧ l.ends ≤ l.eligibleAt cfg.maxVisibilityTimeoutMs ∧
      l.asked ≤ cfg.maxVisibilityTimeoutMs ∧ 0 < deliveries s g id P.shared.plane.log
  holding : ∀ q s g id, Holding P q s g id → ∀ store maxMessages visibilityMs x,
    P.actors q = .calling (.receive store g maxMessages visibilityMs) x →
      ∃ l, L s g id = some l ∧ l.asked = visibilityMs.getD cfg.defaultVisibilityTimeoutMs

section Exec

variable {P : Pool (pull cfg)} {L : Leases} {p : ℕ} {o : PullCall} {c : StreamCmd} {i : Input}
  {k : c.Reply → Script PullResult} {s g : String} {id : EntryId}

/-- Only a receive of the group grants. -/
theorem receive_of_grantedBy {π : Plane} {t : ℤ} (issued : o.Issues cfg (.stream c))
    (h : GrantedBy π t i s g id c) : ∃ store maxMessages visibilityMs,
      o = .receive store g maxMessages visibilityMs ∧ store.streamFor cfg.name = s := by
  cases o with
  | send store envelope =>
    cases issued
    cases h
  | receive store group maxMessages visibilityMs =>
    cases c with
    | xreadgroup =>
      obtain ⟨rfl, rfl⟩ := issued
      obtain ⟨rfl, rfl, -⟩ := h
      exact ⟨store, maxMessages, visibilityMs, rfl, rfl⟩
    | xautoclaim =>
      obtain ⟨rfl, rfl, -⟩ := issued
      obtain ⟨-, rfl, rfl, -⟩ := h
      exact ⟨store, maxMessages, visibilityMs, rfl, rfl⟩
    | _ => cases h
  | delete receipt =>
    rcases issued with h' | h' | ⟨-, h'⟩ <;> cases h' <;> cases h
  | changeVisibility receipt visibilityMs =>
    cases issued
    cases h

/-- What a command does to the lease of an entry. -/
inductive LeaseStep (cfg : QueueConfig) (o : PullCall) (c : StreamCmd) (i : Input) (σ : Server)
    (s g : String) (id : EntryId) (old : Option Lease) : Option Lease → Prop where
  | same (granted : ¬ GrantedBy σ.plane σ.now i s g id c) (moved : ¬ MovedBy i s g id c) :
      LeaseStep cfg o c i σ s g id old old
  | granted {store : QueueStore} {maxMessages : ℕ} {visibilityMs : Option ℤ}
      (ho : o = .receive store g maxMessages visibilityMs) (hs : store.streamFor cfg.name = s)
      (granted : GrantedBy σ.plane σ.now i s g id c) : LeaseStep cfg o c i σ s g id old
        (some { since := σ.now, asked := visibilityMs.getD cfg.defaultVisibilityTimeoutMs })
  | shifted {store : QueueStore} {maxMessages : ℕ} {visibilityMs : Option ℤ} {consumer : String}
      {ids : List EntryId} (ho : o = .receive store g maxMessages visibilityMs)
      (hs : store.streamFor cfg.name = s) (moved : MovedBy i s g id c)
      (hc : c = .xclaim s g consumer ids
        (cfg.maxVisibilityTimeoutMs - visibilityMs.getD cfg.defaultVisibilityTimeoutMs)) :
      LeaseStep cfg o c i σ s g id old (old.map fun l => { l with shifted := some σ.now })
  | changed {receipt : Receipt} {visibilityMs : ℤ} (ho : o = .changeVisibility receipt visibilityMs)
      (hs : receipt.stream = s) (hg : receipt.group = g) (hid : receipt.messageId = id)
      (moved : MovedBy i s g id c)
      (hc : c = .xclaim s g receipt.consumer [id]
        (if visibilityMs ≤ 0 then cfg.maxVisibilityTimeoutMs
          else max 0 (cfg.maxVisibilityTimeoutMs - visibilityMs))) :
      LeaseStep cfg o c i σ s g id old (old.map fun _ => ⟨σ.now, max visibilityMs 0, some σ.now⟩)

theorem leaseStep (issued : o.Issues cfg (.stream c)) {σ : Server} (old : Option Lease) :
    LeaseStep cfg o c i σ s g id old (lease cfg o c i σ s g id old) := by
  by_cases hgr : GrantedBy σ.plane σ.now i s g id c
  · obtain ⟨store, maxMessages, visibilityMs, rfl, hs⟩ := receive_of_grantedBy issued hgr
    simp only [lease, hgr, if_true]
    exact .granted rfl hs hgr
  by_cases hmv : MovedBy i s g id c
  · cases c with
    | xclaim stream group consumer ids idle =>
      have moved := hmv
      obtain ⟨ok, rfl, rfl, hid⟩ := hmv
      cases o with
      | send store envelope => cases issued
      | receive store group maxMessages visibilityMs =>
        obtain ⟨rfl, rfl, -, rfl⟩ := issued
        simp only [lease, hgr, if_false, moved, if_true]
        exact .shifted rfl rfl moved rfl
      | delete receipt => rcases issued with h | h | ⟨-, h⟩ <;> cases h
      | changeVisibility receipt visibilityMs =>
        cases issued
        obtain rfl : id = receipt.messageId := by simpa using hid
        simp only [lease, moved, if_true]
        exact .changed rfl rfl rfl rfl moved rfl
    | _ => cases hmv
  · have same : lease cfg o c i σ s g id old = old := by
      cases o <;> simp [lease, hgr, hmv]
    rw [same]
    exact .same hgr hmv

theorem not_granted_of_moved {π : Plane} {t : ℤ} (h : MovedBy i s g id c) :
    ¬ GrantedBy π t i s g id c := by
  cases c <;> first | exact h.elim | exact not_false

/-- A receive begins with `XGROUP CREATE`. -/
theorem code_receive (cfg : QueueConfig) (store : QueueStore) (group : String) (maxMessages : ℕ) (visibilityMs : Option ℤ) :
    ∃ k, (pull cfg).code (.receive store group maxMessages visibilityMs) =
      .op (.stream (.xgroupCreate (store.streamFor cfg.name) group)) k :=
  ⟨_, rfl⟩

/-- A command keeps the pending entry at the time that its lease says. -/
theorem Timely.leased_exec (h : Timely P L) (hp : P.actors p = .calling o (.op (.stream c) k))
    (issued : o.Issues cfg (.stream c)) (shifts : Shifts p o (.stream c) P.shared) {e' : Pending}
    (he' : (P.shared.plane.exec p P.shared.now i c).2.pendingEntry s g id = some e') :
    ∃ l, lease cfg o c i P.shared s g id (L s g id) = some l ∧
      e'.deliveredAt + cfg.maxVisibilityTimeoutMs = l.eligibleAt cfg.maxVisibilityTimeoutMs := by
  have becomes := becomes P.shared.plane p P.shared.now i c s g id
  have step : LeaseStep cfg o c i P.shared s g id (L s g id) _ := leaseStep issued _
  rw [he'] at becomes
  generalize lease cfg o c i P.shared s g id (L s g id) = new at step ⊢
  generalize hnew : some e' = entry at becomes
  cases becomes with
  | same granted moved =>
    cases step with
    | same => exact h.leased s g id e' hnew.symm
    | granted ho hs hgr => exact absurd hgr granted
    | shifted _ _ hmv => exact absurd hmv moved
    | changed _ _ _ _ hmv => exact absurd hmv moved
  | gone => cases hnew
  | read hc hid =>
    subst hc
    cases hnew
    cases step with
    | same granted => exact absurd ⟨rfl, rfl, hid⟩ granted
    | granted => exact ⟨_, rfl, rfl⟩
    | shifted _ _ hmv => exact hmv.elim
    | changed _ _ _ _ hmv => exact hmv.elim
  | claimed hc ok hid he =>
    subst hc
    cases hnew
    cases step with
    | same granted => exact absurd ⟨ok, rfl, rfl, hid⟩ granted
    | granted => exact ⟨_, rfl, rfl⟩
    | shifted _ _ hmv => exact hmv.elim
    | changed _ _ _ _ hmv => exact hmv.elim
  | moved hc ok hid he =>
    cases hnew
    obtain ⟨l, hl, -⟩ := h.leased s g id _ he
    cases step with
    | same _ moved =>
      subst hc
      exact absurd ⟨ok, rfl, rfl, hid⟩ moved
    | granted _ _ hgr =>
      subst hc
      exact hgr.elim
    | @shifted store maxMessages visibilityMs _ _ ho hs _ hc' =>
      subst ho hc
      cases hc'
      obtain ⟨code, hcode⟩ := code_receive cfg store g maxMessages visibilityMs
      have holding : Holding P p s g id := by
        refine ⟨store, maxMessages, visibilityMs, _, hp, fun hx => ?_, hs, shifts id hid⟩
        rw [hcode] at hx
        cases hx
      obtain ⟨l', hl', asked⟩ := h.holding p s g id holding _ _ _ _ hp
      obtain rfl : l = l' := by simpa [hl] using hl'
      refine ⟨_, by rw [hl]; rfl, ?_⟩
      simp only [Lease.eligibleAt]
      omega
    | @changed receipt visibilityMs ho _ _ _ _ hc' =>
      have bound := h.within p o _ hp
      rw [ho] at bound
      have bound : visibilityMs ≤ cfg.maxVisibilityTimeoutMs := bound
      have pos := cfg.max_pos
      rw [hc] at hc'
      cases hc'
      refine ⟨_, by rw [hl]; rfl, ?_⟩
      simp only [Lease.eligibleAt]
      split_ifs <;> omega

theorem Timely.sound_exec (h : Timely P L) (hp : P.actors p = .calling o (.op (.stream c) k))
    (issued : o.Issues cfg (.stream c)) {l' : Lease}
    (hl' : lease cfg o c i P.shared s g id (L s g id) = some l') :
    l'.since ≤ P.shared.now ∧
      l'.ends ≤ l'.eligibleAt cfg.maxVisibilityTimeoutMs ∧ l'.asked ≤ cfg.maxVisibilityTimeoutMs ∧
      0 < deliveries s g id (P.shared.plane.exec p P.shared.now i c).2.log := by
  have within := h.within p o _ hp
  have grown := deliveries_le_exec (p := p) (σ := P.shared) (.stream c) i s g id
  have grown : _ ≤ deliveries s g id (P.shared.plane.exec p P.shared.now i c).2.log := grown
  have step : LeaseStep cfg o c i P.shared s g id (L s g id) _ := leaseStep issued _
  rw [hl'] at step
  generalize hnew : some l' = new at step
  cases step with
  | same =>
    obtain ⟨since, ends, asked, pos⟩ := h.sound s g id l' hnew.symm
    exact ⟨since, ends, asked, pos.trans_le grown⟩
  | granted ho hs hgr =>
    cases hnew
    rw [ho] at within
    refine ⟨le_refl _, Int.add_le_add_left within _, within, ?_⟩
    obtain ⟨l, hl, -, granted⟩ := Plane.log_exec P.shared.plane p P.shared.now i c
    obtain ⟨n, hn⟩ := (granted s g id).2 hgr
    refine deliveries_pos_of_granted (σ := (P.shared.exec p (.stream c) i).2) (p := p) (n := n) ?_
    show _ ∈ (P.shared.plane.exec p P.shared.now i c).2.log.own p
    rw [hl, History.own_append, History.own_map_self]
    exact List.mem_append_left _ hn
  | shifted =>
    obtain ⟨l, hl, rfl⟩ := Option.map_eq_some_iff.1 hnew.symm
    obtain ⟨since, -, asked, pos⟩ := h.sound s g id l hl
    exact ⟨since, Int.add_le_add_right since _, asked, pos.trans_le grown⟩
  | @changed receipt visibilityMs ho =>
    obtain ⟨l, hl, rfl⟩ := Option.map_eq_some_iff.1 hnew.symm
    obtain ⟨-, -, -, pos⟩ := h.sound s g id l hl
    rw [ho] at within
    exact ⟨le_refl _, le_refl _, max_le within (by have := cfg.max_pos; omega), pos.trans_le grown⟩

/-- The grants of a receive after a command are those of before and those of the command. -/
theorem granted_thisCall_exec {σ : Server} {n : ℕ}
    (h : .granted s g id n ∈ thisCall (own p (σ.exec p (.stream c) i).2)) :
    (∀ stream group, c ≠ .xgroupCreate stream group) ∧
      (GrantedBy σ.plane σ.now i s g id c ∨ .granted s g id n ∈ thisCall (own p σ)) := by
  constructor
  · rintro stream group rfl
    have begun : thisCall (own p (σ.exec p (.stream (.xgroupCreate stream group)) i).2) = [] := by
      simp only [own, Server.exec, Plane.exec]
      split_ifs <;> simp [thisCall, StreamEvent.begins]
    rw [begun] at h
    cases h
  · obtain ⟨l, hl, -, granted⟩ := Plane.log_exec σ.plane p σ.now i c
    have after : own p (σ.exec p (.stream c) i).2 = l ++ own p σ := by
      show (σ.plane.exec p σ.now i c).2.log.own p = _
      rw [hl, History.own_append, History.own_map_self]
      rfl
    rw [after, thisCall, List.takeWhile_append] at h
    split_ifs at h
    · rcases List.mem_append.1 h with h | h
      · exact .inl ((granted s g id).1 ⟨n, h⟩)
      · exact .inr h
    · exact .inl ((granted s g id).1 ⟨n, (List.takeWhile_sublist _).subset h⟩)

theorem Timely.holding_exec (h : Timely P L) (hp : P.actors p = .calling o (.op (.stream c) k))
    (issued : o.Issues cfg (.stream c)) (ha : OneByOne P (.exec p i)) {P' : Pool (pull cfg)}
    (hP' : P' = ({ P with shared := (P.shared.exec p (.stream c) i).2 }.set p
      (.calling o (k (P.shared.exec p (.stream c) i).1)))) {q : ℕ} (holding : Holding P' q s g id)
    {store : QueueStore} {maxMessages : ℕ} {visibilityMs : Option ℤ} {x : Script PullResult}
    (hq : P'.actors q = .calling (.receive store g maxMessages visibilityMs) x) :
    ∃ l, lease cfg o c i P.shared s g id (L s g id) = some l ∧
      l.asked = visibilityMs.getD cfg.defaultVisibilityTimeoutMs := by
  obtain ⟨store', maxMessages', visibilityMs', x', hq', hx', hs, n, hn⟩ := holding
  rw [hq] at hq'
  cases hq'
  have step : LeaseStep cfg o c i P.shared s g id (L s g id) _ := leaseStep issued _
  generalize lease cfg o c i P.shared s g id (L s g id) = new at step ⊢
  subst hP'
  by_cases hqp : q = p
  · subst hqp
    rw [Pool.set_actors_self] at hq
    cases hq
    obtain ⟨notBegun, hn⟩ := granted_thisCall_exec hn
    have before : (∃ l, L s g id = some l ∧
        l.asked = visibilityMs.getD cfg.defaultVisibilityTimeoutMs) ∨
        GrantedBy P.shared.plane P.shared.now i s g id c := by
      rcases hn with hgr | hold
      · exact .inr hgr
      · refine .inl (h.holding q s g id ⟨store, maxMessages, visibilityMs, _, hp, fun hx => ?_, hs,
          n, hold⟩ store maxMessages visibilityMs _ hp)
        obtain ⟨code, hcode⟩ := code_receive cfg store g maxMessages visibilityMs
        rw [hcode] at hx
        cases hx
        exact notBegun _ _ rfl
    cases step with
    | same hgr =>
      rcases before with ⟨l, hl, asked⟩ | h'
      · exact ⟨l, hl, asked⟩
      · exact absurd h' hgr
    | granted ho =>
      cases ho
      exact ⟨_, rfl, rfl⟩
    | shifted ho hs hmv =>
      rcases before with ⟨l, hl, asked⟩ | h'
      · exact ⟨{ l with shifted := some P.shared.now }, by rw [hl]; rfl, asked⟩
      · exact absurd h' (not_granted_of_moved hmv)
    | changed ho => cases ho
  · have own_eq : own q (P.shared.exec p (.stream c) i).2 = own q P.shared :=
      Plane.own_exec_of_ne (Ne.symm hqp) P.shared.now i c
    rw [Pool.set_actors_of_ne _ hqp] at hq
    have hn : .granted s g id n ∈ thisCall (own q (P.shared.exec p (.stream c) i).2) := hn
    rw [own_eq] at hn
    have holding : Holding P q s g id :=
      ⟨store, maxMessages, visibilityMs, x, hq, hx', hs, n, hn⟩
    have receiving : Receiving P q s g := ⟨store, maxMessages, visibilityMs, x, hq, hs⟩
    obtain ⟨l, hl, asked⟩ := h.holding q s g id holding store maxMessages visibilityMs x hq
    cases step with
    | same => exact ⟨l, hl, asked⟩
    | granted ho hs' =>
      exact absurd (h.single _ _ s g receiving ⟨_, _, _, _, ho ▸ hp, hs'⟩) hqp
    | shifted ho hs' =>
      exact absurd (h.single _ _ s g receiving ⟨_, _, _, _, ho ▸ hp, hs'⟩) hqp
    | changed ho hs' hg hid =>
      subst ho hs' hg hid
      exact absurd holding (ha _ _ _ hp q)

end Exec

section Run

variable {P P' : Pool (pull cfg)} {L : Leases}

/-- What moves no lease keeps the ledger true of the pool. -/
theorem Timely.quiet (h : Timely P L) (now : P.shared.now ≤ P'.shared.now)
    (pending : ∀ s g id,
      P'.shared.plane.pendingEntry s g id = P.shared.plane.pendingEntry s g id)
    (grown : ∀ s g id,
      deliveries s g id P.shared.plane.log ≤ deliveries s g id P'.shared.plane.log)
    (within : ∀ p o x, P'.actors p = .calling o x → WithinThreshold cfg o)
    (single : ∀ p q s g, Receiving P' p s g → Receiving P' q s g → p = q)
    (holding : ∀ q s g id, Holding P' q s g id → ∀ store maxMessages visibilityMs x,
      P'.actors q = .calling (.receive store g maxMessages visibilityMs) x →
        Holding P q s g id ∧
          ∃ y, P.actors q = .calling (.receive store g maxMessages visibilityMs) y) :
    Timely P' L where
  within := within
  single := single
  leased s g id e he := h.leased s g id e (pending s g id ▸ he)
  sound s g id l hl := by
    obtain ⟨since, ends, asked, pos⟩ := h.sound s g id l hl
    exact ⟨since.trans now, ends, asked, pos.trans_le (grown s g id)⟩
  holding q s g id hold store n v x hq := by
    obtain ⟨hold', y, hy⟩ := holding q s g id hold store n v x hq
    exact h.holding q s g id hold' store n v y hy

section Set

variable {p : ℕ} {a : Actor redis PullCall PullResult Unit} {σ : Server}

/-- A call that goes on was in progress, or begins. -/
theorem calling_set {o : PullCall} {x : Script PullResult} {q : ℕ}
    (old : ∀ o x, a = .calling o x → ∃ y, P.actors p = .calling o y)
    (hq : (Pool.set { P with shared := σ } p a).actors q = .calling o x) :
    ∃ y, P.actors q = .calling o y := by
  by_cases hqp : q = p
  · subst hqp
    exact old o x (by simpa using hq)
  · rw [Pool.set_actors_of_ne _ hqp] at hq
    exact ⟨x, hq⟩

theorem Timely.quiet_set (h : Timely P L) (now : P.shared.now ≤ σ.now)
    (pending : ∀ s g id, σ.plane.pendingEntry s g id = P.shared.plane.pendingEntry s g id)
    (grown : ∀ s g id, deliveries s g id P.shared.plane.log ≤ deliveries s g id σ.plane.log)
    (own_eq : ∀ q o x, (Pool.set { P with shared := σ } p a).actors q = .calling o x →
      own q σ = own q P.shared)
    (old : ∀ o x, a = .calling o x → ∃ y, P.actors p = .calling o y ∧ y ≠ (pull cfg).code o) :
    Timely (Pool.set { P with shared := σ } p a) L := by
  have calling : ∀ {q o x}, (Pool.set { P with shared := σ } p a).actors q = .calling o x →
      ∃ y, P.actors q = .calling o y := fun hq =>
    calling_set (fun o x e => ⟨_, (old o x e).choose_spec.1⟩) hq
  refine h.quiet now pending grown (fun q o x hq => ?_) ?_ ?_
  · obtain ⟨y, hy⟩ := calling hq
    exact h.within q o y hy
  · rintro q r s g ⟨store, n, v, x, hq, hs⟩ ⟨store', n', v', x', hr, hs'⟩
    obtain ⟨y, hy⟩ := calling hq
    obtain ⟨y', hy'⟩ := calling hr
    exact h.single q r s g ⟨store, n, v, y, hy, hs⟩ ⟨store', n', v', y', hy', hs'⟩
  · rintro q s g id ⟨store, n, v, x, hq', hx', hs, m, hm⟩ _ _ _ _ hq
    rw [hq'] at hq
    cases hq
    have hm : .granted s g id m ∈ thisCall (own q σ) := hm
    rw [own_eq q _ _ hq'] at hm
    obtain ⟨y, hy, hyc⟩ : ∃ y, P.actors q = .calling (.receive store g n v) y ∧
        y ≠ (pull cfg).code (.receive store g n v) := by
      by_cases hqp : q = p
      · subst hqp
        exact old _ _ (by simpa using hq')
      · rw [Pool.set_actors_of_ne _ hqp] at hq'
        exact ⟨_, hq', hx'⟩
    exact ⟨⟨store, n, v, y, hy, hyc, hs, m, hm⟩, y, hy⟩

end Set

/-- A command of a call keeps the ledger true of the pool. -/
theorem Timely.exec (h : Timely P L) {p : ℕ} {o : PullCall} {c : Cmd}
    {k : c.Reply → Script PullResult} {i : Input} (hp : P.actors p = .calling o (.op c k))
    (issued : o.Issues cfg c) (shifts : Shifts p o c P.shared) (ha : OneByOne P (.exec p i)) :
    Timely ({ P with shared := (P.shared.exec p c i).2 }.set p
      (.calling o (k (P.shared.exec p c i).1))) (Leases.after cfg P (.exec p i) L) := by
  cases c with
  | now =>
    have ledger : Leases.after cfg P (.exec p i) L = L := by simp only [Leases.after, hp]
    rw [ledger]
    refine h.quiet_set (le_refl _) (fun _ _ _ => rfl) (fun _ _ _ => le_refl _) (fun _ _ _ _ => rfl)
      fun o' x e => ?_
    cases e
    refine ⟨_, hp, fun hx => ?_⟩
    cases o with
    | receive store g n v =>
      obtain ⟨code, hcode⟩ := code_receive cfg store g n v
      rw [hcode] at hx
      cases hx
    | delete receipt => rcases issued with h | h | ⟨-, h⟩ <;> cases h
    | _ => cases issued
  | keyed c =>
    cases o with
    | delete receipt => rcases issued with h | h | ⟨-, h⟩ <;> cases h
    | _ => cases issued
  | stream c =>
    have ledger : Leases.after cfg P (.exec p i) L = fun s g id =>
        lease cfg o c i P.shared s g id (L s g id) := by
      simp only [Leases.after, hp]
    have calling : ∀ {q o' x}, ({ P with shared := (P.shared.exec p (.stream c) i).2 }.set p
        (.calling o (k (P.shared.exec p (.stream c) i).1))).actors q = .calling o' x →
          ∃ y, P.actors q = .calling o' y := fun hq =>
      calling_set (fun o' x e => by cases e; exact ⟨_, hp⟩) hq
    rw [ledger]
    refine ⟨fun q o' x hq => ?_, ?_, fun s g id e he => h.leased_exec hp issued shifts he,
      fun s g id l hl => h.sound_exec hp issued hl,
      fun q s g id hold store n v x hq => h.holding_exec hp issued ha rfl hold hq⟩
    · obtain ⟨y, hy⟩ := calling hq
      exact h.within q o' y hy
    · rintro q r s g ⟨store, n, v, x, hq, hs⟩ ⟨store', n', v', x', hr, hs'⟩
      obtain ⟨y, hy⟩ := calling hq
      obtain ⟨y', hy'⟩ := calling hr
      exact h.single q r s g ⟨store, n, v, y, hy, hs⟩ ⟨store', n', v', y', hy', hs'⟩

/-- A call that begins was granted nothing. -/
theorem Timely.call (h : Timely P L) {p : ℕ} {o : PullCall} {φ : Unit}
    (hp : P.actors p = .resting φ) (ha : OneByOne P (.call p o)) :
    Timely (P.set p (.calling o ((pull cfg).code o))) L := by
  have old : ∀ {q o' x}, q ≠ p → (P.set p (.calling o ((pull cfg).code o))).actors q =
      .calling o' x → P.actors q = .calling o' x := by
    intro q o' x hqp hq
    rwa [Pool.set_actors_of_ne _ hqp] at hq
  have new : ∀ {o' x}, (P.set p (.calling o ((pull cfg).code o))).actors p = .calling o' x →
      o' = o ∧ x = (pull cfg).code o := by
    intro o' x hq
    rw [Pool.set_actors_self] at hq
    cases hq
    exact ⟨rfl, rfl⟩
  have only : ∀ {q s g}, Receiving (P.set p (.calling o ((pull cfg).code o))) p s g →
      Receiving (P.set p (.calling o ((pull cfg).code o))) q s g → p = q := by
    rintro q s g ⟨store, n, v, x, hx, rfl⟩ ⟨store', n', v', y, hq, hs⟩
    by_contra hqp
    exact ha.2 store g n v (new hx).1.symm q ⟨store', n', v', y, old (Ne.symm hqp) hq, hs⟩
  refine h.quiet (le_refl _) (fun _ _ _ => rfl) (fun _ _ _ => le_refl _) (fun q o' x hq => ?_)
    (fun q r s g hq hr => ?_) ?_
  · by_cases hqp : q = p
    · subst hqp
      rw [(new hq).1]
      exact ha.1
    · exact h.within q o' x (old hqp hq)
  · by_cases hqp : q = p
    · subst hqp
      exact only hq hr
    by_cases hrp : r = p
    · subst hrp
      exact (only hr hq).symm
    obtain ⟨store, n, v, x, hx, hs⟩ := hq
    obtain ⟨store', n', v', y, hy, hs'⟩ := hr
    exact h.single q r s g ⟨store, n, v, x, old hqp hx, hs⟩ ⟨store', n', v', y, old hrp hy, hs'⟩
  · rintro q s g id ⟨store, n, v, x, hq, hx, hs, m, hm⟩ store' n' v' x' hq'
    by_cases hqp : q = p
    · subst hqp
      obtain ⟨rfl, hcode⟩ := new hq
      exact absurd hcode hx
    · exact ⟨⟨store, n, v, x, old hqp hq, hx, hs, m, hm⟩, x', old hqp hq'⟩

/-- Every decision keeps the ledger true of the pool. -/
theorem Timely.act (h : Timely P L) (calls : P.Calls (PullCall.Issues cfg)) {a : Act (pull cfg)}
    (shifts : ∀ p o c k, P.actors p = .calling o (.op c k) → Shifts p o c P.shared)
    (ha : OneByOne P a) (hs : P.act a = some P') : Timely P' (Leases.after cfg P a L) := by
  cases Pool.acted hs with
  | exec hp => exact h.exec hp (calls _ _ _ hp).1 (shifts _ _ _ _ hp) ha
  | @call p o φ hp => exact h.call hp ha
  | @ret p o r hp =>
    have resting : ∀ {q o' x}, ({ P with shared := (pull cfg).note p o r P.shared }.set p
        (.resting ((pull cfg).phase o r))).actors q = .calling o' x → q ≠ p := by
      rintro q o' x hq rfl
      rw [Pool.set_actors_self] at hq
      cases hq
    cases o with
    | receive store group n v =>
      cases r with
      | received ds =>
        refine h.quiet_set (le_refl _) (fun _ _ _ => rfl) (fun s g id => ?_)
          (fun q o' x hq => History.own_cons_of_ne (resting hq).symm) fun o' x e => by cases e
        simp [deliveries, StreamEvent.grants]
      | _ =>
        exact h.quiet_set (le_refl _) (fun _ _ _ => rfl) (fun _ _ _ => le_refl _)
          (fun _ _ _ _ => rfl) fun o' x e => by cases e
    | _ =>
      exact h.quiet_set (le_refl _) (fun _ _ _ => rfl) (fun _ _ _ => le_refl _)
        (fun _ _ _ _ => rfl) fun o' x e => by cases e
  | crash =>
    exact h.quiet_set (le_refl _) (fun _ _ _ => rfl) (fun _ _ _ => le_refl _) (fun _ _ _ _ => rfl)
      fun o' x e => by cases e
  | @disturb d =>
    have log : (P.shared.disturb d).plane.log = P.shared.plane.log := by cases d <;> rfl
    refine h.quiet ?_ (fun s g id => ?_) (fun s g id => by rw [log]) (fun p o x hp => h.within p o x hp)
      (fun p q s g hp hq => h.single p q s g hp hq) ?_
    · cases d <;> simp [Server.disturb]
    · cases d <;> rfl
    · rintro q s g id ⟨store, n, v, x, hq, hx, hs, m, hm⟩ store' n' v' x' hq'
      have hm : .granted s g id m ∈ thisCall ((P.shared.disturb d).plane.log.own q) := hm
      rw [log] at hm
      exact ⟨⟨store, n, v, x, hq, hx, hs, m, hm⟩, x', hq'⟩

/-- The runs whose receives go one by one, with their ledgers. -/
abbrev Ledger (cfg : QueueConfig) : Pool (pull cfg) → Leases → Prop :=
  Pool.Recorded OneByOne (Leases.after cfg) (start cfg) fun _ _ _ => none

theorem timely (hr : Ledger cfg P L) : Timely P L := by
  induction hr with
  | refl =>
    exact {
      within := fun _ _ _ => nofun
      single := fun _ _ _ _ ⟨_, _, _, _, h, _⟩ => nomatch h
      leased := fun _ _ _ _ => nofun
      sound := fun _ _ _ _ => nofun
      holding := fun _ _ _ _ ⟨_, _, _, _, h, _⟩ => nomatch h }
  | @step Q Q' L a hr ha hs ih =>
    have reach := hr.reach
    exact ih.act (reach.calls issues (start_calls {}))
      (fun p o c k hp => ((within_run reach).guard (i := {}) hp fun h => h.elim).2) ha hs

/-- An entry is not handed out before its lease end; while it is pending, it may be claimed from
`Lease.eligibleAt` on, which is never before the lease end. -/
structure OnTime (cfg : QueueConfig) (P : Pool (pull cfg)) (L : Leases) : Prop where
  kept : ∀ {p o c k i s g id l}, P.actors p = .calling o (.op (.stream c) k) →
    GrantedBy P.shared.plane P.shared.now i s g id c → L s g id = some l → l.ends ≤ P.shared.now
  eligible : ∀ {s g id e}, P.shared.plane.pendingEntry s g id = some e → ∃ l, L s g id = some l ∧
    (((P.shared.plane.streams s).group g).IdleFor P.shared.now cfg.maxVisibilityTimeoutMs id ↔
      l.eligibleAt cfg.maxVisibilityTimeoutMs ≤ P.shared.now)
  late : ∀ {s g id l}, L s g id = some l → l.ends ≤ l.eligibleAt cfg.maxVisibilityTimeoutMs

theorem lease_timing (hr : Ledger cfg P L) : OnTime cfg P L := by
  have h := timely hr
  have idle : ∀ {s g id e}, P.shared.plane.pendingEntry s g id = some e → ∃ l, L s g id = some l ∧
      (((P.shared.plane.streams s).group g).IdleFor P.shared.now cfg.maxVisibilityTimeoutMs id ↔
        l.eligibleAt cfg.maxVisibilityTimeoutMs ≤ P.shared.now) := by
    intro s g id e he
    obtain ⟨l, hl, at_eq⟩ := h.leased s g id e he
    refine ⟨l, hl, ?_⟩
    rw [← at_eq]
    constructor
    · rintro ⟨e', he', hidle⟩
      obtain rfl : e = e' := Option.some.inj (he.symm.trans he')
      omega
    · exact fun hle => ⟨e, he, by omega⟩
  refine ⟨fun {p o c k i s g id l} hp hgr hl => ?_, idle, fun hl => (h.sound _ _ _ _ hl).2.1⟩
  have issued : o.Issues cfg (.stream c) := (hr.reach.calls issues (start_calls {}) p o _ hp).1
  obtain ⟨since, ends, asked, pos⟩ := h.sound s g id l hl
  obtain ⟨store, n, v, rfl, hs⟩ := receive_of_grantedBy issued hgr
  cases c with
  | xreadgroup =>
    -- a new entry has no lease
    obtain ⟨rfl, rfl, hid⟩ := hgr
    rw [(within_run hr.reach).inv.coherent.fresh _ _ _ (Stream.mem_readIds hid).1] at pos
    exact absurd pos (lt_irrefl 0)
  | xautoclaim =>
    obtain ⟨-, rfl, rfl, hid⟩ := hgr
    obtain ⟨-, -, rfl⟩ := issued
    obtain ⟨hidle, -⟩ := Stream.mem_claims hid
    have ⟨e, he, _⟩ := hidle
    obtain ⟨l', hl', iff⟩ := idle he
    obtain rfl : l = l' := Option.some.inj (hl.symm.trans hl')
    exact ends.trans (iff.1 hidle)
  | _ => cases hgr

end Run

/-! ## Time that passes in a receive -/

namespace Delayed

open BornStale

/-- A receive with a lease of `4` ms under a threshold of `10` ms; `delay` ms pass between its
`XREADGROUP` and its `XCLAIM`, and the rest of the lease after it. -/
def shortLease (delay : ℕ) : List (Act (pull config)) :=
  [.call 0 (.send store envelope), .exec 0 {}, .ret 0, .call 0 (.receive store "billing" 1 (some 4))] ++
    List.replicate 4 (.exec 0 {}) ++
    [.disturb (.advance delay), .exec 0 {}, .exec 0 {}, .ret 0, .disturb (.advance (4 - delay))]

/-- Every call asks for a visibility within the threshold. -/
def asks (_Q : Pool (pull config)) : Act (pull config) → Bool
  | .call _ (.receive _ _ _ v) => v.getD 10 ≤ 10
  | .call _ (.changeVisibility _ v) => v ≤ 10
  | _ => true

theorem oneByOne {Q Q' : Pool (pull config)} {a : Act (pull config)}
    (rest : ∀ q, q ≠ 0 → ∃ φ, Q.actors q = .resting φ) (solo : Pool.Solo 0 a)
    (ha : asks Q a = true) (hs : Q.act a = some Q') : OneByOne Q a := by
  cases Pool.acted hs with
  | @call p o φ hp =>
    obtain rfl : p = 0 := solo
    refine ⟨?_, fun store g n v ho q ⟨_, _, _, x, hq, _⟩ => ?_⟩
    · cases o with
      | receive store g n v =>
        have bound : v.getD 10 ≤ 10 := by simpa [asks] using ha
        exact bound
      | changeVisibility receipt v =>
        have bound : v ≤ 10 := by simpa [asks] using ha
        exact bound
      | _ => trivial
    · by_cases hq0 : q = 0
      · subst hq0
        rw [hp] at hq
        cases hq
      · obtain ⟨φ, hφ⟩ := rest q hq0
        rw [hφ] at hq
        cases hq
  | @exec p i =>
    obtain rfl : p = 0 := solo
    rintro receipt v x hx q ⟨_, _, _, y, hq, -⟩
    by_cases hq0 : q = 0
    · subst hq0
      rw [hx] at hq
      cases hq
    · obtain ⟨φ, hφ⟩ := rest q hq0
      rw [hφ] at hq
      cases hq
  | _ => trivial

theorem recorded {l : List (Act (pull config))} {r : Pool (pull config) × Leases}
    (h : (start config).recordSolo 0 asks (Leases.after config) (fun _ _ _ => none) l = some r) :
    Ledger config r.1 r.2 :=
  Pool.Recorded.of_solo oneByOne (fun _ _ => ⟨(), rfl⟩) h

end Delayed

open BornStale Delayed in
theorem lease_end_early : ¬ ∀ (P : Pool (pull config)) (L : Leases), Ledger config P L →
    ∀ s g id l, (P.shared.plane.pendingEntry s g id).isSome → L s g id = some l →
      l.shifted.isSome → l.ends ≤ P.shared.now →
        ((P.shared.plane.streams s).group g).IdleFor P.shared.now config.maxVisibilityTimeoutMs id := by
  intro h
  have run : ∃ r ∈ (start config).recordSolo 0 asks (Leases.after config) (fun _ _ _ => none)
        (shortLease 1),
      (r.1.shared.plane.pendingEntry "evb:queue:orders" "billing" 1).isSome ∧
      r.2 "evb:queue:orders" "billing" 1 = some ⟨0, 4, some 1⟩ ∧ 4 ≤ r.1.shared.now ∧
      ¬ ((r.1.shared.plane.streams "evb:queue:orders").group "billing").IdleFor r.1.shared.now 10 1 := by
    decide +kernel
  obtain ⟨r, hr, pending, lease, time, notIdle⟩ := run
  exact notIdle (h r.1 r.2 (recorded hr) _ _ _ _ pending lease rfl time)

open BornStale Delayed in
theorem lease_timing_witness : ∃ (P : Pool (pull config)) (L : Leases),
    (P.shared.plane.pendingEntry "evb:queue:orders" "billing" 1).isSome ∧
      L "evb:queue:orders" "billing" 1 = some ⟨0, 4, some 0⟩ ∧ OnTime config P L := by
  have run : ∃ r ∈ (start config).recordSolo 0 asks (Leases.after config) (fun _ _ _ => none)
        (shortLease 0),
      (r.1.shared.plane.pendingEntry "evb:queue:orders" "billing" 1).isSome ∧
      r.2 "evb:queue:orders" "billing" 1 = some ⟨0, 4, some 0⟩ := by decide +kernel
  obtain ⟨r, hr, pending, lease⟩ := run
  exact ⟨r.1, r.2, pending, lease, lease_timing (recorded hr)⟩

end Pull

end NavigatorEventbus
