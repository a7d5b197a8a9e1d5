import NavigatorEventbus.Redis.Server
import Mathlib.Data.List.Pairwise

/-!
# Delivery counters and the history

The times-delivered counter of a pending entry is the number of its grants in the history, where a
grant is an entry that an `XREADGROUP` or an `XAUTOCLAIM` handed to a consumer (`Plane.Coherent`).
No command of the plane breaks this.
-/

namespace NavigatorEventbus

open Interleave

namespace Stream

variable {φ : Type} {s : Stream φ} {name consumer : String} {g : Group} {t ms : ℤ} {id : EntryId}

@[simp] theorem group_setGroup_self : (s.setGroup name g).group name = g := by
  simp [group, setGroup]

theorem group_setGroup_of_ne {name' : String} (h : name' ≠ name) :
    (s.setGroup name g).group name' = s.group name' := by
  simp [group, setGroup, h]

theorem ids_sorted : s.ids.Pairwise (· < ·) := by
  refine List.Pairwise.map _ (fun a b hab => ?_) List.pairwise_lt_range
  exact Nat.add_lt_add_right hab 1

theorem ids_nodup : s.ids.Nodup := ids_sorted.imp fun h => Nat.ne_of_lt h

theorem mem_ids : id ∈ s.ids ↔ 0 < id ∧ id ≤ s.lastId := by
  simp only [ids, List.mem_map, List.mem_range]
  constructor
  · rintro ⟨a, ha, rfl⟩
    exact ⟨Nat.succ_pos a, ha⟩
  · rintro ⟨h, h'⟩
    exact ⟨id - 1, Nat.sub_one_lt_of_le h h', Nat.succ_pred_eq_of_pos h⟩

theorem mem_after {a : EntryId} :
    id ∈ s.after a ↔ id ∈ s.ids ∧ a < id ∧ (s.entries id).isSome := by
  simp [after]

/-! ## XREADGROUP -/

/-- The ids that an `XREADGROUP` delivers. -/
def readIds (s : Stream φ) (name : String) (count : ℕ) : List EntryId :=
  (s.after (s.group name).lastDelivered).take count

theorem filterMap_entries {l : List EntryId} (h : ∀ id ∈ l, (s.entries id).isSome) :
    (l.filterMap fun id => (s.entries id).map fun f => (id, f)).map Prod.fst = l := by
  induction l with
  | nil => rfl
  | cons id l ih =>
    obtain ⟨f, hf⟩ := Option.isSome_iff_exists.1 (h id (by simp))
    simp [hf, ih fun i hi => h i (List.mem_cons_of_mem _ hi)]

theorem mem_readIds {count : ℕ} (h : id ∈ s.readIds name count) :
    (s.group name).lastDelivered < id ∧ (s.entries id).isSome :=
  (mem_after.1 (List.mem_of_mem_take h)).2

theorem readIds_sorted {count : ℕ} : (s.readIds name count).Pairwise (· < ·) :=
  (ids_sorted.sublist List.filter_sublist).sublist (List.take_sublist _ _)

theorem read_ids {count : ℕ} :
    (s.read name consumer count t).1.map Prod.fst = s.readIds name count :=
  filterMap_entries fun _ h => (mem_readIds h).2

theorem read_snd {count : ℕ} : (s.read name consumer count t).2 = s.setGroup name
    { lastDelivered := (s.readIds name count).getLast?.getD (s.group name).lastDelivered
      pending := fun id =>
        if id ∈ s.readIds name count then some ⟨consumer, t, 1⟩ else (s.group name).pending id } :=
  rfl

theorem le_getLast {l : List EntryId} {a : EntryId} (h : l.Pairwise (· < ·)) (hid : id ∈ l) :
    id ≤ l.getLast?.getD a := by
  rcases List.eq_nil_or_concat l with rfl | ⟨l, b, rfl⟩
  · cases hid
  · rw [List.concat_eq_append] at h hid ⊢
    rw [List.getLast?_append_of_ne_nil _ (by simp)]
    rcases List.mem_append.1 hid with hid | hid
    · exact Nat.le_of_lt ((List.pairwise_append.1 h).2.2 id hid b (by simp))
    · simp only [List.mem_singleton] at hid
      simp [hid]

theorem lastDelivered_le_read {count : ℕ} :
    (s.group name).lastDelivered ≤ ((s.read name consumer count t).2.group name).lastDelivered := by
  rw [read_snd, group_setGroup_self]
  change _ ≤ Option.getD _ _
  cases h : (s.readIds name count).getLast? with
  | none => exact Nat.le_refl _
  | some a => exact Nat.le_of_lt (mem_readIds (List.mem_of_getLast? h)).1

/-! ## XAUTOCLAIM -/

/-- The ids that an `XAUTOCLAIM` claims, and those it finds deleted. -/
def claims (s : Stream φ) (name : String) (ms : ℤ) (count : ℕ) (t : ℤ) : List EntryId × List EntryId :=
  s.claimScan (s.group name) t ms s.ids (10 * count) count

theorem claimScan_sublist (l : List EntryId) (attempts count : ℕ) :
    (s.claimScan g t ms l attempts count).1.Sublist l := by
  fun_induction claimScan s g t ms l attempts count with
  | case1 => exact .slnil
  | case2 => exact List.nil_sublist _
  | case3 => exact List.nil_sublist _
  | case4 id rest attempts count hp ih => exact ih.cons _
  | case5 id rest attempts count hp he ih => exact ih.cons _
  | case6 id rest attempts count hp he hi ih => exact ih.cons_cons _
  | case7 id rest attempts count hp he hi ih => exact ih.cons _

theorem mem_claimScan {l : List EntryId} {attempts count : ℕ}
    (h : id ∈ (s.claimScan g t ms l attempts count).1) :
    g.IdleFor t ms id ∧ (s.entries id).isSome := by
  fun_induction claimScan s g t ms l attempts count with
  | case1 => cases h
  | case2 => cases h
  | case3 => cases h
  | case4 id' rest attempts count hp ih => exact ih h
  | case5 id' rest attempts count hp he ih => exact ih h
  | case6 id' rest attempts count hp he hi ih =>
    rcases List.mem_cons.1 h with rfl | h
    · exact ⟨hi, by simpa [Option.isSome_iff_ne_none, Option.isNone_iff_eq_none] using he⟩
    · exact ih h
  | case7 id' rest attempts count hp he hi ih => exact ih h

theorem mem_claims {count : ℕ} (h : id ∈ (s.claims name ms count t).1) :
    (s.group name).IdleFor t ms id ∧ (s.entries id).isSome :=
  mem_claimScan h

theorem claims_nodup {count : ℕ} : (s.claims name ms count t).1.Nodup :=
  ids_nodup.sublist (claimScan_sublist _ _ _)

theorem autoclaim_ids {count : ℕ} :
    (s.autoclaim name consumer ms count t).1.map Prod.fst = (s.claims name ms count t).1 :=
  filterMap_entries fun _ h => (mem_claims h).2

theorem autoclaim_snd {count : ℕ} : (s.autoclaim name consumer ms count t).2 = s.setGroup name
    { s.group name with
      pending := fun id =>
        if id ∈ (s.claims name ms count t).1 then
          ((s.group name).pending id).map fun e => ⟨consumer, t, e.timesDelivered + 1⟩
        else if id ∈ (s.claims name ms count t).2 then none
        else (s.group name).pending id } :=
  rfl

end Stream

/-! ## Grants -/

namespace StreamEvent

/-- Whether the event grants entry `id` in a group. -/
def grants (stream group : String) (id : EntryId) : StreamEvent → ℕ
  | granted s g i _ => if s = stream ∧ g = group ∧ i = id then 1 else 0
  | _ => 0

end StreamEvent

/-- How often entry `id` was granted in a group. -/
def deliveries (stream group : String) (id : EntryId) (h : History StreamEvent) : ℕ :=
  h.total (StreamEvent.grants stream group id)

namespace Plane

variable {π : Plane} {stream group : String} {id : EntryId} {p : ℕ}

/-- The counter of a pending entry. -/
def counter (π : Plane) (stream group : String) (id : EntryId) : ℕ :=
  (((π.streams stream).group group).pending id).elim 0 Pending.timesDelivered

@[simp] theorem streams_setStream_self {s : Stream} : (π.setStream stream s).streams stream = s := by
  simp [setStream]

theorem streams_setStream_of_ne {s : Stream} {stream' : String} (h : stream' ≠ stream) :
    (π.setStream stream s).streams stream' = π.streams stream' := by
  simp [setStream, h]

@[simp] theorem log_setStream {s : Stream} : (π.setStream stream s).log = π.log := rfl

/-- The grants that a command left in the history, each with the counter it left. -/
def grantEvents (π : Plane) (stream group : String) (ids : List EntryId) : List StreamEvent :=
  ids.map fun id => .granted stream group id (π.counter stream group id)

theorem log_grant {ids : List EntryId} : (π.grant p stream group ids).log =
    ((π.grantEvents stream group ids).map fun e => (p, e)) ++ π.log := by
  simp [grant, grantEvents, counter, Function.comp_def]

@[simp] theorem streams_grant {ids : List EntryId} :
    (π.grant p stream group ids).streams = π.streams := rfl

theorem deliveries_grant {ids : List EntryId} (h : ids.Nodup) {s g : String} :
    deliveries s g id (π.grant p stream group ids).log =
      (if stream = s ∧ group = g ∧ id ∈ ids then 1 else 0) + deliveries s g id π.log := by
  rw [deliveries, log_grant, History.total_append, History.total_stamp]
  refine congrArg (· + _) ?_
  induction ids with
  | nil => simp [grantEvents]
  | cons i l ih =>
    obtain ⟨hi, hl⟩ := List.nodup_cons.1 h
    have rest := ih hl
    simp only [grantEvents, List.map_cons, History.weigh_cons, StreamEvent.grants] at rest ⊢
    rw [rest]
    by_cases hid : i = id
    · subst hid
      by_cases hs : stream = s ∧ group = g <;> simp [hs, hi]
    · have : id ≠ i := Ne.symm hid
      simp [hid, this]

/-- Counters, last delivered ids and the numbers in the grants agree with the history. -/
structure Coherent (π : Plane) : Prop where
  counted : ∀ s g id e, ((π.streams s).group g).pending id = some e →
    e.timesDelivered = deliveries s g id π.log
  delivered : ∀ s g id e, ((π.streams s).group g).pending id = some e →
    id ≤ ((π.streams s).group g).lastDelivered
  fresh : ∀ s g id, ((π.streams s).group g).lastDelivered < id → deliveries s g id π.log = 0
  numbered : ∀ l₁ p s g id n l₂, π.log = l₁ ++ (p, .granted s g id n) :: l₂ →
    n = deliveries s g id l₂ + 1

namespace Coherent

/-- The plane before any command. -/
theorem init : Coherent {} where
  counted s g id e h := by simp [Stream.group] at h
  delivered s g id e h := by simp [Stream.group] at h
  fresh s g id h := rfl
  numbered l₁ p s g id n l₂ h := by simp at h

/-- A command that grants nothing keeps coherence when it sets no counter. -/
theorem quiet {π π' : Plane} (h : π.Coherent)
    (pending : ∀ s g id e', ((π'.streams s).group g).pending id = some e' →
      ∃ e, ((π.streams s).group g).pending id = some e ∧ e'.timesDelivered = e.timesDelivered)
    (last : ∀ s g, ((π'.streams s).group g).lastDelivered = ((π.streams s).group g).lastDelivered)
    (log : π'.log = π.log ∨ ∃ p e, (∀ s g id n, e ≠ .granted s g id n) ∧ π'.log = (p, e) :: π.log) :
    π'.Coherent := by
  have same : ∀ s g id, deliveries s g id π'.log = deliveries s g id π.log := by
    intro s g id
    rcases log with log | ⟨p, e, he, log⟩
    · rw [log]
    · rw [log, deliveries, History.total_cons]
      cases e <;> first | exact Nat.zero_add _ | exact absurd rfl (he _ _ _ _)
  refine ⟨fun s g id e' he' => ?_, fun s g id e' he' => ?_, fun s g id hid => ?_,
    fun l₁ p s g id n l₂ hl => ?_⟩
  · obtain ⟨e, he, eq⟩ := pending s g id e' he'
    rw [eq, same, h.counted s g id e he]
  · obtain ⟨e, he, -⟩ := pending s g id e' he'
    exact last s g ▸ h.delivered s g id e he
  · rw [same, h.fresh s g id (last s g ▸ hid)]
  · rcases log with log | ⟨q, e, he, log⟩
    · exact h.numbered l₁ p s g id n l₂ (log ▸ hl)
    · rw [log] at hl
      cases l₁ with
      | nil =>
        simp only [List.nil_append, List.cons.injEq, Prod.mk.injEq] at hl
        exact absurd hl.1.2 (he _ _ _ _)
      | cons x l₁ =>
        simp only [List.cons_append, List.cons.injEq] at hl
        exact h.numbered l₁ p s g id n l₂ hl.2

/-- Grants keep coherence when each leaves the counter one above the number of grants before. -/
theorem grant {π π' : Plane} (h : π.Coherent) {p : ℕ} {stream group : String} {ids : List EntryId}
    (nodup : ids.Nodup) (log : π'.log = π.log)
    (pending : ∀ s g id e', ((π'.streams s).group g).pending id = some e' →
      if s = stream ∧ g = group ∧ id ∈ ids then e'.timesDelivered = deliveries s g id π.log + 1
      else ∃ e, ((π.streams s).group g).pending id = some e ∧ e'.timesDelivered = e.timesDelivered)
    (granted : ∀ id ∈ ids, ∃ e', ((π'.streams stream).group group).pending id = some e')
    (last : ∀ s g, ((π.streams s).group g).lastDelivered ≤ ((π'.streams s).group g).lastDelivered)
    (le_last : ∀ id ∈ ids, id ≤ ((π'.streams stream).group group).lastDelivered) :
    (π'.grant p stream group ids).Coherent := by
  refine ⟨fun s g id e' he' => ?_, fun s g id e' he' => ?_, fun s g id hid => ?_, ?_⟩
  · have := pending s g id e' he'
    rw [deliveries_grant nodup, log]
    by_cases hin : s = stream ∧ g = group ∧ id ∈ ids
    · rw [if_pos hin] at this
      rw [if_pos ⟨hin.1.symm, hin.2.1.symm, hin.2.2⟩, this, Nat.add_comm]
    · rw [if_neg hin] at this
      obtain ⟨e, he, eq⟩ := this
      rw [if_neg fun hc => hin ⟨hc.1.symm, hc.2.1.symm, hc.2.2⟩, Nat.zero_add, eq,
        h.counted s g id e he]
  · have he' : ((π'.streams s).group g).pending id = some e' := he'
    change id ≤ ((π'.streams s).group g).lastDelivered
    by_cases hin : s = stream ∧ g = group ∧ id ∈ ids
    · obtain ⟨rfl, rfl, hin⟩ := hin
      exact le_last id hin
    · have := pending s g id e' he'
      rw [if_neg hin] at this
      obtain ⟨e, he, -⟩ := this
      exact (h.delivered s g id e he).trans (last s g)
  · have hid : ((π'.streams s).group g).lastDelivered < id := hid
    have hlast := Nat.lt_of_le_of_lt (last s g) hid
    rw [deliveries_grant nodup, log, h.fresh s g id hlast]
    split_ifs with hin
    · obtain ⟨rfl, rfl, hin⟩ := hin
      exact absurd (le_last id hin) (Nat.not_le.2 hid)
    · rfl
  · intro l₁ q s g id n l₂ hl
    rw [log_grant, log] at hl
    rcases List.append_eq_append_iff.1 hl with ⟨l, rfl, tail⟩ | ⟨l, hl, rest⟩
    · exact h.numbered l q s g id n l₂ tail
    · cases l with
      | nil =>
        exact h.numbered [] q s g id n l₂ (by simpa using rest.symm)
      | cons x l =>
        simp only [List.cons_append, List.cons.injEq] at rest
        obtain ⟨rfl, rest⟩ := rest
        have mem : (q, StreamEvent.granted s g id n) ∈
            (π'.grantEvents stream group ids).map fun e => (p, e) := by rw [hl]; simp
        simp only [grantEvents, List.map_map, List.mem_map, Function.comp_apply, Prod.mk.injEq,
          StreamEvent.granted.injEq] at mem
        obtain ⟨id', hin, rfl, rfl, rfl, rfl, rfl⟩ := mem
        obtain ⟨e', he'⟩ := granted id' hin
        have count := pending _ _ _ _ he'
        rw [if_pos ⟨rfl, rfl, hin⟩] at count
        have later : deliveries stream group id' (l ++ π.log) = deliveries stream group id' π.log := by
          have whole : deliveries stream group id' (π'.grant p stream group ids).log = _ :=
            deliveries_grant nodup
          rw [if_pos ⟨rfl, rfl, hin⟩, log_grant, hl, log] at whole
          simp only [deliveries, List.append_assoc, List.cons_append, History.total_append,
            History.total_cons, StreamEvent.grants, and_self, if_true] at whole ⊢
          omega
        rw [rest, later, ← count]
        simp [counter, he']

/-- A command on the pending list of one stream keeps coherence when it sets no counter. -/
theorem quiet_setStream {π : Plane} (h : π.Coherent) {stream : String} {s' : Stream}
    (pending : ∀ g id e', (s'.group g).pending id = some e' →
      ∃ e, ((π.streams stream).group g).pending id = some e ∧ e'.timesDelivered = e.timesDelivered)
    (last : ∀ g, (s'.group g).lastDelivered = ((π.streams stream).group g).lastDelivered) :
    (π.setStream stream s').Coherent := by
  refine h.quiet (fun s g id e' he' => ?_) (fun s g => ?_) (.inl rfl)
  · by_cases hs : s = stream
    · subst hs
      exact pending g id e' (by simpa using he')
    · rw [streams_setStream_of_ne hs] at he'
      exact ⟨e', he', rfl⟩
  · by_cases hs : s = stream
    · subst hs
      simpa using last g
    · rw [streams_setStream_of_ne hs]

/-- A change of one group keeps coherence when it sets no counter. -/
theorem quiet_setGroup {π : Plane} (h : π.Coherent) {stream group : String} {g' : Group}
    (pending : ∀ id e', g'.pending id = some e' →
      ∃ e, ((π.streams stream).group group).pending id = some e ∧
        e'.timesDelivered = e.timesDelivered)
    (last : g'.lastDelivered = ((π.streams stream).group group).lastDelivered) :
    (π.setStream stream ((π.streams stream).setGroup group g')).Coherent := by
  refine h.quiet_setStream (fun g id e' he' => ?_) fun g => ?_
  · by_cases hg : g = group
    · subst hg
      exact pending id e' (by simpa using he')
    · exact ⟨e', by rwa [Stream.group_setGroup_of_ne hg] at he', rfl⟩
  · by_cases hg : g = group
    · subst hg
      simpa using last
    · rw [Stream.group_setGroup_of_ne hg]

/-- An event that is no grant keeps coherence. -/
theorem event {π : Plane} (h : π.Coherent) {p : ℕ} {e : StreamEvent}
    (he : ∀ s g id n, e ≠ .granted s g id n) : Coherent { π with log := (p, e) :: π.log } :=
  h.quiet (fun _ _ _ e' he' => ⟨e', he', rfl⟩) (fun _ _ => rfl) (.inr ⟨p, e, he, rfl⟩)

/-- A change outside the streams and the history keeps coherence. -/
theorem of_eq {π π' : Plane} (h : π.Coherent) (streams : π'.streams = π.streams)
    (log : π'.log = π.log) : π'.Coherent :=
  h.quiet (fun _ _ _ e' he' => ⟨e', streams ▸ he', rfl⟩) (fun _ _ => by rw [streams]) (.inl log)

theorem xreadgroup {π : Plane} (h : π.Coherent) {p : ℕ} {t : ℤ} {i : Input}
    {stream group consumer : String} {count : ℕ} :
    (π.exec p t i (.xreadgroup stream group consumer count)).2.Coherent := by
  have new : ∀ id ∈ (π.streams stream).readIds group count, deliveries stream group id π.log = 0 :=
    fun id hid => h.fresh _ _ _ (Stream.mem_readIds hid).1
  change ((π.setStream stream _).grant p stream group (List.map _ _)).Coherent
  rw [Stream.read_ids]
  refine h.grant (Stream.readIds_sorted.imp fun h => Nat.ne_of_lt h) rfl (fun s g id e' he' => ?_)
    (fun id hid => ?_) (fun s g => ?_) fun id hid => ?_
  · by_cases hs : s = stream
    · subst hs
      rw [streams_setStream_self, Stream.read_snd] at he'
      by_cases hg : g = group
      · subst hg
        rw [Stream.group_setGroup_self] at he'
        by_cases hid : id ∈ (π.streams s).readIds g count
        · simp only [hid, if_true, Option.some.injEq] at he'
          simp [hid, new id hid, ← he']
        · simp only [hid, if_false] at he'
          simp [hid, he']
      · rw [Stream.group_setGroup_of_ne hg] at he'
        simp [hg, he']
    · rw [streams_setStream_of_ne hs] at he'
      simp [hs, he']
  · rw [streams_setStream_self, Stream.read_snd, Stream.group_setGroup_self]
    exact ⟨_, if_pos hid⟩
  · by_cases hs : s = stream
    · subst hs
      rw [streams_setStream_self]
      by_cases hg : g = group
      · subst hg
        exact Stream.lastDelivered_le_read
      · rw [Stream.read_snd, Stream.group_setGroup_of_ne hg]
    · rw [streams_setStream_of_ne hs]
  · rw [streams_setStream_self, Stream.read_snd, Stream.group_setGroup_self]
    exact Stream.le_getLast Stream.readIds_sorted hid

theorem xautoclaim {π : Plane} (h : π.Coherent) {p : ℕ} {t : ℤ} {i : Input}
    {stream group consumer : String} {minIdle : ℤ} {count : ℕ} :
    (π.exec p t i (.xautoclaim stream group consumer minIdle count)).2.Coherent := by
  simp only [Plane.exec]
  split_ifs with hf
  · exact h
  change ((π.setStream stream _).grant p stream group (List.map _ _)).Coherent
  rw [Stream.autoclaim_ids]
  refine h.grant Stream.claims_nodup rfl (fun s g id e' he' => ?_) (fun id hid => ?_)
    (fun s g => ?_) fun id hid => ?_
  · by_cases hs : s = stream
    · subst hs
      rw [streams_setStream_self, Stream.autoclaim_snd] at he'
      by_cases hg : g = group
      · subst hg
        rw [Stream.group_setGroup_self] at he'
        by_cases hid : id ∈ ((π.streams s).claims g minIdle count t).1
        · simp only [hid, if_true, Option.map_eq_some_iff] at he'
          obtain ⟨e, he, rfl⟩ := he'
          simp [hid, h.counted s g id e he]
        · simp only [hid, if_false] at he'
          split_ifs at he'
          simp [hid, he']
      · rw [Stream.group_setGroup_of_ne hg] at he'
        simp [hg, he']
    · rw [streams_setStream_of_ne hs] at he'
      simp [hs, he']
  · obtain ⟨⟨e, he, -⟩, -⟩ := Stream.mem_claims hid
    rw [streams_setStream_self, Stream.autoclaim_snd, Stream.group_setGroup_self]
    exact ⟨_, by simp only [hid, if_true, he]; rfl⟩
  · by_cases hs : s = stream
    · subst hs
      rw [streams_setStream_self, Stream.autoclaim_snd]
      by_cases hg : g = group
      · subst hg
        rw [Stream.group_setGroup_self]
      · rw [Stream.group_setGroup_of_ne hg]
    · rw [streams_setStream_of_ne hs]
  · obtain ⟨⟨e, he, -⟩, -⟩ := Stream.mem_claims hid
    rw [streams_setStream_self, Stream.autoclaim_snd, Stream.group_setGroup_self]
    exact h.delivered _ _ _ _ he

/-- No command of the plane breaks coherence. -/
theorem exec {π : Plane} (h : π.Coherent) (p : ℕ) (t : ℤ) (i : Input) (c : StreamCmd) :
    (π.exec p t i c).2.Coherent := by
  cases c with
  | xgroupCreate stream group =>
    have created : (if ((π.streams stream).groups group).isSome then π
        else π.setStream stream ((π.streams stream).setGroup group {})).Coherent := by
      split_ifs with hg
      · exact h
      have none : (π.streams stream).group group = {} := by
        simp only [Bool.not_eq_true, Option.isSome_eq_false_iff, Option.isNone_iff_eq_none] at hg
        simp [Stream.group, hg]
      exact h.quiet_setGroup (fun id e' he' => by simp at he') (by rw [none])
    exact created.event fun s g id n => nofun
  | xadd stream f maxlen =>
    have added : (π.setStream stream ((π.streams stream).add f maxlen i.trim)).Coherent := by
      refine h.quiet_setStream (fun g id e' he' => ⟨e', ?_, rfl⟩) fun g => ?_
      · simp only [Stream.add] at he'
        split_ifs at he' <;> exact he'
      · simp only [Stream.add]
        split_ifs <;> rfl
    exact added.event fun s g id n => nofun
  | xreadgroup => exact h.xreadgroup
  | xpendingIdle =>
    simp only [Plane.exec]
    split_ifs
    · exact h
    · exact h.event fun s g id n => nofun
  | xpendingEntry => exact h
  | xautoclaim => exact h.xautoclaim
  | xclaim stream group consumer ids idle =>
    simp only [Plane.exec]
    split_ifs
    · exact h
    simp only [Stream.claim]
    cases hg : (π.streams stream).groups group with
    | none => exact h.quiet_setStream (fun g id e' he' => ⟨e', he', rfl⟩) fun g => rfl
    | some g₀ =>
      have hg₀ : (π.streams stream).group group = g₀ := by simp [Stream.group, hg]
      refine h.quiet_setGroup (fun id e' he' => ?_) (by rw [hg₀])
      rw [hg₀]
      simp only at he'
      split_ifs at he'
      · obtain ⟨e, he, rfl⟩ := Option.map_eq_some_iff.1 he'
        exact ⟨e, he, rfl⟩
      · exact ⟨e', he', rfl⟩
  | xack stream group id =>
    simp only [Plane.exec]
    split_ifs
    · exact h
    simp only [Stream.ack]
    cases hg : (π.streams stream).groups group with
    | none => exact h.quiet_setStream (fun g id e' he' => ⟨e', he', rfl⟩) fun g => rfl
    | some g₀ =>
      have hg₀ : (π.streams stream).group group = g₀ := by simp [Stream.group, hg]
      refine h.quiet_setGroup (fun id' e' he' => ?_) (by rw [hg₀]; rfl)
      rw [hg₀]
      by_cases hid : id' = id
      · subst hid
        simp [Group.setPending] at he'
      · exact ⟨e', by simpa [Group.setPending, hid] using he', rfl⟩
  | xdel stream id =>
    simp only [Plane.exec]
    split_ifs
    · exact h
    · exact h.quiet_setStream (fun g id e' he' => ⟨e', he', rfl⟩) fun g => rfl
  | xinfoGroup => exact h
  | xrangeAfter => exact h
  | onDlq => exact h.event fun s g id n => nofun
  | warnParked => exact h.event fun s g id n => nofun
  | zaddSig => exact h.of_eq rfl rfl
  | pexpireSig => exact h
  | zremSig => exact h.of_eq rfl rfl
  | zremrangebyscoreSig => exact h.of_eq rfl rfl
  | zcardSig => exact h
  | getPaused => exact h
  | setPaused => exact h.of_eq rfl rfl
  | deletePaused => exact h.of_eq rfl rfl
  | setRecover =>
    simp only [Plane.exec]
    split_ifs
    · exact h
    · exact h.of_eq rfl rfl

end Coherent

end Plane

end NavigatorEventbus
