import NavigatorEventbus.Redis.Deliveries

/-!
# What a command does to a pending entry

An entry of a group's pending list changes only when it is read for the first time, claimed by an
`XAUTOCLAIM`, moved by an `XCLAIM`, or leaves the list.  The history records the first two as grants.
-/

namespace NavigatorEventbus

open Interleave

variable {π : Plane} {p : ℕ} {t : ℤ} {i : Input} {c : StreamCmd} {s g stream group : String}
  {id : EntryId}

/-- The pending entry `id` of a group. -/
def Plane.pendingEntry (π : Plane) (s g : String) (id : EntryId) : Option Pending :=
  ((π.streams s).group g).pending id

/-- The command grants entry `id` of a group to a consumer. -/
def GrantedBy (π : Plane) (t : ℤ) (i : Input) (s g : String) (id : EntryId) : StreamCmd → Prop
  | .xreadgroup s' g' _ count => s' = s ∧ g' = g ∧ id ∈ (π.streams s).readIds g count
  | .xautoclaim s' g' _ minIdle count =>
    i.fails = false ∧ s' = s ∧ g' = g ∧ id ∈ ((π.streams s).claims g minIdle count t).1
  | _ => False

instance : Decidable (GrantedBy π t i s g id c) := by
  cases c <;> unfold GrantedBy <;> infer_instance

/-- The command is an `XCLAIM` of entry `id` of a group, and does not fail. -/
def MovedBy (i : Input) (s g : String) (id : EntryId) : StreamCmd → Prop
  | .xclaim s' g' _ ids _ => i.fails = false ∧ s' = s ∧ g' = g ∧ id ∈ ids
  | _ => False

instance : Decidable (MovedBy i s g id c) := by
  cases c <;> unfold MovedBy <;> infer_instance

/-- What becomes of the pending entry `id` of a group when a command is executed at time `t`. -/
inductive Becomes (π : Plane) (t : ℤ) (i : Input) (c : StreamCmd) (s g : String) (id : EntryId) :
    Option Pending → Prop where
  | same (granted : ¬ GrantedBy π t i s g id c) (moved : ¬ MovedBy i s g id c) :
      Becomes π t i c s g id (π.pendingEntry s g id)
  | gone : Becomes π t i c s g id none
  | read {consumer : String} {count : ℕ} (hc : c = .xreadgroup s g consumer count)
      (hid : id ∈ (π.streams s).readIds g count) : Becomes π t i c s g id (some ⟨consumer, t, 1⟩)
  | claimed {consumer : String} {minIdle : ℤ} {count : ℕ} {e : Pending}
      (hc : c = .xautoclaim s g consumer minIdle count) (ok : i.fails = false)
      (hid : id ∈ ((π.streams s).claims g minIdle count t).1) (he : π.pendingEntry s g id = some e) :
      Becomes π t i c s g id (some ⟨consumer, t, e.timesDelivered + 1⟩)
  | moved {consumer : String} {ids : List EntryId} {idle : ℤ} {e : Pending}
      (hc : c = .xclaim s g consumer ids idle) (ok : i.fails = false) (hid : id ∈ ids)
      (he : π.pendingEntry s g id = some e) :
      Becomes π t i c s g id (some ⟨consumer, t - idle, e.timesDelivered⟩)

section SetStream

variable {s' : Stream} {x : Group}

theorem Plane.pendingEntry_setStream_of_ne (h : s ≠ stream) :
    (π.setStream stream s').pendingEntry s g id = π.pendingEntry s g id := by
  unfold pendingEntry
  rw [streams_setStream_of_ne h]

theorem Plane.pendingEntry_setGroup : (π.setStream stream ((π.streams stream).setGroup group x)).pendingEntry
    s g id = if s = stream ∧ g = group then x.pending id else π.pendingEntry s g id := by
  unfold pendingEntry
  by_cases hs : s = stream
  · subst hs
    rw [streams_setStream_self]
    by_cases hg : g = group
    · subst hg
      simp
    · rw [Stream.group_setGroup_of_ne hg, if_neg fun h => hg h.2]
  · rw [streams_setStream_of_ne hs, if_neg fun h => hs h.1]

theorem Plane.pendingEntry_of_groups (h : s'.groups = (π.streams stream).groups) :
    (π.setStream stream s').pendingEntry s g id = π.pendingEntry s g id := by
  by_cases hs : s = stream
  · subst hs
    unfold pendingEntry Stream.group
    rw [streams_setStream_self, h]
  · exact pendingEntry_setStream_of_ne hs

end SetStream

theorem Stream.pending_eq_of_none {st : Stream} (h : st.groups g = none) : (st.group g).pending id = none := by
  simp [Stream.group, h]

/-- Every command leaves a pending entry as it is, or does one of four things to it. -/
theorem becomes (π : Plane) (p : ℕ) (t : ℤ) (i : Input) (c : StreamCmd) (s g : String) (id : EntryId) :
    Becomes π t i c s g id ((π.exec p t i c).2.pendingEntry s g id) := by
  have kept : ¬ GrantedBy π t i s g id c → ¬ MovedBy i s g id c → ∀ {π' : Plane},
      π'.pendingEntry s g id = π.pendingEntry s g id →
        Becomes π t i c s g id (π'.pendingEntry s g id) := by
    intro granted moved π' h
    rw [h]
    exact .same granted moved
  cases c with
  | xgroupCreate stream group =>
    refine kept not_false not_false ?_
    show Plane.pendingEntry (if ((π.streams stream).groups group).isSome then π
      else π.setStream stream ((π.streams stream).setGroup group {})) s g _ = _
    split_ifs with hg
    · rfl
    · rw [Plane.pendingEntry_setGroup]
      split_ifs with h
      · obtain ⟨rfl, rfl⟩ := h
        have none : (π.streams s).groups g = none := by simpa using hg
        exact (Stream.pending_eq_of_none none).symm
      · rfl
  | xadd stream f maxlen =>
    refine kept not_false not_false (Plane.pendingEntry_of_groups ?_)
    simp only [Stream.add]
    split_ifs <;> rfl
  | xreadgroup stream group consumer count =>
    show Becomes π t i _ s g id ((π.setStream stream
      ((π.streams stream).read group consumer count t).2).pendingEntry s g id)
    rw [Stream.read_snd, Plane.pendingEntry_setGroup]
    by_cases h : s = stream ∧ g = group
    · rw [if_pos h]
      obtain ⟨rfl, rfl⟩ := h
      dsimp only
      split_ifs with hid
      · exact .read rfl hid
      · exact .same (fun granted => hid granted.2.2) not_false
    · rw [if_neg h]
      exact .same (fun granted => h ⟨granted.1.symm, granted.2.1.symm⟩) not_false
  | xautoclaim stream group consumer minIdle count =>
    simp only [Plane.exec]
    split_ifs with hf
    · exact .same (fun granted => absurd hf (by simp [granted.1])) not_false
    show Becomes π t i _ s g id ((π.setStream stream
      ((π.streams stream).autoclaim group consumer minIdle count t).2).pendingEntry s g id)
    rw [Stream.autoclaim_snd, Plane.pendingEntry_setGroup]
    by_cases h : s = stream ∧ g = group
    · rw [if_pos h]
      obtain ⟨rfl, rfl⟩ := h
      dsimp only
      split_ifs with hid hgone
      · obtain ⟨⟨e, he, -⟩, -⟩ := Stream.mem_claims hid
        rw [he]
        exact .claimed rfl (by simpa using hf) hid he
      · exact .gone
      · exact .same (fun granted => hid granted.2.2.2) not_false
    · rw [if_neg h]
      exact .same (fun granted => h ⟨granted.2.1.symm, granted.2.2.1.symm⟩) not_false
  | xclaim stream group consumer ids idle =>
    simp only [Plane.exec]
    split_ifs with hf
    · exact .same not_false fun moved => absurd hf (by simp [moved.1])
    unfold Stream.claim
    cases hg : (π.streams stream).groups group with
    | none =>
      show Becomes π t i _ s g id ((π.setStream stream (π.streams stream)).pendingEntry s g id)
      rw [Plane.pendingEntry_of_groups rfl]
      by_cases h : s = stream ∧ g = group
      · obtain ⟨rfl, rfl⟩ := h
        have none : π.pendingEntry s g id = none := Stream.pending_eq_of_none hg
        rw [none]
        exact .gone
      · exact .same not_false fun moved => h ⟨moved.2.1.symm, moved.2.2.1.symm⟩
    | some x =>
      show Becomes π t i _ s g id ((π.setStream stream
        ((π.streams stream).setGroup group _)).pendingEntry s g id)
      rw [Plane.pendingEntry_setGroup]
      by_cases h : s = stream ∧ g = group
      · rw [if_pos h]
        obtain ⟨rfl, rfl⟩ := h
        have old : π.pendingEntry s g id = x.pending id := by
          simp [Plane.pendingEntry, Stream.group, hg]
        dsimp only
        by_cases hid : id ∈ ids
        · rw [if_neg (not_not.2 hid)]
          split_ifs
          · exact .gone
          · cases he : x.pending id with
            | none => exact .gone
            | some e => exact .moved rfl (by simpa using hf) hid (old.trans he)
        · rw [if_pos hid, ← old]
          exact .same not_false fun moved => hid moved.2.2.2
      · rw [if_neg h]
        exact .same not_false fun moved => h ⟨moved.2.1.symm, moved.2.2.1.symm⟩
  | xack stream group id' =>
    simp only [Plane.exec]
    split_ifs
    · exact kept not_false not_false rfl
    unfold Stream.ack
    cases hg : (π.streams stream).groups group with
    | none => exact kept not_false not_false (Plane.pendingEntry_of_groups rfl)
    | some x =>
      show Becomes π t i _ s g _ ((π.setStream stream
        ((π.streams stream).setGroup group _)).pendingEntry s g _)
      rw [Plane.pendingEntry_setGroup]
      by_cases h : s = stream ∧ g = group
      · rw [if_pos h]
        obtain ⟨rfl, rfl⟩ := h
        have old : ∀ j, π.pendingEntry s g j = x.pending j := by
          simp [Plane.pendingEntry, Stream.group, hg]
        by_cases hid : id = id'
        · subst hid
          simp only [Group.setPending, Function.update_self]
          exact .gone
        · simp only [Group.setPending, Function.update_of_ne hid]
          rw [← old]
          exact .same not_false not_false
      · rw [if_neg h]
        exact .same not_false not_false
  | xdel stream id' =>
    simp only [Plane.exec]
    split_ifs
    · exact kept not_false not_false rfl
    · exact kept not_false not_false (Plane.pendingEntry_of_groups rfl)
  | xpendingIdle | setRecover =>
    simp only [Plane.exec]
    split_ifs <;> exact kept not_false not_false rfl
  | _ => exact kept not_false not_false rfl

/-! ## What a command adds to the history -/

theorem mem_grantEvents {ids : List EntryId} :
    (∃ n, StreamEvent.granted s g id n ∈ π.grantEvents stream group ids) ↔
      stream = s ∧ group = g ∧ id ∈ ids := by
  simp only [Plane.grantEvents, List.mem_map, StreamEvent.granted.injEq]
  constructor
  · rintro ⟨n, id', hid, rfl, rfl, rfl, rfl⟩
    exact ⟨rfl, rfl, hid⟩
  · rintro ⟨rfl, rfl, hid⟩
    exact ⟨_, id, hid, rfl, rfl, rfl, rfl⟩

/-- A command only adds events of its own actor to the history. None of them is a return, and the
grants among them are those of the command. -/
theorem Plane.log_exec (π : Plane) (p : ℕ) (t : ℤ) (i : Input) (c : StreamCmd) :
    ∃ l : List StreamEvent, (π.exec p t i c).2.log = (l.map fun e => (p, e)) ++ π.log ∧
      (∀ s g es, .returned s g es ∉ l) ∧
      ∀ s g id, (∃ n, .granted s g id n ∈ l) ↔ GrantedBy π t i s g id c := by
  have none : ¬ (∃ s g id, GrantedBy π t i s g id c) →
      ∃ l : List StreamEvent, π.log = (l.map fun e => (p, e)) ++ π.log ∧
        (∀ s g es, .returned s g es ∉ l) ∧
        ∀ s g id, (∃ n, .granted s g id n ∈ l) ↔ GrantedBy π t i s g id c := fun h =>
    ⟨[], rfl, by simp, fun s g id => ⟨by simp, fun granted => absurd ⟨s, g, id, granted⟩ h⟩⟩
  have ungranted : ∀ {π' : Plane} {s g : String} {ids : List EntryId} (s' g' : String) es,
      .returned s' g' es ∉ grantEvents π' s g ids := by
    intro π' s g ids s' g' es h
    obtain ⟨id, -, he⟩ := List.mem_map.1 h
    cases he
  cases c with
  | xgroupCreate stream group =>
    refine ⟨[.ensured stream group], ?_, by simp, by simp [GrantedBy]⟩
    simp only [exec]
    split_ifs <;> rfl
  | xadd stream f maxlen => exact ⟨[.sent stream _ f], rfl, by simp, by simp [GrantedBy]⟩
  | xreadgroup stream group consumer count =>
    refine ⟨grantEvents _ stream group _, log_grant, ungranted, fun s g id => ?_⟩
    rw [mem_grantEvents, Stream.read_ids]
    unfold GrantedBy
    constructor
    · rintro ⟨rfl, rfl, hid⟩
      exact ⟨rfl, rfl, hid⟩
    · rintro ⟨rfl, rfl, hid⟩
      exact ⟨rfl, rfl, hid⟩
  | xpendingIdle stream group count idle =>
    simp only [exec]
    split_ifs
    · exact none (by simp [GrantedBy])
    · exact ⟨[.listed stream group _], rfl, by simp, by simp [GrantedBy]⟩
  | xautoclaim stream group consumer minIdle count =>
    simp only [exec]
    split_ifs with hf
    · exact none (by simp [GrantedBy, hf])
    · refine ⟨grantEvents _ stream group _, log_grant, ungranted, fun s g id => ?_⟩
      rw [mem_grantEvents, Stream.autoclaim_ids]
      unfold GrantedBy
      constructor
      · rintro ⟨rfl, rfl, hid⟩
        exact ⟨by simpa using hf, rfl, rfl, hid⟩
      · rintro ⟨-, rfl, rfl, hid⟩
        exact ⟨rfl, rfl, hid⟩
  | onDlq e attempts _ _ => exact ⟨[.deadLetter e attempts], rfl, by simp, by simp [GrantedBy]⟩
  | warnParked stream group id _ =>
    exact ⟨[.parked stream group id], rfl, by simp, by simp [GrantedBy]⟩
  | xclaim | xack | xdel | setRecover =>
    simp only [exec]
    split_ifs <;> exact none (by simp [GrantedBy])
  | _ => exact none (by simp [GrantedBy])

end NavigatorEventbus
