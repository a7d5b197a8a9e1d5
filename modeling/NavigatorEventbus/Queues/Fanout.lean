import NavigatorEventbus.Queues.Footprint

/-!
# Fan-out across groups

Every group of a queue receives every entry: an entry in the stream is beyond the last one delivered
to the group, or was granted to it.  A call in one group leaves the other groups as they are, and no
entry leaves the stream of a queue with several groups.  Runs start from streams that may hold any
entries, also ones that cannot be decoded.
-/

namespace NavigatorEventbus

open Interleave

/-! ## Reading in order -/

section Take

theorem le_of_mem_take {l : List EntryId} (sorted : l.Pairwise (· < ·)) {n : ℕ} {id a : EntryId}
    (hid : id ∈ l) (ha : a ∈ l.take n) (hle : id ≤ a) : id ∈ l.take n := by
  rw [← List.take_append_drop n l, List.pairwise_append] at sorted
  rw [← List.take_append_drop n l] at hid
  rcases List.mem_append.1 hid with hid | hid
  · exact hid
  · exact absurd hle (Nat.not_le.2 (sorted.2.2 a ha id hid))

end Take

theorem Plane.mem_log_grant {π : Plane} {p : ℕ} {stream group : String} {ids : List EntryId}
    {id : EntryId} (hid : id ∈ ids) :
    (p, .granted stream group id (π.counter stream group id)) ∈ (π.grant p stream group ids).log := by
  rw [Plane.log_grant]
  apply List.mem_append_left
  exact List.mem_map_of_mem (List.mem_map_of_mem hid)

/-- Entries have ids up to the last one, and each is beyond what a group was delivered or was granted
to it. -/
structure Plane.Covered (π : Plane) : Prop where
  bounded : ∀ s id, ((π.streams s).entries id).isSome → 0 < id ∧ id ≤ (π.streams s).lastId
  delivered : ∀ s g, ((π.streams s).group g).lastDelivered ≤ (π.streams s).lastId
  granted : ∀ s g id, ((π.streams s).entries id).isSome →
    ((π.streams s).group g).lastDelivered < id ∨ ∃ q n, (q, .granted s g id n) ∈ π.log

namespace Plane.Covered

variable {π π' : Plane}

/-- A command that adds no entry and delivers none. -/
theorem quiet (h : π.Covered)
    (entries : ∀ s id, ((π'.streams s).entries id).isSome → ((π.streams s).entries id).isSome)
    (last : ∀ s, (π'.streams s).lastId = (π.streams s).lastId)
    (delivered : ∀ s g, ((π'.streams s).group g).lastDelivered = ((π.streams s).group g).lastDelivered)
    (log : ∀ x ∈ π.log, x ∈ π'.log) : π'.Covered := by
  refine ⟨fun s id he => ?_, fun s g => ?_, fun s g id he => ?_⟩
  · rw [last]
    exact h.bounded s id (entries s id he)
  · rw [last, delivered]
    exact h.delivered s g
  · rw [delivered]
    rcases h.granted s g id (entries s id he) with hlt | ⟨q, n, hq⟩
    · exact .inl hlt
    · exact .inr ⟨q, n, log _ hq⟩

/-- A command on one stream that adds no entry and delivers none. -/
theorem setStream (h : π.Covered) {stream : String} {s' : Stream}
    (last : s'.lastId = (π.streams stream).lastId)
    (entries : ∀ id, (s'.entries id).isSome → ((π.streams stream).entries id).isSome)
    (delivered : ∀ g, (s'.group g).lastDelivered = ((π.streams stream).group g).lastDelivered) :
    (π.setStream stream s').Covered := by
  refine h.quiet (fun s id he => ?_) (fun s => ?_) (fun s g => ?_) fun _ hx => hx
  all_goals by_cases hs : s = stream
  · subst hs
    rw [Plane.streams_setStream_self] at he
    exact entries id he
  · rwa [Plane.streams_setStream_of_ne hs] at he
  · subst hs
    rw [Plane.streams_setStream_self, last]
  · rw [Plane.streams_setStream_of_ne hs]
  · subst hs
    rw [Plane.streams_setStream_self, delivered]
  · rw [Plane.streams_setStream_of_ne hs]

/-- A command that only changes the pending entries of one group. -/
theorem setGroup (h : π.Covered) {stream group : String} {g : Group}
    (delivered : g.lastDelivered = ((π.streams stream).group group).lastDelivered) :
    (π.setStream stream ((π.streams stream).setGroup group g)).Covered := by
  refine h.setStream rfl (fun _ he => he) fun g' => ?_
  by_cases hg : g' = group
  · subst hg
    rw [Stream.group_setGroup_self, delivered]
  · rw [Stream.group_setGroup_of_ne hg]

theorem of_eq (h : π.Covered) (streams : π'.streams = π.streams) (log : ∀ x ∈ π.log, x ∈ π'.log) :
    π'.Covered := by
  refine h.quiet ?_ ?_ ?_ log <;> intros <;> simp_all

theorem xadd (h : π.Covered) {stream : String} (f : Fields) (maxlen : ℕ) :
    (π.setStream stream ((π.streams stream).add f maxlen 0)).Covered := by
  have entries : ∀ id, ((((π.streams stream).add f maxlen 0).entries id).isSome →
      id = (π.streams stream).lastId + 1 ∨ ((π.streams stream).entries id).isSome) := by
    intro id he
    by_cases hid : id = (π.streams stream).lastId + 1
    · exact .inl hid
    · refine .inr ?_
      simp only [Stream.add] at he
      split_ifs at he
      · by_cases h0 : id ≤ 0
        · simp [h0] at he
        · simpa [h0, hid] using he
      · simpa [hid] using he
  have last : ((π.streams stream).add f maxlen 0).lastId = (π.streams stream).lastId + 1 := by
    simp only [Stream.add]
    split_ifs <;> rfl
  have group : ∀ g, ((π.streams stream).add f maxlen 0).group g = (π.streams stream).group g := by
    intro g
    simp only [Stream.add]
    split_ifs <;> rfl
  refine ⟨fun s id he => ?_, fun s g => ?_, fun s g id he => ?_⟩
  all_goals by_cases hs : s = stream
  · subst hs
    rw [Plane.streams_setStream_self] at he ⊢
    rw [last]
    rcases entries id he with rfl | he
    · exact ⟨Nat.succ_pos _, Nat.le_refl _⟩
    · obtain ⟨pos, le⟩ := h.bounded s id he
      exact ⟨pos, Nat.le_succ_of_le le⟩
  · rw [Plane.streams_setStream_of_ne hs] at he ⊢
    exact h.bounded s id he
  · subst hs
    rw [Plane.streams_setStream_self, last, group]
    exact Nat.le_succ_of_le (h.delivered s g)
  · rw [Plane.streams_setStream_of_ne hs]
    exact h.delivered s g
  · subst hs
    rw [Plane.streams_setStream_self] at he ⊢
    rw [group]
    rcases entries id he with rfl | he
    · exact .inl (Nat.lt_succ_of_le (h.delivered s g))
    · exact h.granted s g id he
  · rw [Plane.streams_setStream_of_ne hs] at he ⊢
    exact h.granted s g id he

theorem xreadgroup (h : π.Covered) {p count : ℕ} {t : ℤ} {stream group consumer : String} :
    ((π.setStream stream ((π.streams stream).read group consumer count t).2).grant p stream group
      ((π.streams stream).readIds group count)).Covered := by
  have entries : ((π.streams stream).read group consumer count t).2.entries =
      (π.streams stream).entries := by
    rw [Stream.read_snd]
    rfl
  have last : ((π.streams stream).read group consumer count t).2.lastId =
      (π.streams stream).lastId := by
    rw [Stream.read_snd]
    rfl
  have older : ∀ x ∈ π.log, x ∈ ((π.setStream stream
      ((π.streams stream).read group consumer count t).2).grant p stream group
      ((π.streams stream).readIds group count)).log := by
    intro x hx
    rw [Plane.log_grant]
    exact List.mem_append_right _ hx
  refine ⟨fun s id he => ?_, fun s g => ?_, fun s g id he => ?_⟩
  all_goals rw [Plane.streams_grant] at *
  all_goals by_cases hs : s = stream
  · subst hs
    rw [Plane.streams_setStream_self] at he ⊢
    rw [entries] at he
    rw [last]
    exact h.bounded s id he
  · rw [Plane.streams_setStream_of_ne hs] at he ⊢
    exact h.bounded s id he
  · subst hs
    rw [Plane.streams_setStream_self, last]
    by_cases hg : g = group
    · subst hg
      rw [Stream.read_snd, Stream.group_setGroup_self]
      change Option.getD _ _ ≤ _
      cases ha : ((π.streams s).readIds g count).getLast? with
      | none => exact h.delivered s g
      | some a =>
        exact (h.bounded s a (Stream.mem_readIds (List.mem_of_getLast? ha)).2).2
    · rw [Stream.read_snd, Stream.group_setGroup_of_ne hg]
      exact h.delivered s g
  · rw [Plane.streams_setStream_of_ne hs]
    exact h.delivered s g
  · subst hs
    rw [Plane.streams_setStream_self] at he ⊢
    rw [entries] at he
    by_cases hg : g = group
    · subst hg
      rw [Stream.read_snd, Stream.group_setGroup_self]
      change Option.getD _ _ < _ ∨ _
      rcases h.granted s g id he with hlt | ⟨q, n, hq⟩
      · cases ha : ((π.streams s).readIds g count).getLast? with
        | none => exact .inl hlt
        | some a =>
          rcases Nat.lt_or_ge a id with ha' | ha'
          · exact .inl ha'
          · -- what lies up to the last entry read was read
            have listed : id ∈ (π.streams s).readIds g count := by
              refine le_of_mem_take (Stream.ids_sorted.sublist List.filter_sublist) ?_
                (List.mem_of_getLast? ha) ha'
              exact Stream.mem_after.2 ⟨Stream.mem_ids.2 (h.bounded s id he), hlt, he⟩
            exact .inr ⟨p, _, Plane.mem_log_grant listed⟩
      · exact .inr ⟨q, n, older _ hq⟩
    · rw [Stream.read_snd, Stream.group_setGroup_of_ne hg]
      rcases h.granted s g id he with hlt | ⟨q, n, hq⟩
      · exact .inl hlt
      · exact .inr ⟨q, n, older _ hq⟩
  · rw [Plane.streams_setStream_of_ne hs] at he ⊢
    rcases h.granted s g id he with hlt | ⟨q, n, hq⟩
    · exact .inl hlt
    · exact .inr ⟨q, n, older _ hq⟩

/-- Every command keeps the streams covered, when none is trimmed. -/
theorem exec (h : π.Covered) {p : ℕ} {t : ℤ} {i : Input} (trim : i.trim = 0) (c : StreamCmd) :
    (π.exec p t i c).2.Covered := by
  cases c with
  | xgroupCreate stream group =>
    have created : (if ((π.streams stream).groups group).isSome then π
        else π.setStream stream ((π.streams stream).setGroup group {})).Covered := by
      split_ifs with hg
      · exact h
      refine h.setGroup ?_
      simp only [Bool.not_eq_true, Option.isSome_eq_false_iff, Option.isNone_iff_eq_none] at hg
      simp [Stream.group, hg]
    exact created.of_eq rfl fun _ hx => List.mem_cons_of_mem _ hx
  | xadd stream f maxlen =>
    show Plane.Covered { π.setStream stream ((π.streams stream).add f maxlen i.trim) with log := _ }
    rw [trim]
    exact (h.xadd f maxlen).of_eq rfl fun _ hx => List.mem_cons_of_mem _ hx
  | xreadgroup stream group consumer count =>
    simp only [Plane.exec, Stream.read_ids]
    exact h.xreadgroup
  | xpendingIdle stream group count idle =>
    simp only [Plane.exec]
    split_ifs
    · exact h
    · exact h.of_eq rfl fun _ hx => List.mem_cons_of_mem _ hx
  | xautoclaim stream group consumer minIdle count =>
    simp only [Plane.exec, Stream.autoclaim_snd]
    split_ifs
    · exact h
    · refine Plane.Covered.of_eq (h.setGroup ?_) rfl fun x hx => ?_
      · rfl
      · show x ∈ (Plane.grant _ p stream group _).log
        rw [Plane.log_grant]
        exact List.mem_append_right _ hx
  | xclaim stream group consumer ids idle =>
    simp only [Plane.exec, Stream.claim]
    split_ifs
    · exact h
    · cases hg : (π.streams stream).groups group with
      | none => exact h.setStream rfl (fun _ he => he) fun _ => rfl
      | some g =>
        refine h.setGroup ?_
        simp [Stream.group, hg]
  | xack stream group id =>
    simp only [Plane.exec, Stream.ack]
    split_ifs
    · exact h
    · cases hg : (π.streams stream).groups group with
      | none => exact h.setStream rfl (fun _ he => he) fun _ => rfl
      | some g =>
        refine h.setGroup ?_
        simp [Stream.group, hg, Group.setPending]
  | xdel stream id =>
    simp only [Plane.exec]
    split_ifs
    · exact h
    · refine h.setStream rfl (fun id' he => ?_) fun _ => rfl
      by_cases hid : id' = id
      · simp [Stream.delete, hid] at he
      · simpa [Stream.delete, hid] using he
  | onDlq | warnParked => exact h.of_eq rfl fun _ hx => List.mem_cons_of_mem _ hx
  | setRecover =>
    simp only [Plane.exec]
    split_ifs
    · exact h
    · exact h.of_eq rfl fun _ hx => hx
  | zaddSig | zremSig | zremrangebyscoreSig | setPaused | deletePaused =>
    exact h.of_eq rfl fun _ hx => hx
  | _ => exact h

end Plane.Covered

/-! ## Isolation -/

/-- A command on one stream that touches no other group's pending entries than those of `group`. -/
def StreamCmd.OnGroup (stream group : String) : StreamCmd → Prop
  | xgroupCreate s g | xreadgroup s g _ _ | xautoclaim s g _ _ _ | xclaim s g _ _ _ | xack s g _ =>
    s = stream ∧ g = group
  | xadd s _ _ | xdel s _ => s = stream
  | xpendingIdle _ _ _ _ | xpendingEntry _ _ _ | onDlq _ _ _ _ | warnParked _ _ _ _ => True
  | _ => False

/-- The stream and the group that a call is about; a send is about no group. -/
def PullCall.target (cfg : QueueConfig) : PullCall → Option (String × String)
  | .send _ _ => none
  | .receive store group _ _ => some (store.streamFor cfg.name, group)
  | .delete receipt => some (receipt.stream, receipt.group)
  | .changeVisibility receipt _ => some (receipt.stream, receipt.group)

namespace Pull

variable {cfg : QueueConfig}

/-- Nobody has called yet, and the server holds what it holds. -/
def startAt (cfg : QueueConfig) (σ : Server) : Pool (pull cfg) := ⟨σ, fun _ => .resting ()⟩

/-- Streams without a consumer group and without a history. -/
structure Fresh (σ : Server) : Prop where
  bounded : ∀ s id, ((σ.plane.streams s).entries id).isSome →
    0 < id ∧ id ≤ (σ.plane.streams s).lastId
  groups : ∀ s g, (σ.plane.streams s).groups g = none
  log : σ.plane.log = []

/-- No command trims a stream. -/
def Untrimmed (_p : ℕ) (_o : PullCall) (_c : Cmd) (i : Input) (_σ : Server) : Prop := i.trim = 0

instance (p : ℕ) (o : PullCall) (c : Cmd) (i : Input) (σ : Server) :
    Decidable (Untrimmed p o c i σ) :=
  inferInstanceAs (Decidable (i.trim = 0))

theorem Fresh.coherent {σ : Server} (h : Fresh σ) : σ.plane.Coherent where
  counted s g id e he := by simp [Stream.group, h.groups] at he
  delivered s g id e he := by simp [Stream.group, h.groups] at he
  fresh s g id _ := by rw [h.log]; rfl
  numbered l₁ p s g id n l₂ hl := by simp [h.log] at hl

theorem Fresh.covered {σ : Server} (h : Fresh σ) : σ.plane.Covered where
  bounded := h.bounded
  delivered s g := by simp [Stream.group, h.groups]
  granted s g id he := .inl (by simpa [Stream.group, h.groups] using (h.bounded s id he).1)

/-- A command on one group leaves the other groups as they are. -/
theorem groups_command {c : StreamCmd} {stream group : String} (about : c.OnGroup stream group)
    {p : ℕ} {t : ℤ} {i : Input} {π : Plane} {s g : String} (other : ¬ (s = stream ∧ g = group)) :
    ((π.exec p t i c).2.streams s).groups g = (π.streams s).groups g := by
  have kept : ∀ {s' : Stream}, (∀ g', g' ≠ group → s'.groups g' = (π.streams stream).groups g') →
      ((π.setStream stream s').streams s).groups g = (π.streams s).groups g := by
    intro s' hs'
    by_cases hs : s = stream
    · subst hs
      rw [Plane.streams_setStream_self]
      exact hs' g fun hg => other ⟨rfl, hg⟩
    · rw [Plane.streams_setStream_of_ne hs]
  have within : ∀ {x : Group},
      ((π.setStream stream ((π.streams stream).setGroup group x)).streams s).groups g =
        (π.streams s).groups g := fun {x} => kept fun g' hg' => by simp [Stream.setGroup, hg']
  cases c with
  | xgroupCreate =>
    obtain ⟨rfl, rfl⟩ := about
    simp only [Plane.exec]
    split_ifs
    · rfl
    · exact within
  | xreadgroup =>
    obtain ⟨rfl, rfl⟩ := about
    exact within
  | xautoclaim =>
    obtain ⟨rfl, rfl⟩ := about
    simp only [Plane.exec]
    split_ifs
    · rfl
    · exact within
  | xclaim stream' group' consumer ids idle =>
    obtain ⟨rfl, rfl⟩ := about
    simp only [Plane.exec]
    split_ifs
    · rfl
    · unfold Stream.claim
      split
      · exact kept fun _ _ => rfl
      · exact within
  | xack stream' group' id =>
    obtain ⟨rfl, rfl⟩ := about
    simp only [Plane.exec]
    split_ifs
    · rfl
    · unfold Stream.ack
      split
      · exact kept fun _ _ => rfl
      · exact within
  | xpendingIdle =>
    simp only [Plane.exec]
    split_ifs <;> rfl
  | xdel stream' id =>
    cases about
    simp only [Plane.exec]
    split_ifs
    · rfl
    · exact kept fun _ _ => rfl
  | xadd stream' f maxlen =>
    cases about
    refine kept fun g' _ => ?_
    simp only [Stream.add]
    split_ifs <;> rfl
  | xpendingEntry | onDlq | warnParked => rfl
  | _ => cases about

/-- The commands of a call with a target are about this target, or read the clock. -/
theorem onGroup_of_issues {o : PullCall} {c : Cmd} (issued : o.Issues cfg c) {stream group : String}
    (about : o.target cfg = some (stream, group)) :
    c = .now ∨ ∃ c', c = .stream c' ∧ c'.OnGroup stream group := by
  cases o with
  | send => cases about
  | receive store group' maxMessages visibilityMs =>
    cases about
    cases c with
    | now => exact .inl rfl
    | keyed => cases issued
    | stream c =>
      refine .inr ⟨c, rfl, ?_⟩
      cases c with
      | xautoclaim => exact ⟨issued.1, issued.2.1⟩
      | xclaim => exact ⟨issued.1, issued.2.1⟩
      | xgroupCreate | xreadgroup | xack => exact issued
      | xpendingIdle | onDlq | warnParked => trivial
      | _ => cases issued
  | delete receipt =>
    cases about
    rcases issued with rfl | rfl | ⟨-, rfl⟩
    · exact .inr ⟨_, rfl, trivial⟩
    · exact .inr ⟨_, rfl, rfl, rfl⟩
    · exact .inr ⟨_, rfl, rfl⟩
  | changeVisibility receipt visibilityMs =>
    cases about
    cases issued
    exact .inr ⟨_, rfl, rfl, rfl⟩

/-- An entry stays in its stream, unless it is deleted. -/
theorem entries_exec {π : Plane} (covered : π.Covered) {c : StreamCmd} (kept : ∀ s id, c ≠ .xdel s id)
    {p : ℕ} {t : ℤ} {i : Input} (trim : i.trim = 0) {s : String} {id : EntryId} {f : Fields}
    (h : (π.streams s).entries id = some f) :
    ((π.exec p t i c).2.streams s).entries id = some f := by
  have setStream : ∀ {stream : String} {s' : Stream}, (stream = s → s'.entries id = some f) →
      ((π.setStream stream s').streams s).entries id = some f := by
    intro stream s' hs'
    by_cases hs : s = stream
    · subst hs
      rw [Plane.streams_setStream_self]
      exact hs' rfl
    · rwa [Plane.streams_setStream_of_ne hs]
  cases c with
  | xgroupCreate =>
    simp only [Plane.exec]
    split_ifs
    · exact h
    · exact setStream fun hs => by subst hs; exact h
  | xadd stream f' maxlen =>
    refine setStream fun hs => ?_
    subst hs
    have old : id ≠ (π.streams stream).lastId + 1 := by
      have := (covered.bounded stream id (by simp [h])).2
      exact Nat.ne_of_lt (Nat.lt_succ_of_le this)
    have pos : ¬ id ≤ 0 := Nat.not_le.2 (covered.bounded stream id (by simp [h])).1
    simp only [Stream.add, trim]
    split_ifs <;> simp [old, pos, h]
  | xreadgroup => exact setStream fun hs => by subst hs; exact h
  | xautoclaim =>
    simp only [Plane.exec]
    split_ifs
    · exact h
    · exact setStream fun hs => by subst hs; exact h
  | xclaim stream group =>
    simp only [Plane.exec]
    split_ifs
    · exact h
    · refine setStream fun hs => ?_
      subst hs
      unfold Stream.claim
      split <;> exact h
  | xack stream group =>
    simp only [Plane.exec]
    split_ifs
    · exact h
    · refine setStream fun hs => ?_
      subst hs
      unfold Stream.ack
      split <;> exact h
  | xdel stream id => exact absurd rfl (kept stream id)
  | xpendingIdle | setRecover =>
    simp only [Plane.exec]
    split_ifs <;> exact h
  | _ => exact h

/-- The entry that a send adds. -/
theorem entries_xadd {π : Plane} {p : ℕ} {t : ℤ} {i : Input} (trim : i.trim = 0) {stream : String}
    {f : Fields} {maxlen : ℕ} :
    ((π.exec p t i (.xadd stream f maxlen)).2.streams stream).entries
      ((π.streams stream).lastId + 1) = some f := by
  show ((π.setStream stream _).streams stream).entries _ = _
  rw [Plane.streams_setStream_self]
  simp only [Stream.add, trim]
  split_ifs <;> simp

/-- Only a send records that an entry was sent. -/
theorem sent_exec {π : Plane} {c : StreamCmd} {p q : ℕ} {t : ℤ} {i : Input} {s : String} {id : EntryId}
    {f : Fields} (h : (q, .sent s id f) ∈ (π.exec p t i c).2.log) :
    (q, .sent s id f) ∈ π.log ∨ ∃ maxlen, c = .xadd s f maxlen ∧ id = (π.streams s).lastId + 1 := by
  have granted : ∀ (π' : Plane) {stream group : String} {ids : List EntryId},
      (q, .sent s id f) ∈ (π'.grant p stream group ids).log → (q, .sent s id f) ∈ π'.log := by
    intro π' stream group ids hq
    rw [Plane.log_grant] at hq
    rcases List.mem_append.1 hq with hq | hq
    · obtain ⟨e, he, eq⟩ := List.mem_map.1 hq
      obtain ⟨id', -, rfl⟩ := List.mem_map.1 he
      cases eq
    · exact hq
  have other : ∀ {π' : Plane} {e : StreamEvent}, (q, StreamEvent.sent s id f) ∈ (p, e) :: π'.log →
      e ≠ .sent s id f → (q, .sent s id f) ∈ π'.log := by
    intro π' e hq he
    rcases List.mem_cons.1 hq with hq | hq
    · exact absurd (Prod.mk.inj hq).2.symm he
    · exact hq
  cases c with
  | xgroupCreate stream group =>
    refine .inl ?_
    have hq := other h fun same => by cases same
    split_ifs at hq <;> exact hq
  | xadd stream f' maxlen =>
    rcases List.mem_cons.1 h with hq | hq
    · cases hq
      exact .inr ⟨maxlen, rfl, rfl⟩
    · exact .inl hq
  | xreadgroup => exact .inl (granted (π.setStream _ _) h)
  | xpendingIdle =>
    refine .inl ?_
    simp only [Plane.exec] at h
    split_ifs at h
    · exact h
    · exact other h fun same => by cases same
  | xautoclaim =>
    refine .inl ?_
    simp only [Plane.exec] at h
    split_ifs at h
    · exact h
    · exact granted (π.setStream _ _) h
  | xclaim | xack | xdel | setRecover =>
    refine .inl ?_
    simp only [Plane.exec] at h
    split_ifs at h <;> exact h
  | onDlq | warnParked => exact .inl (other h fun same => by cases same)
  | _ => exact .inl h

/-- What was in the streams at the start is still there, and so is what was sent. -/
structure Whole (σ₀ σ : Server) : Prop where
  kept : ∀ s id f, (σ₀.plane.streams s).entries id = some f → (σ.plane.streams s).entries id = some f
  sent : ∀ q s id f, (q, .sent s id f) ∈ σ.plane.log → (σ.plane.streams s).entries id = some f

theorem Whole.exec {σ₀ σ : Server} (h : Whole σ₀ σ) (covered : σ.plane.Covered) {p : ℕ} {c : Cmd}
    {i : Input} (kept : ∀ s id, c ≠ .stream (.xdel s id)) (trim : i.trim = 0) :
    Whole σ₀ (σ.exec p c i).2 := by
  cases c with
  | now | keyed => exact ⟨h.kept, h.sent⟩
  | stream c =>
    have kept : ∀ s id, c ≠ .xdel s id := fun s id e => kept s id (e ▸ rfl)
    refine ⟨fun s id f hf => entries_exec covered kept trim (h.kept s id f hf), fun q s id f hq => ?_⟩
    rcases sent_exec hq with hq | ⟨maxlen, rfl, rfl⟩
    · exact entries_exec covered kept trim (h.sent q s id f hq)
    · exact entries_xadd (t := σ.now) trim

theorem Whole.of_note {σ₀ σ : Server} (h : Whole σ₀ σ) {p : ℕ} {o : PullCall} {r : PullResult} :
    Whole σ₀ ((pull cfg).note p o r σ) := by
  cases o with
  | receive =>
    cases r with
    | received ds =>
      refine ⟨h.kept, fun q s id f hq => ?_⟩
      rcases List.mem_cons.1 hq with hq | hq
      · cases hq
      · exact h.sent q s id f hq
    | _ => exact h
  | _ => exact h

theorem Whole.of_disturb {σ₀ σ : Server} (h : Whole σ₀ σ) (d : Disturbance) :
    Whole σ₀ (σ.disturb d) := by
  cases d <;> exact ⟨h.kept, h.sent⟩

theorem Fresh.whole {σ₀ : Server} (h : Fresh σ₀) : Whole σ₀ σ₀ :=
  ⟨fun _ _ _ hf => hf, fun q s id f hq => by simp [h.log] at hq⟩

theorem covered_exec {σ : Server} (h : σ.plane.Covered) {p : ℕ} {c : Cmd} {i : Input}
    (trim : i.trim = 0) : (σ.exec p c i).2.plane.Covered := by
  cases c with
  | now | keyed => exact h
  | stream c => exact h.exec trim c

theorem covered_note {σ : Server} (h : σ.plane.Covered) {p : ℕ} {o : PullCall} {r : PullResult} :
    ((pull cfg).note p o r σ).plane.Covered := by
  cases o with
  | receive =>
    cases r with
    | received ds => exact h.of_eq rfl fun _ hx => List.mem_cons_of_mem _ hx
    | _ => exact h
  | _ => exact h

theorem covered_disturb {σ : Server} (h : σ.plane.Covered) (d : Disturbance) :
    (σ.disturb d).plane.Covered := by
  cases d <;> exact h.of_eq rfl fun _ hx => hx

/-! ## Isolated groups -/

/-- Every entry in a stream is beyond what a group was delivered, or was granted to the group. With
several groups no entry ever leaves its stream; a call in one group leaves the other groups as they
are; and two reads of new entries in a group deliver different entries. -/
structure FanOut (cfg : QueueConfig) (σ₀ : Server) (P : Pool (pull cfg)) : Prop where
  received : ∀ s g id, ((P.shared.plane.streams s).entries id).isSome →
    ((P.shared.plane.streams s).group g).lastDelivered < id ∨
      ∃ q n, (q, .granted s g id n) ∈ P.shared.plane.log
  whole : 1 < cfg.groups.length → Whole σ₀ P.shared
  isolated : ∀ {p o c k i P'}, P.actors p = .calling o (.op c k) → P.act (.exec p i) = some P' →
    ∀ {stream group s g}, o.target cfg = some (stream, group) → ¬ (s = stream ∧ g = group) →
      (P'.shared.plane.streams s).groups g = (P.shared.plane.streams s).groups g
  disjoint : ∀ {p o s g consumer count k i P₁ P₂ q o' consumer' count' k' i'},
    P.actors p = .calling o (.op (.stream (.xreadgroup s g consumer count)) k) →
    P.act (.exec p i) = some P₁ → Pool.Reach (fun _ _ => True) P₁ P₂ →
    P₂.actors q = .calling o' (.op (.stream (.xreadgroup s g consumer' count')) k') →
    ∀ e ∈ (P.shared.exec p (.stream (.xreadgroup s g consumer count)) i).1,
    ∀ e' ∈ (P₂.shared.exec q (.stream (.xreadgroup s g consumer' count')) i').1, e.1 ≠ e'.1

/-- The entries that a read delivers were delivered to nobody before, and are now. -/
theorem read_fresh {σ : Server} (h : σ.plane.Coherent) {p : ℕ} {i : Input} {s g consumer : String}
    {count : ℕ} {e : EntryId × Fields}
    (he : e ∈ (σ.exec p (.stream (.xreadgroup s g consumer count)) i).1) :
    deliveries s g e.1 σ.plane.log = 0 ∧
      deliveries s g e.1 (σ.exec p (.stream (.xreadgroup s g consumer count)) i).2.plane.log = 1 := by
  have listed : e.1 ∈ (σ.plane.streams s).readIds g count := by
    have ids : ((σ.plane.streams s).read g consumer count σ.now).1.map Prod.fst =
        (σ.plane.streams s).readIds g count := Stream.read_ids
    exact ids ▸ List.mem_map_of_mem he
  have fresh : deliveries s g e.1 σ.plane.log = 0 := h.fresh _ _ _ (Stream.mem_readIds listed).1
  refine ⟨fresh, ?_⟩
  show deliveries s g e.1 (Plane.grant _ p s g _).log = 1
  have nodup : ((σ.plane.streams s).readIds g count).Nodup :=
    Stream.readIds_sorted.imp fun h => Nat.ne_of_lt h
  rw [Stream.read_ids, Plane.deliveries_grant nodup, Plane.log_setStream, fresh]
  simp [listed]

theorem undeleted (many : 1 < cfg.groups.length) {o : PullCall} {c : Cmd} (issued : o.Issues cfg c)
    (s : String) (id : EntryId) : c ≠ .stream (.xdel s id) := by
  rintro rfl
  cases o with
  | send => cases issued
  | receive => exact issued
  | delete receipt =>
    rcases issued with h | h | ⟨hdel, -⟩
    · cases h
    · cases h
    · exact absurd (cfg.delete_single hdel) (Nat.not_le.2 many)
  | changeVisibility => cases issued

/-- Groups are isolated in every run that trims no stream. -/
theorem fan_out_isolated {σ₀ : Server} (fresh : Fresh σ₀) {P : Pool (pull cfg)}
    (hr : Pool.Reach (Pool.Meets Untrimmed) (startAt cfg σ₀) P) : FanOut cfg σ₀ P := by
  have coherent : P.shared.plane.Coherent := (coherent_run hr fresh.coherent).1
  have covered : P.shared.plane.Covered := by
    let J (σ : Server) : Prop := σ.plane.Covered
    show J P.shared
    refine hr.invariant issues ?_ ?_ ?_ (start_calls σ₀) fresh.covered
    · exact fun _ trim h => covered_exec h trim
    · exact fun h => covered_note h
    · exact fun d h => covered_disturb h d
  have whole : 1 < cfg.groups.length → Whole σ₀ P.shared := by
    intro many
    let J (σ : Server) : Prop := σ.plane.Covered ∧ Whole σ₀ σ
    have both : J P.shared := by
      refine hr.invariant issues ?_ ?_ ?_ (start_calls σ₀) ⟨fresh.covered, fresh.whole⟩
      · exact fun issued trim h =>
          ⟨covered_exec h.1 trim, h.2.exec h.1 (undeleted many issued) trim⟩
      · exact fun h => ⟨covered_note h.1, h.2.of_note⟩
      · exact fun d h => ⟨covered_disturb h.1 d, h.2.of_disturb d⟩
    exact both.2
  refine ⟨covered.granted, whole, ?_, ?_⟩
  · intro p o c k i P' hp hs stream group s g about other
    have issued : o.Issues cfg c := (hr.calls issues (start_calls σ₀) p o _ hp).1
    simp only [Pool.act, hp, Option.some.injEq] at hs
    subst hs
    rcases onGroup_of_issues issued about with rfl | ⟨c, rfl, onGroup⟩
    · rfl
    · exact groups_command onGroup other
  · intro p o s g consumer count k i P₁ P₂ q o' consumer' count' k' i' hp hs hr₂ hq e he e' he' eq
    simp only [Pool.act, hp, Option.some.injEq] at hs
    subst hs
    have first := read_fresh coherent he
    obtain ⟨coherent₂, le⟩ := coherent_run hr₂ (coherent.exec p _ i _)
    have second := read_fresh coherent₂ he'
    have none : deliveries s g e.1 P₂.shared.plane.log = 0 := by
      rw [eq]
      exact second.1
    have grown : 1 ≤ deliveries s g e.1 P₂.shared.plane.log := first.2 ▸ le s g e.1
    omega

/-- A queue with two groups. -/
def twoGroups : QueueConfig where
  name := "orders"
  groups := [{ name := "billing" }, { name := "shipping" }]
  defaultVisibilityTimeoutMs := 10
  maxVisibilityTimeoutMs := 10
  groups_ne := by decide
  groups_nodup := by decide
  default_nonneg := QueueConfig.brief.default_nonneg
  max_pos := QueueConfig.brief.max_pos
  maxReceives_pos := QueueConfig.brief.maxReceives_pos
  maxlen_pos := QueueConfig.brief.maxlen_pos
  default_le_max := QueueConfig.brief.default_le_max
  delete_single := by decide

/-- A message is sent, received in both groups and deleted in one. -/
def deletedInOne : List (Act (pull twoGroups)) :=
  [.call 0 (.send { consumer := "http" } { topic := "order", payload := [] }), .exec 0 {}, .ret 0] ++
    (.call 0 (.receive { consumer := "http" } "billing" 1 none) :: List.replicate 5 (.exec 0 {})) ++
    (.call 1 (.receive { consumer := "http" } "shipping" 1 none) :: List.replicate 5 (.exec 1 {})) ++
    [.ret 0, .call 0 (.delete ⟨"orders", "billing", "evb:queue:orders", 1, "http", 1, 10⟩),
      .exec 0 {}, .exec 0 {}]

theorem fan_out_isolated_witness : ∃ P : Pool (pull twoGroups),
    (((P.shared.plane.streams "evb:queue:orders").group "shipping").pending 1).isSome ∧
      (((P.shared.plane.streams "evb:queue:orders").group "billing").pending 1).isNone ∧
        FanOut twoGroups {} P := by
  have run : ∃ P ∈ (startAt twoGroups {}).runIf Untrimmed deletedInOne,
      (((P.shared.plane.streams "evb:queue:orders").group "shipping").pending 1).isSome ∧
        (((P.shared.plane.streams "evb:queue:orders").group "billing").pending 1).isNone := by
    decide +kernel
  obtain ⟨P, hP, kept, acked⟩ := run
  have fresh : Fresh {} := by
    refine ⟨fun s id h => ?_, fun _ _ => rfl, rfl⟩
    cases h
  exact ⟨P, kept, acked, fan_out_isolated fresh (.of_runIf hP)⟩

end Pull

end NavigatorEventbus
