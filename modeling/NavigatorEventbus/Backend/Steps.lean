import NavigatorEventbus.Backend.Loops
import NavigatorEventbus.Lib.Triples

/-!
# What a command of the streams backend does

A command only adds events of its own task to the history (`log_exec`), and as long as no data is lost the
consumer groups only advance: what was delivered stays delivered, and the counter of a pending entry does not
go down (`advances_exec`).
-/

namespace NavigatorEventbus.Bus.Streams

open Interleave

namespace State

variable {σ σ' : State} {p q n : ℕ} {i : Input} {c : Cmd} {e : Event} {stream : String}

/-! ## The history -/

@[simp] theorem log_setStream {s : Stream Fields} : (σ.setStream stream s).log = σ.log := rfl

@[simp] theorem log_setInstance {x : Instance} : (σ.setInstance n x).log = σ.log := rfl

@[simp] theorem log_record : (σ.record p e).log = (p, e) :: σ.log := rfl

theorem log_recordAll {events : List Event} :
    (σ.recordAll p events).log = (events.reverse.map fun e => (p, e)) ++ σ.log := by
  simp [recordAll]

end State

/-- The command may record the event. -/
def Cmd.Records : Cmd → Event → Prop
  | .ready n stream reading, e => e = .ensured n stream reading
  | .readerFailed n, e => ∃ known, e = .failed n known
  | .discover n stream, e => e = .discovered n stream
  | .advance n stream id _, e | .hand n stream id, e => e = .handed n stream id
  | .park n stream id, e => e = .parked n stream id
  | .swept n stream, e => e = .swept n stream
  | .xadd _ _, e | .add _ _ _, e => ∃ stream id fields, e = .added stream id fields
  | .xreadgroup n names, e => ∃ stream ∈ names, e = .read n stream
  | .xpendingRange n stream, e => ∃ entries, e = .listed n stream entries
  | .xautoclaim n stream, e => ∃ id count, e = .claimed n stream id count
  | .xack n stream id, e => e = .acked n stream id
  | .mark n _, e => ∃ key, e = .marked n key
  | .beginXread n cs, e => ∃ cursor ∈ cs, ∃ id, e = .asked n cursor.1 id
  | _, _ => False

namespace State

variable {σ σ' : State} {p q n : ℕ} {i : Input} {c : Cmd} {e : Event} {D : Event → Prop}

/-- The history of a state is that of another with more events of the task, which satisfy `D`. -/
def Extends (p : ℕ) (D : Event → Prop) (σ σ' : State) : Prop :=
  ∃ l : List Event, σ'.log = (l.map fun e => (p, e)) ++ σ.log ∧ ∀ e ∈ l, D e

theorem Extends.of_eq (h : σ'.log = σ.log) : Extends p D σ σ' := ⟨[], h, by simp⟩

theorem Extends.one (h : σ'.log = (p, e) :: σ.log) (he : D e) : Extends p D σ σ' := ⟨[e], h, by simpa⟩

theorem Extends.all {events : List Event} (h : σ'.log = (σ.recordAll p events).log)
    (he : ∀ e ∈ events, D e) : Extends p D σ σ' :=
  ⟨events.reverse, h.trans log_recordAll, by simpa⟩

theorem Extends.call {α : Type} {a : α} (h : Extends p D σ σ') : Extends p D σ (σ.call i a σ').2 := by
  unfold State.call
  cases i.fault with
  | lost => exact .of_eq rfl
  | _ => exact h

/-- The part of the history that belongs to the task. -/
theorem Extends.own (h : Extends p D σ σ') :
    ∃ l : List Event, σ'.log.own p = l ++ σ.log.own p ∧ ∀ e ∈ l, D e := by
  obtain ⟨l, hl, he⟩ := h
  exact ⟨l, by rw [hl, History.own_append, History.own_map_self], he⟩

theorem Extends.own_of_ne (h : Extends p D σ σ') (hq : p ≠ q) : σ'.log.own q = σ.log.own q := by
  obtain ⟨l, hl, -⟩ := h
  rw [hl, History.own_append, History.own_map_of_ne hq, List.nil_append]

variable (cfg : ℕ → RedisStreamsBackend)

/-- A command only adds events of its own task to the history, and only those that it may record. -/
theorem extends_exec : Extends p c.Records σ (σ.exec cfg p c i).2 := by
  cases c with
  | ready => exact .one rfl rfl
  | readerFailed n =>
    simp only [exec, readerFailed]
    split_ifs
    · exact .one rfl ⟨_, rfl⟩
    · exact .one rfl ⟨_, rfl⟩
  | discover n stream =>
    simp only [exec, discover]
    split_ifs
    · exact .of_eq rfl
    · exact .one rfl rfl
  | advance n stream id fields =>
    simp only [exec, advance]
    split
    · exact .one rfl rfl
    · exact .of_eq rfl
  | hand | park | swept => exact .one rfl rfl
  | xgroupCreate n stream =>
    refine Extends.call ?_
    split_ifs <;> exact .of_eq rfl
  | xadd | add => exact Extends.call (.one rfl ⟨_, _, _, rfl⟩)
  | xreadgroup n names =>
    simp only [exec, xreadgroup]
    split_ifs
    · refine Extends.call (.all rfl fun e he => ?_)
      obtain ⟨name, hname, rfl⟩ := List.mem_map.1 he
      exact ⟨name, (List.mem_filter.1 hname).1, rfl⟩
    · exact .of_eq rfl
  | xpendingRange n stream =>
    simp only [exec, xpendingRange]
    split_ifs
    · exact Extends.call (.one rfl ⟨_, rfl⟩)
    · exact .of_eq rfl
  | xautoclaim n stream =>
    simp only [exec, xautoclaim]
    split_ifs
    · refine Extends.call (.all rfl fun e he => ?_)
      obtain ⟨m, -, rfl⟩ := List.mem_map.1 he
      exact ⟨_, _, rfl⟩
    · exact .of_eq rfl
  | xack => exact Extends.call (.one rfl rfl)
  | mark => exact Extends.call (.one rfl ⟨_, rfl⟩)
  | seen | xrevrange | xread => exact Extends.call (.of_eq rfl)
  | beginXread n cursors =>
    refine .all rfl fun e he => ?_
    simp only [List.map_map, List.mem_map, Function.comp_apply] at he
    obtain ⟨cursor, hc, rfl⟩ := he
    exact ⟨cursor, hc, _, rfl⟩
  | _ => exact .of_eq rfl

end State

/-! ## Groups -/

/-- The groups of a stream go on from those of another. -/
def Advances (s s' : Stream Fields) : Prop :=
  ∀ g, (s.group g).lastDelivered ≤ (s'.group g).lastDelivered ∧
    ∀ id e', (s'.group g).pending id = some e' →
      (∃ e, (s.group g).pending id = some e ∧ e.timesDelivered ≤ e'.timesDelivered) ∨
        (s.group g).lastDelivered < id ∧ id ≤ (s'.group g).lastDelivered

namespace Advances

variable {s s' s'' : Stream Fields} {g : String} {now ms : ℤ} {count : ℕ} {consumer : String}

theorem of_groups (h : ∀ g, s'.group g = s.group g) : Advances s s' :=
  fun g => ⟨by rw [h], fun id e' he => .inl ⟨e', by rwa [h] at he, le_refl _⟩⟩

theorem refl (s : Stream Fields) : Advances s s := of_groups fun _ => rfl

theorem trans (h : Advances s s') (h' : Advances s' s'') : Advances s s'' := by
  intro g
  obtain ⟨le, old⟩ := h g
  obtain ⟨le', old'⟩ := h' g
  refine ⟨le.trans le', fun id e'' he => ?_⟩
  rcases old' id e'' he with ⟨e', he', counts⟩ | ⟨lt, last⟩
  · rcases old id e' he' with ⟨e, he, counts'⟩ | ⟨lt, last⟩
    · exact .inl ⟨e, he, counts'.trans counts⟩
    · exact .inr ⟨lt, last.trans le'⟩
  · exact .inr ⟨le.trans_lt lt, last⟩

/-- One group of a stream changes. -/
theorem setGroup {x : Group} (le : (s.group g).lastDelivered ≤ x.lastDelivered)
    (old : ∀ id e', x.pending id = some e' →
      (∃ e, (s.group g).pending id = some e ∧ e.timesDelivered ≤ e'.timesDelivered) ∨
        (s.group g).lastDelivered < id ∧ id ≤ x.lastDelivered) : Advances s (s.setGroup g x) := by
  intro g'
  by_cases hg : g' = g
  · subst hg
    rw [Stream.group_setGroup_self]
    exact ⟨le, old⟩
  · rw [Stream.group_setGroup_of_ne hg]
    exact refl s g'

theorem read : Advances s (s.read g consumer count now).2 := by
  have le : (s.group g).lastDelivered ≤ ((s.read g consumer count now).2.group g).lastDelivered :=
    Stream.lastDelivered_le_read
  rw [Stream.read_snd, Stream.group_setGroup_self] at le
  rw [Stream.read_snd]
  refine setGroup le fun id e' he => ?_
  simp only at he
  split_ifs at he with hid
  · exact .inr ⟨(Stream.mem_readIds hid).1, Stream.le_getLast Stream.readIds_sorted hid⟩
  · exact .inl ⟨e', he, le_refl _⟩

theorem autoclaim : Advances s (s.autoclaim g consumer ms count now).2 := by
  rw [Stream.autoclaim_snd]
  refine setGroup (le_refl _) fun id e' he => .inl ?_
  simp only at he
  split_ifs at he
  · obtain ⟨e, claimed, rfl⟩ := Option.map_eq_some_iff.1 he
    exact ⟨e, claimed, Nat.le_succ _⟩
  · exact ⟨e', he, le_refl _⟩

theorem ack {id : EntryId} : Advances s (s.ack g id) := by
  unfold Stream.ack
  cases hg : s.groups g with
  | none => exact refl s
  | some x =>
    have group : s.group g = x := by simp [Stream.group, hg]
    refine setGroup (by rw [group, Group.setPending]) fun id' e' he => .inl ⟨e', ?_, le_refl _⟩
    rw [group]
    by_cases hid : id' = id
    · subst hid
      simp [Group.setPending] at he
    · simpa [Group.setPending, hid] using he

theorem create (h : s.groups g = none) : Advances s (s.setGroup g {}) := by
  have group : s.group g = {} := by simp [Stream.group, h]
  exact setGroup (by rw [group]) fun id e' he => by cases he

end Advances

/-- A command loses data in Redis. -/
def Cmd.Loses : Cmd → Prop
  | .loseStream _ | .loseGroup _ _ => True
  | _ => False

namespace State

variable {σ σ' : State} {p n : ℕ} {i : Input} {c : Cmd} {stream name : String}

theorem streams_setStream_self {s : Stream Fields} : (σ.setStream stream s).streams stream = s :=
  Function.update_self ..

theorem streams_setStream_of_ne {s : Stream Fields} (h : name ≠ stream) :
    (σ.setStream stream s).streams name = σ.streams name :=
  Function.update_of_ne h ..

theorem advances_setStream {s : Stream Fields} (h : Advances (σ.streams stream) s) (name : String) :
    Advances (σ.streams name) ((σ.setStream stream s).streams name) := by
  by_cases hn : name = stream
  · subst hn
    rw [streams_setStream_self]
    exact h
  · rw [streams_setStream_of_ne hn]
    exact .refl _

theorem advances_call {α : Type} {a : α} (h : ∀ name, Advances (σ.streams name) (σ'.streams name)) :
    Advances (σ.streams name) ((σ.call i a σ').2.streams name) := by
  unfold State.call
  cases i.fault with
  | lost => exact .refl _
  | _ => exact h name

theorem advances_readGroup {group consumer : String} {count : ℕ} {now : ℤ} {names : List String}
    {streams : String → Stream Fields} :
    Advances (streams name) ((readGroup group consumer count now streams names).2 name) := by
  induction names generalizing streams with
  | nil => exact .refl _
  | cons first names ih =>
    refine Advances.trans ?_ ih
    by_cases hn : name = first
    · subst hn
      rw [Function.update_self]
      exact .read
    · rw [Function.update_of_ne hn]
      exact .refl _

theorem advances_xadd {fields : Fields} {maxlen : Option ℕ} :
    Advances (σ.streams name) ((σ.xadd p stream fields maxlen i).2.streams name) := by
  refine advances_call fun name => ?_
  have add : ∀ maxlen trim, Advances (σ.streams stream) ((σ.streams stream).add fields maxlen trim) := by
    intro maxlen trim
    refine .of_groups fun g => ?_
    unfold Stream.add
    dsimp only
    split_ifs <;> rfl
  refine advances_setStream ?_ name
  cases maxlen with
  | none => exact add 0 0
  | some m => exact add m i.trim

/-- The groups advance with every command that loses no data. -/
theorem advances_exec (cfg : ℕ → RedisStreamsBackend) (h : ¬ c.Loses) :
    Advances (σ.streams name) ((σ.exec cfg p c i).2.streams name) := by
  cases c with
  | readerFailed =>
    simp only [exec, readerFailed]
    split_ifs <;> exact .refl _
  | discover =>
    simp only [exec, discover]
    split_ifs <;> exact .refl _
  | advance =>
    simp only [exec, advance]
    split <;> exact .refl _
  | xgroupCreate n stream =>
    refine advances_call fun name => ?_
    split_ifs with hg
    · exact .refl _
    · exact advances_setStream (.create (by simpa using hg)) name
  | xadd | add => exact advances_xadd
  | xreadgroup =>
    simp only [exec, xreadgroup]
    split_ifs
    · exact advances_call fun _ => advances_readGroup
    · exact .refl _
  | xpendingRange =>
    simp only [exec, xpendingRange]
    split_ifs
    · exact advances_call fun _ => .refl _
    · exact .refl _
  | xautoclaim =>
    simp only [exec, xautoclaim]
    split_ifs
    · exact advances_call fun name => advances_setStream .autoclaim name
    · exact .refl _
  | xack => exact advances_call fun name => advances_setStream .ack name
  | mark | seen | xrevrange | xread => exact advances_call fun _ => .refl _
  | loseStream | loseGroup => exact absurd trivial h
  | _ => exact .refl _

end State

/-! ## Instances -/

/-- The instance whose memory a command may change. -/
def Cmd.changes : Cmd → Option ℕ
  | .start n | .stop n | .ready n _ _ | .readerFailed n | .discover n _ | .setCursor n _ _
  | .advance n _ _ _ => some n
  | _ => none

namespace State

variable {σ σ' : State} {p n m : ℕ} {i : Input} {c : Cmd} {stream : String}

theorem instances_setInstance_self {x : Instance} : (σ.setInstance n x).instances n = x :=
  Function.update_self ..

theorem instances_setInstance_of_ne {x : Instance} (h : n ≠ m) :
    (σ.setInstance m x).instances n = σ.instances n :=
  Function.update_of_ne h ..

theorem instances_call {α : Type} {a : α} (h : σ'.instances = σ.instances) :
    (σ.call i a σ').2.instances = σ.instances := by
  unfold State.call
  cases i.fault with
  | lost => rfl
  | _ => exact h

/-- A command changes the memory of at most its own instance. -/
theorem instances_exec (cfg : ℕ → RedisStreamsBackend) (h : c.changes ≠ some n) :
    (σ.exec cfg p c i).2.instances n = σ.instances n := by
  have ne : ∀ {m}, c.changes = some m → n ≠ m := by
    rintro m hm rfl
    exact h hm
  have same : (σ.exec cfg p c i).2.instances = σ.instances →
      (σ.exec cfg p c i).2.instances n = σ.instances n := fun h => by rw [h]
  cases c with
  | start | stop | setCursor | ready => exact instances_setInstance_of_ne (ne rfl)
  | advance =>
    simp only [exec, advance]
    split <;> exact instances_setInstance_of_ne (ne rfl)
  | readerFailed m =>
    simp only [exec, readerFailed]
    split_ifs
    · exact instances_setInstance_of_ne (σ := σ.record p (.failed m (σ.instances m).streams)) (ne rfl)
    · rfl
  | discover =>
    simp only [exec, discover]
    split_ifs
    · rfl
    · exact instances_setInstance_of_ne (ne rfl)
  | xgroupCreate =>
    refine same (instances_call ?_)
    split_ifs <;> rfl
  | xreadgroup | xpendingRange | xautoclaim =>
    simp only [exec, xreadgroup, xpendingRange, xautoclaim] at same ⊢
    split_ifs at same ⊢
    · exact same (instances_call rfl)
    · rfl
  | xadd | xack | mark | seen | xrevrange | xread | add => exact same (instances_call rfl)
  | _ => rfl

end State

/-- The command fails the reader, or lets a stream join. -/
def Cmd.Joins : Cmd → Prop
  | .readerFailed _ | .ready _ _ _ | .discover _ _ => True
  | _ => False

namespace State

variable {cfg : ℕ → RedisStreamsBackend} {σ σ' : State} {p n m : ℕ} {i : Input} {c : Cmd} {stream : String}

theorem streams_setInstance {x : Instance} (h : x.streams = (σ.instances m).streams) :
    ((σ.setInstance m x).instances n).streams = (σ.instances n).streams := by
  by_cases hn : n = m
  · subst hn
    rw [instances_setInstance_self, h]
  · rw [instances_setInstance_of_ne hn]

/-- The known streams change only where a stream joins. -/
theorem streams_exec (h : ¬ c.Joins) :
    ((σ.exec cfg p c i).2.instances n).streams = (σ.instances n).streams := by
  cases c with
  | start | stop | setCursor => exact streams_setInstance rfl
  | advance =>
    simp only [exec, advance]
    split <;> exact streams_setInstance rfl
  | readerFailed | ready | discover => exact absurd trivial h
  | _ => exact congrArg Instance.streams (instances_exec cfg (by simp [Cmd.changes]))

theorem mem_streams_ready {reading : Bool} {s : String} :
    s ∈ ((σ.ready p m stream reading).instances n).streams ↔
      s ∈ (σ.instances n).streams ∨ n = m ∧ s = stream := by
  show s ∈ ((σ.setInstance m _).instances n).streams ↔ _
  by_cases hn : n = m
  · subst hn
    rw [instances_setInstance_self]
    dsimp only
    split_ifs with known
    · refine (or_iff_left_of_imp ?_).symm
      rintro ⟨-, rfl⟩
      exact known
    · simp
  · rw [instances_setInstance_of_ne hn]
    simp [hn]

theorem streams_readerFailed : ((σ.readerFailed p m).2.instances n).streams = (σ.instances n).streams := by
  simp only [readerFailed]
  split_ifs
  · exact streams_setInstance (σ := σ.record p (.failed m (σ.instances m).streams)) rfl
  · rfl

theorem log_readerFailed : (σ.readerFailed p m).2.log = (p, .failed m (σ.instances m).streams) :: σ.log := by
  simp only [readerFailed]
  split_ifs <;> rfl

theorem instances_discover_of_ne (h : n ≠ m) : (σ.discover p m stream).2.instances n = σ.instances n := by
  simp only [discover]
  split_ifs
  · rfl
  · exact instances_setInstance_of_ne h

/-- A stream that is known stays known. -/
theorem mem_streams_exec (cfg : ℕ → RedisStreamsBackend) {s : String} (hs : s ∈ (σ.instances n).streams) :
    s ∈ ((σ.exec cfg p c i).2.instances n).streams := by
  by_cases joins : c.Joins
  · cases c with
    | ready m stream reading => exact mem_streams_ready.2 (.inl hs)
    | readerFailed m =>
      show s ∈ ((σ.readerFailed p m).2.instances n).streams
      rwa [streams_readerFailed]
    | discover m stream =>
      show s ∈ ((σ.discover p m stream).2.instances n).streams
      by_cases hn : n = m
      · subst hn
        simp only [discover]
        split_ifs
        · exact hs
        · show s ∈ ((σ.setInstance n _).instances n).streams
          rw [instances_setInstance_self]
          exact List.mem_append_left _ hs
      · rwa [instances_discover_of_ne hn]
    | _ => exact joins.elim
  · rwa [streams_exec joins]

end State

end NavigatorEventbus.Bus.Streams
