import NavigatorEventbus.Backend.Footprint

/-!
# The bound on redeliveries

The sweeper looks for the entries over `max_deliveries` with an `XPENDING` and reclaims entries with an
`XAUTOCLAIM` after it.  An entry that goes over the bound between the two, or that is on no page of the
`XPENDING`, is handed out once more, and an entry whose `XACK` gets lost stays pending.  When every entry over
the bound that an `XAUTOCLAIM` finds was listed, and those that were parked are acknowledged, the bound holds
(`poison_bounded`); an entry within the bound is never parked.
-/

namespace NavigatorEventbus.Bus.Streams

open Interleave

/-! ## What holds -/

/-- The event begins or ends a sweep of a stream, or is a read of it. -/
def Event.Delimits (n : ℕ) (stream : String) : Event → Prop
  | .listed n' stream' _ | .swept n' stream' | .read n' stream' => n' = n ∧ stream' = stream
  | _ => False

instance (n : ℕ) (stream : String) (e : Event) : Decidable (e.Delimits n stream) := by
  apply e.casesOn (motive := fun e => Decidable (e.Delimits n stream)) <;> intros <;>
    dsimp only [Event.Delimits] <;> infer_instance

/-- The events of the sweep of a stream that a task is in. -/
def thisSweep (n : ℕ) (stream : String) (l : List Event) : List Event :=
  l.takeWhile fun e => ¬ e.Delimits n stream

/-- At the end of a sweep, every entry that it claimed over the bound was parked and acknowledged; none was
handed out, and none within the bound was parked. -/
def Bounds (cfg : ℕ → RedisStreamsBackend) (p : ℕ) (e : Event) (before : History Event) : Prop :=
  match e with
  | .swept n stream => ∀ bound ∈ (cfg n).maxDeliveries, ∀ id count,
      .claimed n stream id count ∈ thisSweep n stream (before.own p) → bound < count →
        .parked n stream id ∈ thisSweep n stream (before.own p) ∧
          .acked n stream id ∈ thisSweep n stream (before.own p)
  | .handed n stream id => ∀ bound ∈ (cfg n).maxDeliveries, ∀ count,
      .claimed n stream id count ∈ thisSweep n stream (before.own p) → count ≤ bound
  | .parked n stream id => ∃ bound ∈ (cfg n).maxDeliveries, ∃ count,
      .claimed n stream id count ∈ thisSweep n stream (before.own p) ∧ bound < count
  | _ => True

/-- The bound on redeliveries holds so far. -/
def PoisonBounded (cfg : ℕ → RedisStreamsBackend) (σ : State) : Prop := σ.log.Each (Bounds cfg)

/-- The newest event is a listing of an entry over a bound. -/
def ListedOver (n : ℕ) (stream : String) (id : EntryId) (bound : ℕ) (l : List Event) : Prop :=
  match l.head? with
  | some (.listed n' stream' entries) =>
    n' = n ∧ stream' = stream ∧ ∃ entry ∈ entries, entry.1 = id ∧ bound < entry.2
  | _ => False

instance (n : ℕ) (stream : String) (id : EntryId) (bound : ℕ) (l : List Event) :
    Decidable (ListedOver n stream id bound l) := by
  unfold ListedOver
  split <;> infer_instance

/-- The ids that an `XAUTOCLAIM` of an instance claims. -/
def State.claimIds (σ : State) (backend : RedisStreamsBackend) (stream : String) : List EntryId :=
  ((σ.streams stream).claims backend.group backend.minIdleTime backend.batchCount σ.now).1

/-- An `XAUTOCLAIM` finds over the bound only entries that the `XPENDING` just before has listed so, that can
be decoded and for which there is a callback, and the `XACK` of an entry that was parked takes place. Nothing is
lost in Redis. -/
def Listed (cfg : ℕ → RedisStreamsBackend) (p : ℕ) (_o : Call) (c : Cmd) (i : Input) (σ : State) : Prop :=
  match c with
  | .xautoclaim n stream => ∀ bound ∈ (cfg n).maxDeliveries, ∀ id ∈ σ.claimIds (cfg n) stream,
      bound < σ.counter (cfg n).group stream id → (cfg n).onDlq = true ∧
        ListedOver n stream id bound (σ.log.own p) ∧
        ∀ fields ∈ (σ.streams stream).entries id, (cfg n).Decodable fields
  | .xack n stream id => .parked n stream id ∈ thisSweep n stream (σ.log.own p) → i.fault ≠ .lost
  | .loseStream _ | .loseGroup _ _ => False
  | _ => True

instance (cfg : ℕ → RedisStreamsBackend) (p : ℕ) (o : Call) (c : Cmd) (i : Input) (σ : State) :
    Decidable (Listed cfg p o c i σ) := by
  apply c.casesOn (motive := fun c => Decidable (Listed cfg p o c i σ)) <;> intros <;> dsimp only [Listed] <;>
    infer_instance

/-! ## The contract -/

/-- The counters that the listings found are still there, and what is pending was delivered. -/
structure Counted (cfg : ℕ → RedisStreamsBackend) (σ : State) : Prop where
  delivered : ∀ s g id e, ((σ.streams s).group g).pending id = some e →
    id ≤ ((σ.streams s).group g).lastDelivered
  listed : ∀ q n s entries, (q, .listed n s entries) ∈ σ.log → ∀ x ∈ entries,
    x.1 ≤ ((σ.streams s).group (cfg n).group).lastDelivered ∧
      ∀ e, ((σ.streams s).group (cfg n).group).pending x.1 = some e → x.2 ≤ e.timesDelivered

/-- What a command that announces something owes. -/
def Owed (cfg : ℕ → RedisStreamsBackend) (p : ℕ) (c : Cmd) (σ : State) : Prop :=
  match c with
  | .hand n stream id | .advance n stream id _ => Bounds cfg p (.handed n stream id) σ.log
  | .park n stream id => Bounds cfg p (.parked n stream id) σ.log
  | .swept n stream => Bounds cfg p (.swept n stream) σ.log
  | _ => True

section Exec

variable {cfg : ℕ → RedisStreamsBackend} {σ : State} {p : ℕ} {o : Call} {c : Cmd} {i : Input}

theorem pendingIdle_counted {s : Stream Fields} {g : String} {now ms : ℤ} {count : ℕ} {x : EntryId × ℕ}
    (hx : x ∈ s.pendingIdle g now ms count) :
    ∃ e, (s.group g).pending x.1 = some e ∧ x.2 = e.timesDelivered := by
  obtain ⟨id, -, hx⟩ := List.mem_filterMap.1 hx
  obtain ⟨e, he, rfl⟩ := Option.map_eq_some_iff.1 hx
  exact ⟨e, he, rfl⟩

/-- A new listing is what `XPENDING` returns. -/
theorem listed_exec {q n : ℕ} {s : String} {entries : List (EntryId × ℕ)}
    (hl : (q, .listed n s entries) ∈ (σ.exec cfg p c i).2.log) (new : (q, .listed n s entries) ∉ σ.log) :
    entries = (σ.streams s).pendingIdle (cfg n).group σ.now (cfg n).minIdleTime (cfg n).batchCount := by
  obtain ⟨l, hlog, records⟩ := State.extends_exec (σ := σ) (p := p) (c := c) (i := i) cfg
  have recorded : c.Records (.listed n s entries) := by
    rw [hlog] at hl
    obtain ⟨e, he, heq⟩ := List.mem_map.1 ((List.mem_append.1 hl).resolve_right new)
    cases heq
    exact records _ he
  cases c with
  | xpendingRange n' s' =>
    obtain ⟨entries', heq⟩ := recorded
    cases heq
    simp only [State.exec, State.xpendingRange] at hl
    split_ifs at hl
    · unfold State.call at hl
      cases hf : i.fault with
      | lost =>
        rw [hf] at hl
        exact absurd hl new
      | _ =>
        rw [hf] at hl
        rcases List.mem_cons.1 hl with heq | old
        · cases heq
          rfl
        · exact absurd old new
    · exact absurd hl new
  | _ => simp [Cmd.Records] at recorded

theorem Counted.exec (h : Counted cfg σ) (keeps : ¬ c.Loses) : Counted cfg (σ.exec cfg p c i).2 := by
  have groups : ∀ name, Advances (σ.streams name) ((σ.exec cfg p c i).2.streams name) :=
    fun _ => State.advances_exec cfg keeps
  have kept : ∀ s g id, id ≤ ((σ.streams s).group g).lastDelivered →
      id ≤ (((σ.exec cfg p c i).2.streams s).group g).lastDelivered :=
    fun s g _ le => le.trans (groups s g).1
  refine ⟨fun s g id e he => ?_, fun q n s entries hl x hx => ?_⟩
  · rcases (groups s g).2 id e he with ⟨e', he', -⟩ | ⟨-, last⟩
    · exact kept s g id (h.delivered s g id e' he')
    · exact last
  · have old : x.1 ≤ ((σ.streams s).group (cfg n).group).lastDelivered ∧
        ∀ e, ((σ.streams s).group (cfg n).group).pending x.1 = some e → x.2 ≤ e.timesDelivered := by
      by_cases old : (q, .listed n s entries) ∈ σ.log
      · exact h.listed q n s entries old x hx
      · rw [listed_exec hl old] at hx
        obtain ⟨e, he, count⟩ := pendingIdle_counted hx
        refine ⟨h.delivered s _ _ e he, fun e' he' => ?_⟩
        rw [he] at he'
        cases he'
        exact count.le
    refine ⟨kept s _ _ old.1, fun e he => ?_⟩
    rcases (groups s _).2 x.1 e he with ⟨e', he', le⟩ | ⟨lt, -⟩
    · exact (old.2 e' he').trans le
    · exact absurd old.1 (Nat.not_le.2 lt)

/-- The command hands an entry out, parks one or ends a sweep. -/
def Cmd.Hands : Cmd → Prop
  | .hand _ _ _ | .advance _ _ _ _ | .park _ _ _ | .swept _ _ => True
  | _ => False

/-- An event that owes nothing. -/
def Event.Neutral : Event → Prop
  | .swept _ _ | .handed _ _ _ | .parked _ _ _ => False
  | _ => True

theorem Event.Neutral.bounds {e : Event} (h : e.Neutral) (before : History Event) :
    Bounds cfg p e before := by
  cases e with
  | swept | handed | parked => exact h.elim
  | _ => trivial

theorem Cmd.neutral_of_records {e : Event} (quiet : ¬ c.Hands) (h : c.Records e) : e.Neutral := by
  cases e with
  | swept | handed | parked => cases c <;> simp_all [Cmd.Records, Cmd.Hands]
  | _ => trivial

theorem PoisonBounded.exec (h : PoisonBounded cfg σ) (owed : Owed cfg p c σ) :
    PoisonBounded cfg (σ.exec cfg p c i).2 := by
  by_cases hands : c.Hands
  · cases c with
    | hand | park | swept => exact h.cons owed
    | advance n stream id fields =>
      simp only [State.exec, State.advance]
      split
      · exact h.cons owed
      · exact h
    | _ => exact hands.elim
  · obtain ⟨l, hlog, records⟩ := State.extends_exec (σ := σ) (p := p) (c := c) (i := i) cfg
    rw [PoisonBounded, hlog]
    refine h.append fun x hx before => ?_
    obtain ⟨e, he, rfl⟩ := List.mem_map.1 hx
    exact (Cmd.neutral_of_records hands (records e he)).bounds before

end Exec

/-- The contract of the backends. -/
def poison (cfg : ℕ → RedisStreamsBackend) : Contract (backends cfg) where
  Inv σ := PoisonBounded cfg σ ∧ Counted cfg σ
  Ok := Listed cfg
  Guard p _ c _ σ := Owed cfg p c σ
  Post _ _ _ _ := True
  inv_exec {p o c i σ} inv ok owed := by
    refine ⟨inv.1.exec owed, inv.2.exec fun loses => ?_⟩
    cases c with
    | loseStream | loseGroup => exact ok
    | _ => exact loses
  inv_note inv _ := inv
  inv_disturb _ inv := ⟨inv.1, ⟨inv.2.delivered, inv.2.listed⟩⟩

/-! ## The history of a task -/

section Own

variable {cfg : ℕ → RedisStreamsBackend} {p n : ℕ} {o : Call} {stream : String} {id : EntryId}
  {I J : List Event → Prop}

/-- An assertion about the history of a task. -/
def Own (p : ℕ) (I : List Event → Prop) (σ : State) : Prop := I (σ.log.own p)

theorem own_stable : (poison cfg).Stable p (Own p I) := by
  intro σ σ' hO h
  cases hO with
  | exec ne _ _ _ =>
    rw [Own, (State.extends_exec cfg).own_of_ne ne]
    exact h
  | note => exact h
  | disturb => exact h

theorem triple_ask {c : Cmd} {J : c.Reply → List Event → Prop}
    (owed : ∀ σ, I (σ.log.own p) → Owed cfg p c σ)
    (step : ∀ σ i, Counted cfg σ → Listed cfg p o c i σ → I (σ.log.own p) →
      J (σ.exec cfg p c i).1 ((σ.exec cfg p c i).2.log.own p)) :
    (poison cfg).Triple p o (Own p I) (ask c) fun r => Own p (J r) :=
  .ask own_stable (fun _ => own_stable) fun σ i inv ok hI => ⟨owed σ hI, step σ i inv.2 ok hI⟩

/-- A command after which an assertion still holds, whatever it records. -/
theorem triple_keep {c : Cmd} (owed : ∀ σ, I (σ.log.own p) → Owed cfg p c σ)
    (closed : ∀ e l, c.Records e → I l → I (e :: l)) :
    (poison cfg).Triple p o (Own p I) (ask c) fun _ => Own p I := by
  refine triple_ask owed fun σ i _ _ hI => ?_
  obtain ⟨l, hl, records⟩ := (State.extends_exec (σ := σ) (p := p) (c := c) (i := i) cfg).own
  rw [hl]
  clear hl
  induction l with
  | nil => exact hI
  | cons e l ih =>
    exact closed e _ (records e (List.mem_cons_self ..)) (ih fun e he => records e (List.mem_cons_of_mem _ he))

/-- The entry that was parked is acknowledged. -/
theorem triple_ack (parked : ∀ l, I l → .parked n stream id ∈ thisSweep n stream l)
    (h : ∀ l, I l → J (.acked n stream id :: l)) :
    (poison cfg).Triple p o (Own p I) (ack n stream id) fun _ => Own p J := by
  refine .bind (triple_ask (J := fun _ => J) (fun _ _ => trivial) fun σ i _ ok hI => ?_)
    fun _ => .pure own_stable fun _ _ h => h
  have takesPlace : i.fault ≠ .lost := ok (parked _ hI)
  have logged : (σ.exec cfg p (.xack n stream id) i).2.log = (p, .acked n stream id) :: σ.log := by
    show (σ.xack p n (cfg n).group stream id i).2.log = _
    unfold State.xack State.call
    cases hf : i.fault with
    | lost => exact absurd hf takesPlace
    | _ => rfl
  rw [logged, History.own_cons_self]
  exact h _ hI

/-- The assertion survives what the handling of an entry records, and lets it be handed out. -/
structure Handles (cfg : ℕ → RedisStreamsBackend) (n : ℕ) (stream : String) (id : EntryId)
    (I : List Event → Prop) : Prop where
  acked : ∀ {l}, I l → I (.acked n stream id :: l)
  marked : ∀ {key l}, I l → I (.marked n key :: l)
  handed : ∀ {l}, I l → I (.handed n stream id :: l)
  may : ∀ {l}, I l → ∀ bound ∈ (cfg n).maxDeliveries, ∀ count,
    .claimed n stream id count ∈ thisSweep n stream l → count ≤ bound

open RedisStreamsBackend in
theorem triple_handleMessage (h : Handles cfg n stream id I) (fields : Fields) :
    (poison cfg).Triple p o (Own p I) (handleMessage n stream id fields) fun _ => Own p I := by
  have done : (poison cfg).Triple p o (Own p I) (ack n stream id) fun _ => Own p I := by
    refine .bind (triple_keep (fun _ _ => trivial) ?_) fun _ => .pure own_stable fun _ _ h => h
    rintro _ l rfl hI
    exact h.acked hI
  refine .bind (triple_keep (fun _ _ => trivial) fun _ _ he => he.elim) fun r => ?_
  cases r with
  | none => exact done
  | some e =>
    refine .bind (triple_keep (fun _ _ => trivial) fun _ _ he => he.elim) fun seen => ?_
    refine .bind (triple_orRaise (fun _ => own_stable) fun _ _ _ h => h) fun seen => ?_
    split_ifs
    · exact done
    refine .bind (triple_keep (fun _ hI => h.may hI) ?_) fun _ => ?_
    · rintro _ l rfl hI
      exact h.handed hI
    refine .bind (triple_keep (fun _ _ => trivial) fun _ _ he => he.elim) fun r => ?_
    refine .bind (triple_isolated own_stable) fun ok => ?_
    split_ifs
    · refine .bind (triple_keep (fun _ _ => trivial) ?_) fun _ => done
      rintro _ l ⟨key, rfl⟩ hI
      exact h.marked hI
    · exact .pure own_stable fun _ _ h => h

end Own

/-! ## A sweep -/

section Sweep

variable {cfg : ℕ → RedisStreamsBackend} {p n : ℕ} {o : Call} {stream : String} {id : EntryId}
  {l : List Event} {e : Event} {above : List (EntryId × ℕ)} {messages : List (EntryId × Fields)}

theorem thisSweep_cons (h : ¬ e.Delimits n stream) : thisSweep n stream (e :: l) = e :: thisSweep n stream l := by
  simp [thisSweep, h]

theorem thisSweep_append {l' : List Event} (h : ∀ e ∈ l', ¬ e.Delimits n stream) :
    thisSweep n stream (l' ++ l) = l' ++ thisSweep n stream l := by
  induction l' with
  | nil => rfl
  | cons e l' ih =>
    rw [List.cons_append, thisSweep_cons (h e (List.mem_cons_self ..)),
      ih fun e he => h e (List.mem_cons_of_mem _ he), List.cons_append]

theorem thisSweep_of_delimits (h : e.Delimits n stream) : thisSweep n stream (e :: l) = [] := by
  simp [thisSweep, h]

/-- Between the claim of a sweep and its end: the entries over the bound are those in `above`, and the ones
that are not among the remaining messages were parked and acknowledged. -/
structure Sweeping (cfg : ℕ → RedisStreamsBackend) (n : ℕ) (stream : String) (above : List (EntryId × ℕ))
    (messages : List (EntryId × Fields)) (l : List Event) : Prop where
  above_iff : ∀ id count, .claimed n stream id count ∈ thisSweep n stream l →
    ((above.lookup id).isSome ↔ ∃ bound ∈ (cfg n).maxDeliveries, bound < count)
  claimed : ∀ m ∈ messages, ∃ count, .claimed n stream m.1 count ∈ thisSweep n stream l
  done : ∀ id count, .claimed n stream id count ∈ thisSweep n stream l → (above.lookup id).isSome →
    id ∉ messages.map Prod.fst →
      .parked n stream id ∈ thisSweep n stream l ∧ .acked n stream id ∈ thisSweep n stream l

/-- The messages over the bound can be decoded, and there is a callback for them. -/
def Parkable (backend : RedisStreamsBackend) (above : List (EntryId × ℕ)) (messages : List (EntryId × Fields)) :
    Prop :=
  ∀ m ∈ messages, (above.lookup m.1).isSome → backend.onDlq = true ∧ backend.Decodable m.2

namespace Sweeping

theorem cons (h : Sweeping cfg n stream above messages l) (quiet : ¬ e.Delimits n stream)
    (other : ∀ id count, e ≠ .claimed n stream id count) : Sweeping cfg n stream above messages (e :: l) := by
  have old : ∀ {id count}, .claimed n stream id count ∈ thisSweep n stream (e :: l) →
      .claimed n stream id count ∈ thisSweep n stream l := by
    intro id count hc
    rw [thisSweep_cons quiet] at hc
    exact (List.mem_cons.1 hc).resolve_left fun heq => other id count heq.symm
  have kept : ∀ {x : Event}, x ∈ thisSweep n stream l → x ∈ thisSweep n stream (e :: l) := by
    intro x hx
    rw [thisSweep_cons quiet]
    exact List.mem_cons_of_mem _ hx
  refine ⟨fun id count hc => h.above_iff id count (old hc), fun m hm => ?_, fun id count hc ho hid => ?_⟩
  · obtain ⟨count, hc⟩ := h.claimed m hm
    exact ⟨count, kept hc⟩
  · obtain ⟨parked, acked⟩ := h.done id count (old hc) ho hid
    exact ⟨kept parked, kept acked⟩

theorem within {m : EntryId × Fields} (h : Sweeping cfg n stream above (m :: messages) l)
    (hm : above.lookup m.1 = none) : Sweeping cfg n stream above messages l where
  above_iff := h.above_iff
  claimed m' hm' := h.claimed m' (List.mem_cons_of_mem _ hm')
  done id count hc ho hid := by
    refine h.done id count hc ho ?_
    rw [List.map_cons, List.mem_cons]
    rintro (rfl | hmem)
    · simp [hm] at ho
    · exact hid hmem

theorem parked {m : EntryId × Fields} (h : Sweeping cfg n stream above (m :: messages) l)
    (hp : .parked n stream m.1 ∈ thisSweep n stream l) (ha : .acked n stream m.1 ∈ thisSweep n stream l) :
    Sweeping cfg n stream above messages l where
  above_iff := h.above_iff
  claimed m' hm' := h.claimed m' (List.mem_cons_of_mem _ hm')
  done id count hc ho hid := by
    by_cases hid' : id = m.1
    · subst hid'
      exact ⟨hp, ha⟩
    · exact h.done id count hc ho (by simp_all)

/-- An entry that is not over the bound can be handled. -/
theorem handles (hid : above.lookup id = none) : Handles cfg n stream id (Sweeping cfg n stream above messages) where
  acked h := h.cons (by simp [Event.Delimits]) (by simp)
  marked h := h.cons (by simp [Event.Delimits]) (by simp)
  handed h := h.cons (by simp [Event.Delimits]) (by simp)
  may h bound hbound count hc := by
    by_contra lt
    have listed := (h.above_iff id count hc).2 ⟨bound, hbound, Nat.lt_of_not_le lt⟩
    simp [hid] at listed

end Sweeping

open RedisStreamsBackend in
theorem triple_parkToDlq {fields : Fields} {attempts : ℕ} (hid : above.lookup id = some attempts)
    (onDlq : (cfg n).onDlq = true) (decodable : (cfg n).Decodable fields) :
    (poison cfg).Triple p o (Own p (Sweeping cfg n stream above ((id, fields) :: messages)))
      ((cfg n).parkToDlq n stream id fields attempts) fun _ => Own p (Sweeping cfg n stream above messages) := by
  have may : ∀ σ, Own p (Sweeping cfg n stream above ((id, fields) :: messages)) σ →
      Owed cfg p (.park n stream id) σ := by
    intro σ h
    obtain ⟨count, hc⟩ := h.claimed _ (List.mem_cons_self ..)
    obtain ⟨bound, hbound, lt⟩ := (h.above_iff id count hc).1 (by simp [hid])
    exact ⟨bound, hbound, count, hc, lt⟩
  have done : (poison cfg).Triple p o
      (Own p fun l => .parked n stream id ∈ thisSweep n stream l ∧
        Sweeping cfg n stream above ((id, fields) :: messages) l)
      (ack n stream id) fun _ => Own p (Sweeping cfg n stream above messages) := by
    refine triple_ack (fun _ h => h.1) fun l h => ?_
    have quiet : ¬ Event.Delimits n stream (.acked n stream id) := by simp [Event.Delimits]
    refine (h.2.cons quiet (by simp)).parked ?_ ?_
    · rw [thisSweep_cons quiet]
      exact List.mem_cons_of_mem _ h.1
    · rw [thisSweep_cons quiet]
      exact List.mem_cons_self ..
  refine .bind (triple_ask (c := .decode n fields)
    (J := fun r l => r.isSome ∧ Sweeping cfg n stream above ((id, fields) :: messages) l)
    (fun _ _ => trivial) fun σ i _ _ h => ⟨?_, h⟩) fun r => ?_
  · exact ((cfg n).codec.fresh i.uuid fields).trans decodable
  cases r with
  | none => exact .pre (.fact fun h => absurd h nofun) fun _ _ h => h
  | some e =>
    dsimp only
    rw [if_pos onDlq]
    refine .bind (triple_ask (c := .park n stream id)
      (J := fun _ l => .parked n stream id ∈ thisSweep n stream l ∧
        Sweeping cfg n stream above ((id, fields) :: messages) l)
      (fun σ h => may σ h.2) fun σ i _ _ h => ?_) fun _ => ?_
    · have quiet : ¬ Event.Delimits n stream (.parked n stream id) := by simp [Event.Delimits]
      show _ ∈ thisSweep n stream (History.own p ((p, .parked n stream id) :: σ.log)) ∧
        Sweeping cfg n stream above _ (History.own p ((p, .parked n stream id) :: σ.log))
      rw [History.own_cons_self, thisSweep_cons quiet]
      exact ⟨List.mem_cons_self .., h.2.cons quiet (by simp)⟩
    refine .bind (triple_keep (fun _ _ => trivial) fun _ _ he => he.elim) fun r => ?_
    exact .bind (triple_isolated own_stable) fun _ => done

theorem triple_sweepEach (ok : Parkable (cfg n) above messages) :
    (poison cfg).Triple p o (Own p (Sweeping cfg n stream above messages))
      ((cfg n).sweepEach n stream above messages) fun _ => Own p (Sweeping cfg n stream above []) := by
  induction messages with
  | nil => exact .pure own_stable fun _ _ h => h
  | cons m messages ih =>
    obtain ⟨id, fields⟩ := m
    have rest := ih fun m hm => ok m (List.mem_cons_of_mem _ hm)
    rw [RedisStreamsBackend.sweepEach]
    cases hid : above.lookup id with
    | some attempts =>
      obtain ⟨onDlq, decodable⟩ := ok (id, fields) (List.mem_cons_self ..) (by simp [hid])
      exact .bind (triple_parkToDlq hid onDlq decodable) fun _ => rest
    | none =>
      refine .bind (triple_handleMessage (Sweeping.handles hid) fields) fun _ => ?_
      exact rest.pre fun _ _ h => Sweeping.within h hid

/-- What the listing of a sweep finds over the bound. -/
def ListedIn (cfg : ℕ → RedisStreamsBackend) (n : ℕ) (stream : String) (above : List (EntryId × ℕ))
    (l : List Event) : Prop :=
  match (cfg n).maxDeliveries with
  | none => above = []
  | some bound => ∃ entries, l.head? = some (.listed n stream entries) ∧
      above = entries.filter fun entry => bound < entry.2

theorem triple_overThreshold {I : List Event → Prop} :
    (poison cfg).Triple p o (Own p I) ((cfg n).overThreshold n stream) fun above => Own p (ListedIn cfg n stream above) := by
  unfold RedisStreamsBackend.overThreshold
  cases hmax : (cfg n).maxDeliveries with
  | none =>
    refine .pure own_stable fun σ _ _ => ?_
    simp [Own, ListedIn, hmax]
  | some bound =>
    refine .bind (triple_ask (c := .xpendingRange n stream)
      (J := fun r l => ∀ entries ∈ r, l.head? = some (.listed n stream entries)) (fun _ _ => trivial)
      fun σ i _ _ _ => ?_) fun r => ?_
    · show ∀ entries ∈ (σ.xpendingRange p n (cfg n) stream i).1,
        ((σ.xpendingRange p n (cfg n) stream i).2.log.own p).head? = some (.listed n stream entries)
      unfold State.xpendingRange State.call
      split_ifs
      · cases i.fault with
        | none =>
          rintro entries ⟨rfl⟩
          simp
        | _ => exact nofun
      · exact nofun
    refine .bind (triple_orRaise (B := fun entries => Own p fun l => l.head? = some (.listed n stream entries))
      (fun _ => own_stable) fun entries hr σ h => h entries hr) fun entries => ?_
    refine .pure own_stable fun σ _ h => ?_
    simp only [Own, ListedIn, hmax]
    exact ⟨entries, h, rfl⟩

theorem mem_autoclaim {s : Stream Fields} {g consumer : String} {ms now : ℤ} {count : ℕ}
    {m : EntryId × Fields} (hm : m ∈ (s.autoclaim g consumer ms count now).1) :
    m.1 ∈ (s.claims g ms count now).1 ∧ s.entries m.1 = some m.2 := by
  obtain ⟨id, hid, hm⟩ := List.mem_filterMap.1 hm
  obtain ⟨fields, hf, rfl⟩ := Option.map_eq_some_iff.1 hm
  exact ⟨hid, hf⟩

/-- An entry that is claimed was listed over the bound when its counter is over it. -/
theorem lookup_isSome_iff {σ : State} {i : Input} (counted : Counted cfg σ)
    (ok : Listed cfg p o (.xautoclaim n stream) i σ) (h : ListedIn cfg n stream above (σ.log.own p))
    (hid : id ∈ σ.claimIds (cfg n) stream) :
    (above.lookup id).isSome ↔ ∃ bound ∈ (cfg n).maxDeliveries, bound < σ.counter (cfg n).group stream id := by
  cases hmax : (cfg n).maxDeliveries with
  | none =>
    obtain rfl : above = [] := by simpa [ListedIn, hmax] using h
    simp
  | some bound =>
    obtain ⟨entries, head, rfl⟩ : ∃ entries, (σ.log.own p).head? = some (.listed n stream entries) ∧
        above = entries.filter fun entry => bound < entry.2 := by simpa [ListedIn, hmax] using h
    rw [List.lookup_isSome_iff]
    constructor
    · rintro ⟨⟨id', count⟩, hentry, hid'⟩
      obtain rfl : id = id' := by simpa using hid'
      obtain ⟨hentry, lt⟩ := List.mem_filter.1 hentry
      have lt : bound < count := by simpa using lt
      have logged : (p, .listed n stream entries) ∈ σ.log := History.mem_own.1 (List.mem_of_mem_head? head)
      obtain ⟨e, he, -⟩ := (Stream.mem_claims hid).1
      have le : count ≤ e.timesDelivered := (counted.listed p n stream entries logged _ hentry).2 e he
      refine ⟨bound, rfl, ?_⟩
      rw [State.counter, he]
      exact Nat.lt_of_lt_of_le lt le
    · rintro ⟨_, ⟨rfl⟩, lt⟩
      have listed : ListedOver n stream id bound (σ.log.own p) := (ok bound hmax id hid lt).2.1
      simp only [ListedOver, head] at listed
      obtain ⟨-, -, entry, hentry, hid', lt'⟩ := listed
      exact ⟨entry, List.mem_filter.2 ⟨hentry, by simpa using lt'⟩, by simp [hid']⟩

/-- What an `XAUTOCLAIM` records. -/
def claimEvents (σ : State) (n : ℕ) (backend : RedisStreamsBackend) (stream : String)
    (messages : List (EntryId × Fields)) : List Event :=
  messages.map fun m => .claimed n stream m.1 (σ.counter backend.group stream m.1)

theorem own_xautoclaim {σ : State} {i : Input} {backend : RedisStreamsBackend}
    (hr : (σ.xautoclaim p n backend stream i).1 = some messages) :
    (σ.xautoclaim p n backend stream i).2.log.own p =
        (claimEvents σ n backend stream messages).reverse ++ σ.log.own p ∧
      ∀ m ∈ messages, m.1 ∈ σ.claimIds backend stream ∧ (σ.streams stream).entries m.1 = some m.2 := by
  unfold State.xautoclaim State.call at hr ⊢
  split_ifs at hr ⊢
  cases hf : i.fault with
  | none =>
    rw [hf] at hr
    cases hr
    refine ⟨?_, fun m hm => mem_autoclaim hm⟩
    dsimp only
    rw [State.log_recordAll, History.own_append, History.own_map_self]
    rfl
  | _ =>
    rw [hf] at hr
    cases hr

theorem sweeping_xautoclaim {σ : State} {i : Input} (counted : Counted cfg σ)
    (ok : Listed cfg p o (.xautoclaim n stream) i σ) (h : ListedIn cfg n stream above (σ.log.own p))
    (hr : (σ.xautoclaim p n (cfg n) stream i).1 = some messages) :
    Parkable (cfg n) above messages ∧
      Sweeping cfg n stream above messages ((σ.xautoclaim p n (cfg n) stream i).2.log.own p) := by
  obtain ⟨hlog, claimed⟩ := own_xautoclaim hr
  have above_iff : ∀ m ∈ messages, (above.lookup m.1).isSome ↔
      ∃ bound ∈ (cfg n).maxDeliveries, bound < σ.counter (cfg n).group stream m.1 :=
    fun m hm => lookup_isSome_iff counted ok h (claimed m hm).1
  have quiet : ∀ e ∈ (claimEvents σ n (cfg n) stream messages).reverse, ¬ e.Delimits n stream := by
    intro e he
    obtain ⟨m, -, rfl⟩ := List.mem_map.1 (List.mem_reverse.1 he)
    simp [Event.Delimits]
  refine ⟨fun m hm above => ?_, ?_⟩
  · obtain ⟨bound, hbound, lt⟩ := (above_iff m hm).1 above
    obtain ⟨hid, hf⟩ := claimed m hm
    obtain ⟨onDlq, -, decodable⟩ := ok bound hbound m.1 hid lt
    exact ⟨onDlq, decodable m.2 hf⟩
  · rw [hlog]
    have inv : ∀ id count, .claimed n stream id count ∈
        thisSweep n stream ((claimEvents σ n (cfg n) stream messages).reverse ++ σ.log.own p) →
          (∃ m ∈ messages, m.1 = id ∧ σ.counter (cfg n).group stream id = count) ∨
            (cfg n).maxDeliveries = none ∧ above = [] := by
      intro id count hc
      rw [thisSweep_append quiet] at hc
      rcases List.mem_append.1 hc with hc | hc
      · obtain ⟨m, hm, heq⟩ := List.mem_map.1 (List.mem_reverse.1 hc)
        cases heq
        exact .inl ⟨m, hm, rfl, rfl⟩
      · cases hmax : (cfg n).maxDeliveries with
        | none => exact .inr ⟨rfl, by simpa [ListedIn, hmax] using h⟩
        | some bound =>
          obtain ⟨entries, head, -⟩ : ∃ entries, (σ.log.own p).head? = some (.listed n stream entries) ∧
            above = entries.filter fun entry => bound < entry.2 := by simpa [ListedIn, hmax] using h
          obtain ⟨l, hl⟩ := List.head?_eq_some_iff.1 head
          rw [hl, thisSweep_of_delimits (by simp [Event.Delimits])] at hc
          cases hc
    refine ⟨fun id count hc => ?_, fun m hm => ?_, fun id count hc listed hid => ?_⟩
    · rcases inv id count hc with ⟨m, hm, rfl, rfl⟩ | ⟨hmax, rfl⟩
      · exact above_iff m hm
      · simp [hmax]
    · refine ⟨σ.counter (cfg n).group stream m.1, ?_⟩
      rw [thisSweep_append quiet]
      exact List.mem_append_left _ (List.mem_reverse.2 (List.mem_map.2 ⟨m, hm, rfl⟩))
    · rcases inv id count hc with ⟨m, hm, rfl, -⟩ | ⟨-, rfl⟩
      · exact absurd (List.mem_map_of_mem hm) hid
      · simp at listed

/-- A finished sweep. -/
theorem Sweeping.bounds (h : Sweeping cfg n stream above [] l) :
    ∀ bound ∈ (cfg n).maxDeliveries, ∀ id count, .claimed n stream id count ∈ thisSweep n stream l →
      bound < count → .parked n stream id ∈ thisSweep n stream l ∧ .acked n stream id ∈ thisSweep n stream l :=
  fun bound hbound id count hc lt => h.done id count hc ((h.above_iff id count hc).2 ⟨bound, hbound, lt⟩) (by simp)

theorem triple_sweepStream :
    (poison cfg).Triple p o (Own p fun _ => True) ((cfg n).sweepStream n stream) fun _ => Own p fun _ => True := by
  refine .bind triple_overThreshold fun above => ?_
  refine .bind (triple_ask (c := .xautoclaim n stream)
    (J := fun r l => ∀ messages ∈ r, Parkable (cfg n) above messages ∧ Sweeping cfg n stream above messages l)
    (fun _ _ => trivial) fun σ i counted ok h messages hr => sweeping_xautoclaim counted ok h hr) fun r => ?_
  refine .bind (triple_orRaise
    (B := fun messages σ => Parkable (cfg n) above messages ∧ Own p (Sweeping cfg n stream above messages) σ)
    (fun _ _ _ hO h => ⟨h.1, own_stable hO h.2⟩) fun messages hr σ h => h messages hr) fun messages => ?_
  refine .fact fun parkable => ?_
  refine .bind (triple_sweepEach parkable) fun _ => ?_
  exact triple_ask (c := .swept n stream) (fun σ h => Sweeping.bounds h) fun _ _ _ _ _ => trivial

theorem triple_sweepAll {streams : List String} :
    (poison cfg).Triple p o (Own p fun _ => True) ((cfg n).sweepAll n streams) fun _ => Own p fun _ => True := by
  induction streams with
  | nil => exact .pure own_stable fun _ _ h => h
  | cons stream streams ih => exact .bind triple_sweepStream fun _ => ih

end Sweep

/-! ## A reader -/

section Reader

variable {cfg : ℕ → RedisStreamsBackend} {p n : ℕ} {o : Call} {stream : String} {l : List Event} {e : Event}
  {streams : List String}

/-- Nothing was claimed in the sweeps of some streams that the task is in. -/
def NoClaims (n : ℕ) (streams : List String) (l : List Event) : Prop :=
  ∀ stream ∈ streams, ∀ id count, .claimed n stream id count ∉ thisSweep n stream l

theorem NoClaims.cons (h : NoClaims n streams l) (other : ∀ stream id count, e ≠ .claimed n stream id count) :
    NoClaims n streams (e :: l) := by
  intro stream hs id count hc
  by_cases delimits : e.Delimits n stream
  · rw [thisSweep_of_delimits delimits] at hc
    cases hc
  · rw [thisSweep_cons delimits] at hc
    exact h stream hs id count ((List.mem_cons.1 hc).resolve_left fun heq => other stream id count heq.symm)

theorem NoClaims.handles {id : EntryId} (hs : stream ∈ streams) : Handles cfg n stream id (NoClaims n streams) where
  acked h := h.cons (by simp)
  marked h := h.cons (by simp)
  handed h := h.cons (by simp)
  may h _ _ count hc := absurd hc (h stream hs _ count)

theorem mem_of_mem_thisSweep {l' : List Event} {x : Event} (h : ∃ e ∈ l', e.Delimits n stream)
    (hx : x ∈ thisSweep n stream (l' ++ l)) : x ∈ l' := by
  induction l' with
  | nil =>
    obtain ⟨e, he, -⟩ := h
    cases he
  | cons e l' ih =>
    rw [List.cons_append] at hx
    by_cases delimits : e.Delimits n stream
    · rw [thisSweep_of_delimits delimits] at hx
      cases hx
    · rw [thisSweep_cons delimits, List.mem_cons] at hx
      obtain ⟨e', he', delimits'⟩ := h
      have later : e' ∈ l' := (List.mem_cons.1 he').resolve_left fun heq => delimits (heq ▸ delimits')
      rw [List.mem_cons]
      exact hx.imp_right (ih ⟨e', later, delimits'⟩)

theorem readGroup_names {group consumer : String} {count : ℕ} {now : ℤ} {names : List String}
    {s : String → Stream Fields} :
    (State.readGroup group consumer count now s names).1.map Prod.fst = names := by
  induction names generalizing s with
  | nil => rfl
  | cons name names ih => exact congrArg (name :: ·) ih

/-- The streams of the result of an `XREADGROUP` begin anew. -/
theorem noClaims_xreadgroup {σ : State} {i : Input} {backend : RedisStreamsBackend} {names : List String}
    {results : List (String × List (EntryId × Fields))}
    (hr : (σ.xreadgroup p n backend names i).1 = some results) :
    NoClaims n (results.map Prod.fst) ((σ.xreadgroup p n backend names i).2.log.own p) := by
  unfold State.xreadgroup State.call at hr ⊢
  split_ifs at hr ⊢
  cases hf : i.fault with
  | none =>
    rw [hf] at hr
    cases hr
    rw [readGroup_names]
    dsimp only
    rw [State.log_recordAll, History.own_append, History.own_map_self]
    intro stream hs id count hc
    have read := mem_of_mem_thisSweep ⟨.read n stream, by simpa using hs, by simp [Event.Delimits]⟩ hc
    simp at read
  | _ =>
    rw [hf] at hr
    cases hr

theorem triple_handleEach (hs : stream ∈ streams) {messages : List (EntryId × Fields)} :
    (poison cfg).Triple p o (Own p (NoClaims n streams)) (RedisStreamsBackend.handleEach n stream messages)
      fun _ => Own p (NoClaims n streams) := by
  induction messages with
  | nil => exact .pure own_stable fun _ _ h => h
  | cons m messages ih => exact .bind (triple_handleMessage (NoClaims.handles hs) m.2) fun _ => ih

theorem triple_handleAll {results : List (String × List (EntryId × Fields))}
    (hs : ∀ r ∈ results, r.1 ∈ streams) :
    (poison cfg).Triple p o (Own p (NoClaims n streams)) (RedisStreamsBackend.handleAll n results)
      fun _ => Own p (NoClaims n streams) := by
  induction results with
  | nil => exact .pure own_stable fun _ _ h => h
  | cons r results ih =>
    exact .bind (triple_handleEach (hs r (List.mem_cons_self ..))) fun _ =>
      ih fun r hr => hs r (List.mem_cons_of_mem _ hr)

end Reader

/-! ## The tasks -/

section Tasks

variable {cfg : ℕ → RedisStreamsBackend} {p n : ℕ} {o : Call} {stream : String}

/-- The command owes nothing. -/
def Cmd.Free (cfg : ℕ → RedisStreamsBackend) : Cmd → Prop
  | .hand _ _ _ | .park _ _ _ | .swept _ _ => False
  | .advance n _ _ _ => (cfg n).maxDeliveries = none
  | _ => True

theorem Cmd.Free.owed {c : Cmd} (h : c.Free cfg) (σ : State) : Owed cfg p c σ := by
  cases c with
  | hand | park | swept => exact h.elim
  | advance n stream id fields =>
    intro bound hbound
    simp [show (cfg n).maxDeliveries = none from h] at hbound
  | _ => trivial

theorem triple_free {α : Type} {x : Task α} (hx : Prog.All (Cmd.Free cfg) x.run) :
    (poison cfg).Triple p o (Own p fun _ => True) x fun _ => Own p fun _ => True := by
  refine .of_all own_stable (fun {c i σ} free _ _ _ => ?_) hx
  exact ⟨free.owed σ, trivial⟩

theorem triple_consume : (poison cfg).Triple p o (Own p fun _ => True) ((cfg n).consume n) fun _ => Own p fun _ => True := by
  have read : (poison cfg).Triple p o (Own p fun _ => True) (do
      let names ← ask (.known n)
      if names.isEmpty then ask .sleep
      else
        let results ← orRaise (← ask (.xreadgroup n names))
        RedisStreamsBackend.handleAll n results) fun _ => Own p fun _ => True := by
    refine .bind (triple_free (all_ask trivial)) fun names => ?_
    split_ifs
    · exact triple_free (all_ask trivial)
    refine .bind (triple_ask (c := .xreadgroup n names)
      (J := fun r l => ∀ results ∈ r, NoClaims n (results.map Prod.fst) l) (fun _ _ => trivial)
      fun σ i _ _ _ results hr => noClaims_xreadgroup hr) fun r => ?_
    refine .bind (triple_orRaise
      (B := fun (results : List (String × List (EntryId × Fields))) => Own p (NoClaims n (results.map Prod.fst)))
      (fun _ => own_stable) fun results hr σ h => h results hr) fun results => ?_
    exact (triple_handleAll fun r hr => List.mem_map_of_mem hr).mono (fun _ _ h => h) fun _ _ _ _ => trivial
  refine .bind (triple_free (all_ensureConnection trivial)) fun _ => ?_
  refine .bind (triple_free (all_ask trivial)) fun (due : Bool) => ?_
  cases due with
  | false => exact read
  | true =>
    refine .bind (triple_free (RedisStreamsBackend.refreshes_refreshStreams.mono fun c hc => ?_)) fun _ => read
    cases c with
    | scan | isKnown | isReady | xgroupCreate | ready => trivial
    | _ => exact hc.elim

theorem triple_sweep : (poison cfg).Triple p o (Own p fun _ => True) ((cfg n).sweep n) fun _ => Own p fun _ => True :=
  .bind (triple_free (all_ask trivial)) fun _ => .bind (triple_free (all_ensureConnection trivial)) fun _ =>
    .bind (triple_free (all_ask trivial)) fun _ => triple_sweepAll

theorem Cmd.Free.of_issues {c : Cmd} (h : o.Issues cfg c) (sweeper : ∀ n, o ≠ .sweeper n)
    (reader : ∀ n, o = .reader n → (cfg n).broadcast = true) : c.Free cfg := by
  cases o with
  | start n =>
    cases c with
    | hand | park | swept | advance =>
      have h : if (cfg n).broadcast then False else False := h
      simp at h
    | _ => trivial
  | close n =>
    obtain rfl : c = .stop n := h
    trivial
  | publish n e =>
    cases c with
    | hand | park | swept | advance => exact h.elim
    | _ => trivial
  | reader n =>
    have hb := reader n rfl
    rcases h with rfl | h
    · trivial
    rw [if_pos hb] at h
    cases c with
    | hand | park | swept => exact h.elim
    | advance m =>
      obtain rfl : m = n := h
      exact (cfg m).broadcast_unbounded hb
    | _ => trivial
  | sweeper n => exact absurd rfl (sweeper n)
  | foreign f =>
    obtain rfl : c = f.cmd := h
    cases f <;> trivial

theorem poison_safe (p : ℕ) (o : Call) (σ : State) : (poison cfg).Safe p o (o.code cfg) (fun _ _ => True) σ := by
  have free : (∀ n, o ≠ .sweeper n) → (∀ n, o = .reader n → (cfg n).broadcast = true) →
      (poison cfg).Safe p o (o.code cfg) (fun _ _ => True) σ := fun sweeper reader =>
    safe_issues fun _ _ σ h _ _ => (Cmd.Free.of_issues h sweeper reader).owed σ
  cases o with
  | reader n =>
    by_cases hb : (cfg n).broadcast
    · exact free (by simp) (by simpa using hb)
    · refine safe_map ?_
      rw [RedisStreamsBackend.readerTurn, if_neg hb]
      exact safe_turn own_stable (fun _ _ _ _ => trivial) triple_consume
        (fun σ _ => fun _ _ _ _ _ => ⟨trivial, fun _ _ _ => trivial⟩) trivial
  | sweeper n =>
    refine safe_map ?_
    unfold RedisStreamsBackend.sweeperTurn
    split_ifs
    · exact fun _ _ _ => trivial
    · exact safe_turn own_stable (fun _ _ _ _ => trivial) triple_sweep
        (fun σ _ => fun _ _ _ _ _ => ⟨trivial, fun _ _ _ => trivial⟩) trivial
  | _ => exact free (by simp) (by simp)

end Tasks

theorem poison_start (cfg : ℕ → RedisStreamsBackend) : (poison cfg).Inv (start cfg).shared := by
  refine ⟨.nil _, ?_, ?_⟩
  · intro s g id e he
    cases he
  · intro q n s entries h
    cases h

/-- When every entry over the bound that an `XAUTOCLAIM` finds was listed so just before it, and no `XACK` of a parked
entry gets lost, the bound on redeliveries holds in every run. -/
theorem poison_bounded (cfg : ℕ → RedisStreamsBackend) (P : Pool (backends cfg))
    (h : Pool.Reach (Pool.Meets (Listed cfg)) (start cfg) P) : PoisonBounded cfg P.shared :=
  (within_of_reach (poison_start cfg) (fun p o σ _ => poison_safe p o σ) h).inv.1

namespace Shop

/-- One delivery of an order before it is parked. -/
def impatient (n : ℕ) : RedisStreamsBackend :=
  { consumer := toString n, codec, streams := some [orders], maxDeliveries := some 1, onDlq := true }

/-- The callback of an order fails. -/
def refused : Input := { callback := .error (.exception "ValueError" none), names := [orders] }

/-- An order is published, read and handed out; after a minute it is claimed and handed out again. -/
def twice : List (Act (backends impatient)) :=
  whole 0 (.start 0) 5 {} ++ whole 1 (.publish 0 (order "a")) 3 {} ++ whole 0 (.reader 0) 9 refused ++
    [.disturb 60000] ++ whole 2 (.sweeper 0) 11 refused

end Shop

open Shop in
/-- After another minute the order is parked. -/
theorem poison_bounded_witness : ∃ P : Pool (backends impatient),
    (2, .parked 0 orders 1) ∈ P.shared.log ∧ PoisonBounded impatient P.shared := by
  have run : ∃ P ∈ (start impatient).runIf (Listed impatient)
      (twice ++ [.disturb 60000] ++ whole 2 (.sweeper 0) 11 refused),
      (2, .parked 0 orders 1) ∈ P.shared.log := by decide +kernel
  obtain ⟨P, hP, parked⟩ := run
  exact ⟨P, parked, poison_bounded impatient P (.of_runIf hP)⟩

/-- No data is lost in Redis. -/
def Lossless (_p : ℕ) (_o : Call) (c : Cmd) (_i : Input) (_σ : State) : Prop := ¬ c.Loses

instance (p : ℕ) (o : Call) (c : Cmd) (i : Input) (σ : State) : Decidable (Lossless p o c i σ) := by
  apply c.casesOn (motive := fun c => Decidable (Lossless p o c i σ)) <;> intros <;>
    dsimp only [Lossless, Cmd.Loses] <;> infer_instance

open Shop in
/-- The order gets its minute between the `XPENDING` of a pass and its `XAUTOCLAIM`: it is claimed with the
counter 2, and handed out a third time. -/
theorem poison_unbounded : ¬ ∀ P : Pool (backends impatient),
    Pool.Reach (Pool.Meets Lossless) (start impatient) P → PoisonBounded impatient P.shared := by
  intro h
  have run : ∃ P ∈ (start impatient).runIf Lossless (twice ++ [.disturb 59999, .call 2 (.sweeper 0)] ++
      steps 2 5 refused ++ [.disturb 1] ++ steps 2 4 refused),
      P.shared.log.head? = some (2, .handed 0 orders 1) ∧
        .claimed 0 orders 1 2 ∈ thisSweep 0 orders (History.own 2 P.shared.log.tail) := by decide +kernel
  obtain ⟨P, hP, head, claimed⟩ := run
  obtain ⟨before, hlog⟩ := List.head?_eq_some_iff.1 head
  rw [hlog] at claimed
  have bounds := h P (.of_runIf hP) [] 2 _ before hlog
  exact absurd (bounds 1 rfl 2 claimed) (by decide)

end NavigatorEventbus.Bus.Streams
