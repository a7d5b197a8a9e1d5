import NavigatorEventbus.Backend.Footprint

/-!
# The reader of a broadcast

What the reader has handed out of a stream, with the entries that its position still has before it, are the
entries added since it discovered the stream (`Accounted`).  A position that is taken from the end of the
stream keeps this only when nothing was added since the discovery; the fallback to `$` is taken anew at every
`XREAD`.  Where no such position passes an entry, every entry is handed out once and in order
(`broadcast_delivers`).
-/

namespace NavigatorEventbus.Bus.Streams

open Interleave

/-! ## What holds -/

/-- The event adds an entry to a stream that the backend can decode. -/
def Event.addition (backend : RedisStreamsBackend) (stream : String) : Event → Option EntryId
  | .added stream' id fields => if stream' = stream ∧ backend.Decodable fields then some id else none
  | _ => none

/-- The event hands out an entry of a stream. -/
def Event.handing (n : ℕ) (stream : String) : Event → Option EntryId
  | .handed m stream' id => if m = n ∧ stream' = stream then some id else none
  | _ => none

/-- The entries that can be decoded and were added to a stream since an instance discovered it, in order. -/
def fresh (backend : RedisStreamsBackend) (n : ℕ) (stream : String) (h : History Event) : List EntryId :=
  ((h.after (.discovered n stream)).filterMap (Event.addition backend stream)).reverse

/-- The entries of a stream that an instance has handed out, in order. -/
def handed (n : ℕ) (stream : String) (h : History Event) : List EntryId :=
  ((h.map Prod.snd).filterMap (Event.handing n stream)).reverse

/-- What was handed out are the first of the fresh entries, each once and in order; and an `XREAD` asks for
what comes after an entry only when the fresh entries up to it have been handed out. -/
structure Delivered (backend : RedisStreamsBackend) (n : ℕ) (σ : State) : Prop where
  inOrder : ∀ s, (fresh backend n s σ.log).Pairwise (· < ·) ∧ handed n s σ.log <+: fresh backend n s σ.log
  unskipped : σ.log.Each fun _ e before => ∀ s r, e = .asked n s r →
    ∀ id ∈ fresh backend n s before, id ≤ r → id ∈ handed n s before

/-- No fresh entry is passed by a position taken from the end of a stream. Nothing is trimmed or lost. -/
def Unpassed (cfg : ℕ → RedisStreamsBackend) (p : ℕ) (o : Call) (c : Cmd) (i : Input) (σ : State) : Prop :=
  Sole p o ∧
    match c with
    | .xadd _ _ | .add _ _ _ => i.trim = 0
    | .loseStream _ => False
    | .xrevrange stream => i.fault = .none → fresh (cfg p) p stream σ.log = []
    | .beginXread n cursors => ∀ x ∈ cursors, x.2 = .tail → fresh (cfg n) n x.1 σ.log = []
    | _ => True

instance (cfg : ℕ → RedisStreamsBackend) (p : ℕ) (o : Call) (c : Cmd) (i : Input) (σ : State) :
    Decidable (Unpassed cfg p o c i σ) := by
  cases c <;> unfold Unpassed <;> infer_instance

/-! ## Histories -/

theorem addition_added {backend : RedisStreamsBackend} {s : String} {id : EntryId} {fields : Fields} :
    (Event.added s id fields).addition backend s = if backend.Decodable fields then some id else none := by
  simp [Event.addition]

section Histories

variable {backend : RedisStreamsBackend} {n p : ℕ} {s : String} {e : Event} {h : History Event} {l : List Event}

theorem fresh_cons (hd : e ≠ .discovered n s) :
    fresh backend n s ((p, e) :: h) = fresh backend n s h ++ (e.addition backend s).toList := by
  rw [fresh, History.after_cons_of_ne hd]
  cases ha : e.addition backend s <;> simp [ha, fresh]

theorem fresh_discovered : fresh backend n s ((p, .discovered n s) :: h) = [] := by
  rw [fresh, History.after_cons_self]
  rfl

theorem handed_cons : handed n s ((p, e) :: h) = handed n s h ++ (e.handing n s).toList := by
  cases hh : e.handing n s <;> simp [handed, hh]

theorem fresh_append (hd : .discovered n s ∉ l) (ha : ∀ e ∈ l, e.addition backend s = none) :
    fresh backend n s ((l.map fun e => (p, e)) ++ h) = fresh backend n s h := by
  induction l with
  | nil => rfl
  | cons e l ih =>
    obtain ⟨ne, hd⟩ := not_or.1 (mt List.mem_cons.2 hd)
    rw [List.map_cons, List.cons_append, fresh_cons (Ne.symm ne), ha e (List.mem_cons_self ..),
      ih hd fun e he => ha e (List.mem_cons_of_mem _ he)]
    simp

theorem handed_append (hh : ∀ e ∈ l, e.handing n s = none) :
    handed n s ((l.map fun e => (p, e)) ++ h) = handed n s h := by
  induction l with
  | nil => rfl
  | cons e l ih =>
    rw [List.map_cons, List.cons_append, handed_cons, hh e (List.mem_cons_self ..),
      ih fun e he => hh e (List.mem_cons_of_mem _ he)]
    simp

end Histories

/-! ## Streams -/

namespace RedisStreamsBackend

/-- The entries after a position that the backend can decode. -/
def ahead (backend : RedisStreamsBackend) (s : Stream Fields) (r : EntryId) : List EntryId :=
  (s.after r).filter fun id => ∃ fields ∈ s.entries id, backend.Decodable fields

end RedisStreamsBackend

section Streams

variable {s s' : Stream Fields} {r id : EntryId} {fields : Fields} {m : ℕ} {l : List EntryId}

theorem ids_succ (h : s'.lastId = s.lastId + 1) : s'.ids = s.ids ++ [s.lastId + 1] := by
  rw [Stream.ids, h, List.range_succ, List.map_append]
  rfl

theorem lastId_add : (s.add fields m 0).lastId = s.lastId + 1 := by
  unfold Stream.add
  dsimp only
  split_ifs <;> rfl

theorem entries_add (h : 0 < id) :
    (s.add fields m 0).entries id = if id = s.lastId + 1 then some fields else s.entries id := by
  have update : Function.update s.entries (s.lastId + 1) (some fields) id =
      if id = s.lastId + 1 then some fields else s.entries id := Function.update_apply ..
  rw [← update]
  unfold Stream.add
  dsimp only
  split
  · exact if_neg (Nat.not_le.2 h)
  · rfl

theorem after_add (hr : r ≤ s.lastId) : (s.add fields m 0).after r = s.after r ++ [s.lastId + 1] := by
  rw [Stream.after, ids_succ lastId_add, List.filter_append]
  congr 1
  · refine List.filter_congr fun id hid => ?_
    obtain ⟨pos, le⟩ := Stream.mem_ids.1 hid
    rw [entries_add pos, if_neg (Nat.ne_of_lt (Nat.lt_succ_of_le le))]
  · have lt : r < s.lastId + 1 := Nat.lt_succ_of_le hr
    simp [entries_add (Nat.succ_pos s.lastId), lt]

theorem ahead_add {backend : RedisStreamsBackend} (hr : r ≤ s.lastId) :
    backend.ahead (s.add fields m 0) r =
      backend.ahead s r ++ if backend.Decodable fields then [s.lastId + 1] else [] := by
  rw [RedisStreamsBackend.ahead, after_add hr, List.filter_append]
  congr 1
  · refine List.filter_congr fun id hid => ?_
    obtain ⟨pos, le⟩ := Stream.mem_ids.1 (Stream.mem_after.1 hid).1
    rw [entries_add pos, if_neg (Nat.ne_of_lt (Nat.lt_succ_of_le le))]
  · rw [List.filter_singleton, entries_add (Nat.succ_pos s.lastId), if_pos rfl]
    simp

/-- The entries after the first one after a position. -/
theorem after_of_cons (h : s.after r = id :: l) : s.after id = l := by
  have sorted : (s.after r).Pairwise (· < ·) := Stream.ids_sorted.filter _
  have lt : r < id := (Stream.mem_after.1 (h ▸ List.mem_cons_self ..)).2.1
  have eq : s.after id = (s.after r).filter (id < ·) := by
    rw [Stream.after, Stream.after, List.filter_filter]
    refine List.filter_congr fun id' _ => ?_
    rw [Bool.eq_iff_iff]
    simp only [decide_eq_true_eq, Bool.and_eq_true]
    constructor
    · rintro ⟨lt', h'⟩
      exact ⟨lt', lt.trans lt', h'⟩
    · rintro ⟨lt', -, h'⟩
      exact ⟨lt', h'⟩
  rw [h] at sorted eq
  rw [eq, List.filter_cons_of_neg (by simp), List.filter_eq_self]
  exact fun a ha => decide_eq_true ((List.pairwise_cons.1 sorted).1 a ha)

/-- The streams have the same entries. -/
def Alike (s s' : Stream Fields) : Prop := s'.lastId = s.lastId ∧ s'.entries = s.entries

namespace Alike

theorem refl (s : Stream Fields) : Alike s s := ⟨rfl, rfl⟩

theorem trans {s'' : Stream Fields} (h : Alike s s') (h' : Alike s' s'') : Alike s s'' :=
  ⟨h'.1.trans h.1, h'.2.trans h.2⟩

theorem setGroup {g : String} {x : Group} : Alike s (s.setGroup g x) := ⟨rfl, rfl⟩

theorem ack {g : String} : Alike s (s.ack g id) := by
  unfold Stream.ack
  split
  · exact refl s
  · exact setGroup

theorem after (h : Alike s s') : s'.after r = s.after r := by
  rw [Stream.after, Stream.after, Stream.ids, Stream.ids, h.1, h.2]

theorem ahead (h : Alike s s') (backend : RedisStreamsBackend) : backend.ahead s' r = backend.ahead s r := by
  rw [RedisStreamsBackend.ahead, RedisStreamsBackend.ahead, h.after, h.2]

end Alike

end Streams

/-! ## What a command adds -/

/-- Nothing is trimmed or lost. -/
def Keeps (c : Cmd) (i : Input) : Prop :=
  match c with
  | .xadd _ _ | .add _ _ _ => i.trim = 0
  | .loseStream _ => False
  | _ => True

/-- The command adds an entry to a stream, or keeps its entries. -/
inductive Grows (p : ℕ) (c : Cmd) (s : String) (σ σ' : State) : Prop where
  | add {fields : Fields} {m : ℕ} (stream : σ'.streams s = (σ.streams s).add fields m 0)
      (log : σ'.log = (p, .added s ((σ.streams s).lastId + 1) fields) :: σ.log)
  | keep {l : List Event} (stream : Alike (σ.streams s) (σ'.streams s))
      (log : σ'.log = (l.map fun e => (p, e)) ++ σ.log) (records : ∀ e ∈ l, c.Records e)
      (other : ∀ e ∈ l, ∀ backend, e.addition backend s = none)

section Exec

variable {cfg : ℕ → RedisStreamsBackend} {σ σ' : State} {p n : ℕ} {c : Cmd} {i : Input} {s stream : String}
  {fields : Fields}

theorem alike_call {α : Type} {a : α} (h : Alike (σ.streams s) (σ'.streams s)) :
    Alike (σ.streams s) ((σ.call i a σ').2.streams s) := by
  unfold State.call
  cases i.fault with
  | lost => exact .refl _
  | _ => exact h

theorem alike_setStream {x : Stream Fields} (h : Alike (σ.streams stream) x) :
    Alike (σ.streams s) ((σ.setStream stream x).streams s) := by
  by_cases hs : s = stream
  · subst hs
    rw [State.streams_setStream_self]
    exact h
  · rw [State.streams_setStream_of_ne hs]
    exact .refl _

theorem alike_readGroup {group consumer : String} {count : ℕ} {now : ℤ} {names : List String}
    {streams : String → Stream Fields} :
    Alike (streams s) ((State.readGroup group consumer count now streams names).2 s) := by
  induction names generalizing streams with
  | nil => exact .refl _
  | cons first names ih =>
    refine Alike.trans ?_ ih
    by_cases hs : s = first
    · subst hs
      rw [Function.update_self]
      exact .setGroup
    · rw [Function.update_of_ne hs]
      exact .refl _

theorem grows_xadd {maxlen : Option ℕ} (trim : i.trim = 0) (records : c.Records (.added stream
    ((σ.streams stream).lastId + 1) fields)) : Grows p c s σ (σ.xadd p stream fields maxlen i).2 := by
  have effect : ∀ n, Grows p c s σ ((σ.setStream stream ((σ.streams stream).add fields n 0)).record p
      (.added stream ((σ.streams stream).lastId + 1) fields)) := by
    intro n
    by_cases hs : s = stream
    · subst hs
      exact .add State.streams_setStream_self rfl
    · refine .keep (l := [_]) ⟨?_, ?_⟩ rfl (by simpa using records) ?_
      · exact congrArg Stream.lastId (State.streams_setStream_of_ne hs)
      · exact congrArg Stream.entries (State.streams_setStream_of_ne hs)
      · simp [Event.addition, Ne.symm hs]
  unfold State.xadd State.call
  cases i.fault with
  | lost => exact .keep (l := []) (.refl _) rfl (by simp) (by simp)
  | _ =>
    cases maxlen with
    | none => exact effect 0
    | some n =>
      rw [trim]
      exact effect n

theorem Cmd.adds_of_records {e : Event} (h : c.Records e) {backend : RedisStreamsBackend}
    (ha : (e.addition backend s).isSome) : (∃ n e, c = .xadd n e) ∨ ∃ stream fields m, c = .add stream fields m := by
  cases e with
  | added => cases c <;> simp_all [Cmd.Records]
  | _ => cases ha

theorem alike_exec (add : ∀ stream fields m, c ≠ .add stream fields m) (xadd : ∀ n e, c ≠ .xadd n e)
    (lose : ∀ stream, c ≠ .loseStream stream) : Alike (σ.streams s) ((σ.exec cfg p c i).2.streams s) := by
  cases c with
  | xadd => exact absurd rfl (xadd _ _)
  | add => exact absurd rfl (add _ _ _)
  | loseStream => exact absurd rfl (lose _)
  | readerFailed =>
    simp only [State.exec, State.readerFailed]
    split_ifs <;> exact .refl _
  | discover =>
    simp only [State.exec, State.discover]
    split_ifs <;> exact .refl _
  | advance =>
    simp only [State.exec, State.advance]
    split <;> exact .refl _
  | xgroupCreate n stream =>
    refine alike_call ?_
    split_ifs
    · exact .refl _
    · exact alike_setStream .setGroup
  | xreadgroup =>
    simp only [State.exec, State.xreadgroup]
    split_ifs
    · exact alike_call alike_readGroup
    · exact .refl _
  | xpendingRange =>
    simp only [State.exec, State.xpendingRange]
    split_ifs
    · exact alike_call (.refl _)
    · exact .refl _
  | xautoclaim =>
    simp only [State.exec, State.xautoclaim]
    split_ifs
    · exact alike_call (alike_setStream .setGroup)
    · exact .refl _
  | xack => exact alike_call (alike_setStream .ack)
  | mark | seen | xrevrange | xread => exact alike_call (.refl _)
  | loseGroup => exact alike_setStream ⟨rfl, rfl⟩
  | _ => exact .refl _

theorem grows_exec (cfg : ℕ → RedisStreamsBackend) (h : Keeps c i) : Grows p c s σ (σ.exec cfg p c i).2 := by
  by_cases adds : (∃ n e, c = .xadd n e) ∨ ∃ stream fields m, c = .add stream fields m
  · rcases adds with ⟨n, e, rfl⟩ | ⟨stream, fields, m, rfl⟩
    · exact grows_xadd h ⟨_, _, _, rfl⟩
    · exact grows_xadd h ⟨_, _, _, rfl⟩
  · obtain ⟨l, hlog, records⟩ := State.extends_exec (σ := σ) (p := p) (c := c) (i := i) cfg
    refine .keep (alike_exec ?_ ?_ ?_) hlog records fun e he backend => ?_
    · rintro stream fields m rfl
      exact adds (.inr ⟨_, _, _, rfl⟩)
    · rintro n e rfl
      exact adds (.inl ⟨_, _, rfl⟩)
    · rintro stream rfl
      exact h
    · by_contra ha
      exact adds (Cmd.adds_of_records (records e he) (Option.isSome_iff_ne_none.2 ha))

end Exec

/-! ## The account of a position -/

/-- The fresh entries are those handed out and those after the position. -/
structure Accounted (backend : RedisStreamsBackend) (n : ℕ) (s : String) (r : EntryId) (σ : State) : Prop where
  fresh_eq : fresh backend n s σ.log = handed n s σ.log ++ backend.ahead (σ.streams s) r
  le : r ≤ (σ.streams s).lastId

/-- The messages come next after an accounted position. -/
def Ahead (backend : RedisStreamsBackend) (n : ℕ) (s : String) (messages : List (EntryId × Fields))
    (σ : State) : Prop :=
  ∃ r rest, Accounted backend n s r σ ∧ (σ.streams s).after r = messages.map Prod.fst ++ rest ∧
    ∀ m ∈ messages, (σ.streams s).entries m.1 = some m.2

/-- What an instance knows of a stream. -/
structure Cursored (backend : RedisStreamsBackend) (n : ℕ) (s : String) (σ : State) : Prop where
  sorted : (fresh backend n s σ.log).Pairwise (· < ·)
  bounded : ∀ id ∈ fresh backend n s σ.log, id ≤ (σ.streams s).lastId
  unknown : s ∉ (σ.instances n).streams → (σ.instances n).lastIds s = none
  unread : ∀ c, (σ.instances n).lastIds s = c → (∀ id, c ≠ some (.id id)) → handed n s σ.log = []
  read : ∀ id, (σ.instances n).lastIds s = some (.id id) → Accounted backend n s id σ

/-- The event neither hands out an entry of the stream nor discovers it. -/
def Event.Silent (n : ℕ) (s : String) (e : Event) : Prop := e.handing n s = none ∧ e ≠ .discovered n s

section Account

variable {cfg : ℕ → RedisStreamsBackend} {backend : RedisStreamsBackend} {σ σ' : State} {p n : ℕ} {c : Cmd}
  {i : Input} {s : String} {r id : EntryId} {fields : Fields} {messages : List (EntryId × Fields)}

theorem Cmd.silent {e : Event} (h : c.Records e) (advance : ∀ id fields, c ≠ .advance n s id fields)
    (hand : ∀ id, c ≠ .hand n s id) (discover : c ≠ .discover n s) : e.Silent n s := by
  cases e with
  | handed m s' id =>
    refine ⟨if_neg ?_, by simp⟩
    rintro ⟨rfl, rfl⟩
    cases c <;> simp_all [Cmd.Records]
  | discovered m s' =>
    refine ⟨rfl, ?_⟩
    rintro ⟨⟩
    cases c <;> simp_all [Cmd.Records]
  | _ => exact ⟨rfl, by simp⟩

theorem handed_grows (h : Grows p c s σ σ') (silent : ∀ e, c.Records e → e.Silent n s) :
    handed n s σ'.log = handed n s σ.log := by
  cases h with
  | add stream log =>
    rw [log, handed_cons]
    exact List.append_nil _
  | keep stream log records other =>
    rw [log, handed_append fun e he => (silent e (records e he)).1]

theorem Accounted.grows (h : Accounted backend n s r σ) (hg : Grows p c s σ σ')
    (silent : ∀ e, c.Records e → e.Silent n s) : Accounted backend n s r σ' := by
  cases hg with
  | @add fields m stream log =>
    refine ⟨?_, ?_⟩
    · rw [log, fresh_cons (by simp), handed_cons, h.fresh_eq, stream, ahead_add h.le]
      simp only [addition_added, Event.handing, Option.toList_none, List.append_nil, List.append_assoc]
      congr 2
      split_ifs <;> rfl
    · rw [stream, lastId_add]
      exact h.le.trans (Nat.le_succ _)
  | keep stream log records other =>
    refine ⟨?_, ?_⟩
    · rw [log, fresh_append (fun hd => (silent _ (records _ hd)).2 rfl) fun e he => other e he _,
        handed_append fun e he => (silent e (records e he)).1, stream.ahead, h.fresh_eq]
    · rw [stream.1]
      exact h.le

theorem Ahead.grows (h : Ahead backend n s messages σ) (hg : Grows p c s σ σ')
    (silent : ∀ e, c.Records e → e.Silent n s) : Ahead backend n s messages σ' := by
  obtain ⟨r, rest, accounted, after, entries⟩ := h
  have accounted' := accounted.grows hg silent
  cases hg with
  | @add fields m stream log =>
    refine ⟨r, rest ++ [(σ.streams s).lastId + 1], accounted', ?_, fun x hx => ?_⟩
    · rw [stream, after_add accounted.le, after, List.append_assoc]
    · have mem : x.1 ∈ (σ.streams s).after r := by
        rw [after]
        exact List.mem_append_left _ (List.mem_map_of_mem hx)
      obtain ⟨pos, le⟩ := Stream.mem_ids.1 (Stream.mem_after.1 mem).1
      rw [stream, entries_add pos, if_neg (Nat.ne_of_lt (Nat.lt_succ_of_le le)), entries x hx]
  | keep stream log records other =>
    refine ⟨r, rest, accounted', ?_, fun x hx => ?_⟩
    · rw [stream.after, after]
    · rw [stream.2, entries x hx]

theorem Cursored.grows (h : Cursored backend n s σ) (hg : Grows p c s σ σ')
    (silent : ∀ e, c.Records e → e.Silent n s)
    (lastIds : (σ'.instances n).lastIds s = (σ.instances n).lastIds s)
    (streams : s ∈ (σ.instances n).streams → s ∈ (σ'.instances n).streams) : Cursored backend n s σ' := by
  have place : (fresh backend n s σ'.log).Pairwise (· < ·) ∧
      ∀ id ∈ fresh backend n s σ'.log, id ≤ (σ'.streams s).lastId := by
    cases hg with
    | @add fields m stream log =>
      rw [log, fresh_cons (by simp), stream, lastId_add]
      have new : ∀ id ∈ (Event.addition backend s (.added s ((σ.streams s).lastId + 1) fields)).toList,
          id = (σ.streams s).lastId + 1 := by
        intro id hid
        rw [addition_added] at hid
        split_ifs at hid <;> simp_all
      refine ⟨List.pairwise_append.2 ⟨h.sorted, ?_, fun a ha b hb => ?_⟩, fun id hid => ?_⟩
      · rw [addition_added]
        split_ifs <;> simp
      · rw [new b hb]
        exact Nat.lt_succ_of_le (h.bounded a ha)
      · rcases List.mem_append.1 hid with hid | hid
        · exact (h.bounded id hid).trans (Nat.le_succ _)
        · exact (new id hid).le
    | keep stream log records other =>
      rw [log, fresh_append (fun hd => (silent _ (records _ hd)).2 rfl) fun e he => other e he _, stream.1]
      exact ⟨h.sorted, h.bounded⟩
  refine ⟨place.1, place.2, fun hs => ?_, fun c hc ne => ?_, fun id hid => ?_⟩
  · rw [lastIds]
    exact h.unknown (mt streams hs)
  · rw [handed_grows hg silent]
    exact h.unread c (lastIds ▸ hc) ne
  · exact (h.read id (lastIds ▸ hid)).grows hg silent

theorem ahead_cons {s : Stream Fields} {l : List EntryId} (h : s.after r = id :: l)
    (hf : s.entries id = some fields) :
    backend.ahead s r = (if backend.Decodable fields then [id] else []) ++ backend.ahead s id := by
  rw [RedisStreamsBackend.ahead, RedisStreamsBackend.ahead, h, after_of_cons h, List.filter_cons, hf]
  simp only [Option.mem_def, Option.some.injEq, exists_eq_left', decide_eq_true_eq]
  split_ifs <;> rfl

/-- The position moves on to the first of the messages ahead. -/
theorem Ahead.advance (h : Ahead backend n s ((id, fields) :: messages) σ) :
    Accounted backend n s id (σ.advance p n backend s id fields i).2 ∧
      Ahead backend n s messages (σ.advance p n backend s id fields i).2 := by
  obtain ⟨r, rest, accounted, after, entries⟩ := h
  have hf : (σ.streams s).entries id = some fields := entries (id, fields) (List.mem_cons_self ..)
  have after' : (σ.streams s).after id = messages.map Prod.fst ++ rest := after_of_cons after
  have streams : (σ.advance p n backend s id fields i).2.streams = σ.streams := by
    simp only [State.advance]
    split <;> rfl
  have hid : id ∈ (σ.streams s).after r := after ▸ List.mem_cons_self ..
  have moved : Accounted backend n s id (σ.advance p n backend s id fields i).2 := by
    refine ⟨?_, ?_⟩
    · have eq := accounted.fresh_eq
      rw [ahead_cons after hf] at eq
      rw [streams]
      simp only [State.advance]
      cases hd : backend.codec.decode i.uuid fields with
      | none =>
        have undecodable : ¬ backend.Decodable fields := by
          rw [RedisStreamsBackend.Decodable, ← backend.codec.fresh i.uuid, hd]
          simp
        rw [if_neg undecodable, List.nil_append] at eq
        exact eq
      | some e =>
        have decodable : backend.Decodable fields := by
          rw [RedisStreamsBackend.Decodable, ← backend.codec.fresh i.uuid, hd]
          rfl
        rw [if_pos decodable] at eq
        show fresh backend n s ((p, .handed n s id) :: σ.log) =
          handed n s ((p, .handed n s id) :: σ.log) ++ backend.ahead (σ.streams s) id
        rw [fresh_cons (by simp), handed_cons, eq]
        simp [Event.addition, Event.handing]
    · rw [streams]
      exact (Stream.mem_ids.1 (Stream.mem_after.1 hid).1).2
  refine ⟨moved, id, rest, moved, ?_, fun m hm => ?_⟩
  · rw [streams, after']
  · rw [streams]
    exact entries m (List.mem_cons_of_mem _ hm)

theorem fresh_advance {backend' : RedisStreamsBackend} :
    fresh backend' n s (σ.advance p n backend s id fields i).2.log = fresh backend' n s σ.log := by
  simp only [State.advance]
  split
  · show fresh backend' n s ((p, .handed n s id) :: σ.log) = _
    rw [fresh_cons (by simp)]
    exact List.append_nil _
  · rfl

theorem instances_advance : (σ.advance p n backend s id fields i).2.instances =
    (σ.setCursor n s (.id id)).instances := by
  simp only [State.advance]
  split <;> rfl

/-- Where a cursor may stand. -/
def Placed (backend : RedisStreamsBackend) (n : ℕ) (s : String) (cursor : Cursor) (σ : State) : Prop :=
  match cursor with
  | .id id => Accounted backend n s id σ
  | .tail => handed n s σ.log = []

theorem Placed.grows {cursor : Cursor} (h : Placed backend n s cursor σ) (hg : Grows p c s σ σ')
    (silent : ∀ e, c.Records e → e.Silent n s) : Placed backend n s cursor σ' := by
  cases cursor with
  | id id => exact Accounted.grows h hg silent
  | tail =>
    show handed n s σ'.log = []
    rw [handed_grows hg silent]
    exact h

end Account

/-! ## The contract -/

/-- What a command owes. -/
def Paces (cfg : ℕ → RedisStreamsBackend) (p : ℕ) (c : Cmd) (σ : State) : Prop :=
  match c with
  | .hand n _ _ => (cfg n).broadcast = false
  | .discover n _ => p = n
  | .setCursor n s cursor => p = n ∧ s ∈ (σ.instances n).streams ∧ Placed (cfg n) n s cursor σ
  | .advance n s id fields => p = n ∧ s ∈ (σ.instances n).streams ∧ Ahead (cfg n) n s [(id, fields)] σ
  | .beginXread n cursors => ∀ x ∈ cursors, Accounted (cfg n) n x.1 (σ.resolve x.1 x.2) σ
  | _ => True

/-- What an instance knows of its streams. -/
structure Broadcasting (backend : RedisStreamsBackend) (n : ℕ) (σ : State) : Prop where
  cursored : ∀ s, Cursored backend n s σ
  nodup : (σ.instances n).streams.Nodup
  unskipped : σ.log.Each fun _ e before => ∀ s r, e = .asked n s r →
    ∀ id ∈ fresh backend n s before, id ≤ r → id ∈ handed n s before

section Exec

variable {cfg : ℕ → RedisStreamsBackend} {σ : State} {p n m : ℕ} {c : Cmd} {i : Input} {s : String}

theorem lastIds_exec (setCursor : ∀ cursor, c ≠ .setCursor n s cursor)
    (advance : ∀ id fields, c ≠ .advance n s id fields) :
    ((σ.exec cfg p c i).2.instances n).lastIds s = (σ.instances n).lastIds s := by
  by_cases hc : c.changes = some n
  · have same : ∀ {x : Instance}, x.lastIds = (σ.instances n).lastIds →
        ((σ.setInstance n x).instances n).lastIds s = (σ.instances n).lastIds s := by
      intro x hx
      rw [State.instances_setInstance_self, hx]
    have moved : ∀ {s' : String} {cursor : Cursor}, s' ≠ s →
        ((σ.setCursor n s' cursor).instances n).lastIds s = (σ.instances n).lastIds s := by
      intro s' cursor ne
      show ((σ.setInstance n _).instances n).lastIds s = _
      rw [State.instances_setInstance_self]
      exact Function.update_of_ne ne.symm ..
    cases c with
    | start | stop | ready =>
      cases hc
      exact same rfl
    | readerFailed m =>
      cases hc
      simp only [State.exec, State.readerFailed]
      split_ifs
      · exact same rfl
      · rfl
    | discover m s' =>
      cases hc
      simp only [State.exec, State.discover]
      split_ifs
      · rfl
      · exact same rfl
    | setCursor m s' cursor =>
      cases hc
      exact moved fun heq => setCursor cursor (heq ▸ rfl)
    | advance m s' id fields =>
      cases hc
      have ne : s' ≠ s := fun heq => advance id fields (heq ▸ rfl)
      simp only [State.exec, State.advance]
      split <;> exact moved ne
    | _ => cases hc
  · rw [State.instances_exec cfg hc]

theorem Cursored.exec (h : Cursored (cfg n) n s σ) (hb : (cfg n).broadcast = true) (keeps : Keeps c i)
    (paces : Paces cfg p c σ) : Cursored (cfg n) n s (σ.exec cfg p c i).2 := by
  have other : (∀ cursor, c ≠ .setCursor n s cursor) → (∀ id fields, c ≠ .advance n s id fields) →
      c ≠ .discover n s → Cursored (cfg n) n s (σ.exec cfg p c i).2 := by
    intro setCursor advance discover
    refine h.grows (grows_exec cfg keeps) (fun e he => ?_) (lastIds_exec setCursor advance)
      (State.mem_streams_exec cfg)
    refine Cmd.silent he advance (fun id => ?_) discover
    rintro rfl
    rw [show (cfg n).broadcast = false from paces] at hb
    cases hb
  have cursor : ∀ cursor : Cursor, ((σ.setCursor n s cursor).instances n).lastIds s = some cursor := by
    intro cursor
    show ((σ.setInstance n _).instances n).lastIds s = _
    rw [State.instances_setInstance_self]
    exact Function.update_self ..
  cases c with
  | setCursor m s' c =>
    by_cases hm : m = n ∧ s' = s
    · obtain ⟨rfl, rfl⟩ := hm
      obtain ⟨-, known, placed⟩ := paces
      have known' : s' ∈ ((σ.setCursor m s' c).instances m).streams := State.mem_streams_exec
        cfg (c := .setCursor m s' c) (p := p) (i := i) known
      refine ⟨h.sorted, h.bounded, fun hs => absurd known' hs, fun c' hc' ne => ?_, fun id hid => ?_⟩
      · have hc : some c = c' := (cursor c).symm.trans hc'
        cases c with
        | id id => exact absurd hc.symm (ne id)
        | tail => exact placed
      · obtain rfl : c = .id id := Option.some.inj ((cursor c).symm.trans hid)
        have placed : Accounted (cfg m) m s' id σ := placed
        exact ⟨placed.fresh_eq, placed.le⟩
    · exact other (by simp_all) (by simp) (by simp)
  | advance m s' id fields =>
    by_cases hm : m = n ∧ s' = s
    · obtain ⟨rfl, rfl⟩ := hm
      obtain ⟨-, known, ahead⟩ := paces
      have known' : s' ∈ ((σ.advance p m (cfg m) s' id fields i).2.instances m).streams := State.mem_streams_exec
        cfg (c := .advance m s' id fields) (p := p) (i := i) known
      have lastIds : ((σ.advance p m (cfg m) s' id fields i).2.instances m).lastIds s' = some (.id id) := by
        rw [instances_advance]
        exact cursor (.id id)
      have streams : (σ.advance p m (cfg m) s' id fields i).2.streams = σ.streams := by
        simp only [State.advance]
        split <;> rfl
      show Cursored (cfg m) m s' (σ.advance p m (cfg m) s' id fields i).2
      refine ⟨?_, ?_, fun hs => absurd known' hs, fun c' hc' ne => ?_, fun id' hid' => ?_⟩
      · rw [fresh_advance]
        exact h.sorted
      · rw [fresh_advance, streams]
        exact h.bounded
      · exact absurd (hc'.symm.trans lastIds) (ne id)
      · obtain rfl : id = id' := by simpa using lastIds.symm.trans hid'
        exact ahead.advance.1
    · exact other (by simp) (by simp_all) (by simp)
  | discover m s' =>
    by_cases hm : m = n ∧ s' = s
    · obtain ⟨rfl, rfl⟩ := hm
      by_cases known : s' ∈ (σ.instances m).streams
      · have same : (σ.exec cfg p (.discover m s') i).2 = σ := by
          simp only [State.exec, State.discover]
          rw [if_pos known]
        rwa [same]
      · have unset := h.unknown known
        have nothing : handed m s' σ.log = [] := h.unread none unset (by simp)
        have lastIds : ((σ.exec cfg p (.discover m s') i).2.instances m).lastIds s' = none :=
          (lastIds_exec (c := .discover m s') (by simp) (by simp)).trans unset
        have log : (σ.exec cfg p (.discover m s') i).2.log = (p, .discovered m s') :: σ.log := by
          simp only [State.exec, State.discover]
          rw [if_neg known]
          rfl
        refine ⟨?_, ?_, fun _ => lastIds, fun _ _ _ => ?_, fun id hid => ?_⟩
        · rw [log, fresh_discovered]
          exact .nil
        · rw [log, fresh_discovered]
          exact fun x hx => absurd hx List.not_mem_nil
        · rw [log, handed_cons, nothing]
          rfl
        · rw [lastIds] at hid
          cases hid
    · exact other (by simp) (by simp) (by simp_all)
  | _ => exact other (by simp) (by simp) (by simp)

theorem nodup_exec (h : (σ.instances n).streams.Nodup) :
    ((σ.exec cfg p c i).2.instances n).streams.Nodup := by
  by_cases joins : c.Joins
  · have append : ∀ {s : String}, s ∉ (σ.instances n).streams → ((σ.instances n).streams ++ [s]).Nodup := by
      intro s hs
      rw [← List.concat_eq_append]
      exact h.concat hs
    cases c with
    | readerFailed m =>
      show ((σ.readerFailed p m).2.instances n).streams.Nodup
      rwa [State.streams_readerFailed]
    | ready m s reading =>
      show ((σ.setInstance m _).instances n).streams.Nodup
      by_cases hn : n = m
      · subst hn
        rw [State.instances_setInstance_self]
        dsimp only
        split_ifs with known
        · exact h
        · exact append known
      · rwa [State.instances_setInstance_of_ne hn]
    | discover m s =>
      by_cases hn : n = m
      · subst hn
        simp only [State.exec, State.discover]
        split_ifs with known
        · exact h
        · show ((σ.setInstance n _).instances n).streams.Nodup
          rw [State.instances_setInstance_self]
          exact append known
      · rwa [show (σ.exec cfg p (.discover m s) i).2.instances n = _ from State.instances_discover_of_ne hn]
    | _ => exact joins.elim
  · rwa [State.streams_exec joins]

/-- Every `XREAD` of a command asks for what comes after the entries handed out. -/
theorem unskipped_append {backend : RedisStreamsBackend} {h : History Event} {l : List Event}
    (each : h.Each fun _ e before => ∀ s r, e = .asked n s r →
      ∀ id ∈ fresh backend n s before, id ≤ r → id ∈ handed n s before)
    (new : ∀ s r, .asked n s r ∈ l → ∀ id ∈ fresh backend n s h, id ≤ r → id ∈ handed n s h)
    (plain : (∃ s r, Event.asked n s r ∈ l) → ∀ e ∈ l, ∃ m s r, e = .asked m s r) :
    History.Each (fun _ e before => ∀ s r, e = .asked n s r →
      ∀ id ∈ fresh backend n s before, id ≤ r → id ∈ handed n s before) ((l.map fun e => (p, e)) ++ h) := by
  induction l with
  | nil => exact each
  | cons e l ih =>
    refine (ih (fun s r hl => new s r (List.mem_cons_of_mem _ hl))
      fun asked e' he' => plain (asked.imp fun s => .imp fun r => List.mem_cons_of_mem _) e'
        (List.mem_cons_of_mem _ he')).cons ?_
    rintro s r rfl
    have others : ∀ e ∈ l, ∃ m s r, e = Event.asked m s r := fun e' he' =>
      plain ⟨s, r, List.mem_cons_self ..⟩ e' (List.mem_cons_of_mem _ he')
    rw [fresh_append, handed_append]
    · exact new s r (List.mem_cons_self ..)
    · intro e' he'
      obtain ⟨m, s', r', rfl⟩ := others e' he'
      rfl
    · intro hd
      obtain ⟨m, s', r', heq⟩ := others _ hd
      cases heq
    · intro e' he'
      obtain ⟨m, s', r', rfl⟩ := others e' he'
      rfl

theorem Broadcasting.exec (h : Broadcasting (cfg n) n σ) (hb : (cfg n).broadcast = true) (keeps : Keeps c i)
    (paces : Paces cfg p c σ) : Broadcasting (cfg n) n (σ.exec cfg p c i).2 := by
  refine ⟨fun s => (h.cursored s).exec hb keeps paces, nodup_exec h.nodup, ?_⟩
  by_cases asks : ∃ m cursors, c = .beginXread m cursors
  · obtain ⟨m, cursors, rfl⟩ := asks
    show History.Each _ (σ.recordAll p _).log
    rw [State.log_recordAll]
    refine unskipped_append h.unskipped (fun s r hl id hid le => ?_) fun _ e he => ?_
    · simp only [List.map_map, List.mem_reverse, List.mem_map, Function.comp_apply] at hl
      obtain ⟨x, hx, heq⟩ := hl
      cases heq
      have accounted : Accounted (cfg n) n x.1 (σ.resolve x.1 x.2) σ := paces x hx
      rw [accounted.fresh_eq] at hid
      refine (List.mem_append.1 hid).resolve_right fun later => ?_
      have lt := (Stream.mem_after.1 (List.mem_filter.1 later).1).2.1
      exact absurd le (Nat.not_le.2 lt)
    · simp only [List.map_map, List.mem_reverse, List.mem_map, Function.comp_apply] at he
      obtain ⟨x, -, rfl⟩ := he
      exact ⟨m, x.1, _, rfl⟩
  · obtain ⟨l, hlog, records⟩ := State.extends_exec (σ := σ) (p := p) (c := c) (i := i) cfg
    have none : ∀ s r, .asked n s r ∉ l := by
      intro s r hl
      have recorded := records _ hl
      cases c with
      | beginXread => exact asks ⟨_, _, rfl⟩
      | _ => simp [Cmd.Records] at recorded
    rw [hlog]
    refine unskipped_append h.unskipped (fun s r hl => absurd hl (none s r)) ?_
    rintro ⟨s, r, hl⟩
    exact absurd hl (none s r)

end Exec

/-- The contract of the backends. -/
def pacing (cfg : ℕ → RedisStreamsBackend) : Contract (backends cfg) where
  Inv σ := ∀ n, (cfg n).broadcast = true → Broadcasting (cfg n) n σ
  Ok := Unpassed cfg
  Guard p _ c _ σ := Paces cfg p c σ
  Post _ _ _ _ := True
  inv_exec {p o c i σ} inv ok paces n hb := by
    refine (inv n hb).exec hb ?_ paces
    cases c with
    | xadd | add | loseStream => exact ok.2
    | _ => trivial
  inv_note inv _ := inv
  inv_disturb _ inv n hb := ⟨fun s => ⟨((inv n hb).cursored s).sorted, ((inv n hb).cursored s).bounded,
    ((inv n hb).cursored s).unknown, ((inv n hb).cursored s).unread,
    fun id hid => ⟨(((inv n hb).cursored s).read id hid).fresh_eq, (((inv n hb).cursored s).read id hid).le⟩⟩,
    (inv n hb).nodup, (inv n hb).unskipped⟩

/-! ## The reader -/

section Reader

variable {cfg : ℕ → RedisStreamsBackend} {n : ℕ} {o : Call} {s stream : String} {id : EntryId} {fields : Fields}
  {messages : List (EntryId × Fields)}

theorem Unpassed.keeps {p : ℕ} {c : Cmd} {i : Input} {σ : State} (h : Unpassed cfg p o c i σ) : Keeps c i := by
  cases c with
  | xadd | add | loseStream => exact h.2
  | _ => trivial

/-- What the others do to a stream that an instance reads. -/
theorem other_paced (hb : (cfg n).broadcast = true) {σ σ' : (machine cfg).State}
    (h : (pacing cfg).Other n σ σ') : (∃ p c, Grows p c s σ σ' ∧ ∀ e, c.Records e → e.Silent n s) ∧
      (σ'.instances n).lastIds s = (σ.instances n).lastIds s ∧
      (s ∈ (σ.instances n).streams → s ∈ (σ'.instances n).streams) := by
  cases h with
  | @exec q o c i ne inv ok guard =>
    have advance : ∀ id fields, c ≠ .advance n s id fields := by
      rintro id fields rfl
      exact ne guard.1
    refine ⟨⟨q, c, grows_exec cfg ok.keeps, fun e he => Cmd.silent he advance ?_ ?_⟩,
      lastIds_exec ?_ advance, State.mem_streams_exec cfg⟩
    · rintro id rfl
      rw [show (cfg n).broadcast = false from guard] at hb
      cases hb
    · rintro rfl
      exact ne guard
    · rintro cursor rfl
      exact ne guard.1
  | note => exact ⟨⟨n, .sleep, .keep (l := []) (.refl _) rfl nofun nofun, nofun⟩, rfl, id⟩
  | disturb => exact ⟨⟨n, .sleep, .keep (l := []) (.refl _) rfl nofun nofun, nofun⟩, rfl, id⟩

/-- An assertion about a stream that survives whatever grows it, keeps its cursor and keeps it known. -/
theorem paced_stable (hb : (cfg n).broadcast = true) {A : State → Prop}
    (grows : ∀ {p c σ σ'}, Grows p c s σ σ' → (∀ e, c.Records e → e.Silent n s) →
      (σ'.instances n).lastIds s = (σ.instances n).lastIds s →
      (s ∈ (σ.instances n).streams → s ∈ (σ'.instances n).streams) → A σ → A σ') :
    (pacing cfg).Stable n A := by
  intro σ σ' hO h
  obtain ⟨⟨p, c, hg, silent⟩, lastIds, streams⟩ := other_paced (s := s) hb hO
  exact grows hg silent lastIds streams h

/-- The stream is known, and a cursor may stand there. -/
def PlacedAt (cfg : ℕ → RedisStreamsBackend) (n : ℕ) (s : String) (cursor : Cursor) (σ : State) : Prop :=
  s ∈ (σ.instances n).streams ∧ Placed (cfg n) n s cursor σ

theorem placedAt_stable (hb : (cfg n).broadcast = true) (cursor : Cursor) :
    (pacing cfg).Stable n (PlacedAt cfg n s cursor) :=
  paced_stable (s := s) hb fun hg silent _ streams h => ⟨streams h.1, h.2.grows hg silent⟩

/-- The same for several streams. -/
theorem all_stable (hb : (cfg n).broadcast = true) {β : Type} {l : List (String × β)}
    {A : String × β → State → Prop}
    (grows : ∀ x {p c σ σ'}, Grows p c x.1 σ σ' → (∀ e, c.Records e → e.Silent n x.1) →
      (σ'.instances n).lastIds x.1 = (σ.instances n).lastIds x.1 →
      (x.1 ∈ (σ.instances n).streams → x.1 ∈ (σ'.instances n).streams) → A x σ → A x σ') :
    (pacing cfg).Stable n fun σ => ∀ x ∈ l, A x σ := by
  intro σ σ' hO h x hx
  obtain ⟨⟨p, c, hg, silent⟩, lastIds, streams⟩ := other_paced (s := x.1) hb hO
  exact grows x hg silent lastIds streams (h x hx)

/-- The streams are known, and their messages come next. -/
def Upcoming (cfg : ℕ → RedisStreamsBackend) (n : ℕ) (results : List (String × List (EntryId × Fields)))
    (σ : State) : Prop :=
  ∀ x ∈ results, x.1 ∈ (σ.instances n).streams ∧ Ahead (cfg n) n x.1 x.2 σ

theorem upcoming_stable (hb : (cfg n).broadcast = true) (results : List (String × List (EntryId × Fields))) :
    (pacing cfg).Stable n (Upcoming cfg n results) :=
  all_stable (A := fun x σ => x.1 ∈ (σ.instances n).streams ∧ Ahead (cfg n) n x.1 x.2 σ) hb
    fun _ _ _ _ _ hg silent _ streams h => ⟨streams h.1, h.2.grows hg silent⟩

/-- The cursors of an instance. -/
def HasCursors (n : ℕ) (cursors : List (String × Cursor)) (σ : State) : Prop :=
  ∀ x ∈ cursors, (σ.instances n).lastIds x.1 = some x.2

theorem hasCursors_stable (hb : (cfg n).broadcast = true) (cursors : List (String × Cursor)) :
    (pacing cfg).Stable n (HasCursors n cursors) :=
  all_stable (A := fun x σ => (σ.instances n).lastIds x.1 = some x.2) hb
    fun _ _ _ _ _ _ _ lastIds _ h => lastIds.trans h

/-- The streams are known, and the positions that an `XREAD` reads after are accounted. -/
def Asks (cfg : ℕ → RedisStreamsBackend) (n : ℕ) (asked : List (String × EntryId)) (σ : State) : Prop :=
  ∀ x ∈ asked, x.1 ∈ (σ.instances n).streams ∧ Accounted (cfg n) n x.1 x.2 σ

theorem asks_stable (hb : (cfg n).broadcast = true) (asked : List (String × EntryId)) :
    (pacing cfg).Stable n (Asks cfg n asked) :=
  all_stable (A := fun x σ => x.1 ∈ (σ.instances n).streams ∧ Accounted (cfg n) n x.1 x.2 σ) hb
    fun _ _ _ _ _ hg silent _ streams h => ⟨streams h.1, h.2.grows hg silent⟩

/-- The command owes nothing. -/
def Cmd.Idle : Cmd → Prop
  | .hand _ _ _ | .discover _ _ | .setCursor _ _ _ | .advance _ _ _ _ | .beginXread _ _ => False
  | _ => True

theorem Cmd.Idle.paces {c : Cmd} (h : c.Idle) (p : ℕ) (σ : State) : Paces cfg p c σ := by
  cases c with
  | hand | discover | setCursor | advance | beginXread => exact h.elim
  | _ => trivial

theorem triple_idle {α : Type} {x : Task α} (hx : Prog.All Cmd.Idle x.run) :
    (pacing cfg).Triple n o (fun _ => True) x fun _ _ => True := by
  refine .of_all (Contract.Stable.const True) (fun {c i σ} idle _ _ _ => ?_) hx
  exact ⟨idle.paces n σ, trivial⟩

theorem paced_ask {c : Cmd} {A : State → Prop} {B : c.Reply → State → Prop} (stable : (pacing cfg).Stable n A)
    (after : ∀ r, (pacing cfg).Stable n (B r))
    (step : ∀ σ i, (∀ n, (cfg n).broadcast = true → Broadcasting (cfg n) n σ) → Unpassed cfg n o c i σ → A σ →
      Paces cfg n c σ ∧ B (σ.exec cfg n c i).1 (σ.exec cfg n c i).2) :
    (pacing cfg).Triple n o A (ask c) B :=
  .ask stable after step

/-! ### Entries -/

theorem Ahead.head (h : Ahead (cfg n) n s ((id, fields) :: messages) σ) : Ahead (cfg n) n s [(id, fields)] σ := by
  obtain ⟨r, rest, accounted, after, entries⟩ := h
  exact ⟨r, messages.map Prod.fst ++ rest, accounted, after,
    fun m hm => entries m (List.mem_singleton.1 hm ▸ List.mem_cons_self ..)⟩

theorem triple_broadcastEntry (hb : (cfg n).broadcast = true)
    {results : List (String × List (EntryId × Fields))} (other : s ∉ results.map Prod.fst) :
    (pacing cfg).Triple n o (Upcoming cfg n ((s, (id, fields) :: messages) :: results))
      (RedisStreamsBackend.broadcastEntry n s id fields) fun _ => Upcoming cfg n ((s, messages) :: results) := by
  have stable : ∀ results, (pacing cfg).Stable n (Upcoming cfg n results) := fun results =>
    upcoming_stable hb results
  refine .bind (paced_ask (c := .advance n s id fields) (stable _) (fun _ => stable ((s, messages) :: results))
    fun σ i _ ok h => ?_) fun r => ?_
  · obtain ⟨known, ahead⟩ := h _ (List.mem_cons_self ..)
    refine ⟨⟨rfl, known, ahead.head⟩, fun x hx => ?_⟩
    refine ⟨State.mem_streams_exec cfg (c := .advance n s id fields) ?_, ?_⟩
    · rcases List.mem_cons.1 hx with rfl | hx
      · exact known
      · exact (h x (List.mem_cons_of_mem _ hx)).1
    · rcases List.mem_cons.1 hx with rfl | hx
      · exact ahead.advance.2
      · refine (h x (List.mem_cons_of_mem _ hx)).2.grows (grows_exec cfg ok.keeps) fun e he => ?_
        have ne : s ≠ x.1 := fun heq => other (heq ▸ List.mem_map_of_mem hx)
        exact Cmd.silent he (by simp [ne]) (by simp) (by simp)
  · cases r with
    | none => exact .pure (stable _) fun _ _ h => h
    | some e =>
      refine .bind (paced_ask (c := .callback e) (stable _) (fun _ => stable ((s, messages) :: results))
        fun σ i _ _ h => ⟨trivial, h⟩) fun r => ?_
      exact .bind (triple_isolated (stable _)) fun _ => .pure (stable _) fun _ _ h => h

theorem triple_broadcastEach (hb : (cfg n).broadcast = true)
    {results : List (String × List (EntryId × Fields))} (other : s ∉ results.map Prod.fst) :
    (pacing cfg).Triple n o (Upcoming cfg n ((s, messages) :: results))
      (RedisStreamsBackend.broadcastEach n s messages) fun _ => Upcoming cfg n results := by
  induction messages with
  | nil => exact .pure (upcoming_stable hb results) fun _ _ h x hx => h x (List.mem_cons_of_mem _ hx)
  | cons m messages ih => exact .bind (triple_broadcastEntry hb other) fun _ => ih

theorem triple_broadcastAll (hb : (cfg n).broadcast = true)
    {results : List (String × List (EntryId × Fields))} (nodup : (results.map Prod.fst).Nodup) :
    (pacing cfg).Triple n o (Upcoming cfg n results) (RedisStreamsBackend.broadcastAll n results)
      fun _ _ => True := by
  induction results with
  | nil => exact .pure (Contract.Stable.const True) fun _ _ _ => trivial
  | cons r results ih =>
    obtain ⟨other, nodup⟩ := List.nodup_cons.1 nodup
    exact .bind (triple_broadcastEach hb other) fun _ => ih nodup

/-! ### Positions -/

theorem mem_cursors {σ : State} {cs : List (String × Cursor)} (h : σ.cursors n = some cs) :
    cs.map Prod.fst = (σ.instances n).streams ∧ HasCursors n cs σ := by
  unfold State.cursors at h
  have main : ∀ (streams : List String) cs, (streams.mapM fun stream =>
      ((σ.instances n).lastIds stream).map fun c => (stream, c)) = some cs →
        cs.map Prod.fst = streams ∧ HasCursors n cs σ := by
    intro streams
    induction streams with
    | nil =>
      rintro cs ⟨rfl⟩
      exact ⟨rfl, nofun⟩
    | cons stream streams ih =>
      intro cs h
      rw [List.mapM_cons] at h
      obtain ⟨c, hc, h⟩ := Option.bind_eq_some_iff.1 h
      obtain ⟨rest, hrest, ⟨rfl⟩⟩ := Option.bind_eq_some_iff.1 h
      obtain ⟨c', hc', rfl⟩ := Option.map_eq_some_iff.1 hc
      obtain ⟨names, has⟩ := ih rest hrest
      exact ⟨congrArg (stream :: ·) names, List.forall_mem_cons.2 ⟨hc', has⟩⟩
  exact main _ cs h

theorem accounted_cursor {σ : State} {i : Input} (hb : (cfg n).broadcast = true) {cs : List (String × Cursor)}
    (inv : ∀ n, (cfg n).broadcast = true → Broadcasting (cfg n) n σ)
    (ok : Unpassed cfg n o (.beginXread n cs) i σ) (has : HasCursors n cs σ) {x : String × Cursor} (hx : x ∈ cs) :
    x.1 ∈ (σ.instances n).streams ∧ Accounted (cfg n) n x.1 (σ.resolve x.1 x.2) σ := by
  obtain ⟨s, cursor⟩ := x
  have cursored := (inv n hb).cursored s
  have set : (σ.instances n).lastIds s = some cursor := has _ hx
  refine ⟨?_, ?_⟩
  · by_contra unknown
    rw [cursored.unknown unknown] at set
    cases set
  · cases cursor with
    | id id => exact cursored.read id set
    | tail =>
      have nothing : fresh (cfg n) n s σ.log = [] := ok.2 _ hx rfl
      have unread : handed n s σ.log = [] := cursored.unread _ set (by simp)
      have last : (σ.streams s).after (σ.streams s).lastId = [] := by
        refine List.eq_nil_iff_forall_not_mem.2 fun id hid => ?_
        obtain ⟨hid, lt, -⟩ := Stream.mem_after.1 hid
        exact absurd (Stream.mem_ids.1 hid).2 (Nat.not_le.2 lt)
      refine ⟨?_, le_refl _⟩
      rw [nothing, unread, RedisStreamsBackend.ahead]
      simp only [State.resolve, last]
      rfl

/-- An `XREAD` returns what comes after the positions asked for. -/
theorem upcoming_xread {σ : State} {i : Input} {count : ℕ} {asked : List (String × EntryId)}
    {results : List (String × List (EntryId × Fields))} (h : Asks cfg n asked σ)
    (hr : (σ.xread asked count i).1 = some results) :
    (results.map Prod.fst).Sublist (asked.map Prod.fst) ∧ Upcoming cfg n results σ := by
  unfold State.xread State.call at hr
  cases hf : i.fault with
  | none =>
    rw [hf] at hr
    cases hr
    refine ⟨?_, fun x hx => ?_⟩
    · rw [List.map_map]
      exact List.filter_sublist.map _
    · obtain ⟨a, ha, rfl⟩ := List.mem_map.1 hx
      obtain ⟨known, accounted⟩ := h a (List.mem_filter.1 ha).1
      refine ⟨known, a.2, ((σ.streams a.1).after a.2).drop count, accounted, ?_, fun m hm => ?_⟩
      · rw [Stream.filterMap_entries fun id hid => (Stream.mem_after.1 (List.mem_of_mem_take hid)).2.2,
          List.take_append_drop]
      · obtain ⟨id, -, hm⟩ := List.mem_filterMap.1 hm
        obtain ⟨fields, hf, rfl⟩ := Option.map_eq_some_iff.1 hm
        exact hf
  | _ =>
    rw [hf] at hr
    cases hr

/-- The end of a stream is a position when nothing was added since its discovery. -/
theorem placed_xrevrange {σ : State} {i : Input} {r : Option EntryId}
    (nothing : fresh (cfg n) n s σ.log = []) (unread : handed n s σ.log = [])
    (hr : (σ.xrevrange s i).1 = some r) : Accounted (cfg n) n s (r.getD 0) σ := by
  have hr : ((σ.streams s).after 0).getLast? = r := by
    unfold State.xrevrange State.call at hr
    cases hf : i.fault <;> rw [hf] at hr <;> cases hr
    rfl
  have ahead : (σ.streams s).after (r.getD 0) = [] := by
    refine List.eq_nil_iff_forall_not_mem.2 fun id hid => ?_
    obtain ⟨hid, lt, isSome⟩ := Stream.mem_after.1 hid
    have mem : id ∈ (σ.streams s).after 0 :=
      Stream.mem_after.2 ⟨hid, (Stream.mem_ids.1 hid).1, isSome⟩
    have le : id ≤ r.getD 0 := hr ▸ Stream.le_getLast (Stream.ids_sorted.filter _) mem
    exact absurd le (Nat.not_le.2 lt)
  refine ⟨?_, ?_⟩
  · rw [nothing, unread, RedisStreamsBackend.ahead, ahead]
    rfl
  · cases r with
    | none => exact Nat.zero_le _
    | some id => exact (Stream.mem_ids.1 (Stream.mem_after.1 (List.mem_of_getLast? hr)).1).2

theorem triple_resolveTailId (hb : (cfg n).broadcast = true) :
    (pacing cfg).Triple n o (PlacedAt cfg n s .tail) (RedisStreamsBackend.resolveTailId s)
      fun cursor => PlacedAt cfg n s cursor := by
  have stable : ∀ cursor, (pacing cfg).Stable n (PlacedAt cfg n s cursor) := fun cursor =>
    placedAt_stable hb cursor
  refine .bind (paced_ask (c := .xrevrange s)
    (B := fun r σ => PlacedAt cfg n s .tail σ ∧ ∀ x, r = some x → PlacedAt cfg n s (.id (x.getD 0)) σ)
    (stable _) (fun r _ _ hO h => ⟨stable _ hO h.1, fun x hx => stable _ hO (h.2 x hx)⟩)
    fun σ i _ ok h => ⟨trivial, ?_⟩) fun r => ?_
  · have nothing : (σ.xrevrange s i).1.isSome → fresh (cfg n) n s σ.log = [] := by
      intro hr
      refine ok.2 ?_
      unfold State.xrevrange State.call at hr
      cases hf : i.fault <;> rw [hf] at hr <;> simp_all
    have same : (σ.exec cfg n (.xrevrange s) i).2 = σ := by
      show (σ.call i _ σ).2 = σ
      unfold State.call
      cases i.fault <;> rfl
    rw [same]
    refine ⟨h, fun x hx => ⟨h.1, placed_xrevrange (nothing ?_) h.2 hx⟩⟩
    exact Option.isSome_iff_exists.2 ⟨x, hx⟩
  · rcases r with _ | _ | id
    · exact .pure (stable _) fun _ _ h => h.1
    · exact .pure (stable _) fun _ _ h => h.2 none rfl
    · exact .pure (stable _) fun _ _ h => h.2 (some id) rfl

theorem triple_discoverEach (hb : (cfg n).broadcast = true) (streams : List String) :
    (pacing cfg).Triple n o (fun _ => True) (RedisStreamsBackend.discoverEach n streams) fun _ _ => True := by
  induction streams with
  | nil => exact .pure (Contract.Stable.const True) fun _ _ h => h
  | cons s streams ih =>
    refine .bind (paced_ask (c := .discover n s) (B := fun new σ => new = true → PlacedAt cfg n s .tail σ)
      (Contract.Stable.const True) (fun _ _ _ hO h new => placedAt_stable hb _ hO (h new))
      fun σ i inv _ _ => ⟨rfl, fun new => ?_⟩) fun (new : Bool) => ?_
    · by_cases known : s ∈ (σ.instances n).streams
      · simp only [State.exec, State.discover] at new
        rw [if_pos known] at new
        cases new
      · have cursored := (inv n hb).cursored s
        have unread : handed n s σ.log = [] := cursored.unread _ (cursored.unknown known) (by simp)
        simp only [State.exec, State.discover]
        rw [if_neg known]
        refine ⟨?_, ?_⟩
        · show s ∈ ((σ.setInstance n _).instances n).streams
          rw [State.instances_setInstance_self]
          simp
        · show handed n s ((n, .discovered n s) :: σ.log) = []
          rw [handed_cons, unread]
          rfl
    cases new with
    | false => exact ih.pre fun _ _ _ => trivial
    | true =>
      refine .bind ((triple_resolveTailId hb).pre fun _ _ h => h rfl) fun cursor => ?_
      refine .bind (paced_ask (c := .setCursor n s cursor) (B := fun _ _ => True) (placedAt_stable hb cursor)
        (fun _ => Contract.Stable.const True) fun σ i _ _ h => ⟨⟨rfl, h⟩, trivial⟩) fun _ => ih

theorem triple_broadcastOnce (hb : (cfg n).broadcast = true) :
    (pacing cfg).Triple n o (fun _ => True) ((cfg n).broadcastOnce n) fun _ _ => True := by
  have refresh : (pacing cfg).Triple n o (fun _ => True) ((cfg n).refreshStreamsBroadcast n) fun _ _ => True := by
    unfold RedisStreamsBackend.refreshStreamsBroadcast
    split_ifs
    · exact .pure (Contract.Stable.const True) fun _ _ h => h
    refine .bind (triple_idle (all_ask trivial)) fun r => .bind (triple_discoverEach hb r.1) fun _ => ?_
    split_ifs
    · exact .throw
    · exact .pure (Contract.Stable.const True) fun _ _ h => h
  have read : (pacing cfg).Triple n o (fun _ => True) (do
      let names ← ask (.known n)
      if names.isEmpty then ask .sleep
      else
        let cursors ← orRaise (← ask (.cursors n))
        let asked ← ask (.beginXread n cursors)
        let results ← orRaise (← ask (.xread n asked))
        RedisStreamsBackend.broadcastAll n results) fun _ _ => True := by
    refine .bind (triple_idle (all_ask trivial)) fun names => ?_
    split_ifs
    · exact triple_idle (all_ask trivial)
    refine .bind (paced_ask (c := .cursors n)
      (B := fun r σ => ∀ cs, r = some cs → (cs.map Prod.fst).Nodup ∧ HasCursors n cs σ)
      (Contract.Stable.const True)
      (fun r _ _ hO h cs hr => ⟨(h cs hr).1, hasCursors_stable hb cs hO (h cs hr).2⟩)
      fun σ i inv _ _ => ⟨trivial, fun cs hr => ?_⟩) fun r => ?_
    · obtain ⟨names, has⟩ := mem_cursors hr
      exact ⟨names ▸ (inv n hb).nodup, has⟩
    refine .bind (triple_orRaise (B := fun cs σ => (cs.map Prod.fst).Nodup ∧ HasCursors n cs σ)
      (fun cs _ _ hO h => ⟨h.1, hasCursors_stable hb cs hO h.2⟩) fun cs hr σ h => h cs hr) fun cs => ?_
    refine .fact fun nodup => ?_
    refine .bind (paced_ask (c := .beginXread n cs)
      (B := fun asked σ => (asked.map Prod.fst).Nodup ∧ Asks cfg n asked σ) (hasCursors_stable hb cs)
      (fun asked _ _ hO h => ⟨h.1, asks_stable hb asked hO h.2⟩) fun σ i inv ok has => ?_) fun asked => ?_
    · have accounted : ∀ x ∈ cs, x.1 ∈ (σ.instances n).streams ∧
          Accounted (cfg n) n x.1 (σ.resolve x.1 x.2) σ := fun x hx => accounted_cursor hb inv ok has hx
      refine ⟨fun x hx => (accounted x hx).2, ?_, fun a ha => ?_⟩
      · show ((cs.map fun c => (c.1, σ.resolve c.1 c.2)).map Prod.fst).Nodup
        rwa [List.map_map]
      · obtain ⟨x, hx, rfl⟩ := List.mem_map.1 ha
        refine ⟨(accounted x hx).1, (accounted x hx).2.grows (grows_exec cfg ok.keeps) fun e he => ?_⟩
        exact Cmd.silent he (by simp) (by simp) (by simp)
    refine .fact fun nodup => ?_
    refine .bind (paced_ask (c := .xread n asked)
      (B := fun r σ => ∀ results, r = some results → (results.map Prod.fst).Nodup ∧ Upcoming cfg n results σ)
      (asks_stable hb asked)
      (fun r _ _ hO h results hr => ⟨(h results hr).1, upcoming_stable hb results hO (h results hr).2⟩)
      fun σ i _ _ asks => ⟨trivial, fun results hr => ?_⟩) fun r => ?_
    · have same : (σ.exec cfg n (.xread n asked) i).2 = σ := by
        show (σ.call i _ σ).2 = σ
        unfold State.call
        cases i.fault <;> rfl
      obtain ⟨sublist, upcoming⟩ := upcoming_xread asks hr
      rw [same]
      exact ⟨nodup.sublist sublist, upcoming⟩
    refine .bind (triple_orRaise (B := fun results σ => (results.map Prod.fst).Nodup ∧ Upcoming cfg n results σ)
      (fun results _ _ hO h => ⟨h.1, upcoming_stable hb results hO h.2⟩) fun results hr σ h => h results hr)
      fun results => .fact fun nodup => triple_broadcastAll hb nodup
  refine .bind (triple_idle (all_ensureConnection trivial)) fun _ => ?_
  refine .bind (triple_idle (all_ask trivial)) fun (due : Bool) => ?_
  cases due with
  | false => exact read
  | true => exact .bind refresh fun _ => read

end Reader

/-! ## The tasks -/

section Tasks

variable {cfg : ℕ → RedisStreamsBackend} {p n : ℕ} {o : Call}

theorem Cmd.paces_of_issues {c : Cmd} (h : o.Issues cfg c)
    (start : ∀ n, o = .start n → (cfg n).broadcast = false)
    (reader : ∀ n, o = .reader n → (cfg n).broadcast = false) (σ : State) : Paces cfg p c σ := by
  cases o with
  | start n =>
    cases c with
    | hand | discover | setCursor | advance | beginXread =>
      simp [Call.Issues, Cmd.Starts, Cmd.Ensures, start n rfl] at h
    | _ => trivial
  | close n =>
    obtain rfl : c = .stop n := h
    trivial
  | publish n e =>
    cases c with
    | hand | discover | setCursor | advance | beginXread => exact h.elim
    | _ => trivial
  | reader n =>
    have hb := reader n rfl
    rcases h with rfl | h
    · trivial
    rw [if_neg (by simp [hb])] at h
    rcases h with rfl | h
    · trivial
    cases c with
    | hand m s id =>
      obtain rfl : m = n := h.resolve_right fun hr => hr
      exact hb
    | discover | setCursor | advance | beginXread => exact (or_self_iff.1 h).elim
    | _ => trivial
  | sweeper n =>
    obtain ⟨hb, rfl | h⟩ := h
    · trivial
    cases c with
    | hand m s id =>
      obtain rfl : m = n := h
      exact hb
    | discover | setCursor | advance | beginXread => exact h.elim
    | _ => trivial
  | foreign f =>
    obtain rfl : c = f.cmd := h
    cases f <;> trivial

theorem triple_startConsumer (hb : (cfg n).broadcast = true) :
    (pacing cfg).Triple n o (fun _ => True) ((cfg n).startConsumer n) fun _ _ => True := by
  refine .bind (triple_idle (all_ask trivial)) fun _ => ?_
  split_ifs
  · exact .bind (triple_idle (all_ensureConnection trivial)) fun _ => triple_discoverEach hb _
  · exact .pure (Contract.Stable.const True) fun _ _ h => h

theorem pacing_safe (p : ℕ) (o : Call) (σ : State) (inv : (pacing cfg).Inv σ) :
    (pacing cfg).Safe p o (o.code cfg) (fun _ _ => True) σ := by
  have alien : ¬ Sole p o → (pacing cfg).Safe p o (o.code cfg) (fun _ _ => True) σ := fun alien =>
    safe_issues fun _ _ _ _ _ ok => absurd ok.1 alien
  cases o with
  | start n =>
    cases hb : (cfg n).broadcast with
    | false => exact safe_issues fun c _ σ h _ _ => Cmd.paces_of_issues h (by simpa using hb) (by simp) σ
    | true =>
      by_cases hp : p = n
      · subst hp
        exact safe_map ((triple_startConsumer hb).safe inv trivial)
      · exact alien hp
  | reader n =>
    cases hb : (cfg n).broadcast with
    | false => exact safe_issues fun c _ σ h _ _ => Cmd.paces_of_issues h (by simp) (by simpa using hb) σ
    | true =>
      by_cases hp : p = n
      · subst hp
        refine safe_map ?_
        rw [RedisStreamsBackend.readerTurn, if_pos hb]
        exact safe_turn (A := fun _ => True) (Contract.Stable.const True) (fun _ _ _ _ => trivial)
          (triple_broadcastOnce hb) (fun σ _ => fun _ _ _ _ _ => ⟨trivial, fun _ _ _ => trivial⟩) trivial
      · exact alien hp
  | _ => exact safe_issues fun c _ σ h _ _ => Cmd.paces_of_issues h (by simp) (by simp) σ

end Tasks

theorem pacing_start (cfg : ℕ → RedisStreamsBackend) : (pacing cfg).Inv (start cfg).shared :=
  fun _ _ => ⟨fun _ => ⟨.nil, nofun, fun _ => rfl, fun _ _ _ => rfl, nofun⟩, .nil, .nil _⟩

/-- Where no position from the end of a stream passes a fresh entry, every broadcast hands out the fresh
entries of its streams once and in order, and its `XREAD`s skip none of them. -/
theorem broadcast_delivers (cfg : ℕ → RedisStreamsBackend) (P : Pool (backends cfg))
    (h : Pool.Reach (Pool.Meets (Unpassed cfg)) (start cfg) P) (n : ℕ) (hb : (cfg n).broadcast = true) :
    Delivered (cfg n) n P.shared := by
  have inv := (within_of_reach (pacing_start cfg) pacing_safe h).inv n hb
  refine ⟨fun s => ⟨(inv.cursored s).sorted, ?_⟩, inv.unskipped⟩
  by_cases read : ∃ id, (P.shared.instances n).lastIds s = some (.id id)
  · obtain ⟨id, hid⟩ := read
    rw [((inv.cursored s).read id hid).fresh_eq]
    exact List.prefix_append _ _
  · rw [(inv.cursored s).unread _ rfl fun id hid => read ⟨id, hid⟩]
    exact List.nil_prefix

namespace Shop

/-- An instance that broadcasts the orders. -/
def broadcaster (n : ℕ) : RedisStreamsBackend :=
  { consumer := toString n, codec, streams := some [orders], broadcast := true }

/-- Redis answers about the orders. -/
def answered : Input := { names := [orders] }

end Shop

open Shop in
/-- Two orders are handed out, with a failed `XREAD` between them. -/
theorem broadcast_delivers_witness : ∃ P : Pool (backends broadcaster),
    handed 0 orders P.shared.log = [1, 2] ∧ Delivered (broadcaster 0) 0 P.shared := by
  have run : ∃ P ∈ (start broadcaster).runIf (Unpassed broadcaster)
      (whole 0 (.start 0) 5 {} ++ whole 1 (.publish 1 (order "a")) 2 {} ++ whole 0 (.reader 0) 9 answered ++
        whole 1 (.publish 1 (order "b")) 2 {} ++ .call 0 (.reader 0) :: steps 0 6 {} ++
        steps 0 2 { fault := .lost } ++ .ret 0 :: whole 0 (.reader 0) 9 answered),
      handed 0 orders P.shared.log = [1, 2] := by decide +kernel
  obtain ⟨P, hP, both⟩ := run
  exact ⟨P, both, broadcast_delivers broadcaster P (.of_runIf hP) 0 rfl⟩

/-- Nothing is trimmed or lost. -/
def Untrimmed (_cfg : ℕ → RedisStreamsBackend) (p : ℕ) (o : Call) (c : Cmd) (i : Input) (_σ : State) : Prop :=
  Sole p o ∧ Keeps c i

instance (cfg : ℕ → RedisStreamsBackend) (p : ℕ) (o : Call) (c : Cmd) (i : Input) (σ : State) :
    Decidable (Untrimmed cfg p o c i σ) := by
  cases c <;> unfold Untrimmed Keeps <;> infer_instance

open Shop in
/-- The `XREVRANGE` of the discovery fails, and an order is added between two `XREAD`s from `$`. -/
theorem broadcast_skips : ¬ ∀ P : Pool (backends broadcaster),
    Pool.Reach (Pool.Meets (Untrimmed broadcaster)) (start broadcaster) P →
      ∀ n, (broadcaster n).broadcast = true → Delivered (broadcaster n) n P.shared := by
  intro h
  have run : ∃ P ∈ (start broadcaster).runIf (Untrimmed broadcaster)
      (.call 0 (.start 0) :: steps 0 3 {} ++ steps 0 1 { fault := .lost } ++ steps 0 1 {} ++
        .ret 0 :: whole 0 (.reader 0) 7 {} ++ whole 1 (.publish 1 (order "a")) 2 {} ++
        .call 0 (.reader 0) :: steps 0 6 {}),
      P.shared.log.head? = some (0, .asked 0 orders 1) ∧ 1 ∈ fresh (broadcaster 0) 0 orders P.shared.log.tail ∧
        1 ∉ handed 0 orders P.shared.log.tail := by decide +kernel
  obtain ⟨P, hP, head, added, unhanded⟩ := run
  obtain ⟨before, hlog⟩ := List.head?_eq_some_iff.1 head
  rw [hlog] at added unhanded
  exact unhanded ((h P (.of_runIf hP) 0 rfl).unskipped [] 0 _ before hlog orders 1 rfl 1 added (le_refl 1))

end NavigatorEventbus.Bus.Streams
