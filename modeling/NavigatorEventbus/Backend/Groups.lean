import NavigatorEventbus.Backend.Footprint

/-!
# The groups of the read set

After a failure the reader of a group forgets which groups exist, but its refresh only ensures the groups of
streams that it does not know yet.  So at an `XREADGROUP` every stream of the read set has had its group
ensured since the last failure exactly when a publish or a restart has ensured those that were known at the
failure (`groups_ensured_iff`).
-/

namespace NavigatorEventbus.Bus.Streams

open Interleave

/-! ## What holds -/

/-- The event is a failure of the reader of an instance. -/
def Event.Fails (n : ℕ) : Event → Prop
  | .failed m _ => m = n
  | _ => False

instance (n : ℕ) (e : Event) : Decidable (e.Fails n) := by
  cases e <;> unfold Event.Fails <;> infer_instance

/-- The events since the last failure of the reader of an instance. -/
def sinceFailure (n : ℕ) (h : History Event) : List Event :=
  (h.map Prod.snd).takeWhile fun e => ¬ e.Fails n

/-- The streams that an instance knew at the last failure of its reader. -/
def knownAtFailure (n : ℕ) : History Event → List String
  | [] => []
  | (_, .failed m known) :: h => if m = n then known else knownAtFailure n h
  | _ :: h => knownAtFailure n h

/-- The group of a stream has been ensured since the last failure. -/
def EnsuredSince (n : ℕ) (stream : String) (h : History Event) : Prop :=
  ∃ reading, .ensured n stream reading ∈ sinceFailure n h

instance (n : ℕ) (stream : String) (h : History Event) : Decidable (EnsuredSince n stream h) :=
  decidable_of_iff (.ensured n stream false ∈ sinceFailure n h ∨ .ensured n stream true ∈ sinceFailure n h)
    (by simp [EnsuredSince])

/-- A publish or a start has ensured the group of a stream since the last failure. -/
def EnsuredByOthers (n : ℕ) (stream : String) (h : History Event) : Prop :=
  .ensured n stream false ∈ sinceFailure n h

instance (n : ℕ) (stream : String) (h : History Event) : Decidable (EnsuredByOthers n stream h) :=
  inferInstanceAs (Decidable (_ ∈ _))

/-- The read set of the `XREADGROUP` that the reader of an instance is about to issue. -/
def readSet (n : ℕ) : Actor commands Call Result Unit → Option (List String)
  | .calling (.reader m) (.op (.xreadgroup m' names) _) => if m = n ∧ m' = n then some names else none
  | _ => none

theorem readSet_eq_some {n : ℕ} {a : Actor commands Call Result Unit} {names : List String}
    (h : readSet n a = some names) : ∃ k, a = .calling (.reader n) (.op (.xreadgroup n names) k) := by
  unfold readSet at h
  split at h
  · split_ifs at h with hn
    obtain ⟨rfl, rfl⟩ := hn
    cases h
    exact ⟨_, rfl⟩
  · cases h

/-! ## The contract -/

section Failures

variable {n p : ℕ} {e : Event} {h : History Event} {l : List Event} {stream : String}

theorem sinceFailure_cons (quiet : ¬ e.Fails n) : sinceFailure n ((p, e) :: h) = e :: sinceFailure n h := by
  simp [sinceFailure, quiet]

theorem knownAtFailure_cons (quiet : ¬ e.Fails n) : knownAtFailure n ((p, e) :: h) = knownAtFailure n h := by
  cases e with
  | failed m known => exact if_neg quiet
  | _ => rfl

theorem knownAtFailure_append (quiet : ∀ e ∈ l, ¬ e.Fails n) :
    knownAtFailure n ((l.map fun e => (p, e)) ++ h) = knownAtFailure n h := by
  induction l with
  | nil => rfl
  | cons e l ih =>
    rw [List.map_cons, List.cons_append, knownAtFailure_cons (quiet e (List.mem_cons_self ..)),
      ih fun e he => quiet e (List.mem_cons_of_mem _ he)]

theorem sinceFailure_append (quiet : ∀ e ∈ l, ¬ e.Fails n) :
    sinceFailure n ((l.map fun e => (p, e)) ++ h) = l ++ sinceFailure n h := by
  induction l with
  | nil => rfl
  | cons e l ih =>
    rw [List.map_cons, List.cons_append, sinceFailure_cons (quiet e (List.mem_cons_self ..)),
      ih fun e he => quiet e (List.mem_cons_of_mem _ he), List.cons_append]

end Failures

/-- What an instance knows of the groups of its streams. -/
structure Joined (n : ℕ) (σ : State) : Prop where
  ensured : ∀ s ∈ (σ.instances n).streams, EnsuredSince n s σ.log ∨ s ∈ knownAtFailure n σ.log
  kept : ∀ s ∈ knownAtFailure n σ.log, s ∈ (σ.instances n).streams
  fresh : ∀ s, .ensured n s true ∈ sinceFailure n σ.log → s ∉ knownAtFailure n σ.log

section Exec

variable {cfg : ℕ → RedisStreamsBackend} {σ σ' : State} {p n m : ℕ} {c : Cmd} {i : Input} {stream : String}

theorem Cmd.eq_readerFailed {e : Event} (h : c.Records e) (fails : e.Fails n) : c = .readerFailed n := by
  cases e with
  | failed m known =>
    obtain rfl : m = n := fails
    cases c <;> simp_all [Cmd.Records]
  | _ => exact fails.elim

theorem knownAtFailure_exec (h : c ≠ .readerFailed n) :
    knownAtFailure n (σ.exec cfg p c i).2.log = knownAtFailure n σ.log := by
  obtain ⟨l, hlog, records⟩ := State.extends_exec (σ := σ) (p := p) (c := c) (i := i) cfg
  rw [hlog]
  exact knownAtFailure_append fun e he fails => h (Cmd.eq_readerFailed (records e he) fails)

/-- Events that neither fail the reader nor ensure a group. -/
theorem Joined.quiet {l : List Event} (h : Joined n σ)
    (streams : (σ'.instances n).streams = (σ.instances n).streams)
    (hlog : σ'.log = (l.map fun e => (p, e)) ++ σ.log)
    (quiet : ∀ e ∈ l, ¬ e.Fails n ∧ ∀ s b, e ≠ .ensured n s b) : Joined n σ' := by
  have since : sinceFailure n σ'.log = l ++ sinceFailure n σ.log := by
    rw [hlog, sinceFailure_append fun e he => (quiet e he).1]
  have known : knownAtFailure n σ'.log = knownAtFailure n σ.log := by
    rw [hlog, knownAtFailure_append fun e he => (quiet e he).1]
  refine ⟨fun s hs => ?_, fun s hs => ?_, fun s hs => ?_⟩
  · rw [streams] at hs
    rw [known, EnsuredSince, since]
    exact (h.ensured s hs).imp_left fun ⟨b, hb⟩ => ⟨b, List.mem_append_right _ hb⟩
  · rw [known] at hs
    rw [streams]
    exact h.kept s hs
  · rw [since] at hs
    rw [known]
    exact h.fresh s ((List.mem_append.1 hs).resolve_left fun he => (quiet _ he).2 s true rfl)

end Exec

/-- What a command owes: the reader's refresh ensures only groups of streams that were not known at the last
failure, and an `XREADGROUP` is as stated. -/
def Owes (cfg : ℕ → RedisStreamsBackend) (p : ℕ) (c : Cmd) (σ : State) : Prop :=
  match c with
  | .ready n stream reading => reading = true → stream ∉ knownAtFailure n σ.log
  | .discover n _ => (cfg n).broadcast = true
  | .readerFailed n => p = n
  | .xreadgroup n names => (∀ s ∈ names, EnsuredSince n s σ.log) ↔
      ∀ s ∈ knownAtFailure n σ.log, EnsuredByOthers n s σ.log
  | _ => True

section Exec

variable {cfg : ℕ → RedisStreamsBackend} {σ : State} {p n : ℕ} {c : Cmd} {i : Input}

theorem Joined.exec (h : Joined n σ) (hn : (cfg n).broadcast = false) (owed : Owes cfg p c σ) :
    Joined n (σ.exec cfg p c i).2 := by
  by_cases joins : c.Joins
  · cases c with
    | ready m stream reading =>
      by_cases hm : m = n
      · subst hm
        have since : sinceFailure m (σ.exec cfg p (.ready m stream reading) i).2.log =
            .ensured m stream reading :: sinceFailure m σ.log := sinceFailure_cons (by simp [Event.Fails])
        refine ⟨fun s hs => ?_, fun s hs => State.mem_streams_exec cfg (h.kept s hs), fun s hs => ?_⟩
        · rw [EnsuredSince, since]
          rcases State.mem_streams_ready.1 hs with hs | ⟨-, rfl⟩
          · exact (h.ensured s hs).imp_left fun ⟨b, hb⟩ => ⟨b, List.mem_cons_of_mem _ hb⟩
          · exact .inl ⟨reading, List.mem_cons_self ..⟩
        · rw [since] at hs
          rcases List.mem_cons.1 hs with heq | hs
          · cases heq
            exact owed rfl
          · exact h.fresh s hs
      · refine h.quiet (l := [.ensured m stream reading]) ?_ rfl ?_
        · exact congrArg Instance.streams (State.instances_setInstance_of_ne (Ne.symm hm))
        · simp [Event.Fails, hm]
    | readerFailed m =>
      by_cases hm : m = n
      · subst hm
        have since : sinceFailure m (σ.readerFailed p m).2.log = [] := by
          rw [State.log_readerFailed]
          simp [sinceFailure, Event.Fails]
        have known : knownAtFailure m (σ.readerFailed p m).2.log = (σ.instances m).streams := by
          rw [State.log_readerFailed]
          exact if_pos rfl
        show Joined m (σ.readerFailed p m).2
        refine ⟨fun s hs => .inr ?_, fun s hs => ?_, fun s hs => ?_⟩
        · rwa [State.streams_readerFailed, ← known] at hs
        · rw [known] at hs
          rwa [State.streams_readerFailed]
        · rw [since] at hs
          cases hs
      · refine h.quiet (l := [.failed m (σ.instances m).streams]) State.streams_readerFailed State.log_readerFailed ?_
        simp [Event.Fails, hm]
    | discover m stream =>
      have ne : n ≠ m := by
        rintro rfl
        rw [show (cfg n).broadcast = true from owed] at hn
        cases hn
      obtain ⟨l, hlog, records⟩ := State.extends_exec (σ := σ) (p := p) (c := .discover m stream) (i := i) cfg
      refine h.quiet (congrArg Instance.streams (State.instances_discover_of_ne ne)) hlog fun e he => ?_
      rw [show e = .discovered m stream from records e he]
      simp [Event.Fails]
    | _ => exact joins.elim
  · obtain ⟨l, hlog, records⟩ := State.extends_exec (σ := σ) (p := p) (c := c) (i := i) cfg
    refine h.quiet (State.streams_exec joins) hlog fun e he => ⟨fun fails => ?_, ?_⟩
    · rw [Cmd.eq_readerFailed (records e he) fails] at joins
      exact joins trivial
    · rintro s b rfl
      have recorded := records _ he
      cases c with
      | ready => exact joins trivial
      | _ => simp [Cmd.Records] at recorded

end Exec

/-- Every instance has one reader. -/
def OneReader (_cfg : ℕ → RedisStreamsBackend) (p : ℕ) (o : Call) (_c : Cmd) (_i : Input) (_σ : State) : Prop :=
  match o with
  | .reader n => p = n
  | _ => True

instance (cfg : ℕ → RedisStreamsBackend) (p : ℕ) (o : Call) (c : Cmd) (i : Input) (σ : State) :
    Decidable (OneReader cfg p o c i σ) := by
  apply o.casesOn (motive := fun o => Decidable (OneReader cfg p o c i σ)) <;> intros <;>
    dsimp only [OneReader] <;> infer_instance

/-- The contract of the backends. -/
def joining (cfg : ℕ → RedisStreamsBackend) : Contract (backends cfg) where
  Inv σ := ∀ n, (cfg n).broadcast = false → Joined n σ
  Ok p o c i σ := OneReader cfg p o c i σ
  Guard p _ c _ σ := Owes cfg p c σ
  Post _ _ _ _ := True
  inv_exec inv _ owed n hn := (inv n hn).exec hn owed
  inv_note inv _ := inv
  inv_disturb _ inv n hn := ⟨(inv n hn).ensured, (inv n hn).kept, (inv n hn).fresh⟩

/-! ## The reader of a group -/

section Reader

variable {cfg : ℕ → RedisStreamsBackend} {n : ℕ} {o : Call} {stream : String} {names : List String}

/-- What the others do to an instance whose reader this is: its failures stay the same, and its streams stay
known. -/
theorem other_joined {σ σ' : (machine cfg).State} (h : (joining cfg).Other n σ σ') :
    knownAtFailure n σ'.log = knownAtFailure n σ.log ∧
      ∀ s ∈ (σ.instances n).streams, s ∈ (σ'.instances n).streams := by
  cases h with
  | @exec q o c i ne inv ok guard =>
    refine ⟨knownAtFailure_exec ?_, fun s hs => State.mem_streams_exec cfg hs⟩
    rintro rfl
    exact ne guard
  | note => exact ⟨rfl, fun _ hs => hs⟩
  | disturb => exact ⟨rfl, fun _ hs => hs⟩

/-- The stream was not known at the last failure. -/
def Unknown (n : ℕ) (stream : String) (σ : State) : Prop := stream ∉ knownAtFailure n σ.log

theorem unknown_stable : (joining cfg).Stable n (Unknown n stream) := by
  intro σ σ' hO h
  rwa [Unknown, (other_joined hO).1]

/-- The read set. -/
def Reads (n : ℕ) (names : List String) (σ : State) : Prop :=
  (∀ s ∈ knownAtFailure n σ.log, s ∈ names) ∧ ∀ s ∈ names, s ∈ (σ.instances n).streams

theorem reads_stable : (joining cfg).Stable n (Reads n names) := by
  intro σ σ' hO h
  obtain ⟨same, known⟩ := other_joined hO
  refine ⟨fun s hs => ?_, fun s hs => known s (h.2 s hs)⟩
  rw [same] at hs
  exact h.1 s hs

/-- What an `XREADGROUP` of a read set owes. -/
theorem Joined.reads {σ : State} (h : Joined n σ) (reads : Reads n names σ) :
    (∀ s ∈ names, EnsuredSince n s σ.log) ↔ ∀ s ∈ knownAtFailure n σ.log, EnsuredByOthers n s σ.log := by
  constructor
  · intro all s hs
    obtain ⟨reading, he⟩ := all s (reads.1 s hs)
    cases reading with
    | false => exact he
    | true => exact absurd hs (h.fresh s he)
  · intro all s hs
    rcases h.ensured s (reads.2 s hs) with ensured | known
    · exact ensured
    · exact ⟨false, all s known⟩

/-- The command owes nothing. -/
def Cmd.Settled : Cmd → Prop
  | .readerFailed _ | .discover _ _ | .xreadgroup _ _ => False
  | .ready _ _ reading => reading = false
  | _ => True

theorem Cmd.Settled.owes {c : Cmd} (h : c.Settled) (p : ℕ) (σ : State) : Owes cfg p c σ := by
  cases c with
  | ready n stream reading =>
    rintro rfl
    exact absurd h nofun
  | readerFailed | discover | xreadgroup => exact h.elim
  | _ => trivial

theorem triple_settled {α : Type} {x : Task α} (hx : Prog.All Cmd.Settled x.run) :
    (joining cfg).Triple n o (fun _ => True) x fun _ _ => True := by
  refine .of_all (Contract.Stable.const True) (fun {c i σ} settled _ _ _ => ?_) hx
  exact ⟨settled.owes n σ, trivial⟩

theorem triple_joinEach (joined : (cfg n).broadcast = false) (streams : List String) :
    (joining cfg).Triple n o (fun _ => True) (RedisStreamsBackend.joinEach n streams) fun _ _ => True := by
  induction streams with
  | nil => exact .pure (Contract.Stable.const True) fun _ _ h => h
  | cons stream streams ih =>
    refine .bind (B := fun known σ => known = false → Unknown n stream σ)
      (.ask (Contract.Stable.const True) (fun _ _ _ hO h known => unknown_stable hO (h known))
        fun σ i inv _ _ => ⟨trivial, fun known failed => ?_⟩) fun (known : Bool) => ?_
    · exact absurd ((inv n joined).kept stream failed) (of_decide_eq_false known)
    cases known with
    | true => exact ih.pre fun _ _ _ => trivial
    | false =>
      refine .bind (.pre (A := Unknown n stream) ?_ fun _ _ h => h rfl) fun _ => ih
      refine .bind (.ask (B := fun _ => Unknown n stream) unknown_stable (fun _ => unknown_stable)
        fun σ i _ _ h => ⟨trivial, h⟩) fun (ready : Bool) => ?_
      cases ready with
      | true => exact .pure (Contract.Stable.const True) fun _ _ _ => trivial
      | false =>
        refine .bind (.ask (B := fun _ => Unknown n stream) unknown_stable (fun _ => unknown_stable)
          fun σ i _ _ h => ⟨trivial, ?_⟩) fun r => ?_
        · rwa [Unknown, knownAtFailure_exec (by simp)]
        cases r with
        | none => exact .throw
        | some _ =>
          refine .bind (B := fun _ => Unknown n stream) (.pure unknown_stable fun _ _ h => h) fun _ => ?_
          exact .ask unknown_stable (fun _ => Contract.Stable.const True) fun σ i _ _ h => ⟨fun _ => h, trivial⟩

theorem triple_refreshStreams (joined : (cfg n).broadcast = false) :
    (joining cfg).Triple n o (fun _ => True) ((cfg n).refreshStreams n) fun _ _ => True := by
  unfold RedisStreamsBackend.refreshStreams
  split_ifs
  · exact .pure (Contract.Stable.const True) fun _ _ h => h
  refine .bind (triple_settled (all_ask trivial)) fun r => ?_
  refine .bind (triple_joinEach joined r.1) fun _ => ?_
  split_ifs
  · exact .throw
  · exact .pure (Contract.Stable.const True) fun _ _ h => h

theorem joining_consume (joined : (cfg n).broadcast = false) :
    (joining cfg).Triple n o (fun _ => True) ((cfg n).consume n) fun _ _ => True := by
  have handles : ∀ results, Prog.All Cmd.Settled (RedisStreamsBackend.handleAll n results).run := fun results =>
    (RedisStreamsBackend.handles_handleAll results).mono fun c hc => by
      cases c with
      | decode | seen | hand | mark | xack | callback => trivial
      | _ => exact hc.elim
  have read : (joining cfg).Triple n o (fun _ => True) (do
      let names ← ask (.known n)
      if names.isEmpty then ask .sleep
      else
        let results ← orRaise (← ask (.xreadgroup n names))
        RedisStreamsBackend.handleAll n results) fun _ _ => True := by
    refine .bind (B := fun names => Reads n names) (.ask (Contract.Stable.const True) (fun _ => reads_stable)
      fun σ i inv _ _ => ⟨trivial, (inv n joined).kept, fun _ hs => hs⟩) fun names => ?_
    split_ifs
    · exact Contract.Triple.pre (triple_settled (all_ask trivial)) fun _ _ _ => trivial
    refine .bind (B := fun _ _ => True) (.ask reads_stable (fun _ => Contract.Stable.const True)
      fun σ i inv _ reads => ⟨(inv n joined).reads reads, trivial⟩) fun r => ?_
    exact triple_settled (.seq all_orRaise handles)
  refine .bind (triple_settled (all_ensureConnection trivial)) fun _ => ?_
  refine .bind (triple_settled (all_ask trivial)) fun (due : Bool) => ?_
  cases due with
  | false => exact read
  | true => exact .bind (triple_refreshStreams joined) fun _ => read

end Reader

/-! ## The tasks -/

section Tasks

variable {cfg : ℕ → RedisStreamsBackend} {p n : ℕ} {o : Call}

/-- What the other calls issue owes nothing. -/
theorem Cmd.owes_of_issues {c : Cmd} (h : o.Issues cfg c) (reader : ∀ n, o = .reader n → (cfg n).broadcast = true)
    (σ : State) : Owes cfg p c σ := by
  cases o with
  | start n =>
    cases hb : (cfg n).broadcast with
    | true =>
      cases c with
      | discover m =>
        obtain rfl : m = n := by simpa [Call.Issues, Cmd.Starts, Cmd.Discovers, hb] using h
        exact hb
      | readerFailed | xreadgroup | ready => simp [Call.Issues, Cmd.Starts, Cmd.Discovers, hb] at h
      | _ => trivial
    | false =>
      cases c with
      | ready m s reading =>
        obtain ⟨-, rfl⟩ : m = n ∧ reading = false := by simpa [Call.Issues, Cmd.Starts, Cmd.Ensures, hb] using h
        exact nofun
      | readerFailed | xreadgroup | discover => simp [Call.Issues, Cmd.Starts, Cmd.Ensures, hb] at h
      | _ => trivial
  | close n =>
    obtain rfl : c = .stop n := h
    trivial
  | publish n e =>
    cases c with
    | ready m s reading =>
      obtain ⟨-, rfl⟩ : m = n ∧ reading = false := h
      exact nofun
    | readerFailed | xreadgroup | discover => exact h.elim
    | _ => trivial
  | reader n =>
    have hb := reader n rfl
    rcases h with rfl | h
    · trivial
    rw [if_pos hb] at h
    cases c with
    | discover m =>
      obtain rfl : m = n := h
      exact hb
    | readerFailed | xreadgroup | ready => exact h.elim
    | _ => trivial
  | sweeper n =>
    obtain ⟨-, rfl | h⟩ := h
    · trivial
    cases c with
    | readerFailed | xreadgroup | ready | discover => exact h.elim
    | _ => trivial
  | foreign f =>
    obtain rfl : c = f.cmd := h
    cases f <;> trivial

theorem joining_safe (p : ℕ) (o : Call) (σ : State) :
    (joining cfg).Safe p o (o.code cfg) (fun _ _ => True) σ := by
  cases o with
  | reader n =>
    cases hb : (cfg n).broadcast with
    | true => exact safe_issues fun c _ σ h _ _ => Cmd.owes_of_issues h (by simpa using hb) σ
    | false =>
      by_cases hp : p = n
      · subst hp
        refine safe_map ?_
        rw [RedisStreamsBackend.readerTurn, if_neg (by simp [hb])]
        exact safe_turn (A := fun _ => True) (Contract.Stable.const True) (fun _ _ _ _ => trivial)
          (joining_consume hb) (fun σ _ => fun _ _ _ _ _ => ⟨rfl, fun _ _ _ => trivial⟩) trivial
      · exact safe_issues fun _ _ _ _ _ sole => absurd sole hp
  | _ => exact safe_issues fun c _ σ h _ _ => Cmd.owes_of_issues h (by simp) σ

end Tasks

/-- At an `XREADGROUP`, every stream of the read set has had its group ensured since the last failure of the
reader exactly when a publish or a start has ensured every group of a stream known at that failure. -/
theorem groups_ensured_iff (cfg : ℕ → RedisStreamsBackend) (P : Pool (backends cfg))
    (h : Pool.Reach (Pool.Meets (OneReader cfg)) (start cfg) P) (n : ℕ) (names : List String)
    (hr : readSet n (P.actors n) = some names) :
    (∀ s ∈ names, EnsuredSince n s P.shared.log) ↔
      ∀ s ∈ knownAtFailure n P.shared.log, EnsuredByOthers n s P.shared.log := by
  have inv : (joining cfg).Inv (start cfg).shared := by
    refine fun n _ => ⟨fun s hs => ?_, fun s hs => ?_, fun s hs => ?_⟩
    · cases hs
    · cases hs
    · cases hs
  have reached := within_of_reach inv (fun p o σ _ => joining_safe p o σ) h
  obtain ⟨k, hp⟩ := readSet_eq_some hr
  exact reached.guard hp (i := {}) rfl

namespace Shop

/-- An instance that reads the orders. -/
def reading (n : ℕ) : RedisStreamsBackend := { consumer := toString n, codec, streams := some [orders] }

/-- Redis loses the stream, and the reader fails. -/
def failing : List (Act (backends reading)) :=
  whole 0 (.start 0) 5 {} ++ whole 2 (.foreign (.loseStream orders)) 1 {} ++ whole 0 (.reader 0) 6 {}

/-- The next turn of the reader, up to its `XREADGROUP`. -/
def rereads : List (Act (backends reading)) := .call 0 (.reader 0) :: steps 0 4 {}

end Shop

open Shop in
/-- A publish makes the group again. -/
theorem groups_ensured_iff_witness : ∃ P : Pool (backends reading),
    readSet 0 (P.actors 0) = some [orders] ∧ orders ∈ knownAtFailure 0 P.shared.log ∧
      ∀ s ∈ [orders], EnsuredSince 0 s P.shared.log := by
  have run : ∃ P ∈ (start reading).runIf (OneReader reading)
      (failing ++ whole 1 (.publish 0 (order "a")) 5 {} ++ rereads),
      readSet 0 (P.actors 0) = some [orders] ∧ orders ∈ knownAtFailure 0 P.shared.log ∧
        ∀ s ∈ knownAtFailure 0 P.shared.log, EnsuredByOthers 0 s P.shared.log := by decide +kernel
  obtain ⟨P, hP, hr, known, ensured⟩ := run
  exact ⟨P, hr, known, (groups_ensured_iff reading P (.of_runIf hP) 0 [orders] hr).2 ensured⟩

open Shop in
/-- The reader reads again without a group, and fails again. -/
theorem groups_not_ensured : ¬ ∀ P : Pool (backends reading),
    Pool.Reach (Pool.Meets (OneReader reading)) (start reading) P → ∀ n names,
      readSet n (P.actors n) = some names → ∀ s ∈ names, EnsuredSince n s P.shared.log := by
  intro h
  have run : ∃ P ∈ (start reading).runIf (OneReader reading) (failing ++ rereads),
      readSet 0 (P.actors 0) = some [orders] ∧ ¬ EnsuredSince 0 orders P.shared.log := by decide +kernel
  obtain ⟨P, hP, hr, missing⟩ := run
  exact missing (h P (.of_runIf hP) 0 [orders] hr orders (List.mem_singleton_self _))

end NavigatorEventbus.Bus.Streams
