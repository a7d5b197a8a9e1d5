import NavigatorEventbus.Bus.Permits

/-!
# The workers of a bus

Where each task stands is known from its program: a worker is about to ask for a permit, waits for one, has
one, or dispatches (`Stage`).  The line of the semaphore and the list of the workers tell the same
(`Placed`), so a permit that is granted is one that a worker is going to use, and the permits are counted in
every state of every run (`Staffed`).
-/

namespace NavigatorEventbus.Bus

open Interleave

open State (Taken Waited)

/-! ## The programs of the tasks -/

namespace BusCore

variable {core : BusCore} {guard : Bool} {α : Type} {Q : α → Prop} {last : Option Cmd} {x : Coro α}

/-- What a program of the dispatch issues, whatever is replied. -/
theorem Quiet.all (h : core.Quiet False guard Q last x) : x.All Cmd.Ordinary :=
  Prog.Follows.all (fun _ _ => False.elim) h

theorem ordinary_afterTake (t : Taken) : (core.afterTake t).All Cmd.Ordinary := by
  match t with
  | .nothing true | .nothing false => trivial
  | .envelope e ambient =>
    refine .bind (@Quiet.all _ _ _ _ none _ (quiet_dispatch ambient)) fun r => .cmd_bind trivial fun _ => ?_
    cases r <;> trivial

/-- A dispatch that lets nothing through, in a worker whose waits are not cut short, leaves the worker. -/
theorem quiet_afterTake {calm : Prop} (e : Envelope) (ambient : Bool) :
    core.Quiet calm (e.isMeta || ambient) (fun t => ∀ exc, t ≠ .raised exc) last
      (core.afterTake (.envelope e ambient)) := by
  refine .bind (quiet_dispatch ambient) fun last r hr => .cmd_bind trivial fun _ _ => ?_
  cases r with
  | ok => exact fun _ exc => by simp
  | error exc => exact fun hcalm => by cases hr hcalm

theorem stays_afterTake (e : Envelope) (ambient : Bool) :
    (core.afterTake (.envelope e ambient)).Yields (· ≠ .stopped) := by
  refine .bind (.of_forall (fun _ => trivial) (core.dispatch e ambient)) fun r _ _ => ?_
  cases r with
  | ok => exact fun same => by cases same
  | error exc => exact fun same => by cases same

/-- A turn that waits for its permit. -/
def awaiting (core : BusCore) : Coro Result := do
  let r ← Cmd.acquired.await
  return .turn (← core.turn r)

/-- A turn that has its permit. -/
def holding (core : BusCore) : Coro Result := do
  return .turn (← core.turn (.ok ()))

/-- A turn that has taken what it found. -/
def served (core : BusCore) (t : Taken) : Coro Result := do
  return .turn (← core.afterTake t)

theorem code_turn : Call.turn.code core =
    .op Cmd.acquire fun free => if free = true then core.holding else core.awaiting :=
  congrArg (Prog.op _) (funext fun free => by cases free <;> rfl)

theorem awaiting_eq : core.awaiting = .op Cmd.acquired fun r =>
    match r with
    | .ok () => core.holding
    | .error exc => .pure (.turn (.raised exc)) :=
  congrArg (Prog.op _) (funext fun r => by cases r <;> rfl)

theorem holding_eq : core.holding = .op Cmd.take core.served := rfl

end BusCore

/-- What a call gives back. -/
def Call.Gives : Call → Result → Prop
  | .turn, .turn _ | .relayFirst, .turn _ | .relayTurn, .turn _ => True
  | .turn, .outcome _ | .relayFirst, .outcome _ | .relayTurn, .outcome _ => False
  | _, .outcome _ => True
  | _, .turn _ => False

/-- The commands of a call that is not of the loop of a worker. -/
def Call.Issues (o : Call) (c : Cmd) : Prop := c.Aside ∧ (c = .bootRelay → o = .relayFirst)

theorem Cmd.Ordinary.issues {c : Cmd} (h : c.Ordinary) (o : Call) : o.Issues c :=
  ⟨h.aside, by rintro rfl; cases h⟩

theorem Cmd.Plain.issues {c : Cmd} (h : c.Plain) (o : Call) : o.Issues c := by
  refine ⟨?_, by rintro rfl; cases h⟩
  cases c <;> trivial

theorem issues_code {core : BusCore} {o : Call} (boot : o ≠ .boot) (turn : o ≠ .turn) :
    (o.code core).All o.Issues := by
  have plain : ∀ {α : Type} {x : Coro α}, x.All Cmd.Plain → x.All o.Issues :=
    fun h => h.mono fun _ hc => hc.issues o
  have quiet : ∀ {guard : Bool} {α : Type} {Q : α → Prop} {x : Coro α}, core.Quiet False guard Q none x →
      x.All o.Issues := fun h => h.all.mono fun _ hc => hc.issues o
  have issue : ∀ {c : Cmd}, c.Ordinary → o.Issues c := fun h => h.issues o
  cases o with
  | boot => exact absurd rfl boot
  | turn => exact absurd rfl turn
  | publish e inMeta => exact .bind (@quiet false _ _ _ BusCore.quiet_publish) fun _ => trivial
  | fanOut => exact .bind (plain BusCore.plain_fanOutTask) fun _ => trivial
  | transport e =>
    refine .bind ?_ fun _ => trivial
    refine .cmd_bind (issue trivial) fun r => ?_
    cases r with
    | dispatch ambient =>
      exact .bind (quiet (BusCore.quiet_dispatch ambient)) fun _ => .cmd_bind (issue trivial) fun _ => trivial
    | _ => trivial
  | start inMeta => exact .bind (plain BusCore.plain_start) fun _ => trivial
  | close drainTimeout =>
    refine .bind ?_ fun _ => trivial
    refine .cmd_bind (issue trivial) fun goesOn => ?_
    cases goesOn with
    | false => trivial
    | true =>
      refine .cmd_bind (issue trivial) fun r => ?_
      cases r with
      | error exc => trivial
      | ok => exact .bind (plain BusCore.plain_awaitRunner) fun r => plain (BusCore.plain_closeRest r)
  | relayFirst =>
    refine .bind (.cmd_bind ⟨trivial, fun _ => rfl⟩ fun _ => ?_) fun _ => trivial
    exact .bind (plain BusCore.plain_relayOnce) fun _ => trivial
  | relayTurn => exact .bind (plain BusCore.plain_relayTurn) fun _ => trivial

theorem gives_code {core : BusCore} (o : Call) : (o.code core).Yields o.Gives := by
  cases o with
  | boot => exact fun _ => trivial
  | _ => exact .bind (.of_forall (fun _ => trivial) _) fun _ _ => trivial

/-! ## What is watched -/

/-- What is watched of a run: the `_in_meta_dispatch` of the envelope that each worker dispatches, the
workers that a close has cancelled, and whether all foreign code of the workers ended with what a dispatch
does not let through. -/
structure Watch where
  guards : ℕ → Bool := fun _ => false
  cut : ℕ → Bool := fun _ => false
  contained : Bool := true

namespace Watch

variable (core : BusCore) (g : Watch)

/-- These workers are cancelled. -/
def cancel (live : List ℕ) : Watch := { g with cut := fun p => p ∈ live || g.cut p }

/-- The worker `p` is told its envelope. -/
def guardOf : Taken → Bool
  | .envelope e ambient => e.isMeta || ambient
  | .nothing _ => false

/-- The task `p` issues a command in a call. -/
def issue (p : ℕ) (o : Call) (c : Cmd) (i : Input) (σ : State) : Watch :=
  match o, c with
  | .turn, .take => { g with guards := Function.update g.guards p (guardOf (σ.take p).1) }
  | .turn, c =>
    { g with contained := g.contained && (g.cut p || core.Contained (g.guards p) c (σ.exec core p c i).1) }
  | .boot, .boot => { g with cut := Function.update g.cut p false }
  | _, .runnerDone => if (σ.runnerDone p).1 = .ended then g else g.cancel σ.live
  | _, _ => g

/-- What is watched of a decision. A worker that ends with an exception after a close has cancelled it takes
the others with it. -/
def after (P : Pool (bus core)) (a : Act (bus core)) (g : Watch) : Watch :=
  match a with
  | .exec p i =>
    match P.actors p with
    | .calling o (.op c _) => g.issue core p o c i P.shared
    | _ => g
  | .ret p =>
    match P.actors p with
    | .calling .turn (.pure (.turn (.raised _))) => if g.cut p then g.cancel P.shared.live else g
    | _ => g
  | _ => g

end Watch

/-! ## Where the tasks stand -/

/-- A turn that the worker does not end with, unless an exception leaves it. -/
def Result.Stays : Result → Prop
  | .turn .stopped | .outcome _ => False
  | .turn _ => True

/-- Where the turn of a worker stands. -/
inductive Stage (core : BusCore) (working inLine calm : Prop) (guard : Bool) : Coro Result → Prop where
  | begun (hw : working) (hl : ¬ inLine) : Stage core working inLine calm guard (Call.turn.code core)
  | awaiting (hw : working) (hl : inLine) : Stage core working inLine calm guard core.awaiting
  | holding (hw : working) (hl : ¬ inLine) : Stage core working inLine calm guard core.holding
  | serving {x : Coro Result} (hw : working) (hl : ¬ inLine) (ordinary : x.All Cmd.Ordinary)
    (stays : x.Yields Result.Stays)
    (quiet : calm → ∃ last, core.Quiet True guard (fun r => ∀ exc, r ≠ .turn (.raised exc)) last x) :
    Stage core working inLine calm guard x
  | finished (hw : ¬ working) (hl : ¬ inLine) : Stage core working inLine calm guard (.pure (.turn .stopped))

/-- Where a task stands: among the workers or not, in the line for a permit or not. -/
def Placed (core : BusCore) (working inLine calm : Prop) (guard : Bool) :
    Actor tasks Call Result Phase → Prop
  | .resting .worker => working ∧ ¬ inLine
  | .resting _ => ¬ working ∧ ¬ inLine
  | .calling .turn x => Stage core working inLine calm guard x
  | .calling .boot x =>
    ¬ inLine ∧ (x = Call.boot.code core ∧ ¬ working ∨ (∃ r, x = .pure (.outcome r)) ∧ working)
  | .calling o x => ¬ working ∧ ¬ inLine ∧ x.All o.Issues ∧ x.Yields o.Gives

/-- The worker has its permit, and has not taken an envelope with it. -/
def Taking : Actor tasks Call Result Phase → Bool
  | .calling _ (.op .take _) => true
  | _ => false

/-- The workers that were granted a permit and have not taken an envelope with it. -/
def holders {core : BusCore} (P : Pool (bus core)) : List ℕ :=
  P.shared.live.filter fun p => p ∈ P.shared.items.granted || Taking (P.actors p)

/-- The end of a turn. -/
theorem Stage.result {core : BusCore} {working inLine calm : Prop} {guard : Bool} {r : Result}
    (h : Stage core working inLine calm guard (.pure r)) : ∃ t, r = .turn t ∧ ¬ inLine ∧
      (working ∧ t ≠ .stopped ∧ (calm → ∀ exc, t ≠ .raised exc) ∨ ¬ working ∧ t = .stopped) := by
  generalize hx : Prog.pure r = x at h
  cases h with
  | begun => rw [BusCore.code_turn] at hx; cases hx
  | awaiting => rw [BusCore.awaiting_eq] at hx; cases hx
  | holding => rw [BusCore.holding_eq] at hx; cases hx
  | serving hw hl ordinary stays quiet =>
    subst hx
    cases r with
    | outcome r => cases stays
    | turn t =>
      refine ⟨t, rfl, hl, .inl ⟨hw, ?_, fun hcalm exc same => ?_⟩⟩
      · rintro rfl
        cases stays
      · obtain ⟨last, hq⟩ := quiet hcalm
        exact hq trivial exc (congrArg _ same)
  | finished hw hl =>
    cases hx
    exact ⟨_, rfl, hl, .inr ⟨hw, rfl⟩⟩

namespace Placed

variable {core : BusCore} {working inLine calm working' inLine' calm' : Prop} {guard : Bool}
  {a : Actor tasks Call Result Phase}

/-- The others see of a step only the line and the list of the workers. -/
theorem congr (hw : working' ↔ working) (hl : inLine' ↔ inLine) (hc : calm' → calm)
    (h : Placed core working inLine calm guard a) : Placed core working' inLine' calm' guard a := by
  obtain rfl : working' = working := propext hw
  obtain rfl : inLine' = inLine := propext hl
  match a, h with
  | .resting .worker, h | .resting .free, h | .resting .relay, h => exact h
  | .calling .turn x, h =>
    cases h with
    | begun hw hl => exact .begun hw hl
    | awaiting hw hl => exact .awaiting hw hl
    | holding hw hl => exact .holding hw hl
    | serving hw hl ordinary stays quiet => exact .serving hw hl ordinary stays fun h => quiet (hc h)
    | finished hw hl => exact .finished hw hl
  | .calling .boot x, h | .calling (.publish _ _) x, h | .calling .fanOut x, h
  | .calling (.transport _) x, h | .calling (.start _) x, h | .calling (.close _) x, h
  | .calling .relayFirst x, h | .calling .relayTurn x, h => exact h

end Placed

/-! ## Counting the workers with a permit -/

section Count

variable {f f' : ℕ → Bool} {l : List ℕ} {p : ℕ}

/-- One task may stop to count. -/
theorem countP_le_add (nodup : l.Nodup) (same : ∀ q, q ≠ p → f q = true → f' q = true) :
    l.countP f ≤ l.countP f' + 1 := by
  induction l with
  | nil => exact Nat.zero_le _
  | cons q l ih =>
    obtain ⟨new, nodup⟩ := List.nodup_cons.1 nodup
    by_cases hq : q = p
    · subst hq
      have rest : l.countP f ≤ l.countP f' :=
        List.countP_mono_left fun r hr => same r fun h => new (h ▸ hr)
      rw [List.countP_cons, List.countP_cons]
      split_ifs <;> omega
    · have rest := ih nodup
      have first := same q hq
      rw [List.countP_cons, List.countP_cons]
      split_ifs with h h'
      · omega
      · exact absurd (first h) h'
      · omega
      · omega

/-- A task comes to count. -/
theorem countP_lt (hp : p ∈ l) (not : f p = false) (now : f' p = true)
    (same : ∀ q, f q = true → f' q = true) : l.countP f + 1 ≤ l.countP f' := by
  induction l with
  | nil => cases hp
  | cons q l ih =>
    have rest : l.countP f ≤ l.countP f' := List.countP_mono_left fun r _ => same r
    rw [List.countP_cons, List.countP_cons]
    rcases List.mem_cons.1 hp with rfl | hp
    · simp only [not, now, if_true, Bool.false_eq_true, if_false]
      omega
    · have further := ih hp
      have first := same q
      split_ifs with h h'
      · omega
      · exact absurd (first h) h'
      · omega
      · omega

/-- The granted permits are those of as many workers, who are not about to use one. -/
theorem length_le_filter {s : List ℕ} (hs : s.Nodup) (hl : l.Nodup) (sub : ∀ p ∈ s, p ∈ l ∧ f p = false) :
    s.length + l.countP f ≤ (l.filter fun p => p ∈ s || f p).length := by
  have nodup : (s ++ l.filter f).Nodup := by
    refine List.nodup_append.2 ⟨hs, hl.filter f, fun p hp q hq => ?_⟩
    rintro rfl
    have counts := (List.mem_filter.1 hq).2
    rw [(sub p hp).2] at counts
    cases counts
  have subset : s ++ l.filter f ⊆ l.filter fun p => p ∈ s || f p := by
    intro p hp
    rcases List.mem_append.1 hp with hp | hp
    · simpa [hp] using (sub p hp).1
    · obtain ⟨hp, hf⟩ := List.mem_filter.1 hp
      simp [hp, hf]
  have le := (List.subperm_of_subset nodup subset).length_le
  rwa [List.length_append, ← List.countP_eq_length_filter] at le

end Count

/-! ## Steps -/

/-- The task of the relay. -/
def Relaying : Actor tasks Call Result Phase → Prop
  | .resting .relay | .calling .relayFirst _ | .calling .relayTurn _ => True
  | _ => False

/-- No waits of the worker have been cut short, and nothing has been let through by a dispatch. -/
def Watch.CalmAt (g : Watch) (p : ℕ) : Prop := g.contained = true ∧ g.cut p = false

/-- The permits are enough for the queues. -/
structure Staffed (core : BusCore) (P : Pool (bus core)) (g : Watch) : Prop where
  nodup : P.shared.live.Nodup
  fair : P.shared.items.Fair
  placed : ∀ p, Placed core (p ∈ P.shared.live) (p ∈ P.shared.items.line) (g.CalmAt p) (g.guards p) (P.actors p)
  relaying : ∀ p, P.shared.relayTask = some p → Relaying (P.actors p)
  uncancelled : ∀ p ∈ P.shared.live, g.CalmAt p → P.shared.cancelling p = false
  enough : P.shared.queued.length ≤
    P.shared.items.permits + P.shared.live.countP fun p => Taking (P.actors p)

namespace Staffed

variable {core : BusCore} {P : Pool (bus core)} {g g' : Watch} {p : ℕ} {σ' : State}
  {a : Actor tasks Call Result Phase}

/-- One task moves. -/
theorem moved (h : Staffed core P g) (nodup : σ'.live.Nodup) (fair : σ'.items.Fair)
    (live : ∀ q, q ≠ p → (q ∈ σ'.live ↔ q ∈ P.shared.live))
    (line : ∀ q, q ≠ p → (q ∈ σ'.items.line ↔ q ∈ P.shared.items.line))
    (watch : ∀ q, q ≠ p → (g'.CalmAt q → g.CalmAt q) ∧ g'.guards q = g.guards q)
    (placed : Placed core (p ∈ σ'.live) (p ∈ σ'.items.line) (g'.CalmAt p) (g'.guards p) a)
    (relaying : ∀ q, σ'.relayTask = some q → if q = p then Relaying a else P.shared.relayTask = some q)
    (uncancelled : ∀ q ∈ σ'.live, g'.CalmAt q → σ'.cancelling q = false)
    (enough : σ'.queued.length ≤ σ'.items.permits +
      σ'.live.countP fun q => Taking (Function.update P.actors p a q)) :
    Staffed core ({ P with shared := σ' }.set p a) g' where
  nodup := nodup
  fair := fair
  placed := by
    refine Pool.forall_set (P := { P with shared := σ' })
      (J := fun q a => Placed core (q ∈ σ'.live) (q ∈ σ'.items.line) (g'.CalmAt q) (g'.guards q) a) placed
      fun q hq => ?_
    rw [(watch q hq).2]
    exact (h.placed q).congr (live q hq) (line q hq) (watch q hq).1
  relaying q hq := by
    have moved := relaying q hq
    by_cases hqp : q = p
    · subst hqp
      rw [if_pos rfl] at moved
      rwa [Pool.set_actors_self]
    · rw [if_neg hqp] at moved
      rw [Pool.set_actors_of_ne _ hqp]
      exact h.relaying q moved
  uncancelled := uncancelled
  enough := enough

/-- The workers with a permit are no fewer, when the one that moved had none to use. -/
theorem countP_le (h : Taking (P.actors p) = false) (l : List ℕ) :
    l.countP (fun q => Taking (P.actors q)) ≤ l.countP fun q => Taking (Function.update P.actors p a q) := by
  refine List.countP_mono_left fun q _ hq => ?_
  have ne : q ≠ p := by
    rintro rfl
    rw [h] at hq
    cases hq
  simpa [ne] using hq

/-- The workers with a permit are more, when the one that moved has come to have one. -/
theorem countP_gain (h : Taking (P.actors p) = false) (working : p ∈ P.shared.live) (now : Taking a = true) :
    P.shared.live.countP (fun q => Taking (P.actors q)) + 1 ≤
      P.shared.live.countP fun q => Taking (Function.update P.actors p a q) := by
  refine countP_lt working h (by rwa [Function.update_self]) fun q hq => ?_
  have ne : q ≠ p := by
    rintro rfl
    rw [h] at hq
    cases hq
  simpa [ne] using hq

/-- A step that feeds the queues. -/
theorem fed (h : Staffed core P g) (hf : State.Fed P.shared σ') (idle : Taking (P.actors p) = false)
    (watch : ∀ q, (g'.CalmAt q → g.CalmAt q) ∧ g'.guards q = g.guards q)
    (placed : Placed core (p ∈ P.shared.live) (p ∈ P.shared.items.line) (g'.CalmAt p) (g'.guards p) a)
    (relaying : Relaying (P.actors p) → Relaying a) : Staffed core ({ P with shared := σ' }.set p a) g' := by
  refine h.moved (hf.live ▸ h.nodup) (hf.fair h.fair) (fun q _ => by rw [hf.live])
    (fun q _ => by rw [hf.line]) (fun q _ => watch q) ?_ (fun q hq => ?_) (fun q hq hcalm => ?_) ?_
  · rwa [hf.live, hf.line]
  · rw [hf.relayTask] at hq
    split_ifs with hqp
    · exact relaying (hqp ▸ h.relaying q hq)
    · exact hq
  · rw [hf.live] at hq
    exact hf.cancelling q (h.uncancelled q hq ((watch q).1 hcalm))
  · have enough := h.enough
    have more := hf.enough
    have count := countP_le (a := a) idle P.shared.live
    rw [hf.live]
    omega

/-- A task begins a call. -/
theorem called (h : Staffed core P g) {φ : Phase} {o : Call} (hp : P.actors p = .resting φ)
    (accepts : φ.accepts o = true) : Staffed core (P.set p (.calling o (o.code core))) g := by
  have placed := h.placed p
  rw [hp] at placed
  refine @Staffed.fed _ _ _ _ _ P.shared _ h .refl (by rw [hp]; rfl) (fun q => ⟨id, rfl⟩) ?_ ?_
  · cases φ with
    | worker =>
      cases o with
      | turn => exact .begun placed.1 placed.2
      | _ => cases accepts
    | relay =>
      cases o with
      | relayTurn =>
        exact ⟨placed.1, placed.2, issues_code (by simp) (by simp), @gives_code core .relayTurn⟩
      | _ => cases accepts
    | free =>
      cases o with
      | turn | relayTurn => cases accepts
      | boot => exact ⟨placed.2, .inl ⟨rfl, placed.1⟩⟩
      | _ => exact ⟨placed.1, placed.2, issues_code (by simp) (by simp), @gives_code core _⟩
  · rw [hp]
    intro relay
    cases φ with
    | relay =>
      cases o with
      | relayTurn => trivial
      | _ => cases accepts
    | _ => cases relay

/-- A worker asks for a permit. -/
theorem acquire (h : Staffed core P g) {o : Call} {k : Bool → Coro Result} {i : Input}
    (hp : P.actors p = .calling o (.op .acquire k)) (working : p ∈ P.shared.live)
    (out : p ∉ P.shared.items.line) (turn : o = .turn)
    (next : k = fun free => if free = true then core.holding else core.awaiting) :
    Staffed core ({ P with shared := (P.shared.exec core p .acquire i).2 }.set p
      (.calling o (k (P.shared.exec core p .acquire i).1))) (g.issue core p o .acquire i P.shared) := by
  have idle : Taking (P.actors p) = false := by rw [hp]; rfl
  have line := Asyncio.Semaphore.line_acquire (s := P.shared.items) (p := p)
  have permits := Asyncio.Semaphore.permits_acquire (s := P.shared.items) (p := p)
  have free : (P.shared.items.acquire p).1 = decide ¬ P.shared.items.Locked := by
    rw [Asyncio.Semaphore.acquire]
    split_ifs with locked <;> simp [locked]
  have watched : g.issue core p o .acquire i P.shared = g := by
    rw [turn]
    simp [Watch.issue, BusCore.Contained]
  rw [watched]
  refine h.moved h.nodup (h.fair.acquire out) (fun q _ => Iff.rfl) (fun q hq => ?_) (fun q _ => ⟨id, rfl⟩) ?_
    (fun q hq => ?_) (fun q hq => h.uncancelled q hq) ?_
  · change q ∈ (P.shared.items.acquire p).2.line ↔ _
    rw [line]
    split_ifs
    · simp [hq]
    · rfl
  · change Placed core (p ∈ P.shared.live) (p ∈ (P.shared.items.acquire p).2.line) _ _
      (.calling o (k (P.shared.items.acquire p).1))
    rw [turn, next, line, free]
    by_cases locked : P.shared.items.Locked
    · simp only [locked, not_true_eq_false, decide_false, Bool.false_eq_true, if_false, if_true]
      exact .awaiting working (by simp)
    · simp only [locked, not_false_eq_true, decide_true, if_true, if_false]
      exact .holding working out
  · split_ifs with hqp
    · have relay := h.relaying q hq
      rw [hqp, hp, turn] at relay
      cases relay
    · exact hq
  · have enough := h.enough
    change P.shared.queued.length ≤ (P.shared.items.acquire p).2.permits + List.countP _ P.shared.live
    by_cases locked : P.shared.items.Locked
    · rw [if_pos locked] at permits
      have count := countP_le (a := .calling o (k (P.shared.exec core p .acquire i).1)) idle P.shared.live
      omega
    · rw [if_neg locked] at permits
      have now : (P.shared.exec core p .acquire i).1 = true := by
        change (P.shared.items.acquire p).1 = true
        rw [free, decide_eq_true locked]
      have count := countP_gain (a := .calling o (k (P.shared.exec core p .acquire i).1)) idle working
        (by rw [now, next]; rfl)
      omega

/-- The wait of a worker for its permit is over. -/
theorem acquired (h : Staffed core P g) {k : Outcome Unit → Coro Result} {i : Input}
    (hp : P.actors p = .calling .turn (.op .acquired k)) (working : p ∈ P.shared.live)
    (ready : P.shared.Ready p .acquired i)
    (next : k = fun r =>
      match r with
      | .ok () => core.holding
      | .error exc => .pure (.turn (.raised exc))) :
    Staffed core ({ P with shared := (P.shared.exec core p .acquired i).2 }.set p
      (.calling .turn (k (P.shared.exec core p .acquired i).1))) (g.issue core p .turn .acquired i P.shared) := by
  have idle : Taking (P.actors p) = false := by rw [hp]; rfl
  have watched : g.issue core p .turn .acquired i P.shared = g := by simp [Watch.issue, BusCore.Contained]
  have relaying : ∀ q, P.shared.relayTask = some q →
      if q = p then Relaying (.calling .turn (k (P.shared.exec core p .acquired i).1))
      else P.shared.relayTask = some q := by
    intro q hq
    split_ifs with hqp
    · have relay := h.relaying q hq
      rw [hqp, hp] at relay
      cases relay
    · exact hq
  have enough := h.enough
  rw [watched]
  cases cancelled : P.shared.cancelling p with
  | true =>
    have exec : P.shared.exec core p .acquired i =
        (.error .cancelled, { P.shared.resumed p with items := P.shared.items.cancel p }) := by
      change P.shared.acquired p = _
      rw [State.acquired, if_pos cancelled]
    have line := Asyncio.Semaphore.line_cancel (p := p) h.fair
    have permits := Asyncio.Semaphore.permits_cancel (p := p) h.fair
    rw [exec] at relaying ⊢
    refine h.moved h.nodup h.fair.cancel (fun q _ => Iff.rfl) (fun q hq => ?_) (fun q _ => ⟨id, rfl⟩) ?_
      relaying (fun q hq hcalm => ?_) ?_
    · rw [line, List.mem_filter]
      simp [hq]
    · rw [next]
      refine .serving working ?_ trivial trivial fun calm => ?_
      · simp [line]
      · rw [h.uncancelled p working calm] at cancelled
        cases cancelled
    · exact State.Fed.resumed.cancelling q (h.uncancelled q hq hcalm)
    · have count := countP_le (a := .calling .turn (k (.error .cancelled))) idle P.shared.live
      change P.shared.queued.length ≤ (P.shared.items.cancel p).permits + P.shared.live.countP fun q =>
        Taking (Function.update P.actors p (.calling .turn (k (.error .cancelled))) q)
      omega
  | false =>
    have granted : p ∈ P.shared.items.granted := by
      rcases ready with ready | ready
      · rw [cancelled] at ready
        cases ready
      · exact ready
    have exec : P.shared.exec core p .acquired i =
        (.ok (), { P.shared with items := P.shared.items.resume p }) := by
      change P.shared.acquired p = _
      rw [State.acquired, if_neg (by simp [cancelled])]
    have line := Asyncio.Semaphore.line_resume h.fair granted
    have permits := Asyncio.Semaphore.permits_resume h.fair granted
    rw [exec] at relaying ⊢
    refine h.moved h.nodup (h.fair.resume granted) (fun q _ => Iff.rfl) (fun q hq => ?_)
      (fun q _ => ⟨id, rfl⟩) ?_ relaying (fun q hq => h.uncancelled q hq) ?_
    · rw [line, List.mem_filter]
      simp [hq]
    · rw [next]
      exact .holding working (by simp [line])
    · have count := countP_gain (a := .calling .turn (k (.ok ()))) idle working (by rw [next]; rfl)
      change P.shared.queued.length ≤ (P.shared.items.resume p).permits + P.shared.live.countP fun q =>
        Taking (Function.update P.actors p (.calling .turn (k (.ok ()))) q)
      omega

/-- A worker takes an envelope with its permit, if there is one. -/
theorem take (h : Staffed core P g) {k : Taken → Coro Result} {i : Input}
    (hp : P.actors p = .calling .turn (.op .take k)) (working : p ∈ P.shared.live)
    (out : p ∉ P.shared.items.line) (next : k = core.served) :
    Staffed core ({ P with shared := (P.shared.exec core p .take i).2 }.set p
      (.calling .turn (k (P.shared.exec core p .take i).1))) (g.issue core p .turn .take i P.shared) := by
  have relaying : ∀ {a : Actor tasks Call Result Phase} q, P.shared.relayTask = some q →
      if q = p then Relaying a else P.shared.relayTask = some q := by
    intro a q hq
    split_ifs with hqp
    · have relay := h.relaying q hq
      rw [hqp, hp] at relay
      cases relay
    · exact hq
  have watch : ∀ (t : Taken) q, q ≠ p → (({ g with
      guards := Function.update g.guards p (Watch.guardOf t) } : Watch).CalmAt q → g.CalmAt q) ∧
      Function.update g.guards p (Watch.guardOf t) q = g.guards q :=
    fun t q hq => ⟨id, Function.update_of_ne hq _ _⟩
  have nothing : P.shared.popNext = none → P.shared.queued.length = 0 := fun none => by
    rw [State.popNext_eq_none none, List.length_nil]
  have fewer : ∀ a : Actor tasks Call Result Phase, P.shared.live.countP (fun q => Taking (P.actors q)) ≤
      P.shared.live.countP (fun q => Taking (Function.update P.actors p a q)) + 1 := fun a =>
    countP_le_add (p := p) h.nodup fun q hq => by
      rw [Function.update_of_ne hq]
      exact id
  change Staffed core ({ P with shared := (P.shared.take p).2 }.set p (.calling .turn (k (P.shared.take p).1)))
    { g with guards := Function.update g.guards p (Watch.guardOf (P.shared.take p).1) }
  subst next
  refine State.take_cases (C := fun r => Staffed core ({ P with shared := r.2 }.set p
    (.calling .turn (core.served r.1))) { g with guards := Function.update g.guards p (Watch.guardOf r.1) })
    (fun priority item q σ' found hσ' => ?_) (fun empty _ => ?_) (fun empty _ => ?_)
  · have taken : σ'.items = P.shared.items ∧ σ'.live = P.shared.live ∧ σ'.relayTask = P.shared.relayTask ∧
        σ'.cancelling = P.shared.cancelling ∧ σ'.queues = (P.shared.setQueue priority q).queues := by
      rw [hσ', State.noteTaken]
      split <;> exact ⟨rfl, rfl, rfl, rfl, rfl⟩
    obtain ⟨items, live, relayTask, cancelling, queues⟩ := taken
    have shorter : σ'.queued.length + 1 = P.shared.queued.length := by
      have moved := State.length_queued_setQueue (σ := P.shared) priority q
      rw [Asyncio.Queue.items_getNowait found, List.length_cons] at moved
      rw [State.queued_congr (σ := P.shared.setQueue priority q) fun priority => by rw [queues]]
      omega
    refine h.moved (live ▸ h.nodup) (items ▸ h.fair) (fun r _ => by rw [live]) (fun r _ => by rw [items])
      (watch _) ?_ (fun r hr => relaying r (relayTask ▸ hr)) (fun r hr hcalm => ?_) ?_
    · change Placed core (p ∈ σ'.live) (p ∈ σ'.items.line) (g.CalmAt p)
        (Function.update g.guards p (item.envelope.isMeta || σ'.ambient) p)
        (.calling .turn (core.served (.envelope item.envelope σ'.ambient)))
      rw [Function.update_self]
      refine .serving (live ▸ working) (items ▸ out) ?_ ?_ fun _ => ⟨none, ?_⟩
      · exact .bind (BusCore.ordinary_afterTake _) fun _ => trivial
      · exact .bind (BusCore.stays_afterTake _ _) fun t ht => by cases t <;> trivial
      · exact .bind (BusCore.quiet_afterTake _ _) fun last t ht hcalm exc same =>
          ht hcalm exc (Result.turn.inj same)
    · have old := h.uncancelled r (live ▸ hr) hcalm
      rwa [← cancelling] at old
    · have same : { σ' with inFlight := σ'.inFlight + 1 }.queued = σ'.queued := rfl
      have enough := h.enough
      have count := fewer (.calling .turn (core.served (.envelope item.envelope σ'.ambient)))
      rw [same]
      change σ'.queued.length ≤ σ'.items.permits + σ'.live.countP fun q =>
        Taking (Function.update P.actors p (.calling .turn (core.served (.envelope item.envelope σ'.ambient))) q)
      rw [items, live]
      omega
  · refine @Staffed.moved _ _ _ _ _ P.shared _ h h.nodup h.fair (fun q _ => Iff.rfl) (fun q _ => Iff.rfl) (watch _) ?_ relaying
      (fun q hq => h.uncancelled q hq) ?_
    · exact .serving working out trivial trivial fun _ => ⟨none, fun _ exc => by simp⟩
    · rw [nothing empty]
      exact Nat.zero_le _
  · refine h.moved (h.nodup.filter _) h.fair (fun q hq => by simp [hq]) (fun q _ => Iff.rfl) (watch _) ?_ relaying
      (fun q hq => h.uncancelled q (List.mem_filter.1 hq).1) ?_
    · exact .finished (by simp) out
    · have same : ({ P.shared with live := P.shared.live.filter (· ≠ p) } : State).queued = P.shared.queued := rfl
      rw [same, nothing empty]
      exact Nat.zero_le _

/-- A command of the dispatch of a worker. -/
theorem serving (h : Staffed core P g) {c : Cmd} {k : c.Reply → Coro Result} {i : Input}
    (hp : P.actors p = .calling .turn (.op c k)) (working : p ∈ P.shared.live)
    (out : p ∉ P.shared.items.line) (ordinary : (Prog.op (S := tasks) c k).All Cmd.Ordinary)
    (stays : (Prog.op (S := tasks) c k).Yields Result.Stays)
    (quiet : g.CalmAt p → ∃ last, core.Quiet True (g.guards p) (fun r => ∀ exc, r ≠ .turn (.raised exc)) last
      (Prog.op (S := tasks) c k)) :
    Staffed core ({ P with shared := (P.shared.exec core p c i).2 }.set p
      (.calling .turn (k (P.shared.exec core p c i).1))) (g.issue core p .turn c i P.shared) := by
  have idle : Taking (P.actors p) = false := by
    rw [hp]
    cases c with
    | take => exact ordinary.1.elim
    | _ => rfl
  have watched : g.issue core p .turn c i P.shared = { g with contained := g.contained &&
      (g.cut p || core.Contained (g.guards p) c (P.shared.exec core p c i).1) } := by
    cases c with
    | take => exact ordinary.1.elim
    | _ => rfl
  rw [watched]
  have later : ∀ {b : Bool} q, ({ g with contained := g.contained && b } : Watch).CalmAt q → g.CalmAt q :=
    fun q hq => ⟨(Bool.and_eq_true_iff.1 hq.1).1, hq.2⟩
  refine h.fed (State.fed_exec ordinary.1) idle (fun q => ⟨later q, rfl⟩) ?_ (by rw [hp]; exact False.elim)
  refine .serving working out (ordinary.2 _) (stays _) fun calm => ?_
  obtain ⟨last, follows⟩ := quiet (later p calm)
  have contained : core.Contained (g.guards p) c (P.shared.exec core p c i).1 = true := by
    have cut : g.cut p = false := calm.2
    have both := (Bool.and_eq_true_iff.1 calm.1).2
    rwa [cut, Bool.false_or] at both
  refine ⟨_, follows.2 _ fun _ => ?_⟩
  exact State.calm_exec (h.uncancelled p working (later p calm)) contained

/-- A worker task runs for the first time. -/
theorem booted (h : Staffed core P g) {k : Unit → Coro Result} {i : Input}
    (hp : P.actors p = .calling .boot (.op .boot k)) (idle : p ∉ P.shared.live)
    (out : p ∉ P.shared.items.line) (next : Prog.op (S := tasks) Cmd.boot k = Call.boot.code core) :
    Staffed core ({ P with shared := (P.shared.exec core p .boot i).2 }.set p
      (.calling .boot (k (P.shared.exec core p .boot i).1))) (g.issue core p .boot .boot i P.shared) := by
  have result : k () = .pure (.outcome (.ok ())) := by
    rw [eq_of_heq (Prog.op.inj next).2]
    rfl
  change Staffed core ({ P with shared := { P.shared.resumed p with
    spawned := P.shared.spawned - 1, live := p :: P.shared.live } }.set p (.calling .boot (k ())))
    { g with cut := Function.update g.cut p false }
  rw [result]
  refine h.moved (List.nodup_cons.2 ⟨idle, h.nodup⟩) h.fair (fun q hq => by simp [hq]) (fun q _ => Iff.rfl)
    (fun q hq => ⟨fun calm => ?_, rfl⟩) ?_ (fun q hq => ?_) (fun q hq calm => ?_) ?_
  · have cut : Function.update g.cut p false q = false := calm.2
    rw [Function.update_of_ne hq] at cut
    exact ⟨calm.1, cut⟩
  · exact ⟨out, .inr ⟨⟨_, rfl⟩, List.mem_cons_self ..⟩⟩
  · split_ifs with hqp
    · have relay := h.relaying q hq
      rw [hqp, hp] at relay
      cases relay
    · exact hq
  · by_cases hqp : q = p
    · rw [hqp]
      exact Function.update_self ..
    · have old : q ∈ P.shared.live := by simpa [hqp] using hq
      have cut : Function.update g.cut p false q = false := calm.2
      rw [Function.update_of_ne hqp] at cut
      exact State.Fed.resumed.cancelling q (h.uncancelled q old ⟨calm.1, cut⟩)
  · have enough := h.enough
    have count := countP_le (p := p) (a := .calling .boot (.pure (.outcome (.ok ())))) (by rw [hp]; rfl) P.shared.live
    change P.shared.queued.length ≤ P.shared.items.permits + List.countP _ (p :: P.shared.live)
    rw [List.countP_cons]
    omega

/-- The task of the relay is no worker. -/
theorem not_relaying (h : Staffed core P g) {q : ℕ} (hq : q ∈ P.shared.live) :
    P.shared.relayTask ≠ some q := by
  intro relayTask
  have relay := h.relaying q relayTask
  have placed := h.placed q
  match actor : P.actors q with
  | .resting .relay | .calling .relayFirst _ | .calling .relayTurn _ =>
    rw [actor] at placed
    exact placed.1 hq
  | .resting .free | .resting .worker | .calling (.publish _ _) _ | .calling .fanOut _ | .calling (.transport _) _
  | .calling (.start _) _ | .calling (.close _) _ | .calling .boot _ | .calling .turn _ =>
    rw [actor] at relay
    exact relay

/-- A step that leaves the queues, the permits and the workers alone. -/
theorem steady (h : Staffed core P g) (queued : σ'.queued = P.shared.queued) (items : σ'.items = P.shared.items)
    (live : σ'.live = P.shared.live) (idle : Taking (P.actors p) = false)
    (watch : ∀ q, (g'.CalmAt q → g.CalmAt q) ∧ g'.guards q = g.guards q)
    (placed : Placed core (p ∈ P.shared.live) (p ∈ P.shared.items.line) (g'.CalmAt p) (g'.guards p) a)
    (relaying : ∀ q, σ'.relayTask = some q → if q = p then Relaying a else P.shared.relayTask = some q)
    (uncancelled : ∀ q ∈ P.shared.live, g'.CalmAt q → σ'.cancelling q = false) :
    Staffed core ({ P with shared := σ' }.set p a) g' := by
  refine h.moved (live ▸ h.nodup) (items ▸ h.fair) (fun q _ => by rw [live]) (fun q _ => by rw [items])
    (fun q _ => watch q) (by rwa [live, items]) relaying (fun q hq => uncancelled q (live ▸ hq)) ?_
  have enough := h.enough
  have count := countP_le (a := a) idle P.shared.live
  rw [queued, items, live]
  omega

/-- Workers that are cancelled are calm no more. -/
theorem calmAt_cancel {l : List ℕ} {q : ℕ} (h : (g.cancel l).CalmAt q) : q ∉ l ∧ g.CalmAt q := by
  obtain ⟨contained, cut⟩ := h
  have both : (decide (q ∈ l) || g.cut q) = false := cut
  simp only [Bool.or_eq_false_iff, decide_eq_false_iff_not] at both
  exact ⟨both.1, contained, both.2⟩

/-- A command of a call that is not of the loop of a worker. -/
theorem issued (h : Staffed core P g) {o : Call} {c : Cmd} {k : c.Reply → Coro Result} {i : Input}
    (hp : P.actors p = .calling o (.op c k)) (boot : o ≠ .boot) (turn : o ≠ .turn)
    (placed : p ∉ P.shared.live ∧ p ∉ P.shared.items.line ∧ (Prog.op (S := tasks) c k).All o.Issues ∧
      (Prog.op (S := tasks) c k).Yields o.Gives) :
    Staffed core ({ P with shared := (P.shared.exec core p c i).2 }.set p
      (.calling o (k (P.shared.exec core p c i).1))) (g.issue core p o c i P.shared) := by
  obtain ⟨working, out, issues, gives⟩ := placed
  have idle : Taking (P.actors p) = false := by
    rw [hp]
    cases c with
    | take => exact issues.1.1.elim
    | _ => rfl
  have now : ∀ {calm : Prop} {guard : Bool} (r : c.Reply),
      Placed core (p ∈ P.shared.live) (p ∈ P.shared.items.line) calm guard (.calling o (k r)) := by
    intro calm guard r
    cases o with
    | boot => exact absurd rfl boot
    | turn => exact absurd rfl turn
    | _ => exact ⟨working, out, issues.2 r, gives r⟩
  have relays : Relaying (P.actors p) → ∀ r, Relaying (.calling o (k r)) := by
    rw [hp]
    intro relay r
    cases o <;> exact relay
  have relaying : ∀ r q, P.shared.relayTask = some q →
      if q = p then Relaying (.calling o (k r)) else P.shared.relayTask = some q := by
    intro r q hq
    split_ifs with hqp
    · exact relays (hqp ▸ h.relaying q hq) r
    · exact hq
  by_cases ordinary : c.Ordinary
  · have watched : g.issue core p o c i P.shared = g := by
      cases o with
      | boot => exact absurd rfl boot
      | turn => exact absurd rfl turn
      | _ =>
        cases c with
        | runnerDone => cases ordinary
        | _ => rfl
    rw [watched]
    exact h.fed (State.fed_exec ordinary) idle (fun q => ⟨id, rfl⟩) (now _) fun relay => relays relay _
  · cases c with
    | bootRelay =>
      obtain rfl := issues.1.2 rfl
      refine h.steady rfl rfl rfl idle (fun q => ⟨id, rfl⟩) (now _) (fun q hq => ?_) fun q hq calm => ?_
      · obtain rfl : p = q := Option.some.inj hq
        rw [if_pos rfl]
        trivial
      · exact State.Fed.resumed.cancelling q (h.uncancelled q hq calm)
    | stopRelay =>
      have watched : g.issue core p o .stopRelay i P.shared = g := by
        cases o <;> first | rfl | exact absurd rfl turn
      rw [watched]
      refine h.steady rfl rfl rfl idle (fun q => ⟨id, rfl⟩) (now _) (relaying _) fun q hq calm => ?_
      change (decide (P.shared.relayTask = some q) || P.shared.cancelling q) = false
      rw [h.uncancelled q hq calm, decide_eq_false (h.not_relaying hq)]
      rfl
    | runnerDone =>
      have watched : g.issue core p o .runnerDone i P.shared =
          if (P.shared.runnerDone p).1 = .ended then g else g.cancel P.shared.live := by
        cases o <;> first | rfl | exact absurd rfl turn
      rw [watched]
      change Staffed core ({ P with shared := (P.shared.runnerDone p).2 }.set p
        (.calling o (k (P.shared.runnerDone p).1))) _
      refine State.runnerDone_cases (C := fun r => Staffed core ({ P with shared := r.2 }.set p
        (.calling o (k r.1))) (if r.1 = .ended then g else g.cancel P.shared.live)) ?_ ?_ ?_
      · rw [if_neg (by simp)]
        exact h.steady rfl rfl rfl idle (fun q => ⟨fun calm => (calmAt_cancel calm).2, rfl⟩) (now _) (relaying _)
          fun q hq calm => absurd hq (calmAt_cancel calm).1
      · rw [if_pos rfl]
        exact h.steady rfl rfl rfl idle (fun q => ⟨id, rfl⟩) (now _) (relaying _) fun q hq => h.uncancelled q hq
      · rw [if_neg (by simp)]
        exact h.steady rfl rfl rfl idle (fun q => ⟨fun calm => (calmAt_cancel calm).2, rfl⟩) (now _) (relaying _)
          fun q hq calm => absurd hq (calmAt_cancel calm).1
    | boot | acquire | acquired | take => exact issues.1.1.elim
    | _ => exact absurd trivial ordinary

/-- A call returns. -/
theorem returned (h : Staffed core P g) {o : Call} {r : Result} (hp : P.actors p = .calling o (.pure r)) :
    Staffed core ({ P with shared := P.shared.note p o r }.set p (.resting (o.phase r)))
      (g.after core P (.ret p)) := by
  have idle : Taking (P.actors p) = false := by rw [hp]; rfl
  have placed := h.placed p
  rw [hp] at placed
  have resumed : ∀ {φ : Phase}, (φ = .worker ↔ p ∈ P.shared.live) → p ∉ P.shared.items.line →
      (Relaying (P.actors p) → φ = .relay) →
      Staffed core ({ P with shared := P.shared.resumed p }.set p (.resting φ)) g := by
    intro φ working out relay
    refine h.fed .resumed idle (fun q => ⟨id, rfl⟩) ?_ fun hr => by rw [relay hr]; trivial
    cases φ with
    | worker => exact ⟨working.1 rfl, out⟩
    | _ => exact ⟨fun live => Phase.noConfusion (working.2 live), out⟩
  have ended : ∀ {σ' : State} {g' : Watch}, σ'.queued = P.shared.queued → σ'.items = P.shared.items →
      σ'.live = P.shared.live.filter (· ≠ p) → σ'.relayTask = P.shared.relayTask → o = .turn →
      p ∉ P.shared.items.line → (∀ q, (g'.CalmAt q → g.CalmAt q) ∧ g'.guards q = g.guards q) →
      (∀ q ∈ P.shared.live, q ≠ p → g'.CalmAt q → σ'.cancelling q = false) →
      Staffed core ({ P with shared := σ' }.set p (.resting .free)) g' := by
    intro σ' g' queued items live relayTask turn out watch uncancelled
    refine h.moved (live ▸ h.nodup.filter _) (items ▸ h.fair) (fun q hq => by simp [live, hq])
      (fun q _ => by rw [items]) (fun q _ => watch q) ⟨by simp [live], items ▸ out⟩ (fun q hq => ?_)
      (fun q hq calm => ?_) ?_
    · rw [relayTask] at hq
      split_ifs with hqp
      · have relay := h.relaying q hq
        rw [hqp, hp, turn] at relay
        cases relay
      · exact hq
    · rw [live, List.mem_filter] at hq
      exact uncancelled q hq.1 (by simpa using hq.2) calm
    · have enough := h.enough
      rw [queued, items, live, List.countP_filter]
      refine enough.trans (Nat.add_le_add_left (List.countP_mono_left fun q _ hq => ?_) _)
      have ne : q ≠ p := by
        rintro rfl
        rw [idle] at hq
        cases hq
      simpa [ne] using hq
  have relayEnded : p ∉ P.shared.live → p ∉ P.shared.items.line →
      Staffed core ({ P with shared := (P.shared.resumed p).endRelay p }.set p (.resting .free)) g := by
    intro working out
    have same : ((P.shared.resumed p).endRelay p).queued = P.shared.queued ∧
        ((P.shared.resumed p).endRelay p).items = P.shared.items ∧
        ((P.shared.resumed p).endRelay p).live = P.shared.live ∧
        ((P.shared.resumed p).endRelay p).cancelling = (P.shared.resumed p).cancelling := by
      rw [State.endRelay]
      split_ifs <;> exact ⟨rfl, rfl, rfl, rfl⟩
    refine h.steady same.1 same.2.1 same.2.2.1 idle (fun q => ⟨id, rfl⟩) ⟨working, out⟩ (fun q hq => ?_)
      fun q hq calm => ?_
    · have other : P.shared.relayTask = some q ∧ q ≠ p := by
        rw [State.endRelay] at hq
        split_ifs at hq with own
        exact ⟨hq, fun same => own (same ▸ hq)⟩
      rw [if_neg other.2]
      exact other.1
    · rw [same.2.2.2]
      exact State.Fed.resumed.cancelling q (h.uncancelled q hq calm)
  cases o with
  | turn =>
    obtain ⟨t, rfl, out, ends⟩ := placed.result
    cases t with
    | again =>
      rcases ends with ⟨working, -⟩ | ⟨-, same⟩
      · have watched : g.after core P (.ret p) = g := by simp [Watch.after, hp]
        rw [watched]
        exact resumed (φ := .worker) (by simpa using working) out (by rw [hp]; exact False.elim)
      · cases same
    | stopped =>
      have watched : g.after core P (.ret p) = g := by simp [Watch.after, hp]
      rw [watched]
      exact ended rfl rfl rfl rfl rfl out (fun q => ⟨id, rfl⟩) fun q hq _ calm =>
        State.Fed.resumed.cancelling q (h.uncancelled q hq calm)
    | raised exc =>
      have watched : g.after core P (.ret p) = if g.cut p then g.cancel P.shared.live else g := by
        simp [Watch.after, hp]
      rw [watched]
      have watch : ∀ q, ((if g.cut p then g.cancel P.shared.live else g).CalmAt q → g.CalmAt q) ∧
          (if g.cut p then g.cancel P.shared.live else g).guards q = g.guards q := by
        intro q
        split_ifs
        · exact ⟨fun calm => (calmAt_cancel calm).2, rfl⟩
        · exact ⟨id, rfl⟩
      -- a worker that no close has cancelled is left by an exception only when a dispatch let one through
      have uncalm : ∀ q ∈ P.shared.live, ¬ (if g.cut p then g.cancel P.shared.live else g).CalmAt q := by
        intro q hq calm
        split_ifs at calm with cut
        · exact (calmAt_cancel calm).1 hq
        · rcases ends with ⟨-, -, quiet⟩ | ⟨-, same⟩
          · exact quiet ⟨calm.1, by simpa using cut⟩ exc rfl
          · cases same
      cases exc with
      | cancelled => exact ended rfl rfl rfl rfl rfl out watch fun q hq _ calm => absurd calm (uncalm q hq)
      | exception type text => exact ended rfl rfl rfl rfl rfl out watch fun q hq _ calm => absurd calm (uncalm q hq)
      | exit => exact ended rfl rfl rfl rfl rfl out watch fun q hq _ calm => absurd calm (uncalm q hq)
  | boot =>
    obtain ⟨out, ⟨code, -⟩ | ⟨⟨r', result⟩, working⟩⟩ := placed
    · cases code
    · cases result
      have watched : g.after core P (.ret p) = g := by simp [Watch.after, hp]
      rw [watched]
      exact resumed (φ := .worker) (by simpa using working) out (by rw [hp]; exact False.elim)
  | relayFirst | relayTurn =>
    obtain ⟨working, out, -, gives⟩ := placed
    have watched : g.after core P (.ret p) = g := by simp [Watch.after, hp]
    rw [watched]
    cases r with
    | outcome => cases gives
    | turn t =>
      cases t with
      | again => exact resumed (φ := .relay) (by simpa using working) out fun _ => rfl
      | stopped => exact relayEnded working out
      | raised exc => exact relayEnded working out
  | _ =>
    obtain ⟨working, out, -, gives⟩ := placed
    cases r with
    | turn t => cases gives
    | outcome r =>
      have watched : g.after core P (.ret p) = g := by simp [Watch.after, hp]
      rw [watched]
      exact resumed (φ := .free) (by simpa using working) out (by rw [hp]; exact False.elim)

/-- Something happens besides the tasks. -/
theorem disturbed (h : Staffed core P g) (d : Disturbance) :
    Staffed core { P with shared := P.shared.disturb core d } g := by
  have fed : State.Fed P.shared (P.shared.disturb core d) ∨
      ∃ q, d = .cancel q ∧ q ∉ P.shared.live := by
    by_cases cancels : ∃ q, d = .cancel q ∧ q ∉ P.shared.live
    · exact .inr cancels
    · exact .inl (State.fed_disturb d fun q hq => by_contra fun hlive => cancels ⟨q, hq, hlive⟩)
  rcases fed with fed | ⟨q, rfl, hq⟩
  · refine ⟨fed.live ▸ h.nodup, fed.fair h.fair, fun p => ?_, fun p hp => ?_, fun p hp calm => ?_, ?_⟩
    · rw [fed.live, fed.line]
      exact h.placed p
    · exact h.relaying p (fed.relayTask ▸ hp)
    · exact fed.cancelling p (h.uncancelled p (fed.live ▸ hp) calm)
    · have enough := h.enough
      have more := fed.enough
      change (P.shared.disturb core d).queued.length ≤ (P.shared.disturb core d).items.permits +
        (P.shared.disturb core d).live.countP fun p => Taking (P.actors p)
      rw [fed.live]
      omega
  · have cancel : P.shared.disturb core (.cancel q) =
        { P.shared with cancelling := Function.update P.shared.cancelling q true } := by
      rw [State.disturb, if_neg hq]
    rw [cancel]
    refine ⟨h.nodup, h.fair, h.placed, h.relaying, fun p hp calm => ?_, h.enough⟩
    have ne : p ≠ q := fun same => hq (same ▸ hp)
    exact (Function.update_of_ne ne true P.shared.cancelling).trans (h.uncancelled p hp calm)

/-- A task executes a command. -/
theorem executed (h : Staffed core P g) {o : Call} {c : Cmd} {k : c.Reply → Coro Result} {i : Input}
    (hp : P.actors p = .calling o (.op c k)) (ready : P.shared.Ready p c i) :
    Staffed core ({ P with shared := (P.shared.exec core p c i).2 }.set p
      (.calling o (k (P.shared.exec core p c i).1))) (g.issue core p o c i P.shared) := by
  have placed := h.placed p
  rw [hp] at placed
  cases o with
  | turn =>
    generalize hx : Prog.op (S := tasks) c k = x at placed
    cases placed with
    | begun hw hl =>
      rw [BusCore.code_turn] at hx
      cases hx
      exact h.acquire hp hw hl rfl rfl
    | awaiting hw hl =>
      rw [BusCore.awaiting_eq] at hx
      cases hx
      exact h.acquired hp hw ready rfl
    | holding hw hl =>
      rw [BusCore.holding_eq] at hx
      cases hx
      exact h.take hp hw hl rfl
    | serving hw hl ordinary stays quiet =>
      subst hx
      exact h.serving hp hw hl ordinary stays quiet
    | finished => cases hx
  | boot =>
    obtain ⟨out, ⟨code, idle⟩ | ⟨⟨r, result⟩, -⟩⟩ := placed
    · cases code
      exact h.booted hp idle out rfl
    · cases result
  | _ => exact h.issued hp (by simp) (by simp) placed

theorem new (store : SqliteOutbox) : Staffed core (core.new store) {} where
  nodup := List.nodup_nil
  fair := ⟨List.nodup_nil, fun waiting => absurd rfl waiting⟩
  placed p := ⟨List.not_mem_nil, List.not_mem_nil⟩
  relaying p hp := by cases hp
  uncancelled p hp := by cases hp
  enough := Nat.le_refl _

/-- A worker that no close has cancelled ends only when it is to stop and all queues are empty, if nothing
has been let through by a dispatch. -/
theorem ends (h : Staffed core P g) {act : Act (bus core)} {P' : Pool (bus core)} (hs : P.act act = some P')
    (uncrashed : act.Uncrashed) {q : ℕ} (hq : q ∈ P.shared.live) (hq' : q ∉ P'.shared.live)
    (calm : g.CalmAt q) : P.shared.stopping = true ∧ P.shared.queued = [] := by
  cases Pool.acted hs with
  | call => exact absurd hq hq'
  | crash => exact uncrashed.elim
  | @disturb d =>
    refine absurd ?_ hq'
    cases d with
    | cancel p =>
      change q ∈ (P.shared.disturb core (.cancel p)).live
      rw [State.disturb]
      split_ifs <;> exact hq
    | _ =>
      rw [show (P.shared.disturb core _).live = P.shared.live from (State.fed_disturb _ (by simp)).live]
      exact hq
  | @ret p o r hp =>
    change q ∉ (P.shared.note p o r).live at hq'
    have own : q = p := by
      rcases State.live_note (σ := P.shared) (p := p) o r with live | live
      · exact absurd (live ▸ hq) hq'
      · by_contra ne
        exact hq' (by rw [live]; simp [hq, ne])
    subst own
    have placed := h.placed q
    rw [hp] at placed
    cases o with
    | turn =>
      obtain ⟨t, rfl, -, ⟨-, stays, quiet⟩ | ⟨idle, -⟩⟩ := placed.result
      · cases t with
        | again => exact absurd hq hq'
        | stopped => exact absurd rfl stays
        | raised exc => exact absurd rfl (quiet calm exc)
      · exact absurd hq idle
    | boot =>
      obtain ⟨-, ⟨code, -⟩ | ⟨⟨r', result⟩, -⟩⟩ := placed
      · cases code
      · cases result
        exact absurd hq hq'
    | _ => exact absurd hq placed.1
  | exec => exact State.ends_exec hq hq'

end Staffed

/-! ## Runs -/

/-- The runs of a bus: no task disappears. -/
def Runs (core : BusCore) (P : Pool (bus core)) (a : Act (bus core)) : Prop :=
  Pool.Meets Awaits P a ∧ a.Uncrashed

section Reached

variable {core : BusCore} {store : SqliteOutbox} {P : Pool (bus core)} {g : Watch}

theorem staffed_reached (hr : Pool.Recorded (Runs core) (Watch.after core) (core.new store) {} P g) :
    Staffed core P g := by
  induction hr with
  | refl => exact .new store
  | @step P P' g a _ ha hs ih =>
    cases Pool.acted hs with
    | call hp accepts => exact ih.called hp accepts
    | @exec p i o c k hp =>
      have watched : g.after core P (.exec p i) = g.issue core p o c i P.shared := by simp [Watch.after, hp]
      rw [watched]
      exact ih.executed hp (ha.1 _ _ _ hp)
    | ret hp => exact ih.returned hp
    | crash => exact ha.2.elim
    | disturb => exact ih.disturbed _

/-- A task in the line for a permit is a worker that waits for it. -/
theorem Staffed.of_inLine (h : Staffed core P g) {p : ℕ} (hp : p ∈ P.shared.items.line) :
    p ∈ P.shared.live ∧ P.actors p = .calling .turn core.awaiting := by
  have placed := h.placed p
  match actor : P.actors p with
  | .resting .worker | .resting .free | .resting .relay =>
    rw [actor] at placed
    exact absurd hp placed.2
  | .calling .boot x =>
    rw [actor] at placed
    exact absurd hp placed.1
  | .calling .turn x =>
    rw [actor] at placed
    have placed : Stage core (p ∈ P.shared.live) (p ∈ P.shared.items.line) (g.CalmAt p) (g.guards p) x := placed
    cases placed with
    | awaiting hw hl => exact ⟨hw, rfl⟩
    | begun hw hl | holding hw hl | serving hw hl | finished hw hl => exact absurd hp hl
  | .calling (.publish _ _) x | .calling .fanOut x | .calling (.transport _) x | .calling (.start _) x
  | .calling (.close _) x | .calling .relayFirst x | .calling .relayTurn x =>
    rw [actor] at placed
    exact absurd hp placed.2.1

theorem Staffed.enough_holders (h : Staffed core P g) :
    P.shared.queued.length ≤ P.shared.items.value + (holders P).length := by
  have granted : ∀ p ∈ P.shared.items.granted, p ∈ P.shared.live ∧ Taking (P.actors p) = false := by
    intro p hp
    obtain ⟨working, actor⟩ := h.of_inLine (List.mem_append_left _ hp)
    exact ⟨working, by rw [actor]; rfl⟩
  have nodup : P.shared.items.granted.Nodup := List.Nodup.of_append_left h.fair.nodup
  have both := length_le_filter nodup h.nodup granted
  have enough := h.enough
  rw [Asyncio.Semaphore.permits] at enough
  rw [holders]
  omega

/-- When every worker waits for a permit, there is nothing in the queues. -/
theorem Staffed.queued_of_idle (h : Staffed core P g) (some : P.shared.live ≠ [])
    (idle : ∀ p ∈ P.shared.live, p ∈ P.shared.items.waiters) : P.shared.queued = [] := by
  have none : P.shared.items.granted = [] := by
    refine List.eq_nil_iff_forall_not_mem.2 fun p hp => ?_
    have waits := idle p (h.of_inLine (List.mem_append_left _ hp)).1
    exact (List.nodup_append.1 h.fair.nodup).2.2 p hp p waits rfl
  have waiting : P.shared.items.waiters ≠ [] := by
    obtain ⟨p, hp⟩ := List.exists_mem_of_ne_nil _ some
    exact List.ne_nil_of_mem (idle p hp)
  have zero : P.shared.items.value = 0 := (h.fair.passing waiting).resolve_right fun granted => granted none
  have empty : holders P = [] := by
    rw [holders, List.filter_eq_nil_iff]
    intro p hp
    rw [none, (h.of_inLine (List.mem_append_right _ (idle p hp))).2]
    simp [Taking, BusCore.awaiting_eq]
  have enough := h.enough_holders
  rw [zero, empty] at enough
  exact List.eq_nil_of_length_eq_zero (Nat.le_zero.1 enough)

end Reached

/-- In every run the permits, with the workers that were granted one and have not taken an envelope with it,
are at least the envelopes in the queues, so nothing is in the queues while every worker waits. A worker that
no close has cancelled ends only when it is to stop and all queues are empty, in every run in which no
dispatch lets an exception of a handler, a filter or the dead-letter callback through. -/
theorem permits_suffice (core : BusCore) {store : SqliteOutbox} {P : Pool (bus core)} {g : Watch}
    (hr : Pool.Recorded (Runs core) (Watch.after core) (core.new store) {} P g) :
    P.shared.queued.length ≤ P.shared.items.value + (holders P).length ∧
      (P.shared.live ≠ [] → (∀ p ∈ P.shared.live, p ∈ P.shared.items.waiters) → P.shared.queued = []) ∧
      (g.contained = true → ∀ a P' p, Runs core P a → P.act a = some P' → p ∈ P.shared.live →
        p ∉ P'.shared.live → g.cut p = false → P.shared.stopping = true ∧ P.shared.queued = []) := by
  have staffed := staffed_reached hr
  exact ⟨staffed.enough_holders, staffed.queued_of_idle, fun contained a P' p ha hs hp hp' cut =>
    staffed.ends hs ha.2 hp hp' ⟨contained, cut⟩⟩

/-! ## A bus with one worker -/

namespace Single

/-- A bus with one worker and one attempt for each handler. -/
def core : BusCore := .init 1 0 1 [] .block none false false 5 10 60 false ⟨fun _ => none, fun _ => none⟩

/-- An event of the application. -/
def event (eventId : String) : Envelope :=
  .make eventId "shop.orders".toList .null (.str "shop") .info .normal .null epoch

/-- The bus starts and its worker runs. -/
def started : List (Act (bus core)) :=
  [.call 1 (.start false), .exec 1 {}, .ret 1, .call 0 .boot, .exec 0 {}, .ret 0]

/-- An event is published. -/
def published (eventId : String) : List (Act (bus core)) :=
  [.call 1 (.publish (event eventId) false), .exec 1 {}, .ret 1]

/-- An event without subscribers is dispatched, the bus is closed, and its worker has a permit. -/
def stopping : List (Act (bus core)) :=
  started ++ published "a" ++ [.call 0 .turn, .exec 0 {}, .exec 0 {}, .exec 0 {}, .exec 0 {}, .ret 0] ++
    [.call 1 (.close .null), .exec 1 {}, .exec 1 {}, .call 0 .turn, .exec 0 {}]

/-- A subscription of every topic. -/
def subscriber : Subscription := { subscriberId := "s", pattern := ['*'] }

/-- A handler raises an exception whose `str` raises. -/
def unprintable : Input := { handler := { result := .error (.exception "ValueError" none) } }

/-- Two events are published; the first is dispatched when the drain of a close has taken too long, and its
handler raises. -/
def failing : List (Act (bus core)) :=
  [.disturb (.subscribe subscriber)] ++ started ++ published "a" ++ published "b" ++
    [.call 0 .turn, .exec 0 {}, .exec 0 {}, .exec 0 {}] ++
    [.call 1 (.close .null), .exec 1 {}, .exec 1 { deadline := true }, .exec 0 unprintable, .exec 0 {}]

end Single

/-- The worker has its permit when it is to stop; it finds nothing, and ends. -/
theorem permits_suffice_witness :
    ∃ P g, Pool.Recorded (Runs Single.core) (Watch.after Single.core)
      (Single.core.new { maxRows := 1, maxAge := 1 }) {} P g ∧ g.contained = true ∧ holders P = [0] ∧
      (∃ P', P.act (.exec 0 {}) = some P' ∧ P'.shared.live = []) ∧
      P.shared.stopping = true ∧ P.shared.queued = [] := by
  have ran : ∃ r ∈ (Single.core.new { maxRows := 1, maxAge := 1 }).recordIf Awaits (Watch.after Single.core) {}
      Single.stopping, r.2.contained = true ∧ r.2.cut 0 = false ∧ holders r.1 = [0] ∧ r.1.shared.live = [0] ∧
        (∃ P' ∈ r.1.act (.exec 0 {}), P'.shared.live = []) ∧ r.1.meets Awaits (.exec 0 {}) = true := by
    decide +kernel
  obtain ⟨⟨P, g⟩, run, contained, cut, holds, live, ⟨P', acted, ended⟩, ready⟩ := ran
  have recorded : Pool.Recorded (Runs Single.core) (Watch.after Single.core)
      (Single.core.new { maxRows := 1, maxAge := 1 }) {} P g := .of_recordIf (by decide) run
  have runs : Runs Single.core P (.exec 0 {}) := ⟨.of_meets ready, trivial⟩
  have ends := (permits_suffice Single.core recorded).2.2 contained (.exec 0 {}) P' 0 runs acted
    (by rw [show P.shared.live = [0] from live]; simp)
    (by rw [show P'.shared.live = [] from ended]; simp) cut
  exact ⟨P, g, recorded, contained, holds, ⟨P', acted, ended⟩, ends⟩

/-- A handler raises an exception whose `str` raises: its worker ends with an envelope in the queues, though
it was not cancelled. -/
theorem worker_lost :
    ∃ P g P', Pool.Recorded (Runs Single.core) (Watch.after Single.core)
      (Single.core.new { maxRows := 1, maxAge := 1 }) {} P g ∧ P.act (.ret 0) = some P' ∧
      P.shared.live = [0] ∧ P'.shared.live = [] ∧ g.cut 0 = false ∧ P.shared.stopping = true ∧
      P.shared.queued.map (fun item => item.envelope.eventId) = ["", "b"] := by
  have ran : ∃ r ∈ (Single.core.new { maxRows := 1, maxAge := 1 }).recordIf Awaits (Watch.after Single.core) {}
      Single.failing, (∃ P' ∈ r.1.act (.ret 0), P'.shared.live = []) ∧ r.1.shared.live = [0] ∧
        r.2.cut 0 = false ∧ r.1.shared.stopping = true ∧
        r.1.shared.queued.map (fun item => item.envelope.eventId) = ["", "b"] := by
    decide +kernel
  obtain ⟨⟨P, g⟩, run, ⟨P', acted, ended⟩, live, cut, stopping, queued⟩ := ran
  exact ⟨P, g, P', .of_recordIf (by decide) run, acted, live, ended, cut, stopping, queued⟩

end NavigatorEventbus.Bus
