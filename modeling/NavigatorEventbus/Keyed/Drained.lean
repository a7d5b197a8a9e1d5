import NavigatorEventbus.Keyed.Drainer
import NavigatorEventbus.Keyed.Locks

/-!
# What a drain does and reports

A drain keeps to the keys that it was asked for, runs the handler of a key once at a time and not again after an
outcome other than an ack, counts every run in one counter of its report, and begins no lease attempt once enough
retries in a row have been counted (`Contained`).  The events of a task follow a fixed course (`Course`), and the
report follows the events of all of them (`Ledger`), whatever the order of the steps.
-/

namespace NavigatorEventbus

open Interleave

/-! ## Courses -/

/-- Where the events of a task leave it. -/
inductive DrainStage where
  | ready
  | attempting
  | running
  | ended (outcome : Outcome)
  | finished

/-- The events of a task, latest first. A run begins with a lease, comes to its end and is counted, before anything
else happens; only after an ack does it go on. -/
inductive Course : DrainStage → List DrainEvent → Prop where
  | start : Course .ready []
  | attempt {l : List DrainEvent} (h : Course .ready l) : Course .attempting (.attempted :: l)
  | refuse {l : List DrainEvent} (h : Course .attempting l) : Course .finished (.refused :: l)
  | run {l : List DrainEvent} (h : Course .attempting l) (lease : KeyedLease) : Course .running (.ran lease :: l)
  | finish {l : List DrainEvent} (h : Course .running l) (outcome : Outcome) :
    Course (.ended outcome) (.ended outcome :: l)
  | ack {l : List DrainEvent} (h : Course (.ended .ack) l) : Course .ready (.counted .acked :: l)
  | stop {l : List DrainEvent} {outcome : Outcome} (h : Course (.ended outcome) l) (other : outcome ≠ .ack) :
    Course .finished (.counted outcome.tally :: l)
  | lose {l : List DrainEvent} {outcome : Outcome} (h : Course (.ended outcome) l) :
    Course .finished (.counted .busy :: l)

/-- No run is open. -/
def DrainStage.Settled : DrainStage → Prop
  | .running => False
  | .ended _ => False
  | _ => True

/-- The stages in which a task may be where it is. -/
def DrainTask.Fits : DrainTask → DrainStage → Prop
  | .created, stage => stage = .ready
  | .waiting, stage => stage = .ready
  | .leasing, stage => stage = .attempting
  | .handling _ _, stage => stage = .running
  | .applying _ outcome, stage => stage = .ended outcome
  | .releasing _, _ => True
  | .returned, stage => stage.Settled
  | .raised _, _ => True

/-! ## The report -/

/-- How many runs were counted so. -/
def tallied (tally : Tally) (log : History DrainEvent) : ℕ :=
  History.total (fun e => if e = .counted tally then 1 else 0) log

/-- How many lease attempts found their key locked. -/
def refusals (log : History DrainEvent) : ℕ := History.total (fun e => if e = .refused then 1 else 0) log

/-- How many times a handler was run. -/
def handlerRuns (log : History DrainEvent) : ℕ :=
  History.total (fun e => match e with | .ran _ => 1 | _ => 0) log

/-- The retries counted since the last ack. -/
def failuresInARow : History DrainEvent → ℕ
  | [] => 0
  | (_, .counted .acked) :: _ => 0
  | (_, .counted .retried) :: log => failuresInARow log + 1
  | _ :: log => failuresInARow log

/-- A retry that made `n` in a row has been counted. -/
def Tripped (n : ℤ) : History DrainEvent → Prop
  | [] => False
  | (i, e) :: log => Tripped n log ∨ e = .counted .retried ∧ n ≤ failuresInARow ((i, e) :: log)

/-- The report agrees with what has happened, and no attempt began once it should not. -/
structure Ledger (d : Drain) (report : DrainReport) (consecutiveRetries : ℕ) (log : History DrainEvent) : Prop where
  counters : ∀ tally, report.counter tally = tallied tally log + if tally = .busy then refusals log else 0
  consecutive : consecutiveRetries = failuresInARow log
  stopped : Tripped d.stopAfterFailures log → report.stoppedEarly = true
  attempts : History.Each (fun _ e before => e = .attempted → ¬ Tripped d.stopAfterFailures before) log

section Ledger

variable {d : Drain} {report : DrainReport} {c i : ℕ} {log : History DrainEvent} {e : DrainEvent}

theorem counter_add (report : DrainReport) (t t' : Tally) :
    (report.add t).counter t' = report.counter t' + if t' = t then 1 else 0 := by
  cases t <;> cases t' <;> rfl

theorem stoppedEarly_add (report : DrainReport) (t : Tally) : (report.add t).stoppedEarly = report.stoppedEarly := by
  cases t <;> rfl

theorem tallied_cons (tally : Tally) :
    tallied tally ((i, e) :: log) = (if e = .counted tally then 1 else 0) + tallied tally log :=
  History.total_cons _

theorem refusals_cons : refusals ((i, e) :: log) = (if e = .refused then 1 else 0) + refusals log :=
  History.total_cons _

theorem not_tripped_cons (h : Tripped d.stopAfterFailures ((i, e) :: log)) (other : e ≠ .counted .retried) :
    Tripped d.stopAfterFailures log :=
  h.resolve_right fun ⟨same, _⟩ => other same

theorem ledger_start : Ledger d {} 0 [] where
  counters tally := by cases tally <;> rfl
  consecutive := rfl
  stopped h := h.elim
  attempts := .nil _

/-- An event that is not counted. -/
theorem Ledger.pass (h : Ledger d report c log) (uncounted : ∀ tally, e ≠ .counted tally) (served : e ≠ .refused)
    (go : e = .attempted → report.stoppedEarly = false) : Ledger d report c ((i, e) :: log) where
  counters tally := by
    rw [tallied_cons, refusals_cons, if_neg (uncounted tally), if_neg served, Nat.zero_add, Nat.zero_add]
    exact h.counters tally
  consecutive := by
    rw [h.consecutive]
    cases e with
    | counted tally => exact absurd rfl (uncounted tally)
    | _ => rfl
  stopped tripped := h.stopped (not_tripped_cons tripped (uncounted _))
  attempts := h.attempts.cons fun attempted tripped => by
    have := h.stopped tripped
    rw [go attempted] at this
    cases this

theorem Ledger.refuse (h : Ledger d report c log) : Ledger d (report.add .busy) c ((i, .refused) :: log) where
  counters tally := by
    rw [tallied_cons, refusals_cons, counter_add, h.counters]
    cases tally <;> simp
    omega
  consecutive := h.consecutive
  stopped tripped := by
    rw [stoppedEarly_add]
    exact h.stopped (not_tripped_cons tripped nofun)
  attempts := h.attempts.cons nofun

theorem counters_count (h : Ledger d report c log) (t tally : Tally) :
    (report.add t).counter tally = tallied tally ((i, .counted t) :: log) +
      if tally = .busy then refusals ((i, .counted t) :: log) else 0 := by
  rw [tallied_cons, refusals_cons, counter_add, h.counters]
  cases tally <;> cases t <;> simp <;> omega

/-- A run that is counted as neither an ack nor a retry. -/
theorem Ledger.count (h : Ledger d report c log) {t : Tally} (notAck : t ≠ .acked) (notRetry : t ≠ .retried) :
    Ledger d (report.add t) c ((i, .counted t) :: log) where
  counters := counters_count h t
  consecutive := by
    rw [h.consecutive]
    cases t with
    | acked => exact absurd rfl notAck
    | retried => exact absurd rfl notRetry
    | _ => rfl
  stopped tripped := by
    rw [stoppedEarly_add]
    refine h.stopped (not_tripped_cons tripped fun same => ?_)
    cases same
    exact notRetry rfl
  attempts := h.attempts.cons nofun

theorem Ledger.ack (h : Ledger d report c log) : Ledger d (report.add .acked) 0 ((i, .counted .acked) :: log) where
  counters := counters_count h .acked
  consecutive := rfl
  stopped tripped := by
    rw [stoppedEarly_add]
    exact h.stopped (not_tripped_cons tripped nofun)
  attempts := h.attempts.cons nofun

theorem Ledger.retry (h : Ledger d report c log) :
    Ledger d { report.add .retried with
      stoppedEarly := report.stoppedEarly || decide (d.stopAfterFailures ≤ (c + 1 : ℕ)) } (c + 1)
      ((i, .counted .retried) :: log) where
  counters tally := (counters_count h .retried tally).symm ▸ by cases tally <;> rfl
  consecutive := by rw [h.consecutive, failuresInARow]
  stopped tripped := by
    rcases tripped with tripped | ⟨-, enough⟩
    · simp [h.stopped tripped]
    · rw [failuresInARow, ← h.consecutive] at enough
      change (report.stoppedEarly || decide (d.stopAfterFailures ≤ (c + 1 : ℕ))) = true
      rw [decide_eq_true enough, Bool.or_true]
  attempts := h.attempts.cons nofun

end Ledger

/-! ## The tasks -/

/-- The candidates that have been chosen are distinct keys that were asked for. -/
def Drain.Chooses (d : Drain) (candidates : List Key) : Prop := candidates.Nodup ∧ ∀ key ∈ candidates, d.Requested key

/-- What holds of the candidates while the drain has not gathered its tasks, and of its report once it has returned. -/
def DrainMain.Consistent (d : Drain) (s : DrainState) : DrainMain → Prop
  | .started => s.candidates = []
  | .unpaused => s.candidates = []
  | .listed _ => s.candidates = []
  | .sorted candidates => s.candidates = [] ∧ d.Chooses candidates
  | .releasing _ candidates => s.candidates = [] ∧ d.Chooses candidates
  | .awaiting _ candidates => s.candidates = [] ∧ d.Chooses candidates
  | .chosen candidates => s.candidates = [] ∧ d.Chooses candidates
  | .gathering _ => True
  | .returned report => report = s.report ∧ ∀ i < s.candidates.length, s.tasks i = .returned
  | .raised _ => True

/-- The invariant of a drain, apart from the actors. -/
structure Accounted (d : Drain) (s : DrainState) : Prop where
  courses : ∀ i, ∃ stage, Course stage (s.log.own i) ∧ (s.tasks i).Fits stage
  ledger : Ledger d s.report s.consecutiveRetries s.log
  keys : ∀ j lease, (j, .ran lease) ∈ s.log → s.candidates[j]? = some lease.key
  beyond : ∀ i, s.candidates.length ≤ i → s.tasks i = .created
  chosen : d.Chooses s.candidates
  main : s.main.Consistent d s

/-- The same in the middle of a step of task `i`, whose events leave it at `stage`. -/
structure Stepping (d : Drain) (i : ℕ) (stage : DrainStage) (s : DrainState) : Prop where
  course : Course stage (s.log.own i)
  others : ∀ j, j ≠ i → ∃ stage, Course stage (s.log.own j) ∧ (s.tasks j).Fits stage
  ledger : Ledger d s.report s.consecutiveRetries s.log
  keys : ∀ j lease, (j, .ran lease) ∈ s.log → s.candidates[j]? = some lease.key
  inside : i < s.candidates.length
  beyond : ∀ j, s.candidates.length ≤ j → s.tasks j = .created
  chosen : d.Chooses s.candidates
  active : s.main matches .gathering _ | .raised _

section Tasks

variable {d : Drain} {s s' : DrainState} {i : ℕ} {stage : DrainStage} {outcome : Outcome}

theorem Accounted.stepping (h : Accounted d s) (inside : i < s.candidates.length) (ne : s.tasks i ≠ .returned) :
    ∃ stage, (s.tasks i).Fits stage ∧ Stepping d i stage s := by
  obtain ⟨stage, course, fits⟩ := h.courses i
  refine ⟨stage, fits, course, fun j _ => h.courses j, h.ledger, h.keys, inside, h.beyond, h.chosen, ?_⟩
  have main := h.main
  have empty : s.candidates = [] → False := fun none => by simp [none] at inside
  cases hm : s.main with
  | gathering | raised => rfl
  | returned report =>
    rw [hm] at main
    exact absurd (main.2 i inside) ne
  | started | unpaused | listed =>
    rw [hm] at main
    exact (empty main).elim
  | sorted | releasing | awaiting | chosen =>
    rw [hm] at main
    exact (empty main.1).elim

/-- A task that has left its beginning is the task of a candidate. -/
theorem Accounted.inside (h : Accounted d s) (ne : s.tasks i ≠ .created) : i < s.candidates.length := by
  by_contra beyond
  exact ne (h.beyond i (Nat.le_of_not_lt beyond))

theorem Stepping.done (h : Stepping d i stage s) {t : DrainTask} (fits : t.Fits stage) : Accounted d (s.moveTo i t) where
  courses j := by
    by_cases hj : j = i
    · subst hj
      exact ⟨stage, h.course, by simpa [DrainState.moveTo] using fits⟩
    · obtain ⟨stage', course, fits'⟩ := h.others j hj
      exact ⟨stage', course, by simpa [DrainState.moveTo, hj] using fits'⟩
  ledger := h.ledger
  keys := h.keys
  beyond j hj := by
    have ne : j ≠ i := fun same => absurd h.inside (by
      subst same
      exact Nat.not_lt.2 hj)
    simpa [DrainState.moveTo, ne] using h.beyond j hj
  chosen := h.chosen
  main := by
    change s.main.Consistent d _
    have active := h.active
    cases hm : s.main with
    | gathering | raised => trivial
    | _ => simp [hm] at active

theorem Stepping.leave (h : Stepping d i stage s) (settled : stage.Settled) : Accounted d (s.leave i) :=
  let done := h.done (t := .returned) settled
  ⟨done.courses, done.ledger, done.keys, done.beyond, done.chosen, done.main⟩

theorem Stepping.raise (h : Stepping d i stage s) (error : DrainError) : Accounted d (s.raise i error) :=
  let done := h.done (t := .raised error) trivial
  ⟨done.courses, done.ledger, done.keys, done.beyond, done.chosen, done.main⟩

/-- An event of the task, with what it does to the counters. -/
theorem Stepping.event (h : Stepping d i stage s) {e : DrainEvent} {stage' : DrainStage} {report : DrainReport} {c : ℕ}
    (course : Course stage' (e :: s.log.own i)) (ledger : Ledger d report c ((i, e) :: s.log))
    (key : ∀ lease, e = .ran lease → s.candidates[i]? = some lease.key) :
    Stepping d i stage' { s with report, consecutiveRetries := c, log := (i, e) :: s.log } where
  course := by
    rw [History.own_cons_self]
    exact course
  others j hj := by
    rw [History.own_cons_of_ne (Ne.symm hj)]
    exact h.others j hj
  ledger := ledger
  keys j lease hj := by
    rcases List.mem_cons.1 hj with same | hj
    · obtain ⟨rfl, ran⟩ := Prod.mk.inj same
      exact key lease ran.symm
    · exact h.keys j lease hj
  inside := h.inside
  beyond := h.beyond
  chosen := h.chosen
  active := h.active

theorem Stepping.of_pool (h : Stepping d i stage s) (pool : KeyedPool) : Stepping d i stage { s with pool } :=
  ⟨h.course, h.others, h.ledger, h.keys, h.inside, h.beyond, h.chosen, h.active⟩

theorem Stepping.of_sem (h : Stepping d i stage s) (sem : Asyncio.Semaphore) : Stepping d i stage { s with sem } :=
  ⟨h.course, h.others, h.ledger, h.keys, h.inside, h.beyond, h.chosen, h.active⟩

theorem Accounted.of_pool (h : Accounted d s) (pool : KeyedPool) : Accounted d { s with pool } := by
  refine ⟨h.courses, h.ledger, h.keys, h.beyond, h.chosen, ?_⟩
  have main := h.main
  cases hm : s.main <;> rw [hm] at main <;> exact main

theorem call_eq {p : ℕ} {op : KeyedOp} (hs : s.call d p op = some s') :
    s.pool.act (.call p ⟨d.queue, op⟩) = some s'.pool ∧ s' = { s with pool := s'.pool } := by
  obtain ⟨pool, act, rfl⟩ := Option.map_eq_some_iff.1 hs
  exact ⟨act, rfl⟩

theorem abort_eq {p : ℕ} (hs : s.abort p = some s') :
    s.pool.act (.crash p) = some s'.pool ∧ s' = { s with pool := s'.pool } := by
  obtain ⟨pool, act, rfl⟩ := Option.map_eq_some_iff.1 hs
  exact ⟨act, rfl⟩

theorem result_eq {p : ℕ} {r : KeyedResult} (hs : s.result p = some (r, s')) :
    ∃ o, s.pool.actors p = .calling o (.pure r) ∧ s.pool.act (.ret p) = some s'.pool ∧
      s' = { s with pool := s'.pool } := by
  obtain ⟨⟨o, r'⟩, result, hs⟩ := Option.bind_eq_some_iff.1 hs
  obtain ⟨pool, act, hs⟩ := Option.map_eq_some_iff.1 hs
  obtain ⟨rfl, rfl⟩ := Prod.mk.inj hs
  exact ⟨o, Actor.result_eq_some.1 result, act, rfl⟩

theorem Stepping.loopTop (h : Stepping d i .ready s) {fuel : ℕ} (hs : s.loopTop d i fuel = some s') : Accounted d s' := by
  unfold DrainState.loopTop at hs
  split_ifs at hs with early
  · cases hs
    exact h.leave trivial
  · obtain ⟨key, -, hs⟩ := Option.bind_eq_some_iff.1 hs
    obtain ⟨s₁, called, rfl⟩ := Option.map_eq_some_iff.1 hs
    obtain ⟨-, eq⟩ := call_eq called
    rw [eq]
    have go : s.report.stoppedEarly = false := by simpa using early
    have event := (h.of_pool s₁.pool).event (e := .attempted) (.attempt h.course)
      (h.ledger.pass (fun _ => nofun) nofun fun _ => go) fun lease ran => by cases ran
    exact event.done (t := .leasing) rfl

theorem Stepping.settled (h : Stepping d i (.ended outcome) s) {fuel : ℕ}
    (hs : s.settled d i outcome fuel = some s') : Accounted d s' := by
  have finished : outcome ≠ .ack → outcome.tally ≠ .retried → Stepping d i .finished (s.count i outcome.tally) := by
    intro notAck notRetry
    have uncounted : outcome.tally ≠ .acked := by
      cases outcome with
      | ack => exact absurd rfl notAck
      | _ => exact nofun
    exact h.event (.stop h.course notAck) (h.ledger.count uncounted notRetry) fun lease ran => by cases ran
  cases outcome with
  | ack =>
    have event := h.event (.ack h.course) h.ledger.ack fun lease ran => by cases ran
    exact event.loopTop hs
  | retry delayMs reason =>
    have event := h.event (.stop h.course nofun) h.ledger.retry fun lease ran => by cases ran
    cases hs
    exact event.leave trivial
  | wait untilMs reason =>
    cases hs
    exact (finished nofun nofun).leave trivial
  | hold reason =>
    cases hs
    exact (finished nofun nofun).leave trivial

theorem Accounted.enter (h : Accounted d s) {fuel : ℕ} (hs : s.enter d i fuel = some s') : Accounted d s' := by
  unfold DrainState.enter at hs
  split at hs
  · rename_i created
    split_ifs at hs with inside
    obtain ⟨stage, fits, stepping⟩ := h.stepping inside (by rw [created]; nofun)
    rw [created] at fits
    cases fits
    generalize s.sem.acquire i = acquired at hs
    obtain ⟨granted, sem⟩ := acquired
    cases granted with
    | true => exact (stepping.of_sem sem).loopTop hs
    | false =>
      cases hs
      exact (stepping.of_sem sem).done (t := .waiting) rfl
  · cases hs

theorem Accounted.resume (h : Accounted d s) {fuel : ℕ} (hs : s.resume d i fuel = some s') : Accounted d s' := by
  unfold DrainState.resume at hs
  split at hs
  · rename_i waiting
    split_ifs at hs
    obtain ⟨stage, fits, stepping⟩ := h.stepping (h.inside (by rw [waiting]; nofun)) (by rw [waiting]; nofun)
    rw [waiting] at fits
    cases fits
    exact (stepping.of_sem _).loopTop hs
  · cases hs

theorem Accounted.leased (h : Accounted d s) (key : ∀ o lease reason, s.pool.actors (drainActor i) =
      .calling o (.pure (.leasedKey (.ok (some lease, reason)))) → s.candidates[i]? = some lease.key)
    (hs : s.leased i = some s') : Accounted d s' := by
  unfold DrainState.leased at hs
  split at hs
  · rename_i leasing
    obtain ⟨⟨r, s₁⟩, result, hs⟩ := Option.bind_eq_some_iff.1 hs
    obtain ⟨o, calling, -, eq⟩ := result_eq result
    obtain ⟨stage, fits, stepping⟩ := h.stepping (h.inside (by rw [leasing]; nofun)) (by rw [leasing]; nofun)
    rw [leasing] at fits
    cases fits
    have stepping : Stepping d i .attempting s₁ := eq ▸ stepping.of_pool s₁.pool
    cases r with
    | leasedKey r =>
      match r with
      | .ok (some lease, _) =>
        cases hs
        have event := stepping.event (.run stepping.course lease)
          (stepping.ledger.pass (e := .ran lease) (fun _ => nofun) nofun nofun) fun lease' ran => by
            obtain rfl := DrainEvent.ran.inj ran
            rw [eq]
            exact key _ _ _ calling
        exact event.done (t := .handling lease true) rfl
      | .ok (none, reason) =>
        dsimp only at hs
        split_ifs at hs
        · cases hs
          exact (stepping.event (.refuse stepping.course) stepping.ledger.refuse fun lease ran => by cases ran).leave trivial
        · cases hs
          exact stepping.leave trivial
      | .error e =>
        cases hs
        exact (stepping.of_sem _).raise _
    | _ => cases hs
  · cases hs

theorem Accounted.kept (h : Accounted d s) (hs : s.kept i = some s') : Accounted d s' := by
  unfold DrainState.kept at hs
  split at hs
  · rename_i lease keeping handling
    obtain ⟨⟨r, s₁⟩, result, hs⟩ := Option.map_eq_some_iff.1 hs
    obtain ⟨o, -, -, eq⟩ := result_eq result
    obtain ⟨stage, fits, stepping⟩ := h.stepping (h.inside (by rw [handling]; nofun)) (by rw [handling]; nofun)
    rw [handling] at fits
    cases fits
    have same : Accounted d s₁ := eq ▸ h.of_pool s₁.pool
    have stepping : Stepping d i .running s₁ := eq ▸ stepping.of_pool s₁.pool
    have lost : Accounted d (s₁.moveTo i (.handling lease false)) := stepping.done rfl
    subst hs
    dsimp only
    split
    · exact same
    · split_ifs
      · exact lost
      · exact same
    · exact lost
  · cases hs

theorem Accounted.handled (h : Accounted d s) {e : HandlerEnd} (hs : s.handled d i e = some s') : Accounted d s' := by
  unfold DrainState.handled at hs
  split at hs
  · rename_i lease keeping handling
    obtain ⟨stage, fits, stepping⟩ := h.stepping (h.inside (by rw [handling]; nofun)) (by rw [handling]; nofun)
    rw [handling] at fits
    cases fits
    split at hs
    · rename_i outcome _
      obtain ⟨s₁, called, rfl⟩ := Option.map_eq_some_iff.1 hs
      have stepping : Stepping d i .running s₁ := (call_eq called).2 ▸ stepping.of_pool s₁.pool
      have event := stepping.event (.finish stepping.course outcome)
        (stepping.ledger.pass (e := .ended outcome) (fun _ => nofun) nofun nofun) fun lease ran => by cases ran
      exact event.done (t := .applying lease outcome) rfl
    · obtain ⟨s₁, called, rfl⟩ := Option.map_eq_some_iff.1 hs
      have stepping : Stepping d i .running s₁ := (call_eq called).2 ▸ stepping.of_pool s₁.pool
      exact stepping.done (t := .releasing .cancelled) trivial
  · cases hs

theorem Accounted.applied (h : Accounted d s) {fuel : ℕ} (hs : s.applied d i fuel = some s') : Accounted d s' := by
  unfold DrainState.applied at hs
  split at hs
  · rename_i lease outcome applying
    obtain ⟨⟨r, s₁⟩, result, hs⟩ := Option.bind_eq_some_iff.1 hs
    obtain ⟨o, -, -, eq⟩ := result_eq result
    obtain ⟨stage, fits, stepping⟩ := h.stepping (h.inside (by rw [applying]; nofun)) (by rw [applying]; nofun)
    rw [applying] at fits
    cases fits
    have stepping : Stepping d i (.ended outcome) s₁ := eq ▸ stepping.of_pool s₁.pool
    cases r with
    | applied r =>
      cases r with
      | ok => exact stepping.settled hs
      | error e =>
        dsimp only at hs
        split_ifs at hs
        · cases hs
          have event := stepping.event (.lose stepping.course) (stepping.ledger.count (t := .busy) nofun nofun)
            fun lease ran => by cases ran
          exact event.leave trivial
        · obtain ⟨s₂, called, rfl⟩ := Option.map_eq_some_iff.1 hs
          have stepping : Stepping d i (.ended outcome) s₂ := (call_eq called).2 ▸ stepping.of_pool s₂.pool
          exact stepping.done (t := .releasing (.exc e)) trivial
    | _ => cases hs
  · cases hs

theorem Accounted.unlocked (h : Accounted d s) (hs : s.unlocked i = some s') : Accounted d s' := by
  unfold DrainState.unlocked at hs
  split at hs
  · rename_i error releasing
    obtain ⟨⟨r, s₁⟩, result, rfl⟩ := Option.map_eq_some_iff.1 hs
    obtain ⟨o, -, -, eq⟩ := result_eq result
    obtain ⟨stage, fits, stepping⟩ := h.stepping (h.inside (by rw [releasing]; nofun)) (by rw [releasing]; nofun)
    have stepping : Stepping d i stage s₁ := eq ▸ stepping.of_pool s₁.pool
    exact (stepping.of_sem _).raise error
  · cases hs

theorem Accounted.fail (h : Accounted d s) {error : DrainError} (hs : s.fail i error = some s') : Accounted d s' := by
  have raised : s.tasks i ≠ .returned → i < s.candidates.length → ∀ (pool : KeyedPool) (sem : Asyncio.Semaphore),
      Accounted d ({ s with pool, sem }.raise i error) := by
    intro ne inside pool sem
    obtain ⟨stage, -, stepping⟩ := h.stepping inside ne
    exact ((stepping.of_pool pool).of_sem sem).raise error
  unfold DrainState.fail at hs
  cases task : s.tasks i with
  | created =>
    rw [task] at hs
    dsimp only at hs
    split_ifs at hs with inside
    obtain rfl := Option.some.inj hs
    exact raised (by rw [task]; nofun) inside s.pool s.sem
  | waiting =>
    rw [task] at hs
    obtain rfl := Option.some.inj hs
    exact raised (by rw [task]; nofun) (h.inside (by rw [task]; nofun)) s.pool (s.sem.cancel i)
  | leasing | handling | applying | releasing =>
    rw [task] at hs
    obtain ⟨s₁, aborted, rfl⟩ := Option.map_eq_some_iff.1 hs
    rw [(abort_eq aborted).2]
    exact raised (by rw [task]; nofun) (h.inside (by rw [task]; nofun)) s₁.pool s.sem.release
  | returned | raised =>
    rw [task] at hs
    cases hs

end Tasks

/-! ## The drain itself -/

section Main

variable {d : Drain} {s s' : DrainState}

theorem Ledger.of_report {report report' : DrainReport} {c : ℕ} {log : History DrainEvent}
    (h : Ledger d report c log) (same : ∀ tally, report'.counter tally = report.counter tally)
    (early : report.stoppedEarly = true → report'.stoppedEarly = true) : Ledger d report' c log :=
  ⟨fun tally => (same tally).trans (h.counters tally), h.consecutive, fun tripped => early (h.stopped tripped),
    h.attempts⟩

theorem Accounted.of_main (h : Accounted d s) {main : DrainMain}
    (consistent : main.Consistent d { s with main }) : Accounted d { s with main } :=
  ⟨h.courses, h.ledger, h.keys, h.beyond, h.chosen, consistent⟩

theorem Drain.chooses_candidates (d : Drain) (names : List Key) : d.Chooses (d.candidates names) := by
  unfold Drain.candidates
  dsimp only
  have perm := fun l : List Key => List.perm_insertionSort (· ≤ ·) l
  split
  · rename_i none
    refine ⟨(perm _).nodup_iff.2 names.nodup_dedup, fun key _ keyPrefix hp => ?_⟩
    rw [hp, Option.filter_some] at none
    split_ifs at none with h
    obtain rfl : keyPrefix = "" := by simpa using h
    exact List.nil_prefix
  · rename_i keyPrefix hp
    refine ⟨(perm _).nodup_iff.2 (names.nodup_dedup.filter _), fun key hkey keyPrefix' hp' => ?_⟩
    have hkey := List.mem_filter.1 ((perm _).mem_iff.1 hkey)
    obtain ⟨hp, -⟩ := Option.filter_eq_some_iff.1 hp
    rw [hp] at hp'
    obtain rfl := Option.some.inj hp'
    simpa using hkey.2

theorem Drain.Chooses.filter {candidates : List Key} (h : d.Chooses candidates) (f : Key → Bool) :
    d.Chooses (candidates.filter f) :=
  ⟨h.1.filter f, fun key hkey => h.2 key (List.mem_filter.1 hkey).1⟩

theorem Accounted.checkPause (h : Accounted d s) (hs : s.checkPause d = some s') : Accounted d s' := by
  unfold DrainState.checkPause at hs
  have main := h.main
  split at hs
  · rename_i started
    rw [started] at main
    have empty : s.candidates = [] := main
    split_ifs at hs
    · cases hs
      exact ⟨h.courses, h.ledger.of_report (fun _ => rfl) fun _ => rfl, h.keys, h.beyond, h.chosen,
        rfl, fun i hi => by simp [empty] at hi⟩
    · cases hs
      exact h.of_main empty
  · cases hs

theorem Accounted.readKeys (h : Accounted d s) {reply : List Key} (hs : s.readKeys reply = some s') :
    Accounted d s' := by
  unfold DrainState.readKeys at hs
  have main := h.main
  split at hs
  · rename_i unpaused
    rw [unpaused] at main
    split_ifs at hs
    cases hs
    exact h.of_main main
  · cases hs

theorem Accounted.readDelayed (h : Accounted d s) (hs : s.readDelayed d = some s') : Accounted d s' := by
  unfold DrainState.readDelayed at hs
  have main := h.main
  split at hs
  · rename_i names listed
    rw [listed] at main
    cases hs
    exact h.of_main ⟨main, d.chooses_candidates _⟩
  · cases hs

theorem Accounted.readHeld (h : Accounted d s) (hs : s.readHeld d = some s') : Accounted d s' := by
  unfold DrainState.readHeld at hs
  have main := h.main
  split at hs
  · rename_i candidates sorted
    rw [sorted] at main
    dsimp only at hs
    split_ifs at hs
    · cases hs
      exact h.of_main main
    · cases hs
      exact h.of_main ⟨main.1, main.2.filter _⟩
  · cases hs

theorem Accounted.releaseNext (h : Accounted d s) (hs : s.releaseNext d = some s') : Accounted d s' := by
  unfold DrainState.releaseNext at hs
  have main := h.main
  split at hs
  · rename_i candidates releasing
    rw [releasing] at main
    cases hs
    exact h.of_main main
  · rename_i key held candidates releasing
    rw [releasing] at main
    obtain ⟨s₁, called, rfl⟩ := Option.map_eq_some_iff.1 hs
    rw [(call_eq called).2]
    exact (h.of_pool s₁.pool).of_main main
  · cases hs

theorem Accounted.released (h : Accounted d s) (hs : s.released = some s') : Accounted d s' := by
  unfold DrainState.released at hs
  have main := h.main
  split at hs
  · rename_i held candidates awaiting
    rw [awaiting] at main
    obtain ⟨⟨r, s₁⟩, result, rfl⟩ := Option.map_eq_some_iff.1 hs
    obtain ⟨o, -, -, eq⟩ := result_eq result
    dsimp only
    rw [eq]
    exact (h.of_pool s₁.pool).of_main main
  · cases hs

theorem Accounted.gather (h : Accounted d s) {expired : ℤ} (hs : s.gather d expired = some s') : Accounted d s' := by
  unfold DrainState.gather at hs
  have main := h.main
  split at hs
  · rename_i candidates chosen
    rw [chosen] at main
    obtain ⟨empty, chooses⟩ := main
    cases hs
    refine ⟨h.courses, h.ledger.of_report (fun tally => by cases tally <;> rfl) id, fun j lease hj => ?_,
      fun i _ => h.beyond i (by simp [empty]), chooses, trivial⟩
    have := h.keys j lease hj
    simp [empty] at this
  · cases hs

theorem Accounted.finish (h : Accounted d s) {expired elapsedMs : ℤ} (hs : s.finish expired elapsedMs = some s') :
    Accounted d s' := by
  unfold DrainState.finish at hs
  split at hs
  · split_ifs at hs with all
    cases hs
    refine ⟨h.courses, h.ledger.of_report (fun tally => by cases tally <;> rfl) id, h.keys, h.beyond, h.chosen, rfl,
      fun i hi => ?_⟩
    have returned := all i hi
    cases task : s.tasks i with
    | returned => rfl
    | _ => simp [task] at returned
  · cases hs

theorem Accounted.propagate (h : Accounted d s) (hs : s.propagate = some s') : Accounted d s' := by
  unfold DrainState.propagate at hs
  split at hs
  · cases hs
    exact h.of_main trivial
  · cases hs

theorem Accounted.failMain (h : Accounted d s) {error : DrainError} (hs : s.failMain error = some s') :
    Accounted d s' := by
  unfold DrainState.failMain at hs
  split at hs
  · cases hs
  · cases hs
  · obtain ⟨s₁, aborted, rfl⟩ := Option.map_eq_some_iff.1 hs
    rw [(abort_eq aborted).2]
    exact (h.of_pool s₁.pool).of_main trivial

end Main

/-! ## The actors -/

/-- A lease that an attempt on `key` returns is of that key. -/
def Names (key : Key) (r : Except Exc (Option KeyedLease × LeaseReason)) : Prop :=
  ∀ lease reason, r = .ok (some lease, reason) → lease.key = key

theorem Names.error {key : Key} (e : Exc) : Names key (.error e) := fun _ _ h => by cases h

theorem Names.none {key : Key} (reason : LeaseReason) : Names key (.ok (none, reason)) := fun _ _ h => by cases h

namespace KeyedQueue

variable (q : KeyedQueue)

theorem names_leaseHead (key : Key) (lock : Token) (receipt : Option Receipt) (ignoreDue : Bool) (mid : MsgId)
    (message : KeyedMessage) (now : ℤ) : (leaseHead key lock receipt ignoreDue mid message now).Yields (Names key) := by
  refine .bind (.of_forall (fun _ => trivial) _) fun held _ => ?_
  split_ifs
  · exact .none _
  dsimp only
  split_ifs
  · exact .bind (.of_forall (fun _ => trivial) _) fun _ _ => .none _
  · refine .bind (.of_forall (fun _ => trivial) _) fun r _ => ?_
    match r with
    | .error e =>
      dsimp only
      split_ifs
      · exact .none _
      · exact .error e
    | .ok (w, _) =>
      refine .bind (.of_forall (fun _ => trivial) _) fun done _ => ?_
      split_ifs
      · intro lease reason h
        cases h
        rfl
      · exact .none _

theorem names_leaseLocked (key : Key) (lock : Token) (receipt : Option Receipt) (ignoreDue : Bool) (fuel : ℕ) :
    (q.leaseLocked key lock receipt ignoreDue fuel).Yields (Names key) := by
  induction fuel with
  | zero => trivial
  | succ fuel ih =>
    refine .bind (.of_forall (fun _ => trivial) _) fun head _ => ?_
    cases head with
    | none => exact .bind (.of_forall (fun _ => trivial) _) fun _ _ => .none _
    | some mid =>
      refine .bind (.of_forall (fun _ => trivial) _) fun raw _ => ?_
      cases raw with
      | none =>
        exact .bind (.of_forall (fun _ => trivial) _) fun _ _ => .bind (.of_forall (fun _ => trivial) _) fun _ _ => ih
      | some raw =>
        dsimp only
        split
        · exact .error _
        · refine .bind (.of_forall (fun _ => trivial) _) fun now _ =>
            .bind (.of_forall (fun _ => trivial) _) fun r _ => ?_
          match r with
          | .ok true => exact ih
          | .ok false => exact names_leaseHead key lock receipt ignoreDue mid _ now
          | .error e =>
            dsimp only
            split_ifs
            · exact .none _
            · exact .error e

theorem names_leaseKeyDetailed (key : Key) (receipt : Option Receipt) (ignoreDue : Bool) (fuel : ℕ) :
    (q.leaseKeyDetailed key receipt ignoreDue fuel).Yields (Names key) := by
  refine .bind (.of_forall (fun _ => trivial) _) fun lock _ => ?_
  cases lock with
  | none => exact .bind (.of_forall (fun _ => trivial) _) fun _ _ => .none _
  | some lock =>
    refine .bind (q.names_leaseLocked ..) fun r names => ?_
    match r with
    | .error e => exact .bind (.of_forall (fun _ => trivial) _) fun _ _ => .error e
    | .ok (some lease, reason) => exact names
    | .ok (none, reason) =>
      exact .bind (.of_forall (fun _ => trivial) _) fun _ _ =>
        .bind (.of_forall (fun _ => trivial) _) fun _ _ => .none _

end KeyedQueue

/-- A lease that a call by key returns is of that key. -/
def KeyedCall.Gives (o : KeyedCall) (r : KeyedResult) : Prop :=
  ∀ lease reason, r = .leasedKey (.ok (some lease, reason)) → ∃ ignoreDue fuel, o.op = .leaseKey lease.key ignoreDue fuel

theorem KeyedCall.gives (o : KeyedCall) : o.code.Yields o.Gives := by
  obtain ⟨q, op⟩ := o
  have other : ∀ {α : Type} {x : Script α} {f : α → KeyedResult}, (∀ a r, f a ≠ .leasedKey r) →
      (x >>= fun a => pure (f a)).Yields (KeyedCall.Gives ⟨q, op⟩) :=
    fun ne => .bind (.of_forall (fun _ => trivial) _) fun a _ lease reason h => absurd h (ne a _)
  cases op with
  | leaseKey key ignoreDue fuel =>
    refine .bind (q.names_leaseKeyDetailed key none ignoreDue fuel) fun r names => ?_
    intro lease reason h
    obtain rfl := KeyedResult.leasedKey.inj h
    exact ⟨ignoreDue, fuel, by rw [names lease reason rfl]⟩
  | extend lease additionalMs commands =>
    have extended : (do return .extended (← q.extend lease additionalMs) : Script KeyedResult).Yields
        (KeyedCall.Gives ⟨q, .extend lease additionalMs commands⟩) := other fun _ _ h => by cases h
    cases commands with
    | none => exact extended
    | some n => exact extended.cutoff (fun _ _ h => by cases h) n
  | push | lease | apply | abandon | expireHead | promoteDue | recover | releaseHold | pause | resume =>
    exact other fun _ _ h => by cases h

/-- The transactions that a call may commit lease only what the call is about. -/
def KeyedCall.MayLease (o : KeyedCall) : Tx → Prop
  | .lease key _ _ _ _ _ =>
    match o.op with
    | .leaseKey key' _ _ => key' = key
    | .lease _ => True
    | _ => False
  | _ => True

theorem KeyedCall.commits (o : KeyedCall) : o.code.All (Commits o.MayLease) := by
  obtain ⟨q, op⟩ := o
  cases op with
  | push => exact .bind (q.commits_push (fun _ _ _ => trivial) _) fun _ => trivial
  | lease fuel =>
    refine .bind (q.commits_leaseTries (fun key => ?_) ..) fun _ => trivial
    exact ⟨trivial, fun _ _ _ _ => trivial, fun _ _ _ _ _ => trivial⟩
  | leaseKey key ignoreDue fuel =>
    refine .bind (q.commits_leaseKeyDetailed ?_ ..) fun _ => trivial
    exact ⟨trivial, fun _ _ _ _ => trivial, fun _ _ _ _ _ => rfl⟩
  | extend lease additionalMs commands =>
    have extended : (do return .extended (← q.extend lease additionalMs) : Script KeyedResult).All
        (Commits (KeyedCall.MayLease ⟨q, .extend lease additionalMs commands⟩)) :=
      ((q.silent_extend lease additionalMs).mono fun _ => Silent.commits).bind fun _ => trivial
    cases commands with
    | none => exact extended
    | some n => exact extended.cutoff .done n
  | apply lease outcome =>
    refine .bind (q.commits_apply lease trivial fun current now => ?_) fun _ => trivial
    unfold KeyedQueue.outcomeTx
    dsimp only
    split_ifs
    · trivial
    · cases outcome <;> trivial
  | abandon lease => exact .bind (KeyedQueue.commits_release ..) fun _ => trivial
  | expireHead key message => exact .bind (q.commits_expireHead (fun _ _ _ _ => trivial) ..) fun _ => trivial
  | promoteDue limit => exact .bind ((q.silent_promoteDue limit).mono fun _ => Silent.commits) fun _ => trivial
  | recover force fuel => exact .bind (q.commits_recover (fun _ => trivial) ..) fun _ => trivial
  | releaseHold key => exact .bind (q.commits_releaseHold key) fun _ => trivial
  | pause ttlMs reason => exact .bind ((q.onPlane_pause ttlMs reason).mono fun _ => OnPlane.commits) fun _ => trivial
  | resume => exact .bind (.one trivial) fun _ => trivial

/-- What the drain's own actor `p` may call. -/
def DrainWork (candidates : List Key) (p : ℕ) : KeyedOp → Prop
  | .leaseKey key _ _ => ∃ i, p = drainActor i ∧ candidates[i]? = some key
  | .extend _ _ _ => True
  | .apply _ _ => True
  | .abandon _ => True
  | .releaseHold _ => True
  | _ => False

/-- The actors have come here from a server in state `σ`, and those of the drain do its work. -/
structure Driven (σ : Server) (candidates : List Key) (P : KeyedPool) : Prop where
  reach : Pool.Reach (fun _ _ => True) (KeyedPool.resting σ) P
  works : ∀ p o x, p % 2 = 0 → P.actors p = .calling o x → DrainWork candidates p o.op

section Driven

variable {d : Drain} {σ : Server} {candidates : List Key} {P P' : KeyedPool} {s s' : DrainState} {i : ℕ}

theorem Driven.act (h : Driven σ candidates P) {a : Act actors} (hs : P.act a = some P')
    (calls : ∀ p o, a = .call p o → p % 2 = 0 → DrainWork candidates p o.op) : Driven σ candidates P' := by
  refine ⟨h.reach.step a trivial hs, ?_⟩
  let J (p : ℕ) (a : Actor redis KeyedCall KeyedResult KeyedPhase) : Prop :=
    ∀ (o : KeyedCall) x, a = .calling o x → p % 2 = 0 → DrainWork candidates p o.op
  have set : ∀ {p : ℕ} {a : Actor redis KeyedCall KeyedResult KeyedPhase} {σ' : Server}, J p a →
      ∀ q (o : KeyedCall) x, q % 2 = 0 → (({ P with shared := σ' } : KeyedPool).set p a).actors q = .calling o x →
        DrainWork candidates q o.op := by
    intro p a σ' new q o x even hq
    have all : J q ((Pool.set { P with shared := σ' } p a).actors q) :=
      Pool.forall_set new (fun q _ o x hq even => h.works q o x even hq) q
    exact all o x hq even
  cases Pool.acted hs with
  | @call p o φ hp accepts =>
    refine set fun o' x e even => ?_
    obtain ⟨rfl, -⟩ := Actor.calling.inj e
    exact calls p o rfl even
  | @exec p i o c k hp =>
    refine set fun o' x e even => ?_
    obtain ⟨rfl, -⟩ := Actor.calling.inj e
    exact h.works p o _ even hp
  | ret => exact set fun o' x e => by cases e
  | crash => exact set fun o' x e => by cases e
  | disturb => exact h.works

theorem Driven.called (h : Driven σ s.candidates s.pool) {p : ℕ} {op : KeyedOp} (hs : s.call d p op = some s')
    (work : DrainWork s.candidates p op) : Driven σ s'.candidates s'.pool := by
  obtain ⟨act, eq⟩ := call_eq hs
  have next : Driven σ s.candidates s'.pool := h.act act fun p o e _ => by
    obtain ⟨rfl, rfl⟩ := Act.call.inj e
    exact work
  rw [eq]
  exact next

theorem Driven.resulted (h : Driven σ s.candidates s.pool) {p : ℕ} {r : KeyedResult} (hs : s.result p = some (r, s')) :
    Driven σ s'.candidates s'.pool := by
  obtain ⟨o, -, act, eq⟩ := result_eq hs
  have next : Driven σ s.candidates s'.pool := h.act act fun p o e => by cases e
  rw [eq]
  exact next

theorem Driven.aborted (h : Driven σ s.candidates s.pool) {p : ℕ} (hs : s.abort p = some s') :
    Driven σ s'.candidates s'.pool := by
  obtain ⟨act, eq⟩ := abort_eq hs
  have next : Driven σ s.candidates s'.pool := h.act act fun p o e => by cases e
  rw [eq]
  exact next

theorem Driven.loopTop (h : Driven σ s.candidates s.pool) {fuel : ℕ} (hs : s.loopTop d i fuel = some s') :
    Driven σ s'.candidates s'.pool := by
  unfold DrainState.loopTop at hs
  split_ifs at hs
  · cases hs
    exact h
  · obtain ⟨key, hkey, hs⟩ := Option.bind_eq_some_iff.1 hs
    obtain ⟨s₁, called, rfl⟩ := Option.map_eq_some_iff.1 hs
    have work : DrainWork s.candidates (drainActor i) (.leaseKey key true fuel) := ⟨i, rfl, hkey⟩
    have h₁ : Driven σ s₁.candidates s₁.pool := h.called called work
    exact h₁

/-- No step of a task makes its actors do other work. -/
theorem Driven.task (h : Driven σ s.candidates s.pool) {m : TaskMove} (hs : s.taskStep d i m = some s') :
    Driven σ s'.candidates s'.pool := by
  cases m with
  | enter fuel =>
    change s.enter d i fuel = some s' at hs
    unfold DrainState.enter at hs
    split at hs
    · split_ifs at hs
      generalize s.sem.acquire i = acquired at hs
      obtain ⟨granted, sem⟩ := acquired
      cases granted with
      | true => exact Driven.loopTop (s := { s with sem }) h hs
      | false =>
        cases hs
        exact h
    · cases hs
  | resume fuel =>
    change s.resume d i fuel = some s' at hs
    unfold DrainState.resume at hs
    split at hs
    · split_ifs at hs
      exact Driven.loopTop (s := { s with sem := s.sem.resume i }) h hs
    · cases hs
  | leased =>
    change s.leased i = some s' at hs
    unfold DrainState.leased at hs
    split at hs
    · obtain ⟨⟨r, s₁⟩, result, hs⟩ := Option.bind_eq_some_iff.1 hs
      have h₁ := h.resulted result
      cases r with
      | leasedKey r =>
        match r with
        | .ok (some lease, _) =>
          cases hs
          exact h₁
        | .ok (none, reason) =>
          dsimp only at hs
          split_ifs at hs <;> cases hs <;> exact h₁
        | .error e =>
          cases hs
          exact h₁
      | _ => cases hs
    · cases hs
  | keep commands =>
    change s.keep d i commands = some s' at hs
    unfold DrainState.keep at hs
    split at hs
    · exact h.called hs trivial
    · cases hs
  | kept =>
    change s.kept i = some s' at hs
    unfold DrainState.kept at hs
    split at hs
    · obtain ⟨⟨r, s₁⟩, result, rfl⟩ := Option.map_eq_some_iff.1 hs
      have h₁ := h.resulted result
      dsimp only
      split
      · exact h₁
      · split_ifs <;> exact h₁
      · exact h₁
    · cases hs
  | handled e =>
    change s.handled d i e = some s' at hs
    unfold DrainState.handled at hs
    split at hs
    · split at hs
      · obtain ⟨s₁, called, rfl⟩ := Option.map_eq_some_iff.1 hs
        have h₁ : Driven σ s₁.candidates s₁.pool := h.called called trivial
        exact h₁
      · obtain ⟨s₁, called, rfl⟩ := Option.map_eq_some_iff.1 hs
        have h₁ : Driven σ s₁.candidates s₁.pool := h.called called trivial
        exact h₁
    · cases hs
  | applied fuel =>
    change s.applied d i fuel = some s' at hs
    unfold DrainState.applied at hs
    split at hs
    · rename_i lease outcome _
      obtain ⟨⟨r, s₁⟩, result, hs⟩ := Option.bind_eq_some_iff.1 hs
      have h₁ := h.resulted result
      cases r with
      | applied r =>
        cases r with
        | ok =>
          change s₁.settled d i outcome fuel = some s' at hs
          cases outcome with
          | ack =>
            exact Driven.loopTop (s := { s₁.count i .acked with consecutiveRetries := 0 }) h₁ hs
          | retry | wait | hold =>
            cases hs
            exact h₁
        | error e =>
          dsimp only at hs
          split_ifs at hs
          · cases hs
            exact h₁
          · obtain ⟨s₂, called, rfl⟩ := Option.map_eq_some_iff.1 hs
            have h₂ : Driven σ s₂.candidates s₂.pool := h₁.called called trivial
            exact h₂
      | _ => cases hs
    · cases hs
  | unlocked =>
    change s.unlocked i = some s' at hs
    unfold DrainState.unlocked at hs
    split at hs
    · obtain ⟨⟨r, s₁⟩, result, rfl⟩ := Option.map_eq_some_iff.1 hs
      have h₁ := h.resulted result
      exact h₁
    · cases hs
  | fail error =>
    change s.fail i error = some s' at hs
    unfold DrainState.fail at hs
    cases task : s.tasks i with
    | created =>
      rw [task] at hs
      dsimp only at hs
      split_ifs at hs
      obtain rfl := Option.some.inj hs
      exact h
    | waiting =>
      rw [task] at hs
      obtain rfl := Option.some.inj hs
      exact h
    | leasing | handling | applying | releasing =>
      rw [task] at hs
      obtain ⟨s₁, aborted, rfl⟩ := Option.map_eq_some_iff.1 hs
      have h₁ := h.aborted aborted
      exact h₁
    | returned | raised =>
      rw [task] at hs
      cases hs

theorem Driven.of_empty (h : Driven σ [] P) : Driven σ candidates P := by
  refine ⟨h.reach, fun p o x even hp => ?_⟩
  have work := h.works p o x even hp
  cases op : o.op with
  | leaseKey key ignoreDue fuel =>
    rw [op] at work
    obtain ⟨i, -, none⟩ := work
    simp at none
  | _ =>
    rw [op] at work
    exact work

/-- A lease that a task is handed is of its own key. -/
theorem Driven.key (h : Driven σ candidates P) {o : KeyedCall} {lease : KeyedLease} {reason : LeaseReason}
    (hp : P.actors (drainActor i) = .calling o (.pure (.leasedKey (.ok (some lease, reason))))) :
    candidates[i]? = some lease.key := by
  have gives : o.Gives (.leasedKey (.ok (some lease, reason))) :=
    h.reach.programs (J := fun (o : KeyedCall) x => x.Yields o.Gives) KeyedCall.gives (fun h r => h r)
      (fun p o x hp => by cases hp) _ _ _ hp
  obtain ⟨ignoreDue, fuel, op⟩ := gives lease reason rfl
  have work := h.works _ _ _ (by simp [drainActor]) hp
  rw [op] at work
  obtain ⟨j, same, key⟩ := work
  obtain rfl : i = j := by simpa [drainActor] using same
  exact key

/-- What a run of the drain keeps, one step. -/
theorem Accounted.step (h : Accounted d s) (driven : Driven σ s.candidates s.pool) {m : DrainMove}
    (hs : s.step d m = some s') : Accounted d s' := by
  cases m with
  | other a =>
    simp only [DrainState.step] at hs
    split_ifs at hs
    obtain ⟨pool, -, rfl⟩ := Option.map_eq_some_iff.1 hs
    exact h.of_pool pool
  | task i m =>
    cases m with
    | enter fuel => exact h.enter hs
    | resume fuel => exact h.resume hs
    | leased => exact h.leased (fun o lease reason hp => driven.key hp) hs
    | keep commands =>
      change s.keep d i commands = some s' at hs
      unfold DrainState.keep at hs
      split at hs
      · rw [(call_eq hs).2]
        exact h.of_pool _
      · cases hs
    | kept => exact h.kept hs
    | handled e => exact h.handled hs
    | applied fuel => exact h.applied hs
    | unlocked => exact h.unlocked hs
    | fail error => exact h.fail hs
  | checkPause => exact h.checkPause hs
  | readKeys reply => exact h.readKeys hs
  | readDelayed => exact h.readDelayed hs
  | readHeld => exact h.readHeld hs
  | releaseNext => exact h.releaseNext hs
  | released => exact h.released hs
  | gather expired => exact h.gather hs
  | finish expired elapsedMs => exact h.finish hs
  | propagate => exact h.propagate hs
  | failMain error => exact h.failMain hs

theorem Driven.step (h : Driven σ s.candidates s.pool) (accounted : Accounted d s) {m : DrainMove}
    (hs : s.step d m = some s') : Driven σ s'.candidates s'.pool := by
  cases m with
  | other a =>
    simp only [DrainState.step] at hs
    split_ifs at hs with outside
    obtain ⟨pool, act, rfl⟩ := Option.map_eq_some_iff.1 hs
    refine h.act act fun p o e even => ?_
    subst e
    have odd : p % 2 = 1 := outside
    omega
  | task i m => exact h.task hs
  | checkPause =>
    change s.checkPause d = some s' at hs
    unfold DrainState.checkPause at hs
    split at hs
    · split_ifs at hs <;> cases hs <;> exact h
    · cases hs
  | readKeys reply =>
    change s.readKeys reply = some s' at hs
    unfold DrainState.readKeys at hs
    split at hs
    · split_ifs at hs
      cases hs
      exact h
    · cases hs
  | readDelayed =>
    change s.readDelayed d = some s' at hs
    unfold DrainState.readDelayed at hs
    split at hs
    · cases hs
      exact h
    · cases hs
  | readHeld =>
    change s.readHeld d = some s' at hs
    unfold DrainState.readHeld at hs
    split at hs
    · dsimp only at hs
      split_ifs at hs <;> cases hs <;> exact h
    · cases hs
  | releaseNext =>
    change s.releaseNext d = some s' at hs
    unfold DrainState.releaseNext at hs
    split at hs
    · cases hs
      exact h
    · obtain ⟨s₁, called, rfl⟩ := Option.map_eq_some_iff.1 hs
      have h₁ : Driven σ s₁.candidates s₁.pool := h.called called trivial
      exact h₁
    · cases hs
  | released =>
    change s.released = some s' at hs
    unfold DrainState.released at hs
    split at hs
    · obtain ⟨⟨r, s₁⟩, result, rfl⟩ := Option.map_eq_some_iff.1 hs
      have h₁ := h.resulted result
      exact h₁
    · cases hs
  | gather expired =>
    change s.gather d expired = some s' at hs
    unfold DrainState.gather at hs
    have main := accounted.main
    split at hs
    · rename_i candidates chosen
      rw [chosen] at main
      rw [main.1] at h
      cases hs
      exact h.of_empty
    · cases hs
  | finish expired elapsedMs =>
    change s.finish expired elapsedMs = some s' at hs
    unfold DrainState.finish at hs
    split at hs
    · split_ifs at hs
      cases hs
      exact h
    · cases hs
  | propagate =>
    change s.propagate = some s' at hs
    unfold DrainState.propagate at hs
    split at hs <;> cases hs
    exact h
  | failMain error =>
    change s.failMain error = some s' at hs
    unfold DrainState.failMain at hs
    split at hs
    · cases hs
    · cases hs
    · obtain ⟨s₁, aborted, rfl⟩ := Option.map_eq_some_iff.1 hs
      have h₁ := h.aborted aborted
      exact h₁

theorem accounted_start (d : Drain) (σ : Server) : Accounted d (.start σ) where
  courses _ := ⟨.ready, .start, rfl⟩
  ledger := ledger_start
  keys _ _ h := by cases h
  beyond _ _ := rfl
  chosen := ⟨.nil, fun _ h => by cases h⟩
  main := rfl

/-- What every run of the drain keeps. -/
theorem accounted_reached (hr : (DrainState.start σ).Reach d s) :
    Accounted d s ∧ Driven σ s.candidates s.pool := by
  induction hr with
  | refl => exact ⟨accounted_start d σ, .refl, fun p o x _ hp => by cases hp⟩
  | step m _ hs ih => exact ⟨ih.1.step ih.2 hs, ih.2.step ih.1 hs⟩

end Driven

/-! ## Reports -/

section Reports

variable {d : Drain} {report : DrainReport} {c : ℕ} {log : History DrainEvent}

/-- The runs begun and the runs counted of a task differ by the one that is open. -/
theorem Course.balanced {stage : DrainStage} {l : List DrainEvent} (h : Course stage l) :
    History.weigh (fun e => match e with | .ran _ => 1 | _ => 0) l =
      History.weigh (fun e => match e with | .counted _ => 1 | _ => 0) l +
        match stage with | .running | .ended _ => 1 | _ => 0 := by
  induction h with
  | start => rfl
  | ack _ ih | stop _ _ ih | lose _ ih =>
    simp only [History.weigh_cons] at ih ⊢
    omega
  | attempt _ ih | refuse _ ih | run _ _ ih | finish _ _ ih =>
    simp only [History.weigh_cons] at ih ⊢
    omega

theorem total_counted (log : History DrainEvent) :
    History.total (fun e => match e with | .counted _ => 1 | _ => 0) log =
      tallied .acked log + tallied .retried log + tallied .waited log + tallied .held log + tallied .busy log := by
  induction log with
  | nil => rfl
  | cons x log ih =>
    obtain ⟨i, e⟩ := x
    simp only [tallied_cons, History.total_cons, ih]
    cases e with
    | counted t => cases t <;> simp <;> omega
    | _ => simp

/-- Where no run is open, the runs are those that were counted. -/
theorem runs_counted (settled : ∀ i, ∃ stage, Course stage (log.own i) ∧ stage.Settled) :
    handlerRuns log =
      tallied .acked log + tallied .retried log + tallied .waited log + tallied .held log + tallied .busy log := by
  rw [← total_counted]
  have each : ∀ i, History.weigh (fun e => match e with | .ran _ => 1 | _ => 0) (log.own i) =
      History.weigh (fun e => match e with | .counted _ => 1 | _ => 0) (log.own i) := by
    intro i
    obtain ⟨stage, course, settled⟩ := settled i
    rw [course.balanced]
    cases stage with
    | running | ended => exact settled.elim
    | _ => rfl
  exact Nat.le_antisymm (History.total_le_of_own fun i => (each i).le) (History.total_le_of_own fun i => (each i).ge)

/-- What the report of a drain says of its handler runs: each is over and counted, in one counter; the other keys that
count as busy were found locked. -/
structure Reported (report : DrainReport) (log : History DrainEvent) : Prop where
  settled : ∀ i, ∃ stage, Course stage (log.own i) ∧ stage.Settled
  runs : handlerRuns log = report.acked + report.retried + report.waited + report.held + tallied .busy log
  acked : report.acked = tallied .acked log
  retried : report.retried = tallied .retried log
  waited : report.waited = tallied .waited log
  held : report.held = tallied .held log
  busy : report.busy = tallied .busy log + refusals log

theorem Ledger.reported (h : Ledger d report c log) (settled : ∀ i, ∃ stage, Course stage (log.own i) ∧ stage.Settled) :
    Reported report log := by
  have acked : report.acked = tallied .acked log := h.counters .acked
  have retried : report.retried = tallied .retried log := h.counters .retried
  have waited : report.waited = tallied .waited log := h.counters .waited
  have held : report.held = tallied .held log := h.counters .held
  refine ⟨settled, ?_, acked, retried, waited, held, h.counters .busy⟩
  rw [runs_counted settled, acked, retried, waited, held]

end Reports

/-- What holds in every state of a drain. -/
structure Contained (d : Drain) (s : DrainState) : Prop where
  /-- Once it has returned, its report counts each handler run once. -/
  reported : ∀ report, s.main = .returned report → Reported report s.log
  /-- The drain leases only from keys that it was asked for, and while they are not held. -/
  leases : ∀ p o w key mid lock gen ignoreDue now k, p % 2 = 0 →
    s.pool.actors p = .calling o (.op (.keyed (.exec w (.lease key mid lock gen ignoreDue now))) k) →
      d.Requested key ∧ (s.pool.shared.keyed.unchanged w = true → s.pool.shared.keyed.held key = none)
  /-- Each task runs the handler for a key of its own. -/
  keys : s.candidates.Nodup ∧ ∀ i lease, (i, .ran lease) ∈ s.log →
    s.candidates[i]? = some lease.key ∧ d.Requested lease.key
  /-- The runs of a task come one after another, and none after an outcome that is no ack. -/
  courses : ∀ i, ∃ stage, Course stage (s.log.own i)
  /-- No attempt begins after enough retries in a row. -/
  attempts : History.Each (fun _ e before => e = .attempted → ¬ Tripped d.stopAfterFailures before) s.log

/-- Every drain, whatever the queue contains, the handlers do and the others do meanwhile, keeps to the keys it was asked
for and reports what it did. -/
theorem drain_contained {d : Drain} {σ : Server} {s : DrainState} (issued : σ.keyed.Issued)
    (hr : (DrainState.start σ).Reach d s) : Contained d s := by
  obtain ⟨accounted, driven⟩ := accounted_reached hr
  refine ⟨fun report returned => ?_, fun p o w key mid lock gen ignoreDue now k even hp => ?_,
    ⟨accounted.chosen.1, fun i lease ran => ?_⟩, fun i => ?_, accounted.ledger.attempts⟩
  · have main := accounted.main
    rw [returned] at main
    obtain ⟨rfl, all⟩ := main
    refine accounted.ledger.reported fun i => ?_
    obtain ⟨stage, course, fits⟩ := accounted.courses i
    refine ⟨stage, course, ?_⟩
    rcases Nat.lt_or_ge i s.candidates.length with inside | beyond
    · rw [all i inside] at fits
      exact fits
    · rw [accounted.beyond i beyond] at fits
      rw [show stage = .ready from fits]
      trivial
  · have commits : Commits o.MayLease (.keyed (.exec w (.lease key mid lock gen ignoreDue now))) :=
      (driven.reach.calls (D := fun o : KeyedCall => Commits o.MayLease) KeyedCall.commits (fun p o x hp => by cases hp)
        p o _ hp).1
    have work := driven.works p o _ even hp
    refine ⟨?_, fun unchanged => locked_next issued driven.reach hp unchanged⟩
    cases op : o.op with
    | leaseKey key' ignoreDue' fuel =>
      rw [op] at work
      have same : key' = key := by
        have may : KeyedCall.MayLease o (.lease key mid lock gen ignoreDue now) := commits
        simpa only [KeyedCall.MayLease, op] using may
      obtain ⟨i, -, key'_mem⟩ := work
      rw [← same]
      exact accounted.chosen.2 key' (List.mem_of_getElem? key'_mem)
    | extend | apply | abandon | releaseHold =>
      have may : KeyedCall.MayLease o (.lease key mid lock gen ignoreDue now) := commits
      simp only [KeyedCall.MayLease, op] at may
    | _ =>
      rw [op] at work
      exact work.elim
  · have key := accounted.keys i lease ran
    exact ⟨key, accounted.chosen.2 _ (List.mem_of_getElem? key)⟩
  · obtain ⟨stage, course, -⟩ := accounted.courses i
    exact ⟨stage, course⟩

namespace Scenario

/-- A drain of the keys that start with `k`. -/
def drainOrders : Drain := { queue, keyPrefix := some "k" }

/-- A message is pushed, and drained with a handler that acks it. -/
def drained : List DrainMove :=
  let exec (p n : ℕ) : List DrainMove := List.replicate n (.other (.exec p {}))
  .other (.call 1 ⟨queue, push⟩) :: exec 1 8 ++
    [.other (.ret 1), .checkPause, .readKeys ["k"], .readDelayed, .readHeld, .gather 0, .task 0 (.enter 5)] ++ exec 2 9 ++
    [.task 0 .leased, .task 0 (.handled (.returned .ack))] ++ exec 2 10 ++ [.task 0 (.applied 5)] ++ exec 2 6 ++
    [.task 0 .leased, .finish 0 0]

end Scenario

open Scenario in
theorem drain_contained_witness : ∃ (s : DrainState) (report : DrainReport), s.main = .returned report ∧
    report.acked = 1 ∧ Contained drainOrders s := by
  have run : ∃ s ∈ (DrainState.start {}).run drainOrders drained, ∃ report, s.main = .returned report ∧
      report.acked = 1 := ⟨_, rfl, _, rfl, rfl⟩
  obtain ⟨s, hs, report, returned, acked⟩ := run
  exact ⟨s, report, returned, acked, drain_contained (fun k τ h => by cases h) (.of_run hs)⟩

end NavigatorEventbus
