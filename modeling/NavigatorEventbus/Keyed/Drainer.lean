import NavigatorEventbus.Keyed.System
import NavigatorEventbus.Lib.Asyncio

/-!
# Direct administrative drain

`drain` (`queues/keyed/drainer.py`) flushes a keyed queue directly through a handler.  It takes the same lock of a
key as the consumers: one task for each key leases its heads one after another, any number of tasks side by side
under a semaphore, and all of them share the report and the count of consecutive retries.  The calls of the drain
are calls of its own actors on the queue, interleaved with those of everybody else; between two of its steps others
do what they like.  What a task does between two awaits is one step.
-/

namespace NavigatorEventbus

open Interleave

/-- The arguments of a `drain`, with the queue and its `call_timeout_ms`. -/
structure Drain where
  queue : KeyedQueue
  defaultCallTimeoutMs : ℤ := 30000
  keyPrefix : Option String := none
  concurrency : ℤ := 10
  callTimeoutMs : Option ℤ := none
  stopAfterFailures : ℤ := 5
  includeHeld : Bool := false
  ignorePause : Bool := false

/-- Counters returned by `drain`. -/
structure DrainReport where
  keysSeen : ℕ := 0
  acked : ℕ := 0
  retried : ℕ := 0
  waited : ℕ := 0
  held : ℕ := 0
  busy : ℕ := 0
  expired : ℤ := 0
  stoppedEarly : Bool := false
  elapsedMs : ℤ := 0
  deriving DecidableEq

/-- The counters for handler runs. -/
inductive Tally where
  | acked
  | retried
  | waited
  | held
  | busy
  deriving DecidableEq

/-- The counter of an applied outcome. -/
def Outcome.tally : Outcome → Tally
  | .ack => .acked
  | .retry _ _ => .retried
  | .wait _ _ => .waited
  | .hold _ => .held

namespace DrainReport

def counter (r : DrainReport) : Tally → ℕ
  | .acked => r.acked
  | .retried => r.retried
  | .waited => r.waited
  | .held => r.held
  | .busy => r.busy

/-- One more on a counter. -/
def add (r : DrainReport) : Tally → DrainReport
  | .acked => { r with acked := r.acked + 1 }
  | .retried => { r with retried := r.retried + 1 }
  | .waited => { r with waited := r.waited + 1 }
  | .held => { r with held := r.held + 1 }
  | .busy => { r with busy := r.busy + 1 }

end DrainReport

/-- How a handler ends: it returns an outcome or something else, it raises, it times out, or its task is
cancelled. -/
inductive HandlerEnd where
  | returned (outcome : Outcome)
  | returnedOther (typeName : String)
  | raised (typeName text : String)
  | timedOut
  | cancelled

/-- `_run_handler`: the outcome of a handler run; a cancellation is raised. -/
def runHandler (timeoutMs : ℤ) : HandlerEnd → Option Outcome
  | .returned outcome => some outcome
  | .returnedOther typeName =>
    some (.retry none (some s!"TypeError: handler returned {typeName}, not Outcome"))
  | .raised typeName text => some (.retry none (some s!"{typeName}: {text}"))
  | .timedOut => some (.retry none (some s!"handler timed out after {timeoutMs} ms"))
  | .cancelled => none

/-- What a task or the drain raises: an exception of the queue, a cancellation, or the failure of a command. -/
inductive DrainError where
  | exc (e : Exc)
  | cancelled
  | failed
  deriving DecidableEq

/-- Where `drain_key` is. With `keeping`, the lock is still kept extended. -/
inductive DrainTask where
  | created
  | waiting
  | leasing
  | handling (lease : KeyedLease) (keeping : Bool)
  | applying (lease : KeyedLease) (outcome : Outcome)
  | releasing (error : DrainError)
  | returned
  | raised (error : DrainError)

/-- Where `drain` is. -/
inductive DrainMain where
  | started
  | unpaused
  | listed (names : List Key)
  | sorted (candidates : List Key)
  | releasing (held candidates : List Key)
  | awaiting (held candidates : List Key)
  | chosen (candidates : List Key)
  | gathering (expiredBefore : ℤ)
  | returned (report : DrainReport)
  | raised (error : DrainError)

/-- What the history records of a task: a lease attempt and its refusal, the begin and the end of a handler run, and
the counting of one. -/
inductive DrainEvent where
  | attempted
  | refused
  | ran (lease : KeyedLease)
  | ended (outcome : Outcome)
  | counted (tally : Tally)
  deriving DecidableEq

/-- The state of a drain: the actors of the queue, the tasks and what they share. -/
structure DrainState where
  pool : KeyedPool
  main : DrainMain := .started
  candidates : List Key := []
  tasks : ℕ → DrainTask := fun _ => .created
  sem : Asyncio.Semaphore := {}
  report : DrainReport := {}
  consecutiveRetries : ℕ := 0
  /-- the exception that `gather` raises -/
  failed : Option DrainError := none
  log : History DrainEvent := []

/-- The actor of `drain` itself is `0`, that of a task an even number; all others are odd. -/
def drainActor (i : ℕ) : ℕ := 2 * i + 2

namespace Drain

variable (d : Drain)

/-- `call_timeout_ms or queue.config.call_timeout_ms` -/
def timeoutMs : ℤ := (d.callTimeoutMs.filter (· ≠ 0)).getD d.defaultCallTimeoutMs

/-- The names that start with the prefix, sorted. -/
def candidates (names : List Key) : List Key :=
  let chosen := match d.keyPrefix.filter (· ≠ "") with
    | none => names.dedup
    | some keyPrefix => names.dedup.filter fun name => keyPrefix.toList <+: name.toList
  chosen.insertionSort (· ≤ ·)

/-- The key starts with the prefix that was asked for. -/
def Requested (key : Key) : Prop := ∀ keyPrefix, d.keyPrefix = some keyPrefix → keyPrefix.toList <+: key.toList

end Drain

namespace DrainState

variable (d : Drain) (s : DrainState)

/-! ## Helpers -/

/-- An actor of the drain calls an operation. -/
def call (p : ℕ) (op : KeyedOp) : Option DrainState :=
  (s.pool.act (.call p ⟨d.queue, op⟩)).map fun pool => { s with pool }

/-- The result of the call of an actor. -/
def result (p : ℕ) : Option (KeyedResult × DrainState) :=
  (s.pool.actors p).result.bind fun r => (s.pool.act (.ret p)).map fun pool => (r.2, { s with pool })

/-- The call of an actor ends without a result. -/
def abort (p : ℕ) : Option DrainState := (s.pool.act (.crash p)).map fun pool => { s with pool }

def moveTo (i : ℕ) (task : DrainTask) : DrainState := { s with tasks := Function.update s.tasks i task }

def record (i : ℕ) (e : DrainEvent) : DrainState := { s with log := (i, e) :: s.log }

/-- The task gives back its permit and returns. -/
def leave (i : ℕ) : DrainState := { s.moveTo i .returned with sem := s.sem.release }

/-- `gather` keeps the first exception. -/
def raise (i : ℕ) (error : DrainError) : DrainState :=
  { s.moveTo i (.raised error) with failed := s.failed <|> some error }

/-- A handler run is counted. -/
def count (i : ℕ) (tally : Tally) : DrainState := { s with report := s.report.add tally }.record i (.counted tally)

/-! ## The loop of a key -/

/-- The top of the loop: stop, or attempt the next lease. -/
def loopTop (i fuel : ℕ) : Option DrainState :=
  if s.report.stoppedEarly then some (s.leave i)
  else
    s.candidates[i]?.bind fun key =>
      (s.call d (drainActor i) (.leaseKey key true fuel)).map fun s => (s.moveTo i .leasing).record i .attempted

/-- The task of a candidate begins. -/
def enter (i fuel : ℕ) : Option DrainState :=
  match s.tasks i with
  | .created =>
    if i < s.candidates.length then
      let (granted, sem) := s.sem.acquire i
      if granted then { s with sem }.loopTop d i fuel else some ({ s with sem }.moveTo i .waiting)
    else none
  | _ => none

/-- A task that waited for a permit goes on. -/
def resume (i fuel : ℕ) : Option DrainState :=
  match s.tasks i with
  | .waiting => if i ∈ s.sem.granted then { s with sem := s.sem.resume i }.loopTop d i fuel else none
  | _ => none

/-- The lease attempt has its result. -/
def leased (i : ℕ) : Option DrainState :=
  match s.tasks i with
  | .leasing =>
    (s.result (drainActor i)).bind fun (r, s) =>
      match r with
      | .leasedKey (.ok (some lease, _)) => some ((s.moveTo i (.handling lease true)).record i (.ran lease))
      | .leasedKey (.ok (none, reason)) =>
        if reason = .busy then
          some (({ s with report := s.report.add .busy }.record i .refused).leave i)
        else some (s.leave i)
      | .leasedKey (.error e) => some ({ s with sem := s.sem.release }.raise i (.exc e))
      | _ => none
  | _ => none

/-- The lock is extended while the handler runs; with `commands`, the extension is cut off. -/
def keep (i : ℕ) (commands : Option ℕ) : Option DrainState :=
  match s.tasks i with
  | .handling lease true => s.call d (drainActor i) (.extend lease none commands)
  | _ => none

/-- The extension is over: a lost lease is extended no more. -/
def kept (i : ℕ) : Option DrainState :=
  match s.tasks i with
  | .handling lease _ =>
    (s.result (drainActor i)).map fun (r, s) =>
      match r with
      | .extended (.ok ()) => s
      | .extended (.error e) => if e.isLeaseLost then s.moveTo i (.handling lease false) else s
      | _ => s.moveTo i (.handling lease false)
  | _ => none

/-- The handler has ended, and its outcome is applied. -/
def handled (i : ℕ) (e : HandlerEnd) : Option DrainState :=
  match s.tasks i with
  | .handling lease _ =>
    match runHandler d.timeoutMs e with
    | some outcome =>
      (s.call d (drainActor i) (.apply lease outcome)).map fun s =>
        (s.moveTo i (.applying lease outcome)).record i (.ended outcome)
    | none => (s.call d (drainActor i) (.abandon lease)).map fun s => s.moveTo i (.releasing .cancelled)
  | _ => none

/-- An applied outcome is counted. -/
def settled (i : ℕ) (outcome : Outcome) (fuel : ℕ) : Option DrainState :=
  let s := s.count i outcome.tally
  match outcome with
  | .ack => { s with consecutiveRetries := 0 }.loopTop d i fuel
  | .retry _ _ =>
    let consecutiveRetries := s.consecutiveRetries + 1
    let report := { s.report with
      stoppedEarly := s.report.stoppedEarly || d.stopAfterFailures ≤ consecutiveRetries }
    some ({ s with consecutiveRetries, report }.leave i)
  | .wait _ _ => some (s.leave i)
  | .hold _ => some (s.leave i)

/-- The outcome is applied, or the lease was lost before. -/
def applied (i fuel : ℕ) : Option DrainState :=
  match s.tasks i with
  | .applying lease outcome =>
    (s.result (drainActor i)).bind fun (r, s) =>
      match r with
      | .applied (.ok ()) => s.settled d i outcome fuel
      | .applied (.error e) =>
        if e.isLeaseLost then some ((s.count i .busy).leave i)
        else (s.call d (drainActor i) (.abandon lease)).map fun s => s.moveTo i (.releasing (.exc e))
      | _ => none
  | _ => none

/-- The lock is released, and the exception raised again. -/
def unlocked (i : ℕ) : Option DrainState :=
  match s.tasks i with
  | .releasing error =>
    (s.result (drainActor i)).map fun (_, s) => { s with sem := s.sem.release }.raise i error
  | _ => none

/-- The task is cancelled, or one of its commands fails. The release of its lock is then one of the ways in which a
lock may end at any time. -/
def fail (i : ℕ) (error : DrainError) : Option DrainState :=
  match s.tasks i with
  | .created => if i < s.candidates.length then some (s.raise i error) else none
  | .waiting => some ({ s with sem := s.sem.cancel i }.raise i error)
  | .leasing | .handling _ _ | .applying _ _ | .releasing _ =>
    (s.abort (drainActor i)).map fun s => { s with sem := s.sem.release }.raise i error
  | .returned | .raised _ => none

/-! ## The drain -/

/-- A paused queue is not drained, unless the pause is ignored. -/
def checkPause : Option DrainState :=
  match s.main with
  | .started =>
    if d.ignorePause = false ∧ s.pool.shared.plane.paused.any (· ≠ "") then
      let report := { s.report with stoppedEarly := true }
      some { s with report, main := .returned report }
    else some { s with main := .unpaused }
  | _ => none

/-- `SMEMBERS keys`, in whatever order. -/
def readKeys (reply : List Key) : Option DrainState :=
  match s.main with
  | .unpaused => if reply.toFinset = s.pool.shared.keyed.keys then some { s with main := .listed reply } else none
  | _ => none

/-- `ZRANGE delayed`, and the choice of the candidates. -/
def readDelayed : Option DrainState :=
  match s.main with
  | .listed names =>
    some { s with main := .sorted (d.candidates (names ++ s.pool.shared.keyed.delayed.members)) }
  | _ => none

/-- `HGETALL held`: holds are released, or their keys left out. -/
def readHeld : Option DrainState :=
  match s.main with
  | .sorted candidates =>
    let held := candidates.filter fun key => (s.pool.shared.keyed.held key).isSome
    if d.includeHeld then some { s with main := .releasing held candidates }
    else some { s with main := .chosen (candidates.filter (· ∉ held)) }
  | _ => none

/-- The next hold is released. -/
def releaseNext : Option DrainState :=
  match s.main with
  | .releasing [] candidates => some { s with main := .chosen candidates }
  | .releasing (key :: held) candidates =>
    (s.call d 0 (.releaseHold key)).map fun s => { s with main := .awaiting held candidates }
  | _ => none

def released : Option DrainState :=
  match s.main with
  | .awaiting held candidates => (s.result 0).map fun (_, s) => { s with main := .releasing held candidates }
  | _ => none

/-- The tasks are created. `expired` is the reading of `queue.expired_count`. -/
def gather (expired : ℤ) : Option DrainState :=
  match s.main with
  | .chosen candidates =>
    some { s with
      main := .gathering expired
      candidates
      sem := { value := (max 1 d.concurrency).toNat }
      report := { s.report with keysSeen := candidates.length } }
  | _ => none

/-- Every task has returned. -/
def finish (expired elapsedMs : ℤ) : Option DrainState :=
  match s.main with
  | .gathering before =>
    if ∀ i < s.candidates.length, s.tasks i matches .returned then
      let report := { s.report with expired := expired - before, elapsedMs }
      some { s with report, main := .returned report }
    else none
  | _ => none

/-- A task has raised. -/
def propagate : Option DrainState :=
  match s.main, s.failed with
  | .gathering _, some error => some { s with main := .raised error }
  | _, _ => none

/-- The drain is cancelled, or one of its own commands fails. -/
def failMain (error : DrainError) : Option DrainState :=
  match s.main with
  | .returned _ | .raised _ => none
  | _ => (s.abort 0).map fun s => { s with main := .raised error }

end DrainState

/-- A step of a task. -/
inductive TaskMove where
  | enter (fuel : ℕ)
  | resume (fuel : ℕ)
  | leased
  | keep (commands : Option ℕ)
  | kept
  | handled (e : HandlerEnd)
  | applied (fuel : ℕ)
  | unlocked
  | fail (error : DrainError)

/-- A step of the system: what others decide, what the server does or executes, or a step of the drain. -/
inductive DrainMove where
  | other (a : Act actors)
  | task (i : ℕ) (m : TaskMove)
  | checkPause
  | readKeys (reply : List Key)
  | readDelayed
  | readHeld
  | releaseNext
  | released
  | gather (expired : ℤ)
  | finish (expired elapsedMs : ℤ)
  | propagate
  | failMain (error : DrainError)

/-- The drain's own actors call and return only as it says. -/
def Outside : Act actors → Prop
  | .call p _ => p % 2 = 1
  | .exec _ _ => True
  | .ret p => p % 2 = 1
  | .crash p => p % 2 = 1
  | .disturb _ => True

instance (a : Act actors) : Decidable (Outside a) := by
  cases a <;> unfold Outside <;> infer_instance

namespace DrainState

variable (d : Drain) (s : DrainState)

def taskStep (i : ℕ) : TaskMove → Option DrainState
  | .enter fuel => s.enter d i fuel
  | .resume fuel => s.resume d i fuel
  | .leased => s.leased i
  | .keep commands => s.keep d i commands
  | .kept => s.kept i
  | .handled e => s.handled d i e
  | .applied fuel => s.applied d i fuel
  | .unlocked => s.unlocked i
  | .fail error => s.fail i error

def step : DrainMove → Option DrainState
  | .other a => if Outside a then (s.pool.act a).map fun pool => { s with pool } else none
  | .task i m => s.taskStep d i m
  | .checkPause => s.checkPause d
  | .readKeys reply => s.readKeys reply
  | .readDelayed => s.readDelayed d
  | .readHeld => s.readHeld d
  | .releaseNext => s.releaseNext d
  | .released => s.released
  | .gather expired => s.gather d expired
  | .finish expired elapsedMs => s.finish expired elapsedMs
  | .propagate => s.propagate
  | .failMain error => s.failMain error

/-- A drain of a server in any state, where nobody has called yet. -/
def start (σ : Server) : DrainState where
  pool := ⟨σ, fun _ => .resting .idle⟩

/-- The states that steps lead to. -/
inductive Reach (s : DrainState) : DrainState → Prop where
  | refl : Reach s s
  | step {s₁ s₂ : DrainState} (m : DrainMove) (h : Reach s s₁) (hs : s₁.step d m = some s₂) : Reach s s₂

/-- The state after a sequence of steps. -/
def run (s : DrainState) : List DrainMove → Option DrainState
  | [] => some s
  | m :: l => (s.step d m).bind fun s => s.run l

variable {d s}

theorem Reach.of_run {s' : DrainState} {l : List DrainMove} (hrun : s.run d l = some s') : s.Reach d s' := by
  suffices all : ∀ {s₁}, s.Reach d s₁ → s₁.run d l = some s' → s.Reach d s' from all .refl hrun
  clear hrun
  induction l with
  | nil =>
    intro s₁ h hrun
    cases hrun
    exact h
  | cons m l ih =>
    intro s₁ h hrun
    obtain ⟨s₂, hs, hrun⟩ := Option.bind_eq_some_iff.1 hrun
    exact ih (h.step m hs) hrun

end DrainState

end NavigatorEventbus
