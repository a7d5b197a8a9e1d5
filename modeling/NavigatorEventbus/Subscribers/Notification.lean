import NavigatorEventbus.Bus.Core
import NavigatorEventbus.Lib.Program
import NavigatorEventbus.Queues.Names

/-!
# The notification subscriber

`NotificationSubscriber` (`subscribers/notification.py`): the rules with their windows, the dedup and the storm
guard, and the delivery of alerts through a throttle for each channel, whose overflow a digest flushes later.
A message is handed to the sender when `send_notification` is called; how the call ends is supplied by the
environment, and so are the readings of the clock.  A command is a piece of code without an `await` in between,
and the model has some more interleavings: other tasks may run between the rules of an envelope too.  The tasks
that the subscriber creates start in any order, and a sleep may be over at any time.  Beside what the source
keeps, alerts are numbered, and a task of a digest is known by its arguments and by how far it is.
-/

namespace NavigatorEventbus.Notification

open Interleave

open Bus (Exc Outcome)

export Bus (Exc Outcome)

/-! ## Rules and settings -/

/-- A time of the event loop, in nanoseconds. -/
abbrev Time := ℤ

/-- `f"{seconds:.0f}"`, which rounds to even. -/
def wholeSeconds (t : Time) : Text :=
  let n := t.natAbs
  let seconds := n / 10 ^ 9
  let rest := 2 * (n % 10 ^ 9)
  let rounded := if rest < 10 ^ 9 ∨ rest = 10 ^ 9 ∧ seconds % 2 = 0 then seconds else seconds + 1
  (if t < 0 then ['-'] else []) ++ (toString rounded).toList

/-- `severity.name`. -/
def severityName : Severity → Text
  | .debug => "DEBUG".toList
  | .info => "INFO".toList
  | .warning => "WARNING".toList
  | .error => "ERROR".toList
  | .critical => "CRITICAL".toList

/-- Whom a message is for. -/
inductive Recipients where
  | one (recipient : Text)
  | many (recipients : List Text)
  deriving DecidableEq

/-- `AlertRule`. -/
structure AlertRule where
  ruleId : Text
  pattern : Text := ['*']
  minSeverity : Severity := .error
  windowSeconds : Option Time := none
  countThreshold : Option ℤ := none
  provider : Text := "email".toList
  recipients : Recipients
  subject : Option Text := none
  deriving DecidableEq

/-- The window of a rule and the events that it takes, when it `is_window_rule`. -/
def AlertRule.window (rule : AlertRule) : Option (Time × ℤ) :=
  rule.windowSeconds.bind fun window => rule.countThreshold.map fun count => (window, count)

/-- A subscriber with its `AlertsConfig`; the rules are those of both. -/
structure NotificationSubscriber where
  dedupWindow : Time := 300 * 10 ^ 9
  throttleMax : ℤ := 10
  throttleWindow : Time := 60 * 10 ^ 9
  stormThreshold : ℤ := 25
  stormWindow : Time := 30 * 10 ^ 9
  includeBusInternal : Bool := false
  rules : List AlertRule

/-- What the subscriber reads of an envelope. -/
structure Envelope where
  eventId : Text
  topic : Text
  severity : Severity

/-! ## State -/

/-- An alert, by its number. The alert of a storm has no rule. -/
structure Alert where
  number : ℕ
  rule : Option AlertRule
  provider : Text
  recipients : Recipients
  message : Text
  deriving DecidableEq

/-- A message for the sender, with the alerts that it was made of. -/
structure Message where
  provider : Text
  recipients : Recipients
  subject : Text
  message : Text
  alerts : List Alert
  deriving DecidableEq

/-- A task that was created. -/
inductive Job where
  | deliver (m : Message)
  | digest (provider : Text) (recipients : Recipients) (delay : Time)
  deriving DecidableEq

/-- How far a digest is: not started, asleep in a task, or past the point where it takes the overflow. -/
inductive Stage where
  | created
  | asleep (task : ℕ)
  | taken (task : ℕ)
  deriving DecidableEq

/-- The task of a digest. -/
structure Digest where
  recipients : Recipients
  delay : Time
  stage : Stage
  deriving DecidableEq

/-- `_DedupEntry`. -/
structure DedupEntry where
  first : Time
  suppressed : ℕ := 0

/-- What the history records: an alert that passed the dedup, and a message that was handed to the sender. -/
inductive Event where
  | fired (a : Alert)
  | handed (m : Message)
  deriving DecidableEq

/-- The state of a subscriber. A missing entry of a dictionary of lists is an empty list, and `tasks` are the
tasks that have not started. -/
structure State where
  ruleTimes : Text → List Time := fun _ => []
  dedup : Text × Text → Option DedupEntry := fun _ => none
  channelSent : Text → List Time := fun _ => []
  channelOverflow : Text → List Alert := fun _ => []
  digestTasks : Text → Option Digest := fun _ => none
  errorTimes : List Time := []
  stormActive : Bool := false
  tasks : List Job := []
  alerts : ℕ := 0
  log : History Event := []

/-- What the environment supplies with a command: the clock, once more for a delivery that is scheduled, which
of the created tasks starts, and how a wait ends. -/
structure Input where
  now : Time := 0
  schedule : Time := 0
  job : ℕ := 0
  outcome : Outcome Unit := .ok ()

/-- The commands of a subscriber. -/
inductive Cmd where
  | guardStorm (e : Envelope)
  | count (rule : AlertRule) (now window : Time) (threshold : ℤ)
  | fire (rule : AlertRule) (e : Envelope) (now : Time) (windowed : Bool)
  | start
  | sent
  | sleep (delay : Time)
  | takeOverflow (provider : Text) (recipients : Recipients)
  | digestEnded (provider : Text)

/-- The reply of a command. -/
@[reducible] def Cmd.Reply : Cmd → Type
  | guardStorm _ => Option Time
  | count _ _ _ _ => Bool
  | fire _ _ _ _ => Outcome Unit
  | start => Option Job
  | sent => Outcome Unit
  | sleep _ => Outcome Unit
  | takeOverflow _ _ => Bool
  | digestEnded _ => Unit

/-- The commands of a subscriber. -/
abbrev calls : Signature := ⟨Cmd, Cmd.Reply⟩

/-- A coroutine. -/
abbrev Coro (α : Type) : Type := Prog calls α

/-- A single command. -/
abbrev Cmd.await (c : Cmd) : Coro c.Reply := Prog.cmd (S := calls) c

/-- `_prune`. -/
def prune (times : List Time) (now window : Time) : List Time := times.dropWhile fun t => t < now - window

namespace State

variable (cfg : NotificationSubscriber) (p : ℕ) (σ : State)

/-- An event of the task `p` happens. -/
def record (e : Event) : State := { σ with log := (p, e) :: σ.log }

/-- `sender.send_notification` is called. -/
def hand (m : Message) : State := σ.record p (.handed m)

/-- The messages of a channel that count for its throttle. -/
def sent (provider : Text) (now : Time) : List Time := prune (σ.channelSent provider) now cfg.throttleWindow

/-- The next alert. -/
def alert (rule : Option AlertRule) (provider : Text) (recipients : Recipients) (message : Text) : Alert :=
  ⟨σ.alerts, rule, provider, recipients, message⟩

/-- An alert passed the dedup. -/
def fired (a : Alert) : State := { σ with alerts := σ.alerts + 1 }.record p (.fired a)

/-- The task of the digest of a channel is created. -/
def createDigest (provider : Text) (recipients : Recipients) (delay : Time) : State :=
  { σ with
    digestTasks := Function.update σ.digestTasks provider (some ⟨recipients, delay, .created⟩)
    tasks := σ.tasks ++ [.digest provider recipients delay] }

/-- An alert joins the overflow of its channel. -/
def overflow (a : Alert) : State :=
  { σ with channelOverflow := Function.update σ.channelOverflow a.provider (σ.channelOverflow a.provider ++ [a]) }

/-- An alert that the throttle of its channel holds back. Without a message in the window, `sent[0]` raises. -/
def throttle (a : Alert) (sent : List Time) (now : Time) : Outcome Unit × State :=
  match σ.digestTasks a.provider, sent with
  | some _, _ => (.ok (), σ.overflow a)
  | none, [] => (.error (.exception "IndexError" (some "deque index out of range")), σ.overflow a)
  | none, first :: _ =>
    (.ok (), (σ.overflow a).createDigest a.provider a.recipients (max (first + cfg.throttleWindow - now) (10 ^ 7)))

/-- The task that delivers an alert is created. -/
def deliver (a : Alert) (subject : Text) (sent : List Time) (now : Time) : State :=
  { σ with
    channelSent := Function.update σ.channelSent a.provider (sent ++ [now])
    tasks := σ.tasks ++ [.deliver ⟨a.provider, a.recipients, subject, a.message, [a]⟩] }

/-- `_schedule_delivery` for an alert of a rule or of a storm. -/
def scheduleDelivery (rule : Option AlertRule) (now : Time) (provider : Text) (recipients : Recipients)
    (subject message : Text) (bypassThrottle : Bool := false) : Outcome Unit × State :=
  let sent := σ.sent cfg provider now
  let a := σ.alert rule provider recipients message
  let σ := { σ with channelSent := Function.update σ.channelSent provider sent }.fired p a
  if bypassThrottle = false ∧ cfg.throttleMax ≤ sent.length then σ.throttle cfg a sent now
  else (.ok (), σ.deliver a subject sent now)

/-- The key of the dedup. -/
def dedupKey (rule : AlertRule) (e : Envelope) : Text × Text := (rule.ruleId, e.topic.takeWhile (· ≠ '.'))

/-- An alert of the same rule and class of topics is in the dedup window. -/
def Suppressed (rule : AlertRule) (e : Envelope) (now : Time) : Prop :=
  ∃ entry ∈ σ.dedup (dedupKey rule e), now - entry.first < cfg.dedupWindow

instance (rule : AlertRule) (e : Envelope) (now : Time) : Decidable (σ.Suppressed cfg rule e now) := by
  unfold Suppressed
  cases h : σ.dedup (dedupKey rule e) with
  | none => exact isFalse (by simp)
  | some entry =>
    exact decidable_of_iff (now - entry.first < cfg.dedupWindow) (by simp)

/-- What an alert says of those that were suppressed before it. -/
def repeatNote (rule : AlertRule) (e : Envelope) : Text :=
  match σ.dedup (dedupKey rule e) with
  | none => []
  | some entry =>
    if entry.suppressed = 0 then []
    else " (".toList ++ (toString entry.suppressed).toList ++
      " identical alert(s) suppressed in the previous ".toList ++ wholeSeconds cfg.dedupWindow ++ "s window)".toList

/-- The headline of an alert. -/
def headline (rule : AlertRule) (e : Envelope) (windowed : Bool) : Text :=
  if windowed then
    '[' :: severityName e.severity ++ "] rule '".toList ++ rule.ruleId ++ "': ".toList ++
      (toString (rule.countThreshold.getD 0)).toList ++ "+ events >= ".toList ++ severityName rule.minSeverity ++
      " within ".toList ++ wholeSeconds (rule.windowSeconds.getD 0) ++ "s (last: ".toList ++ e.topic ++ [')']
  else
    '[' :: severityName e.severity ++ "] ".toList ++ e.topic ++ " (rule '".toList ++ rule.ruleId ++
      "', event ".toList ++ e.eventId ++ [')']

/-- The subject of an alert. -/
def subject (rule : AlertRule) (e : Envelope) : Text :=
  match rule.subject with
  | some (c :: rest) => c :: rest
  | _ => "navigator-eventbus alert: ".toList ++ e.topic

/-- One more alert is suppressed. -/
def suppress (rule : AlertRule) (e : Envelope) : State :=
  { σ with
    dedup := Function.update σ.dedup (dedupKey rule e)
      ((σ.dedup (dedupKey rule e)).map fun entry => { entry with suppressed := entry.suppressed + 1 }) }

/-- `_fire`, where `_schedule_delivery` reads the clock again. -/
def fire (rule : AlertRule) (e : Envelope) (now : Time) (windowed : Bool) (i : Input) : Outcome Unit × State :=
  if σ.Suppressed cfg rule e now then (.ok (), σ.suppress rule e)
  else
    { σ with dedup := Function.update σ.dedup (dedupKey rule e) (some { first := now }) }.scheduleDelivery cfg p
      rule i.schedule rule.provider rule.recipients (subject rule e)
      (headline rule e windowed ++ σ.repeatNote cfg rule e)

/-- The alert of a storm. -/
def stormAlert (e : Envelope) : Text :=
  "[CRITICAL] Event storm: >".toList ++ (toString cfg.stormThreshold).toList ++ " ERROR+ events in ".toList ++
    wholeSeconds cfg.stormWindow ++ "s (last topic: ".toList ++ e.topic ++
    "). Individual alerts suppressed until the rate drops.".toList

/-- `_storm_provider`. -/
def stormProvider : Text := (cfg.rules.head?.map AlertRule.provider).getD "email".toList

/-- `_storm_recipients`. -/
def stormRecipients : Recipients := (cfg.rules.head?.map AlertRule.recipients).getD (.many [])

/-- The beginning of `_evaluate` up to the rules: the time for which they are evaluated, if they are. -/
def guardStorm (e : Envelope) (i : Input) : Option Time × State :=
  if "bus.".toList.isPrefixOf e.topic ∧ ¬ cfg.includeBusInternal then (none, σ)
  else
    let times := if Severity.error.value ≤ e.severity.value then σ.errorTimes ++ [i.now] else σ.errorTimes
    let times := prune times i.now cfg.stormWindow
    let σ := { σ with errorTimes := times }
    if cfg.stormThreshold < times.length then
      if σ.stormActive then (none, σ)
      else
        (none,
          ({ σ with stormActive := true }.scheduleDelivery cfg p none i.schedule (stormProvider cfg)
            (stormRecipients cfg) "Event storm detected".toList (stormAlert cfg e) true).2)
    else (some i.now, { σ with stormActive := false })

/-- The window of a rule takes an event; when it is full it starts anew. -/
def count (rule : AlertRule) (now window : Time) (threshold : ℤ) : Bool × State :=
  let times := prune (σ.ruleTimes rule.ruleId ++ [now]) now window
  if threshold ≤ times.length then (true, { σ with ruleTimes := Function.update σ.ruleTimes rule.ruleId [] })
  else (false, { σ with ruleTimes := Function.update σ.ruleTimes rule.ruleId times })

/-- The digest of a channel gets to a stage. -/
def setStage (provider : Text) (stage : Stage) : State :=
  { σ with
    digestTasks := Function.update σ.digestTasks provider
      ((σ.digestTasks provider).map fun digest => { digest with stage }) }

/-- A created task starts: a delivery calls the sender, and a digest falls asleep. -/
def start (n : ℕ) : Option Job × State :=
  match σ.tasks[n]? with
  | none => (none, σ)
  | some (.deliver m) => (some (.deliver m), { σ with tasks := σ.tasks.eraseIdx n }.hand p m)
  | some (.digest provider recipients delay) =>
    (some (.digest provider recipients delay),
      { σ with tasks := σ.tasks.eraseIdx n }.setStage provider (.asleep p))

/-- The message of a digest. -/
def digestMessage (provider : Text) (overflow : List Alert) : Text :=
  "[DIGEST] ".toList ++ (toString overflow.length).toList ++ " alert(s) throttled on channel '".toList ++ provider ++
    "' (max ".toList ++ (toString cfg.throttleMax).toList ++ " per ".toList ++ wholeSeconds cfg.throttleWindow ++
    "s):\n- ".toList ++ List.intercalate "\n- ".toList (overflow.map Alert.message)

/-- A digest takes the overflow of its channel and, unless that is empty, calls the sender. -/
def takeOverflow (provider : Text) (recipients : Recipients) (now : Time) : Bool × State :=
  let overflow := σ.channelOverflow provider
  let σ := { σ with channelOverflow := Function.update σ.channelOverflow provider [] }.setStage provider (.taken p)
  if overflow = [] then (false, σ)
  else
    (true,
      { σ with channelSent := Function.update σ.channelSent provider (σ.channelSent provider ++ [now]) }.hand p
        ⟨provider, recipients, "navigator-eventbus alert digest".toList, digestMessage cfg provider overflow,
          overflow⟩)

/-- The end of `_flush_digest`. -/
def digestEnded (provider : Text) : State :=
  { σ with digestTasks := Function.update σ.digestTasks provider none }

/-- Execution of a command by the task `p`. -/
def exec (c : Cmd) (i : Input) : c.Reply × State :=
  match c with
  | .guardStorm e => σ.guardStorm cfg p e i
  | .count rule now window threshold => σ.count rule now window threshold
  | .fire rule e now windowed => σ.fire cfg p rule e now windowed i
  | .start => σ.start p i.job
  | .sent => (i.outcome, σ)
  | .sleep _ => (i.outcome, σ)
  | .takeOverflow provider recipients => σ.takeOverflow cfg p provider recipients i.now
  | .digestEnded provider => ((), σ.digestEnded provider)

end State

/-- A subscriber as a machine. -/
abbrev machine (cfg : NotificationSubscriber) : Machine calls where
  State := State
  Input := Input
  exec p c i σ := σ.exec cfg p c i

/-! ## Envelopes -/

/-- A rule for an envelope that matches it. -/
def applyRule (rule : AlertRule) (e : Envelope) (now : Time) : Coro (Outcome Unit) :=
  match rule.window with
  | some (window, threshold) => do
    if ← (Cmd.count rule now window threshold).await then (Cmd.fire rule e now true).await else return .ok ()
  | none => (Cmd.fire rule e now false).await

/-- The loop of `_evaluate`. -/
def applyRules (e : Envelope) (now : Time) : List AlertRule → Coro (Outcome Unit)
  | [] => .pure (.ok ())
  | rule :: rest =>
    if e.severity.value < rule.minSeverity.value ∨ Fnmatch.fnmatch e.topic rule.pattern = false then
      applyRules e now rest
    else do
      match ← applyRule rule e now with
      | .error exc => return .error exc
      | .ok () => applyRules e now rest

/-- `_evaluate`. -/
def evaluate (cfg : NotificationSubscriber) (e : Envelope) : Coro (Outcome Unit) := do
  match ← (Cmd.guardStorm e).await with
  | none => return .ok ()
  | some now => applyRules e now cfg.rules

/-- What `except Exception` lets pass. -/
def escaping : Outcome Unit → Outcome Unit
  | .ok () => .ok ()
  | .error exc => if exc.isException then .ok () else .error exc

/-- `_on_envelope`. -/
def onEnvelope (cfg : NotificationSubscriber) (e : Envelope) : Coro (Outcome Unit) := do
  let r ← evaluate cfg e
  return escaping r

/-! ## Tasks -/

/-- `_deliver` after the call of the sender. -/
def delivered : Coro (Outcome Unit) := do
  let r ← Cmd.sent.await
  return escaping r

/-- The body of `_flush_digest`. -/
def digest (provider : Text) (recipients : Recipients) (delay : Time) : Coro (Outcome Unit) := do
  match ← (Cmd.sleep delay).await with
  | .error exc => return .error exc
  | .ok () => if ← (Cmd.takeOverflow provider recipients).await then delivered else return .ok ()

/-- `_flush_digest`. -/
def flushDigest (provider : Text) (recipients : Recipients) (delay : Time) : Coro (Outcome Unit) := do
  let r ← digest provider recipients delay
  (Cmd.digestEnded provider).await
  return r

/-- A task that the subscriber created. -/
def task : Coro (Outcome Unit) := do
  match ← Cmd.start.await with
  | none => return .ok ()
  | some (.deliver _) => delivered
  | some (.digest provider recipients delay) => flushDigest provider recipients delay

/-- What a task does. -/
inductive Call where
  | onEnvelope (e : Envelope)
  | task

/-- A task is there, or it was destroyed in the middle of a call. -/
inductive Phase where
  | there
  | gone
  deriving DecidableEq

/-- The program of a call. -/
def Call.code (cfg : NotificationSubscriber) : Call → Coro (Outcome Unit)
  | onEnvelope e => Notification.onEnvelope cfg e
  | task => Notification.task

/-- The tasks of a subscriber. -/
abbrev notifier (cfg : NotificationSubscriber) : Service (machine cfg) where
  Call := Call
  Result := Outcome Unit
  Phase := Phase
  idle := .gone
  code := Call.code cfg
  phase _ _ := .there
  accepts φ _ := decide (φ = .there)
  note _ _ _ σ := σ
  Disturbance := Empty
  disturb d _ := d.elim

/-- A new subscriber. -/
def NotificationSubscriber.new (cfg : NotificationSubscriber) : Pool (notifier cfg) where
  shared := {}
  actors _ := .resting .there

end NavigatorEventbus.Notification
