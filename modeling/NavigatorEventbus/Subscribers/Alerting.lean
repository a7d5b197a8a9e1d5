import NavigatorEventbus.Lib.Window
import NavigatorEventbus.Subscribers.Sessions

/-!
# Rules, repeated alerts and storms

What `_evaluate` makes of a sequence of envelopes.  The queues of the rules and of the storm guard are pruned when
they are read, and the entries of the dedup are replaced when an alert passes: they agree with what the whole
sequence says (`Agrees`).  An alert that raises, because its channel takes no messages and has sent none, ends the
evaluation, and the rules after it miss the envelope (`alerting_iff`).
-/

namespace NavigatorEventbus.Notification

open Interleave

open Bus (Exc Outcome)

variable {cfg : NotificationSubscriber} {p : ℕ} {c : Cmd} {i : Input} {σ σ' : State} {e : Envelope}
  {rule : AlertRule} {rules : List AlertRule}

/-! ## What is said of a sequence -/

/-- The events of a rule since its last crossing, with one more command. -/
def collect (ruleId : Text) (times : List Time) (s : Done cfg) : List Time :=
  match s.cmd with
  | .count rule now _ _ => if rule.ruleId = ruleId then (if crosses s then [] else times ++ [now]) else times
  | _ => times

/-- The times of the events that a rule has evaluated since its last crossing. -/
def sinceCrossing (ruleId : Text) (done : List (Done cfg)) : List Time := done.foldl (collect ruleId) []

/-- The alert that an event of the history records. -/
def Event.alert : Event → Option Alert
  | fired a => some a
  | handed _ => none

/-- The alerts that a command lets through. -/
def alerts (p : ℕ) (s : Done cfg) : List Alert :=
  ((s.after p).log.take ((s.after p).log.length - s.before.log.length)).filterMap fun x => x.2.alert

/-- The rule and the class of topics of an alert that is to be fired. -/
def firing (s : Done cfg) : Option (Text × Text) :=
  match s.cmd with
  | .fire rule e _ _ => some (State.dedupKey rule e)
  | _ => none

/-- The suppressed alerts since the last one that was let through, with one more command. -/
def tally (p : ℕ) (key : Text × Text) (n : ℕ) (s : Done cfg) : ℕ :=
  if firing s = some key then (if alerts p s = [] then n + 1 else 0) else n

/-- How many alerts of the rule and the class were suppressed since the last one that was let through. -/
def suppressedSince (p : ℕ) (key : Text × Text) (done : List (Done cfg)) : ℕ := done.foldl (tally p key) 0

/-- What an alert says of so many that were suppressed before it. -/
def noteOf (cfg : NotificationSubscriber) (n : ℕ) : Text :=
  if n = 0 then []
  else " (".toList ++ (toString n).toList ++ " identical alert(s) suppressed in the previous ".toList ++
    wholeSeconds cfg.dedupWindow ++ "s window)".toList

/-- The times of the errors, and whether there is a storm, with one more command. -/
def watch (seen : List Time × Bool) (s : Done cfg) : List Time × Bool :=
  match s.cmd with
  | .guardStorm e =>
    if Internal cfg e then seen
    else
      let errors := if Severity.error.value ≤ e.severity.value then seen.1 ++ [s.input.now] else seen.1
      (errors, cfg.stormThreshold < errors.countP fun t => s.input.now - cfg.stormWindow ≤ t)
  | _ => seen

/-- The times of the errors, and whether the last evaluation was above the threshold of storms. -/
def weather (done : List (Done cfg)) : List Time × Bool := done.foldl watch ([], false)

/-- There is a storm. -/
def storm (done : List (Done cfg)) : Bool := (weather done).2

/-- No alert that raises keeps a later threshold rule from an envelope that it takes. -/
def Unhindered (cfg : NotificationSubscriber) (ev : Evaluation cfg) : Prop :=
  ∀ s ∈ ev.commands, Stuck cfg s → ∀ rule now windowed, s.cmd = .fire rule ev.envelope now windowed →
    ∀ before after, cfg.rules = before ++ rule :: after → ∀ later ∈ after, ∀ window threshold,
      later.window = some (window, threshold) → 1 ≤ threshold → ¬ Matches later ev.envelope

/-- The plain meaning of rules, repeated alerts and storms. -/
structure Alerting (cfg : NotificationSubscriber) (p : ℕ) (l : List (Evaluation cfg)) : Prop where
  /-- A threshold rule evaluates the events that it takes, outside of storms. -/
  evaluated : ∀ before ev after, l = before ++ ev :: after → ∀ rule ∈ cfg.rules, ∀ window threshold,
    rule.window = some (window, threshold) → 1 ≤ threshold →
      ((∃ s ∈ ev.commands, s.cmd = .count rule ev.now window threshold) ↔
        ¬ Internal cfg ev.envelope ∧ storm (journal (before ++ [ev])) = false ∧ Matches rule ev.envelope)
  /-- It crosses when enough of its events since the last crossing are in its window. -/
  crossings : ∀ before s after, journal l = before ++ s :: after → ∀ rule now window threshold,
    s.cmd = .count rule now window threshold →
      (crosses s = true ↔
        threshold ≤ (sinceCrossing rule.ruleId before ++ [now]).countP fun t => now - window ≤ t)
  /-- A crossing fires an alert. -/
  fires : ∀ ev ∈ l, ∀ rule, (∃ s ∈ ev.commands, crosses s = true ∧ ∃ window threshold,
    s.cmd = .count rule ev.now window threshold) ↔ ∃ s ∈ ev.commands, s.cmd = .fire rule ev.envelope ev.now true
  /-- An alert is suppressed when one of the same rule and class was let through less than the window before. -/
  suppressed : ∀ before s after, journal l = before ++ s :: after → ∀ rule e now windowed,
    s.cmd = .fire rule e now windowed →
      (alerts p s = [] ↔ ∃ s' ∈ before, firing s' = some (State.dedupKey rule e) ∧ alerts p s' ≠ [] ∧
        now - moment s' < cfg.dedupWindow)
  /-- The next one that is let through says how many there were. -/
  noted : ∀ before s after, journal l = before ++ s :: after → ∀ rule e now windowed,
    s.cmd = .fire rule e now windowed → alerts p s ≠ [] → ∃ a, alerts p s = [a] ∧
      a.message = State.headline rule e windowed ++
        noteOf cfg (suppressedSince p (State.dedupKey rule e) before)
  /-- A storm has one alert, at its beginning. -/
  storms : ∀ before s after, journal l = before ++ s :: after → ∀ e, s.cmd = .guardStorm e →
    (alerts p s).length = if storm (before ++ [s]) = true ∧ storm before = false then 1 else 0

/-! ## What a command changes -/

/-- Rules, dedup and storm guard are as before. -/
structure Rests (σ σ' : State) : Prop where
  ruleTimes : σ'.ruleTimes = σ.ruleTimes
  dedup : σ'.dedup = σ.dedup
  errorTimes : σ'.errorTimes = σ.errorTimes
  stormActive : σ'.stormActive = σ.stormActive

theorem Rests.refl : Rests σ σ := ⟨rfl, rfl, rfl, rfl⟩

/-- The delivery of an alert is no business of the rules. -/
theorem rests_scheduleDelivery (cfg : NotificationSubscriber) (p : ℕ) (σ : State) (rule : Option AlertRule) (now : Time) (provider : Text) (recipients : Recipients)
    (subject message : Text) (bypass : Bool) :
    Rests σ (σ.scheduleDelivery cfg p rule now provider recipients subject message bypass).2 ∧
      (σ.scheduleDelivery cfg p rule now provider recipients subject message bypass).2.log =
        (p, .fired (σ.alert rule provider recipients message)) :: σ.log := by
  unfold State.scheduleDelivery
  dsimp only
  split_ifs
  · unfold State.throttle
    split <;> exact ⟨⟨rfl, rfl, rfl, rfl⟩, rfl⟩
  · exact ⟨⟨rfl, rfl, rfl, rfl⟩, rfl⟩

theorem rests_beside (hc : ¬ c.Evaluates) (q : ℕ) : Rests σ (σ.exec cfg q c i).2 := by
  cases c with
  | guardStorm | count | fire => exact absurd trivial hc
  | start =>
    simp only [State.exec, State.start]
    split <;> exact ⟨rfl, rfl, rfl, rfl⟩
  | takeOverflow provider recipients =>
    simp only [State.exec, State.takeOverflow]
    split_ifs <;> exact ⟨rfl, rfl, rfl, rfl⟩
  | sent | sleep | digestEnded => exact ⟨rfl, rfl, rfl, rfl⟩

theorem alerts_of_log_eq {s : Done cfg} (h : (s.after p).log = s.before.log) : alerts p s = [] := by
  rw [alerts, h, Nat.sub_self, List.take_zero]
  rfl

theorem alerts_of_log_cons {s : Done cfg} {a : Alert} (h : (s.after p).log = (p, .fired a) :: s.before.log) :
    alerts p s = [a] := by
  have one : ((p, Event.fired a) :: s.before.log).length - s.before.log.length = 1 := by
    rw [List.length_cons]
    omega
  rw [alerts, h, one]
  rfl

/-- The errors of the storm guard after an envelope. -/
def noticed (cfg : NotificationSubscriber) (σ : State) (e : Envelope) (now : Time) : List Time :=
  prune (if Severity.error.value ≤ e.severity.value then σ.errorTimes ++ [now] else σ.errorTimes) now cfg.stormWindow

/-- The storm guard takes no notice of internal topics. -/
theorem guardStorm_internal (h : Internal cfg e) : σ.guardStorm cfg p e i = (none, σ) := if_pos h

/-- Otherwise it counts the errors: in a storm, at whose beginning there is an alert, no rule is evaluated. -/
structure Observed (cfg : NotificationSubscriber) (p : ℕ) (e : Envelope) (i : Input) (σ : State) : Prop where
  reply : (σ.guardStorm cfg p e i).1 =
    if cfg.stormThreshold < (noticed cfg σ e i.now).length then none else some i.now
  ruleTimes : (σ.guardStorm cfg p e i).2.ruleTimes = σ.ruleTimes
  dedup : (σ.guardStorm cfg p e i).2.dedup = σ.dedup
  errorTimes : (σ.guardStorm cfg p e i).2.errorTimes = noticed cfg σ e i.now
  stormActive : (σ.guardStorm cfg p e i).2.stormActive =
    decide (cfg.stormThreshold < (noticed cfg σ e i.now).length)
  alerts : (alerts p (⟨.guardStorm e, i, σ⟩ : Done cfg)).length =
    if cfg.stormThreshold < (noticed cfg σ e i.now).length ∧ σ.stormActive = false then 1 else 0

theorem observed (p : ℕ) (i : Input) (σ : State) (h : ¬ Internal cfg e) : Observed cfg p e i σ := by
  have eq : σ.guardStorm cfg p e i =
      if cfg.stormThreshold < (noticed cfg σ e i.now).length then
        if σ.stormActive then (none, { σ with errorTimes := noticed cfg σ e i.now })
        else
          (none,
            ({ σ with errorTimes := noticed cfg σ e i.now, stormActive := true }.scheduleDelivery cfg p none i.schedule
              (State.stormProvider cfg) (State.stormRecipients cfg) "Event storm detected".toList
              (State.stormAlert cfg e) true).2)
      else (some i.now, { σ with errorTimes := noticed cfg σ e i.now, stormActive := false }) :=
    if_neg h
  by_cases above : cfg.stormThreshold < (noticed cfg σ e i.now).length
  · rw [if_pos above] at eq
    by_cases active : σ.stormActive = true
    · rw [if_pos active] at eq
      have none : alerts p (⟨.guardStorm e, i, σ⟩ : Done cfg) = [] := alerts_of_log_eq (by
        change (σ.guardStorm cfg p e i).2.log = σ.log
        rw [eq])
      refine ⟨by rw [eq, if_pos above], by rw [eq], by rw [eq], by rw [eq], ?_, ?_⟩
      · rw [eq, decide_eq_true above, ← active]
      · rw [none, if_neg fun h => by rw [active] at h; cases h.2]
        rfl
    · rw [if_neg active] at eq
      obtain ⟨rests, log⟩ := rests_scheduleDelivery cfg p
        { σ with errorTimes := noticed cfg σ e i.now, stormActive := true } none i.schedule
        (State.stormProvider cfg) (State.stormRecipients cfg) "Event storm detected".toList (State.stormAlert cfg e)
        true
      have one := alerts_of_log_cons (s := (⟨.guardStorm e, i, σ⟩ : Done cfg)) (by
        change (σ.guardStorm cfg p e i).2.log = _
        rw [eq]
        exact log)
      refine ⟨by rw [eq, if_pos above], ?_, ?_, ?_, ?_, ?_⟩
      · rw [eq]
        exact rests.ruleTimes
      · rw [eq]
        exact rests.dedup
      · rw [eq]
        exact rests.errorTimes
      · rw [eq, decide_eq_true above]
        exact rests.stormActive
      · rw [one, if_pos ⟨above, eq_false_of_ne_true active⟩]
        rfl
  · rw [if_neg above] at eq
    have none : alerts p (⟨.guardStorm e, i, σ⟩ : Done cfg) = [] := alerts_of_log_eq (by
      change (σ.guardStorm cfg p e i).2.log = σ.log
      rw [eq])
    refine ⟨by rw [eq, if_neg above], by rw [eq], by rw [eq], by rw [eq], ?_, ?_⟩
    · rw [eq, decide_eq_false above]
    · rw [none, if_neg fun h => above h.1]
      rfl

/-- An alert that is to be fired is suppressed, or passes and starts its window anew. -/
structure Fired (cfg : NotificationSubscriber) (p : ℕ) (rule : AlertRule) (e : Envelope) (now : Time)
    (windowed : Bool) (i : Input) (σ : State) : Prop where
  ruleTimes : (σ.fire cfg p rule e now windowed i).2.ruleTimes = σ.ruleTimes
  errorTimes : (σ.fire cfg p rule e now windowed i).2.errorTimes = σ.errorTimes
  stormActive : (σ.fire cfg p rule e now windowed i).2.stormActive = σ.stormActive
  dedup : (σ.fire cfg p rule e now windowed i).2.dedup =
    if σ.Suppressed cfg rule e now then (σ.suppress rule e).dedup
    else Function.update σ.dedup (State.dedupKey rule e) (some { first := now })
  alerts : alerts p (⟨.fire rule e now windowed, i, σ⟩ : Done cfg) =
    if σ.Suppressed cfg rule e now then []
    else [σ.alert rule rule.provider rule.recipients
      (State.headline rule e windowed ++ σ.repeatNote cfg rule e)]

theorem fired (cfg : NotificationSubscriber) (p : ℕ) (rule : AlertRule) (e : Envelope) (now : Time) (windowed : Bool)
    (i : Input) (σ : State) : Fired cfg p rule e now windowed i σ := by
  by_cases suppressed : σ.Suppressed cfg rule e now
  · have eq : σ.fire cfg p rule e now windowed i = (.ok (), σ.suppress rule e) := if_pos suppressed
    refine ⟨by rw [eq]; rfl, by rw [eq]; rfl, by rw [eq]; rfl, by rw [eq, if_pos suppressed], ?_⟩
    rw [if_pos suppressed]
    refine alerts_of_log_eq ?_
    change (σ.fire cfg p rule e now windowed i).2.log = σ.log
    rw [eq]
    rfl
  · have eq : σ.fire cfg p rule e now windowed i =
        { σ with dedup := Function.update σ.dedup (State.dedupKey rule e) (some { first := now }) }.scheduleDelivery
          cfg p rule i.schedule rule.provider rule.recipients (State.subject rule e)
          (State.headline rule e windowed ++ σ.repeatNote cfg rule e) := if_neg suppressed
    obtain ⟨rests, log⟩ := rests_scheduleDelivery cfg p
      { σ with dedup := Function.update σ.dedup (State.dedupKey rule e) (some { first := now }) } rule i.schedule
      rule.provider rule.recipients (State.subject rule e)
      (State.headline rule e windowed ++ σ.repeatNote cfg rule e) false
    rw [← eq] at rests log
    refine ⟨rests.ruleTimes, rests.errorTimes, rests.stormActive, ?_, ?_⟩
    · rw [if_neg suppressed]
      exact rests.dedup
    · rw [if_neg suppressed]
      exact alerts_of_log_cons log

/-- An event joins the queue of its rule, which is emptied when it is full. -/
structure Counted (cfg : NotificationSubscriber) (p : ℕ) (rule : AlertRule) (now window : Time) (threshold : ℤ)
    (i : Input) (σ : State) : Prop where
  full : crosses (⟨.count rule now window threshold, i, σ⟩ : Done cfg) = true ↔
    threshold ≤ (prune (σ.ruleTimes rule.ruleId ++ [now]) now window).length
  ruleTimes : (σ.count rule now window threshold).2.ruleTimes = Function.update σ.ruleTimes rule.ruleId
    (if crosses (⟨.count rule now window threshold, i, σ⟩ : Done cfg) then []
      else prune (σ.ruleTimes rule.ruleId ++ [now]) now window)
  dedup : (σ.count rule now window threshold).2.dedup = σ.dedup
  errorTimes : (σ.count rule now window threshold).2.errorTimes = σ.errorTimes
  stormActive : (σ.count rule now window threshold).2.stormActive = σ.stormActive
  alerts : alerts p (⟨.count rule now window threshold, i, σ⟩ : Done cfg) = []

theorem counted (cfg : NotificationSubscriber) (p : ℕ) (rule : AlertRule) (now window : Time) (threshold : ℤ)
    (i : Input) (σ : State) : Counted cfg p rule now window threshold i σ := by
  have reply : crosses (⟨.count rule now window threshold, i, σ⟩ : Done cfg) =
      (σ.count rule now window threshold).1 := rfl
  have none : (σ.count rule now window threshold).2.log = σ.log →
      alerts p (⟨.count rule now window threshold, i, σ⟩ : Done cfg) = [] :=
    fun same => alerts_of_log_eq same
  by_cases full : threshold ≤ (prune (σ.ruleTimes rule.ruleId ++ [now]) now window).length
  · have eq : σ.count rule now window threshold =
        (true, { σ with ruleTimes := Function.update σ.ruleTimes rule.ruleId [] }) := if_pos full
    refine ⟨?_, ?_, by rw [eq], by rw [eq], by rw [eq], none (by rw [eq])⟩
    · rw [reply, eq]
      exact iff_of_true rfl full
    · rw [reply, eq, if_pos rfl]
  · have eq : σ.count rule now window threshold =
        (false, { σ with ruleTimes := Function.update σ.ruleTimes rule.ruleId
                          (prune (σ.ruleTimes rule.ruleId ++ [now]) now window) }) := if_neg full
    refine ⟨?_, ?_, by rw [eq], by rw [eq], by rw [eq], none (by rw [eq])⟩
    · rw [reply, eq]
      exact iff_of_false Bool.false_ne_true full
    · rw [reply, eq, if_neg Bool.false_ne_true]

/-! ## What the commands so far say -/

section Journals

variable {l before : List (Done cfg)} {s : Done cfg} {key : Text × Text} {now : Time}

/-- The clock does not go back from command to command. -/
abbrev Ordered (l : List (Done cfg)) : Prop := l.Pairwise fun s s' => moment s ≤ moment s'

/-- The time of the last alert of a rule and a class that was let through, with one more command. -/
def latest (p : ℕ) (key : Text × Text) (last : Option Time) (s : Done cfg) : Option Time :=
  if firing s = some key ∧ alerts p s ≠ [] then some (moment s) else last

/-- The time of the last alert of a rule and a class that was let through. -/
def lastThrough (p : ℕ) (key : Text × Text) (done : List (Done cfg)) : Option Time := done.foldl (latest p key) none

theorem collect_count (ruleId : Text) (times : List Time) (rule : AlertRule) (now window : Time) (threshold : ℤ)
    (i : Input) (σ : State) :
    collect ruleId times (⟨.count rule now window threshold, i, σ⟩ : Done cfg) =
      if rule.ruleId = ruleId then
        if crosses (⟨.count rule now window threshold, i, σ⟩ : Done cfg) then [] else times ++ [now]
      else times := rfl

theorem sinceCrossing_concat (ruleId : Text) (l : List (Done cfg)) (s : Done cfg) :
    sinceCrossing ruleId (l ++ [s]) = collect ruleId (sinceCrossing ruleId l) s := by
  rw [sinceCrossing, List.foldl_append]
  rfl

theorem suppressedSince_concat (p : ℕ) (key : Text × Text) (l : List (Done cfg)) (s : Done cfg) :
    suppressedSince p key (l ++ [s]) = tally p key (suppressedSince p key l) s := by
  rw [suppressedSince, List.foldl_append]
  rfl

theorem lastThrough_concat (p : ℕ) (key : Text × Text) (l : List (Done cfg)) (s : Done cfg) :
    lastThrough p key (l ++ [s]) = latest p key (lastThrough p key l) s := by
  rw [lastThrough, List.foldl_append]
  rfl

theorem weather_concat (l : List (Done cfg)) (s : Done cfg) : weather (l ++ [s]) = watch (weather l) s := by
  rw [weather, List.foldl_append]
  rfl

theorem storm_concat (l : List (Done cfg)) (s : Done cfg) : storm (l ++ [s]) = (watch (weather l) s).2 := by
  rw [storm, weather_concat]

/-- The errors with those of one more envelope. -/
def errorsWith (errors : List Time) (e : Envelope) (now : Time) : List Time :=
  if Severity.error.value ≤ e.severity.value then errors ++ [now] else errors

theorem watch_internal (h : Internal cfg e) (seen : List Time × Bool) :
    watch seen (⟨.guardStorm e, i, σ⟩ : Done cfg) = seen := if_pos h

theorem watch_guardStorm (h : ¬ Internal cfg e) (seen : List Time × Bool) :
    watch seen (⟨.guardStorm e, i, σ⟩ : Done cfg) =
      (errorsWith seen.1 e i.now,
        decide (cfg.stormThreshold <
          (errorsWith seen.1 e i.now).countP fun t => i.now - cfg.stormWindow ≤ t)) := if_neg h

theorem sinceCrossing_sublist (ruleId : Text) (l : List (Done cfg)) :
    (sinceCrossing ruleId l).Sublist (l.map moment) := by
  induction l using List.reverseRecOn with
  | nil => exact List.Sublist.refl _
  | append_singleton l s ih =>
    rw [sinceCrossing_concat, List.map_append]
    have same : (sinceCrossing ruleId l).Sublist (l.map moment ++ [moment s]) :=
      ih.trans (List.sublist_append_left _ _)
    obtain ⟨c, i, σ⟩ := s
    cases c with
    | count rule now window threshold =>
      simp only [collect]
      split_ifs
      · exact List.nil_sublist _
      · exact ih.append (List.Sublist.refl _)
      · exact same
    | _ => exact same

theorem weather_sublist (l : List (Done cfg)) : (weather l).1.Sublist (l.map moment) := by
  induction l using List.reverseRecOn with
  | nil => exact List.Sublist.refl _
  | append_singleton l s ih =>
    rw [weather_concat, List.map_append]
    have same : (weather l).1.Sublist (l.map moment ++ [moment s]) := ih.trans (List.sublist_append_left _ _)
    obtain ⟨c, i, σ⟩ := s
    cases c with
    | guardStorm e =>
      simp only [watch]
      split_ifs
      · exact same
      · exact ih.append (List.Sublist.refl _)
      · exact same
    | _ => exact same

/-- An alert of the rule and the class was let through, at this time. -/
theorem mem_of_lastThrough {first : Time} (h : lastThrough p key l = some first) :
    ∃ s ∈ l, firing s = some key ∧ alerts p s ≠ [] ∧ moment s = first := by
  induction l using List.reverseRecOn with
  | nil => cases h
  | append_singleton l s ih =>
    rw [lastThrough_concat, latest] at h
    split_ifs at h with new
    · cases h
      exact ⟨s, by simp, new.1, new.2, rfl⟩
    · obtain ⟨s', mem, rest⟩ := ih h
      exact ⟨s', List.mem_append_left _ mem, rest⟩

/-- No alert of the rule and the class was let through later. -/
theorem le_lastThrough (ordered : Ordered l) (mem : s ∈ l) (fires : firing s = some key) (through : alerts p s ≠ []) :
    ∃ first, lastThrough p key l = some first ∧ moment s ≤ first := by
  induction l using List.reverseRecOn with
  | nil => cases mem
  | append_singleton l s' ih =>
    obtain ⟨before, -, last⟩ := List.pairwise_append.1 ordered
    rw [lastThrough_concat, latest]
    split_ifs with new
    · refine ⟨_, rfl, ?_⟩
      rcases List.mem_append.1 mem with mem | mem
      · exact last s mem s' (List.mem_singleton_self _)
      · rw [List.mem_singleton.1 mem]
    · rcases List.mem_append.1 mem with mem | mem
      · exact ih before mem
      · rw [List.mem_singleton.1 mem] at fires through
        exact absurd ⟨fires, through⟩ new

/-- The rules, the dedup and the storm guard know what the commands so far say. -/
structure Agrees (cfg : NotificationSubscriber) (p : ℕ) (l : List (Done cfg)) (σ : State) : Prop where
  windows : ∀ rule ∈ cfg.rules, ∀ window threshold, rule.window = some (window, threshold) →
    ∀ bound, (∀ s ∈ l, moment s - window ≤ bound) →
      Window.Keeps bound (σ.ruleTimes rule.ruleId) (sinceCrossing rule.ruleId l)
  dedup : ∀ key, σ.dedup key = (lastThrough p key l).map fun first => ⟨first, suppressedSince p key l⟩
  unsuppressed : ∀ key, lastThrough p key l = none → suppressedSince p key l = 0
  errors : ∀ bound, (∀ s ∈ l, moment s - cfg.stormWindow ≤ bound) → Window.Keeps bound σ.errorTimes (weather l).1
  active : σ.stormActive = storm l

theorem Agrees.rests (h : Agrees cfg p l σ) (same : Rests σ σ') : Agrees cfg p l σ' := by
  obtain ⟨ruleTimes, dedup, errorTimes, stormActive⟩ := same
  refine ⟨?_, ?_, h.unsuppressed, ?_, ?_⟩
  · rw [ruleTimes]
    exact h.windows
  · rw [dedup]
    exact h.dedup
  · rw [errorTimes]
    exact h.errors
  · rw [stormActive]
    exact h.active

theorem agrees_new : Agrees cfg p [] {} :=
  ⟨fun _ _ _ _ _ _ _ => .refl _ _, fun _ => rfl, fun _ _ => rfl, fun _ _ => .refl _ _, rfl⟩

/-- In the window of the rule, its queue has the events since the last crossing. -/
theorem Agrees.keeps_push (h : Agrees cfg p l σ) {window : Time} {threshold : ℤ} (mem : rule ∈ cfg.rules)
    (hw : rule.window = some (window, threshold))
    (ordered : Ordered (l ++ [⟨.count rule now window threshold, i, σ⟩])) :
    Window.Keeps (now - window) (σ.ruleTimes rule.ruleId ++ [now]) (sinceCrossing rule.ruleId l ++ [now]) ∧
      (sinceCrossing rule.ruleId l ++ [now]).Pairwise (· ≤ ·) := by
  have last := (List.pairwise_append.1 ordered).2.2
  constructor
  · refine (h.windows rule mem window threshold hw (now - window) fun s hs => ?_).push
    exact sub_le_sub_right (last s hs _ (List.mem_singleton_self _)) _
  · have sub : (sinceCrossing rule.ruleId l ++ [now]).Sublist
        ((l ++ [(⟨.count rule now window threshold, i, σ⟩ : Done cfg)]).map moment) := by
      rw [List.map_append]
      exact (sinceCrossing_sublist _ l).append (List.Sublist.refl _)
    exact (List.pairwise_map.2 ordered).sublist sub

/-- An event crosses when there are enough of them. -/
theorem Agrees.crosses_iff (h : Agrees cfg p l σ) {window : Time} {threshold : ℤ}
    (issuable : (Cmd.count rule now window threshold).Issuable cfg)
    (ordered : Ordered (l ++ [⟨.count rule now window threshold, i, σ⟩])) :
    crosses (⟨.count rule now window threshold, i, σ⟩ : Done cfg) = true ↔
      threshold ≤ (sinceCrossing rule.ruleId l ++ [now]).countP fun t => now - window ≤ t := by
  obtain ⟨keeps, sorted⟩ := h.keeps_push issuable.1 issuable.2 ordered
  rw [(counted cfg p rule now window threshold i σ).full, prune, keeps.length_drop le_rfl sorted]

/-- One more event of a rule. -/
theorem Agrees.count (h : Agrees cfg p l σ) (ids : (cfg.rules.map AlertRule.ruleId).Nodup) {window : Time}
    {threshold : ℤ} (issuable : (Cmd.count rule now window threshold).Issuable cfg)
    (ordered : Ordered (l ++ [⟨.count rule now window threshold, i, σ⟩])) :
    Agrees cfg p (l ++ [⟨.count rule now window threshold, i, σ⟩]) (σ.count rule now window threshold).2 := by
  have step := counted cfg p rule now window threshold i σ
  obtain ⟨keeps, -⟩ := h.keeps_push issuable.1 issuable.2 ordered
  refine ⟨fun rule' mem' window' threshold' hw' bound late => ?_, fun key => ?_, fun key none => ?_,
    fun bound late => ?_, ?_⟩
  · have old : ∀ s ∈ l, moment s - window' ≤ bound := fun s hs => late s (List.mem_append_left _ hs)
    rw [sinceCrossing_concat, step.ruleTimes]
    by_cases same : rule.ruleId = rule'.ruleId
    · obtain rfl := List.inj_on_of_nodup_map ids issuable.1 mem' same
      obtain ⟨rfl, rfl⟩ : window = window' ∧ threshold = threshold' := by
        simpa only [issuable.2, Option.some_inj, Prod.mk.injEq] using hw'
      have now_late : now - window ≤ bound := late _ (List.mem_append_right _ (List.mem_singleton_self _))
      rw [Function.update_self, collect_count, if_pos rfl]
      split_ifs
      · exact .refl _ _
      · exact (keeps.drop le_rfl).mono now_late
    · rw [Function.update_of_ne (Ne.symm same), collect_count, if_neg same]
      exact h.windows rule' mem' window' threshold' hw' bound old
  · rw [lastThrough_concat, suppressedSince_concat, step.dedup]
    exact h.dedup key
  · rw [lastThrough_concat] at none
    rw [suppressedSince_concat]
    exact h.unsuppressed key none
  · rw [weather_concat, step.errorTimes]
    exact h.errors bound fun s hs => late s (List.mem_append_left _ hs)
  · rw [storm_concat, step.stormActive]
    exact h.active

/-- The storm guard has the errors of its window. -/
theorem Agrees.keeps_noticed (h : Agrees cfg p l σ) (e : Envelope) (ordered : Ordered (l ++ [⟨.guardStorm e, i, σ⟩])) :
    Window.Keeps (i.now - cfg.stormWindow) (noticed cfg σ e i.now) (errorsWith (weather l).1 e i.now) ∧
      (noticed cfg σ e i.now).length =
        (errorsWith (weather l).1 e i.now).countP fun t => i.now - cfg.stormWindow ≤ t := by
  have last := (List.pairwise_append.1 ordered).2.2
  have keeps := h.errors (i.now - cfg.stormWindow) fun s hs =>
    sub_le_sub_right (last s hs _ (List.mem_singleton_self _)) _
  have sub : ((weather l).1 ++ [i.now]).Sublist ((l ++ [(⟨.guardStorm e, i, σ⟩ : Done cfg)]).map moment) := by
    rw [List.map_append]
    exact (weather_sublist l).append (List.Sublist.refl _)
  have sorted := (List.pairwise_map.2 ordered).sublist sub
  unfold noticed errorsWith
  split_ifs
  · exact ⟨keeps.push.drop le_rfl, keeps.push.length_drop le_rfl sorted⟩
  · exact ⟨keeps.drop le_rfl, keeps.length_drop le_rfl (sorted.sublist (List.sublist_append_left _ _))⟩

/-- One more envelope. -/
theorem Agrees.guardStorm (h : Agrees cfg p l σ) (e : Envelope) (ordered : Ordered (l ++ [⟨.guardStorm e, i, σ⟩])) :
    Agrees cfg p (l ++ [⟨.guardStorm e, i, σ⟩]) (σ.guardStorm cfg p e i).2 := by
  have windows : ∀ rule ∈ cfg.rules, ∀ window threshold, rule.window = some (window, threshold) → ∀ bound,
      (∀ s ∈ l ++ [⟨.guardStorm e, i, σ⟩], moment s - window ≤ bound) →
        Window.Keeps bound (σ.ruleTimes rule.ruleId)
          (sinceCrossing rule.ruleId (l ++ [(⟨.guardStorm e, i, σ⟩ : Done cfg)])) := by
    intro rule mem window threshold hw bound late
    rw [sinceCrossing_concat]
    exact h.windows rule mem window threshold hw bound fun s hs => late s (List.mem_append_left _ hs)
  have dedup : ∀ key, σ.dedup key = (lastThrough p key (l ++ [(⟨.guardStorm e, i, σ⟩ : Done cfg)])).map fun first =>
      ⟨first, suppressedSince p key (l ++ [(⟨.guardStorm e, i, σ⟩ : Done cfg)])⟩ := by
    intro key
    rw [lastThrough_concat, suppressedSince_concat]
    exact h.dedup key
  have unsuppressed : ∀ key, lastThrough p key (l ++ [(⟨.guardStorm e, i, σ⟩ : Done cfg)]) = none →
      suppressedSince p key (l ++ [(⟨.guardStorm e, i, σ⟩ : Done cfg)]) = 0 := by
    intro key none
    rw [lastThrough_concat] at none
    rw [suppressedSince_concat]
    exact h.unsuppressed key none
  by_cases internal : Internal cfg e
  · rw [guardStorm_internal internal]
    refine ⟨windows, dedup, unsuppressed, fun bound late => ?_, ?_⟩
    · rw [weather_concat, watch_internal internal]
      exact h.errors bound fun s hs => late s (List.mem_append_left _ hs)
    · rw [storm_concat, watch_internal internal]
      exact h.active
  · have step := observed p i σ internal
    obtain ⟨keeps, length⟩ := h.keeps_noticed e ordered
    refine ⟨?_, ?_, unsuppressed, fun bound late => ?_, ?_⟩
    · rw [step.ruleTimes]
      exact windows
    · rw [step.dedup]
      exact dedup
    · rw [weather_concat, watch_guardStorm internal, step.errorTimes]
      exact keeps.mono (late _ (List.mem_append_right _ (List.mem_singleton_self _)))
    · rw [storm_concat, watch_guardStorm internal, step.stormActive, length]

/-- The first envelope of a storm has an alert. -/
theorem Agrees.storms (h : Agrees cfg p l σ) (e : Envelope) (ordered : Ordered (l ++ [⟨.guardStorm e, i, σ⟩])) :
    (alerts p (⟨.guardStorm e, i, σ⟩ : Done cfg)).length =
      if storm (l ++ [(⟨.guardStorm e, i, σ⟩ : Done cfg)]) = true ∧ storm l = false then 1 else 0 := by
  by_cases internal : Internal cfg e
  · have none : alerts p (⟨.guardStorm e, i, σ⟩ : Done cfg) = [] := by
      refine alerts_of_log_eq ?_
      change (σ.guardStorm cfg p e i).2.log = σ.log
      rw [guardStorm_internal internal]
    have same : storm (l ++ [(⟨.guardStorm e, i, σ⟩ : Done cfg)]) = storm l := by
      rw [storm_concat, watch_internal internal]
      rfl
    have no : ¬ (storm l = true ∧ storm l = false) := fun both => Bool.false_ne_true (both.2.symm.trans both.1)
    rw [none, same, if_neg no]
    rfl
  · have above : cfg.stormThreshold < (noticed cfg σ e i.now).length ↔
        storm (l ++ [(⟨.guardStorm e, i, σ⟩ : Done cfg)]) = true := by
      rw [storm_concat, watch_guardStorm internal, (h.keeps_noticed e ordered).2, decide_eq_true_iff]
    have active : σ.stormActive = false ↔ storm l = false := by rw [h.active]
    rw [(observed p i σ internal).alerts]
    exact if_congr (and_congr above active) rfl rfl

/-- An alert is suppressed if and only if one was let through in the dedup window before it. -/
theorem Agrees.suppressed_iff (h : Agrees cfg p l σ) (ordered : Ordered l) :
    σ.Suppressed cfg rule e now ↔ ∃ s ∈ l, firing s = some (State.dedupKey rule e) ∧ alerts p s ≠ [] ∧
      now - moment s < cfg.dedupWindow := by
  have entry := h.dedup (State.dedupKey rule e)
  constructor
  · rintro ⟨d, hd, recent⟩
    rw [entry, Option.mem_def, Option.map_eq_some_iff] at hd
    obtain ⟨first, last, rfl⟩ := hd
    obtain ⟨s, mem, fires, through, rfl⟩ := mem_of_lastThrough last
    exact ⟨s, mem, fires, through, recent⟩
  · rintro ⟨s, mem, fires, through, recent⟩
    obtain ⟨first, last, le⟩ := le_lastThrough ordered mem fires through
    refine ⟨⟨first, suppressedSince p (State.dedupKey rule e) l⟩, ?_, ?_⟩
    · rw [entry, last]
      rfl
    · exact (sub_le_sub_left le now).trans_lt recent

/-- The note of an alert says how many were suppressed. -/
theorem Agrees.repeatNote_eq (h : Agrees cfg p l σ) :
    σ.repeatNote cfg rule e = noteOf cfg (suppressedSince p (State.dedupKey rule e) l) := by
  have entry := h.dedup (State.dedupKey rule e)
  cases last : lastThrough p (State.dedupKey rule e) l with
  | none =>
    rw [last] at entry
    rw [State.repeatNote, entry, h.unsuppressed _ last]
    rfl
  | some first =>
    rw [last] at entry
    rw [State.repeatNote, entry]
    rfl

theorem alerts_fire_eq_nil_iff {windowed : Bool} :
    alerts p (⟨.fire rule e now windowed, i, σ⟩ : Done cfg) = [] ↔ σ.Suppressed cfg rule e now := by
  rw [(fired cfg p rule e now windowed i σ).alerts]
  split_ifs with suppressed
  · exact iff_of_true rfl suppressed
  · exact iff_of_false (by simp) suppressed

theorem dedup_suppress (σ : State) (rule : AlertRule) (e : Envelope) :
    (σ.suppress rule e).dedup = Function.update σ.dedup (State.dedupKey rule e)
      ((σ.dedup (State.dedupKey rule e)).map fun entry => { entry with suppressed := entry.suppressed + 1 }) := rfl

theorem latest_fire {windowed : Bool} (key : Text × Text) (last : Option Time) :
    latest p key last (⟨.fire rule e now windowed, i, σ⟩ : Done cfg) =
      if State.dedupKey rule e = key ∧ ¬ σ.Suppressed cfg rule e now then some now else last := by
  have same : firing (⟨.fire rule e now windowed, i, σ⟩ : Done cfg) = some key ↔ State.dedupKey rule e = key :=
    Option.some_inj
  simp only [latest, same, ne_eq, alerts_fire_eq_nil_iff]
  rfl

theorem tally_fire {windowed : Bool} (key : Text × Text) (n : ℕ) :
    tally p key n (⟨.fire rule e now windowed, i, σ⟩ : Done cfg) =
      if State.dedupKey rule e = key then if σ.Suppressed cfg rule e now then n + 1 else 0 else n := by
  have same : firing (⟨.fire rule e now windowed, i, σ⟩ : Done cfg) = some key ↔ State.dedupKey rule e = key :=
    Option.some_inj
  simp only [tally, same, alerts_fire_eq_nil_iff]

/-- One more alert that is to be fired. -/
theorem Agrees.fire (h : Agrees cfg p l σ) (rule : AlertRule) (e : Envelope) (now : Time) (windowed : Bool) (i : Input) :
    Agrees cfg p (l ++ [⟨.fire rule e now windowed, i, σ⟩]) (σ.fire cfg p rule e now windowed i).2 := by
  have step := fired cfg p rule e now windowed i σ
  refine ⟨fun rule' mem window threshold hw bound late => ?_, fun key => ?_, fun key none => ?_,
    fun bound late => ?_, ?_⟩
  · rw [sinceCrossing_concat, step.ruleTimes]
    exact h.windows rule' mem window threshold hw bound fun s hs => late s (List.mem_append_left _ hs)
  · rw [lastThrough_concat, suppressedSince_concat, step.dedup, latest_fire, tally_fire]
    by_cases suppressed : σ.Suppressed cfg rule e now
    · have old : ¬ (State.dedupKey rule e = key ∧ ¬ σ.Suppressed cfg rule e now) := fun new => new.2 suppressed
      rw [if_pos suppressed, if_neg old, if_pos suppressed, dedup_suppress]
      by_cases same : State.dedupKey rule e = key
      · subst same
        rw [Function.update_self, if_pos rfl, h.dedup, Option.map_map]
        rfl
      · rw [Function.update_of_ne (Ne.symm same), if_neg same]
        exact h.dedup key
    · rw [if_neg suppressed, if_neg suppressed]
      by_cases same : State.dedupKey rule e = key
      · subst same
        have new : State.dedupKey rule e = State.dedupKey rule e ∧ ¬ σ.Suppressed cfg rule e now :=
          ⟨rfl, suppressed⟩
        rw [Function.update_self, if_pos new, if_pos rfl]
        rfl
      · have old : ¬ (State.dedupKey rule e = key ∧ ¬ σ.Suppressed cfg rule e now) := fun new => same new.1
        rw [Function.update_of_ne (Ne.symm same), if_neg old, if_neg same]
        exact h.dedup key
  · rw [lastThrough_concat, latest_fire] at none
    rw [suppressedSince_concat, tally_fire]
    split_ifs at none with new
    by_cases same : State.dedupKey rule e = key
    · subst same
      rw [not_and, not_not] at new
      obtain ⟨d, hd, -⟩ := new rfl
      rw [h.dedup, none] at hd
      cases hd
    · rw [if_neg same]
      exact h.unsuppressed key none
  · rw [weather_concat, step.errorTimes]
    exact h.errors bound fun s hs => late s (List.mem_append_left _ hs)
  · rw [storm_concat, step.stormActive]
    exact h.active

/-- Whatever the commands so far, rules, dedup and storm guard know it. -/
theorem Executed.agrees (ids : (cfg.rules.map AlertRule.ruleId).Nodup) (h : Executed cfg p l σ) (ordered : Ordered l) :
    Agrees cfg p l σ := by
  induction h with
  | new => exact agrees_new
  | @command l σ c i h hc ih =>
    have before := ih (List.pairwise_append.1 ordered).1
    cases c with
    | guardStorm e => exact before.guardStorm e ordered
    | count rule now window threshold => exact before.count ids hc ordered
    | fire rule e now windowed => exact before.fire rule e now windowed i
    | _ => exact hc.elim
  | beside _ hc ih => exact (ih ordered).rests (rests_beside hc _)

end Journals

/-! ## Every run -/

section Sessions

variable {l before after : List (Evaluation cfg)} {ev : Evaluation cfg} {t done rest : List (Done cfg)} {s : Done cfg}

theorem Session.evaluated (h : Session cfg p l σ) : ∀ ev ∈ l, Evaluated cfg p ev.envelope ev.commands := by
  induction h with
  | new => exact fun ev hev => absurd hev List.not_mem_nil
  | evaluate _ t ih =>
    intro ev hev
    rcases List.mem_append.1 hev with hev | hev
    · exact ih ev hev
    · rw [List.mem_singleton.1 hev]
      exact evaluated_of_trace t
  | beside _ _ ih => exact ih

/-- The rules are evaluated for the reading of the storm guard. -/
theorem guardStorm_reply {now : Time} (h : (σ.guardStorm cfg p e i).1 = some now) :
    now = i.now ∧ ¬ Internal cfg e ∧ ¬ cfg.stormThreshold < (noticed cfg σ e i.now).length := by
  by_cases internal : Internal cfg e
  · rw [guardStorm_internal internal] at h
    cases h
  · rw [(observed p i σ internal).reply] at h
    split_ifs at h with above
    cases h
    exact ⟨rfl, internal, above⟩

theorem Evaluated.moments (h : Evaluated cfg p e t) : ∀ s ∈ t, moment s = (⟨e, t⟩ : Evaluation cfg).now := by
  intro s hs
  cases h with
  | ignored =>
    rw [List.mem_singleton.1 hs]
    rfl
  | applied reply applied =>
    obtain ⟨rfl, -, -⟩ := guardStorm_reply reply
    rcases List.mem_cons.1 hs with rfl | hs
    · rfl
    · obtain ⟨rule, -, -, ⟨window, threshold, -, cmd⟩ | ⟨windowed, cmd⟩⟩ := applied.own s hs
      · rw [moment, cmd]
        rfl
      · rw [moment, cmd]
        rfl

theorem Session.ordered (h : Session cfg p l σ) (clock : (l.map Evaluation.now).Pairwise (· ≤ ·)) :
    Ordered (journal l) := by
  have moments : ∀ ev ∈ l, ∀ s ∈ ev.commands, moment s = ev.now := fun ev hev => (h.evaluated ev hev).moments
  refine List.pairwise_flatMap.2 ⟨fun ev hev => ?_, ?_⟩
  · refine List.pairwise_of_forall_mem_list fun s hs s' hs' => ?_
    rw [moments ev hev s hs, moments ev hev s' hs']
  · refine (List.pairwise_map.1 clock).imp_of_mem fun {ev ev'} hev hev' le s hs s' hs' => ?_
    rw [moments ev hev s hs, moments ev' hev' s' hs']
    exact le

/-- What a command found, and why it was issued. -/
theorem Executed.at (h : Executed cfg p t σ) (split : t = done ++ s :: rest) :
    Executed cfg p done s.before ∧ s.cmd.Issuable cfg := by
  induction h generalizing rest with
  | new => exact absurd split.symm (by simp)
  | @command l σ c i h hc ih =>
    rcases List.eq_nil_or_concat rest with rfl | ⟨rest, s', rfl⟩
    · obtain ⟨rfl, same⟩ := List.append_inj' split rfl
      cases same
      exact ⟨h, hc⟩
    · rw [List.concat_eq_append, ← List.cons_append, ← List.append_assoc] at split
      exact ih (List.append_inj' split rfl).1
  | beside _ _ ih => exact ih split

/-- The rules do not change what the storm guard has seen. -/
theorem storm_append (h : ∀ s ∈ rest, ∀ e, s.cmd ≠ .guardStorm e) : storm (done ++ rest) = storm done := by
  induction rest using List.reverseRecOn with
  | nil => rw [List.append_nil]
  | append_singleton rest s ih =>
    have old := ih fun s' hs' => h s' (List.mem_append_left _ hs')
    have other := h s (List.mem_append_right _ (List.mem_singleton_self _))
    rw [← List.append_assoc, storm_concat, ← old, storm]
    obtain ⟨c, i, σ⟩ := s
    cases c with
    | guardStorm e => exact absurd rfl (other e)
    | _ => rfl

theorem journal_concat (l : List (Evaluation cfg)) (ev : Evaluation cfg) :
    journal (l ++ [ev]) = journal l ++ ev.commands := by
  rw [journal, List.flatMap_append, List.flatMap_singleton]
  rfl

/-- An evaluation gets past the storm guard if and only if the topic is not internal and there is no storm. -/
theorem Session.guarded (h : Session cfg p l σ) (ids : (cfg.rules.map AlertRule.ruleId).Nodup)
    (clock : (l.map Evaluation.now).Pairwise (· ≤ ·)) (split : l = before ++ ev :: after) :
    ∃ s rest, ev.commands = s :: rest ∧ s.cmd = .guardStorm ev.envelope ∧
      ((¬ Internal cfg ev.envelope ∧ storm (journal (before ++ [ev])) = false ∧
          Applied cfg p ev.envelope ev.now cfg.rules rest) ∨
        (¬ (¬ Internal cfg ev.envelope ∧ storm (journal (before ++ [ev])) = false) ∧ rest = [])) := by
  have evaluated := h.evaluated ev (split ▸ List.mem_append_right _ (List.mem_cons_self ..))
  have ordered := h.ordered clock
  obtain ⟨e, commands⟩ := ev
  change Evaluated cfg p e commands at evaluated
  have lines : journal l = journal before ++ (commands ++ journal after) := by
    rw [split, journal, List.flatMap_append, List.flatMap_cons]
    rfl
  have weather : ∀ {i : Input} {σ : State} {rest : List (Done cfg)}, commands = ⟨.guardStorm e, i, σ⟩ :: rest →
      (∀ s ∈ rest, ∀ e', s.cmd ≠ .guardStorm e') → ¬ Internal cfg e →
        storm (journal (before ++ [⟨e, commands⟩])) =
          decide (cfg.stormThreshold < (noticed cfg σ e i.now).length) := by
    intro i σ rest eq others internal
    have first : journal l = journal before ++ (⟨.guardStorm e, i, σ⟩ : Done cfg) :: (rest ++ journal after) := by
      rw [lines, eq]
      rfl
    have upto : Ordered (journal before ++ [(⟨.guardStorm e, i, σ⟩ : Done cfg)]) := by
      rw [first, ← List.singleton_append, ← List.append_assoc] at ordered
      exact (List.pairwise_append.1 ordered).1
    have agrees := (h.executed.at first).1.agrees ids (List.pairwise_append.1 upto).1
    have eq' : journal before ++ commands = (journal before ++ [(⟨.guardStorm e, i, σ⟩ : Done cfg)]) ++ rest := by
      rw [eq, List.append_assoc]
      rfl
    rw [journal_concat, eq', storm_append others, storm_concat, watch_guardStorm internal,
      (agrees.keeps_noticed e upto).2]
  cases evaluated with
  | @ignored i σ reply =>
    refine ⟨_, [], rfl, rfl, .inr ⟨?_, rfl⟩⟩
    rintro ⟨internal, calm⟩
    rw [weather rfl (fun s hs => absurd hs List.not_mem_nil) internal] at calm
    rw [(observed p i σ internal).reply, if_neg (of_decide_eq_false calm)] at reply
    cases reply
  | @applied i σ now rest reply applied =>
    obtain ⟨rfl, internal, calm⟩ := guardStorm_reply reply
    refine ⟨_, rest, rfl, rfl, .inl ⟨internal, ?_, applied⟩⟩
    rw [weather rfl ?_ internal, decide_eq_false calm]
    intro s hs e' cmd
    obtain ⟨rule, -, -, ⟨_, _, -, own⟩ | ⟨_, own⟩⟩ := applied.own s hs
    · cases own.symm.trans cmd
    · cases own.symm.trans cmd

/-- Among the commands of an evaluation, those of the rules are past the storm guard. -/
theorem exists_mem_iff {guard : Done cfg} {C : Done cfg → Prop} (h : ¬ C guard) :
    (∃ s ∈ guard :: rest, C s) ↔ ∃ s ∈ rest, C s := by
  constructor
  · rintro ⟨s, hs, cs⟩
    rcases List.mem_cons.1 hs with rfl | hs
    · exact absurd cs h
    · exact ⟨s, hs, cs⟩
  · rintro ⟨s, hs, cs⟩
    exact ⟨s, List.mem_cons_of_mem _ hs, cs⟩

end Sessions

/-- Whatever the rules and the sequence of envelopes, as long as rules have different ids and the clock does not go
back: threshold rules, repeated alerts and storms are as they should be, if and only if no alert that raises keeps a
later threshold rule from an envelope. -/
theorem alerting_iff (cfg : NotificationSubscriber) (p : ℕ) (ids : (cfg.rules.map AlertRule.ruleId).Nodup)
    {l : List (Evaluation cfg)} {σ : State} (h : Session cfg p l σ)
    (clock : (l.map Evaluation.now).Pairwise (· ≤ ·)) :
    Alerting cfg p l ↔ ∀ ev ∈ l, Unhindered cfg ev := by
  have ordered := h.ordered clock
  have upto : ∀ {before s after}, journal l = before ++ s :: after → Ordered (before ++ [s]) := by
    intro before s after split
    rw [split, ← List.singleton_append, ← List.append_assoc] at ordered
    exact (List.pairwise_append.1 ordered).1
  have found : ∀ {before s after}, journal l = before ++ s :: after →
      Agrees cfg p before s.before ∧ s.cmd.Issuable cfg := by
    intro before s after split
    obtain ⟨executed, issuable⟩ := h.executed.at split
    exact ⟨executed.agrees ids (List.pairwise_append.1 (upto split)).1, issuable⟩
  constructor
  · intro alerting ev hev s hs stuck rule now windowed cmd first last rules later mem window threshold hw pos yes
    obtain ⟨before, after, split⟩ := List.append_of_mem hev
    obtain ⟨guard, rest, commands, isGuard, past⟩ := h.guarded ids clock split
    have notGuard : guard ≠ s := by
      rintro rfl
      cases isGuard.symm.trans cmd
    have hs : s ∈ rest := by
      rw [commands] at hs
      exact (List.mem_cons.1 hs).resolve_left (Ne.symm notGuard)
    rcases past with ⟨internal, calm, applied⟩ | ⟨-, rfl⟩
    · have mem' : later ∈ cfg.rules := rules ▸ List.mem_append_right _ (List.mem_cons_of_mem _ mem)
      obtain ⟨s', hs', cmd'⟩ := (alerting.evaluated before ev after split later mem' window threshold hw pos).2
        ⟨internal, calm, yes⟩
      have hs' : s' ∈ rest := by
        rw [commands] at hs'
        refine (List.mem_cons.1 hs').resolve_left ?_
        rintro rfl
        cases isGuard.symm.trans cmd'
      obtain rfl : now = ev.now := by
        obtain ⟨rule', -, -, ⟨_, _, -, own⟩ | ⟨_, own⟩⟩ := applied.own s hs
        · cases own.symm.trans cmd
        · cases own.symm.trans cmd
          rfl
      obtain ⟨first', last', rules', only⟩ := applied.stops hs stuck cmd
      have nodup : (first ++ rule :: last).Nodup := rules ▸ ids.of_map _
      obtain ⟨-, tail, apart⟩ := List.nodup_append.1 nodup
      have fresh : rule ∉ first := fun hr => apart rule hr rule (List.mem_cons_self ..) rfl
      have unrepeated : rule ∉ last := (List.nodup_cons.1 tail).1
      have same := (List.append_cons_inj_of_notMem fresh unrepeated).1 (rules.symm.trans rules')
      rcases only s' hs' later window threshold cmd' with rfl | mem'
      · exact unrepeated mem
      · rw [← same.1] at mem'
        exact apart later mem' later (List.mem_cons_of_mem _ mem) rfl
    · exact absurd hs List.not_mem_nil
  · intro unhindered
    refine ⟨?_, ?_, ?_, ?_, ?_, ?_⟩
    · intro before ev after split rule mem window threshold hw pos
      obtain ⟨guard, rest, commands, isGuard, past⟩ := h.guarded ids clock split
      have notGuard : guard.cmd ≠ .count rule ev.now window threshold := fun cmd => by cases isGuard.symm.trans cmd
      rw [commands, exists_mem_iff notGuard]
      rcases past with ⟨internal, calm, applied⟩ | ⟨stopped, rfl⟩
      · constructor
        · rintro ⟨s, hs, cmd⟩
          obtain ⟨rule', -, yes, ⟨_, _, -, own⟩ | ⟨_, own⟩⟩ := applied.own s hs
          · cases own.symm.trans cmd
            exact ⟨internal, calm, yes⟩
          · cases own.symm.trans cmd
        · rintro ⟨-, -, yes⟩
          rcases applied.counts mem yes hw with counted | ⟨first, rule', last, rules, later, s, hs, stuck, _, cmd⟩
          · exact counted
          · have hev : ev ∈ l := split ▸ List.mem_append_right _ (List.mem_cons_self ..)
            have hs' : s ∈ ev.commands := by
              rw [commands]
              exact List.mem_cons_of_mem _ hs
            exact absurd yes (unhindered ev hev s hs' stuck rule' _ _ cmd first last rules rule later window
              threshold hw pos)
      · refine iff_of_false ?_ fun past => stopped ⟨past.1, past.2.1⟩
        rintro ⟨s, hs, -⟩
        exact List.not_mem_nil hs
    · rintro before ⟨c, i, σ₁⟩ after split rule now window threshold rfl
      obtain ⟨agrees, issuable⟩ := found split
      exact agrees.crosses_iff issuable (upto split)
    · intro ev hev rule
      obtain ⟨before, after, split⟩ := List.append_of_mem hev
      obtain ⟨guard, rest, commands, isGuard, past⟩ := h.guarded ids clock split
      have notCount : ¬ (crosses guard = true ∧ ∃ window threshold,
          guard.cmd = .count rule ev.now window threshold) := by
        rintro ⟨-, _, _, cmd⟩
        cases isGuard.symm.trans cmd
      have notFire : guard.cmd ≠ .fire rule ev.envelope ev.now true := fun cmd => by cases isGuard.symm.trans cmd
      rw [commands, exists_mem_iff notCount, exists_mem_iff notFire]
      rcases past with ⟨-, -, applied⟩ | ⟨-, rfl⟩
      · exact applied.fires rule
      · exact iff_of_false (fun ⟨s, hs, _⟩ => List.not_mem_nil hs) fun ⟨s, hs, _⟩ => List.not_mem_nil hs
    · rintro before ⟨c, i, σ₁⟩ after split rule e now windowed rfl
      rw [alerts_fire_eq_nil_iff]
      exact (found split).1.suppressed_iff (List.pairwise_append.1 (upto split)).1
    · rintro before ⟨c, i, σ₁⟩ after split rule e now windowed rfl through
      rw [ne_eq, alerts_fire_eq_nil_iff] at through
      rw [(fired cfg p rule e now windowed i σ₁).alerts, if_neg through]
      refine ⟨_, rfl, ?_⟩
      rw [← (found split).1.repeatNote_eq]
      rfl
    · rintro before ⟨c, i, σ₁⟩ after split e rfl
      exact (found split).1.storms e (upto split)

namespace Watching

/-- A rule for topics with `a`, and one for a number of errors within a minute. -/
def settings (throttleMax threshold : ℤ) : NotificationSubscriber where
  throttleMax := throttleMax
  rules := [Scenario.rule 'a' "x",
    { ruleId := ['n'], windowSeconds := some (60 * 10 ^ 9), countThreshold := some threshold,
      recipients := .one ['x'] }]

/-- What an error does, so many seconds after the start. -/
def evaluation (cfg : NotificationSubscriber) (topic : String) (seconds : ℤ) (σ : State) :
    List (Done cfg) × Coro (Outcome Unit) × State :=
  Prog.follow (machine cfg) 0
    (List.replicate 4 { now := seconds * 10 ^ 9, schedule := seconds * 10 ^ 9 })
    (Notification.evaluate cfg (Scenario.error topic)) σ

/-- The first of two errors. -/
def first : List (Done (settings 10 2)) × Coro (Outcome Unit) × State := evaluation (settings 10 2) "a" 0 {}

/-- The second one. -/
def second : List (Done (settings 10 2)) × Coro (Outcome Unit) × State :=
  evaluation (settings 10 2) "a" 1 first.2.2

/-- An error, where the channel takes no messages. -/
def muted : List (Done (settings 0 1)) × Coro (Outcome Unit) × State := evaluation (settings 0 1) "a" 0 {}

/-- A rule counts an event. -/
def counts (s : Done (settings 0 1)) : Bool :=
  match s.cmd with
  | .count _ _ _ _ => true
  | _ => false

end Watching

open Watching in
/-- Two errors within a minute: the second one crosses, and its other alert is suppressed. -/
theorem alerting_crossing :
    ∃ l σ, Session (settings 10 2) 0 l σ ∧ l.map Evaluation.now = [0, 10 ^ 9] ∧
      (journal l).map crosses = [false, false, false, false, false, true, false] ∧
      (journal l).map (fun s => (alerts 0 s).length) = [0, 1, 0, 0, 0, 0, 1] ∧
      (Alerting (settings 10 2) 0 l ↔ ∀ ev ∈ l, Unhindered (settings 10 2) ev) := by
  have run₁ : Trace (machine (settings 10 2)) 0 (fun _ _ => False)
      (Notification.evaluate (settings 10 2) (Scenario.error "a")) {} first.1 (.pure (.ok ())) first.2.2 :=
    Trace.of_follow ..
  have run₂ : Trace (machine (settings 10 2)) 0 (fun _ _ => False)
      (Notification.evaluate (settings 10 2) (Scenario.error "a")) first.2.2 second.1 (.pure (.ok ())) second.2.2 :=
    Trace.of_follow ..
  have session := (Session.new.evaluate run₁).evaluate run₂
  refine ⟨_, _, session, rfl, by decide +kernel, by decide +kernel, ?_⟩
  exact alerting_iff (settings 10 2) 0 (by decide) session (by decide +kernel)

open Watching in
/-- On a channel that takes no messages the alert of the first rule raises, and the second rule, which would cross
with one event, never evaluates it. -/
theorem event_missed :
    ∃ l σ, Session (settings 0 1) 0 l σ ∧ l.map Evaluation.now = [0] ∧ ¬ Alerting (settings 0 1) 0 l := by
  have run : Trace (machine (settings 0 1)) 0 (fun _ _ => False)
      (Notification.evaluate (settings 0 1) (Scenario.error "a")) {} muted.1
      (.pure (.error (.exception "IndexError" (some "deque index out of range")))) muted.2.2 :=
    Trace.of_follow ..
  have session := Session.new.evaluate run
  refine ⟨_, _, session, rfl, fun alerting => ?_⟩
  have threshold : (settings 0 1).rules[1].window = some (60 * 10 ^ 9, 1) := rfl
  obtain ⟨s, hs, cmd⟩ := (alerting.evaluated [] _ [] rfl (settings 0 1).rules[1] (List.getElem_mem _) _ _ threshold
    le_rfl).2 ⟨by decide, by decide +kernel, by decide +kernel⟩
  have none : muted.1.map counts = [false, false] := by decide +kernel
  have counted : counts s = true := by rw [counts, cmd]
  have mem : counts s ∈ muted.1.map counts := List.mem_map_of_mem hs
  rw [none, counted] at mem
  revert mem
  decide

end NavigatorEventbus.Notification
