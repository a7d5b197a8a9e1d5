import NavigatorEventbus.Lib.Window
import NavigatorEventbus.Subscribers.Digests

/-!
# The throttle of a channel

What a channel sends in a window of the throttle.  An alert is sent only when the window that ends with it has room,
but a digest is sent when its sleep is over, and nobody looks whether its window has room by then: a channel keeps
to its throttle if and only if all its digests find room (`throttled_iff`).  A message counts as sent when it is
recorded in `_channel_sent`, and the alerts of storms are left out.
-/

namespace NavigatorEventbus.Notification

open Interleave

variable {cfg : NotificationSubscriber} {p : ℕ} {c : Cmd} {i : Input} {σ : State}

/-! ## What is sent -/

/-- A message of a channel, which is a digest or an alert of a rule. -/
structure Sending where
  channel : Text
  time : Time
  digest : Bool
  deriving DecidableEq

/-- The message that a created task delivers. -/
def Job.message : Job → Option Message
  | deliver m => some m
  | digest _ _ _ => none

/-- What a command sends: the alert for which it creates a delivery, or the digest that it hands to the sender. -/
def sends (cfg : NotificationSubscriber) (p : ℕ) (c : Cmd) (i : Input) (σ : State) : Option Sending :=
  match c with
  | .fire rule e now windowed =>
    ((σ.fire cfg p rule e now windowed i).2.tasks[σ.tasks.length]?.bind Job.message).map fun m =>
      ⟨m.provider, i.schedule, false⟩
  | .takeOverflow provider recipients =>
    if (σ.takeOverflow cfg p provider recipients i.now).1 then some ⟨provider, i.now, true⟩ else none
  | _ => none

/-- The readings of the clock that a command makes, the last one first. -/
def Cmd.readings (c : Cmd) (i : Input) : List Time :=
  match c with
  | guardStorm _ => [i.schedule, i.now]
  | fire _ _ _ _ => [i.schedule]
  | takeOverflow _ _ => [i.now]
  | _ => []

/-- The readings of the clock and the messages of a run so far, newest first. -/
structure Timeline where
  readings : List Time := []
  sent : List Sending := []
  deriving DecidableEq

/-- A task executes a command. -/
def Timeline.command (cfg : NotificationSubscriber) (g : Timeline) (p : ℕ) (c : Cmd) (i : Input) (σ : State) :
    Timeline where
  readings := c.readings i ++ g.readings
  sent := (sends cfg p c i σ).toList ++ g.sent

/-- The timeline after a decision. -/
def Timeline.after (cfg : NotificationSubscriber) (P : Pool (notifier cfg)) (a : Act (notifier cfg)) (g : Timeline) :
    Timeline :=
  match a with
  | .exec p i =>
    match P.actors p with
    | .calling _ (.op c _) => g.command cfg p c i P.shared
    | _ => g
  | _ => g

/-- The times of the messages of a channel. -/
def times (channel : Text) (sent : List Sending) : List Time :=
  (sent.filter fun s => s.channel = channel).map Sending.time

/-- No window of any channel has more messages than the throttle allows. -/
def Throttled (cfg : NotificationSubscriber) (sent : List Sending) : Prop :=
  ∀ channel, Window.Within cfg.throttleWindow cfg.throttleMax (times channel sent)

/-- After the messages of `sent`, the window that ends with the message has room for it. -/
def Room (cfg : NotificationSubscriber) (s : Sending) (sent : List Sending) : Prop :=
  (Window.since cfg.throttleWindow s.time (times s.channel sent) : ℤ) < cfg.throttleMax

/-- Every digest found room. -/
def DigestsFit (cfg : NotificationSubscriber) (sent : List Sending) : Prop :=
  ∀ s before, s :: before <:+ sent → s.digest = true → Room cfg s before

/-! ## Windows -/

theorem times_cons_self (s : Sending) (sent : List Sending) :
    times s.channel (s :: sent) = s.time :: times s.channel sent := by
  rw [times, List.filter_cons_of_pos (by simp)]
  rfl

theorem times_cons_of_ne {channel : Text} {s : Sending} (h : s.channel ≠ channel) (sent : List Sending) :
    times channel (s :: sent) = times channel sent := by
  rw [times, List.filter_cons_of_neg (by simpa using h)]
  rfl

theorem times_singleton (channel : Text) (time : Time) (digest : Bool) :
    times channel [⟨channel, time, digest⟩] = [time] :=
  times_cons_self ⟨channel, time, digest⟩ []

theorem mem_times {channel : Text} {t : Time} {sent : List Sending} (h : t ∈ times channel sent) :
    ∃ s ∈ sent, s.time = t := by
  obtain ⟨s, hs, rfl⟩ := List.mem_map.1 h
  exact ⟨s, (List.mem_filter.1 hs).1, rfl⟩

/-- One more message keeps to the throttle if and only if it finds room. -/
theorem throttled_cons (pos : 0 < cfg.throttleWindow) {s : Sending} {sent : List Sending}
    (latest : ∀ x ∈ sent, x.time ≤ s.time) :
    Throttled cfg (s :: sent) ↔ Throttled cfg sent ∧ Room cfg s sent := by
  have after : ∀ t ∈ times s.channel sent, t ≤ s.time := by
    intro t ht
    obtain ⟨x, hx, rfl⟩ := mem_times ht
    exact latest x hx
  have own := Window.within_cons (n := cfg.throttleMax) pos after
  constructor
  · intro h
    refine ⟨fun channel => ?_, ?_⟩
    · by_cases same : s.channel = channel
      · subst same
        have within := h s.channel
        rw [times_cons_self] at within
        exact within.of_cons
      · rw [← times_cons_of_ne same]
        exact h channel
    · have within := h s.channel
      rw [times_cons_self] at within
      exact (own.1 within).2
  · rintro ⟨h, room⟩ channel
    by_cases same : s.channel = channel
    · subst same
      rw [times_cons_self]
      exact own.2 ⟨h _, room⟩
    · rw [times_cons_of_ne same]
      exact h channel

/-- When the alerts find room, the channels keep to the throttle if and only if the digests find room too. -/
theorem throttled_iff_digestsFit (pos : 0 < cfg.throttleWindow) {sent : List Sending}
    (sorted : sent.Pairwise fun s x => x.time ≤ s.time)
    (alerts : ∀ s before, s :: before <:+ sent → s.digest = false → Room cfg s before) :
    Throttled cfg sent ↔ 0 ≤ cfg.throttleMax ∧ DigestsFit cfg sent := by
  induction sent with
  | nil =>
    refine ⟨fun h => ⟨(h []).nonneg, fun s before h => absurd (List.suffix_nil.1 h) (List.cons_ne_nil _ _)⟩, ?_⟩
    rintro ⟨nonneg, -⟩ channel start
    exact nonneg
  | cons s sent ih =>
    obtain ⟨latest, rest⟩ := List.pairwise_cons.1 sorted
    have old : ∀ {x before}, x :: before <:+ sent → x :: before <:+ s :: sent :=
      fun h => h.trans (List.suffix_cons s sent)
    rw [throttled_cons pos latest, ih rest fun x before h => alerts x before (old h), and_assoc, and_congr_right_iff]
    intro _
    constructor
    · rintro ⟨fit, room⟩ x before h digest
      rcases List.suffix_cons_iff.1 h with new | h
      · cases new
        exact room
      · exact fit x before h digest
    · intro fit
      refine ⟨fun x before h => fit x before (old h), ?_⟩
      cases digest : s.digest with
      | true => exact fit s sent (List.suffix_refl _) digest
      | false => exact alerts s sent (List.suffix_refl _) digest

/-! ## What a command sends -/

/-- What becomes of an alert that a rule fires, and of the queue of its channel. -/
inductive Passes (cfg : NotificationSubscriber) (rule : AlertRule) (e : Envelope) (now schedule : Time)
    (σ σ' : State) : Prop where
  | suppressed (h : σ.Suppressed cfg rule e now) (channelSent : σ'.channelSent = σ.channelSent)
      (tasks : σ'.tasks = σ.tasks)
  | held (h : ¬ σ.Suppressed cfg rule e now) (full : cfg.throttleMax ≤ (σ.sent cfg rule.provider schedule).length)
      (channelSent : σ'.channelSent =
        Function.update σ.channelSent rule.provider (σ.sent cfg rule.provider schedule))
      (tasks : ∃ jobs, σ'.tasks = σ.tasks ++ jobs ∧ jobs.head?.bind Job.message = none)
  | sent (h : ¬ σ.Suppressed cfg rule e now) (room : (σ.sent cfg rule.provider schedule).length < cfg.throttleMax)
      (channelSent : σ'.channelSent =
        Function.update σ.channelSent rule.provider (σ.sent cfg rule.provider schedule ++ [schedule]))
      (tasks : ∃ m : Message, m.provider = rule.provider ∧ σ'.tasks = σ.tasks ++ [.deliver m])

theorem passes_fire (cfg : NotificationSubscriber) (p : ℕ) (rule : AlertRule) (e : Envelope) (now : Time)
    (windowed : Bool) (i : Input) (σ : State) :
    Passes cfg rule e now i.schedule σ (σ.fire cfg p rule e now windowed i).2 := by
  by_cases suppressed : σ.Suppressed cfg rule e now
  · rw [State.fire, if_pos suppressed]
    exact .suppressed suppressed rfl rfl
  · rw [State.fire, if_neg suppressed]
    unfold State.scheduleDelivery
    dsimp only
    split_ifs with full
    · unfold State.throttle
      split
      · exact .held suppressed full.2 rfl ⟨[], (List.append_nil _).symm, rfl⟩
      · exact .held suppressed full.2 rfl ⟨[], (List.append_nil _).symm, rfl⟩
      · exact .held suppressed full.2 rfl ⟨_, rfl, rfl⟩
    · rw [not_and, not_le] at full
      exact .sent suppressed (full rfl) (Function.update_idem ..) ⟨_, rfl, rfl⟩

/-- An alert is sent if it is not suppressed and its channel has room. -/
theorem sends_fire (rule : AlertRule) (e : Envelope) (now : Time) (windowed : Bool) :
    sends cfg p (.fire rule e now windowed) i σ =
      if σ.Suppressed cfg rule e now ∨ cfg.throttleMax ≤ (σ.sent cfg rule.provider i.schedule).length then none
      else some ⟨rule.provider, i.schedule, false⟩ := by
  cases passes_fire cfg p rule e now windowed i σ with
  | suppressed h _ tasks =>
    have nothing : σ.tasks[σ.tasks.length]? = none := List.getElem?_eq_none le_rfl
    rw [if_pos (.inl h), sends, tasks, nothing]
    rfl
  | held h full _ tasks =>
    obtain ⟨jobs, tasks, first⟩ := tasks
    have next : (σ.tasks ++ jobs)[σ.tasks.length]? = jobs.head? := by
      rw [List.getElem?_append_right le_rfl, Nat.sub_self, List.head?_eq_getElem?]
    rw [if_pos (.inr full), sends, tasks, next, first]
    rfl
  | sent h room _ tasks =>
    obtain ⟨m, provider, tasks⟩ := tasks
    have next : (σ.tasks ++ [Job.deliver m])[σ.tasks.length]? = some (.deliver m) := by
      rw [List.getElem?_append_right le_rfl, Nat.sub_self]
      rfl
    rw [if_neg (not_or.2 ⟨h, not_le.2 room⟩), sends, tasks, next, ← provider]
    rfl

/-- A digest is sent if there is an overflow. -/
theorem sends_takeOverflow (provider : Text) (recipients : Recipients) :
    sends cfg p (.takeOverflow provider recipients) i σ =
      if σ.channelOverflow provider = [] then none else some ⟨provider, i.now, true⟩ := by
  by_cases empty : σ.channelOverflow provider = [] <;> simp [sends, State.takeOverflow, empty]

/-- A message is sent at a time that its command reads. -/
theorem time_mem_readings {s : Sending} (h : s ∈ sends cfg p c i σ) : s.time ∈ c.readings i := by
  cases c with
  | fire rule e now windowed =>
    rw [sends_fire] at h
    split_ifs at h
    · cases h
    · obtain rfl := Option.mem_some_iff.1 h
      exact List.mem_singleton_self _
  | takeOverflow provider recipients =>
    rw [sends_takeOverflow] at h
    split_ifs at h
    · cases h
    · obtain rfl := Option.mem_some_iff.1 h
      exact List.mem_singleton_self _
  | _ => cases h

/-- How many of the times of a queue are not before `k`. -/
def recent (k : Time) (queue : List Time) : ℕ := queue.countP fun t => k ≤ t

theorem recent_append (k : Time) (queue new : List Time) :
    recent k (queue ++ new) = recent k queue + recent k new :=
  List.countP_append

theorem recent_le_length (k : Time) (queue : List Time) : recent k queue ≤ queue.length := List.countP_le_length

theorem recent_sent {channel : Text} {now k : Time} (h : now - cfg.throttleWindow ≤ k) :
    recent k (σ.sent cfg channel now) = recent k (σ.channelSent channel) :=
  Window.countP_dropWhile h

/-- The alert of a storm only adds to the queue of its channel. -/
theorem channelSent_guardStorm (cfg : NotificationSubscriber) (p : ℕ) (e : Envelope) (i : Input) (σ : State) :
    (σ.guardStorm cfg p e i).2.channelSent = σ.channelSent ∨
      ∃ provider, (σ.guardStorm cfg p e i).2.channelSent =
        Function.update σ.channelSent provider (σ.sent cfg provider i.schedule ++ [i.schedule]) := by
  rw [State.guardStorm]
  dsimp only
  generalize prune (if Severity.error.value ≤ e.severity.value then _ else _) _ _ = times
  split_ifs
  · exact .inl rfl
  · exact .inl rfl
  · exact .inr ⟨_, Function.update_idem ..⟩
  · exact .inl rfl

/-- What a queue gets when the messages of its channel are added. -/
theorem le_recent_update {queues : Text → List Time} {provider channel : Text} {queue : List Time} {k : Time}
    {sent : List Sending} (own : recent k (times provider sent) + recent k (queues provider) ≤ recent k queue)
    (others : ∀ s ∈ sent, s.channel = provider) :
    recent k (times channel sent) + recent k (queues channel) ≤
      recent k (Function.update queues provider queue channel) := by
  by_cases same : channel = provider
  · rw [same, Function.update_self]
    exact own
  · have none : times channel sent = [] := by
      rw [times, List.map_eq_nil_iff, List.filter_eq_nil_iff]
      intro s hs eq
      exact same ((of_decide_eq_true eq).symm.trans (others s hs))
    rw [Function.update_of_ne same, none]
    exact (Nat.zero_add _).le

/-- The queue of a channel loses only times that are too old for its throttle, and gets the times of all
messages of the channel. -/
theorem recent_exec (p : ℕ) (σ : State) (channel : Text) {k : Time} (old : ∀ r ∈ c.readings i, r - cfg.throttleWindow ≤ k) :
    recent k (times channel (sends cfg p c i σ).toList) + recent k (σ.channelSent channel) ≤
      recent k ((σ.exec cfg p c i).2.channelSent channel) := by
  cases c with
  | guardStorm e =>
    have fresh : i.schedule - cfg.throttleWindow ≤ k := old _ (List.mem_cons_self ..)
    rw [State.exec]
    rcases channelSent_guardStorm cfg p e i σ with channelSent | ⟨provider, channelSent⟩
    · rw [channelSent]
      exact (Nat.zero_add _).le
    · rw [channelSent]
      refine le_recent_update ?_ fun s hs => absurd hs List.not_mem_nil
      rw [recent_append, recent_sent fresh]
      exact (Nat.zero_add _).le.trans (Nat.le_add_right _ _)
  | fire rule e now windowed =>
    have fresh : i.schedule - cfg.throttleWindow ≤ k := old _ (List.mem_singleton_self _)
    rw [sends_fire]
    cases passes_fire cfg p rule e now windowed i σ with
    | suppressed h channelSent _ =>
      rw [if_pos (.inl h), State.exec, channelSent]
      exact (Nat.zero_add _).le
    | held h full channelSent _ =>
      rw [if_pos (.inr full), State.exec, channelSent]
      refine le_recent_update ?_ fun s hs => absurd hs List.not_mem_nil
      rw [recent_sent fresh]
      exact (Nat.zero_add _).le
    | sent h room channelSent _ =>
      rw [if_neg (not_or.2 ⟨h, not_le.2 room⟩), State.exec, channelSent]
      refine le_recent_update ?_ fun s hs => ?_
      · rw [Option.toList_some, times_singleton, recent_append, recent_sent fresh]
        exact (Nat.add_comm _ _).le
      · rw [List.mem_singleton.1 hs]
  | takeOverflow provider recipients =>
    simp only [sends_takeOverflow, State.exec, State.takeOverflow]
    split_ifs
    · exact (Nat.zero_add _).le
    · refine le_recent_update ?_ fun s hs => ?_
      · rw [Option.toList_some, times_singleton, recent_append]
        exact (Nat.add_comm _ _).le
      · rw [List.mem_singleton.1 hs]
  | count rule now window threshold =>
    simp only [State.exec, State.count]
    split_ifs <;> exact (Nat.zero_add _).le
  | start =>
    simp only [State.exec, State.start]
    split <;> exact (Nat.zero_add _).le
  | sent | sleep | digestEnded => exact (Nat.zero_add _).le

/-- An alert is sent only when its window has room. -/
theorem room_of_sends {s : Sending} (h : s ∈ sends cfg p c i σ) (digest : s.digest = false) :
    (recent (s.time - cfg.throttleWindow) (σ.channelSent s.channel) : ℤ) < cfg.throttleMax := by
  cases c with
  | fire rule e now windowed =>
    rw [sends_fire] at h
    split_ifs at h with refused
    · cases h
    · obtain rfl := Option.mem_some_iff.1 h
      have few : recent (i.schedule - cfg.throttleWindow) (σ.channelSent rule.provider) ≤
          (σ.sent cfg rule.provider i.schedule).length := by
        rw [← recent_sent le_rfl]
        exact recent_le_length _ _
      have room := not_le.1 (not_or.1 refused).2
      dsimp only
      omega
  | takeOverflow provider recipients =>
    rw [sends_takeOverflow] at h
    split_ifs at h
    · cases h
    · obtain rfl := Option.mem_some_iff.1 h
      cases digest
  | _ => cases h

/-! ## Runs -/

/-- The queues have all messages that are recent enough to matter, and the alerts among the messages found room. -/
structure Fits (cfg : NotificationSubscriber) (g : Timeline) (σ : State) : Prop where
  read : ∀ s ∈ g.sent, s.time ∈ g.readings
  sorted : g.sent.Pairwise fun s x => x.time ≤ s.time
  queues : ∀ channel k, (∀ r ∈ g.readings, r - cfg.throttleWindow ≤ k) →
    recent k (times channel g.sent) ≤ recent k (σ.channelSent channel)
  alerts : ∀ s before, s :: before <:+ g.sent → s.digest = false → Room cfg s before

/-- Every command keeps it, as long as the clock does not go back. -/
theorem Fits.command {g : Timeline} (h : Fits cfg g σ)
    (clock : (c.readings i ++ g.readings).Pairwise fun r r' => r' ≤ r) :
    Fits cfg (g.command cfg p c i σ) (σ.exec cfg p c i).2 := by
  have later : ∀ r ∈ c.readings i, ∀ r' ∈ g.readings, r' ≤ r := (List.pairwise_append.1 clock).2.2
  have queues : ∀ channel k, (∀ r ∈ c.readings i ++ g.readings, r - cfg.throttleWindow ≤ k) →
      recent k (times channel (g.command cfg p c i σ).sent) ≤
        recent k ((σ.exec cfg p c i).2.channelSent channel) := by
    intro channel k old
    have before := h.queues channel k fun r hr => old r (List.mem_append_right _ hr)
    have step := recent_exec p σ channel fun r hr => old r (List.mem_append_left _ hr)
    have split : recent k (times channel (g.command cfg p c i σ).sent) =
        recent k (times channel (sends cfg p c i σ).toList) + recent k (times channel g.sent) := by
      rw [Timeline.command, times, List.filter_append, List.map_append, recent_append]
      rfl
    omega
  cases sent : sends cfg p c i σ with
  | none =>
    have same : (g.command cfg p c i σ).sent = g.sent := by rw [Timeline.command, sent]; rfl
    refine ⟨fun s hs => ?_, ?_, queues, ?_⟩
    · rw [same] at hs
      exact List.mem_append_right _ (h.read s hs)
    · rw [same]
      exact h.sorted
    · rw [same]
      exact h.alerts
  | some s =>
    have new : (g.command cfg p c i σ).sent = s :: g.sent := by rw [Timeline.command, sent]; rfl
    have time := time_mem_readings sent
    have latest : ∀ x ∈ g.sent, x.time ≤ s.time := fun x hx => later _ time _ (h.read x hx)
    refine ⟨fun x hx => ?_, ?_, queues, fun x before hx digest => ?_⟩
    · rw [new] at hx
      rcases List.mem_cons.1 hx with rfl | hx
      · exact List.mem_append_left _ time
      · exact List.mem_append_right _ (h.read x hx)
    · rw [new]
      exact List.pairwise_cons.2 ⟨latest, h.sorted⟩
    · rw [new] at hx
      rcases List.suffix_cons_iff.1 hx with eq | hx
      · cases eq
        have few : Window.since cfg.throttleWindow s.time (times s.channel g.sent) ≤
            recent (s.time - cfg.throttleWindow) (times s.channel g.sent) := by
          refine List.countP_mono_left fun t _ ht => ?_
          rw [decide_eq_true_eq] at ht ⊢
          exact ht.le
        have all := h.queues s.channel (s.time - cfg.throttleWindow) fun r hr =>
          sub_le_sub_right (later _ time _ hr) _
        have room := room_of_sends sent digest
        rw [Room]
        omega
      · exact h.alerts x before hx digest

theorem fits_reached {A : Pool (notifier cfg) → Act (notifier cfg) → Prop} {P : Pool (notifier cfg)} {g : Timeline}
    (hr : Pool.Recorded A (Timeline.after cfg) cfg.new {} P g) (clock : g.readings.Pairwise fun r r' => r' ≤ r) :
    Fits cfg g P.shared := by
  induction hr with
  | refl => exact ⟨fun s hs => absurd hs List.not_mem_nil, .nil, fun _ _ _ => Nat.zero_le _,
      fun s before h => absurd (List.suffix_nil.1 h) (List.cons_ne_nil _ _)⟩
  | @step Q Q' g a _ _ hs ih =>
    cases Pool.acted hs with
    | call => exact ih clock
    | @exec p i o c k hp =>
      simp only [Timeline.after, hp] at clock ⊢
      exact (ih (List.pairwise_append.1 clock).2.1).command clock
    | ret => exact ih clock
    | crash => exact ih clock
    | @disturb d => exact d.elim

/-- In every run whose clock does not go back, the channels keep to the throttle if and only if every digest that
was sent found room in the window that ends with it. -/
theorem throttled_iff (cfg : NotificationSubscriber) {A : Pool (notifier cfg) → Act (notifier cfg) → Prop}
    {P : Pool (notifier cfg)} {g : Timeline} (hr : Pool.Recorded A (Timeline.after cfg) cfg.new {} P g)
    (clock : g.readings.Pairwise fun r r' => r' ≤ r) :
    Throttled cfg g.sent ↔ 0 ≤ cfg.throttleMax ∧ (0 < cfg.throttleWindow → DigestsFit cfg g.sent) := by
  have fits := fits_reached hr clock
  by_cases pos : 0 < cfg.throttleWindow
  · rw [throttled_iff_digestsFit pos fits.sorted fits.alerts]
    exact and_congr_right fun _ => ⟨fun h _ => h, fun h => h pos⟩
  · have all : Throttled cfg g.sent ↔ 0 ≤ cfg.throttleMax :=
      ⟨fun h => (h []).nonneg, fun nonneg _ => (Window.within_of_nonpos (not_lt.1 pos)).2 nonneg⟩
    rw [all]
    exact ⟨fun nonneg => ⟨nonneg, fun h => absurd h pos⟩, And.left⟩

namespace Late

/-- A channel takes one message per minute, from three rules. -/
def minutely : NotificationSubscriber :=
  Scenario.settings [Scenario.rule 'a' "x", Scenario.rule 'b' "x", Scenario.rule 'c' "x"]

/-- A task handles an envelope at a time in milliseconds. -/
def arrives (topic : String) (ms : ℤ) : List (Act (notifier minutely)) :=
  [.call 0 (.onEnvelope (Scenario.error topic)), .exec 0 { now := ms * 10 ^ 6, schedule := ms * 10 ^ 6 },
    .exec 0 { now := ms * 10 ^ 6, schedule := ms * 10 ^ 6 }, .ret 0]

/-- The task of the digest falls asleep. -/
def sleeps : List (Act (notifier minutely)) := [.call 1 .task, .exec 1 { job := 1 }]

/-- It wakes up at a time in milliseconds. -/
def wakes (ms : ℤ) : List (Act (notifier minutely)) := [.exec 1 {}, .exec 1 { now := ms * 10 ^ 6 }]

end Late

open Late in
/-- An alert is held back just before the window of the first one ends, and its digest is sent 10 ms later. -/
theorem throttled_digest :
    ∃ P g, Pool.Recorded (fun Q a => Pool.Meets (fun _ _ _ _ _ => True) Q a ∧ a.Uncrashed) (Timeline.after minutely)
        minutely.new {} P g ∧
      g.readings.Pairwise (fun r r' => r' ≤ r) ∧ times "email".toList g.sent = [60005 * 10 ^ 6, 0] ∧
      (Throttled minutely g.sent ↔ 0 ≤ minutely.throttleMax ∧ (0 < minutely.throttleWindow → DigestsFit minutely g.sent)) := by
  have ran : ∃ r ∈ minutely.new.recordIf (fun _ _ _ _ _ => True) (Timeline.after minutely) {}
      (arrives "a" 0 ++ arrives "b" 59995 ++ sleeps ++ wakes 60005),
      r.2.readings.Pairwise (fun r r' => r' ≤ r) ∧ times "email".toList r.2.sent = [60005 * 10 ^ 6, 0] := by
    decide +kernel
  obtain ⟨⟨P, g⟩, run, clock, sent⟩ := ran
  have recorded : Pool.Recorded (fun Q a => Pool.Meets (fun _ _ _ _ _ => True) Q a ∧ a.Uncrashed)
      (Timeline.after minutely) minutely.new {} P g :=
    .of_recordIf (by decide) run
  exact ⟨P, g, recorded, clock, sent, throttled_iff minutely recorded clock⟩

open Late in
/-- An alert comes between the end of the window and the end of the sleep, and is sent at once: then the channel
has sent two messages within 3 ms. -/
theorem digest_crowds :
    ∃ P g, Pool.Recorded (fun Q a => Pool.Meets (fun _ _ _ _ _ => True) Q a ∧ a.Uncrashed) (Timeline.after minutely)
        minutely.new {} P g ∧
      g.readings.Pairwise (fun r r' => r' ≤ r) ∧
      times "email".toList g.sent = [60005 * 10 ^ 6, 60002 * 10 ^ 6, 0] ∧ ¬ Throttled minutely g.sent := by
  have ran : ∃ r ∈ minutely.new.recordIf (fun _ _ _ _ _ => True) (Timeline.after minutely) {}
      (arrives "a" 0 ++ arrives "b" 59995 ++ sleeps ++ arrives "c" 60002 ++ wakes 60005),
      r.2.readings.Pairwise (fun r r' => r' ≤ r) ∧
      times "email".toList r.2.sent = [60005 * 10 ^ 6, 60002 * 10 ^ 6, 0] := by
    decide +kernel
  obtain ⟨⟨P, g⟩, run, clock, sent⟩ := ran
  refine ⟨P, g, .of_recordIf (by decide) run, clock, sent, fun throttled => ?_⟩
  have two := throttled "email".toList (60002 * 10 ^ 6)
  rw [sent] at two
  revert two
  decide

end NavigatorEventbus.Notification
