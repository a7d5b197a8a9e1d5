import NavigatorEventbus.Lib.RelyGuarantee
import NavigatorEventbus.Subscribers.Notification

/-!
# The alerts of a subscriber

Where the alerts of a subscriber are: in a message that was handed to the sender, in a delivery that has not
started, or in the overflow of their channel, whose digest has not taken it yet.  A digest goes to the
recipients of the alert that it was created for, and while it is being sent it still counts as scheduled; in
runs where no alert runs into this each one gets to the recipients of its rule (`alerts_reported`).
-/

namespace NavigatorEventbus.Notification

open Interleave

open Bus (Exc Outcome)

variable {cfg : NotificationSubscriber} {p q : ℕ} {o : Call} {c : Cmd} {i : Input} {σ σ' : State}
  {a : Alert} {provider : Text}

/-! ## What a command does -/

/-- A message has the text of an alert, and goes where the alert has to go. -/
structure Message.Carries (m : Message) (a : Alert) : Prop where
  provider : m.provider = a.provider
  recipients : m.recipients = a.recipients
  text : a.message <:+: m.message

/-- Nothing happened to alerts and digests. -/
structure Same (σ σ' : State) : Prop where
  digestTasks : σ'.digestTasks = σ.digestTasks
  channelOverflow : σ'.channelOverflow = σ.channelOverflow
  tasks : σ'.tasks = σ.tasks
  log : σ'.log = σ.log

/-- The throttle of its channel holds an alert of a rule back. -/
def Held (cfg : NotificationSubscriber) (c : Cmd) (i : Input) (a : Alert) (σ : State) : Prop :=
  match c with
  | .fire rule e now _ =>
    ¬ σ.Suppressed cfg rule e now ∧ a.provider = rule.provider ∧ a.recipients = rule.recipients ∧
      cfg.throttleMax ≤ (σ.sent cfg rule.provider i.schedule).length
  | _ => False

/-- The overflow of every channel, with one more alert. -/
def folded (σ : State) (a : Alert) : Text → List Alert :=
  Function.update σ.channelOverflow a.provider (σ.channelOverflow a.provider ++ [a])

/-- What becomes of an alert: it is delivered, joins the overflow, of which it may be the first, or is left
there without a digest. -/
inductive Schedules (cfg : NotificationSubscriber) (p : ℕ) (c : Cmd) (i : Input) (a : Alert) (σ σ' : State) :
    Prop where
  | delivers (m : Message) (alerts : m.alerts = [a]) (carries : m.Carries a)
      (digestTasks : σ'.digestTasks = σ.digestTasks) (channelOverflow : σ'.channelOverflow = σ.channelOverflow)
      (tasks : σ'.tasks = σ.tasks ++ [.deliver m])
  | folds (held : Held cfg c i a σ) (d : Digest) (digest : σ.digestTasks a.provider = some d)
      (digestTasks : σ'.digestTasks = σ.digestTasks)
      (channelOverflow : σ'.channelOverflow = folded σ a) (tasks : σ'.tasks = σ.tasks)
  | creates (delay : Time) (free : σ.digestTasks a.provider = none)
      (digestTasks : σ'.digestTasks =
        Function.update σ.digestTasks a.provider (some ⟨a.recipients, delay, .created⟩))
      (channelOverflow : σ'.channelOverflow = folded σ a)
      (tasks : σ'.tasks = σ.tasks ++ [.digest a.provider a.recipients delay])
  | strands (held : Held cfg c i a σ) (empty : σ.sent cfg a.provider i.schedule = [])
      (free : σ.digestTasks a.provider = none) (digestTasks : σ'.digestTasks = σ.digestTasks)
      (channelOverflow : σ'.channelOverflow = folded σ a) (tasks : σ'.tasks = σ.tasks)

/-- An alert is fired, for the recipients of its rule. -/
structure Fires (cfg : NotificationSubscriber) (p : ℕ) (c : Cmd) (i : Input) (a : Alert) (σ σ' : State) :
    Prop where
  own : ∀ rule ∈ a.rule, a.provider = rule.provider ∧ a.recipients = rule.recipients
  log : σ'.log = (p, .fired a) :: σ.log
  schedules : Schedules cfg p c i a σ σ'

/-- The commands of an envelope. -/
def Cmd.Evaluates : Cmd → Prop
  | guardStorm _ | count _ _ _ _ | fire _ _ _ _ => True
  | _ => False

/-- A command of an envelope fires one alert or none. -/
theorem evaluates_exec (hc : c.Evaluates) (p : ℕ) (i : Input) (σ : State) :
    Same σ (σ.exec cfg p c i).2 ∨ ∃ a, Fires cfg p c i a σ (σ.exec cfg p c i).2 := by
  cases c with
  | guardStorm e =>
    simp only [State.exec, State.guardStorm]
    generalize prune (if Severity.error.value ≤ e.severity.value then _ else _) _ _ = times
    split_ifs
    · exact .inl ⟨rfl, rfl, rfl, rfl⟩
    · exact .inl ⟨rfl, rfl, rfl, rfl⟩
    · refine .inr ⟨_, fun rule h => ?_, rfl, .delivers _ rfl ⟨rfl, rfl, List.infix_rfl⟩ rfl rfl rfl⟩
      cases h
    · exact .inl ⟨rfl, rfl, rfl, rfl⟩
  | count rule now window threshold =>
    simp only [State.exec, State.count]
    split_ifs <;> exact .inl ⟨rfl, rfl, rfl, rfl⟩
  | fire rule e now windowed =>
    simp only [State.exec, State.fire]
    split_ifs with suppressed
    · exact .inl ⟨rfl, rfl, rfl, rfl⟩
    · refine .inr ⟨σ.alert rule rule.provider rule.recipients
        (State.headline rule e windowed ++ σ.repeatNote cfg rule e), ?_⟩
      have own : ∀ rule' ∈ some rule, rule.provider = rule'.provider ∧ rule.recipients = rule'.recipients := by
        rintro _ ⟨rfl⟩
        exact ⟨rfl, rfl⟩
      unfold State.scheduleDelivery
      dsimp only
      split_ifs with throttled
      · have held : ∀ message, Held cfg (.fire rule e now windowed) i
            (σ.alert rule rule.provider rule.recipients message) σ :=
          fun _ => ⟨suppressed, rfl, rfl, throttled.2⟩
        unfold State.throttle
        split
        · rename_i d digest
          exact ⟨own, rfl, .folds (held _) d digest rfl rfl rfl⟩
        · rename_i free empty
          exact ⟨own, rfl, .strands (held _) empty free rfl rfl rfl⟩
        · rename_i free first
          exact ⟨own, rfl, .creates _ free rfl rfl rfl⟩
      · exact ⟨own, rfl, .delivers _ rfl ⟨rfl, rfl, List.infix_rfl⟩ rfl rfl rfl⟩
  | start | sent | sleep | takeOverflow | digestEnded => exact hc.elim

/-! ## The tasks of the digests -/

/-- A digest that has not taken the overflow of its channel. -/
def Stage.pending : Stage → Bool
  | created | asleep _ => true
  | taken _ => false

/-- The task that executes a digest. -/
def Stage.task : Stage → Option ℕ
  | created => none
  | asleep p | taken p => some p

/-- The channel whose digest a created task is. -/
def Job.channel : Job → Option Text
  | deliver _ => none
  | digest provider _ _ => some provider

/-- The digests that have not started are the created tasks, one for a channel. -/
structure Registry (digests : Text → Option Digest) (tasks : List Job) : Prop where
  digest : ∀ {provider recipients delay}, .digest provider recipients delay ∈ tasks →
    digests provider = some ⟨recipients, delay, .created⟩
  once : (tasks.filterMap Job.channel).Nodup
  created : ∀ {provider d}, digests provider = some d → d.stage = .created →
    .digest provider d.recipients d.delay ∈ tasks

/-- The registry of a state. -/
abbrev Registered (σ : State) : Prop := Registry σ.digestTasks σ.tasks

namespace Registry

variable {digests : Text → Option Digest} {tasks tasks' : List Job} {recipients : Recipients} {delay : Time}
  {m : Message} {d : Digest} {new : Option Digest}

theorem perm (h : Registry digests tasks) (ht : tasks.Perm tasks') : Registry digests tasks' where
  digest hd := h.digest (ht.mem_iff.2 hd)
  once := (ht.filterMap _).nodup_iff.1 h.once
  created hd stage := ht.mem_iff.1 (h.created hd stage)

theorem deliver_cons : Registry digests (.deliver m :: tasks) ↔ Registry digests tasks := by
  constructor
  · refine fun h => ⟨fun hd => h.digest (List.mem_cons_of_mem _ hd), h.once, fun hd stage => ?_⟩
    simpa using h.created hd stage
  · refine fun h => ⟨fun hd => h.digest (by simpa using hd), h.once, fun hd stage => ?_⟩
    exact List.mem_cons_of_mem _ (h.created hd stage)

/-- A task of a channel without a digest is created. -/
theorem create (h : Registry digests tasks) (free : digests provider = none) :
    Registry (Function.update digests provider (some ⟨recipients, delay, .created⟩))
      (.digest provider recipients delay :: tasks) := by
  have ne : ∀ {provider' recipients delay}, .digest provider' recipients delay ∈ tasks → provider' ≠ provider := by
    rintro provider' recipients delay hd rfl
    rw [h.digest hd] at free
    cases free
  refine ⟨fun {provider'} {_ _} hd => ?_, ?_, fun {provider' d} hd stage => ?_⟩
  · rcases List.mem_cons.1 hd with hd | hd
    · cases hd
      exact Function.update_self ..
    · rw [Function.update_of_ne (ne hd)]
      exact h.digest hd
  · refine List.nodup_cons.2 ⟨fun hmem => ?_, h.once⟩
    obtain ⟨job, hjob, channel⟩ := List.mem_filterMap.1 hmem
    cases job with
    | deliver m => cases channel
    | digest provider' recipients' delay' =>
      cases channel
      exact ne hjob rfl
  · by_cases same : provider' = provider
    · subst same
      rw [Function.update_self] at hd
      cases hd
      exact List.mem_cons_self ..
    · rw [Function.update_of_ne same] at hd
      exact List.mem_cons_of_mem _ (h.created hd stage)

/-- A digest gets to a later stage or ends, and no created task stands for it any more. -/
theorem update (h : Registry digests tasks) (sub : tasks'.Sublist tasks)
    (rest : ∀ job ∈ tasks, job.channel ≠ some provider → job ∈ tasks')
    (started : ∀ recipients delay, .digest provider recipients delay ∉ tasks')
    (later : ∀ d ∈ new, d.stage ≠ .created) : Registry (Function.update digests provider new) tasks' := by
  refine ⟨fun {provider'} {recipients delay} hd => ?_, (sub.filterMap _).nodup h.once,
    fun {provider' d} hd stage => ?_⟩
  · have ne : provider' ≠ provider := by
      rintro rfl
      exact started _ _ hd
    rw [Function.update_of_ne ne]
    exact h.digest (sub.mem hd)
  · by_cases same : provider' = provider
    · subst same
      rw [Function.update_self] at hd
      exact absurd stage (later d hd)
    · rw [Function.update_of_ne same] at hd
      exact rest _ (h.created hd stage) fun channel => same (Option.some.inj channel)

/-- A digest that has started gets to a later stage or ends. -/
theorem advance (h : Registry digests tasks) (hd : digests provider = some d) (stage : d.stage ≠ .created)
    (later : ∀ d ∈ new, d.stage ≠ .created) : Registry (Function.update digests provider new) tasks := by
  refine h.update (.refl tasks) (fun job hjob _ => hjob) (fun recipients delay hmem => ?_) later
  rw [h.digest hmem] at hd
  cases hd
  exact stage rfl

/-- The first task is the only one of its channel, and it is executed. -/
theorem start (h : Registry digests (.digest provider recipients delay :: tasks))
    (later : ∀ d ∈ new, d.stage ≠ .created) : Registry (Function.update digests provider new) tasks := by
  refine h.update (List.sublist_cons_self _ _) (fun job hjob channel => ?_) (fun recipients' delay' hmem => ?_) later
  · rcases List.mem_cons.1 hjob with rfl | hjob
    · exact absurd rfl channel
    · exact hjob
  · exact (List.nodup_cons.1 h.once).1 (List.mem_filterMap.2 ⟨_, hmem, rfl⟩)

end Registry

theorem Registry.schedules (h : Registered σ) (hs : Schedules cfg p c i a σ σ') : Registered σ' := by
  unfold Registered
  cases hs with
  | delivers m alerts carries digestTasks channelOverflow tasks =>
    rw [digestTasks, tasks]
    exact (Registry.deliver_cons.2 h).perm (List.perm_append_singleton _ _).symm
  | folds held d digest digestTasks channelOverflow tasks =>
    rw [digestTasks, tasks]
    exact h
  | creates delay free digestTasks channelOverflow tasks =>
    rw [digestTasks, tasks]
    exact (h.create free).perm (List.perm_append_singleton _ _).symm
  | strands held empty free digestTasks channelOverflow tasks =>
    rw [digestTasks, tasks]
    exact h

/-- The task `p` executes this digest of a channel, or none. -/
def Executes (p : ℕ) (f : Option (Text × Digest)) (σ : State) : Prop :=
  ∀ provider d, σ.digestTasks provider = some d ∧ d.stage.task = some p ↔ f = some (provider, d)

/-- The digest that a task executes. -/
theorem Executes.mem {d : Digest} (h : Executes p (some (provider, d)) σ) :
    σ.digestTasks provider = some d ∧ d.stage.task = some p :=
  (h provider d).2 rfl

theorem Executes.of_eq {f : Option (Text × Digest)} (h : Executes p f σ)
    (same : σ'.digestTasks = σ.digestTasks) : Executes p f σ' := by
  intro provider d
  rw [same]
  exact h provider d

/-- A digest of a channel that the task does not execute changes. -/
theorem Executes.update {f : Option (Text × Digest)} {new : Option Digest} (h : Executes p f σ)
    (old : ∀ d ∈ σ.digestTasks provider, d.stage.task ≠ some p) (other : ∀ d ∈ new, d.stage.task ≠ some p)
    (hσ : σ'.digestTasks = Function.update σ.digestTasks provider new) : Executes p f σ' := by
  intro provider' d
  rw [← h provider' d, hσ]
  by_cases same : provider' = provider
  · subst same
    rw [Function.update_self]
    exact ⟨fun hd => absurd hd.2 (other d hd.1), fun hd => absurd hd.2 (old d hd.1)⟩
  · rw [Function.update_of_ne same]

/-- A digest of a channel is now executed by the task, or no more. -/
theorem Executes.set {f : Option (Text × Digest)} {new : Option Digest} (h : Executes p f σ)
    (only : ∀ provider' d, f = some (provider', d) → provider' = provider)
    (own : ∀ d ∈ new, d.stage.task = some p)
    (hσ : σ'.digestTasks = Function.update σ.digestTasks provider new) :
    Executes p (new.map fun d => (provider, d)) σ' := by
  intro provider' d
  rw [hσ]
  by_cases same : provider' = provider
  · subst same
    rw [Function.update_self]
    simpa using own d
  · rw [Function.update_of_ne same, h provider' d]
    constructor
    · exact fun hf => absurd (only _ _ hf) same
    · intro hd
      obtain ⟨x, -, heq⟩ := Option.map_eq_some_iff.1 hd
      cases heq
      exact absurd rfl same

theorem Fires.executes {f : Option (Text × Digest)} (hf : Fires cfg q c i a σ σ') (h : Executes p f σ) :
    Executes p f σ' := by
  cases hf.schedules with
  | creates delay free digestTasks channelOverflow tasks =>
    refine h.update (fun d hd => ?_) (fun d hd => ?_) digestTasks
    · rw [free] at hd
      cases hd
    · cases hd
      nofun
  | delivers _ _ _ digestTasks | folds _ _ _ digestTasks | strands _ _ _ digestTasks => exact h.of_eq digestTasks

/-- What a command of an envelope leaves as it is. -/
theorem executes_evaluates {f : Option (Text × Digest)} (hc : c.Evaluates) (h : Executes p f σ) (q : ℕ) (i : Input) :
    Executes p f (σ.exec cfg q c i).2 := by
  rcases @evaluates_exec cfg _ hc q i σ with same | ⟨a, fires⟩
  · exact h.of_eq same.digestTasks
  · exact fires.executes h

theorem takeOverflow_digestTasks (σ : State) (recipients : Recipients) (now : Time) :
    (σ.takeOverflow cfg p provider recipients now).2.digestTasks = (σ.setStage provider (.taken p)).digestTasks := by
  unfold State.takeOverflow
  dsimp only
  split_ifs <;> rfl

theorem takeOverflow_tasks (σ : State) (recipients : Recipients) (now : Time) :
    (σ.takeOverflow cfg p provider recipients now).2.tasks = σ.tasks := by
  unfold State.takeOverflow
  dsimp only
  split_ifs <;> rfl

/-- The message of a digest has the text of each of its alerts. -/
theorem infix_digestMessage {overflow : List Alert} (ha : a ∈ overflow) :
    a.message <:+: State.digestMessage cfg provider overflow := by
  have mem : a.message ∈ (overflow.map Alert.message).intersperse "\n- ".toList := by
    obtain ⟨n, hn⟩ := List.mem_iff_getElem?.1 (List.mem_map_of_mem (f := Alert.message) ha)
    exact List.mem_iff_getElem?.2 ⟨2 * n, by rw [List.getElem?_intersperse_two_mul, hn]⟩
  obtain ⟨s, t, heq⟩ := List.append_of_mem mem
  have joined : a.message <:+: List.intercalate "\n- ".toList (overflow.map Alert.message) :=
    ⟨s.flatten, t.flatten, by rw [List.intercalate, heq]; simp⟩
  exact joined.trans (List.suffix_append _ _).isInfix

/-- What becomes of the created tasks when one starts. -/
inductive Starts (p n : ℕ) (σ : State) : Option Job × State → Prop where
  | nothing : Starts p n σ (none, σ)
  | delivers (m : Message) (tasks : σ.tasks.Perm (.deliver m :: σ.tasks.eraseIdx n)) :
    Starts p n σ (some (.deliver m), { σ with tasks := σ.tasks.eraseIdx n }.hand p m)
  | digests (provider : Text) (recipients : Recipients) (delay : Time)
      (tasks : σ.tasks.Perm (.digest provider recipients delay :: σ.tasks.eraseIdx n)) :
    Starts p n σ (some (.digest provider recipients delay),
      { σ with tasks := σ.tasks.eraseIdx n }.setStage provider (.asleep p))

theorem start_spec (p n : ℕ) (σ : State) : Starts p n σ (σ.start p n) := by
  unfold State.start
  split
  · exact .nothing
  · rename_i m h
    obtain ⟨hn, hm⟩ := List.getElem?_eq_some_iff.1 h
    exact .delivers m (hm ▸ (List.getElem_cons_eraseIdx_perm hn).symm)
  · rename_i provider recipients delay h
    obtain ⟨hn, hd⟩ := List.getElem?_eq_some_iff.1 h
    exact .digests provider recipients delay (hd ▸ (List.getElem_cons_eraseIdx_perm hn).symm)

/-! ## The contract of the tasks -/

/-- What holds when a task issues a command. -/
def Guarded (p : ℕ) (c : Cmd) (σ : State) : Prop :=
  match c with
  | .sleep delay => ∃ provider recipients, Executes p (some (provider, ⟨recipients, delay, .asleep p⟩)) σ
  | .takeOverflow provider recipients => ∃ delay, Executes p (some (provider, ⟨recipients, delay, .asleep p⟩)) σ
  | .digestEnded provider => ∃ d, d.stage = .taken p ∧ Executes p (some (provider, d)) σ
  | .sent => ∀ provider d, σ.digestTasks provider = some d → d.stage ≠ .asleep p
  | _ => Executes p none σ

/-- The sleep of a digest is not cut short by an exception. -/
def Sleeps (c : Cmd) (i : Input) : Prop :=
  match c with
  | .sleep _ => i.outcome = .ok ()
  | _ => True

theorem registered_exec (h : Registered σ) (guard : Guarded p c σ) (i : Input) :
    Registered (σ.exec cfg p c i).2 := by
  have evaluates : c.Evaluates → Registered (σ.exec cfg p c i).2 := by
    intro hc
    rcases @evaluates_exec cfg _ hc p i σ with same | ⟨a, fires⟩
    · rw [Registered, same.digestTasks, same.tasks]
      exact h
    · exact h.schedules fires.schedules
  cases c with
  | start =>
    have starts := start_spec p i.job σ
    simp only [State.exec]
    generalize σ.start p i.job = r at starts ⊢
    cases starts with
    | nothing => exact h
    | delivers m tasks => exact Registry.deliver_cons.1 (h.perm tasks)
    | digests provider recipients delay tasks =>
      refine (h.perm tasks).start fun d hd => ?_
      obtain ⟨d, -, rfl⟩ := Option.map_eq_some_iff.1 hd
      nofun
  | sent | sleep => exact h
  | takeOverflow provider recipients =>
    obtain ⟨delay, executes⟩ := guard
    rw [Registered, State.exec, takeOverflow_digestTasks, takeOverflow_tasks]
    refine h.advance executes.mem.1 nofun fun d hd => ?_
    obtain ⟨d, -, rfl⟩ := Option.map_eq_some_iff.1 hd
    nofun
  | digestEnded provider =>
    obtain ⟨d, stage, executes⟩ := guard
    exact h.advance executes.mem.1 (by simp [stage]) fun d hd => by cases hd
  | _ => exact evaluates trivial

/-- The digest of a task is its own. -/
theorem executes_exec {f : Option (Text × Digest)} (hq : q ≠ p) (registered : Registered σ)
    (guard : Guarded q c σ) (i : Input) (h : Executes p f σ) : Executes p f (σ.exec cfg q c i).2 := by
  have ne : some q ≠ some p := fun heq => hq (Option.some.inj heq)
  have evaluates : c.Evaluates → Executes p f (σ.exec cfg q c i).2 := fun hc => executes_evaluates hc h q i
  cases c with
  | start =>
    have starts := start_spec q i.job σ
    simp only [State.exec]
    generalize σ.start q i.job = r at starts ⊢
    cases starts with
    | nothing => exact h
    | delivers m tasks => exact h.of_eq rfl
    | digests provider recipients delay tasks =>
      have created := registered.digest (tasks.mem_iff.2 (List.mem_cons_self ..))
      refine h.update (fun d hd => ?_) (fun d hd => ?_) rfl
      · rw [created] at hd
        cases hd
        nofun
      · obtain ⟨d, -, rfl⟩ := Option.map_eq_some_iff.1 hd
        exact ne
  | sent | sleep => exact h
  | takeOverflow provider recipients =>
    obtain ⟨delay, executes⟩ := guard
    refine h.update (fun d hd => ?_) (fun d hd => ?_) (takeOverflow_digestTasks σ recipients i.now)
    · rw [executes.mem.1] at hd
      cases hd
      exact ne
    · obtain ⟨d, -, rfl⟩ := Option.map_eq_some_iff.1 hd
      exact ne
  | digestEnded provider =>
    obtain ⟨d, stage, executes⟩ := guard
    refine h.update (fun d' hd => ?_) (fun d hd => by cases hd) rfl
    rw [executes.mem.1] at hd
    cases hd
    rw [executes.mem.2]
    exact ne
  | _ => exact evaluates trivial

/-- The contract of the tasks. -/
def digests (cfg : NotificationSubscriber) : Contract (notifier cfg) where
  Inv := Registered
  Ok _ _ c i _ := Sleeps c i
  Guard p _ c _ σ := Guarded p c σ
  Post p _ _ σ := Executes p none σ
  inv_exec inv _ guard := registered_exec inv guard _
  inv_note inv _ := inv
  inv_disturb d _ := d.elim

theorem executes_rely {f : Option (Text × Digest)} (h : (digests cfg).Rely p σ σ') (executes : Executes p f σ) :
    Executes p f σ' := by
  refine Contract.Rely.le (digests cfg) (R := fun σ σ' => Executes p f σ → Executes p f σ')
    (fun _ h => h) (fun h h' hf => h' (h hf)) (fun h => ?_) h executes
  cases h with
  | exec hq inv _ guard => exact executes_exec hq inv guard _
  | note _ _ _ => exact fun h => h
  | disturb d => cases d

section Safe

variable {α : Type} {Q : α → State → Prop} {f : Option (Text × Digest)} {recipients : Recipients} {delay : Time}

/-- A program is safe when it is from every state in which the task executes the same digest. -/
theorem safe_op {k : c.Reply → Coro α} (h : Executes p f σ)
    (rest : ∀ σ' i, Executes p f σ' → Registered σ' → Sleeps c i →
      Guarded p c σ' ∧ (digests cfg).Safe p o (k (σ'.exec cfg p c i).1) Q (σ'.exec cfg p c i).2) :
    (digests cfg).Safe p o (Prog.op c k) Q σ :=
  fun σ' hR inv i ok => rest σ' i (executes_rely hR h) inv ok

theorem safe_pure {a : α} (h : Executes p f σ) :
    (digests cfg).Safe p o (Prog.pure a : Coro α) (fun _ => Executes p f) σ :=
  fun _ hR _ => executes_rely hR h

/-- A command of an envelope, with what follows it. -/
theorem safe_evaluates {k : c.Reply → Coro α} (hc : c.Evaluates) (h : Executes p none σ)
    (rest : ∀ r σ', Executes p none σ' → (digests cfg).Safe p o (k r) Q σ') :
    (digests cfg).Safe p o (Prog.op c k) Q σ := by
  refine safe_op h fun σ' i h' _ _ => ⟨?_, rest _ _ (executes_evaluates hc h' p i)⟩
  cases c <;> first | exact h' | exact hc.elim

theorem safe_applyRule (rule : AlertRule) (e : Envelope) (now : Time) (h : Executes p none σ) :
    (digests cfg).Safe p o (applyRule rule e now) (fun _ => Executes p none) σ := by
  unfold applyRule
  split
  · refine safe_evaluates (by trivial) h fun r σ₁ h₁ => ?_
    cases r with
    | false => exact safe_pure h₁
    | true => exact safe_evaluates (by trivial) h₁ fun r σ₂ h₂ => safe_pure h₂
  · exact safe_evaluates (by trivial) h fun r σ₁ h₁ => safe_pure h₁

theorem safe_applyRules (e : Envelope) (now : Time) (rules : List AlertRule) (h : Executes p none σ) :
    (digests cfg).Safe p o (applyRules e now rules) (fun _ => Executes p none) σ := by
  induction rules generalizing σ with
  | nil => exact safe_pure h
  | cons rule rest ih =>
    unfold applyRules
    split_ifs
    · exact ih h
    · refine Contract.Safe.bind ((safe_applyRule rule e now h).mono fun r σ₁ _ h₁ => ?_)
      cases r with
      | error exc => exact safe_pure h₁
      | ok => exact ih h₁

theorem safe_onEnvelope (e : Envelope) (h : Executes p none σ) :
    (digests cfg).Safe p o (onEnvelope cfg e) (fun _ => Executes p none) σ := by
  refine Contract.Safe.bind (x := evaluate cfg e) (Contract.Safe.mono (?_ : (digests cfg).Safe p o
    (evaluate cfg e) (fun _ => Executes p none) σ) fun r σ₁ _ h₁ => safe_pure h₁)
  refine safe_evaluates (by trivial) h fun r σ₁ h₁ => ?_
  cases r with
  | none => exact safe_pure h₁
  | some now => exact safe_applyRules e now _ h₁

/-- The wait for the sender, in a task that does not sleep. -/
theorem safe_delivered (h : Executes p f σ) (awake : ∀ provider d, f = some (provider, d) → d.stage ≠ .asleep p) :
    (digests cfg).Safe p o delivered (fun _ => Executes p f) σ := by
  refine safe_op h fun σ₁ i h₁ _ _ => ⟨fun provider d hd asleep => ?_, safe_pure h₁⟩
  exact awake provider d ((h₁ provider d).1 ⟨hd, by rw [asleep]; rfl⟩) asleep

/-- A digest that takes the overflow is past its sleep. -/
theorem executes_takeOverflow (h : Executes p (some (provider, ⟨recipients, delay, .asleep p⟩)) σ) (now : Time) :
    Executes p (some (provider, ⟨recipients, delay, .taken p⟩)) (σ.takeOverflow cfg p provider recipients now).2 := by
  refine @Executes.set _ _ _ _ _ (some ⟨recipients, delay, .taken p⟩) h (fun provider' d heq => by cases heq; rfl)
    (fun d hd => by cases hd; rfl) ?_
  rw [takeOverflow_digestTasks, State.setStage, h.mem.1]
  rfl

theorem safe_digest (h : Executes p (some (provider, ⟨recipients, delay, .asleep p⟩)) σ) :
    (digests cfg).Safe p o (digest provider recipients delay)
      (fun _ => Executes p (some (provider, ⟨recipients, delay, .taken p⟩))) σ := by
  refine safe_op h fun σ₁ ⟨_, _, _, r⟩ h₁ _ sleeps => ⟨⟨provider, recipients, h₁⟩, ?_⟩
  cases (show r = .ok () from sleeps)
  refine safe_op h₁ fun σ₂ i h₂ _ _ => ⟨⟨delay, h₂⟩, ?_⟩
  have taken := @executes_takeOverflow cfg _ _ _ _ _ h₂ i.now
  simp only [State.exec]
  cases (σ₂.takeOverflow cfg p provider recipients i.now).1 with
  | false => exact safe_pure taken
  | true =>
    refine safe_delivered taken fun provider' d heq => ?_
    cases heq
    nofun

theorem safe_flushDigest (h : Executes p (some (provider, ⟨recipients, delay, .asleep p⟩)) σ) :
    (digests cfg).Safe p o (flushDigest provider recipients delay) (fun _ => Executes p none) σ := by
  refine Contract.Safe.bind ((safe_digest h).mono fun r σ₁ _ h₁ => ?_)
  refine safe_op h₁ fun σ₂ i h₂ _ _ => ⟨⟨_, rfl, h₂⟩, safe_pure ?_⟩
  exact @Executes.set _ _ _ _ _ none h₂ (fun provider' d heq => by cases heq; rfl) (fun d hd => by cases hd) rfl

theorem safe_task (h : Executes p none σ) :
    (digests cfg).Safe p o task (fun _ => Executes p none) σ := by
  refine safe_op h fun σ₁ i h₁ registered _ => ⟨h₁, ?_⟩
  have starts := start_spec p i.job σ₁
  simp only [State.exec]
  generalize σ₁.start p i.job = r at starts ⊢
  cases starts with
  | nothing => exact safe_pure h₁
  | delivers m tasks => exact safe_delivered (h₁.of_eq rfl) nofun
  | digests provider recipients delay tasks =>
    refine safe_flushDigest (@Executes.set _ _ _ _ _ (some ⟨recipients, delay, .asleep p⟩) h₁ nofun
      (fun d hd => by cases hd; rfl) ?_)
    rw [State.setStage, registered.digest (tasks.mem_iff.2 (List.mem_cons_self ..))]
    rfl

end Safe

/-- A task that is there executes no digest between two calls. -/
def Between (p : ℕ) (φ : Phase) (σ : State) : Prop := φ = .there → Executes p none σ

theorem kept : (digests cfg).Kept Between fun _ => True where
  idle p σ h := by cases h
  call {p φ o σ} _ accepts _ between := by
    have h := between (of_decide_eq_true accepts)
    cases o with
    | onEnvelope e => exact safe_onEnvelope e h
    | task => exact safe_task h
  phase _ post _ := post
  stable other between h := executes_rely (.single other) (between h)

theorem within_new (cfg : NotificationSubscriber) : (digests cfg).Within Between (fun _ => True) cfg.new where
  inv := {
    digest := fun hd => by cases hd
    once := List.nodup_nil
    created := fun hd => by cases hd }
  resting _ _ _ _ := ⟨fun hd => (by cases hd.1), nofun⟩
  admits _ := trivial
  calling h := by cases h

/-! ## The alerts -/

/-- An alert joins an overflow for which a digest to its recipients is scheduled, or as the first one of it with
a message in the throttle window, and no digest is woken by an exception. -/
def Spares (cfg : NotificationSubscriber) (c : Cmd) (i : Input) (σ : State) : Prop :=
  match c with
  | .fire rule e now _ =>
    ¬ σ.Suppressed cfg rule e now → cfg.throttleMax ≤ (σ.sent cfg rule.provider i.schedule).length →
      match σ.digestTasks rule.provider with
      | some d => d.stage.pending = true ∧ d.recipients = rule.recipients
      | none => σ.sent cfg rule.provider i.schedule ≠ []
  | c => Sleeps c i

instance (cfg : NotificationSubscriber) (c : Cmd) (i : Input) (σ : State) : Decidable (Spares cfg c i σ) := by
  unfold Spares
  cases c with
  | fire rule => cases h : σ.digestTasks rule.provider <;> simp only [h] <;> infer_instance
  | sleep => exact inferInstanceAs (Decidable (i.outcome = .ok ()))
  | _ => exact isTrue trivial

/-- An alert is in the overflow of its channel, in a delivery that has not started, or in a message that was
handed to the sender. -/
def Placed (σ : State) (a : Alert) : Prop :=
  a ∈ σ.channelOverflow a.provider ∨ (∃ m, .deliver m ∈ σ.tasks ∧ a ∈ m.alerts) ∨
    ∃ x ∈ σ.log, ∃ m, x.2 = .handed m ∧ a ∈ m.alerts

/-- Every alert has its place, every message goes where its alerts have to go, and an overflow waits for a
digest to the recipients of its alerts. -/
structure Faithful (σ : State) : Prop where
  waiting : ∀ {provider a}, a ∈ σ.channelOverflow provider →
    a.provider = provider ∧ ∃ d, σ.digestTasks provider = some d ∧ d.stage.pending = true ∧
      d.recipients = a.recipients
  own : ∀ x ∈ σ.log, ∀ a, x.2 = .fired a → ∀ rule ∈ a.rule,
    a.provider = rule.provider ∧ a.recipients = rule.recipients
  placed : ∀ x ∈ σ.log, ∀ a, x.2 = .fired a → Placed σ a
  delivering : ∀ m, .deliver m ∈ σ.tasks → ∀ a ∈ m.alerts, m.Carries a
  addressed : ∀ x ∈ σ.log, ∀ m, x.2 = .handed m → ∀ a ∈ m.alerts, m.Carries a

theorem Placed.mono (h : Placed σ a) (overflow : a ∈ σ.channelOverflow a.provider → Placed σ' a)
    (tasks : ∀ m, .deliver m ∈ σ.tasks → a ∈ m.alerts → Placed σ' a) (log : σ.log ⊆ σ'.log) : Placed σ' a := by
  rcases h with h | ⟨m, hm, ha⟩ | ⟨x, hx, m, hm, ha⟩
  · exact overflow h
  · exact tasks m hm ha
  · exact .inr (.inr ⟨x, log hx, m, hm, ha⟩)

namespace Faithful

theorem of_same (h : Faithful σ) (same : Same σ σ') : Faithful σ' := by
  obtain ⟨digestTasks, channelOverflow, tasks, log⟩ := same
  refine ⟨?_, ?_, ?_, ?_, ?_⟩
  · rw [channelOverflow, digestTasks]
    exact h.waiting
  · rw [log]
    exact h.own
  · rw [log]
    intro x hx a ha
    simpa only [Placed, channelOverflow, tasks, log] using h.placed x hx a ha
  · rw [tasks]
    exact h.delivering
  · rw [log]
    exact h.addressed

/-- A new alert has a place, and the old ones keep theirs. -/
theorem fires (h : Faithful σ) (fires : Fires cfg p c i a σ σ') (spares : Spares cfg c i σ) : Faithful σ' := by
  obtain ⟨own, log, schedules⟩ := fires
  have later : σ.log ⊆ σ'.log := by
    rw [log]
    exact List.subset_cons_self _ _
  have ofOwn : ∀ x ∈ σ'.log, ∀ b, x.2 = .fired b → ∀ rule ∈ b.rule,
      b.provider = rule.provider ∧ b.recipients = rule.recipients := by
    rw [log]
    intro x hx b hb
    rcases List.mem_cons.1 hx with rfl | hx
    · cases hb
      exact own
    · exact h.own x hx b hb
  have addressed : ∀ x ∈ σ'.log, ∀ m, x.2 = .handed m → ∀ b ∈ m.alerts, m.Carries b := by
    rw [log]
    intro x hx m hm
    rcases List.mem_cons.1 hx with rfl | hx
    · cases hm
    · exact h.addressed x hx m hm
  have placed : Placed σ' a → (∀ b, Placed σ b → Placed σ' b) → ∀ x ∈ σ'.log, ∀ b, x.2 = .fired b → Placed σ' b := by
    rw [log]
    intro new old x hx b hb
    rcases List.mem_cons.1 hx with rfl | hx
    · cases hb
      exact new
    · exact old b (h.placed x hx b hb)
  have member : ∀ {provider b}, b ∈ folded σ a provider →
      b = a ∧ provider = a.provider ∨ b ∈ σ.channelOverflow provider := by
    intro provider b hb
    unfold folded at hb
    by_cases same : provider = a.provider
    · subst same
      rw [Function.update_self] at hb
      rcases List.mem_append.1 hb with hb | hb
      · exact .inr hb
      · exact .inl ⟨List.mem_singleton.1 hb, rfl⟩
    · rw [Function.update_of_ne same] at hb
      exact .inr hb
  have joins : ∀ {b : Alert}, b = a ∨ b ∈ σ.channelOverflow b.provider → b ∈ folded σ a b.provider := by
    intro b hb
    unfold folded
    by_cases same : b.provider = a.provider
    · rw [same, Function.update_self]
      rw [same] at hb
      simpa [or_comm] using hb
    · rw [Function.update_of_ne same]
      exact hb.resolve_left fun heq => same (by rw [heq])
  cases schedules with
  | delivers m alerts carries digestTasks channelOverflow tasks =>
    refine ⟨?_, ofOwn, placed ?_ fun b hb => hb.mono ?_ ?_ later, fun m' hm' b hb => ?_, addressed⟩
    · rw [channelOverflow, digestTasks]
      exact h.waiting
    · exact .inr (.inl ⟨m, by simp [tasks], by simp [alerts]⟩)
    · intro hb
      exact .inl (by rwa [channelOverflow])
    · exact fun m' hm' hb => .inr (.inl ⟨m', by simp [tasks, hm'], hb⟩)
    · rw [tasks] at hm'
      rcases List.mem_append.1 hm' with hm' | hm'
      · exact h.delivering m' hm' b hb
      · cases List.mem_singleton.1 hm'
        rw [alerts] at hb
        rw [List.mem_singleton.1 hb]
        exact carries
  | folds held d digest digestTasks channelOverflow tasks =>
    have fits : d.stage.pending = true ∧ d.recipients = a.recipients := by
      cases c with
      | fire rule e now windowed =>
        obtain ⟨fresh, provider, recipients, throttled⟩ := held
        have fits := spares fresh throttled
        rw [← provider, digest] at fits
        rw [recipients]
        exact fits
      | _ => exact held.elim
    refine ⟨fun {provider b} hb => ?_, ofOwn, placed ?_ fun b hb => hb.mono ?_ ?_ later, ?_, addressed⟩
    · rw [channelOverflow] at hb
      rw [digestTasks]
      rcases member hb with ⟨rfl, rfl⟩ | hb
      · exact ⟨rfl, d, digest, fits⟩
      · exact h.waiting hb
    · exact .inl (by rw [channelOverflow]; exact joins (.inl rfl))
    · exact fun hb => .inl (by rw [channelOverflow]; exact joins (.inr hb))
    · exact fun m hm hb => .inr (.inl ⟨m, by rwa [tasks], hb⟩)
    · rw [tasks]
      exact h.delivering
  | creates delay free digestTasks channelOverflow tasks =>
    refine ⟨fun {provider b} hb => ?_, ofOwn, placed ?_ fun b hb => hb.mono ?_ ?_ later, fun m hm => ?_, addressed⟩
    · rw [channelOverflow] at hb
      rw [digestTasks]
      rcases member hb with ⟨rfl, rfl⟩ | hb
      · exact ⟨rfl, _, Function.update_self .., rfl, rfl⟩
      · obtain ⟨provided, d, hd, pending⟩ := h.waiting hb
        have ne : provider ≠ a.provider := by
          rintro rfl
          rw [free] at hd
          cases hd
        rw [Function.update_of_ne ne]
        exact ⟨provided, d, hd, pending⟩
    · exact .inl (by rw [channelOverflow]; exact joins (.inl rfl))
    · exact fun hb => .inl (by rw [channelOverflow]; exact joins (.inr hb))
    · exact fun m hm hb => .inr (.inl ⟨m, by simp [tasks, hm], hb⟩)
    · exact h.delivering m (by simpa [tasks] using hm)
  | strands held empty free digestTasks channelOverflow tasks =>
    cases c with
    | fire rule e now windowed =>
      obtain ⟨fresh, provider, recipients, throttled⟩ := held
      have fits := spares fresh throttled
      rw [← provider, free] at fits
      exact absurd empty fits
    | _ => exact held.elim

/-- A created task starts. -/
theorem start (h : Faithful σ) (n : ℕ) : Faithful (σ.start p n).2 := by
  have starts := start_spec p n σ
  generalize σ.start p n = r at starts ⊢
  cases starts with
  | nothing => exact h
  | delivers m tasks =>
    have created : .deliver m ∈ σ.tasks := tasks.mem_iff.2 (List.mem_cons_self ..)
    refine ⟨h.waiting, fun x hx a ha => ?_, fun x hx a ha => ?_, fun m' hm' => ?_, fun x hx m' hm' => ?_⟩
    · rcases List.mem_cons.1 hx with rfl | hx
      · cases ha
      · exact h.own x hx a ha
    · rcases List.mem_cons.1 hx with rfl | hx
      · cases ha
      · refine (h.placed x hx a ha).mono .inl (fun m' hm' ha => ?_) (List.subset_cons_self _ _)
        rcases List.mem_cons.1 (tasks.mem_iff.1 hm') with heq | hm'
        · cases heq
          exact .inr (.inr ⟨_, List.mem_cons_self .., m, rfl, ha⟩)
        · exact .inr (.inl ⟨m', hm', ha⟩)
    · exact h.delivering m' (List.mem_of_mem_eraseIdx hm')
    · rcases List.mem_cons.1 hx with rfl | hx
      · cases hm'
        exact h.delivering m created
      · exact h.addressed x hx m' hm'
  | digests provider recipients delay tasks =>
    refine ⟨fun {provider' a} ha => ?_, h.own, fun x hx a ha => ?_, fun m hm => ?_, h.addressed⟩
    · obtain ⟨provided, d, hd, pending, same⟩ := h.waiting ha
      refine ⟨provided, ?_⟩
      simp only [State.setStage]
      by_cases eq : provider' = provider
      · subst eq
        rw [Function.update_self, hd]
        exact ⟨_, rfl, rfl, same⟩
      · rw [Function.update_of_ne eq]
        exact ⟨d, hd, pending, same⟩
    · refine (h.placed x hx a ha).mono .inl (fun m hm ha => .inr (.inl ⟨m, ?_, ha⟩)) (List.Subset.refl _)
      rcases List.mem_cons.1 (tasks.mem_iff.1 hm) with heq | hm
      · cases heq
      · exact hm
    · exact h.delivering m (List.mem_of_mem_eraseIdx hm)

/-- A digest takes the overflow of its channel. -/
theorem takeOverflow (h : Faithful σ) {recipients : Recipients} {delay : Time}
    (executes : Executes p (some (provider, ⟨recipients, delay, .asleep p⟩)) σ) (now : Time) :
    Faithful (σ.takeOverflow cfg p provider recipients now).2 := by
  have rest : ∀ {provider' a}, a ∈ Function.update σ.channelOverflow provider [] provider' →
      provider' ≠ provider ∧ a ∈ σ.channelOverflow provider' := by
    intro provider' a ha
    by_cases same : provider' = provider
    · rw [same, Function.update_self] at ha
      cases ha
    · rw [Function.update_of_ne same] at ha
      exact ⟨same, ha⟩
  have waiting : ∀ {provider' a}, a ∈ Function.update σ.channelOverflow provider [] provider' →
      a.provider = provider' ∧ ∃ d, (σ.setStage provider (.taken p)).digestTasks provider' = some d ∧
        d.stage.pending = true ∧ d.recipients = a.recipients := by
    intro provider' a ha
    obtain ⟨ne, ha⟩ := rest ha
    obtain ⟨provided, d, hd, pending⟩ := h.waiting ha
    exact ⟨provided, d, by simpa [State.setStage, ne] using hd, pending⟩
  have carries : ∀ a ∈ σ.channelOverflow provider, ∀ subject, Message.Carries
      ⟨provider, recipients, subject, State.digestMessage cfg provider (σ.channelOverflow provider),
        σ.channelOverflow provider⟩ a := by
    intro a ha subject
    obtain ⟨provided, d, hd, -, same⟩ := h.waiting ha
    rw [executes.mem.1] at hd
    cases hd
    exact ⟨provided.symm, same, infix_digestMessage ha⟩
  unfold State.takeOverflow
  dsimp only
  split_ifs with empty
  · refine ⟨waiting, h.own, fun x hx a ha => ?_, h.delivering, h.addressed⟩
    refine (h.placed x hx a ha).mono (fun hb => .inl ?_) (fun m hm ha => .inr (.inl ⟨m, hm, ha⟩)) (List.Subset.refl _)
    have ne : a.provider ≠ provider := by
      intro same
      rw [same, empty] at hb
      cases hb
    simpa [State.setStage, ne] using hb
  · refine ⟨waiting, fun x hx a ha => ?_, fun x hx a ha => ?_, h.delivering, fun x hx m hm => ?_⟩
    · rcases List.mem_cons.1 hx with rfl | hx
      · cases ha
      · exact h.own x hx a ha
    · rcases List.mem_cons.1 hx with rfl | hx
      · cases ha
      · refine (h.placed x hx a ha).mono (fun hb => ?_) (fun m hm ha => .inr (.inl ⟨m, hm, ha⟩))
          (List.subset_cons_self _ _)
        by_cases same : a.provider = provider
        · rw [same] at hb
          exact .inr (.inr ⟨_, List.mem_cons_self .., _, rfl, hb⟩)
        · refine .inl ?_
          simpa [State.hand, State.record, State.setStage, same] using hb
    · rcases List.mem_cons.1 hx with rfl | hx
      · cases hm
        exact fun a ha => carries a ha _
      · exact h.addressed x hx m hm

/-- A digest ends. -/
theorem digestEnded (h : Faithful σ) {d : Digest} (stage : d.stage = .taken p)
    (executes : Executes p (some (provider, d)) σ) : Faithful (σ.digestEnded provider) := by
  refine ⟨fun {provider' a} ha => ?_, h.own, h.placed, h.delivering, h.addressed⟩
  obtain ⟨provided, d', hd', pending, same⟩ := h.waiting ha
  have ne : provider' ≠ provider := by
    rintro rfl
    rw [executes.mem.1] at hd'
    cases hd'
    simp [stage, Stage.pending] at pending
  refine ⟨provided, d', ?_, pending, same⟩
  simpa [State.digestEnded, ne] using hd'

theorem exec (h : Faithful σ) (spares : Spares cfg c i σ) (guard : Guarded p c σ) :
    Faithful (σ.exec cfg p c i).2 := by
  have evaluates : c.Evaluates → Faithful (σ.exec cfg p c i).2 := by
    intro hc
    rcases @evaluates_exec cfg _ hc p i σ with same | ⟨a, fires⟩
    · exact h.of_same same
    · exact h.fires fires spares
  cases c with
  | start => exact h.start i.job
  | sent | sleep => exact h
  | takeOverflow provider recipients =>
    obtain ⟨delay, executes⟩ := guard
    exact h.takeOverflow executes i.now
  | digestEnded provider =>
    obtain ⟨d, stage, executes⟩ := guard
    exact h.digestEnded stage executes
  | _ => exact evaluates trivial

end Faithful

/-- A digest that has not taken the overflow of a channel is scheduled: its task was created, or is about to
sleep or to take the overflow. -/
def Scheduled (provider : Text) (P : Pool (notifier cfg)) : Prop :=
  ∃ d, P.shared.digestTasks provider = some d ∧
    match d.stage with
    | .created => .digest provider d.recipients d.delay ∈ P.shared.tasks
    | .asleep p => ∃ o x, P.actors p = .calling o x ∧
        (x.head = some (.sleep d.delay) ∨ x.head = some (.takeOverflow provider d.recipients))
    | .taken _ => False

theorem returns_applyRules (e : Envelope) (now : Time) (rules : List AlertRule) :
    (applyRules e now rules).Returns := by
  have delivered : ∀ rule, (applyRule rule e now).Returns := by
    intro rule
    unfold applyRule
    split
    · refine Prog.Returns.cmd_bind fun r => ?_
      cases r
      · trivial
      · exact fun _ _ => trivial
    · exact fun _ _ => trivial
  induction rules with
  | nil => trivial
  | cons rule rest ih =>
    unfold applyRules
    split_ifs
    · exact ih
    · refine (delivered rule).bind fun r => ?_
      cases r with
      | error exc => trivial
      | ok => exact ih

theorem returns_flushDigest (provider : Text) (recipients : Recipients) (delay : Time) :
    (flushDigest provider recipients delay).Returns := by
  refine Prog.Returns.bind (Prog.Returns.cmd_bind fun r => ?_) fun _ _ _ => trivial
  cases r with
  | error exc => trivial
  | ok =>
    refine Prog.Returns.cmd_bind fun r => ?_
    cases r
    · trivial
    · exact fun _ _ => trivial

theorem returns_code (o : Call) : (o.code cfg).Returns := by
  cases o with
  | onEnvelope e =>
    refine Prog.Returns.bind (Prog.Returns.cmd_bind fun r => ?_) fun _ => trivial
    cases r with
    | none => trivial
    | some now => exact returns_applyRules e now _
  | task =>
    refine Prog.Returns.cmd_bind fun r => ?_
    rcases r with _ | (m | ⟨provider, recipients, delay⟩)
    · trivial
    · exact fun _ _ => trivial
    · exact returns_flushDigest provider recipients delay

/-- A digest that has not taken the overflow is scheduled. -/
theorem scheduled {P : Pool (notifier cfg)} (within : (digests cfg).Within Between (fun _ => True) P)
    (there : ∀ p φ, P.actors p = .resting φ → φ = .there)
    (returns : ∀ p o x, P.actors p = .calling o x → x.Returns) {d : Digest}
    (hd : P.shared.digestTasks provider = some d) (pending : d.stage.pending = true) : Scheduled provider P := by
  refine ⟨d, hd, ?_⟩
  cases stage : d.stage with
  | created => exact within.inv.created hd stage
  | taken p => simp [stage, Stage.pending] at pending
  | asleep p =>
    have executed : P.shared.digestTasks provider = some d ∧ d.stage.task = some p := ⟨hd, by rw [stage]; rfl⟩
    cases hp : P.actors p with
    | resting φ => cases (within.resting hp (there p φ hp) provider d).1 executed
    | calling o x =>
      refine ⟨o, x, hp, ?_⟩
      cases x with
      | pure r => cases (within.post hp provider d).1 executed
      | hang => exact (returns p o _ hp).elim
      | op c k =>
        have guard : Guarded p c P.shared := within.guard hp (i := {}) (by cases c <;> first | rfl | trivial)
        cases c with
        | sleep delay =>
          obtain ⟨provider', recipients, executes⟩ := guard
          cases (executes provider d).1 executed
          exact .inl rfl
        | takeOverflow provider' recipients =>
          obtain ⟨delay, executes⟩ := guard
          cases (executes provider d).1 executed
          exact .inr rfl
        | digestEnded provider' =>
          obtain ⟨d', taken, executes⟩ := guard
          cases (executes provider d).1 executed
          rw [stage] at taken
          cases taken
        | sent => exact absurd stage (guard provider d hd)
        | guardStorm | count | fire | start => cases (guard provider d).1 executed

/-- Each alert is for the recipients of its rule, and is in a message that was handed to the sender for them, in
one whose task has not started, or in an overflow for which a digest is scheduled; no overflow is without a
digest, and no message has an alert for others. -/
structure Reported (P : Pool (notifier cfg)) : Prop where
  own : ∀ x ∈ P.shared.log, ∀ a, x.2 = .fired a → ∀ rule ∈ a.rule,
    a.provider = rule.provider ∧ a.recipients = rule.recipients
  reached : ∀ x ∈ P.shared.log, ∀ a, x.2 = .fired a →
    (∃ y ∈ P.shared.log, ∃ m, y.2 = .handed m ∧ a ∈ m.alerts ∧ m.Carries a) ∨
      (∃ m, .deliver m ∈ P.shared.tasks ∧ a ∈ m.alerts ∧ m.Carries a) ∨
      a ∈ P.shared.channelOverflow a.provider ∧ Scheduled a.provider P
  scheduled : ∀ provider, P.shared.channelOverflow provider ≠ [] → Scheduled provider P
  addressed : ∀ x ∈ P.shared.log, ∀ m, x.2 = .handed m → ∀ a ∈ m.alerts, m.Carries a

/-- The decisions of tasks that are not destroyed, whose commands spare the alerts. -/
def Spared (cfg : NotificationSubscriber) (P : Pool (notifier cfg)) (a : Act (notifier cfg)) : Prop :=
  Pool.Meets (fun _ _ c i σ => Spares cfg c i σ) P a ∧ a.Uncrashed

/-- In every run whose commands spare the alerts, they are reported. -/
theorem alerts_reported (cfg : NotificationSubscriber) {P : Pool (notifier cfg)}
    (hr : Pool.Reach (Spared cfg) cfg.new P) : Reported P := by
  have admitted : Pool.Reach (fun Q a => (digests cfg).Admitted (fun _ => True) Q a ∧
      Pool.Meets (fun _ _ c i σ => Spares cfg c i σ) Q a) cfg.new P := by
    refine hr.mono fun Q a ha => ⟨?_, ha.1⟩
    cases a with
    | exec p i =>
      intro o c k hp _
      have spares := ha.1 o c k hp
      cases c with
      | sleep => exact spares
      | _ => trivial
    | _ => trivial
  have within := Contract.sound kept (within_new cfg) (admitted.mono fun _ _ ha => ha.1)
  have faithful : Faithful P.shared := by
    refine Contract.invariant kept (J := Faithful) (C := fun _ _ c i σ => Spares cfg c i σ)
      (fun _ _ _ spares guard h => h.exec spares guard) (fun _ _ h => h) (fun (d : Empty) _ _ => d.elim)
      (within_new cfg) ?_ admitted
    refine ⟨fun ha => ?_, fun x hx => ?_, fun x hx => ?_, fun m hm => ?_, fun x hx => ?_⟩
    · cases ha
    all_goals first | cases hx | cases hm
  have there : ∀ p φ, P.actors p = .resting φ → φ = .there := by
    refine hr.resting (Φ := fun φ => φ = Phase.there) (fun ha => ha.2) (fun _ _ => rfl) fun p φ hp => ?_
    cases hp
    rfl
  have returns : ∀ p o x, P.actors p = .calling o x → x.Returns := by
    refine hr.programs (J := fun _ x => x.Returns) returns_code (fun h r => h r trivial) fun p o x hp => ?_
    cases hp
  have scheduled : ∀ {provider a}, a ∈ P.shared.channelOverflow provider → Scheduled provider P := by
    intro provider a ha
    obtain ⟨-, d, hd, pending, -⟩ := faithful.waiting ha
    exact scheduled within there returns hd pending
  refine ⟨faithful.own, fun x hx a ha => ?_, fun provider ne => ?_, faithful.addressed⟩
  · rcases faithful.placed x hx a ha with waits | ⟨m, hm, hma⟩ | ⟨y, hy, m, hm, hma⟩
    · exact .inr (.inr ⟨waits, scheduled waits⟩)
    · exact .inr (.inl ⟨m, hm, hma, faithful.delivering m hm a hma⟩)
    · exact .inl ⟨y, hy, m, hm, hma, faithful.addressed y hy m hm a hma⟩
  · obtain ⟨a, ha⟩ := List.exists_mem_of_ne_nil _ ne
    exact scheduled ha

namespace Scenario

/-- A rule for all topics of a class, whose alerts go to this recipient by mail. -/
def rule (topicClass : Char) (recipient : String) : AlertRule where
  ruleId := [topicClass]
  pattern := [topicClass, '*']
  recipients := .one recipient.toList

/-- A subscriber with these rules, whose channels take one message per window. -/
def settings (rules : List AlertRule) : NotificationSubscriber := { throttleMax := 1, rules }

/-- An error with this topic. -/
def error (topic : String) : Envelope := { eventId := [], topic := topic.toList, severity := .error }

/-- A task handles an envelope that one rule matches. -/
def handles (cfg : NotificationSubscriber) (topic : String) : List (Act (notifier cfg)) :=
  [.call 0 (.onEnvelope (error topic)), .exec 0 {}, .exec 0 {}, .ret 0]

/-- The created task with this number starts and goes on for so many commands. -/
def starts (cfg : NotificationSubscriber) (p job n : ℕ) : List (Act (notifier cfg)) :=
  [.call p .task, .exec p { job }] ++ List.replicate n (.exec p {})

/-- Whom the messages are for, and whom their alerts are for. -/
def messages (σ : State) : List (Recipients × List Recipients) :=
  σ.log.filterMap fun x =>
    match x.2 with
    | .handed m => some (m.recipients, m.alerts.map Alert.recipients)
    | .fired _ => none

end Scenario

open Scenario in
/-- One alert is delivered, and the digest has the two that the throttle held back. -/
theorem alerts_reported_witness : ∃ (cfg : NotificationSubscriber) (P : Pool (notifier cfg)), Pool.Reach (Spared cfg) cfg.new P ∧
    messages P.shared = [(.one ['x'], [.one ['x'], .one ['x']]), (.one ['x'], [.one ['x']])] ∧ Reported P := by
  let cfg := settings [rule 'a' "x", rule 'b' "x"]
  have run : ∃ P ∈ cfg.new.runIf (fun _ _ c i σ => Spares cfg c i σ)
      (handles _ "a" ++ handles _ "b" ++ handles _ "ab" ++ starts _ 1 0 1 ++ [.ret 1] ++ starts _ 2 0 4 ++ [.ret 2]),
      messages P.shared = [(.one ['x'], [.one ['x'], .one ['x']]), (.one ['x'], [.one ['x']])] := by
    decide +kernel
  obtain ⟨P, hP, sent⟩ := run
  have reach : Pool.Reach (Spared cfg) cfg.new P := .of_runIf_forall (by decide) hP
  exact ⟨cfg, P, reach, sent, alerts_reported cfg reach⟩

open Scenario in
/-- The digest of a channel goes to the recipients of its first alert, though another rule has an alert in it,
and the alert that comes while it is being sent stays in the overflow without a digest. -/
theorem alert_misdelivered_and_stranded : ∃ (cfg : NotificationSubscriber) (P : Pool (notifier cfg)),
    Pool.Reach (fun _ a => a.Uncrashed) cfg.new P ∧
    messages P.shared = [(.one ['x'], [.one ['x'], .one ['y']])] ∧
    (P.shared.channelOverflow "email".toList).length = 1 ∧ P.shared.digestTasks "email".toList = none ∧
    ¬ Reported P := by
  let cfg := settings [rule 'a' "x", rule 'b' "y"]
  have run : ∃ P ∈ cfg.new.runIf (fun _ _ _ _ _ => True)
      (handles _ "a" ++ handles _ "ab" ++ handles _ "b" ++ starts _ 1 1 2 ++ handles _ "abb" ++
        [.exec 1 {}, .exec 1 {}, .ret 1]),
      messages P.shared = [(.one ['x'], [.one ['x'], .one ['y']])] ∧
      (P.shared.channelOverflow "email".toList).length = 1 ∧ P.shared.digestTasks "email".toList = none := by
    decide +kernel
  obtain ⟨P, hP, sent, overflow, ended⟩ := run
  have reach : Pool.Reach (fun _ a => a.Uncrashed) cfg.new P :=
    (Pool.Reach.of_runIf_forall (by decide) hP).mono fun _ _ ha => ha.2
  refine ⟨cfg, P, reach, sent, overflow, ended, fun reported => ?_⟩
  obtain ⟨d, hd, -⟩ := reported.scheduled "email".toList (List.ne_nil_of_length_eq_add_one overflow)
  rw [ended] at hd
  cases hd

end NavigatorEventbus.Notification
