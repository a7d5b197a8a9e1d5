import NavigatorEventbus.Subscribers.Digests

/-!
# Sessions of the notification subscriber

The evaluations of a subscriber, one after the other: `_evaluate` has no `await`, so that none is interrupted, and
only the tasks of deliveries and digests go on in between.  An evaluation begins with the storm guard and goes
through the rules in order.  An alert raises when its channel takes no messages and has sent none; then the
evaluation is over, and the rules after that of the alert miss the envelope (`Applied.counts`).
-/

namespace NavigatorEventbus.Notification

open Interleave

open Bus (Exc Outcome)

variable {cfg : NotificationSubscriber} {p : ℕ} {c : Cmd} {i : Input} {σ σ' : State} {e : Envelope}
  {rule : AlertRule} {rules : List AlertRule}

/-! ## Sessions -/

/-- A command that an evaluation executed. -/
abbrev Done (cfg : NotificationSubscriber) : Type := Issued (machine cfg)

/-- An envelope with the commands of its evaluation. -/
structure Evaluation (cfg : NotificationSubscriber) where
  envelope : Envelope
  commands : List (Done cfg)

/-- The reading of the clock for which the envelope is evaluated. -/
def Evaluation.now (ev : Evaluation cfg) : Time := (ev.commands.head?.map fun s => s.input.now).getD 0

/-- The evaluations of a subscriber so far. None is interrupted, and between them the tasks of deliveries and digests
go on. -/
inductive Session (cfg : NotificationSubscriber) (p : ℕ) : List (Evaluation cfg) → State → Prop where
  | new : Session cfg p [] {}
  | evaluate {l : List (Evaluation cfg)} {σ σ' : State} {e : Envelope} {commands : List (Done cfg)} {r : Outcome Unit}
      (h : Session cfg p l σ)
      (t : Trace (machine cfg) p (fun _ _ => False) (evaluate cfg e) σ commands (.pure r) σ') :
      Session cfg p (l ++ [⟨e, commands⟩]) σ'
  | beside {l : List (Evaluation cfg)} {σ : State} {c : Cmd} {i : Input} {q : ℕ} (h : Session cfg p l σ)
      (hc : ¬ c.Evaluates) : Session cfg p l (σ.exec cfg q c i).2

/-- All commands of the evaluations, in order. -/
def journal (l : List (Evaluation cfg)) : List (Done cfg) := l.flatMap Evaluation.commands

/-! ## Envelopes, rules and alerts -/

/-- An internal topic, of which the subscriber takes no notice. -/
def Internal (cfg : NotificationSubscriber) (e : Envelope) : Prop :=
  "bus.".toList.isPrefixOf e.topic ∧ ¬ cfg.includeBusInternal

instance (cfg : NotificationSubscriber) (e : Envelope) : Decidable (Internal cfg e) := by
  unfold Internal
  infer_instance

/-- The time for which a command is executed. -/
def moment (s : Done cfg) : Time :=
  match s.cmd with
  | .guardStorm _ => s.input.now
  | .count _ now _ _ | .fire _ _ now _ => now
  | _ => 0

/-- A rule takes an envelope. -/
def Matches (rule : AlertRule) (e : Envelope) : Prop :=
  rule.minSeverity.value ≤ e.severity.value ∧ Fnmatch.fnmatch e.topic rule.pattern = true

instance (rule : AlertRule) (e : Envelope) : Decidable (Matches rule e) := by
  unfold Matches
  infer_instance

/-- The window of a rule is full with this event. -/
def crosses (s : Done cfg) : Bool :=
  match s.cmd with
  | .count rule now window threshold => (s.before.count rule now window threshold).1
  | _ => false

/-- An alert raises when it is let through: its channel takes no messages, has sent none in its window, and no
digest is on its way. -/
def Stuck (cfg : NotificationSubscriber) (s : Done cfg) : Prop :=
  match s.cmd with
  | .fire rule e now _ =>
    ¬ s.before.Suppressed cfg rule e now ∧ cfg.throttleMax ≤ 0 ∧
      s.before.sent cfg rule.provider s.input.schedule = [] ∧ s.before.digestTasks rule.provider = none
  | _ => False

/-! ## Evaluations -/

/-- What a rule does with an envelope that it takes, and whether the evaluation goes on. -/
inductive Attempted (cfg : NotificationSubscriber) (p : ℕ) (e : Envelope) (now : Time) (rule : AlertRule) :
    List (Done cfg) → Outcome Unit → Prop where
  | counted {window : Time} {threshold : ℤ} {i : Input} {σ : State} (hw : rule.window = some (window, threshold))
      (few : (σ.count rule now window threshold).1 = false) :
      Attempted cfg p e now rule [⟨.count rule now window threshold, i, σ⟩] (.ok ())
  | crossed {window : Time} {threshold : ℤ} {i j : Input} {σ σ' : State} (hw : rule.window = some (window, threshold))
      (full : (σ.count rule now window threshold).1 = true) :
      Attempted cfg p e now rule [⟨.count rule now window threshold, i, σ⟩, ⟨.fire rule e now true, j, σ'⟩]
        (σ'.fire cfg p rule e now true j).1
  | plain {i : Input} {σ : State} (hw : rule.window = none) :
      Attempted cfg p e now rule [⟨.fire rule e now false, i, σ⟩] (σ.fire cfg p rule e now false i).1

/-- What the rules do with an envelope, up to the first alert that raises. -/
inductive Applied (cfg : NotificationSubscriber) (p : ℕ) (e : Envelope) (now : Time) :
    List AlertRule → List (Done cfg) → Prop where
  | nil : Applied cfg p e now [] []
  | skip {rule : AlertRule} {rules : List AlertRule} {l : List (Done cfg)} (no : ¬ Matches rule e)
      (rest : Applied cfg p e now rules l) : Applied cfg p e now (rule :: rules) l
  | cons {rule : AlertRule} {rules : List AlertRule} {l l' : List (Done cfg)} (yes : Matches rule e)
      (first : Attempted cfg p e now rule l (.ok ())) (rest : Applied cfg p e now rules l') :
      Applied cfg p e now (rule :: rules) (l ++ l')
  | stop {rule : AlertRule} {rules : List AlertRule} {l : List (Done cfg)} {exc : Exc} (yes : Matches rule e)
      (first : Attempted cfg p e now rule l (.error exc)) : Applied cfg p e now (rule :: rules) l

/-- The commands of an evaluation. -/
inductive Evaluated (cfg : NotificationSubscriber) (p : ℕ) (e : Envelope) : List (Done cfg) → Prop where
  | ignored {i : Input} {σ : State} (none : (σ.guardStorm cfg p e i).1 = none) :
      Evaluated cfg p e [⟨.guardStorm e, i, σ⟩]
  | applied {i : Input} {σ : State} {now : Time} {l : List (Done cfg)} (some : (σ.guardStorm cfg p e i).1 = some now)
      (rules : Applied cfg p e now cfg.rules l) : Evaluated cfg p e (⟨.guardStorm e, i, σ⟩ :: l)

theorem matches_iff :
    Matches rule e ↔
      ¬ (e.severity.value < rule.minSeverity.value ∨ Fnmatch.fnmatch e.topic rule.pattern = false) := by
  rw [not_or, not_lt, Bool.not_eq_false]
  rfl

section Traces

variable {E : State → State → Prop} {t : List (Done cfg)} {r : Outcome Unit} {now : Time}

theorem attempted_of_trace (h : Trace (machine cfg) p E (applyRule rule e now) σ t (.pure r) σ') :
    Attempted cfg p e now rule t r := by
  unfold applyRule at h
  cases hw : rule.window with
  | none =>
    rw [hw] at h
    obtain ⟨i, σ₁, t', rfl, h'⟩ := h.op_pure_inv
    obtain ⟨rfl, he⟩ := h'.pure_inv
    cases he
    exact .plain hw
  | some w =>
    obtain ⟨window, threshold⟩ := w
    rw [hw] at h
    obtain ⟨i, σ₁, t', rfl, h'⟩ := h.op_pure_inv
    cases full : (σ₁.count rule now window threshold).1 with
    | false =>
      simp only [State.exec, full, Prog.bind] at h'
      obtain ⟨rfl, he⟩ := h'.pure_inv
      cases he
      exact .counted hw full
    | true =>
      simp only [State.exec, full, Prog.bind] at h'
      obtain ⟨j, σ₂, t'', rfl, h''⟩ := h'.op_pure_inv
      obtain ⟨rfl, he⟩ := h''.pure_inv
      cases he
      exact .crossed hw full

theorem applied_of_trace (h : Trace (machine cfg) p E (applyRules e now rules) σ t (.pure r) σ') :
    Applied cfg p e now rules t := by
  induction rules generalizing σ t with
  | nil =>
    obtain ⟨rfl, -⟩ := h.pure_inv
    exact .nil
  | cons rule rules ih =>
    unfold applyRules at h
    split_ifs at h with no
    · exact .skip (fun yes => matches_iff.1 yes no) (ih h)
    · have yes := matches_iff.2 no
      obtain ⟨t₁, t₂, r', σ₁, rfl, h₁, h₂⟩ := h.bind_pure_inv
      have first := attempted_of_trace h₁
      cases r' with
      | ok => exact .cons yes first (ih h₂)
      | error exc =>
        obtain ⟨rfl, -⟩ := h₂.pure_inv
        rw [List.append_nil]
        exact .stop yes first

theorem evaluated_of_trace (h : Trace (machine cfg) p E (evaluate cfg e) σ t (.pure r) σ') : Evaluated cfg p e t := by
  obtain ⟨i, σ₁, t', rfl, h'⟩ := h.op_pure_inv
  cases guard : (σ₁.guardStorm cfg p e i).1 with
  | none =>
    simp only [State.exec, guard, Prog.bind] at h'
    obtain ⟨rfl, -⟩ := h'.pure_inv
    exact .ignored guard
  | some now =>
    simp only [State.exec, guard, Prog.bind] at h'
    exact .applied guard (applied_of_trace h')

end Traces

/-! ## Commands -/

/-- A command that the evaluation of an envelope may issue. -/
def Cmd.Issuable (cfg : NotificationSubscriber) : Cmd → Prop
  | guardStorm _ => True
  | count rule _ window threshold => rule ∈ cfg.rules ∧ rule.window = some (window, threshold)
  | fire rule _ _ _ => rule ∈ cfg.rules
  | _ => False

/-- Commands of evaluations, one after the other, with the commands of other tasks in between. -/
inductive Executed (cfg : NotificationSubscriber) (p : ℕ) : List (Done cfg) → State → Prop where
  | new : Executed cfg p [] {}
  | command {l : List (Done cfg)} {σ : State} {c : Cmd} {i : Input} (h : Executed cfg p l σ) (hc : c.Issuable cfg) :
      Executed cfg p (l ++ [⟨c, i, σ⟩]) (σ.exec cfg p c i).2
  | beside {l : List (Done cfg)} {σ : State} {c : Cmd} {i : Input} {q : ℕ} (h : Executed cfg p l σ)
      (hc : ¬ c.Evaluates) : Executed cfg p l (σ.exec cfg q c i).2

theorem all_applyRules (e : Envelope) (now : Time) (sub : ∀ rule ∈ rules, rule ∈ cfg.rules) :
    (applyRules e now rules).All (Cmd.Issuable cfg) := by
  induction rules with
  | nil => trivial
  | cons rule rules ih =>
    have rest := ih fun r hr => sub r (List.mem_cons_of_mem _ hr)
    have own := sub rule (List.mem_cons_self ..)
    have attempt : (applyRule rule e now).All (Cmd.Issuable cfg) := by
      unfold applyRule
      cases hw : rule.window with
      | none => exact .one own
      | some w =>
        refine .cmd_bind ⟨own, hw⟩ fun full => ?_
        cases full with
        | true => exact .one own
        | false => trivial
    unfold applyRules
    split_ifs
    · exact rest
    · refine attempt.bind fun r => ?_
      cases r with
      | ok => exact rest
      | error exc => trivial

theorem all_evaluate (cfg : NotificationSubscriber) (e : Envelope) : (evaluate cfg e).All (Cmd.Issuable cfg) := by
  refine .cmd_bind trivial fun r => ?_
  cases r with
  | none => trivial
  | some now => exact all_applyRules e now fun _ h => h

/-- An evaluation executes its commands one after the other. -/
theorem Executed.trace {α : Type} {l t : List (Done cfg)} {x y : Coro α} (h : Executed cfg p l σ)
    (ht : Trace (machine cfg) p (fun _ _ => False) x σ t y σ') (hx : x.All (Cmd.Issuable cfg)) :
    Executed cfg p (l ++ t) σ' := by
  induction ht with
  | refl => rwa [List.append_nil]
  | moved _ no => exact no.elim
  | op ht i ih =>
    rw [← List.append_assoc]
    exact ih.command (ht.all hx).2.1

theorem Session.executed {l : List (Evaluation cfg)} (h : Session cfg p l σ) : Executed cfg p (journal l) σ := by
  induction h with
  | new => exact .new
  | @evaluate l σ σ' e commands r h t ih =>
    have all : journal (l ++ [⟨e, commands⟩]) = journal l ++ commands := by
      rw [journal, List.flatMap_append, List.flatMap_singleton]
      rfl
    rw [all]
    exact ih.trace t (all_evaluate cfg e)
  | beside _ hc ih => exact ih.beside hc

/-! ## Rules that miss an envelope -/

/-- An alert raises exactly when it is stuck. -/
theorem fire_ok_iff (cfg : NotificationSubscriber) (p : ℕ) (rule : AlertRule) (e : Envelope) (now : Time)
    (windowed : Bool) (i : Input) (σ : State) :
    (σ.fire cfg p rule e now windowed i).1 = .ok () ↔
      ¬ Stuck cfg (⟨.fire rule e now windowed, i, σ⟩ : Done cfg) := by
  by_cases suppressed : σ.Suppressed cfg rule e now
  · have eq : σ.fire cfg p rule e now windowed i = (.ok (), σ.suppress rule e) := if_pos suppressed
    rw [eq]
    exact iff_of_true rfl fun stuck => stuck.1 suppressed
  · rw [State.fire, if_neg suppressed]
    unfold State.scheduleDelivery
    dsimp only
    split_ifs with full
    · unfold State.throttle
      split
      · rename_i d digest
        refine iff_of_true rfl fun stuck => ?_
        have none : σ.digestTasks rule.provider = none := stuck.2.2.2
        cases none.symm.trans digest
      · rename_i free empty
        refine iff_of_false (by simp) (not_not.2 ⟨suppressed, ?_, empty, free⟩)
        have le := full.2
        have empty : σ.sent cfg rule.provider i.schedule = [] := empty
        have zero : (σ.sent cfg rule.provider i.schedule).length = 0 := by rw [empty, List.length_nil]
        have le : cfg.throttleMax ≤ ((σ.sent cfg rule.provider i.schedule).length : ℤ) := le
        omega
      · rename_i free rest nonempty
        refine iff_of_true rfl fun stuck => ?_
        have empty : σ.sent cfg rule.provider i.schedule = [] := stuck.2.2.1
        exact List.cons_ne_nil _ _ (nonempty.symm.trans empty)
    · rw [not_and, not_le] at full
      have room : ((σ.sent cfg rule.provider i.schedule).length : ℤ) < cfg.throttleMax := full rfl
      refine iff_of_true rfl fun stuck => ?_
      have le : cfg.throttleMax ≤ 0 := stuck.2.1
      omega

section Missing

variable {t : List (Done cfg)} {r : Outcome Unit} {now : Time}

theorem Attempted.stuck {exc : Exc} (h : Attempted cfg p e now rule t (.error exc)) :
    ∃ s ∈ t, Stuck cfg s ∧ ∃ windowed, s.cmd = .fire rule e now windowed := by
  generalize hr : (Except.error exc : Outcome Unit) = r at h
  have raises : ∀ {windowed : Bool} {i : Input} {σ : State}, .error exc = (σ.fire cfg p rule e now windowed i).1 →
      Stuck cfg (⟨.fire rule e now windowed, i, σ⟩ : Done cfg) := by
    intro windowed i σ raised
    by_contra fine
    rw [(fire_ok_iff cfg p rule e now windowed i σ).2 fine] at raised
    cases raised
  cases h with
  | counted => cases hr
  | crossed => exact ⟨_, by simp, raises hr, true, rfl⟩
  | plain => exact ⟨_, by simp, raises hr, false, rfl⟩

theorem Attempted.not_stuck (h : Attempted cfg p e now rule t (.ok ())) : ∀ s ∈ t, ¬ Stuck cfg s := by
  generalize hr : (Except.ok () : Outcome Unit) = r at h
  intro s hs
  cases h with
  | counted =>
    rw [List.mem_singleton.1 hs]
    exact fun stuck => stuck
  | crossed =>
    rcases List.mem_cons.1 hs with rfl | hs
    · exact fun stuck => stuck
    · rw [List.mem_singleton.1 hs]
      exact (fire_ok_iff ..).1 hr.symm
  | plain =>
    rw [List.mem_singleton.1 hs]
    exact (fire_ok_iff ..).1 hr.symm

/-- A rule only executes its own commands. -/
theorem Attempted.own (h : Attempted cfg p e now rule t r) : ∀ s ∈ t,
    (∃ window threshold, rule.window = some (window, threshold) ∧ s.cmd = .count rule now window threshold) ∨
      ∃ windowed, s.cmd = .fire rule e now windowed := by
  intro s hs
  cases h with
  | counted hw =>
    rw [List.mem_singleton.1 hs]
    exact .inl ⟨_, _, hw, rfl⟩
  | crossed hw =>
    rcases List.mem_cons.1 hs with rfl | hs
    · exact .inl ⟨_, _, hw, rfl⟩
    · rw [List.mem_singleton.1 hs]
      exact .inr ⟨_, rfl⟩
  | plain =>
    rw [List.mem_singleton.1 hs]
    exact .inr ⟨_, rfl⟩

theorem Attempted.counts {window : Time} {threshold : ℤ} (h : Attempted cfg p e now rule t r)
    (hw : rule.window = some (window, threshold)) : ∃ s ∈ t, s.cmd = .count rule now window threshold := by
  cases h with
  | counted hw' =>
    rw [hw'] at hw
    cases hw
    exact ⟨_, List.mem_cons_self .., rfl⟩
  | crossed hw' =>
    rw [hw'] at hw
    cases hw
    exact ⟨_, List.mem_cons_self .., rfl⟩
  | plain hw' =>
    rw [hw'] at hw
    cases hw

/-- The commands of rules are those of rules that take the envelope. -/
theorem Applied.own (h : Applied cfg p e now rules t) : ∀ s ∈ t, ∃ rule ∈ rules, Matches rule e ∧
    ((∃ window threshold, rule.window = some (window, threshold) ∧ s.cmd = .count rule now window threshold) ∨
      ∃ windowed, s.cmd = .fire rule e now windowed) := by
  induction h with
  | nil => exact fun s hs => absurd hs List.not_mem_nil
  | skip _ _ ih =>
    intro s hs
    obtain ⟨rule, mem, rest⟩ := ih s hs
    exact ⟨rule, List.mem_cons_of_mem _ mem, rest⟩
  | cons yes first _ ih =>
    intro s hs
    rcases List.mem_append.1 hs with hs | hs
    · exact ⟨_, List.mem_cons_self .., yes, first.own s hs⟩
    · obtain ⟨rule, mem, rest⟩ := ih s hs
      exact ⟨rule, List.mem_cons_of_mem _ mem, rest⟩
  | stop yes first => exact fun s hs => ⟨_, List.mem_cons_self .., yes, first.own s hs⟩

/-- A threshold rule counts an envelope that it takes, unless an alert of an earlier rule raises. -/
theorem Applied.counts {window : Time} {threshold : ℤ} (h : Applied cfg p e now rules t) (mem : rule ∈ rules)
    (yes : Matches rule e) (hw : rule.window = some (window, threshold)) :
    (∃ s ∈ t, s.cmd = .count rule now window threshold) ∨
      ∃ before first after, rules = before ++ first :: after ∧ rule ∈ after ∧
        ∃ s ∈ t, Stuck cfg s ∧ ∃ windowed, s.cmd = .fire first e now windowed := by
  induction h with
  | nil => cases mem
  | @skip rule' rules l no _ ih =>
    rcases List.mem_cons.1 mem with rfl | mem
    · exact absurd yes no
    · rcases ih mem with counted | ⟨before, first, after, rfl, later, stuck⟩
      · exact .inl counted
      · exact .inr ⟨rule' :: before, first, after, rfl, later, stuck⟩
  | @cons rule' rules l l' _ attempted _ ih =>
    rcases List.mem_cons.1 mem with rfl | mem
    · obtain ⟨s, hs, cmd⟩ := attempted.counts hw
      exact .inl ⟨s, List.mem_append_left _ hs, cmd⟩
    · rcases ih mem with ⟨s, hs, cmd⟩ | ⟨before, first, after, rfl, later, s, hs, stuck⟩
      · exact .inl ⟨s, List.mem_append_right _ hs, cmd⟩
      · exact .inr ⟨rule' :: before, first, after, rfl, later, s, List.mem_append_right _ hs, stuck⟩
  | @stop rule' rules l exc _ attempted =>
    rcases List.mem_cons.1 mem with rfl | mem
    · exact .inl (attempted.counts hw)
    · exact .inr ⟨[], rule', rules, rfl, mem, attempted.stuck⟩

/-- Nothing is counted by the rules after one whose alert raises. -/
theorem Applied.stops {s : Done cfg} {windowed : Bool} (h : Applied cfg p e now rules t) (hs : s ∈ t)
    (stuck : Stuck cfg s) (cmd : s.cmd = .fire rule e now windowed) :
    ∃ before after, rules = before ++ rule :: after ∧ ∀ s' ∈ t, ∀ rule' window threshold,
      s'.cmd = .count rule' now window threshold → rule' = rule ∨ rule' ∈ before := by
  induction h with
  | nil => cases hs
  | @skip rule₀ rules l no _ ih =>
    obtain ⟨before, after, rfl, only⟩ := ih hs
    refine ⟨rule₀ :: before, after, rfl, fun s' hs' rule' window threshold cmd' => ?_⟩
    exact (only s' hs' rule' window threshold cmd').imp_right (List.mem_cons_of_mem _)
  | @cons rule₀ rules l l' _ attempted _ ih =>
    rcases List.mem_append.1 hs with hs | hs
    · exact absurd stuck (attempted.not_stuck s hs)
    · obtain ⟨before, after, rfl, only⟩ := ih hs
      refine ⟨rule₀ :: before, after, rfl, fun s' hs' rule' window threshold cmd' => ?_⟩
      rcases List.mem_append.1 hs' with hs' | hs'
      · rcases attempted.own s' hs' with ⟨_, _, _, own⟩ | ⟨_, own⟩
        · rw [own] at cmd'
          cases cmd'
          exact .inr (List.mem_cons_self ..)
        · rw [own] at cmd'
          cases cmd'
      · exact (only s' hs' rule' window threshold cmd').imp_right (List.mem_cons_of_mem _)
  | @stop rule₀ rules l exc _ attempted =>
    have same : rule = rule₀ := by
      rcases attempted.own s hs with ⟨_, _, _, own⟩ | ⟨_, own⟩
      · rw [own] at cmd
        cases cmd
      · rw [own] at cmd
        cases cmd
        rfl
    subst same
    refine ⟨[], rules, rfl, fun s' hs' rule' window threshold cmd' => .inl ?_⟩
    rcases attempted.own s' hs' with ⟨_, _, _, own⟩ | ⟨_, own⟩
    · rw [own] at cmd'
      cases cmd'
      rfl
    · rw [own] at cmd'
      cases cmd'

/-- An alert of a threshold rule is fired at its crossings. -/
theorem Applied.fires (h : Applied cfg p e now rules t) (rule : AlertRule) :
    (∃ s ∈ t, crosses s = true ∧ ∃ window threshold, s.cmd = .count rule now window threshold) ↔
      ∃ s ∈ t, s.cmd = .fire rule e now true := by
  have attempt : ∀ {rule' l r}, Attempted cfg p e now rule' l r →
      ((∃ s ∈ l, crosses s = true ∧ ∃ window threshold, s.cmd = .count rule now window threshold) ↔
        ∃ s ∈ l, s.cmd = .fire rule e now true) := by
    intro rule' l r attempted
    cases attempted with
    | counted hw few =>
      refine iff_of_false ?_ ?_
      · rintro ⟨s, hs, full, -⟩
        rw [List.mem_singleton.1 hs] at full
        exact Bool.false_ne_true (few.symm.trans full)
      · rintro ⟨s, hs, cmd⟩
        rw [List.mem_singleton.1 hs] at cmd
        cases cmd
    | crossed hw full =>
      constructor
      · rintro ⟨s, hs, -, window, threshold, cmd⟩
        rcases List.mem_cons.1 hs with rfl | hs
        · cases cmd
          exact ⟨_, List.mem_cons_of_mem _ (List.mem_singleton_self _), rfl⟩
        · rw [List.mem_singleton.1 hs] at cmd
          cases cmd
      · rintro ⟨s, hs, cmd⟩
        rcases List.mem_cons.1 hs with rfl | hs
        · cases cmd
        · rw [List.mem_singleton.1 hs] at cmd
          cases cmd
          exact ⟨_, List.mem_cons_self .., full, _, _, rfl⟩
    | plain hw =>
      refine iff_of_false ?_ ?_
      · rintro ⟨s, hs, full, -⟩
        rw [List.mem_singleton.1 hs] at full
        cases full
      · rintro ⟨s, hs, cmd⟩
        rw [List.mem_singleton.1 hs] at cmd
        cases cmd
  induction h with
  | nil => exact iff_of_false (fun ⟨s, hs, _⟩ => List.not_mem_nil hs) fun ⟨s, hs, _⟩ => List.not_mem_nil hs
  | skip _ _ ih => exact ih
  | cons _ first _ ih =>
    simp only [List.mem_append, or_and_right, exists_or]
    exact or_congr (attempt first) ih
  | stop _ first => exact attempt first

end Missing

end NavigatorEventbus.Notification
