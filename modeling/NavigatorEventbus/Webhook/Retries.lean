import NavigatorEventbus.Lib.RelyGuarantee
import NavigatorEventbus.Webhook.Gate

/-!
# Retries of a delivery

A delivery is answered as a duplicate when its id is in the cache, and the id of a delivery enters the cache
before the stages that may still refuse it.  The answers are honest, an earlier delivery of the same id was
accepted or is in progress, in every run where the stages after the cache succeed for the deliveries that it
remembers and no two ids share a key (`retries_honest`).  A delivery that fails in one of these stages is
remembered all the same, and its retry is answered as a duplicate (`retry_refused`).
-/

namespace NavigatorEventbus.Webhook

open Interleave

open Bus (Exc Outcome)

/-- An earlier delivery with this id to this endpoint was answered with success or has no answer yet. -/
def Known (delivery : ℕ) (path key : Text) (before : History Event) : Prop :=
  ∃ q earlier, earlier ≠ delivery ∧ (q, .remembered earlier path key) ∈ before ∧
    ∀ q' success, (q', .ended earlier success) ∈ before → success = true

/-- Every delivery that was answered as a duplicate was known. -/
def Honest (log : History Event) : Prop :=
  log.Each fun _ e before =>
    match e with
    | .duplicate delivery path key => Known delivery path key before
    | _ => True

/-- The event that the cache remembers the id of a delivery. -/
def Event.Remembers (delivery : ℕ) : Event → Prop
  | .remembered n _ _ => n = delivery
  | _ => False

instance (delivery : ℕ) (e : Event) : Decidable (e.Remembers delivery) := by
  cases e <;> unfold Event.Remembers <;> infer_instance

/-- The id of a delivery was not in the cache, and entered it. -/
def State.Remembers (delivery : ℕ) (σ : State) : Prop := ∃ x ∈ σ.log, x.2.Remembers delivery

instance (delivery : ℕ) (σ : State) : Decidable (σ.Remembers delivery) :=
  inferInstanceAs (Decidable (∃ x ∈ σ.log, x.2.Remembers delivery))

/-- A remembered id that has this key in the cache is this id. -/
def Event.Distinct (path key : Text) : Event → Prop
  | .remembered _ path' key' => fullKey path' key' = fullKey path key → path' = path ∧ key' = key
  | _ => True

instance (path key : Text) (e : Event) : Decidable (e.Distinct path key) := by
  cases e <;> unfold Event.Distinct <;> infer_instance

/-- The delivery that a stage after the cache is for. -/
def Cmd.delivery : Cmd → Option ℕ
  | .parse delivery _ _ _ | .preprocess delivery _ _ _ | .classify delivery _ _ _ | .normalize delivery _ _ _ _
  | .task delivery _ _ _ | .build delivery _ _ | .dispatch delivery _ | .spawn delivery _ => some delivery
  | _ => none

/-- A stage does not refuse the delivery, and nothing that it calls fails. -/
def Succeeds (hook : Hook) (i : Input) (σ : State) : Cmd → Prop
  | .parse _ body contentType allowNonJson =>
    i.parser.isOk = true ∧ (parseBody body contentType allowNonJson).isSome = true
  | .preprocess _ endpoint payload _ => (runPreprocessor endpoint payload i.preprocessor).isOk = true
  | .classify _ request endpoint payload => (hook.classifyEvent request endpoint payload i).isOk = true
  | .normalize _ request endpoint payload eventType =>
    (hook.normalizePayload request endpoint payload eventType i).isOk = true
  | .task _ endpoint eventType payload => (hook.buildTask endpoint eventType payload i).isOk = true
  | .build _ (.obj _) event => event.hookType ∈ σ.hookTypes
  | .build _ _ _ => False
  | .dispatch _ _ => σ.callback = true → (State.onEvent i.callback).isOk = true
  | _ => True

instance (hook : Hook) (i : Input) (σ : State) (c : Cmd) : Decidable (Succeeds hook i σ c) :=
  match c with
  | .build _ (.obj _) _ => by dsimp only [Succeeds]; infer_instance
  | .build _ .null _ | .build _ (.bool _) _ | .build _ (.int _) _ | .build _ (.real _) _ | .build _ (.str _) _
  | .build _ (.arr _) _ => isFalse id
  | .parse _ _ _ _ | .preprocess _ _ _ _ | .classify _ _ _ _ | .normalize _ _ _ _ _ | .task _ _ _ _
  | .dispatch _ _ => by dsimp only [Succeeds]; infer_instance
  | .receive | .endpoint _ | .enter | .leave | .chunk | .verify _ _ _ _ | .duplicate _ _ _ | .spawn _ _ | .boot =>
    isTrue trivial

/-- The ids with one key are one id, and the stages of a request succeed when its id is remembered. -/
def Completes (hook : Hook) (_p : ℕ) (o : Call) (c : Cmd) (i : Input) (σ : State) : Prop :=
  match c with
  | .duplicate _ path key => ∀ x ∈ σ.log, x.2.Distinct path key
  | c => o.req.isSome = true → ∀ delivery ∈ c.delivery, σ.Remembers delivery → Succeeds hook i σ c

instance (hook : Hook) (p : ℕ) (o : Call) (c : Cmd) (i : Input) (σ : State) :
    Decidable (Completes hook p o c i σ) := by
  unfold Completes
  split <;> infer_instance

section Runs

variable {hook : Hook} {p q delivery : ℕ} {o : Call} {c : Cmd} {i : Input} {σ σ' : State}

/-! ## What a command changes -/

/-- The delivery whose beginning, id or end an event records. -/
def Event.number : Event → Option ℕ
  | .received n | .remembered n _ _ | .ended n _ => some n
  | _ => none

/-- What a command changes of the history and of the cache. -/
inductive Changes (p : ℕ) (σ : State) : Cmd → State → Prop where
  | quiet {c : Cmd} {σ' : State} (log : σ'.log = σ.log) (dedup : σ'.dedup = σ.dedup)
      (deliveries : σ'.deliveries = σ.deliveries) : Changes p σ c σ'
  | received {σ' : State} (log : σ'.log = (p, .received σ.deliveries) :: σ.log) (dedup : σ'.dedup = σ.dedup)
      (deliveries : σ'.deliveries = σ.deliveries + 1) : Changes p σ .receive σ'
  | noted {c : Cmd} {σ' : State} {e : Event} (number : e.number = none)
      (other : ∀ delivery path key, e ≠ .duplicate delivery path key) (log : σ'.log = (p, e) :: σ.log)
      (dedup : σ'.dedup = σ.dedup) (deliveries : σ'.deliveries = σ.deliveries) : Changes p σ c σ'
  | duplicate {delivery : ℕ} {path key : Text} {σ' : State}
      (found : ∃ entry ∈ σ.dedup, entry.1 = fullKey path key)
      (log : σ'.log = (p, .duplicate delivery path key) :: σ.log) (dedup : ∀ entry ∈ σ'.dedup, entry ∈ σ.dedup)
      (deliveries : σ'.deliveries = σ.deliveries) : Changes p σ (.duplicate delivery path key) σ'
  | remembered {delivery : ℕ} {path key : Text} {σ' : State}
      (log : σ'.log = (p, .remembered delivery path key) :: σ.log)
      (dedup : ∀ entry ∈ σ'.dedup, entry ∈ σ.dedup ∨ entry.1 = fullKey path key)
      (deliveries : σ'.deliveries = σ.deliveries) : Changes p σ (.duplicate delivery path key) σ'

theorem DedupCache.mem_of_prune {cache : DedupCache} {ttl : ℕ} {now : ℚ} {entry : Text × ℚ}
    (h : entry ∈ cache.prune ttl now) : entry ∈ cache :=
  (List.dropWhile_suffix _).mem h

theorem DedupCache.found_of_check {cache : DedupCache} {ttl size : ℕ} {now : ℚ} {key : Text}
    (h : (cache.check ttl size now key).1 = true) : ∃ entry ∈ cache, entry.1 = key := by
  unfold DedupCache.check at h
  dsimp only at h
  split_ifs at h with found
  obtain ⟨entry, mem, hkey⟩ := found
  exact ⟨entry, mem_of_prune mem, hkey⟩

theorem DedupCache.mem_of_check {cache : DedupCache} {ttl size : ℕ} {now : ℚ} {key : Text} {entry : Text × ℚ}
    (h : entry ∈ (cache.check ttl size now key).2) :
    entry ∈ cache ∨ (cache.check ttl size now key).1 = false ∧ entry.1 = key := by
  unfold DedupCache.check at h ⊢
  dsimp only at h ⊢
  split_ifs at h ⊢
  · exact .inl (mem_of_prune h)
  · rcases List.mem_append.1 ((List.drop_suffix _ _).mem h) with h | h
    · exact .inl (mem_of_prune h)
    · rw [List.mem_singleton.1 h]
      exact .inr ⟨rfl, rfl⟩

theorem changes_duplicate (path key : Text) :
    Changes p σ (.duplicate delivery path key) (σ.duplicate hook p delivery path key i).2 := by
  cases hr : (σ.dedup.check hook.dedupTtl hook.dedupCacheSize i.monotonic (fullKey path key)).1 with
  | true =>
    refine .duplicate (DedupCache.found_of_check hr) ?_ (fun entry mem => ?_) rfl
    · simp [State.duplicate, State.record, hr]
    · rcases DedupCache.mem_of_check mem with mem | ⟨fresh, -⟩
      · exact mem
      · rw [hr] at fresh
        cases fresh
  | false =>
    refine .remembered ?_ (fun entry mem => ?_) rfl
    · simp [State.duplicate, State.record, hr]
    · exact (DedupCache.mem_of_check mem).imp_right And.right

/-- What a command can do to the history and to the cache. -/
theorem changes (c : Cmd) : Changes p σ c (σ.exec hook p c i).2 := by
  cases c with
  | receive => exact .received rfl rfl rfl
  | duplicate delivery path key => exact changes_duplicate path key
  | enter =>
    simp only [State.exec]
    split_ifs <;> exact .quiet rfl rfl rfl
  | leave =>
    simp only [State.exec]
    split_ifs <;> exact .quiet rfl rfl rfl
  | verify delivery request endpoint body =>
    simp only [State.exec, State.verify]
    split
    · dsimp only
      split
      · exact .noted (e := .verified delivery) rfl (fun _ _ _ h => by cases h) rfl rfl rfl
      · exact .quiet rfl rfl rfl
    · exact .quiet rfl rfl rfl
  | dispatch delivery event =>
    simp only [State.exec]
    split_ifs
    · exact .noted (e := .dispatched delivery) rfl (fun _ _ _ h => by cases h) rfl rfl rfl
    · exact .quiet rfl rfl rfl
  | boot =>
    simp only [State.exec]
    split <;> exact .quiet rfl rfl rfl
  | _ => exact .quiet rfl rfl rfl

/-! ## Deliveries in progress -/

/-- The task `p` has received a delivery, which has no answer yet. -/
structure Live (p delivery : ℕ) (σ : State) : Prop where
  received : (p, .received delivery) ∈ σ.log
  unanswered : ∀ q success, (q, .ended delivery success) ∉ σ.log

/-- What the task `p` knows of its deliveries stays so. -/
def Stays (p : ℕ) (σ σ' : State) : Prop :=
  ∀ delivery, Live p delivery σ → Live p delivery σ' ∧ (σ'.Remembers delivery → σ.Remembers delivery)

theorem Stays.refl (p : ℕ) (σ : State) : Stays p σ σ := fun _ live => ⟨live, id⟩

theorem Stays.trans {σ'' : State} (first : Stays p σ σ') (second : Stays p σ' σ'') : Stays p σ σ'' := by
  intro delivery live
  obtain ⟨live₁, old₁⟩ := first delivery live
  obtain ⟨live₂, old₂⟩ := second delivery live₁
  exact ⟨live₂, old₁ ∘ old₂⟩

theorem Stays.of_log (log : σ'.log = σ.log) : Stays p σ σ' := by
  intro delivery live
  refine ⟨⟨?_, ?_⟩, ?_⟩
  · rw [log]
    exact live.received
  · rw [log]
    exact live.unanswered
  · rintro ⟨x, mem, remembers⟩
    rw [log] at mem
    exact ⟨x, mem, remembers⟩

/-- An event that neither answers nor remembers what is in progress. -/
theorem Stays.of_cons {e : Event} (log : σ'.log = (q, e) :: σ.log)
    (answers : ∀ n success, e = .ended n success → ¬ Live p n σ)
    (remembers : ∀ n path key, e = .remembered n path key → ¬ Live p n σ) : Stays p σ σ' := by
  intro delivery live
  refine ⟨⟨?_, fun q' success mem => ?_⟩, ?_⟩
  · rw [log]
    exact List.mem_cons_of_mem _ live.received
  · rw [log] at mem
    rcases List.mem_cons.1 mem with heq | mem
    · exact answers delivery success (Prod.mk.inj heq).2.symm live
    · exact live.unanswered q' success mem
  · rintro ⟨x, mem, hx⟩
    rw [log] at mem
    rcases List.mem_cons.1 mem with rfl | mem
    · cases e with
      | remembered n path key =>
        cases hx
        exact absurd live (remembers _ path key rfl)
      | _ => cases hx
    · exact ⟨x, mem, hx⟩

theorem Stays.of_number {e : Event} (log : σ'.log = (q, e) :: σ.log) (number : e.number = none) :
    Stays p σ σ' := by
  refine .of_cons log ?_ ?_
  · rintro n success rfl
    cases number
  · rintro n path key rfl
    cases number

/-! ## The invariant -/

/-- The numbers of the deliveries are fresh, the cache holds the ids of remembered deliveries, none of
which has failed, and the answers are honest. -/
structure Accounted (σ : State) : Prop where
  fresh : ∀ x ∈ σ.log, ∀ n ∈ x.2.number, n < σ.deliveries
  unique : ∀ {p q n}, (p, .received n) ∈ σ.log → (q, .received n) ∈ σ.log → p = q
  cached : ∀ entry ∈ σ.dedup, ∃ q n path key,
    (q, .remembered n path key) ∈ σ.log ∧ fullKey path key = entry.1
  accepted : ∀ {q n}, (q, .ended n false) ∈ σ.log → ¬ σ.Remembers n
  honest : Honest σ.log

/-- A command that looks up an id does so for a delivery in progress that is not remembered. -/
def Guarded (p : ℕ) (c : Cmd) (σ : State) : Prop :=
  ∀ delivery path key, c = .duplicate delivery path key → Live p delivery σ ∧ ¬ σ.Remembers delivery

/-- The answer of a request is a success, or its delivery is not remembered. -/
def Settled (p : ℕ) (r : Option ℕ × Outcome (Option Response)) (σ : State) : Prop :=
  ∀ delivery ∈ r.1, Live p delivery σ ∧ (σ.Remembers delivery → ∃ a, r.2 = .ok (some a) ∧ a.Success)

namespace Accounted

theorem quiet (h : Accounted σ) (log : σ'.log = σ.log) (dedup : σ'.dedup = σ.dedup)
    (deliveries : σ'.deliveries = σ.deliveries) : Accounted σ' := by
  obtain ⟨fresh, unique, cached, accepted, honest⟩ := h
  refine ⟨?_, ?_, ?_, ?_, ?_⟩
  · rwa [log, deliveries]
  · rwa [log]
  · rwa [log, dedup]
  · unfold State.Remembers
    rwa [log]
  · rwa [log]

/-- What a new event has to satisfy. -/
theorem cons {e : Event} (h : Accounted σ) (log : σ'.log = (p, e) :: σ.log) (le : σ.deliveries ≤ σ'.deliveries)
    (fresh : ∀ n ∈ e.number, n < σ'.deliveries) (unique : ∀ n, e = .received n → ∀ q, (q, .received n) ∉ σ.log)
    (cached : ∀ entry ∈ σ'.dedup, entry ∈ σ.dedup ∨
      ∃ n path key, e = .remembered n path key ∧ fullKey path key = entry.1)
    (remembered : ∀ n path key, e = .remembered n path key → ∀ q, (q, .ended n false) ∉ σ.log)
    (ended : ∀ n, e = .ended n false → ¬ σ.Remembers n)
    (honest : ∀ n path key, e = .duplicate n path key → Known n path key σ.log) : Accounted σ' where
  fresh x mem n hn := by
    rw [log] at mem
    rcases List.mem_cons.1 mem with rfl | mem
    · exact fresh n hn
    · exact (h.fresh x mem n hn).trans_le le
  unique {p' q n} hp hq := by
    rw [log] at hp hq
    rcases List.mem_cons.1 hp with heq | hp <;> rcases List.mem_cons.1 hq with heq' | hq
    · rw [(Prod.mk.inj heq).1, (Prod.mk.inj heq').1]
    · exact absurd hq (unique n (Prod.mk.inj heq).2.symm q)
    · exact absurd hp (unique n (Prod.mk.inj heq').2.symm p')
    · exact h.unique hp hq
  cached entry mem := by
    rw [log]
    rcases cached entry mem with mem | ⟨n, path, key, rfl, hkey⟩
    · obtain ⟨q, n, path, key, mem, hkey⟩ := h.cached entry mem
      exact ⟨q, n, path, key, List.mem_cons_of_mem _ mem, hkey⟩
    · exact ⟨p, n, path, key, List.mem_cons_self .., hkey⟩
  accepted {q n} mem := by
    rintro ⟨x, hx, remembers⟩
    rw [log] at mem hx
    rcases List.mem_cons.1 mem with heq | old <;> rcases List.mem_cons.1 hx with rfl | hx
    · rw [← (Prod.mk.inj heq).2] at remembers
      cases remembers
    · exact ended n (Prod.mk.inj heq).2.symm ⟨x, hx, remembers⟩
    · cases e with
      | remembered m path key =>
        cases remembers
        exact remembered _ path key rfl q old
      | _ => cases remembers
    · exact h.accepted old ⟨x, hx, remembers⟩
  honest := by
    rw [log]
    refine History.Each.cons h.honest ?_
    cases e with
    | duplicate n path key => exact honest n path key rfl
    | _ => trivial

/-- An id whose key is in the cache belongs to an earlier delivery. -/
theorem known (h : Accounted σ) {path key : Text} (distinct : ∀ x ∈ σ.log, x.2.Distinct path key)
    (new : ¬ σ.Remembers delivery) (found : ∃ entry ∈ σ.dedup, entry.1 = fullKey path key) :
    Known delivery path key σ.log := by
  obtain ⟨entry, mem, hkey⟩ := found
  obtain ⟨q, earlier, path', key', remembered, hkey'⟩ := h.cached entry mem
  obtain ⟨rfl, rfl⟩ := distinct _ remembered (hkey'.trans hkey)
  refine ⟨q, earlier, ?_, remembered, fun q' success ended => ?_⟩
  · rintro rfl
    exact new ⟨_, remembered, rfl⟩
  · cases success with
    | true => rfl
    | false => exact absurd ⟨_, remembered, rfl⟩ (h.accepted ended)

theorem exec (h : Accounted σ) (ok : Completes hook p o c i σ) (guard : Guarded p c σ) :
    Accounted (σ.exec hook p c i).2 := by
  generalize hσ' : (σ.exec hook p c i).2 = σ'
  have change := @changes hook p i σ c
  rw [hσ'] at change
  cases change with
  | quiet log dedup deliveries => exact h.quiet log dedup deliveries
  | received log dedup deliveries =>
    refine h.cons log (by omega) ?_ ?_ (fun entry mem => .inl (dedup ▸ mem)) nofun nofun nofun
    · rintro n ⟨rfl⟩
      omega
    · rintro n ⟨rfl⟩ q mem
      exact absurd (h.fresh _ mem _ rfl) (Nat.lt_irrefl _)
  | noted number other log dedup deliveries =>
    refine h.cons log deliveries.ge ?_ ?_ (fun entry mem => .inl (dedup ▸ mem)) ?_ ?_ ?_
    · rw [number]
      nofun
    · rintro n rfl
      cases number
    · rintro n path key rfl
      cases number
    · rintro n rfl
      cases number
    · exact fun n path key heq => absurd heq (other n path key)
  | duplicate found log dedup deliveries =>
    refine h.cons log deliveries.ge nofun nofun (fun entry mem => .inl (dedup entry mem)) nofun nofun ?_
    rintro n path key ⟨rfl⟩
    exact h.known ok (guard _ _ _ rfl).2 found
  | remembered log dedup deliveries =>
    obtain ⟨live, new⟩ := guard _ _ _ rfl
    refine h.cons log deliveries.ge ?_ nofun (fun entry mem => ?_) ?_ nofun nofun
    · rintro n ⟨rfl⟩
      rw [deliveries]
      exact h.fresh _ live.received _ rfl
    · exact (dedup entry mem).imp_right fun hkey => ⟨_, _, _, rfl, hkey.symm⟩
    · rintro n path key ⟨rfl⟩ q mem
      exact live.unanswered q false mem

theorem ended (h : Accounted σ) {success : Bool} (live : Live p delivery σ)
    (settled : σ.Remembers delivery → success = true) : Accounted (σ.record p (.ended delivery success)) := by
  refine h.cons rfl le_rfl ?_ nofun (fun entry mem => .inl mem) nofun ?_ nofun
  · rintro n ⟨rfl⟩
    exact h.fresh _ live.received _ rfl
  · rintro n ⟨rfl, rfl⟩ remembers
    cases settled remembers

theorem note (h : Accounted σ) {r : Option ℕ × Outcome (Option Response)} (settled : Settled p r σ) :
    Accounted (σ.note p r) := by
  obtain ⟨n, r⟩ := r
  cases n with
  | none => exact h
  | some n =>
    obtain ⟨live, success⟩ := settled n rfl
    rcases r with exc | (_ | a)
    · refine h.ended live fun remembers => ?_
      obtain ⟨a, heq, -⟩ := success remembers
      cases heq
    · refine h.ended live fun remembers => ?_
      obtain ⟨a, heq, -⟩ := success remembers
      cases heq
    · refine h.ended live fun remembers => ?_
      obtain ⟨a, ⟨rfl⟩, success⟩ := success remembers
      exact decide_eq_true success

theorem disturb (h : Accounted σ) (d : Disturbance) : Accounted (σ.disturb d) := by
  cases d <;> exact h.quiet rfl rfl rfl

end Accounted

/-! ## The contract -/

/-- The contract of the requests. -/
def rules (hook : Hook) : Contract (receiver hook) where
  Inv := Accounted
  Ok := Completes hook
  Guard p _ c _ σ := Guarded p c σ
  Post p _ r σ := Settled p r σ
  inv_exec inv ok guard := inv.exec ok guard
  inv_note inv post := inv.note post
  inv_disturb d inv := inv.disturb d

/-- Another task does not answer or remember the deliveries of this one. -/
theorem not_live (h : Accounted σ) (ne : q ≠ p) (other : Live q delivery σ) : ¬ Live p delivery σ :=
  fun live => ne (h.unique other.received live.received)

theorem stays_note {r : Option ℕ × Outcome (Option Response)} (h : Accounted σ) (ne : q ≠ p)
    (settled : Settled q r σ) : Stays p σ (σ.note q r) := by
  obtain ⟨n, r⟩ := r
  cases n with
  | none => exact .refl p σ
  | some n =>
    have other := not_live h ne (settled n rfl).1
    rcases r with exc | (_ | a)
    all_goals
      refine .of_cons rfl ?_ nofun
      rintro m success ⟨rfl, -⟩
      exact other

/-- A command changes nothing for a task but by remembering a delivery of its own. -/
theorem Changes.stays (h : Changes q σ c σ')
    (other : ∀ delivery path key, c = .duplicate delivery path key → ¬ Live p delivery σ) : Stays p σ σ' := by
  cases h with
  | quiet log => exact .of_log log
  | received log => exact .of_cons log nofun nofun
  | noted number _ log => exact .of_number log number
  | duplicate _ log => exact .of_number log rfl
  | remembered log =>
    refine .of_cons log nofun ?_
    rintro n path key ⟨rfl⟩
    exact other _ _ _ rfl

theorem stays (h : (rules hook).Rely p σ σ') : Stays p σ σ' := by
  refine Contract.Rely.le (rules hook) (R := Stays p) (Stays.refl p) Stays.trans ?_ h
  intro σ σ' h
  cases h with
  | exec ne inv ok guard =>
    refine (changes _).stays ?_
    rintro n path key rfl
    exact not_live inv ne (guard _ _ _ rfl).1
  | note ne inv post => exact stays_note inv ne post
  | disturb d => cases d <;> exact .of_log rfl

/-! ## The programs -/

section Safe

variable {α : Type} {request : Request} {endpoint : WebhookEndpointConfig} {Q : α → State → Prop}

/-- A program is safe when it is from every state that the others may lead to. -/
theorem safe_op {k : c.Reply → Coro α} (rest : ∀ σ' i, Stays p σ σ' → Accounted σ' →
      Completes hook p o c i σ' → Guarded p c σ' ∧
        (rules hook).Safe p o (k (σ'.exec hook p c i).1) Q (σ'.exec hook p c i).2) :
    (rules hook).Safe p o (Prog.op c k) Q σ :=
  fun σ' hR inv i ok => rest σ' i (stays hR) inv ok

/-- The task has received a delivery, which has no answer yet and is not remembered. -/
def Fresh (p delivery : ℕ) (σ : State) : Prop := Live p delivery σ ∧ ¬ σ.Remembers delivery

theorem Fresh.stays (h : Fresh p delivery σ) (hs : Stays p σ σ') : Fresh p delivery σ' :=
  ⟨(hs delivery h.1).1, h.2 ∘ (hs delivery h.1).2⟩

/-- The response of a delivery is a success, or the delivery is not remembered. -/
def Answers (p delivery : ℕ) (r : Outcome Response) (σ : State) : Prop :=
  Live p delivery σ ∧ (σ.Remembers delivery → ∃ a, r = .ok a ∧ a.Success)

theorem Fresh.answers (h : Fresh p delivery σ) (r : Outcome Response) : Answers p delivery r σ :=
  ⟨h.1, fun remembers => absurd remembers h.2⟩

theorem Live.answers (h : Live p delivery σ) {a : Response} (success : a.Success) :
    Answers p delivery (.ok a) σ :=
  ⟨h, fun _ => ⟨a, rfl, success⟩⟩

theorem Answers.stays {r : Outcome Response} (h : Answers p delivery r σ) (hs : Stays p σ σ') :
    Answers p delivery r σ' :=
  ⟨(hs delivery h.1).1, h.2 ∘ (hs delivery h.1).2⟩

theorem safe_answer {r : Outcome Response} (h : Answers p delivery r σ) :
    (rules hook).Safe p o (Prog.pure r : Coro (Outcome Response)) (Answers p delivery) σ :=
  fun _ hR _ => h.stays (stays hR)

/-- A stage after the cache: its delivery stays in progress, and when it fails the delivery was not
remembered. -/
theorem safe_stage {k : c.Reply → Coro α} (hc : c.delivery = some delivery) (ho : o.req.isSome = true)
    (live : Live p delivery σ) (rest : ∀ σ' i, Live p delivery (σ'.exec hook p c i).2 →
      (¬ Succeeds hook i σ' c → Fresh p delivery (σ'.exec hook p c i).2) →
        (rules hook).Safe p o (k (σ'.exec hook p c i).1) Q (σ'.exec hook p c i).2) :
    (rules hook).Safe p o (Prog.op c k) Q σ := by
  have stage : ∀ n path key, c ≠ .duplicate n path key := by
    rintro n path key rfl
    cases hc
  refine safe_op fun σ' i hs inv ok => ⟨fun n path key heq => absurd heq (stage n path key), ?_⟩
  have live' := (hs delivery live).1
  have next : Stays p σ' (σ'.exec hook p c i).2 :=
    (changes c).stays fun n path key heq => absurd heq (stage n path key)
  refine rest σ' i (next delivery live').1 fun fails => Fresh.stays ⟨live', fun remembers => fails ?_⟩ next
  unfold Completes at ok
  split at ok
  · exact absurd rfl (stage _ _ _)
  · exact ok ho delivery hc remembers

/-- After a stage its delivery is in progress, and when it failed the delivery is not remembered. -/
def Staged (p delivery : ℕ) (r : Outcome α) (σ : State) : Prop :=
  Live p delivery σ ∧ (r.isOk = false → Fresh p delivery σ)

theorem safe_staged {r : Outcome α} (live : Live p delivery σ) (fails : r.isOk = false → Fresh p delivery σ) :
    (rules hook).Safe p o (Prog.pure r : Coro (Outcome α)) (Staged p delivery) σ :=
  fun _ hR _ => ⟨(stays hR delivery live).1, fun h => (fails h).stays (stays hR)⟩

theorem safe_eventType {pre : PreprocessResult} (ho : o.req.isSome = true) (live : Live p delivery σ) :
    (rules hook).Safe p o (Hook.eventType delivery request endpoint pre) (Staged p delivery) σ := by
  unfold Hook.eventType
  split
  · exact safe_staged live fun failed => by cases failed
  · refine safe_stage rfl ho live fun σ' i live' fails => ?_
    simp only [State.exec, Succeeds] at live' fails ⊢
    cases hr : hook.classifyEvent request endpoint pre.payload i with
    | error exc => exact safe_staged live' fun _ => fails (by simp [hr, Except.isOk, Except.toBool])
    | ok classified =>
      cases classified with
      | none => exact safe_staged live' fun failed => by cases failed
      | some classified =>
        split <;> exact safe_staged live' fun failed => by cases failed

theorem safe_eventTask {pre : PreprocessResult} {eventType : Text} {payload : Json} (ho : o.req.isSome = true)
    (live : Live p delivery σ) :
    (rules hook).Safe p o (Hook.eventTask delivery endpoint pre eventType payload) (Staged p delivery) σ := by
  unfold Hook.eventTask
  split
  · exact safe_staged live nofun
  · refine safe_stage rfl ho live fun σ' i live' fails => safe_staged live' fun failed => fails ?_
    simp only [State.exec] at failed
    simp [Succeeds, failed]

theorem safe_deliver {event : HookEvent} (ho : o.req.isSome = true) (live : Live p delivery σ) :
    (rules hook).Safe p o (hook.deliver delivery event) (Staged p delivery) σ := by
  unfold Hook.deliver
  split_ifs
  · exact safe_stage rfl ho live fun σ' i live' _ => safe_staged live' nofun
  · refine safe_stage rfl ho live fun σ' i live' fails => safe_staged live' fun failed => fails ?_
    simp only [State.exec] at failed
    split_ifs at failed with callback
    · simp [Succeeds, callback, failed]
    · cases failed

theorem safe_emit {pre : PreprocessResult} (ho : o.req.isSome = true) (live : Live p delivery σ) :
    (rules hook).Safe p o (hook.emit delivery request endpoint pre) (Answers p delivery) σ := by
  unfold Hook.emit
  refine Contract.Safe.bind ((safe_eventType ho live).mono fun r σ₁ _ h₁ => ?_)
  cases r with
  | error exc => exact safe_answer ((h₁.2 rfl).answers _)
  | ok eventType =>
    cases eventType with
    | none => exact safe_answer (h₁.1.answers (by decide))
    | some eventType =>
      refine safe_stage rfl ho h₁.1 fun σ₂ i₂ h₂ fails₂ => ?_
      simp only [State.exec, Succeeds] at h₂ fails₂ ⊢
      cases hr₂ : hook.normalizePayload request endpoint pre.payload eventType i₂ with
      | error exc => exact safe_answer ((fails₂ (by simp [hr₂, Except.isOk, Except.toBool])).answers _)
      | ok payload =>
        simp only [Prog.bind]
        refine Contract.Safe.bind ((safe_eventTask ho h₂).mono fun r σ₃ _ h₃ => ?_)
        cases r with
        | error exc => exact safe_answer ((h₃.2 rfl).answers _)
        | ok task =>
          refine safe_stage rfl ho h₃.1 fun σ₄ i₄ h₄ fails₄ => ?_
          cases payload with
          | obj members =>
            simp only [State.exec, Succeeds] at h₄ fails₄ ⊢
            split_ifs with known
            · simp only [Prog.bind]
              refine Contract.Safe.bind ((safe_deliver ho h₄).mono fun r σ₅ _ h₅ => ?_)
              cases r with
              | error exc => exact safe_answer ((h₅.2 rfl).answers _)
              | ok => exact safe_answer (h₅.1.answers (by simp [Hook.accepted, Response.Success]))
            · exact safe_answer ((fails₄ known).answers _)
          | _ => exact safe_answer ((fails₄ fun done => by cases done).answers _)

theorem safe_isDuplicate (fresh : Fresh p delivery σ) :
    (rules hook).Safe p o (hook.isDuplicate delivery request endpoint) (fun _ => Live p delivery) σ := by
  have same : ∀ {σ} (b : Bool), Live p delivery σ →
      (rules hook).Safe p o (Prog.pure b : Coro Bool) (fun _ => Live p delivery) σ :=
    fun _ live _ hR _ => (stays hR delivery live).1
  unfold Hook.isDuplicate
  split_ifs
  · exact same _ fresh.1
  · split
    · exact same _ fresh.1
    · exact same _ fresh.1
    · refine safe_op fun σ' i hs inv _ => ?_
      have fresh' := fresh.stays hs
      refine ⟨?_, same _ ?_⟩
      · rintro n path key ⟨rfl⟩
        exact fresh'
      · refine ⟨?_, fun q success mem => ?_⟩
        · exact List.mem_cons_of_mem _ fresh'.1.received
        · rcases List.mem_cons.1 mem with heq | mem
          · have heq := (Prod.mk.inj heq).2
            split_ifs at heq
          · exact fresh'.1.unanswered q success mem

theorem safe_process {body : Bytes} (ho : o.req.isSome = true) (fresh : Fresh p delivery σ) :
    (rules hook).Safe p o (hook.process delivery request endpoint body) (Answers p delivery) σ := by
  unfold Hook.process
  refine Contract.Safe.bind ((safe_isDuplicate fresh).mono fun found σ₁ _ h₁ => ?_)
  cases found with
  | true => exact safe_answer (h₁.answers (by decide))
  | false =>
    refine safe_stage rfl ho h₁ fun σ₂ i₂ h₂ fails₂ => ?_
    simp only [State.exec, Succeeds] at h₂ fails₂ ⊢
    cases hp₂ : i₂.parser with
    | error exc => exact safe_answer ((fails₂ (by simp [hp₂, Except.isOk, Except.toBool])).answers _)
    | ok =>
      cases hr₂ : parseBody body _ endpoint.allowNonJson with
      | none =>
        refine safe_answer ((fails₂ fun done => ?_).answers _)
        rw [hr₂] at done
        cases done.2
      | some payload =>
        refine safe_stage rfl ho h₂ fun σ₃ i₃ h₃ fails₃ => ?_
        simp only [State.exec, Succeeds] at h₃ fails₃ ⊢
        cases hr₃ : runPreprocessor endpoint payload i₃.preprocessor with
        | error exc => exact safe_answer ((fails₃ (by simp [hr₃, Except.isOk, Except.toBool])).answers _)
        | ok pre =>
          simp only [Prog.bind]
          split_ifs
          · exact safe_answer (h₃.answers (by decide))
          · exact safe_emit ho h₃

theorem safe_checkRequest (fresh : Fresh p delivery σ) :
    (rules hook).Safe p o (hook.checkRequest delivery request endpoint) (fun _ => Fresh p delivery) σ := by
  have plain : ∀ {c}, ¬ Cmd.Uses c → ∀ n path key, c ≠ .duplicate n path key := by
    rintro c unused n path key rfl
    exact unused trivial
  refine Contract.Safe.of_all (C := fun c => ¬ Cmd.Uses c) (fun hR h => h.stays (stays hR)) ?_ ?_ unused_checkRequest fresh
  · exact fun unused _ _ _ n path key heq => absurd heq (plain unused n path key)
  · exact fun unused _ _ h =>
      h.stays ((changes _).stays fun n path key heq => absurd heq (plain unused n path key))

theorem safe_guardedIngest (ho : o.req.isSome = true) (fresh : Fresh p delivery σ) :
    (rules hook).Safe p o (hook.guardedIngest delivery request endpoint) (Answers p delivery) σ := by
  have ingest : (rules hook).Safe p o (hook.ingest delivery request endpoint) (Answers p delivery) σ := by
    refine Contract.Safe.bind ((safe_checkRequest fresh).mono fun r σ₁ _ h₁ => ?_)
    match r with
    | .error exc => exact safe_answer (h₁.answers _)
    | .ok (.refused r) => exact safe_answer (h₁.answers _)
    | .ok (.admitted body) => exact safe_process ho h₁
  refine Contract.Safe.bind (ingest.mono fun r σ₁ _ h₁ => ?_)
  cases r with
  | ok r => exact safe_answer h₁
  | error exc =>
    refine safe_answer ⟨h₁.1, fun remembers => ?_⟩
    obtain ⟨a, heq, -⟩ := h₁.2 remembers
    cases heq

theorem safe_handleWebhook (ho : o.req.isSome = true) (fresh : Fresh p delivery σ) :
    (rules hook).Safe p o (hook.handleWebhook delivery request) (Answers p delivery) σ := by
  refine safe_op fun σ₁ i₁ hs₁ _ _ => ⟨(fun _ _ _ h => by cases h), ?_⟩
  have fresh₁ := fresh.stays hs₁
  simp only [State.exec, Prog.bind]
  cases σ₁.endpoints.lookup request.endpointKey with
  | none => exact safe_answer (fresh₁.answers _)
  | some endpoint =>
    refine safe_op fun σ₂ i₂ hs₂ _ _ => ⟨(fun _ _ _ h => by cases h), ?_⟩
    have fresh₂ := (fresh₁.stays hs₂).stays ((@changes hook p i₂ _ .enter).stays fun _ _ _ h => by cases h)
    cases (σ₂.exec hook p .enter i₂).1 with
    | false => exact safe_answer (fresh₂.answers _)
    | true =>
      simp only [Prog.bind, if_true]
      refine Contract.Safe.bind ((safe_guardedIngest ho fresh₂).mono fun r σ₃ _ h₃ => ?_)
      refine safe_op fun σ₄ i₄ hs₄ _ _ => ⟨(fun _ _ _ h => by cases h), safe_answer ?_⟩
      exact (h₃.stays hs₄).stays ((changes _).stays fun _ _ _ h => by cases h)

/-- The handler of a request: its delivery gets a number of its own first. -/
theorem safe_request {handle : ℕ → Coro (Outcome Response)}
    (safe : ∀ delivery σ, Fresh p delivery σ → (rules hook).Safe p o (handle delivery) (Answers p delivery) σ) :
    (rules hook).Safe p o (do
      let delivery ← Cmd.receive.await
      let r ← handle delivery
      return (some delivery, r.map some)) (Settled p) σ := by
  refine safe_op fun σ₁ i₁ _ inv _ => ⟨nofun, ?_⟩
  have fresh : Fresh p σ₁.deliveries (σ₁.exec hook p .receive i₁).2 := by
    refine ⟨⟨List.mem_cons_self .., fun q success mem => ?_⟩, ?_⟩
    · rcases List.mem_cons.1 mem with heq | mem
      · cases (Prod.mk.inj heq).2
      · exact absurd (inv.fresh _ mem _ rfl) (Nat.lt_irrefl _)
    · rintro ⟨x, mem, remembers⟩
      rcases List.mem_cons.1 mem with rfl | mem
      · cases remembers
      · obtain ⟨q, e⟩ := x
        cases e with
        | remembered n path key =>
          cases remembers
          exact absurd (inv.fresh _ mem _ rfl) (Nat.lt_irrefl _)
        | _ => cases remembers
  simp only [State.exec, Prog.bind] at fresh ⊢
  refine Contract.Safe.bind ((safe _ _ fresh).mono fun r σ₂ _ h₂ σ₃ hR _ => ?_)
  rintro delivery ⟨rfl⟩
  have h₃ := h₂.stays (stays hR)
  refine ⟨h₃.1, fun remembers => ?_⟩
  obtain ⟨a, rfl, success⟩ := h₃.2 remembers
  exact ⟨a, rfl, success⟩

theorem safe_code (o : Call) : (rules hook).Safe p o (o.code hook) (Settled p) σ := by
  cases o with
  | webhook request => exact safe_request fun delivery σ fresh => safe_handleWebhook rfl fresh
  | post request endpoint => exact safe_request fun delivery σ fresh => safe_guardedIngest rfl fresh
  | background =>
    have task : (rules hook).Safe p .background Hook.backgroundTask (fun _ _ => True) σ := by
      refine safe_op fun σ₁ i₁ _ _ _ => ⟨(fun _ _ _ h => by cases h), ?_⟩
      simp only [Prog.bind]
      cases (σ₁.exec hook p .boot i₁).1 with
      | none => exact fun _ _ _ => trivial
      | some first => exact safe_op fun σ₂ i₂ _ _ _ => ⟨(fun _ _ _ h => by cases h), fun _ _ _ => trivial⟩
    exact Contract.Safe.bind (task.mono fun r _ _ _ _ _ _ _ h => by cases h)

end Safe

theorem rules_kept : (rules hook).Kept (fun _ _ _ => True) (fun _ => True) where
  idle _ _ := trivial
  call _ _ _ _ := safe_code _
  phase _ _ := trivial
  stable _ _ := trivial

end Runs

/-- When the stages after the cache succeed for the deliveries that it remembers, and their ids have keys of
their own, every answer that a delivery is a duplicate is honest: in every run, an earlier delivery of this
id to this endpoint was answered with success or has no answer yet. -/
theorem retries_honest (hook : Hook) {P : Pool (receiver hook)}
    (hr : Pool.Reach (Pool.Meets (Completes hook)) hook.new P) : Honest P.shared.log := by
  have within : (rules hook).Within (fun _ _ _ => True) (fun _ => True) hook.new := by
    refine ⟨⟨nofun, nofun, nofun, nofun, .nil _⟩, fun _ => trivial, fun _ => trivial, nofun⟩
  refine (Contract.sound rules_kept within (hr.mono fun Q a ha => ?_)).inv.honest
  cases a with
  | exec => exact fun o c k hp _ => ha o c k hp
  | _ => trivial

namespace Retry

/-- A receiver that remembers delivery ids for a minute. -/
def hook : Hook where
  dedupTtl := 60
  hookId := "h".toList
  classifyEvent := Webhook.classifyEvent
  normalizePayload := Webhook.normalizePayload
  buildTask := Webhook.buildTask
  dedupCacheSize_pos := Signed.hook.dedupCacheSize_pos

/-- An endpoint that takes JSON only. -/
def endpoint : WebhookEndpointConfig where
  path := "/a".toList
  requireSignature := false
  allowNonJson := false
  dedupHeader := some "X-Id".toList
  path_eq := Signed.endpoint.path_eq
  signed := unsigned_ok
  parsed := by decide
  maxBodyBytes_pos := unlimited_pos

/-- A delivery of the id `7` with this body. -/
def request (body : Bytes) : Request where
  webhookId := "a".toList
  headers := [("X-Id".toList, ['7'])]
  remote := none
  contentLength := none
  chunks := [body]

/-- The endpoint is installed. -/
def ready : List (Act (receiver hook)) :=
  [.disturb (.install endpoint), .disturb (.hookType "webhook".toList true), .disturb (.setCallback true)]

/-- The task `p` delivers the body, in this many commands. -/
def delivers (p : ℕ) (body : Bytes) (n : ℕ) : List (Act (receiver hook)) :=
  .call p (.webhook (request body)) :: List.replicate n (.exec p {}) ++ [.ret p]

end Retry

open Retry in
/-- A delivery is accepted, and its retry is a duplicate. -/
theorem retries_honest_witness : ∃ P : Pool (receiver hook),
    (1, .duplicate 1 "/a".toList ['7']) ∈ P.shared.log ∧ Honest P.shared.log := by
  have run : ∃ P ∈ hook.new.runIf (Completes hook) (ready ++ delivers 0 [123, 125] 14 ++ delivers 1 [123, 125] 7),
      (1, .duplicate 1 "/a".toList ['7']) ∈ P.shared.log := by decide +kernel
  obtain ⟨P, hP, duplicate⟩ := run
  exact ⟨P, duplicate, retries_honest hook (.of_runIf hP)⟩

/-- Every decision is admitted. -/
def Unrestricted (_p : ℕ) (_o : Call) (_c : Cmd) (_i : Input) (_σ : State) : Prop := True

instance (p : ℕ) (o : Call) (c : Cmd) (i : Input) (σ : State) : Decidable (Unrestricted p o c i σ) :=
  inferInstanceAs (Decidable True)

open Retry in
/-- A delivery whose body is not JSON is refused, and its retry with a proper body is answered as a
duplicate. -/
theorem retry_refused : ¬ ∀ P : Pool (receiver hook),
    Pool.Reach (Pool.Meets Unrestricted) hook.new P → Honest P.shared.log := by
  intro h
  have run : ∃ P ∈ hook.new.runIf Unrestricted (ready ++ delivers 0 [120] 8 ++ delivers 1 [123, 125] 7),
      P.shared.log = [(1, .ended 1 true), (1, .duplicate 1 "/a".toList ['7']), (1, .received 1),
        (0, .ended 0 false), (0, .remembered 0 "/a".toList ['7']), (0, .received 0)] := by decide +kernel
  obtain ⟨P, hP, log⟩ := run
  have known := h P (.of_runIf hP) [(1, .ended 1 true)] 1 (.duplicate 1 "/a".toList ['7'])
    [(1, .received 1), (0, .ended 0 false), (0, .remembered 0 "/a".toList ['7']), (0, .received 0)] log
  obtain ⟨q, earlier, -, remembered, accepted⟩ := known
  have first : q = 0 ∧ earlier = 0 := by simpa using remembered
  have failed := accepted 0 false (by simp [first.2])
  cases failed

end NavigatorEventbus.Webhook
