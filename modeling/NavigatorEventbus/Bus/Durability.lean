import NavigatorEventbus.Bus.Echo

/-!
# Durability of the outbox

An event whose append succeeded keeps its row until the transport has confirmed a publish of it that ended
after the append was made, or the outbox removes the row by one of its policies (`Durable`).  The thread of
the outbox executes its calls in the order in which they were made, so the `ack` that deletes a row was made
after the append that stored it, at the end of a successful publish (`Ledger`).
-/

namespace NavigatorEventbus.Bus

open Interleave

/-- Each event that was stored has its row, or a policy has removed it since, or a publish of the event has
been confirmed since its append was made. -/
def Durable (σ : State) : Prop :=
  ∀ p n eventId, (p, .stored n eventId) ∈ σ.log → eventId ∈ rowIds σ.store ∨
    .purged eventId ∈ σ.log.after (.stored n eventId) ∨
    .published eventId ∈ σ.log.after (.appending n eventId)

/-- What the calls that wait for the thread of the outbox have to do with the history: they are in the order
of their numbers, an `ack` comes from a publish that was confirmed after all appends of its event with a
smaller number were made, and what was stored was appended by a call before all those that wait. -/
structure Ledger (σ : State) : Prop where
  sorted : σ.jobs.Pairwise fun t t' => t.number < t'.number
  numbered : ∀ t ∈ σ.jobs, t.number < σ.tickets
  appended : ∀ p n eventId, (p, .appending n eventId) ∈ σ.log → n < σ.tickets
  acks : ∀ t ∈ σ.jobs, ∀ eventId, t.job = .ack eventId → ∀ p n, (p, .appending n eventId) ∈ σ.log →
    n < t.number → .published eventId ∈ σ.log.after (.appending n eventId)
  appends : ∀ t ∈ σ.jobs, ∀ e, t.job = .append e → ∃ p, (p, .appending t.number e.eventId) ∈ σ.log
  stored : ∀ p n eventId, (p, .stored n eventId) ∈ σ.log →
    (∃ q, (q, .appending n eventId) ∈ σ.log) ∧ ∀ t ∈ σ.jobs, n < t.number
  durable : Durable σ

/-! ## The rows -/

section Rows

variable {core : BusCore} {store store' : SqliteOutbox} {i : Input} {job : Job} {p number : ℕ}
  {eventId : String}

theorem mem_rowIds_ack (mem : eventId ∈ rowIds store) (other : String) :
    eventId ∈ rowIds (store.ack other) ∨ eventId = other := by
  obtain ⟨row, hrow, rfl⟩ := List.mem_map.1 mem
  by_cases same : row.eventId = other
  · exact .inr same
  · exact .inl (List.mem_map_of_mem (List.mem_filter.2 ⟨hrow, by simpa using same⟩))

theorem rowIds_nack (other error : String) (nextTryAt : ℤ) :
    rowIds (store.nack other error nextTryAt) = rowIds store := by
  simp only [rowIds, SqliteOutbox.nack, List.map_map]
  refine List.map_congr_left fun row _ => ?_
  simp only [Function.comp_apply]
  split_ifs <;> rfl

theorem mem_rowIds_insert (row : OutboxRow) : row.eventId ∈ rowIds (store.insert row) := by
  rw [SqliteOutbox.insert]
  split_ifs with old
  · obtain ⟨r, hr, same⟩ := old
    exact same ▸ List.mem_map_of_mem hr
  · simp [rowIds]

/-- A successful append leaves the row of its event. -/
theorem mem_rowIds_append {e : Envelope} {now : ℤ} (h : store.append e.wire now = (.ok (), store')) :
    e.eventId ∈ rowIds store' := by
  rw [SqliteOutbox.append] at h
  split at h
  · cases h
  · simp only [e.eventId_eq, e.topic_eq] at h
    cases h
    exact mem_rowIds_insert _

theorem mem_rowIds_of_done {e : Envelope} (done : (runJob core i store (.append e)).1 = .done) :
    e.eventId ∈ rowIds (runJob core i store (.append e)).2 := by
  revert done
  simp only [runJob]
  split
  · simp
  · simp
  · rename_i eq
    exact fun _ => mem_rowIds_append eq
  · simp

/-- A call of the outbox removes rows by an `ack` or records what it removes. -/
theorem mem_rowIds_runJob (mem : eventId ∈ rowIds store) :
    eventId ∈ rowIds (runJob core i store job).2 ∨ job = .ack eventId ∨
      (p, .purged eventId) ∈
        jobEvents p number store (runJob core i store job).2 job (runJob core i store job).1 := by
  have purged : eventId ∉ rowIds (runJob core i store job).2 → (p, Event.purged eventId) ∈
      ((rowIds store).filter (· ∉ rowIds (runJob core i store job).2)).map fun id => (p, .purged id) :=
    fun gone => List.mem_map_of_mem (List.mem_filter.2 ⟨mem, by simpa using gone⟩)
  by_cases kept : eventId ∈ rowIds (runJob core i store job).2
  · exact .inl kept
  · refine .inr ?_
    cases job with
    | append e => exact .inr (List.mem_append_right _ (purged kept))
    | due now limit => exact .inr (purged kept)
    | ack other =>
      simp only [runJob] at kept
      split_ifs at kept
      · rcases mem_rowIds_ack mem other with h | rfl
        · exact absurd h kept
        · exact .inl rfl
      · exact absurd mem kept
    | nack other error nextTryAt =>
      simp only [runJob] at kept
      split_ifs at kept
      · rw [rowIds_nack] at kept
        exact absurd mem kept
      · exact absurd mem kept
    | stats =>
      simp only [runJob] at kept
      split_ifs at kept <;> exact absurd mem kept
    | close => exact absurd mem kept

/-- What a call of the outbox records as stored was appended by it and has a row. -/
theorem stored_jobEvents {q n : ℕ} (h : (q, .stored n eventId) ∈
    jobEvents p number store (runJob core i store job).2 job (runJob core i store job).1) :
    n = number ∧ (∃ e, job = .append e ∧ e.eventId = eventId) ∧ eventId ∈ rowIds (runJob core i store job).2 := by
  cases job with
  | append e =>
    have none : (q, Event.stored n eventId) ∉ ((rowIds store).filter
        (· ∉ rowIds (runJob core i store (.append e)).2)).map fun id => (p, .purged id) := by simp
    rcases List.mem_append.1 h with h | h
    · split at h
      · rename_i done
        obtain ⟨-, rfl, rfl⟩ : q = p ∧ n = number ∧ eventId = e.eventId := by simpa using h
        exact ⟨rfl, ⟨e, rfl, rfl⟩, mem_rowIds_of_done done⟩
      · cases h
    · exact absurd h none
  | due now limit => simp [jobEvents] at h
  | _ => cases h

theorem not_appending_jobEvents {q n : ℕ} {after : SqliteOutbox} {r : JobResult} :
    (q, .appending n eventId) ∉ jobEvents p number store after job r := by
  cases job with
  | append e =>
    simp only [jobEvents]
    split <;> simp
  | due now limit => simp [jobEvents]
  | _ => simp [jobEvents]

end Rows

/-! ## The calls of the outbox -/

section Calls

variable {core : BusCore} {σ σ' : State} {p ticket : ℕ} {e : Envelope} {i : Input} {job : Job}

namespace Ledger

/-- Other events than those of appends change nothing. -/
theorem grow {l : History Event} (h : Ledger σ) (store : σ'.store = σ.store) (jobs : σ'.jobs = σ.jobs)
    (tickets : σ'.tickets = σ.tickets) (log : σ'.log = l ++ σ.log)
    (appending : ∀ x ∈ l, ∀ n eventId, x.2 ≠ .appending n eventId)
    (stored : ∀ x ∈ l, ∀ n eventId, x.2 ≠ .stored n eventId) : Ledger σ' := by
  have old : ∀ {q n eventId}, (q, .appending n eventId) ∈ σ'.log → (q, .appending n eventId) ∈ σ.log := by
    intro q n eventId hq
    rw [log] at hq
    exact (List.mem_append.1 hq).resolve_left fun hl => appending _ hl n eventId rfl
  have old' : ∀ {q n eventId}, (q, .stored n eventId) ∈ σ'.log → (q, .stored n eventId) ∈ σ.log := by
    intro q n eventId hq
    rw [log] at hq
    exact (List.mem_append.1 hq).resolve_left fun hl => stored _ hl n eventId rfl
  have kept : ∀ {x}, x ∈ σ.log → x ∈ σ'.log := fun hx => by rw [log]; exact List.mem_append_right _ hx
  refine ⟨by rw [jobs]; exact h.sorted, by rw [jobs, tickets]; exact h.numbered, fun q n eventId hq => ?_,
    fun t ht eventId ack q n hq lt => ?_, fun t ht e append => ?_, fun q n eventId hq => ?_,
    fun q n eventId hq => ?_⟩
  · rw [tickets]
    exact h.appended q n eventId (old hq)
  · rw [log]
    exact History.mem_after_append (h.acks t (jobs ▸ ht) eventId ack q n (old hq) lt)
      fun x hx => appending x hx n eventId
  · obtain ⟨q, hq⟩ := h.appends t (jobs ▸ ht) e append
    exact ⟨q, kept hq⟩
  · obtain ⟨⟨q', hq'⟩, before⟩ := h.stored q n eventId (old' hq)
    exact ⟨⟨q', kept hq'⟩, by rwa [jobs]⟩
  · rw [store, log]
    refine (h.durable q n eventId (old' hq)).imp_right (Or.imp (fun purged => ?_) fun published => ?_)
    · exact History.mem_after_append purged fun x hx => stored x hx n eventId
    · exact History.mem_after_append published fun x hx => appending x hx n eventId

theorem of_eq (h : Ledger σ) (store : σ'.store = σ.store) (jobs : σ'.jobs = σ.jobs)
    (tickets : σ'.tickets = σ.tickets) (log : σ'.log = σ.log) : Ledger σ' :=
  h.grow (l := []) store jobs tickets log (by simp) (by simp)

/-- A call is made that appends nothing; a publish of the event of an `ack` was just confirmed. -/
theorem submit (h : Ledger σ) (store : σ'.store = σ.store)
    (jobs : σ'.jobs = σ.jobs ++ [{ number := σ.tickets, job }]) (tickets : σ'.tickets = σ.tickets + 1)
    (log : σ'.log = σ.log) (append : ∀ e, job ≠ .append e)
    (ack : ∀ eventId, job = .ack eventId → ∀ p n, (p, .appending n eventId) ∈ σ.log →
      .published eventId ∈ σ.log.after (.appending n eventId)) : Ledger σ' := by
  have cases : ∀ {t}, t ∈ σ'.jobs → t ∈ σ.jobs ∨ t = { number := σ.tickets, job } := by
    intro t ht
    rw [jobs] at ht
    exact (List.mem_append.1 ht).imp_right List.mem_singleton.1
  refine ⟨?_, fun t ht => ?_, fun q n eventId hq => ?_, fun t ht eventId hack q n hq lt => ?_,
    fun t ht e happend => ?_, fun q n eventId hq => ?_, ?_⟩
  · rw [jobs, List.pairwise_append]
    exact ⟨h.sorted, List.pairwise_singleton .., fun t ht t' ht' => by
      rw [List.mem_singleton.1 ht']; exact h.numbered t ht⟩
  · rw [tickets]
    rcases cases ht with old | rfl
    · exact (h.numbered t old).trans (Nat.lt_succ_self _)
    · exact Nat.lt_succ_self _
  · rw [tickets]
    exact (h.appended q n eventId (log ▸ hq)).trans (Nat.lt_succ_self _)
  · rw [log] at hq ⊢
    rcases cases ht with old | rfl
    · exact h.acks t old eventId hack q n hq lt
    · exact ack eventId hack q n hq
  · rw [log]
    rcases cases ht with old | rfl
    · exact h.appends t old e happend
    · exact absurd happend (append e)
  · rw [log] at hq ⊢
    obtain ⟨appending, before⟩ := h.stored q n eventId hq
    refine ⟨appending, fun t ht => ?_⟩
    rcases cases ht with old | rfl
    · exact before t old
    · obtain ⟨q', hq'⟩ := appending
      exact h.appended q' n eventId hq'
  · intro q n eventId hq
    rw [log] at hq ⊢
    rw [store]
    exact h.durable q n eventId hq

/-- An append is made. -/
theorem appending (h : Ledger σ) (store : σ'.store = σ.store)
    (jobs : σ'.jobs = σ.jobs ++ [{ number := σ.tickets, job := .append e }])
    (tickets : σ'.tickets = σ.tickets + 1)
    (log : σ'.log = (p, .appending σ.tickets e.eventId) :: σ.log) : Ledger σ' := by
  have cases : ∀ {t}, t ∈ σ'.jobs → t ∈ σ.jobs ∨ t = { number := σ.tickets, job := .append e } := by
    intro t ht
    rw [jobs] at ht
    exact (List.mem_append.1 ht).imp_right List.mem_singleton.1
  have old : ∀ {q n eventId}, (q, .appending n eventId) ∈ σ'.log →
      n = σ.tickets ∨ (q, .appending n eventId) ∈ σ.log := by
    intro q n eventId hq
    rw [log] at hq
    refine (List.mem_cons.1 hq).imp_left fun same => ?_
    injection same with _ same
    injection same
  have kept : ∀ {x}, x ∈ σ.log → x ∈ σ'.log := fun hx => by rw [log]; exact List.mem_cons_of_mem _ hx
  have new : ∀ {q n eventId}, (q, .appending n eventId) ∈ σ.log →
      Event.appending σ.tickets e.eventId ≠ .appending n eventId := by
    rintro q n eventId hq ⟨rfl, -⟩
    exact (h.appended q _ _ hq).false
  refine ⟨?_, fun t ht => ?_, fun q n eventId hq => ?_, fun t ht eventId hack q n hq lt => ?_,
    fun t ht e' happend => ?_, fun q n eventId hq => ?_, fun q n eventId hq => ?_⟩
  · rw [jobs, List.pairwise_append]
    exact ⟨h.sorted, List.pairwise_singleton .., fun t ht t' ht' => by
      rw [List.mem_singleton.1 ht']; exact h.numbered t ht⟩
  · rw [tickets]
    rcases cases ht with ht | rfl
    · exact (h.numbered t ht).trans (Nat.lt_succ_self _)
    · exact Nat.lt_succ_self _
  · rw [tickets]
    rcases old hq with rfl | hq
    · exact Nat.lt_succ_self _
    · exact (h.appended q n eventId hq).trans (Nat.lt_succ_self _)
  · rcases cases ht with ht | rfl
    · rcases old hq with rfl | hq
      · exact absurd (h.numbered t ht) lt.not_gt
      · rw [log, History.after_cons_of_ne (new hq)]
        exact List.mem_cons_of_mem _ (h.acks t ht eventId hack q n hq lt)
    · cases hack
  · rcases cases ht with ht | rfl
    · obtain ⟨q, hq⟩ := h.appends t ht e' happend
      exact ⟨q, kept hq⟩
    · cases happend
      exact ⟨p, by rw [log]; exact List.mem_cons_self ..⟩
  · have hq : (q, .stored n eventId) ∈ σ.log := by simpa [log] using hq
    obtain ⟨⟨q', hq'⟩, before⟩ := h.stored q n eventId hq
    refine ⟨⟨q', kept hq'⟩, fun t ht => ?_⟩
    rcases cases ht with ht | rfl
    · exact before t ht
    · exact h.appended q' n eventId hq'
  · have hq : (q, .stored n eventId) ∈ σ.log := by simpa [log] using hq
    obtain ⟨⟨q', hq'⟩, -⟩ := h.stored q n eventId hq
    rw [store, log, History.after_cons_of_ne (by simp), History.after_cons_of_ne (new hq')]
    exact (h.durable q n eventId hq).imp_right
      (Or.imp (List.mem_cons_of_mem _) (List.mem_cons_of_mem _))

/-- The task of a call waits no more. -/
theorem abandonJob (h : Ledger σ) (running : Bool) (number : ℕ) : Ledger (σ.abandonJob running number) := by
  have old : ∀ {t}, t ∈ (σ.abandonJob running number).jobs →
      ∃ t' ∈ σ.jobs, t.number = t'.number ∧ t.job = t'.job := by
    intro t ht
    simp only [State.abandonJob] at ht
    split_ifs at ht
    · obtain ⟨t', ht', rfl⟩ := List.mem_map.1 ht
      refine ⟨t', ht', ?_⟩
      split_ifs <;> exact ⟨rfl, rfl⟩
    · exact ⟨t, (List.mem_filter.1 ht).1, rfl, rfl⟩
  refine ⟨?_, fun t ht => ?_, h.appended, fun t ht eventId hack q n hq lt => ?_, fun t ht e happend => ?_,
    fun q n eventId hq => ?_, h.durable⟩
  · simp only [State.abandonJob]
    split_ifs
    · refine List.pairwise_map.2 (h.sorted.imp fun {t t'} lt => ?_)
      split_ifs <;> exact lt
    · exact h.sorted.filter _
  · obtain ⟨t', ht', number, -⟩ := old ht
    rw [number]
    exact h.numbered t' ht'
  · obtain ⟨t', ht', number, job⟩ := old ht
    exact h.acks t' ht' eventId (job ▸ hack) q n hq (number ▸ lt)
  · obtain ⟨t', ht', number, job⟩ := old ht
    rw [number]
    exact h.appends t' ht' e (job ▸ happend)
  · obtain ⟨appending, before⟩ := h.stored q n eventId hq
    refine ⟨appending, fun t ht => ?_⟩
    obtain ⟨t', ht', number, -⟩ := old ht
    rw [number]
    exact before t' ht'

end Ledger

/-- The call whose turn it is, and those after it. -/
theorem jobs_of_turn (turn : σ.Turn ticket) : ∃ t rest, σ.jobs = t :: rest ∧ t.number = ticket := by
  unfold State.Turn at turn
  cases jobs : σ.jobs with
  | nil => simp [jobs] at turn
  | cons t rest => exact ⟨t, rest, rfl, by simpa [jobs] using turn⟩

/-- The call whose turn it is, executed. -/
theorem perform_of_turn {t : Ticket} {rest : List Ticket} (jobs : σ.jobs = t :: rest) :
    σ.perform core p i t.number = ((runJob core i σ.store t.job).1, { σ with
      store := (runJob core i σ.store t.job).2
      jobs := σ.jobs.filter fun t' => t'.number ≠ t.number
      log := jobEvents p t.number σ.store (runJob core i σ.store t.job).2 t.job
        (runJob core i σ.store t.job).1 ++ σ.log }) := by
  have found : (σ.jobs.find? fun t' => t'.number = t.number) = some t := by
    rw [jobs, List.find?_cons_of_pos (by simp)]
  rw [State.perform, found]

/-- The call whose turn it is is executed. -/
theorem Ledger.perform (h : Ledger σ) (turn : σ.Turn ticket) : Ledger (σ.perform core p i ticket).2 := by
  obtain ⟨t, rest, jobs, rfl⟩ := jobs_of_turn turn
  rw [perform_of_turn jobs]
  have ht : t ∈ σ.jobs := by rw [jobs]; exact List.mem_cons_self ..
  have later : ∀ t' ∈ σ.jobs.filter (fun t' => t'.number ≠ t.number), t' ∈ σ.jobs ∧ t.number < t'.number := by
    intro t' ht'
    obtain ⟨mem, ne⟩ := List.mem_filter.1 ht'
    refine ⟨mem, ?_⟩
    have sorted := h.sorted
    rw [jobs] at mem sorted
    rcases List.mem_cons.1 mem with rfl | mem
    · simp at ne
    · exact (List.pairwise_cons.1 sorted).1 t' mem
  generalize hl : jobEvents p t.number σ.store (runJob core i σ.store t.job).2 t.job
    (runJob core i σ.store t.job).1 = l
  have noAppending : ∀ x ∈ l, ∀ n eventId, x.2 ≠ .appending n eventId := by
    rintro ⟨q, event⟩ hx n eventId rfl
    exact not_appending_jobEvents (hl ▸ hx)
  have old : ∀ {q n eventId}, (q, .appending n eventId) ∈ l ++ σ.log → (q, .appending n eventId) ∈ σ.log := by
    intro q n eventId hq
    exact (List.mem_append.1 hq).resolve_left fun hx => noAppending _ hx n eventId rfl
  refine ⟨h.sorted.filter _, fun t' ht' => h.numbered t' (later t' ht').1, fun q n eventId hq => h.appended q n eventId (old hq),
    fun t' ht' eventId hack q n hq lt => ?_, fun t' ht' e happend => ?_, fun q n eventId hq => ?_,
    fun q n eventId hq => ?_⟩
  · exact History.mem_after_append (h.acks t' (later t' ht').1 eventId hack q n (old hq) lt)
      fun x hx => noAppending x hx n eventId
  · obtain ⟨q, hq⟩ := h.appends t' (later t' ht').1 e happend
    exact ⟨q, List.mem_append_right _ hq⟩
  · rcases List.mem_append.1 hq with new | hq
    · obtain ⟨rfl, ⟨e, job, rfl⟩, -⟩ := stored_jobEvents (hl ▸ new)
      obtain ⟨q', hq'⟩ := h.appends t ht e job
      exact ⟨⟨q', List.mem_append_right _ hq'⟩, fun t' ht' => (later t' ht').2⟩
    · obtain ⟨⟨q', hq'⟩, before⟩ := h.stored q n eventId hq
      exact ⟨⟨q', List.mem_append_right _ hq'⟩, fun t' ht' => before t' (later t' ht').1⟩
  · by_cases new : ∃ q, (q, .stored n eventId) ∈ l
    · obtain ⟨q', new⟩ := new
      exact .inl (stored_jobEvents (hl ▸ new)).2.2
    · have hq : (q, .stored n eventId) ∈ σ.log :=
        (List.mem_append.1 hq).resolve_left fun hx => new ⟨q, hx⟩
      have noStored : ∀ x ∈ l, x.2 ≠ .stored n eventId := fun x hx same => new ⟨x.1, same ▸ hx⟩
      obtain ⟨⟨q', hq'⟩, before⟩ := h.stored q n eventId hq
      have published : .published eventId ∈ σ.log.after (.appending n eventId) →
          .published eventId ∈ History.after (.appending n eventId) (l ++ σ.log) :=
        fun hp => History.mem_after_append hp fun x hx => noAppending x hx n eventId
      rcases h.durable q n eventId hq with mem | purged | confirmed
      · rcases @mem_rowIds_runJob core _ i t.job p _ _ mem with kept | ack | purged
        · exact .inl kept
        · exact .inr (.inr (published (h.acks t ht eventId ack q' n hq' (before t ht))))
        · refine .inr (.inl ?_)
          rw [History.after_append noStored]
          exact List.mem_append_left _ (List.mem_map_of_mem (f := Prod.snd) (hl ▸ purged))
      · exact .inr (.inl (History.mem_after_append purged noStored))
      · exact .inr (.inr (published confirmed))

end Calls

/-! ## The steps -/

section Steps

variable {core : BusCore} {σ σ' : State} {p ticket call : ℕ} {e : Envelope} {inMeta : Bool} {i : Input}

namespace Ledger

theorem of_outbound (h : Ledger σ) (same : σ'.outbound = σ.outbound) (log : σ'.log = σ.log) : Ledger σ' :=
  h.of_eq (congrArg Outbound.store same) (congrArg Outbound.jobs same) (congrArg Outbound.tickets same) log

theorem extend {D : Event → Prop} (h : Ledger σ) (same : σ'.outbound = σ.outbound)
    (ext : History.Extends p D σ.log σ'.log) (appending : ∀ n eventId, ¬ D (.appending n eventId))
    (stored : ∀ n eventId, ¬ D (.stored n eventId)) : Ledger σ' := by
  obtain ⟨l, log, hl⟩ := ext
  refine h.grow (congrArg Outbound.store same) (congrArg Outbound.jobs same) (congrArg Outbound.tickets same)
    log (fun x hx n eventId eq => ?_) fun x hx n eventId eq => ?_
  · obtain ⟨event, hevent, rfl⟩ := List.mem_map.1 hx
    exact appending n eventId (eq ▸ hl event hevent)
  · obtain ⟨event, hevent, rfl⟩ := List.mem_map.1 hx
    exact stored n eventId (eq ▸ hl event hevent)

theorem enqueueLocal (h : Ledger σ) : Ledger (σ.enqueueLocal core p call e inMeta i).2 :=
  h.extend State.outbound_enqueueLocal State.extends_enqueueLocal (by simp) (by simp)

theorem rememberFanout (h : Ledger σ) (p : ℕ) (eventId : String) : Ledger (σ.rememberFanout p eventId) := by
  have log : (σ.rememberFanout p eventId).log = [(p, .fannedOut eventId)] ++ σ.log := by
    simp only [State.rememberFanout, List.singleton_append]
  refine h.grow ?_ ?_ ?_ log (by simp) (by simp) <;> simp only [State.rememberFanout]

theorem fanOut (h : Ledger σ) : Ledger (σ.fanOut p e) := by
  refine (h.rememberFanout p e.eventId).of_eq ?_ ?_ ?_ ?_ <;> rw [State.fanOut]

theorem resumed (h : Ledger σ) (p : ℕ) : Ledger (σ.resumed p) := h.of_eq rfl rfl rfl rfl

theorem publish (h : Ledger σ) : Ledger (σ.publish core p e inMeta i).2 := by
  refine State.publish_cases (fun _ => h) (fun _ _ _ => h.appending rfl rfl rfl rfl) fun stats σ' _ _ hσ' => ?_
  have same : Ledger σ' := h.of_eq (by rw [hσ']) (by rw [hσ']) (by rw [hσ']) (by rw [hσ'])
  apply Ledger.enqueueLocal
  split_ifs
  · exact same.fanOut
  · exact same

theorem afterAppend (h : Ledger σ) (ready : σ.cancelling p = true ∨ σ.Turn ticket) :
    Ledger (σ.appended core p ticket call e inMeta i).2 := by
  have performed : σ.cancelling p = false → Ledger (σ.perform core p i ticket).2 := fun waiting =>
    h.perform (ready.resolve_left (by simp [waiting]))
  refine State.appended_cases (fun _ => ?_) (fun _ waiting _ => (performed waiting).of_eq rfl rfl rfl rfl)
    (fun σ' waiting _ hσ' => ?_) (fun stats σ' waiting _ _ hσ' => ?_)
  · exact (h.resumed p).abandonJob _ _
  · have same : Ledger σ' :=
      (performed waiting).of_eq (by rw [hσ']) (by rw [hσ']) (by rw [hσ']) (by rw [hσ'])
    exact same.fanOut.enqueueLocal
  · have same : Ledger σ' :=
      (performed waiting).of_eq (by rw [hσ']) (by rw [hσ']) (by rw [hσ']) (by rw [hσ'])
    exact same.fanOut.enqueueLocal

theorem published (h : Ledger σ) (p : ℕ) (eventId : String) : Ledger (σ.record p (.published eventId)) :=
  h.grow (l := [(p, .published eventId)]) rfl rfl rfl rfl (by simp) (by simp)

theorem backendPublished {timed : Bool} (h : Ledger σ) : Ledger (σ.backendPublished core p e timed i).2 := by
  have recorded := h.published p e.eventId
  refine State.backendPublished_cases (fun _ => h.of_eq rfl rfl rfl rfl)
    (fun _ => recorded.of_eq rfl rfl rfl rfl) (fun _ _ _ => ?_) (fun _ _ => h.of_eq rfl rfl rfl rfl)
    (fun _ _ _ _ _ _ => ?_) fun _ => h.of_eq rfl rfl rfl rfl
  · refine @Ledger.submit _ _ (.ack e.eventId) recorded rfl rfl rfl rfl (by simp) fun eventId same q n hq => ?_
    cases same
    rw [State.record, History.after_cons_of_ne (by simp)]
    exact List.mem_cons_self ..
  · exact h.submit rfl rfl rfl rfl (by simp) (by simp)

theorem submit_ask (h : Ledger σ) {job : Job} (append : ∀ e, job ≠ .append e) (ack : ∀ id, job ≠ .ack id) :
    Ledger (σ.submit job).2 := by
  rw [State.submit]
  split_ifs
  · exact h
  · exact h.submit rfl rfl rfl rfl append fun eventId same => absurd same (ack eventId)

/-- Every command keeps the ledger, when the calls of the outbox are executed in their turn. -/
theorem exec (h : Ledger σ) {c : Cmd} (ready : σ.Ready p c i) : Ledger (σ.exec core p c i).2 := by
  have timed : ∀ {ticket timed}, (σ.cancelling p || (timed && i.deadline)) = true ∨ σ.Turn ticket →
      (σ.cancelling p || (timed && i.deadline)) = false → Ledger (σ.perform core p i ticket).2 :=
    fun ready goesOn => h.perform (ready.resolve_left (by simp [goesOn]))
  have abandoned : ∀ ticket, Ledger ((σ.resumed p).abandonJob i.running ticket) :=
    fun _ => (h.resumed p).abandonJob _ _
  cases c with
  | publish e inMeta => exact h.publish
  | appended ticket call e inMeta => exact h.afterAppend ready
  | backendPublished e timed => exact h.backendPublished
  | settled ticket e confirmed _ =>
    simp only [State.exec]
    exact State.settled_cases ((abandoned ticket).of_eq rfl rfl rfl rfl) fun _ _ goesOn =>
      (timed ready goesOn).of_eq rfl rfl rfl rfl
  | relayRows ticket _ =>
    simp only [State.exec]
    exact State.relayRows_cases (abandoned ticket) (fun goesOn => timed ready goesOn) fun _ goesOn _ =>
      timed ready goesOn
  | relayRefreshed ticket _ =>
    simp only [State.exec]
    exact State.relayRefreshed_cases (abandoned ticket) fun _ _ goesOn =>
      (timed ready goesOn).of_eq rfl rfl rfl rfl
  | relayDue | relayStats | closeOutbox => exact h.submit_ask (by simp) (by simp)
  | relayPick e =>
    simp only [State.exec, State.relayPick]
    split_ifs
    · exact h
    · have same : Ledger { σ with outboxInflight := σ.outboxInflight.insert e.eventId } := h.of_eq rfl rfl rfl rfl
      have remembered := same.rememberFanout p e.eventId
      dsimp only
      generalize State.rememberFanout _ p e.eventId = τ at remembered ⊢
      exact remembered.of_eq rfl rfl rfl rfl
  | bootPublish =>
    simp only [State.exec, State.bootPublish]
    split <;> exact h.of_eq rfl rfl rfl rfl
  | arrive e =>
    simp only [State.exec, State.arrive]
    split_ifs <;> exact h.grow (l := [(p, .arrived e.eventId _)]) rfl rfl rfl rfl (by simp) (by simp)
  | outboxClosed ticket =>
    simp only [State.exec, State.outboxClosed]
    split_ifs with cancelled
    · exact (abandoned ticket).of_eq rfl rfl rfl rfl
    · exact (h.perform (ready.resolve_left cancelled)).of_eq rfl rfl rfl rfl
  | _ => exact h.extend (State.outbound_exec trivial) (State.extends_exec _) (by simp [Cmd.Records]) (by simp [Cmd.Records])

theorem note (h : Ledger σ) (o : Call) (r : Result) : Ledger (σ.note p o r) :=
  h.of_outbound (State.outbound_note o r) (State.log_note o r)

theorem disturb (h : Ledger σ) (d : Disturbance) : Ledger (σ.disturb core d) := by
  have other : (∀ n, d ≠ .cancelSpawned n) → (∀ i, d ≠ .thread i) → Ledger (σ.disturb core d) :=
    fun spawned thread =>
      h.of_outbound (State.outbound_disturb spawned thread).1 (State.outbound_disturb spawned thread).2
  cases d with
  | thread i =>
    simp only [State.disturb, State.thread]
    split
    · rename_i t rest jobs
      split_ifs
      · exact h.perform (by simp [State.Turn, jobs])
      · exact h
    · exact h
  | cancelSpawned n => exact h.of_eq rfl rfl rfl rfl
  | _ => exact other (by simp) (by simp)

end Ledger

end Steps

/-! ## Every run -/

end NavigatorEventbus.Bus
