import NavigatorEventbus.Dlq.Handler
import NavigatorEventbus.Lib.RelyGuarantee

/-!
# Dead letters can be replayed

An envelope that exhausted its retries has a row that a replay selects, until it is re-published
(`Replayable`).  This fails where the `INSERT` meets a row that its event has from an earlier failure: the
row may be marked as replayed already, or about to be, and its time is that of the earlier failure.  When no
`INSERT` does so, the property holds in every state (`dead_letters_replayable`).
-/

namespace NavigatorEventbus.Bus.Dlq

open Interleave

/-- An envelope that exhausted its retries, whose persistence is done and that was not re-published since,
has a row that a replay of its id selects, and a row that every replay since a time up to the failure
selects. -/
def Replayable (σ : State) : Prop :=
  ∀ p failure eventId t, (p, .exhausted failure eventId t) ∈ σ.log → (∃ q, (q, .persisted failure) ∈ σ.log) →
    .republished eventId ∉ σ.log.after (.exhausted failure eventId t) →
    (∃ row, row ∈ σ.select (.eventId eventId)) ∧
      ∀ since, NotAfter since t → ∃ row ∈ σ.select (.since since), row.eventId = eventId

/-- An `INSERT` finds no row of its event, or one with a time that is not before the failure, that is not
marked and whose event was not re-published since it was stored; or the event was re-published after the
failure. -/
def InsertFinds (_p : ℕ) (_o : Call) (c : Cmd) (_i : Input) (σ : State) : Prop :=
  match c with
  | .insert t row =>
    .republished row.eventId ∈ σ.log.after (.exhausted t.failure row.eventId t.at_) ∨
      ∀ r ∈ σ.rows, r.eventId = row.eventId → r.replayedAt = none ∧ NotAfter t.at_ r.failedAt ∧
        .republished row.eventId ∉ σ.log.after (.stored row.eventId)
  | _ => True

instance (p : ℕ) (o : Call) (c : Cmd) (i : Input) (σ : State) : Decidable (InsertFinds p o c i σ) := by
  unfold InsertFinds
  cases c <;> infer_instance

/-! ## What a step leaves as it was -/

namespace State

/-- The event has a row. -/
def Has (σ : State) (eventId : String) : Prop := ∃ row ∈ σ.rows, row.eventId = eventId

/-- The event was re-published since its row was stored. -/
def Returned (σ : State) (eventId : String) : Prop :=
  .republished eventId ∈ σ.log.after (.stored eventId)

theorem returned_record {σ : State} {p : ℕ} {event : Event} {eventId : String} {rows : List Row}
    {failures : ℕ} (stored : event ≠ .stored eventId) :
    ({ σ with rows, failures }.record p event).Returned eventId ↔
      event = .republished eventId ∨ σ.Returned eventId := by
  rw [Returned, record, History.after_cons_of_ne stored, List.mem_cons, eq_comm]
  rfl

end State

/-- The history and the clock go on, and no event loses its row. -/
structure Grows (σ σ' : State) : Prop where
  log : ∀ {x}, x ∈ σ.log → x ∈ σ'.log
  now : NotAfter σ.now σ'.now
  has : ∀ {x}, σ.Has x → σ'.Has x
  returned : ∀ {x}, σ.Has x → σ.Returned x → σ'.Returned x

namespace Grows

variable {σ σ' σ'' : State}

theorem refl (σ : State) : Grows σ σ := ⟨id, .refl _, id, fun _ => id⟩

theorem trans (h : Grows σ σ') (h' : Grows σ' σ'') : Grows σ σ'' :=
  ⟨h'.log ∘ h.log, h.now.trans h'.now, h'.has ∘ h.has, fun has hr => h'.returned (h.has has) (h.returned has hr)⟩

/-- An event that stores no row is recorded, and the rows are those of the same events. -/
theorem record {p : ℕ} {event : Event} (stored : ∀ x, event ≠ .stored x) {rows : List Row} {failures : ℕ}
    (hrows : rows.map Row.eventId = σ.rows.map Row.eventId) :
    Grows σ ({ σ with rows, failures }.record p event) where
  log := List.mem_cons_of_mem _
  now := .refl _
  has := by
    rintro x ⟨row, hrow, rfl⟩
    have mem : row.eventId ∈ rows.map Row.eventId := by
      rw [hrows]
      exact List.mem_map_of_mem hrow
    exact List.mem_map.1 mem
  returned := by
    intro x _ hr
    exact (State.returned_record (stored x)).2 (.inr hr)

theorem insert (p : ℕ) (t : Ticket) (row : Row) : Grows σ (σ.insert p t row) := by
  unfold State.insert
  split_ifs with old
  · exact record (by simp) rfl
  · have added : Grows σ ({ σ with rows := σ.rows ++ [row] }.record p (.stored row.eventId)) := ?_
    · exact added.trans (record (by simp) rfl)
    refine ⟨List.mem_cons_of_mem _, .refl _, ?_, ?_⟩
    · rintro x ⟨r, hr, rfl⟩
      exact ⟨r, List.mem_append_left _ hr, rfl⟩
    · rintro x ⟨r, hr, rfl⟩ ret
      have ne : r.eventId ≠ row.eventId := fun h => old ⟨r, hr, h⟩
      exact (State.returned_record (by simpa using ne.symm)).2 (.inr ret)

theorem mark (rows : List Row) (eventId : String) (now : Instant) :
    (markReplayed rows eventId now).map Row.eventId = rows.map Row.eventId := by
  rw [markReplayed, List.map_map]
  refine List.map_congr_left fun row _ => ?_
  by_cases h : row.eventId = eventId <;> simp [h]

theorem exec (p : ℕ) (c : Cmd) (i : Input) : Grows σ (σ.exec p c i).2 := by
  cases c with
  | exhausted e => exact record (by simp) rfl
  | insert t row => exact insert p t row
  | republish e =>
    show Grows σ (σ.republish p e i)
    unfold State.republish
    split
    · exact record (by simp) rfl
    · exact refl σ
  | mark eventId => exact record (by simp) (mark ..)
  | _ => exact refl σ

theorem tick (t : Instant) : Grows σ (σ.tick t) := by
  unfold State.tick
  split_ifs with h
  · exact ⟨id, h, id, fun _ => id⟩
  · exact refl σ

end Grows

/-! ## What the handlers keep -/

/-- The failures are numbered, and the persistence of each is about it. -/
structure Numbered (σ : State) : Prop where
  fresh : ∀ {p n x t}, (p, .exhausted n x t) ∈ σ.log → n < σ.failures
  unique : ∀ {p q n x x' t t'}, (p, .exhausted n x t) ∈ σ.log → (q, .exhausted n x' t') ∈ σ.log → x = x' ∧ t = t'
  persisted : ∀ {q n}, (q, .persisted n) ∈ σ.log → n < σ.failures

/-- A row is inserted for a failure before it, and a row is marked after its event was re-published. -/
def Guarded (c : Cmd) (σ : State) : Prop :=
  match c with
  | .insert t row => (∃ q, (q, .exhausted t.failure row.eventId t.at_) ∈ σ.log) ∧
      NotAfter t.at_ row.failedAt ∧ row.replayedAt = none
  | .mark eventId => σ.Has eventId ∧ σ.Returned eventId
  | _ => True

namespace Numbered

variable {σ : State}

/-- An event that begins no failure is recorded. -/
theorem record (h : Numbered σ) {p : ℕ} {event : Event} (begins : ∀ n x t, event ≠ .exhausted n x t)
    (persisted : ∀ n, event = .persisted n → n < σ.failures) {rows : List Row} :
    Numbered ({ σ with rows }.record p event) where
  fresh := by
    intro q n x t hx
    rcases List.mem_cons.1 hx with heq | hx
    · cases heq
      exact absurd rfl (begins n x t)
    · exact h.fresh hx
  unique := by
    intro q q' n x x' t t' hx hx'
    rcases List.mem_cons.1 hx with heq | hx
    · cases heq
      exact absurd rfl (begins n x t)
    rcases List.mem_cons.1 hx' with heq | hx'
    · cases heq
      exact absurd rfl (begins n x' t')
    exact h.unique hx hx'
  persisted := by
    intro q n hx
    rcases List.mem_cons.1 hx with heq | hx
    · cases heq
      exact persisted n rfl
    · exact h.persisted hx

theorem exhaust (h : Numbered σ) (p : ℕ) (e : Envelope) : Numbered (σ.exhaust p e).2 where
  fresh := by
    intro q n x t hx
    rcases List.mem_cons.1 hx with heq | hx
    · cases heq
      exact Nat.lt_succ_self _
    · exact Nat.lt_succ_of_lt (h.fresh hx)
  unique := by
    intro q q' n x x' t t' hx hx'
    rcases List.mem_cons.1 hx with heq | hx <;> rcases List.mem_cons.1 hx' with heq' | hx'
    · cases heq
      cases heq'
      exact ⟨rfl, rfl⟩
    · cases heq
      exact absurd (h.fresh hx') (lt_irrefl _)
    · cases heq'
      exact absurd (h.fresh hx) (lt_irrefl _)
    · exact h.unique hx hx'
  persisted := by
    intro q n hx
    rcases List.mem_cons.1 hx with heq | hx
    · cases heq
    · exact Nat.lt_succ_of_lt (h.persisted hx)

theorem exec (h : Numbered σ) {p : ℕ} {c : Cmd} {i : Input} (guard : Guarded c σ) :
    Numbered (σ.exec p c i).2 := by
  cases c with
  | exhausted e => exact h.exhaust p e
  | insert t row =>
    obtain ⟨⟨q, hq⟩, -⟩ := guard
    show Numbered (σ.insert p t row)
    unfold State.insert
    split_ifs
    · refine h.record (by simp) ?_
      rintro n ⟨rfl⟩
      exact h.fresh hq
    · refine (h.record (by simp) (by simp)).record (by simp) ?_
      rintro n ⟨rfl⟩
      exact h.fresh hq
  | republish e =>
    show Numbered (σ.republish p e i)
    unfold State.republish
    split
    · exact h.record (by simp) (by simp)
    · exact h
  | mark eventId => exact h.record (by simp) (by simp)
  | _ => exact h

theorem tick (h : Numbered σ) (t : Instant) : Numbered (σ.tick t) := by
  unfold State.tick
  split_ifs
  · exact ⟨h.fresh, h.unique, h.persisted⟩
  · exact h

end Numbered

/-- The contract of the handlers. -/
def table : Contract handlers where
  Inv := Numbered
  Ok _ _ _ _ _ := True
  Guard _ _ c _ σ := Guarded c σ
  Post _ _ _ _ := True
  inv_exec inv _ guard := inv.exec guard
  inv_note inv _ := inv
  inv_disturb t inv := inv.tick t

theorem table_rely {p : ℕ} {σ σ' : State} (h : table.Rely p σ σ') : Grows σ σ' := by
  refine Contract.Rely.le table Grows.refl Grows.trans (fun h => ?_) h
  cases h with
  | exec _ _ _ _ => exact .exec ..
  | note _ _ _ => exact .refl _
  | disturb t _ => exact .tick t

section Safe

variable {α : Type} {p : ℕ} {o : Call} {σ : State} {Q : α → State → Prop}

/-- A program is safe when it is from every state that the others may lead to, and a command that is not an
`INSERT` or a mark needs no guard. -/
theorem safe_op {c : Cmd} {k : c.Reply → Coro α}
    (rest : ∀ σ' i, Grows σ σ' → Guarded c σ' ∧ table.Safe p o (k (σ'.exec p c i).1) Q (σ'.exec p c i).2) :
    table.Safe p o (Prog.op c k) Q σ :=
  fun σ' hR _ i _ => rest σ' i (table_rely hR)

theorem safe_pure {a : α} : table.Safe p o (Prog.pure a : Coro α) (fun _ _ => True) σ :=
  fun _ _ _ => trivial

/-- The failure of a ticket is one of the event, and lies in the past. -/
def Knows (t : Ticket) (eventId : String) (σ : State) : Prop :=
  (∃ q, (q, .exhausted t.failure eventId t.at_) ∈ σ.log) ∧ NotAfter t.at_ σ.now

theorem Knows.grows {t : Ticket} {eventId : String} {σ' : State} (h : Knows t eventId σ)
    (hg : Grows σ σ') : Knows t eventId σ' := by
  obtain ⟨⟨q, hq⟩, now⟩ := h
  exact ⟨⟨q, hg.log hq⟩, now.trans hg.now⟩

open DLQHandler in
theorem safe_persist {t : Ticket} {e : Envelope} {failure : Failure} (knows : Knows t e.eventId σ) :
    table.Safe p o (persist t e failure) (fun _ _ => True) σ := by
  refine safe_op fun σ₁ i h₁ => ⟨trivial, ?_⟩
  dsimp only [Prog.bind, State.exec]
  cases hrow : Row.of e failure σ₁.now with
  | none =>
    refine safe_op fun _ _ _ => ⟨trivial, safe_op fun _ _ _ => ⟨trivial, safe_op fun _ _ _ => ⟨trivial, ?_⟩⟩⟩
    exact safe_op fun _ _ _ => ⟨trivial, safe_pure⟩
  | some row =>
    obtain ⟨id, failedAt, replayedAt⟩ := Row.of_eq_some hrow
    refine safe_op fun σ₂ i h₂ => ⟨⟨?_, ?_, replayedAt⟩, safe_pure⟩
    · rw [id]
      exact ((knows.grows h₁).grows h₂).1
    · rw [failedAt]
      exact (knows.grows h₁).2

open DLQHandler in
theorem safe_deadLetter (handler : DLQHandler) (e : Envelope) (failure : Failure) (d : Envelope) :
    table.Safe p o (handler.deadLetter e failure d) (fun _ _ => True) σ := by
  refine safe_op fun σ₁ i₁ _ => ⟨trivial, safe_op fun σ₂ i₂ h₂ => ⟨trivial, ?_⟩⟩
  have knows : Knows ⟨σ₁.failures, σ₁.now⟩ e.eventId σ₂ :=
    Knows.grows (σ := (σ₁.exhaust p e).2) ⟨⟨p, List.mem_cons_self ..⟩, .refl _⟩ h₂
  dsimp only [Prog.bind, State.exec]
  cases escaping i₂.published with
  | error exc => exact safe_pure
  | ok =>
    dsimp only
    split_ifs
    · exact safe_persist knows
    · exact safe_pure

open DLQHandler in
theorem safe_replayRows (handler : DLQHandler) {rows : List Row} (n : ℕ)
    (has : ∀ row ∈ rows, σ.Has row.eventId) :
    table.Safe p o (handler.replayRows rows n) (fun _ _ => True) σ := by
  induction rows generalizing σ n with
  | nil => exact safe_pure
  | cons row rows ih =>
    have rest : ∀ {σ' n}, Grows σ σ' → table.Safe p o (handler.replayRows rows n) (fun _ _ => True) σ' :=
      fun hg => ih _ fun r hr => hg.has (has r (List.mem_cons_of_mem _ hr))
    rw [replayRows]
    split
    · exact rest (.refl σ)
    · rename_i e he
      have id := eventId_rowToEnvelope he
      refine safe_op fun σ₁ i₁ h₁ => ⟨trivial, ?_⟩
      have h₁' : Grows σ (σ₁.exec p (.republish e) i₁).2 := h₁.trans (.exec ..)
      have hrow := h₁'.has (has row (List.mem_cons_self ..))
      rw [← id] at hrow
      have returned : i₁.published = .ok () → (σ₁.exec p (.republish e) i₁).2.Returned e.eventId := by
        intro ok
        show (σ₁.republish p e i₁).Returned e.eventId
        simp [State.republish, ok, State.Returned, State.record]
      have reply : (σ₁.exec p (.republish e) i₁).1 = i₁.published := rfl
      rw [← reply] at returned
      generalize (σ₁.exec p (.republish e) i₁).1 = r at returned
      cases r with
      | ok u =>
        refine safe_op fun σ₂ i₂ h₂ => ⟨⟨h₂.has hrow, h₂.returned hrow (returned rfl)⟩, ?_⟩
        exact rest ((h₁'.trans h₂).trans (.exec ..))
      | error exc =>
        show table.Safe p o (if exc.isException then _ else _) _ _
        split_ifs
        · exact rest h₁'
        · exact safe_pure

open DLQHandler in
theorem safe_replay (handler : DLQHandler) (eventId : Option String) (since : Option Instant) :
    table.Safe p o (handler.replay eventId since) (fun _ _ => True) σ := by
  unfold replay
  split
  · exact safe_pure
  · rename_i s _
    split_ifs
    · refine safe_op fun σ₁ i h₁ => ⟨trivial, safe_replayRows handler 0 fun row hrow => ⟨row, ?_, rfl⟩⟩
      have hrow : row ∈ σ₁.select s := hrow
      cases s with
      | eventId id => exact (List.mem_filter.1 hrow).1
      | since t => exact (List.mem_filter.1 ((List.mergeSort_perm ..).mem_iff.1 hrow)).1
    · exact safe_pure

end Safe

theorem table_kept : table.Kept (fun _ _ _ => True) (fun _ => True) where
  idle _ _ := trivial
  call := by
    intro p φ o σ _ _ _ _
    cases o with
    | deadLetter handler e failure d =>
      refine Contract.Safe.bind ((safe_deadLetter handler e failure d).mono fun r _ _ _ => ?_)
      cases r <;> exact safe_pure
    | replay handler eventId since => exact safe_replay handler eventId since
  phase _ _ := trivial
  stable _ _ := trivial

/-! ## The rows of the failures -/

/-- The failures that `Replayable` is about have a row that was stored no earlier, and whose event was not
re-published since. -/
def Covered (σ : State) : Prop :=
  ∀ p n x t, (p, .exhausted n x t) ∈ σ.log → (∃ q, (q, .persisted n) ∈ σ.log) →
    .republished x ∉ σ.log.after (.exhausted n x t) →
    ∃ row ∈ σ.rows, row.eventId = x ∧ row.replayedAt = none ∧ NotAfter t row.failedAt ∧ ¬ σ.Returned x

theorem Covered.replayable {σ : State} (h : Covered σ) : Replayable σ := by
  intro p n x t exhausted persisted republished
  obtain ⟨row, hrow, id, replayedAt, failedAt, -⟩ := h _ _ _ _ exhausted persisted republished
  refine ⟨⟨row, List.mem_filter.2 ⟨hrow, by simp [id, replayedAt]⟩⟩, fun since hs => ⟨row, ?_, id⟩⟩
  refine (List.mergeSort_perm ..).mem_iff.2 (List.mem_filter.2 ⟨hrow, ?_⟩)
  simp [replayedAt, hs.trans failedAt]

namespace Covered

variable {σ : State} {p : ℕ}

theorem exhaust (h : Covered σ) (num : Numbered σ) (e : Envelope) : Covered (σ.exhaust p e).2 := by
  rintro q n x t exhausted ⟨q', hq'⟩ republished
  have persisted : (q', .persisted n) ∈ σ.log := by
    rcases List.mem_cons.1 hq' with heq | hq'
    · cases heq
    · exact hq'
  have ne : n ≠ σ.failures := (num.persisted persisted).ne
  have old : (q, .exhausted n x t) ∈ σ.log := by
    rcases List.mem_cons.1 exhausted with heq | old
    · cases heq
      exact absurd rfl ne
    · exact old
  rw [State.exhaust, State.record, History.after_cons_of_ne (by simp [ne.symm])] at republished
  obtain ⟨row, hrow, id, replayedAt, failedAt, returned⟩ :=
    h _ _ _ _ old ⟨q', persisted⟩ fun hr => republished (List.mem_cons_of_mem _ hr)
  refine ⟨row, hrow, id, replayedAt, failedAt, fun hr => returned ?_⟩
  exact ((State.returned_record (by simp)).1 hr).resolve_left (by simp)

theorem republish (h : Covered σ) (eventId : String) : Covered (σ.record p (.republished eventId)) := by
  rintro q n x t exhausted ⟨q', hq'⟩ republished
  rw [State.record, History.after_cons_of_ne (by simp), List.mem_cons, not_or] at republished
  obtain ⟨row, hrow, id, replayedAt, failedAt, returned⟩ :=
    h _ _ _ _ (by simpa [State.record] using exhausted) ⟨q', by simpa [State.record] using hq'⟩ republished.2
  refine ⟨row, hrow, id, replayedAt, failedAt, fun hr => ?_⟩
  rcases (State.returned_record (by simp)).1 hr with heq | hr
  · exact republished.1 heq.symm
  · exact returned hr

/-- A mark hits only events that were re-published. -/
theorem mark (h : Covered σ) {eventId : String} (returned : σ.Returned eventId) (now : Instant) :
    Covered ({ σ with rows := markReplayed σ.rows eventId now }.record p (.marked eventId)) := by
  rintro q n x t exhausted ⟨q', hq'⟩ republished
  rw [State.record, History.after_cons_of_ne (by simp), List.mem_cons, not_or] at republished
  obtain ⟨row, hrow, rfl, replayedAt, failedAt, notReturned⟩ :=
    h _ _ _ _ (by simpa [State.record] using exhausted) ⟨q', by simpa [State.record] using hq'⟩ republished.2
  have other : row.eventId ≠ eventId := fun heq => notReturned (heq ▸ returned)
  refine ⟨row, List.mem_map.2 ⟨row, hrow, if_neg other⟩, rfl, replayedAt, failedAt, fun hr => notReturned ?_⟩
  exact ((State.returned_record (by simp)).1 hr).resolve_left (by simp)

/-- The persistence of a failure is done, which is covered. -/
theorem persist (h : Covered σ) (num : Numbered σ) {t : Ticket} {eventId : String} {q₀ : ℕ}
    (about : (q₀, .exhausted t.failure eventId t.at_) ∈ σ.log)
    (covered : .republished eventId ∉ σ.log.after (.exhausted t.failure eventId t.at_) →
      ∃ row ∈ σ.rows, row.eventId = eventId ∧ row.replayedAt = none ∧ NotAfter t.at_ row.failedAt ∧
        ¬ σ.Returned eventId) :
    Covered (σ.record p (.persisted t.failure)) := by
  rintro q n x t' exhausted ⟨q', hq'⟩ republished
  rw [State.record, History.after_cons_of_ne (by simp), List.mem_cons, not_or] at republished
  have exhausted : (q, .exhausted n x t') ∈ σ.log := by simpa [State.record] using exhausted
  have returned : (σ.record p (.persisted t.failure)).Returned x → σ.Returned x :=
    fun hr => ((State.returned_record (by simp)).1 hr).resolve_left (by simp)
  have row : ∃ row ∈ σ.rows, row.eventId = x ∧ row.replayedAt = none ∧ NotAfter t' row.failedAt ∧
      ¬ σ.Returned x := by
    by_cases new : n = t.failure
    · subst new
      obtain ⟨rfl, rfl⟩ := num.unique about exhausted
      exact covered republished.2
    · refine h _ _ _ _ exhausted ⟨q', ?_⟩ republished.2
      rcases List.mem_cons.1 hq' with heq | old
      · cases heq
        exact absurd rfl new
      · exact old
  obtain ⟨row, hrow, id, replayedAt, failedAt, notReturned⟩ := row
  exact ⟨row, hrow, id, replayedAt, failedAt, notReturned ∘ returned⟩

/-- A row is stored for an event that had none. -/
theorem store (h : Covered σ) {row : Row} (new : ¬ σ.Has row.eventId) :
    Covered ({ σ with rows := σ.rows ++ [row] }.record p (.stored row.eventId)) := by
  rintro q n x t exhausted ⟨q', hq'⟩ republished
  rw [State.record, History.after_cons_of_ne (by simp), List.mem_cons, not_or] at republished
  obtain ⟨r, hr, rfl, replayedAt, failedAt, notReturned⟩ :=
    h _ _ _ _ (by simpa [State.record] using exhausted) ⟨q', by simpa [State.record] using hq'⟩ republished.2
  have ne : r.eventId ≠ row.eventId := fun heq => new ⟨r, hr, heq⟩
  refine ⟨r, List.mem_append_left _ hr, rfl, replayedAt, failedAt, fun hret => notReturned ?_⟩
  exact ((State.returned_record (by simpa using ne.symm)).1 hret).resolve_left (by simp)

theorem insert (h : Covered σ) (num : Numbered σ) {t : Ticket} {row : Row}
    (guard : Guarded (.insert t row) σ) {o : Call} {i : Input} (finds : InsertFinds p o (.insert t row) i σ) :
    Covered (σ.insert p t row) := by
  obtain ⟨⟨q, about⟩, failedAt, replayedAt⟩ := guard
  unfold State.insert
  split_ifs with old
  · obtain ⟨r, hr, id⟩ := old
    refine h.persist num about fun republished => ?_
    obtain ⟨replayed, time, returned⟩ := (finds.resolve_left republished) r hr id
    exact ⟨r, hr, id, replayed, time, returned⟩
  · refine (h.store old).persist (num.record (by simp) (by simp)) (List.mem_cons_of_mem _ about) fun _ => ?_
    refine ⟨row, by simp [State.record], rfl, replayedAt, failedAt, ?_⟩
    simp [State.Returned, State.record]

theorem exec (h : Covered σ) (num : Numbered σ) {o : Call} {c : Cmd} {i : Input} (guard : Guarded c σ)
    (finds : InsertFinds p o c i σ) : Covered (σ.exec p c i).2 := by
  cases c with
  | exhausted e => exact h.exhaust num e
  | insert t row => exact h.insert num guard finds
  | republish e =>
    show Covered (σ.republish p e i)
    unfold State.republish
    split
    · exact h.republish e.eventId
    · exact h
  | mark eventId => exact h.mark guard.2 σ.now
  | _ => exact h

theorem tick (h : Covered σ) (t : Instant) : Covered (σ.tick t) := by
  unfold State.tick
  split_ifs
  · exact h
  · exact h

end Covered

/-! ## Runs -/

/-- When every `INSERT` finds what it has to, the failed envelopes can be replayed in every state. -/
theorem dead_letters_replayable {P : Pool handlers}
    (hr : Pool.Reach (Pool.Meets InsertFinds) start P) : Replayable P.shared := by
  have within : table.Within (fun _ _ _ => True) (fun _ => True) start :=
    ⟨⟨nofun, nofun, nofun⟩, fun _ => trivial, fun _ => trivial, nofun⟩
  refine Covered.replayable (Contract.invariant table_kept ?_ ?_ ?_ within (J := Covered) nofun
    (hr.mono fun Q a ha => ⟨?_, ha⟩))
  · exact fun _ num _ finds guard h => h.exec num guard finds
  · exact fun _ _ h => h
  · exact fun t _ h => h.tick t
  · cases a with
    | exec => exact fun _ _ _ _ _ => trivial
    | _ => trivial

namespace Scenario

def handler : DLQHandler := { dsn := true, py := ⟨fun _ => none, fun _ => none⟩ }

/-- An order with this id. -/
def order (eventId : String) : Envelope :=
  .make eventId "order.created".toList (.obj [("total", .int 3)]) .null .info .normal .null epoch

def failure : Failure :=
  { attempts := 3, errorType := "ValueError", errorMessage := "no stock", failedSubscriber := "s",
    originalTopic := "order.created".toList }

/-- The order exhausts its retries and is persisted. -/
def fails (eventId : String) : List (Act handlers) :=
  [.call 0 (.deadLetter handler (order eventId) failure (order "dlq")), .exec 0 {}, .exec 0 {}, .exec 0 {},
    .exec 0 {}, .ret 0]

/-- The order is replayed. -/
def replayed (eventId : String) : List (Act handlers) :=
  [.call 0 (.replay handler (some eventId) none), .exec 0 {}, .exec 0 {}, .exec 0 {}, .ret 0]

/-- A second later. -/
def later : Instant := 
  ⟨⟨1970, 1, 1, 0, 0, 1, 0, some 0, epoch.1.date_ok, by decide, IsoTime.utc_ok⟩, by decide⟩

end Scenario

open Scenario in
theorem dead_letters_replayable_witness : ∃ P : Pool handlers,
    (∃ row ∈ P.shared.rows, row.eventId = "a" ∧ row.replayedAt.isSome) ∧ Replayable P.shared := by
  have run : ∃ P ∈ start.runIf InsertFinds (fails "a" ++ fails "a" ++ replayed "a" ++ fails "b"),
      ∃ row ∈ P.shared.rows, row.eventId = "a" ∧ row.replayedAt.isSome := by decide +kernel
  obtain ⟨P, hP, marked⟩ := run
  exact ⟨P, marked, dead_letters_replayable (.of_runIf hP)⟩

/-- Every decision is admitted. -/
def Unrestricted (_p : ℕ) (_o : Call) (_c : Cmd) (_i : Input) (_σ : State) : Prop := True

instance (p : ℕ) (o : Call) (c : Cmd) (i : Input) (σ : State) : Decidable (Unrestricted p o c i σ) :=
  inferInstanceAs (Decidable True)

open Scenario in
/-- An order fails, is replayed and fails again: the second failure is not stored. -/
theorem dead_letter_lost : ¬ ∀ P : Pool handlers,
    Pool.Reach (Pool.Meets Unrestricted) start P → Replayable P.shared := by
  intro h
  have run : ∃ P ∈ start.runIf Unrestricted (fails "a" ++ replayed "a" ++ [.disturb later] ++ fails "a"),
      (0, .exhausted 1 "a" later) ∈ P.shared.log ∧ (0, .persisted 1) ∈ P.shared.log ∧
        .republished "a" ∉ P.shared.log.after (.exhausted 1 "a" later) ∧
        (P.shared.select (.eventId "a")).isEmpty = true := by decide +kernel
  obtain ⟨P, hP, exhausted, persisted, republished, none⟩ := run
  obtain ⟨⟨row, hrow⟩, -⟩ := h P (.of_runIf hP) 0 1 "a" later exhausted ⟨0, persisted⟩ republished
  rw [List.isEmpty_iff.1 none] at hrow
  cases hrow

end NavigatorEventbus.Bus.Dlq
