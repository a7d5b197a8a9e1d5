import NavigatorEventbus.Events.Envelope
import Mathlib.Data.List.Sort

/-!
# The outbox

The table of envelopes that wait for a backend (`outbox.py`), with its row cap and its counters.  Times are
integers in an arbitrary unit.  The connection, the file lock and the log are left out.
-/

namespace NavigatorEventbus

/-- A row of the table. -/
structure OutboxRow where
  eventId : String
  topic : String
  envelope : String
  createdAt : ℤ
  attempts : ℕ := 0
  nextTryAt : ℤ
  lastError : Option String := none

/-- What happens on an append at the row cap. -/
inductive Overflow where
  | rejectNew
  | dropOldest
  deriving DecidableEq

/-- The loss counters. -/
structure OutboxCounters where
  expired : ℕ := 0
  dropped : ℕ := 0
  rejected : ℕ := 0
  corrupt : ℕ := 0
  deriving DecidableEq

/-- The table, in the order of insertion, the pending count that is kept beside it, and the counters. -/
structure SqliteOutbox where
  maxRows : ℤ := 1000000
  maxAge : ℤ
  overflow : Overflow := .rejectNew
  rows : List OutboxRow := []
  pending : ℤ := 0
  counters : OutboxCounters := {}

/-- The exceptions of an append: the cap, and a value that is no text where the table has text. -/
inductive OutboxExc where
  | outboxFullError
  | bindingError
  deriving DecidableEq

namespace SqliteOutbox

/-- The rows, oldest first. -/
def byAge (rows : List OutboxRow) : List OutboxRow :=
  rows.mergeSort fun a b => decide (a.createdAt ≤ b.createdAt)

/-- Delete the rows that `drop` selects, and count them. -/
def deleteRows (store : SqliteOutbox) (drop : OutboxRow → Bool) : SqliteOutbox :=
  { store with
    rows := store.rows.filter fun row => !drop row
    pending := store.pending - (store.rows.countP drop : ℕ) }

/-- Make room at the row cap, or reject. -/
def makeRoom (store : SqliteOutbox) : Except OutboxExc Unit × SqliteOutbox :=
  if store.pending < store.maxRows then (.ok (), store)
  else
    match store.overflow with
    | .rejectNew =>
      (.error .outboxFullError,
        { store with counters := { store.counters with rejected := store.counters.rejected + 1 } })
    | .dropOldest =>
      match byAge store.rows with
      | [] => (.ok (), store)
      | oldest :: _ =>
        let deleted := store.deleteRows fun row => row.eventId = oldest.eventId
        (.ok (), { deleted with
          counters := { deleted.counters with
            dropped := deleted.counters.dropped + store.rows.countP fun row => row.eventId = oldest.eventId } })

/-- `INSERT OR IGNORE` of a row. -/
def insert (store : SqliteOutbox) (row : OutboxRow) : SqliteOutbox :=
  if ∃ r ∈ store.rows, r.eventId = row.eventId then store
  else { store with rows := store.rows ++ [row], pending := store.pending + 1 }

/-- `_sync_append`. -/
def append (store : SqliteOutbox) (e : EventEnvelope) (now : ℤ) : Except OutboxExc Unit × SqliteOutbox :=
  match store.makeRoom with
  | (.error exc, store) => (.error exc, store)
  | (.ok (), store) =>
    match e.eventId, e.topic with
    | .str eventId, .str topic =>
      (.ok (), store.insert
        { eventId, topic, envelope := dumps e.toDict, createdAt := now, nextTryAt := now })
    | _, _ => (.error .bindingError, store)

/-- `_sync_ack`. -/
def ack (store : SqliteOutbox) (eventId : String) : SqliteOutbox :=
  store.deleteRows fun row => row.eventId = eventId

/-- `_sync_nack`. -/
def nack (store : SqliteOutbox) (eventId error : String) (nextTryAt : ℤ) : SqliteOutbox :=
  { store with rows := store.rows.map fun row =>
      if row.eventId = eventId then
        { row with attempts := row.attempts + 1, lastError := some error, nextTryAt }
      else row }

/-- Delete the rows older than the maximal age. -/
def purge (store : SqliteOutbox) (now : ℤ) : SqliteOutbox :=
  let expired := fun row : OutboxRow => decide (row.createdAt < now - store.maxAge)
  { store.deleteRows expired with
    counters := { store.counters with
      expired := store.counters.expired + store.rows.countP expired } }

/-- Decode the selected rows; one that cannot be decoded is deleted. -/
def decodeRows (py : Readings) (uuid : String) :
    List OutboxRow → SqliteOutbox → List EventEnvelope × SqliteOutbox
  | [], store => ([], store)
  | row :: rest, store =>
    match fromJson py uuid row.envelope with
    | .ok e =>
      let (es, store) := decodeRows py uuid rest store
      (e :: es, store)
    | .error _ =>
      let deleted := store.deleteRows fun r => r.eventId = row.eventId
      decodeRows py uuid rest { deleted with
        counters := { deleted.counters with
          corrupt := deleted.counters.corrupt + store.rows.countP fun r => r.eventId = row.eventId } }

/-- `_sync_due`. -/
def due (store : SqliteOutbox) (py : Readings) (uuid : String) (now : ℤ) (limit : ℕ) :
    List EventEnvelope × SqliteOutbox :=
  let purged := store.purge now
  decodeRows py uuid
    ((byAge (purged.rows.filter fun row => decide (row.nextTryAt ≤ now))).take limit) purged

end SqliteOutbox

/-! ## Runs -/

/-- A use of the outbox. -/
inductive OutboxOp where
  | append (e : EventEnvelope) (now : ℤ)
  | ack (eventId : String)
  | nack (eventId error : String) (nextTryAt : ℤ)
  | due (now : ℤ) (limit : ℕ)

namespace SqliteOutbox

variable (py : Readings) (uuid : String)

/-- What a use returns to the relay, and the store that it leaves. -/
def step (store : SqliteOutbox) : OutboxOp → List EventEnvelope × SqliteOutbox
  | .append e now => ([], (store.append e now).2)
  | .ack eventId => ([], store.ack eventId)
  | .nack eventId error nextTryAt => ([], store.nack eventId error nextTryAt)
  | .due now limit => store.due py uuid now limit

/-- The store after a sequence of uses, with everything that was returned to the relay. -/
def run (store : SqliteOutbox) : List OutboxOp → List EventEnvelope × SqliteOutbox
  | [] => ([], store)
  | op :: ops =>
    let (es, store) := store.step py uuid op
    let (es', store) := store.run ops
    (es ++ es', store)

/-! ## Rows hold the envelopes that were appended -/

variable {py uuid}

/-- Every row is the text of an envelope with property `A`. -/
def Holds (A : EventEnvelope → Prop) (store : SqliteOutbox) : Prop :=
  ∀ row ∈ store.rows, ∃ e, A e ∧ row.envelope = dumps e.toDict

variable {A : EventEnvelope → Prop} {store : SqliteOutbox}

theorem Holds.deleteRows (h : Holds A store) (drop : OutboxRow → Bool) : Holds A (store.deleteRows drop) :=
  fun row hrow => h row (List.mem_filter.1 hrow).1

theorem Holds.makeRoom (h : Holds A store) : Holds A store.makeRoom.2 := by
  unfold SqliteOutbox.makeRoom
  split_ifs
  · exact h
  · split
    · exact h
    · split
      · exact h
      · exact h.deleteRows _

theorem Holds.append (h : Holds A store) {e : EventEnvelope} (he : A e) (now : ℤ) :
    Holds A (store.append e now).2 := by
  have admitted := h.makeRoom
  unfold SqliteOutbox.append
  split
  · rename_i exc store' eq
    rw [eq] at admitted
    exact admitted
  · rename_i store' eq
    rw [eq] at admitted
    split
    · intro row hrow
      unfold SqliteOutbox.insert at hrow
      split_ifs at hrow
      · exact admitted row hrow
      · rcases List.mem_append.1 hrow with hrow | hrow
        · exact admitted row hrow
        · obtain rfl := List.mem_singleton.1 hrow
          exact ⟨e, he, rfl⟩
    · exact admitted

theorem Holds.nack (h : Holds A store) (eventId error : String) (nextTryAt : ℤ) :
    Holds A (store.nack eventId error nextTryAt) := by
  intro row hrow
  obtain ⟨row', hrow', rfl⟩ := List.mem_map.1 hrow
  split_ifs <;> exact h row' hrow'

/-- Rows that hold decodable envelopes are decoded, and none is deleted. -/
theorem decodeRows_of_decodable (decodes : ∀ e, A e → fromJson py uuid (dumps e.toDict) = .ok e)
    {rows : List OutboxRow} (h : ∀ row ∈ rows, ∃ e, A e ∧ row.envelope = dumps e.toDict)
    (store : SqliteOutbox) :
    (decodeRows py uuid rows store).2 = store ∧ ∀ e ∈ (decodeRows py uuid rows store).1, A e := by
  induction rows with
  | nil => exact ⟨rfl, nofun⟩
  | cons row rows ih =>
    obtain ⟨e, he, text⟩ := h row (List.mem_cons_self ..)
    obtain ⟨same, all⟩ := ih fun row hrow => h row (List.mem_cons_of_mem _ hrow)
    simp only [decodeRows, text, decodes e he]
    exact ⟨same, List.forall_mem_cons.2 ⟨he, all⟩⟩

/-- A call of `due` on rows that hold decodable envelopes deletes none of them as corrupt. -/
theorem Holds.due (h : Holds A store) (decodes : ∀ e, A e → fromJson py uuid (dumps e.toDict) = .ok e)
    (now : ℤ) (limit : ℕ) :
    (store.due py uuid now limit).2 = store.purge now ∧
      ∀ e ∈ (store.due py uuid now limit).1, A e := by
  refine decodeRows_of_decodable decodes (fun row hrow => ?_) _
  have selected : row ∈ (store.purge now).rows :=
    (List.mem_filter.1 (List.mem_mergeSort.1 (List.mem_of_mem_take hrow))).1
  exact h row (List.mem_filter.1 selected).1

/-- A use of the outbox keeps its rows decodable, and deletes none of them as corrupt. -/
theorem Holds.step (h : Holds A store) (decodes : ∀ e, A e → fromJson py uuid (dumps e.toDict) = .ok e)
    {op : OutboxOp} (appended : ∀ e now, op = .append e now → A e) :
    Holds A (store.step py uuid op).2 ∧
      (store.step py uuid op).2.counters.corrupt = store.counters.corrupt ∧
      ∀ e ∈ (store.step py uuid op).1, A e := by
  cases op with
  | append e now =>
    refine ⟨h.append (appended e now rfl) now, ?_, nofun⟩
    have admitted : store.makeRoom.2.counters.corrupt = store.counters.corrupt := by
      unfold SqliteOutbox.makeRoom
      split_ifs
      · rfl
      · split
        · rfl
        · split <;> rfl
    show (store.append e now).2.counters.corrupt = _
    unfold SqliteOutbox.append
    split
    · rename_i eq
      rw [eq] at admitted
      exact admitted
    · rename_i eq
      rw [eq] at admitted
      split
      · unfold SqliteOutbox.insert
        split_ifs <;> exact admitted
      · exact admitted
  | ack eventId => exact ⟨h.deleteRows _, rfl, nofun⟩
  | nack eventId error nextTryAt => exact ⟨h.nack _ _ _, rfl, nofun⟩
  | due now limit =>
    obtain ⟨purged, all⟩ := h.due decodes now limit
    refine ⟨?_, ?_, all⟩
    · show Holds A (store.due py uuid now limit).2
      rw [purged]
      exact h.deleteRows _
    · show (store.due py uuid now limit).2.counters.corrupt = _
      rw [purged]
      rfl

/-- A run of the outbox deletes no row as corrupt, when every appended envelope is decodable. -/
theorem Holds.run (decodes : ∀ e, A e → fromJson py uuid (dumps e.toDict) = .ok e) {ops : List OutboxOp}
    (appended : ∀ e now, .append e now ∈ ops → A e) (h : Holds A store) :
    (store.run py uuid ops).2.counters.corrupt = store.counters.corrupt ∧
      ∀ e ∈ (store.run py uuid ops).1, A e := by
  induction ops generalizing store with
  | nil => exact ⟨rfl, nofun⟩
  | cons op ops ih =>
    have head : ∀ e now, op = .append e now → A e := fun e now eq =>
      appended e now (eq ▸ List.mem_cons_self ..)
    obtain ⟨holds, corrupt, all⟩ := h.step decodes head
    obtain ⟨corrupt', all'⟩ := ih (fun e now he => appended e now (List.mem_cons_of_mem _ he)) holds
    refine ⟨corrupt'.trans corrupt, fun e he => ?_⟩
    rcases List.mem_append.1 he with he | he
    · exact all e he
    · exact all' e he

end SqliteOutbox

end NavigatorEventbus
