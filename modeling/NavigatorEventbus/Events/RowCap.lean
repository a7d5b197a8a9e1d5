import NavigatorEventbus.Events.Outbox

/-!
# The row cap of the outbox

An append at the row cap makes room before it looks at the event: it neither asks whether the event is stored
already nor whether its envelope can be written as JSON (`_sync_append` in `outbox.py`).  The pending count
follows every insertion and deletion all the same, because each subtracts what the table reports, and the
event ids of the rows are distinct (`Capped`).
-/

namespace NavigatorEventbus

/-- What an append reads of an envelope: its id, its topic, and the text that `json.dumps` makes of it, which
there is none of when the payload or the metadata are not JSON. -/
structure OutboxEnvelope where
  eventId : String
  topic : String
  text : Option String

/-- The exceptions of an append of such an envelope. -/
inductive AppendExc where
  | outboxFullError
  | typeError
  deriving DecidableEq

namespace SqliteOutbox

/-- The row of an envelope with the given text. -/
def freshRow (e : OutboxEnvelope) (text : String) (now : ℤ) : OutboxRow :=
  { eventId := e.eventId, topic := e.topic, envelope := text, createdAt := now, nextTryAt := now }

/-- `_sync_append`, with an envelope that `json.dumps` may refuse. -/
def syncAppend (store : SqliteOutbox) (e : OutboxEnvelope) (now : ℤ) :
    Except AppendExc Unit × SqliteOutbox :=
  match store.makeRoom with
  | (.error _, store) => (.error .outboxFullError, store)
  | (.ok (), store) =>
    match e.text with
    | none => (.error .typeError, store)
    | some text => (.ok (), store.insert (freshRow e text now))

/-- The appends of the relay's model are those of envelopes that have a text. -/
theorem append_eq_syncAppend (store : SqliteOutbox) {e : EventEnvelope} {eventId topic : String} (now : ℤ)
    (id : e.eventId = .str eventId) (named : e.topic = .str topic) :
    (store.append e now).2 = (store.syncAppend ⟨eventId, topic, some (dumps e.toDict)⟩ now).2 ∧
      ((store.append e now).1 = .ok () ↔
        (store.syncAppend ⟨eventId, topic, some (dumps e.toDict)⟩ now).1 = .ok ()) := by
  unfold append syncAppend
  rw [id, named]
  cases hroom : store.makeRoom with
  | mk r store' =>
    cases r with
    | error exc => exact ⟨rfl, nofun, nofun⟩
    | ok => exact ⟨rfl, fun _ => rfl, fun _ => rfl⟩

end SqliteOutbox

/-- A use of the outbox, by producers and the relay. -/
inductive OutboxUse where
  | append (e : OutboxEnvelope) (now : ℤ)
  | ack (eventId : String)
  | nack (eventId error : String) (nextTryAt : ℤ)
  | due (now : ℤ) (limit : ℕ)

namespace SqliteOutbox

/-- The store that a use leaves. -/
def used (py : Readings) (uuid : String) (store : SqliteOutbox) : OutboxUse → SqliteOutbox
  | .append e now => (store.syncAppend e now).2
  | .ack eventId => store.ack eventId
  | .nack eventId error nextTryAt => store.nack eventId error nextTryAt
  | .due now limit => (store.due py uuid now limit).2

/-- The event ids of the rows. -/
def ids (store : SqliteOutbox) : List String := store.rows.map OutboxRow.eventId

/-- The table is at the row cap. -/
def Full (store : SqliteOutbox) : Prop := store.maxRows ≤ (store.rows.length : ℤ)

instance (store : SqliteOutbox) : Decidable store.Full := inferInstanceAs (Decidable (_ ≤ _))

/-- The event ids are distinct, the pending count is the number of rows, and it respects the cap. -/
structure Capped (store : SqliteOutbox) : Prop where
  distinct : store.ids.Nodup
  pending : store.pending = (store.rows.length : ℤ)
  cap : store.pending ≤ store.maxRows
  room : 1 ≤ store.maxRows

/-- `after` is `store` without `oldest`, a row that no row is older than. -/
structure WithoutOldest (store after : SqliteOutbox) (oldest : OutboxRow) (before rest : List OutboxRow) :
    Prop where
  rows : store.rows = before ++ oldest :: rest
  oldest : ∀ row ∈ store.rows, oldest.createdAt ≤ row.createdAt
  left : after.rows = before ++ rest

/-! ## Every use keeps the count -/

section Capped

variable {py : Readings} {uuid : String} {store : SqliteOutbox}

theorem Capped.deleteRows (h : store.Capped) (drop : OutboxRow → Bool) : (store.deleteRows drop).Capped := by
  have split : store.rows.length = store.rows.countP drop + (store.deleteRows drop).rows.length := by
    rw [List.length_eq_countP_add_countP drop, SqliteOutbox.deleteRows, ← List.countP_eq_length_filter]
    simp
  have pending : (store.deleteRows drop).pending = store.pending - (store.rows.countP drop : ℕ) := rfl
  refine ⟨?_, ?_, ?_, h.room⟩
  · exact (List.filter_sublist.map OutboxRow.eventId).nodup h.distinct
  · rw [pending, h.pending, split]
    omega
  · have cap := h.cap
    show (store.deleteRows drop).pending ≤ store.maxRows
    rw [pending]
    omega

theorem Capped.of_counters (h : store.Capped) (c : OutboxCounters) : { store with counters := c }.Capped :=
  ⟨h.distinct, h.pending, h.cap, h.room⟩

/-- Of the rows with distinct ids, the one with the id of a row is that row. -/
theorem deleteRows_eventId {before rest : List OutboxRow} {oldest : OutboxRow} (h : store.Capped)
    (rows : store.rows = before ++ oldest :: rest) :
    store.rows.countP (fun row => row.eventId = oldest.eventId) = 1 ∧
      (store.deleteRows fun row => row.eventId = oldest.eventId).rows = before ++ rest := by
  have distinct := h.distinct
  rw [ids, rows, List.map_append, List.map_cons, List.nodup_append] at distinct
  obtain ⟨-, tail, apart⟩ := distinct
  have inBefore : ∀ row ∈ before, row.eventId ≠ oldest.eventId := fun row hrow =>
    apart _ (List.mem_map_of_mem hrow) _ (List.mem_cons_self ..)
  have inRest : ∀ row ∈ rest, row.eventId ≠ oldest.eventId := fun row hrow eq =>
    (List.nodup_cons.1 tail).1 (eq ▸ List.mem_map_of_mem hrow)
  have none : ∀ l : List OutboxRow, (∀ row ∈ l, row.eventId ≠ oldest.eventId) →
      l.countP (fun row => decide (row.eventId = oldest.eventId)) = 0 ∧
        l.filter (fun row => !decide (row.eventId = oldest.eventId)) = l := by
    intro l hl
    refine ⟨List.countP_eq_zero.2 fun row hrow => by simpa using hl row hrow, ?_⟩
    exact List.filter_eq_self.2 fun row hrow => by simpa using hl row hrow
  refine ⟨?_, ?_⟩
  · rw [rows, List.countP_append, List.countP_cons, (none before inBefore).1, (none rest inRest).1]
    simp
  · rw [SqliteOutbox.deleteRows, rows, List.filter_append, List.filter_cons, (none before inBefore).2,
      (none rest inRest).2]
    simp

/-- What making room does: nothing below the cap, else a rejection or the loss of the oldest row. -/
theorem makeRoom_cases (h : store.Capped) :
    (¬ store.Full ∧ store.makeRoom = (.ok (), store)) ∨
    (store.Full ∧ store.overflow = .rejectNew ∧ store.makeRoom = (.error .outboxFullError,
      { store with counters := { store.counters with rejected := store.counters.rejected + 1 } })) ∨
    (store.Full ∧ store.overflow = .dropOldest ∧ ∃ room oldest before rest,
      store.makeRoom = (.ok (), room) ∧ store.WithoutOldest room oldest before rest ∧ room.Capped ∧
        room.pending < room.maxRows ∧ room.counters.dropped = store.counters.dropped + 1) := by
  have pending := h.pending
  unfold makeRoom Full
  split_ifs with hroom
  · exact .inl ⟨by omega, rfl⟩
  · have full : store.maxRows ≤ (store.rows.length : ℤ) := by omega
    cases hoverflow : store.overflow with
    | rejectNew => exact .inr (.inl ⟨full, rfl, rfl⟩)
    | dropOldest =>
      refine .inr (.inr ⟨full, rfl, ?_⟩)
      have sorted := @List.pairwise_mergeSort _ (fun a b : OutboxRow => decide (a.createdAt ≤ b.createdAt))
        (fun a b c hab hbc => by simp at *; omega) (fun a b => by simp; omega) store.rows
      have perm := List.mergeSort_perm store.rows fun a b => decide (a.createdAt ≤ b.createdAt)
      dsimp only
      change List.Pairwise _ (byAge store.rows) at sorted
      change (byAge store.rows).Perm store.rows at perm
      cases hbyAge : byAge store.rows with
      | nil =>
        -- a full table is not empty
        rw [hbyAge] at perm
        have room := h.room
        rw [perm.symm.eq_nil] at full
        simp only [List.length_nil] at full
        omega
      | cons oldest younger =>
        rw [hbyAge] at sorted perm
        obtain ⟨before, rest, rows⟩ := List.append_of_mem (perm.subset (List.mem_cons_self ..))
        obtain ⟨one, left⟩ := deleteRows_eventId h rows
        have least : ∀ row ∈ store.rows, oldest.createdAt ≤ row.createdAt := by
          intro row hrow
          rcases List.mem_cons.1 (perm.symm.subset hrow) with rfl | hrow
          · exact le_refl _
          · simpa using (List.pairwise_cons.1 sorted).1 row hrow
        refine ⟨_, oldest, before, rest, rfl, ⟨rows, least, left⟩, (h.deleteRows _).of_counters _, ?_, ?_⟩
        · have cap := h.cap
          show store.pending - (store.rows.countP _ : ℕ) < store.maxRows
          rw [one]
          omega
        · show store.counters.dropped + store.rows.countP _ = _
          rw [one]

theorem Capped.insert (h : store.Capped) (room : store.pending < store.maxRows) (row : OutboxRow) :
    (store.insert row).Capped := by
  unfold SqliteOutbox.insert
  split_ifs with known
  · exact h
  · have pending := h.pending
    refine ⟨?_, ?_, ?_, h.room⟩
    · show (List.map OutboxRow.eventId (store.rows ++ [row])).Nodup
      rw [List.map_append, List.map_singleton, List.nodup_append]
      refine ⟨h.distinct, by simp, fun a ha b hb => ?_⟩
      rw [List.mem_singleton.1 hb]
      rintro rfl
      obtain ⟨r, hr, eq⟩ := List.mem_map.1 ha
      exact known ⟨r, hr, eq⟩
    · show store.pending + 1 = ((store.rows ++ [row]).length : ℤ)
      rw [List.length_append, List.length_singleton, pending]
      rfl
    · show store.pending + 1 ≤ store.maxRows
      omega

theorem Capped.syncAppend (h : store.Capped) (e : OutboxEnvelope) (now : ℤ) :
    (store.syncAppend e now).2.Capped := by
  have finish : ∀ room : SqliteOutbox, store.makeRoom = (.ok (), room) → room.Capped →
      room.pending < room.maxRows → (store.syncAppend e now).2.Capped := by
    intro room hroom capped space
    rw [SqliteOutbox.syncAppend, hroom]
    cases e.text with
    | none => exact capped
    | some text => exact capped.insert space _
  rcases makeRoom_cases h with ⟨space, hroom⟩ | ⟨-, -, hroom⟩ | ⟨-, -, room, _, _, _, hroom, -, capped, space, -⟩
  · refine finish store hroom h ?_
    have pending := h.pending
    unfold Full at space
    omega
  · rw [SqliteOutbox.syncAppend, hroom]
    exact h.of_counters _
  · exact finish room hroom capped space

theorem Capped.nack (h : store.Capped) (eventId error : String) (nextTryAt : ℤ) :
    (store.nack eventId error nextTryAt).Capped := by
  have same : (store.nack eventId error nextTryAt).ids = store.ids := by
    simp only [ids, SqliteOutbox.nack, List.map_map]
    refine List.map_congr_left fun row _ => ?_
    simp only [Function.comp_apply]
    split_ifs <;> rfl
  refine ⟨same ▸ h.distinct, ?_, h.cap, h.room⟩
  show store.pending = ((store.rows.map _).length : ℤ)
  rw [List.length_map]
  exact h.pending

theorem Capped.decodeRows (rows : List OutboxRow) (h : store.Capped) :
    (decodeRows py uuid rows store).2.Capped := by
  induction rows generalizing store with
  | nil => exact h
  | cons row rows ih =>
    unfold SqliteOutbox.decodeRows
    split
    · exact ih h
    · exact ih ((h.deleteRows _).of_counters _)

theorem Capped.used (h : store.Capped) (use : OutboxUse) : (store.used py uuid use).Capped := by
  cases use with
  | append e now => exact h.syncAppend e now
  | ack eventId => exact h.deleteRows _
  | nack eventId error nextTryAt => exact h.nack eventId error nextTryAt
  | due now limit => exact ((h.deleteRows _).of_counters _).decodeRows _

end Capped

/-! ## What an append promises -/

/-- An event that is stored already leaves everything as it was; an append that raises leaves the rows and
their count; any other inserts the event, and takes the oldest row exactly when the table was full and the
policy says so. -/
structure AppendMeets (store : SqliteOutbox) (e : OutboxEnvelope) (now : ℤ) : Prop where
  known : e.eventId ∈ store.ids → store.syncAppend e now = (.ok (), store)
  raised : ∀ exc after, store.syncAppend e now = (.error exc, after) →
    after.rows = store.rows ∧ after.pending = store.pending
  inserted : ∀ after, store.syncAppend e now = (.ok (), after) → e.eventId ∉ store.ids →
    ∃ text left, e.text = some text ∧ after.rows = left.rows ++ [freshRow e text now] ∧
      if store.Full ∧ store.overflow = .dropOldest then
        ∃ oldest before rest, store.WithoutOldest left oldest before rest
      else left.rows = store.rows

/-- An event that is stored already comes while the table has room, and with a text; and so does any event
that takes the place of the oldest row. -/
def Fits (store : SqliteOutbox) (e : OutboxEnvelope) : Prop :=
  (e.eventId ∈ store.ids → ¬ store.Full ∧ e.text ≠ none) ∧
    (store.Full → store.overflow = .dropOldest → e.text ≠ none)

section AppendMeets

variable {store room : SqliteOutbox} {e : OutboxEnvelope} {now : ℤ}

theorem insert_of_known {text : String} (known : e.eventId ∈ room.ids) :
    room.insert (freshRow e text now) = room := by
  obtain ⟨row, hrow, eq⟩ := List.mem_map.1 known
  exact if_pos ⟨row, hrow, eq⟩

theorem rows_insert_of_fresh {text : String} (fresh : e.eventId ∉ room.ids) :
    (room.insert (freshRow e text now)).rows = room.rows ++ [freshRow e text now] := by
  have none : ¬ ∃ row ∈ room.rows, row.eventId = (freshRow e text now).eventId := by
    rintro ⟨row, hrow, eq⟩
    exact fresh (List.mem_map.2 ⟨row, hrow, eq⟩)
  rw [SqliteOutbox.insert, if_neg none]

theorem counters_insert (room : SqliteOutbox) (row : OutboxRow) :
    (room.insert row).counters = room.counters := by
  unfold SqliteOutbox.insert
  split_ifs <;> rfl

/-- The rows without the oldest are among the rows. -/
theorem WithoutOldest.ids_subset {oldest : OutboxRow} {before rest : List OutboxRow}
    (h : store.WithoutOldest room oldest before rest) : ∀ id ∈ room.ids, id ∈ store.ids := by
  intro id hid
  obtain ⟨row, hrow, rfl⟩ := List.mem_map.1 hid
  rw [h.left] at hrow
  refine List.mem_map_of_mem ?_
  rw [h.rows]
  rcases List.mem_append.1 hrow with hrow | hrow
  · exact List.mem_append_left _ hrow
  · exact List.mem_append_right _ (List.mem_cons_of_mem _ hrow)

theorem AppendMeets.fits (h : store.Capped) (meets : store.AppendMeets e now) : store.Fits e := by
  obtain ⟨known, raised, -⟩ := meets
  have text : e.eventId ∈ store.ids → e.text ≠ none := by
    intro hid none
    have same := known hid
    rcases makeRoom_cases h with ⟨-, hroom⟩ | ⟨-, -, hroom⟩ | ⟨-, -, room, _, _, _, hroom, -⟩ <;>
    · rw [syncAppend, hroom] at same
      simp [none] at same
  refine ⟨fun hid => ⟨fun full => ?_, text hid⟩, fun full drops none => ?_⟩
  · have same := known hid
    rcases makeRoom_cases h with ⟨space, -⟩ | ⟨-, -, hroom⟩ | ⟨-, -, room, _, _, _, hroom, -, -, -, dropped⟩
    · exact space full
    · rw [syncAppend, hroom] at same
      cases same
    · -- the oldest row is counted as dropped
      obtain ⟨t, ht⟩ := Option.ne_none_iff_exists'.1 (text hid)
      rw [syncAppend, hroom, ht] at same
      have counted := congrArg (fun r => r.2.counters.dropped) same
      dsimp only at counted
      rw [counters_insert, dropped] at counted
      omega
  · rcases makeRoom_cases h with ⟨space, -⟩ | ⟨-, rejects, -⟩ | ⟨-, -, room, _, _, _, hroom, without, -⟩
    · exact space full
    · rw [drops] at rejects
      cases rejects
    · have lost := (raised .typeError room (by rw [syncAppend, hroom, none])).1
      rw [without.left, without.rows] at lost
      have lengths := congrArg List.length lost
      simp only [List.length_append, List.length_cons] at lengths
      omega

theorem Fits.meets (h : store.Capped) (fits : store.Fits e) (now : ℤ) : store.AppendMeets e now := by
  obtain ⟨known, drops⟩ := fits
  rcases makeRoom_cases h with ⟨space, hroom⟩ | ⟨full, rejects, hroom⟩ |
    ⟨full, dropOldest, room, oldest, before, rest, hroom, without, -⟩
  · refine ⟨fun hid => ?_, fun exc after eq => ?_, fun after eq fresh => ?_⟩
    · obtain ⟨t, ht⟩ := Option.ne_none_iff_exists'.1 (known hid).2
      rw [syncAppend, hroom, ht]
      dsimp only
      rw [insert_of_known hid]
    · rw [syncAppend, hroom] at eq
      cases ht : e.text with
      | none =>
        rw [ht] at eq
        cases eq
        exact ⟨rfl, rfl⟩
      | some t =>
        rw [ht] at eq
        cases eq
    · rw [syncAppend, hroom] at eq
      cases ht : e.text with
      | none =>
        rw [ht] at eq
        cases eq
      | some t =>
        rw [ht] at eq
        cases eq
        exact ⟨t, store, rfl, rows_insert_of_fresh fresh, by rw [if_neg fun hf => space hf.1]⟩
  · refine ⟨fun hid => absurd full (known hid).1, fun exc after eq => ?_, fun after eq => ?_⟩
    · rw [syncAppend, hroom] at eq
      cases eq
      exact ⟨rfl, rfl⟩
    · rw [syncAppend, hroom] at eq
      cases eq
  · obtain ⟨t, ht⟩ := Option.ne_none_iff_exists'.1 (drops full dropOldest)
    refine ⟨fun hid => absurd full (known hid).1, fun exc after eq => ?_, fun after eq fresh => ?_⟩
    · rw [syncAppend, hroom, ht] at eq
      cases eq
    · rw [syncAppend, hroom, ht] at eq
      cases eq
      refine ⟨t, room, ht, rows_insert_of_fresh fun hid => fresh (without.ids_subset _ hid), ?_⟩
      rw [if_pos ⟨full, dropOldest⟩]
      exact ⟨oldest, before, rest, without⟩

end AppendMeets

end SqliteOutbox

end NavigatorEventbus
