import Mathlib.Data.List.AList
import Mathlib.Data.List.MinMax
import Mathlib.Data.Prod.Lex
import Mathlib.Data.List.Sort
import Mathlib.Tactic.SplitIfs

/-!
# Sorted sets

A `SortedSet α σ` is a finite set of members of `α`, each with a score in `σ`, ordered by score and
then by member: the sorted set of a key-value store.
-/

/-- Members with scores; no member occurs twice. -/
structure SortedSet (α σ : Type) where
  scores : AList fun _ : α => σ

namespace SortedSet

variable {α σ : Type}

/-- The set without members. -/
def empty : SortedSet α σ := ⟨∅⟩

instance : EmptyCollection (SortedSet α σ) := ⟨empty⟩

instance : Inhabited (SortedSet α σ) := ⟨empty⟩

instance : Membership α (SortedSet α σ) := ⟨fun z a => a ∈ z.scores⟩

/-- The number of members. -/
def card (z : SortedSet α σ) : ℕ := z.scores.entries.length

theorem mem_def {z : SortedSet α σ} {a : α} : a ∈ z ↔ a ∈ z.scores := Iff.rfl

@[simp] theorem notMem_empty (a : α) : a ∉ (∅ : SortedSet α σ) :=
  fun h => absurd (AList.mem_keys.1 h) List.not_mem_nil

section Decidable

variable [DecidableEq α]

instance (a : α) (z : SortedSet α σ) : Decidable (a ∈ z) :=
  inferInstanceAs (Decidable (a ∈ z.scores))

/-- The score of a member. -/
def score (z : SortedSet α σ) (a : α) : Option σ := z.scores.lookup a

/-- `a` with score `s`, added or moved. -/
def add (z : SortedSet α σ) (a : α) (s : σ) : SortedSet α σ := ⟨z.scores.insert a s⟩

/-- The set without `a`. -/
def remove (z : SortedSet α σ) (a : α) : SortedSet α σ := ⟨z.scores.erase a⟩

theorem mem_iff_score {z : SortedSet α σ} {a : α} : a ∈ z ↔ ∃ s, z.score a = some s := by
  rw [mem_def, ← AList.lookup_isSome, Option.isSome_iff_exists]
  rfl

@[simp] theorem score_empty (a : α) : (∅ : SortedSet α σ).score a = none := rfl

@[simp] theorem mem_add {z : SortedSet α σ} {a b : α} {s : σ} : b ∈ z.add a s ↔ b = a ∨ b ∈ z :=
  AList.mem_insert _

@[simp] theorem mem_remove {z : SortedSet α σ} {a b : α} : b ∈ z.remove a ↔ b ≠ a ∧ b ∈ z :=
  AList.mem_erase

@[simp] theorem score_add_self {z : SortedSet α σ} {a : α} {s : σ} : (z.add a s).score a = some s :=
  AList.lookup_insert _

theorem score_add_of_ne {z : SortedSet α σ} {a b : α} {s : σ} (h : b ≠ a) :
    (z.add a s).score b = z.score b :=
  AList.lookup_insert_ne h

theorem score_remove_of_ne {z : SortedSet α σ} {a b : α} (h : b ≠ a) :
    (z.remove a).score b = z.score b :=
  AList.lookup_erase_ne h

theorem score_remove {z : SortedSet α σ} {a b : α} :
    (z.remove a).score b = if b = a then none else z.score b := by
  split_ifs with h
  · subst h
    exact AList.lookup_erase _ _
  · exact score_remove_of_ne h

theorem score_add {z : SortedSet α σ} {a b : α} {s : σ} :
    (z.add a s).score b = if b = a then some s else z.score b := by
  split_ifs with h
  · subst h
    exact score_add_self
  · exact score_add_of_ne h

theorem mem_entries_iff {z : SortedSet α σ} {a : α} {s : σ} :
    ⟨a, s⟩ ∈ z.scores.entries ↔ z.score a = some s := by
  rw [score, AList.mem_lookup_iff.symm]
  exact Iff.rfl

theorem card_pos_iff {z : SortedSet α σ} : 0 < z.card ↔ ∃ a, a ∈ z := by
  rw [card, List.length_pos_iff_exists_mem]
  constructor
  · rintro ⟨⟨a, s⟩, he⟩
    exact ⟨a, mem_iff_score.2 ⟨s, mem_entries_iff.1 he⟩⟩
  · rintro ⟨a, ha⟩
    obtain ⟨s, hs⟩ := mem_iff_score.1 ha
    exact ⟨⟨a, s⟩, mem_entries_iff.2 hs⟩

end Decidable

/-! ## Order -/

section Order

variable [LinearOrder α] [LinearOrder σ]

/-- The place of an entry: its score, then its member. -/
def place (e : Sigma fun _ : α => σ) : σ ×ₗ α := toLex (e.2, e.1)

/-- The first member. -/
def head (z : SortedSet α σ) : Option α := (z.scores.entries.argmin place).map Sigma.fst

/-- The members in order. -/
def members (z : SortedSet α σ) : List α :=
  (z.scores.entries.insertionSort fun e f => place e ≤ place f).map Sigma.fst

/-- The first `n` members with a score of at most `s`, in order. -/
def upTo (z : SortedSet α σ) (s : σ) (n : ℕ) : List α :=
  (((z.scores.entries.filter fun e => e.2 ≤ s).insertionSort fun e f => place e ≤ place f).map
    Sigma.fst).take n

/-- The set without the members whose score is at most `s`. -/
def dropUpTo (z : SortedSet α σ) (s : σ) : SortedSet α σ :=
  ⟨⟨z.scores.entries.filter fun e => s < e.2, z.scores.nodupKeys.sublist List.filter_sublist⟩⟩

theorem mem_dropUpTo {z : SortedSet α σ} {s : σ} {a : α} :
    a ∈ z.dropUpTo s ↔ ∃ t, z.score a = some t ∧ s < t := by
  rw [mem_iff_score]
  refine exists_congr fun t => ?_
  rw [← mem_entries_iff, ← mem_entries_iff, dropUpTo, List.mem_filter]
  simp

theorem head_eq_none {z : SortedSet α σ} : z.head = none ↔ ∀ a, a ∉ z := by
  rw [head, Option.map_eq_none_iff, List.argmin_eq_none]
  constructor
  · intro h a ha
    obtain ⟨s, hs⟩ := mem_iff_score.1 ha
    have := mem_entries_iff.2 hs
    rw [h] at this
    exact absurd this List.not_mem_nil
  · intro h
    by_contra hne
    obtain ⟨⟨a, s⟩, he⟩ := List.exists_mem_of_ne_nil _ hne
    exact h a (mem_iff_score.2 ⟨s, mem_entries_iff.1 he⟩)

theorem head_mem {z : SortedSet α σ} {a : α} (h : z.head = some a) : a ∈ z := by
  obtain ⟨⟨b, s⟩, he, rfl⟩ := Option.map_eq_some_iff.1 h
  exact mem_iff_score.2 ⟨s, mem_entries_iff.1 (List.argmin_mem he)⟩

/-- The head comes before every other member. -/
theorem head_le {z : SortedSet α σ} {a b : α} {s t : σ} (h : z.head = some a)
    (ha : z.score a = some s) (hb : z.score b = some t) : toLex (s, a) ≤ toLex (t, b) := by
  obtain ⟨⟨a', s'⟩, he, rfl⟩ := Option.map_eq_some_iff.1 h
  have hs : z.score a' = some s' := mem_entries_iff.1 (List.argmin_mem he)
  cases ha.symm.trans hs
  exact List.le_of_mem_argmin (f := place) (mem_entries_iff.2 hb) he

theorem head_isSome_iff {z : SortedSet α σ} : (∃ a, z.head = some a) ↔ ∃ a, a ∈ z := by
  constructor
  · rintro ⟨a, ha⟩
    exact ⟨a, head_mem ha⟩
  · rintro ⟨a, ha⟩
    cases h : z.head with
    | none => exact absurd ha (head_eq_none.1 h a)
    | some b => exact ⟨b, rfl⟩

theorem mem_members {z : SortedSet α σ} {a : α} : a ∈ z.members ↔ a ∈ z := by
  simp only [members, List.mem_map, List.mem_insertionSort]
  constructor
  · rintro ⟨⟨a, s⟩, he, rfl⟩
    exact mem_iff_score.2 ⟨s, mem_entries_iff.1 he⟩
  · intro ha
    obtain ⟨s, hs⟩ := mem_iff_score.1 ha
    exact ⟨⟨a, s⟩, mem_entries_iff.2 hs, rfl⟩

theorem mem_of_mem_upTo {z : SortedSet α σ} {s : σ} {n : ℕ} {a : α} (h : a ∈ z.upTo s n) :
    ∃ t, z.score a = some t ∧ t ≤ s := by
  obtain ⟨⟨a, t⟩, he, rfl⟩ := List.mem_map.1 (List.mem_of_mem_take h)
  rw [List.mem_insertionSort, List.mem_filter] at he
  exact ⟨t, mem_entries_iff.1 he.1, by simpa using he.2⟩

end Order

end SortedSet
