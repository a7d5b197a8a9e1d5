import Mathlib.Data.List.Nodup

/-!
# A bounded memory

A memory of at most `cap` things, in the order in which they entered.  A thing that is remembered again keeps
its place; a new one that enters a full memory displaces the oldest.
-/

namespace BoundedMemory

variable {α : Type} [DecidableEq α] {cap : ℕ} {l : List α} {x y : α}

/-- `x` is remembered, and what exceeds the bound is forgotten, oldest first. -/
def remember (cap : ℕ) (l : List α) (x : α) : List α :=
  let l := if x ∈ l then l else l ++ [x]
  l.drop (l.length - cap)

/-- `x` is forgotten. -/
def forget (l : List α) (x : α) : List α := l.filter (· ≠ x)

/-- `x` is the oldest in a full memory, and `y` would be new there. -/
def Displaces (cap : ℕ) (l : List α) (y x : α) : Prop := y ∉ l ∧ l.length = cap ∧ l.head? = some x

instance (cap : ℕ) (l : List α) (y x : α) : Decidable (Displaces cap l y x) :=
  inferInstanceAs (Decidable (_ ∧ _ ∧ _))

theorem remember_of_mem (bound : l.length ≤ cap) (hx : x ∈ l) : remember cap l x = l := by
  have none : l.length - cap = 0 := by omega
  rw [remember, if_pos hx, none, List.drop_zero]

theorem remember_of_lt (space : l.length < cap) (hx : x ∉ l) : remember cap l x = l ++ [x] := by
  have none : (l ++ [x]).length - cap = 0 := by simp; omega
  rw [remember, if_neg hx, none, List.drop_zero]

theorem remember_of_full (full : l.length = cap) (hx : x ∉ l) : remember cap l x = (l ++ [x]).drop 1 := by
  have one : (l ++ [x]).length - cap = 1 := by simp; omega
  rw [remember, if_neg hx, one]

theorem length_remember_le (l : List α) (x : α) : (remember cap l x).length ≤ cap := by
  rw [remember, List.length_drop]
  omega

theorem nodup_remember (h : l.Nodup) (x : α) : (remember cap l x).Nodup := by
  rw [remember]
  refine List.Nodup.sublist (List.drop_sublist _ _) ?_
  split_ifs with hx
  · exact h
  · exact List.nodup_append'.2 ⟨h, List.nodup_singleton x, by simpa using hx⟩

theorem mem_remember_self (hcap : 0 < cap) (bound : l.length ≤ cap) (x : α) : x ∈ remember cap l x := by
  by_cases hx : x ∈ l
  · rwa [remember_of_mem bound hx]
  · rcases Nat.lt_or_eq_of_le bound with space | full
    · rw [remember_of_lt space hx]
      simp
    · obtain ⟨a, l, rfl⟩ := List.exists_cons_of_length_pos (full ▸ hcap)
      rw [remember_of_full full hx]
      simp

/-- What is remembered stays so unless it is displaced. -/
theorem mem_remember_iff (h : l.Nodup) (bound : l.length ≤ cap) (ne : x ≠ y) :
    x ∈ remember cap l y ↔ x ∈ l ∧ ¬ Displaces cap l y x := by
  by_cases hy : y ∈ l
  · rw [remember_of_mem bound hy]
    simp [Displaces, hy]
  · rcases Nat.lt_or_eq_of_le bound with space | full
    · rw [remember_of_lt space hy]
      have notFull : l.length ≠ cap := by omega
      simp [Displaces, ne, notFull]
    · rw [remember_of_full full hy]
      cases l with
      | nil => simp
      | cons a l =>
        have distinct := List.nodup_cons.1 h
        simp only [List.cons_append, List.drop_succ_cons, List.drop_zero, List.mem_append, List.mem_cons,
          Displaces, hy, not_false_eq_true, full, List.head?_cons, Option.some.injEq, true_and, ne,
          List.not_mem_nil, or_false]
        constructor
        · intro hx
          exact ⟨.inr hx, fun same => distinct.1 (same ▸ hx)⟩
        · rintro ⟨rfl | hx, other⟩
          · exact absurd rfl other
          · exact hx

theorem mem_forget_iff : x ∈ forget l y ↔ x ∈ l ∧ x ≠ y := by
  simp [forget]

theorem forget_of_notMem (hx : x ∉ l) : forget l x = l := by
  refine List.filter_eq_self.2 fun y hy => ?_
  have ne : y ≠ x := fun same => hx (same ▸ hy)
  simpa using ne

end BoundedMemory
