import Mathlib.Algebra.Order.Group.Defs
import Mathlib.Algebra.Order.Sub.Defs
import Mathlib.Data.Finset.Max
import Mathlib.Data.Int.Order.Basic
import Mathlib.Data.List.Basic
import Mathlib.Data.Nat.Notation

/-!
# Sliding windows

Lists of times, newest first, of which no half-open window of a given length has too many.  It is enough to look
at the windows that end with a time of the list (`within_cons`).  A queue that drops the times before a bound from
its front, oldest first, keeps those from the bound on.
-/

namespace Window

section Bound

variable {α : Type*} [AddCommGroup α] [LinearOrder α] {times : List α} {length t : α} {n : ℤ}

/-- How many of the times are in the window of this length from `start`. -/
def count (length start : α) (times : List α) : ℕ := times.countP fun x => start ≤ x ∧ x < start + length

/-- How many of the times are later than the window of this length up to `t` reaches back. -/
def since (length t : α) (times : List α) : ℕ := times.countP fun x => t - length < x

/-- No window of this length has more than `n` of the times. -/
def Within (length : α) (n : ℤ) (times : List α) : Prop := ∀ start, (count length start times : ℤ) ≤ n

theorem count_cons {start : α} :
    count length start (t :: times) =
      count length start times + if start ≤ t ∧ t < start + length then 1 else 0 := by
  simp only [count, List.countP_cons, decide_eq_true_eq]

theorem count_le_cons {start : α} : count length start times ≤ count length start (t :: times) := by
  rw [count_cons]
  exact Nat.le_add_right _ _

theorem Within.of_cons (h : Within length n (t :: times)) : Within length n times := by
  intro start
  have more : count length start times ≤ count length start (t :: times) := count_le_cons
  have bound := h start
  omega

theorem Within.nonneg (h : Within length n times) : 0 ≤ n := (Int.natCast_nonneg _).trans (h 0)

variable [IsOrderedAddMonoid α]

/-- A window without a length is empty. -/
theorem within_of_nonpos (h : length ≤ 0) : Within length n times ↔ 0 ≤ n := by
  refine ⟨Within.nonneg, fun nonneg start => ?_⟩
  have empty : count length start times = 0 := by
    refine List.countP_eq_zero.2 fun x _ => ?_
    rw [decide_eq_true_eq]
    rintro ⟨low, high⟩
    have back : start + length ≤ start := add_le_of_nonpos_right h
    exact absurd (high.trans_le back) (not_lt.2 low)
  rw [empty]
  exact nonneg

theorem count_le_since {start : α} (h : t < start + length) : count length start times ≤ since length t times := by
  refine List.countP_mono_left fun x _ hx => ?_
  rw [decide_eq_true_eq] at hx ⊢
  exact (sub_lt_iff_lt_add.2 h).trans_le hx.1

/-- Some window has the latest time and all those that are less than its length before it. -/
theorem exists_window (pos : 0 < length) (h : ∀ x ∈ times, x ≤ t) :
    ∃ start, start ≤ t ∧ t < start + length ∧ since length t times ≤ count length start times := by
  let near := insert t (times.filter fun x => t - length < x).toFinset
  obtain ⟨start, mem, least⟩ := near.exists_min_image id ⟨t, Finset.mem_insert_self ..⟩
  have reaches : t - length < start := by
    rcases Finset.mem_insert.1 mem with rfl | mem
    · exact sub_lt_self _ pos
    · rw [List.mem_toFinset, List.mem_filter, decide_eq_true_eq] at mem
      exact mem.2
  have ends : t < start + length := sub_lt_iff_lt_add.1 reaches
  refine ⟨start, least t (Finset.mem_insert_self ..), ends, List.countP_mono_left fun x hx later => ?_⟩
  rw [decide_eq_true_eq] at later ⊢
  have first : start ≤ x := by
    refine least x (Finset.mem_insert_of_mem ?_)
    rw [List.mem_toFinset, List.mem_filter, decide_eq_true_eq]
    exact ⟨hx, later⟩
  exact ⟨first, (h x hx).trans_lt ends⟩

/-- A later time fits if and only if the window that ends with it has room. -/
theorem within_cons (pos : 0 < length) (h : ∀ x ∈ times, x ≤ t) :
    Within length n (t :: times) ↔ Within length n times ∧ (since length t times : ℤ) < n := by
  constructor
  · intro within
    refine ⟨within.of_cons, ?_⟩
    obtain ⟨start, low, high, room⟩ := exists_window pos h
    have bound := within start
    rw [count_cons, if_pos ⟨low, high⟩] at bound
    omega
  · rintro ⟨within, room⟩ start
    rw [count_cons]
    by_cases inside : start ≤ t ∧ t < start + length
    · have few : count length start times ≤ since length t times := count_le_since inside.2
      rw [if_pos inside]
      omega
    · rw [if_neg inside]
      exact within start

end Bound

section Queue

variable {α : Type*} [LinearOrder α] {times : List α} {bound later : α}

/-- A queue in order keeps exactly the times from the bound on. -/
theorem dropWhile_eq_filter (sorted : times.Pairwise (· ≤ ·)) :
    (times.dropWhile fun x => x < bound) = times.filter fun x => bound ≤ x := by
  induction times with
  | nil => rfl
  | cons x rest ih =>
    obtain ⟨first, rest_sorted⟩ := List.pairwise_cons.1 sorted
    by_cases old : x < bound
    · rw [List.dropWhile_cons_of_pos (by simpa using old), List.filter_cons_of_neg (by simpa using old)]
      exact ih rest_sorted
    · have all : ∀ y ∈ x :: rest, bound ≤ y := by
        intro y hy
        rcases List.mem_cons.1 hy with rfl | hy
        · exact not_lt.1 old
        · exact (not_lt.1 old).trans (first y hy)
      rw [List.dropWhile_cons_of_neg (by simpa using old), List.filter_eq_self.2 (by simpa using all)]

/-- What is dropped is before the bound. -/
theorem countP_dropWhile (h : bound ≤ later) :
    (times.dropWhile fun x => x < bound).countP (fun x => later ≤ x) = times.countP fun x => later ≤ x := by
  induction times with
  | nil => rfl
  | cons x rest ih =>
    by_cases old : x < bound
    · rw [List.dropWhile_cons_of_pos (by simpa using old), ih,
        List.countP_cons_of_neg (by simpa using old.trans_le h)]
    · rw [List.dropWhile_cons_of_neg (by simpa using old)]

/-- A queue has dropped nothing of the whole list from the bound on. -/
structure Keeps (bound : α) (queue whole : List α) : Prop where
  sublist : queue.Sublist whole
  count : ∀ later, bound ≤ later → queue.countP (fun x => later ≤ x) = whole.countP fun x => later ≤ x

namespace Keeps

variable {queue whole : List α} {t : α}

theorem refl (bound : α) (whole : List α) : Keeps bound whole whole := ⟨List.Sublist.refl _, fun _ _ => rfl⟩

theorem mono (h : Keeps bound queue whole) (le : bound ≤ later) : Keeps later queue whole :=
  ⟨h.sublist, fun k hk => h.count k (le.trans hk)⟩

/-- A new time joins the queue. -/
theorem push (h : Keeps bound queue whole) : Keeps bound (queue ++ [t]) (whole ++ [t]) := by
  refine ⟨h.sublist.append (List.Sublist.refl _), fun k hk => ?_⟩
  rw [List.countP_append, List.countP_append, h.count k hk]

/-- The queue drops what is before a later bound. -/
theorem drop (h : Keeps bound queue whole) (le : bound ≤ later) :
    Keeps later (queue.dropWhile fun x => x < later) whole := by
  refine ⟨(List.dropWhile_sublist _).trans h.sublist, fun k hk => ?_⟩
  rw [countP_dropWhile hk, h.count k (le.trans hk)]

/-- In order, what a queue has after that are the times of the whole list from the bound on. -/
theorem length_drop (h : Keeps bound queue whole) (le : bound ≤ later) (sorted : whole.Pairwise (· ≤ ·)) :
    (queue.dropWhile fun x => x < later).length = whole.countP fun x => later ≤ x := by
  rw [dropWhile_eq_filter (sorted.sublist h.sublist), ← List.countP_eq_length_filter, h.count later le]

end Keeps

end Queue

end Window
