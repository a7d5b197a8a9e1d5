import Mathlib.Algebra.Group.Nat.Defs
import Mathlib.Data.List.Induction
import Mathlib.Data.Nat.Notation

/-!
# Hexadecimal numerals

Numbers to the base sixteen in lower case, with zeros in front up to a width.  A text of digits is the numeral
of its number at its own width (`numeral_number`), so reading and writing at a fixed width are inverse to each
other on the numbers that fit.
-/

namespace Hex

/-- The digits. -/
def digits : List Char := "0123456789abcdef".toList

/-- The value of a digit. -/
def value (c : Char) : ℕ := if c.toNat ≤ '9'.toNat then c.toNat - '0'.toNat else c.toNat - 'a'.toNat + 10

/-- The number that digits write. -/
def number (s : List Char) : ℕ := s.foldl (fun n c => 16 * n + value c) 0

/-- A number, in at least `w` digits. -/
def numeral (w n : ℕ) : List Char :=
  List.replicate (w - (Nat.toDigits 16 n).length) '0' ++ Nat.toDigits 16 n

/-! ## Digits -/

theorem digitChar_value {c : Char} (h : c ∈ digits) : Nat.digitChar (value c) = c ∧ value c < 16 := by
  have all : digits.all (fun c => decide (Nat.digitChar (value c) = c ∧ value c < 16)) = true := by decide
  exact of_decide_eq_true (List.all_eq_true.1 all c h)

theorem digitChar_mem {d : ℕ} (h : d < 16) : Nat.digitChar d ∈ digits := by
  have all : ∀ d < 16, Nat.digitChar d ∈ digits := by decide
  exact all d h

theorem mem_toDigits {n : ℕ} {c : Char} (h : c ∈ Nat.toDigits 16 n) : c ∈ digits := by
  induction n using Nat.strongRecOn with
  | ind n ih =>
    rw [Nat.toDigits_eq_if (by omega)] at h
    by_cases small : n < 16
    · rw [if_pos small, List.mem_singleton] at h
      rw [h]
      exact digitChar_mem small
    · rw [if_neg small] at h
      rcases List.mem_append.1 h with front | last
      · exact ih (n / 16) (by omega) front
      · rw [List.mem_singleton.1 last]
        exact digitChar_mem (by omega)

theorem mem_numeral {w n : ℕ} {c : Char} (h : c ∈ numeral w n) : c ∈ digits := by
  rcases List.mem_append.1 h with zero | digit
  · rw [List.eq_of_mem_replicate zero]
    decide
  · exact mem_toDigits digit

/-! ## Width -/

theorem length_numeral (w n : ℕ) : (numeral w n).length = max w (Nat.toDigits 16 n).length := by
  rw [numeral, List.length_append, List.length_replicate]
  omega

/-- Exactly the numbers below `16 ^ w` have a numeral of the width. -/
theorem length_numeral_eq_iff {w n : ℕ} (pos : 0 < w) : (numeral w n).length = w ↔ n < 16 ^ w := by
  rw [length_numeral, ← Nat.length_toDigits_le_iff (by omega) pos]
  omega

/-! ## Reading and writing -/

theorem number_concat (s : List Char) (c : Char) : number (s ++ [c]) = 16 * number s + value c := by
  simp [number]

/-- One more digit behind a numeral. -/
theorem numeral_concat {w m d : ℕ} (pos : 0 < w) (h : d < 16) :
    numeral (w + 1) (16 * m + d) = numeral w m ++ [Nat.digitChar d] := by
  by_cases zero : m = 0
  · subst zero
    rw [numeral, numeral, Nat.mul_zero, Nat.zero_add, Nat.toDigits_of_lt_base h, Nat.toDigits_zero]
    have count : w - 1 + 1 = w := by omega
    simp only [List.length_singleton, Nat.add_sub_cancel]
    rw [← List.replicate_succ', count]
  · have split := Nat.toDigits_append_toDigits (b := 16) (by omega) (Nat.pos_of_ne_zero zero) h
    rw [numeral, numeral, ← split, Nat.toDigits_of_lt_base h, List.length_append, List.length_singleton,
      Nat.add_sub_add_right, List.append_assoc]

/-- A text of digits is the numeral of its number at its own width. -/
theorem numeral_number {s : List Char} (all : ∀ c ∈ s, c ∈ digits) (ne : s ≠ []) :
    numeral s.length (number s) = s := by
  induction s using List.reverseRecOn with
  | nil => exact absurd rfl ne
  | append_singleton s c ih =>
    obtain ⟨char, small⟩ := digitChar_value (all c (by simp))
    rw [number_concat, List.length_append, List.length_singleton]
    by_cases empty : s = []
    · subst empty
      have zero : number [] = 0 := rfl
      rw [zero, Nat.mul_zero, Nat.zero_add, numeral, Nat.toDigits_of_lt_base small, char]
      rfl
    · rw [numeral_concat (List.length_pos_iff.2 empty) small, char,
        ih (fun c hc => all c (List.mem_append_left _ hc)) empty]

/-- The digits of a number write it. -/
theorem number_numeral (w n : ℕ) : number (numeral w n) = n := by
  have zeros : ∀ k, (List.replicate k '0').foldl (fun n c => 16 * n + value c) 0 = 0 := by
    intro k
    induction k with
    | zero => rfl
    | succ k ih =>
      rw [List.replicate_succ, List.foldl_cons]
      exact ih
  have plain : ∀ n, number (Nat.toDigits 16 n) = n := by
    intro n
    induction n using Nat.strongRecOn with
    | ind n ih =>
      have char : ∀ d < 16, value (Nat.digitChar d) = d := by decide
      rw [Nat.toDigits_eq_if (by omega)]
      by_cases small : n < 16
      · rw [if_pos small]
        simp [number, char n small]
      · rw [if_neg small, number_concat, ih (n / 16) (by omega), char _ (by omega)]
        omega
  rw [numeral, number, List.foldl_append, zeros]
  exact plain n

end Hex
