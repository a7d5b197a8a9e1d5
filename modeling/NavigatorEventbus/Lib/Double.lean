import Mathlib.Data.Int.Log
import Mathlib.Data.Rat.Floor
import Mathlib.Algebra.Order.WithTop.Untop0
import Mathlib.Tactic.Linarith
import Mathlib.Tactic.Ring

/-!
# Double precision

The finite doubles as rational numbers, and the double nearest to a rational (`round`), ties to the one with
the even significand, where the exponent has a least value and no greatest.  `nearest` adds the overflow:
what rounds beyond the `greatest` double is infinity, and a double that may be infinite is a value of
`WithTop ℚ`.
-/

namespace Double

/-- A significand of 53 bits times a power of two. -/
def IsDouble (x : ℚ) : Prop := ∃ m e : ℤ, |m| ≤ 2 ^ 53 ∧ -1074 ≤ e ∧ x = m * 2 ^ e

/-- The exponent of the last place of the doubles around `x`. -/
def exponent (x : ℚ) : ℤ := max (-1074) (Int.log 2 |x| - 52)

/-- The nearest integer, ties to the even one. -/
def roundEven (q : ℚ) : ℤ :=
  if q - ⌊q⌋ < 1 / 2 then ⌊q⌋
  else if 1 / 2 < q - ⌊q⌋ then ⌊q⌋ + 1
  else if ⌊q⌋ % 2 = 0 then ⌊q⌋ else ⌊q⌋ + 1

/-- The nearest double. -/
def round (x : ℚ) : ℚ := roundEven (x / 2 ^ exponent x) * 2 ^ exponent x

theorem roundEven_intCast (n : ℤ) : roundEven n = n := by
  have fraction : ((n : ℚ) - ⌊(n : ℚ)⌋) < 1 / 2 := by
    rw [Int.floor_intCast, sub_self]
    norm_num
  rw [roundEven, if_pos fraction, Int.floor_intCast]

/-- A multiple of the last place is its own nearest double. -/
theorem round_of_multiple {x : ℚ} {n : ℤ} (h : x = n * 2 ^ exponent x) : round x = x := by
  have pos : (2 : ℚ) ^ exponent x ≠ 0 := zpow_ne_zero _ two_ne_zero
  have quotient : x / 2 ^ exponent x = n := by
    rw [div_eq_iff pos]
    exact h
  rw [round, quotient, roundEven_intCast]
  exact h.symm

theorem mul_zpow_of_le (m : ℤ) {e e' : ℤ} (h : e' ≤ e) :
    ∃ n : ℤ, (m : ℚ) * 2 ^ e = n * 2 ^ e' := by
  obtain ⟨d, hd⟩ := Int.eq_ofNat_of_zero_le (Int.sub_nonneg.2 h)
  refine ⟨m * 2 ^ d, ?_⟩
  have split : e = d + e' := by omega
  rw [split, zpow_add₀ two_ne_zero, zpow_natCast]
  push_cast
  ring

theorem log_lt {m e : ℤ} (hm : |m| < 2 ^ 53) (ne : m ≠ 0) : Int.log 2 |(m : ℚ) * 2 ^ e| < 53 + e := by
  have pos : (0 : ℚ) < |(m : ℚ) * 2 ^ e| := by
    rw [abs_pos]
    exact mul_ne_zero (Int.cast_ne_zero.2 ne) (zpow_ne_zero _ two_ne_zero)
  refine (Int.lt_zpow_iff_log_lt one_lt_two pos).1 ?_
  have bound : (|m| : ℚ) < 2 ^ (53 : ℤ) := by exact_mod_cast hm
  have power : (0 : ℚ) < 2 ^ e := zpow_pos two_pos e
  rw [abs_mul, abs_of_pos power, Nat.cast_ofNat, zpow_add₀ two_ne_zero]
  exact mul_lt_mul_of_pos_right bound power

/-- A double is its own nearest double. -/
theorem IsDouble.round {x : ℚ} (h : IsDouble x) : round x = x := by
  obtain ⟨m, e, hm, he, rfl⟩ := h
  by_cases zero : m = 0
  · subst zero
    refine round_of_multiple (n := 0) ?_
    simp
  rcases lt_or_eq_of_le hm with small | full
  · have coarse : exponent (m * 2 ^ e) ≤ e := by
      have log := log_lt (e := e) small zero
      rw [exponent]
      omega
    obtain ⟨n, hn⟩ := mul_zpow_of_le m coarse
    exact round_of_multiple hn
  · -- a power of two: half the significand with the next exponent
    obtain ⟨s, hs, ms⟩ : ∃ s : ℤ, |s| < 2 ^ 53 ∧ m = s * 2 := by
      rcases abs_cases m with ⟨eq, -⟩ | ⟨eq, -⟩
      · exact ⟨2 ^ 52, by norm_num, by rw [← eq, full]; norm_num⟩
      · exact ⟨-2 ^ 52, by norm_num, by have := eq.symm.trans full; omega⟩
    have half : (m : ℚ) * 2 ^ e = s * 2 ^ (e + 1) := by
      rw [ms, zpow_add_one₀ two_ne_zero]
      push_cast
      ring
    have coarse : exponent (m * 2 ^ e) ≤ e + 1 := by
      have log := log_lt (e := e + 1) hs (by rintro rfl; exact zero (by simpa using ms))
      rw [half, exponent]
      omega
    obtain ⟨n, hn⟩ := mul_zpow_of_le s coarse
    exact round_of_multiple (half.trans hn)

/-- A fraction with a significand of 53 bits. -/
theorem isDouble_div {m : ℤ} (hm : |m| ≤ 2 ^ 53) {k : ℕ} (hk : k ≤ 1074) : IsDouble (m / 2 ^ k) := by
  refine ⟨m, -k, hm, by omega, ?_⟩
  rw [zpow_neg, zpow_natCast, div_eq_mul_inv]

theorem isDouble_intCast {m : ℤ} (hm : |m| ≤ 2 ^ 53) : IsDouble m := by
  have h := isDouble_div hm (Nat.zero_le 1074)
  rwa [pow_zero, div_one] at h

theorem isDouble_two_pow (k : ℕ) : IsDouble (2 ^ k) :=
  ⟨1, k, by norm_num, by omega, by rw [Int.cast_one, one_mul, zpow_natCast]⟩

/-- Doubling keeps the significand. -/
theorem IsDouble.mul_two_pow {x : ℚ} (h : IsDouble x) (k : ℕ) : IsDouble (x * 2 ^ k) := by
  obtain ⟨m, e, hm, he, rfl⟩ := h
  refine ⟨m, e + k, hm, by omega, ?_⟩
  rw [zpow_add₀ two_ne_zero, zpow_natCast, mul_assoc]

section Monotone

theorem floor_le_roundEven (q : ℚ) : ⌊q⌋ ≤ roundEven q := by
  unfold roundEven
  split_ifs <;> omega

theorem roundEven_le_floor (q : ℚ) : roundEven q ≤ ⌊q⌋ + 1 := by
  unfold roundEven
  split_ifs <;> omega

theorem roundEven_mono {q r : ℚ} (h : q ≤ r) : roundEven q ≤ roundEven r := by
  rcases (Int.floor_mono h).lt_or_eq with lt | eq
  · calc roundEven q ≤ ⌊q⌋ + 1 := roundEven_le_floor q
      _ ≤ ⌊r⌋ := lt
      _ ≤ roundEven r := floor_le_roundEven r
  · -- the same integer part: the larger fraction is rounded up where the smaller is
    have fraction : q - ⌊q⌋ ≤ r - ⌊r⌋ := by
      rw [eq]
      exact sub_le_sub_right h _
    by_cases low : r - ⌊r⌋ < 1 / 2
    · rw [roundEven, if_pos (fraction.trans_lt low), eq]
      exact floor_le_roundEven r
    · by_cases high : 1 / 2 < r - ⌊r⌋
      · have up : roundEven r = ⌊r⌋ + 1 := by rw [roundEven, if_neg low, if_pos high]
        rw [up, ← eq]
        exact roundEven_le_floor q
      · by_cases below : q - ⌊q⌋ < 1 / 2
        · rw [roundEven, if_pos below, eq]
          exact floor_le_roundEven r
        · have same : ¬1 / 2 < q - ⌊q⌋ := fun above => high (above.trans_le fraction)
          rw [roundEven, roundEven, if_neg below, if_neg same, if_neg low, if_neg high, eq]

/-- Rounding to the last place of one exponent is monotone. -/
theorem roundEven_scaled_mono {x y : ℚ} (h : x ≤ y) (e : ℤ) :
    (roundEven (x / 2 ^ e) : ℚ) * 2 ^ e ≤ roundEven (y / 2 ^ e) * 2 ^ e := by
  have power : (0 : ℚ) < 2 ^ e := zpow_pos two_pos e
  apply mul_le_mul_of_nonneg_right _ power.le
  exact_mod_cast roundEven_mono (div_le_div_of_nonneg_right h power.le)

/-- A power of two is a multiple of each smaller one. -/
theorem roundEven_scaled_two_pow {e : ℤ} (k : ℕ) :
    (roundEven ((2 : ℚ) ^ (e + k) / 2 ^ e) : ℚ) * 2 ^ e = 2 ^ (e + k) := by
  have quotient : (2 : ℚ) ^ (e + k) / 2 ^ e = ((2 ^ k : ℤ) : ℚ) := by
    rw [zpow_add₀ two_ne_zero, zpow_natCast, mul_div_cancel_left₀ _ (zpow_ne_zero _ two_ne_zero)]
    push_cast
    rfl
  rw [quotient, roundEven_intCast, ← quotient, div_mul_cancel₀ _ (zpow_ne_zero _ two_ne_zero)]

/-- Rounding is monotone above zero. -/
theorem round_mono {x y : ℚ} (pos : 0 < x) (h : x ≤ y) : round x ≤ round y := by
  have log : Int.log 2 x ≤ Int.log 2 y := Int.log_mono_right pos h
  have ex : exponent x = max (-1074) (Int.log 2 x - 52) := by rw [exponent, abs_of_pos pos]
  have ey : exponent y = max (-1074) (Int.log 2 y - 52) := by rw [exponent, abs_of_pos (pos.trans_le h)]
  by_cases same : exponent x = exponent y
  · rw [round, round, same]
    exact roundEven_scaled_mono h _
  · -- a power of two stands between them
    have above : x ≤ 2 ^ (exponent x + (53 : ℕ)) := by
      have less := Int.lt_zpow_succ_log_self (b := 2) one_lt_two x
      rw [Nat.cast_ofNat] at less
      exact less.le.trans (zpow_le_zpow_right₀ one_le_two (by omega))
    have below : (2 : ℚ) ^ (exponent y + (52 : ℕ)) ≤ y := by
      have le := Int.zpow_log_le_self (b := 2) one_lt_two (pos.trans_le h)
      rw [Nat.cast_ofNat] at le
      exact (zpow_le_zpow_right₀ one_le_two (by omega)).trans le
    calc round x ≤ 2 ^ (exponent x + (53 : ℕ)) := by
          rw [round, ← roundEven_scaled_two_pow]
          exact roundEven_scaled_mono above _
      _ ≤ 2 ^ (exponent y + (52 : ℕ)) := zpow_le_zpow_right₀ one_le_two (by omega)
      _ ≤ round y := by
          rw [round, ← roundEven_scaled_two_pow]
          exact roundEven_scaled_mono below _

end Monotone

/-- The greatest finite double. -/
def greatest : ℚ := (2 ^ 53 - 1) * 2 ^ 971

/-- The nearest double is finite. -/
def InRange (x : ℚ) : Prop := round x ≤ greatest

instance (x : ℚ) : Decidable (InRange x) := inferInstanceAs (Decidable (_ ≤ _))

/-- A result in range; `none` is an overflow. -/
def checked (x : ℚ) : Option ℚ := if InRange x then some x else none

/-- A result in range, otherwise infinity. -/
def saturated (x : ℚ) : WithTop ℚ := if InRange x then (x : WithTop ℚ) else ⊤

theorem InRange.of_le {x y : ℚ} (h : InRange y) (pos : 0 < x) (le : x ≤ y) : InRange x :=
  (round_mono pos le).trans h

/-- The nearest double, infinity where that is beyond the finite ones. -/
def nearest (x : ℚ) : WithTop ℚ := if round x ≤ greatest then (round x : WithTop ℚ) else ⊤

/-- A double above zero, infinity included. -/
structure Positive (x : WithTop ℚ) : Prop where
  pos : 0 < x
  double : ∀ q : ℚ, x = q → IsDouble q ∧ q ≤ greatest

/-- The conversion of an integer; it fails where the nearest double is infinite. -/
def ofNat (n : ℕ) : Option ℚ := if round n ≤ greatest then some (round n) else none

/-- The product of doubles above zero. -/
def mul : WithTop ℚ → WithTop ℚ → WithTop ℚ
  | some x, some y => nearest (x * y)
  | _, _ => ⊤

/-- The sum of doubles above zero. -/
def add : WithTop ℚ → WithTop ℚ → WithTop ℚ
  | some x, some y => nearest (x + y)
  | _, _ => ⊤

theorem greatest_lt : greatest < 2 ^ 1024 := by
  have power : (2 : ℚ) ^ 1024 = 2 ^ 53 * 2 ^ 971 := by rw [← pow_add]
  rw [power, greatest]
  exact mul_lt_mul_of_pos_right (sub_lt_self _ one_pos) (pow_pos two_pos _)

theorem le_greatest : 2 ^ 1023 ≤ greatest := by
  have power : (2 : ℚ) ^ 1023 = 2 ^ 52 * 2 ^ 971 := by rw [← pow_add]
  rw [power, greatest]
  exact mul_le_mul_of_nonneg_right (by norm_num) (pow_pos two_pos _).le

theorem two_pow_le_greatest {k : ℕ} : (2 : ℚ) ^ k ≤ greatest ↔ k ≤ 1023 := by
  constructor
  · intro le
    by_contra above
    have more : (2 : ℚ) ^ 1024 ≤ 2 ^ k := pow_le_pow_right₀ one_le_two (by omega)
    exact absurd (more.trans le) (not_le.2 greatest_lt)
  · intro le
    exact (pow_le_pow_right₀ one_le_two le).trans le_greatest

theorem InRange.lt {x : ℚ} (h : InRange x) : x < 2 ^ 1024 := by
  by_contra le
  have far := round_mono (pow_pos two_pos 1024) (not_lt.1 le)
  rw [(isDouble_two_pow 1024).round] at far
  exact absurd (far.trans h) (not_le.2 greatest_lt)

theorem inRange_zero : InRange 0 := by
  have zero : IsDouble 0 := isDouble_intCast (m := 0) (by decide)
  rw [InRange, zero.round]
  exact (pow_pos two_pos 1023).le.trans le_greatest

/-- The powers of two convert to doubles up to the 1023rd. -/
theorem ofNat_two_pow (k : ℕ) : ofNat (2 ^ k) = if k ≤ 1023 then some (2 ^ k) else none := by
  have exact : round ((2 ^ k : ℕ) : ℚ) = 2 ^ k := by
    push_cast
    exact (isDouble_two_pow k).round
  simp only [ofNat, exact, two_pow_le_greatest]

theorem IsDouble.nearest {x : ℚ} (h : IsDouble x) :
    nearest x = if x ≤ greatest then (x : WithTop ℚ) else ⊤ := by
  rw [Double.nearest, h.round]

theorem nearest_mono {x y : ℚ} (pos : 0 < x) (h : x ≤ y) : nearest x ≤ nearest y := by
  by_cases finite : round y ≤ greatest
  · rw [nearest, nearest, if_pos finite, if_pos ((round_mono pos h).trans finite)]
    exact WithTop.coe_le_coe.2 (round_mono pos h)
  · have infinite : nearest y = ⊤ := by rw [nearest, if_neg finite]
    rw [infinite]
    exact le_top

/-- The sum is monotone in its second argument. -/
theorem add_le_add_left {x y z : WithTop ℚ} (hx : 0 < x) (hy : 0 < y) (h : y ≤ z) : add x y ≤ add x z := by
  match x, y, z, hx, hy, h with
  | some x, some y, some z, hx, hy, h =>
    have px : 0 < x := WithTop.coe_pos.1 hx
    have py : 0 < y := WithTop.coe_pos.1 hy
    exact nearest_mono (add_pos px py) (by linarith [WithTop.coe_le_coe.1 h])
  | some _, some _, none, _, _, _ => exact le_top
  | some _, none, some _, _, _, h => exact absurd h (WithTop.not_top_le_coe _)
  | some _, none, none, _, _, _ => exact le_rfl
  | none, _, _, _, _, _ => exact le_rfl

end Double
