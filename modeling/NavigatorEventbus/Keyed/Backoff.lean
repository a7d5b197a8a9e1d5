import NavigatorEventbus.Keyed.Store
import Mathlib.Algebra.Order.Ring.WithTop
import Mathlib.Analysis.SpecialFunctions.Log.Basic

/-!
# The retry delay

`backoff_ms` compares the attempts with a quotient of logarithms before it computes a power, so that no count
of attempts makes the power overflow.  The comparison decides exactly whether the power reaches the cap
(`log_div_log_le_iff`).  What is left are the settings themselves: they are integers of any size, and the
quotient of the cap and the base, or the product with the power, may be beyond the range of the floats
(`backoff_exact_iff`).  Logarithms, powers and products are exact here; only their range is that of the floats.
-/

namespace NavigatorEventbus

/-- The retry settings that a configuration accepts; the factor may be infinite. -/
structure RetryDelay where
  baseMs : ℤ
  maxMs : ℤ
  factor : WithTop ℚ
  base_pos : 0 < baseMs
  max_pos : 0 < maxMs
  factor_ge : 1 ≤ factor

/-- The retry settings of a keyed queue. -/
def KeyedQueueConfig.retryDelay (config : KeyedQueueConfig) : RetryDelay where
  baseMs := config.retryBaseMs
  maxMs := config.retryMaxMs
  factor := config.retryFactor
  base_pos := config.retryBase_pos
  max_pos := config.retryBase_pos.trans_le config.retryBase_le_max
  factor_ge := WithTop.coe_le_coe.2 config.retryFactor_ge

/-- The logarithm of infinity is infinite, so the quotient is zero. -/
noncomputable def logQuotient (ratio : ℚ) : WithTop ℚ → ℝ
  | some factor => Real.log ratio / Real.log factor
  | none => 0

/-- `factor**attempts`; `none` is the `OverflowError`. -/
def power : WithTop ℚ → ℕ → Option (WithTop ℚ)
  | some factor, attempts => (Double.checked (factor ^ attempts)).map fun (x : ℚ) => (x : WithTop ℚ)
  | none, _ => some ⊤

/-- The product of a float and a positive float that may be infinite. -/
def scaled (base : ℚ) : WithTop ℚ → WithTop ℚ
  | some x => Double.saturated (base * x)
  | none => ⊤

/-- The integer part of a number that is at most `maxMs`. -/
def capped (maxMs : ℤ) : WithTop ℚ → ℤ
  | some x => (min (maxMs : ℚ) x).floor
  | none => maxMs

namespace RetryDelay

variable (r : RetryDelay)

open Classical in
/-- `backoff_ms`; `none` is an `OverflowError`. -/
noncomputable def backoffMs (attempts : ℕ) : Option ℤ :=
  if r.maxMs ≤ r.baseMs then some r.maxMs
  else if attempts = 0 ∨ r.factor ≤ 1 then some r.baseMs
  else do
    let ratio ← Double.checked (r.maxMs / r.baseMs)
    if logQuotient ratio r.factor ≤ attempts then some r.maxMs
    else do
      let x ← power r.factor attempts
      let base ← Double.checked r.baseMs
      some (capped r.maxMs (scaled base x))

/-- The uncapped delay in exact arithmetic. -/
def growth (attempts : ℕ) : WithTop ℚ := (r.baseMs : ℚ) * r.factor ^ attempts

/-- `min(max_ms, floor(base_ms * factor ** attempts))` in exact arithmetic. -/
def exact (attempts : ℕ) : WithTop ℤ := min (r.maxMs : WithTop ℤ) ((r.growth attempts).map Int.floor)

/-- The shortcuts apply, or the numbers are in the range of the floats. -/
def Fits (attempts : ℕ) : Prop :=
  r.maxMs ≤ r.baseMs ∨ attempts = 0 ∨ r.factor ≤ 1 ∨
    Double.InRange (r.maxMs / r.baseMs) ∧
      ((r.maxMs : ℚ) ≤ r.growth attempts ∨ ∃ x : ℚ, r.growth attempts = x ∧ Double.InRange x)

end RetryDelay

namespace RetryDelay

variable {r : RetryDelay} {n : ℕ}

theorem growth_coe {factor : ℚ} (hf : r.factor = factor) : r.growth n = (r.baseMs * factor ^ n : ℚ) := by
  rw [growth, hf, ← WithTop.coe_pow, ← WithTop.coe_mul]

theorem growth_top (hf : r.factor = ⊤) (pos : n ≠ 0) : r.growth n = ⊤ := by
  have base : ((r.baseMs : ℚ) : WithTop ℚ) ≠ 0 := by
    rw [← WithTop.coe_zero, Ne, WithTop.coe_inj]
    exact_mod_cast r.base_pos.ne'
  rw [growth, hf, WithTop.top_pow pos, WithTop.mul_top base]

theorem exact_coe {x : ℚ} (h : r.growth n = x) : r.exact n = (min r.maxMs ⌊x⌋ : ℤ) := by
  rw [exact, h, WithTop.coe_min]
  rfl

/-- The base is a lower bound. -/
theorem base_le_mul {factor : ℚ} (hf : 1 ≤ factor) (n : ℕ) : (r.baseMs : ℚ) ≤ r.baseMs * factor ^ n :=
  le_mul_of_one_le_right (by exact_mod_cast r.base_pos.le) (one_le_pow₀ hf)

/-- The cases of a retry delay: a shortcut, an infinite factor, or a growing one. -/
theorem cases (r : RetryDelay) (n : ℕ) :
    r.maxMs ≤ r.baseMs ∨
      r.baseMs < r.maxMs ∧ ((n = 0 ∨ r.factor ≤ 1) ∨
        n ≠ 0 ∧ (r.factor = ⊤ ∨ ∃ factor : ℚ, r.factor = factor ∧ 1 < factor)) := by
  by_cases le : r.maxMs ≤ r.baseMs
  · exact .inl le
  · refine .inr ⟨not_le.1 le, ?_⟩
    by_cases small : n = 0 ∨ r.factor ≤ 1
    · exact .inl small
    · rw [not_or] at small
      refine .inr ⟨small.1, ?_⟩
      by_cases top : r.factor = ⊤
      · exact .inl top
      · obtain ⟨factor, hf⟩ := WithTop.ne_top_iff_exists.1 top
        refine .inr ⟨factor, hf.symm, ?_⟩
        rw [← hf] at small
        exact WithTop.coe_lt_coe.1 (not_le.1 small.2)

theorem fits_coe {factor : ℚ} (short : r.baseMs < r.maxMs) (pos : n ≠ 0) (hf : r.factor = factor)
    (growing : 1 < factor) :
    r.Fits n ↔ Double.InRange (r.maxMs / r.baseMs) ∧
      ((r.maxMs : ℚ) ≤ r.baseMs * factor ^ n ∨ Double.InRange (r.baseMs * factor ^ n)) := by
  have growth := growth_coe (n := n) hf
  constructor
  · rintro (le | zero | le | ⟨range, reached | ⟨x, hx, product⟩⟩)
    · exact absurd short (not_lt.2 le)
    · exact absurd zero pos
    · rw [hf] at le
      exact absurd (WithTop.coe_le_coe.1 le) (not_le.2 growing)
    · rw [growth] at reached
      exact ⟨range, .inl (WithTop.coe_le_coe.1 reached)⟩
    · rw [growth] at hx
      rw [WithTop.coe_inj.1 hx]
      exact ⟨range, .inr product⟩
  · rintro ⟨range, reached | product⟩
    · refine .inr (.inr (.inr ⟨range, .inl ?_⟩))
      rw [growth]
      exact WithTop.coe_le_coe.2 reached
    · exact .inr (.inr (.inr ⟨range, .inr ⟨_, growth, product⟩⟩))

/-- What a retry delay has to be. -/
def Meets (r : RetryDelay) (attempts : ℕ) : Prop :=
  ∃ d : ℤ, r.backoffMs attempts = some d ∧ (d : WithTop ℤ) = r.exact attempts ∧ d ≤ r.maxMs ∧
    min r.baseMs r.maxMs ≤ d ∧ ∀ fewer ≤ attempts, ∀ d', r.backoffMs fewer = some d' → d' ≤ d

/-- With a cap in the range of the floats no count of attempts overflows. -/
theorem fits_of_max (h : Double.InRange r.maxMs) : r.Fits n := by
  have base : (1 : ℚ) ≤ r.baseMs := by exact_mod_cast r.base_pos
  have cap : (0 : ℚ) < r.maxMs := by exact_mod_cast r.max_pos
  rcases r.cases n with le | ⟨short, small | ⟨pos, top | ⟨factor, hf, growing⟩⟩⟩
  · exact .inl le
  · exact .inr (small.imp_right .inl)
  · refine .inr (.inr (.inr ⟨h.of_le (div_pos cap (one_pos.trans_le base)) (div_le_self cap.le base), .inl ?_⟩))
    rw [growth_top top pos]
    exact le_top
  · refine (fits_coe short pos hf growing).2
      ⟨h.of_le (div_pos cap (one_pos.trans_le base)) (div_le_self cap.le base), ?_⟩
    by_cases reached : (r.maxMs : ℚ) ≤ r.baseMs * factor ^ n
    · exact .inl reached
    · exact .inr (h.of_le (mul_pos (one_pos.trans_le base) (pow_pos (one_pos.trans growing) n))
        (not_le.1 reached).le)

end RetryDelay

/-- The delay of the queue operations is the exact one. -/
theorem KeyedQueueConfig.exact_retryDelay (config : KeyedQueueConfig) (n : ℕ) :
    config.retryDelay.exact n =
      (backoffMs n config.retryBaseMs config.retryMaxMs config.retryFactor : ℤ) := by
  have growth : config.retryDelay.growth n = (config.retryBaseMs * config.retryFactor ^ n : ℚ) :=
    RetryDelay.growth_coe rfl
  have above : (config.retryBaseMs : ℚ) ≤ config.retryBaseMs * config.retryFactor ^ n :=
    RetryDelay.base_le_mul (r := config.retryDelay) config.retryFactor_ge n
  rw [RetryDelay.exact_coe growth, backoffMs]
  show (((min config.retryMaxMs _ : ℤ)) : WithTop ℤ) = _
  congr 1
  by_cases whole : config.retryMaxMs ≤ config.retryBaseMs
  · rw [if_pos whole, min_eq_left (Int.le_floor.2 (le_trans (by exact_mod_cast whole) above))]
  · rw [if_neg whole]
    by_cases small : n = 0 ∨ config.retryFactor ≤ 1
    · have one : config.retryFactor ^ n = 1 := by
        rcases small with rfl | le
        · exact pow_zero _
        · rw [le_antisymm le config.retryFactor_ge, one_pow]
      rw [if_pos small, one, mul_one, Int.floor_intCast, min_eq_right (not_le.1 whole).le]
    · rw [if_neg small]
      by_cases reached : (config.retryMaxMs : ℚ) ≤ config.retryBaseMs * config.retryFactor ^ n
      · rw [if_pos reached, min_eq_left (Int.le_floor.2 reached)]
      · have below : ⌊config.retryBaseMs * config.retryFactor ^ n⌋ < config.retryMaxMs :=
          Int.floor_lt.2 (not_le.1 reached)
        rw [if_neg reached, min_eq_right below.le, min_eq_right (not_le.1 reached).le]
        rfl

end NavigatorEventbus
