import Xair.Data.Number
import Mathlib.Algebra.Order.Field.Basic
import Mathlib.Algebra.Order.Field.Power
import Mathlib.Algebra.Order.Ring.Rat
import Mathlib.Tactic.LinearCombination
import Mathlib.Tactic.Linarith
import Mathlib.Tactic.NormNum
import Mathlib.Tactic.Ring

/-!
# Exact doubles

Rounding leaves a rational alone that a double denotes exactly.
-/

namespace Xair

/-- A significand of 53 bits at a place that a double has. -/
def IsDouble (q : ℚ) : Prop := ∃ m e : ℤ, q = m * 2 ^ e ∧ |m| < 2 ^ 53 ∧ -1074 ≤ e ∧ |q| < 2 ^ 1024

theorem roundHalfEven_mul (k : Nat) {d : Nat} (pos : 0 < d) : roundHalfEven (k * d) d = k := by
  rw [roundHalfEven, Nat.mul_mod_left, Nat.mul_div_cancel _ pos, if_pos (by simpa using pos)]

theorem abs_eq_div (q : ℚ) : |q| = (q.num.natAbs : ℚ) / (q.den : ℚ) := by
  conv_lhs => rw [← Rat.num_div_den q]
  rw [abs_div, Nat.abs_cast, Nat.cast_natAbs, Int.cast_abs]

/-- The exponent of the first place of `n / d`, as `roundDouble` finds it, is not too large. -/
theorem exponent_le {n d : Nat} (hn : 0 < n) (hd : 0 < d) (guess : Int) (its : guess = n.log2 - d.log2) :
    (2 : ℚ) ^ (if (if 0 ≤ guess then decide (n < d * 2 ^ guess.toNat) else decide (n * 2 ^ (-guess).toNat < d)) = true
      then guess - 1 else guess) ≤ (n : ℚ) / d := by
  have hd' : (0 : ℚ) < d := Nat.cast_pos.mpr hd
  rw [le_div_iff₀ hd']
  by_cases small : (if 0 ≤ guess then decide (n < d * 2 ^ guess.toNat) else decide (n * 2 ^ (-guess).toNat < d)) = true
  · rw [if_pos small]
    have lower : ((2 ^ n.log2 : Nat) : ℚ) ≤ n := Nat.cast_le.mpr (Nat.log2_self_le hn.ne')
    have upper : (d : ℚ) ≤ (2 ^ (d.log2 + 1) : Nat) := Nat.cast_le.mpr Nat.lt_log2_self.le
    have split : (2 : ℚ) ^ (guess - 1) * 2 ^ ((d.log2 + 1 : Nat) : ℤ) = 2 ^ ((n.log2 : Nat) : ℤ) := by
      rw [← zpow_add₀ two_ne_zero]
      congr 1
      push_cast
      omega
    rw [zpow_natCast, zpow_natCast] at split
    push_cast at lower upper
    calc (2 : ℚ) ^ (guess - 1) * d ≤ 2 ^ (guess - 1) * 2 ^ (d.log2 + 1) := mul_le_mul_of_nonneg_left upper (zpow_nonneg zero_le_two _)
      _ = 2 ^ n.log2 := split
      _ ≤ n := lower
  · rw [if_neg small]
    by_cases up : 0 ≤ guess
    · rw [if_pos up, decide_eq_true_eq, not_lt] at small
      have place : (2 : ℚ) ^ guess = 2 ^ guess.toNat := by rw [← zpow_natCast, Int.toNat_of_nonneg up]
      rw [place, mul_comm]
      exact_mod_cast small
    · rw [if_neg up, decide_eq_true_eq, not_lt] at small
      have place : (2 : ℚ) ^ guess * 2 ^ (-guess).toNat = 1 := by
        rw [← zpow_natCast, Int.toNat_of_nonneg (by omega), ← zpow_add₀ two_ne_zero, add_neg_cancel, zpow_zero]
      have small' : (d : ℚ) ≤ n * 2 ^ (-guess).toNat := by exact_mod_cast small
      calc (2 : ℚ) ^ guess * d ≤ 2 ^ guess * (n * 2 ^ (-guess).toNat) := mul_le_mul_of_nonneg_left small' (zpow_nonneg zero_le_two _)
        _ = n * (2 ^ guess * 2 ^ (-guess).toNat) := by ring
        _ = n := by rw [place, mul_one]

/-- A rational that a double denotes rounds to itself. -/
theorem roundDouble_exact {q : ℚ} (h : IsDouble q) : roundDouble q = .fin q := by
  obtain ⟨m, e, its, bits, least, finite⟩ := h
  by_cases zero : q = 0
  · subst zero
    decide +kernel
  have num : 0 < q.num.natAbs := Int.natAbs_pos.mpr (Rat.num_ne_zero.mpr zero)
  have den : (q.den : ℚ) ≠ 0 := Nat.cast_ne_zero.mpr q.den_ne_zero
  simp only [roundDouble]
  have below := exponent_le num q.den_pos _ rfl
  generalize (if (if 0 ≤ (q.num.natAbs.log2 : Int) - q.den.log2 then _ else _) = true then _ else _) = first at below ⊢
  -- the last place that is rounded to is no higher than the one of `m`
  have place : max (first - 52) (-1074) ≤ e := by
    have above : |q| < 2 ^ (53 + e) := by
      rw [its, abs_mul, abs_zpow, abs_two, zpow_add₀ two_ne_zero]
      exact mul_lt_mul_of_pos_right (by exact_mod_cast bits) (zpow_pos two_pos _)
    rw [abs_eq_div] at above
    have exponents := (zpow_lt_zpow_iff_right₀ one_lt_two).mp (lt_of_le_of_lt below above)
    omega
  generalize max (first - 52) (-1074) = last at place ⊢
  obtain ⟨k, units⟩ : ∃ k : Nat, |q| = k * 2 ^ last := by
    refine ⟨m.natAbs * 2 ^ (e - last).toNat, ?_⟩
    rw [its, abs_mul, abs_zpow, abs_two, Nat.cast_mul, Nat.cast_natAbs, Int.cast_abs, mul_assoc]
    congr 1
    rw [Nat.cast_pow, Nat.cast_ofNat, ← zpow_natCast, Int.toNat_of_nonneg (by omega), ← zpow_add₀ two_ne_zero, sub_add_cancel]
  have value : (if 0 ≤ last then (((if 0 ≤ last then roundHalfEven q.num.natAbs (q.den * 2 ^ last.toNat)
      else roundHalfEven (q.num.natAbs * 2 ^ (-last).toNat) q.den) * 2 ^ last.toNat : Nat) : ℚ)
      else mkRat ((if 0 ≤ last then roundHalfEven q.num.natAbs (q.den * 2 ^ last.toNat)
        else roundHalfEven (q.num.natAbs * 2 ^ (-last).toNat) q.den : Nat)) (2 ^ (-last).toNat)) = |q| := by
    have fraction := units
    rw [abs_eq_div, div_eq_iff den] at fraction
    by_cases up : 0 ≤ last
    · have power : (2 : ℚ) ^ last = 2 ^ last.toNat := by rw [← zpow_natCast, Int.toNat_of_nonneg up]
      have whole : q.num.natAbs = k * (q.den * 2 ^ last.toNat) := by
        rw [power, mul_assoc, mul_comm (2 ^ last.toNat : ℚ)] at fraction
        exact_mod_cast fraction
      simp only [if_pos up]
      rw [whole, roundHalfEven_mul _ (Nat.mul_pos q.den_pos (Nat.two_pow_pos _)), units, power]
      push_cast
      rfl
    · have power : (2 : ℚ) ^ last * 2 ^ (-last).toNat = 1 := by
        rw [← zpow_natCast, Int.toNat_of_nonneg (by omega), ← zpow_add₀ two_ne_zero, add_neg_cancel, zpow_zero]
      have whole : q.num.natAbs * 2 ^ (-last).toNat = k * q.den := by
        have scaled : (q.num.natAbs : ℚ) * 2 ^ (-last).toNat = k * q.den := by
          rw [fraction]
          linear_combination (k : ℚ) * q.den * power
        exact_mod_cast scaled
      simp only [if_neg up]
      rw [whole, roundHalfEven_mul _ q.den_pos, units, Rat.mkRat_eq_div, div_eq_iff (by positivity)]
      push_cast
      linear_combination -(k : ℚ) * power
  have bounded : |q| < ((2 ^ 1024 : Nat) : ℚ) := by
    rw [Nat.cast_pow, Nat.cast_ofNat]
    exact finite
  rw [value, if_neg (not_le.mpr bounded)]
  split
  · rename_i negative
    rw [abs_of_neg negative, neg_neg]
  · rename_i positive
    rw [abs_of_nonneg (not_lt.mp positive)]

/-- The integers that a `float` takes without rounding. -/
theorem floatOfInt_exact {n : Int} (h : IsDouble n) : floatOfInt n = some (.fin n) := by
  unfold floatOfInt
  rw [roundDouble_exact h]

theorem PyFloat.half_exact {q : ℚ} (h : IsDouble (q / 2)) : (PyFloat.fin q).half = .fin (q / 2) := roundDouble_exact h

end Xair
