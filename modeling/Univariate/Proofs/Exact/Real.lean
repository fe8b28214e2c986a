import Mathlib
import Univariate.Scalar

/-!
# Exact real arithmetic

The real numbers with their true functions. A power of a negative number to an exponent that is no
integer has no real value; here it has one all the same, which is never the opposite of the power
of the positive number.
-/

namespace Univariate

noncomputable instance : Elementary ℝ where
  pi := Real.pi
  abs x := |x|
  sqrt := Real.sqrt
  cbrt x := SignType.sign x * |x| ^ (3 : ℝ)⁻¹
  exp := Real.exp
  ln := Real.log
  log10 := Real.logb 10
  sin := Real.sin
  cos := Real.cos
  tan := Real.tan
  arcsin := Real.arcsin
  arccos := Real.arccos
  arctan := Real.arctan
  angle y x := Complex.arg ⟨x, y⟩
  power x y := x ^ y

theorem cbrt_real_cubed {x : ℝ} (h : 0 ≤ x) : Elementary.cbrt x ^ 3 = x := by
  have hroot : (x ^ (3 : ℝ)⁻¹) ^ 3 = x := by
    rw [← Real.rpow_natCast, ← Real.rpow_mul h]
    norm_num
  rcases h.eq_or_lt with rfl | hpos
  · simp [Elementary.cbrt]
  · simpa [Elementary.cbrt, sign_pos hpos, abs_of_nonneg h] using hroot

theorem cbrt_real_pos {x : ℝ} (hx : 0 < x) : (0 : ℝ) < Elementary.cbrt x := by
  have hcube : (0 : ℝ) < Elementary.cbrt x ^ 3 := (cbrt_real_cubed hx.le).symm ▸ hx
  have hodd : Odd 3 := by decide
  exact hodd.pow_pos_iff.mp hcube

theorem cbrt_real_mul_cube {x k : ℝ} (hx : 0 ≤ x) (hk : 0 ≤ k) :
    Elementary.cbrt (x * k ^ 3) = Elementary.cbrt x * k := by
  have hodd : Odd 3 := by decide
  apply hodd.strictMono_pow.injective
  change Elementary.cbrt (x * k ^ 3) ^ 3 = (Elementary.cbrt x * k) ^ 3
  rw [mul_pow, cbrt_real_cubed hx, cbrt_real_cubed (mul_nonneg hx (pow_nonneg hk 3))]

theorem positivePart_eq_max (x : ℝ) : positivePart x = max 0 x := by
  unfold positivePart
  split
  next hpos => rw [max_eq_right hpos.le]
  next hneg => rw [max_eq_left (not_lt.mp hneg)]

def SignPasses (base exponent : ℝ) : Prop :=
  if base = 0 then exponent ≠ 0 else ∃ k : ℤ, exponent = 2 * k + 1

theorem cos_mul_pi_eq_neg_one_iff {y : ℝ} :
    Real.cos (y * Real.pi) = -1 ↔ ∃ k : ℤ, y = 2 * k + 1 := by
  rw [Real.cos_eq_neg_one_iff]
  refine exists_congr fun k => ?_
  constructor
  · intro h
    apply mul_right_cancel₀ Real.pi_ne_zero
    linarith
  · intro h
    rw [h]
    ring

theorem neg_rpow_iff {x y : ℝ} (hx : 0 ≤ x) : (-x) ^ y = -(x ^ y) ↔ SignPasses (-x) y := by
  unfold SignPasses
  rcases hx.eq_or_lt with rfl | hpos
  · rw [neg_zero, if_pos rfl, CharZero.eq_neg_self_iff, Real.rpow_eq_zero_iff_of_nonneg le_rfl]
    simp
  · have hodd : (-x) ^ y = x ^ y * Real.cos (y * Real.pi) := by
      rw [Real.rpow_def_of_neg (neg_lt_zero.mpr hpos), Real.log_neg_eq_log,
        Real.rpow_def_of_pos hpos]
    have hne : x ^ y ≠ 0 := (Real.rpow_pos_of_pos hpos y).ne'
    rw [if_neg (neg_ne_zero.mpr hpos.ne'), ← cos_mul_pi_eq_neg_one_iff, hodd, ← mul_neg_one,
      mul_right_inj' hne]

end Univariate
