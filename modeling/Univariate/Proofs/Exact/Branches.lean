import Mathlib
import Univariate.Proofs.Exact.Complex

namespace Univariate.Cartesian

variable {z w : Cartesian ℝ}

section SquareRoot

structure Rightward (w : Cartesian ℝ) : Prop where
  re_nonneg : 0 ≤ w.re
  im_nonneg : w.re = 0 → 0 ≤ w.im

theorem Rightward.eq_of_opposite (hw : Rightward w) (hz : Rightward z)
    (h : w.toComplex = -z.toComplex) : w = z := by
  obtain ⟨hre, him⟩ := Complex.ext_iff.mp h
  change w.re = -z.re at hre
  change w.im = -z.im at him
  have hwre : w.re = 0 := le_antisymm (by linarith [hz.re_nonneg]) hw.re_nonneg
  have hzre : z.re = 0 := by linarith
  have hwim := hw.im_nonneg hwre
  have hzim := hz.im_nonneg hzre
  apply toComplex_injective
  apply Complex.ext
  · exact hwre.trans hzre.symm
  · change w.im = z.im
    linarith

theorem rightward_sqrt (z : Cartesian ℝ) : Rightward z.sqrt := by
  rw [sqrt_eq]
  refine ⟨Real.sqrt_nonneg _, fun hre => ?_⟩
  obtain ⟨hplus, -, hprod⟩ := half_angles z
  have hzero : (‖z.toComplex‖ + z.re) / 2 = 0 := (Real.sqrt_eq_zero hplus).mp hre
  rw [hzero, zero_mul, eq_comm, sq_eq_zero_iff] at hprod
  have him : ¬ z.im < 0 := by linarith
  rw [if_neg him]
  exact Real.sqrt_nonneg _

theorem eq_sqrt_iff : w = z.sqrt ↔ w * w = z ∧ Rightward w := by
  constructor
  · rintro rfl
    exact ⟨toComplex_injective (by rw [toComplex_mul, sqrt_mul_sqrt]), rightward_sqrt z⟩
  · rintro ⟨rfl, hw⟩
    have hsq : w.toComplex * w.toComplex = (w * w).sqrt.toComplex * (w * w).sqrt.toComplex := by
      rw [sqrt_mul_sqrt, toComplex_mul]
    rcases mul_self_eq_mul_self_iff.mp hsq with heq | hopposite
    · exact toComplex_injective heq
    · exact hw.eq_of_opposite (rightward_sqrt _) hopposite

theorem sqrt_ofReal_of_nonneg {x : ℝ} (hx : 0 ≤ x) : (ofReal x).sqrt = ⟨Real.sqrt x, 0⟩ := by
  refine (eq_sqrt_iff.mpr ⟨?_, Real.sqrt_nonneg x, fun _ => le_rfl⟩).symm
  apply toComplex_injective
  rw [toComplex_mul]
  exact toComplex_mul_self (by simp [ofReal, Real.mul_self_sqrt hx]) (by simp [ofReal])

theorem sqrt_ofReal_of_nonpos {x : ℝ} (hx : x ≤ 0) : (ofReal x).sqrt = ⟨0, Real.sqrt (-x)⟩ := by
  refine (eq_sqrt_iff.mpr ⟨?_, le_rfl, fun _ => Real.sqrt_nonneg (-x)⟩).symm
  apply toComplex_injective
  rw [toComplex_mul]
  exact toComplex_mul_self (by simp [ofReal, Real.mul_self_sqrt (neg_nonneg.mpr hx)])
    (by simp [ofReal])

end SquareRoot

section CubeRoot

open Real

theorem third_angle_mem (z : ℂ) : z.arg / 3 ∈ Set.Ioc (-(π / 3)) (π / 3) := by
  obtain ⟨hlower, hupper⟩ := Complex.arg_mem_Ioc z
  constructor <;> linarith

theorem arg_cbrt (z : Cartesian ℝ) : z.cbrt.toComplex.arg = z.toComplex.arg / 3 := by
  rcases eq_or_ne z.toComplex 0 with h | h
  · rw [cbrt_zero h, h, Complex.arg_zero, zero_div]
  · obtain ⟨hlower, hupper⟩ := third_angle_mem z.toComplex
    have hpi := Real.pi_pos
    rw [cbrt_polar h, Complex.exp_mul_I]
    exact_mod_cast Complex.arg_mul_cos_add_sin_mul_I (cbrt_real_pos (norm_pos_iff.mpr h))
      ⟨by linarith, by linarith⟩

theorem arg_cbrt_mem (z : Cartesian ℝ) :
    z.cbrt.toComplex.arg ∈ Set.Ioc (-(π / 3)) (π / 3) := by
  rw [arg_cbrt]
  exact third_angle_mem _

theorem eq_cbrt_iff :
    w = z.cbrt ↔ w * w * w = z ∧ w.toComplex.arg ∈ Set.Ioc (-(π / 3)) (π / 3) := by
  have hcube (c : Cartesian ℝ) : (c * c * c).toComplex = c.toComplex ^ 3 := by
    rw [toComplex_mul, toComplex_mul]
    ring
  constructor
  · rintro rfl
    exact ⟨toComplex_injective (by rw [hcube, cbrt_cubed]), arg_cbrt_mem z⟩
  · rintro ⟨rfl, hlower, hupper⟩
    obtain ⟨hlower', hupper'⟩ := arg_cbrt_mem (w * w * w)
    apply toComplex_injective
    rw [← Complex.pow_cpow_ofNat_inv hlower hupper, ← Complex.pow_cpow_ofNat_inv hlower' hupper',
      cbrt_cubed, hcube]

end CubeRoot

theorem roots_in_branches (z : Cartesian ℝ) :
    (z.sqrt * z.sqrt = z ∧ 0 ≤ z.sqrt.re ∧ (z.sqrt.re = 0 → 0 ≤ z.sqrt.im)) ∧
    (z.cbrt * z.cbrt * z.cbrt = z ∧
      (z.cbrt = ⟨0, 0⟩ ∨
        z.cbrt.toComplex.arg ∈ Set.Ioc (-(Real.pi / 3)) (Real.pi / 3))) := by
  obtain ⟨hsquare, hright⟩ := eq_sqrt_iff.mp (rfl : z.sqrt = z.sqrt)
  obtain ⟨hcube, hangle⟩ := eq_cbrt_iff.mp (rfl : z.cbrt = z.cbrt)
  exact ⟨⟨hsquare, hright.re_nonneg, hright.im_nonneg⟩, hcube, .inr hangle⟩

theorem roots_in_branches_minus_four :
    (ofReal (-4 : ℝ)).sqrt.re = 0 ∧ 0 ≤ (ofReal (-4 : ℝ)).sqrt.im ∧
      (ofReal (-4 : ℝ)).sqrt * (ofReal (-4 : ℝ)).sqrt = ofReal (-4) := by
  obtain ⟨⟨hsquare, -, him⟩, -⟩ := roots_in_branches (ofReal (-4))
  have hre : (ofReal (-4 : ℝ)).sqrt.re = 0 := by rw [sqrt_ofReal_of_nonpos (by norm_num)]
  exact ⟨hre, him hre, hsquare⟩

end Univariate.Cartesian
