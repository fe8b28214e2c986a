import Mathlib
import Univariate.Cartesian
import Univariate.Proofs.Exact.Real

namespace Univariate

namespace Cartesian

open scoped ComplexConjugate

def toComplex (z : Cartesian ℝ) : ℂ := ⟨z.re, z.im⟩

variable (z w : Cartesian ℝ)

@[simp] theorem toComplex_re : z.toComplex.re = z.re := rfl

@[simp] theorem toComplex_im : z.toComplex.im = z.im := rfl

@[simp] theorem toComplex_add : (z + w).toComplex = z.toComplex + w.toComplex := rfl

@[simp] theorem toComplex_sub : (z - w).toComplex = z.toComplex - w.toComplex :=
  Complex.ext (by rw [Complex.sub_re]; rfl) (by rw [Complex.sub_im]; rfl)

@[simp] theorem toComplex_mul : (z * w).toComplex = z.toComplex * w.toComplex :=
  Complex.ext (by rw [Complex.mul_re]; rfl) (by rw [Complex.mul_im]; rfl)

@[simp] theorem toComplex_ofReal (x : ℝ) : (ofReal x).toComplex = x := rfl

@[simp] theorem toComplex_scale (k : ℝ) : (z.scale k).toComplex = z.toComplex * k :=
  Complex.ext (by rw [Complex.re_mul_ofReal]; rfl) (by rw [Complex.im_mul_ofReal]; rfl)

@[simp] theorem toComplex_conjugate : z.conjugate.toComplex = conj z.toComplex := rfl

theorem squaredNorm_eq_normSq : z.squaredNorm = Complex.normSq z.toComplex :=
  (Complex.normSq_apply z.toComplex).symm

theorem toComplex_injective : Function.Injective toComplex := by
  rintro ⟨x, y⟩ ⟨x', y'⟩ h
  cases h
  rfl

theorem conjugate_eq_self_iff : z.conjugate = z ↔ z.im = 0 := by
  rw [← toComplex_injective.eq_iff, toComplex_conjugate, Complex.conj_eq_iff_im]
  rfl

theorem ofReal_scale (x k : ℝ) : (ofReal x).scale k = ofReal (x * k) :=
  toComplex_injective (by simp)

theorem add_scale (k : ℝ) : (z + w).scale k = z.scale k + w.scale k :=
  toComplex_injective (by simp [add_mul])

theorem sub_scale (k : ℝ) : (z - w).scale k = z.scale k - w.scale k :=
  toComplex_injective (by simp [sub_mul])

theorem toComplex_eq_zero {z : Cartesian ℝ} : z.toComplex = 0 ↔ z.re = 0 ∧ z.im = 0 := by
  rw [Complex.ext_iff]
  rfl

theorem div?_of_zero {w : Cartesian ℝ} (h : w.toComplex = 0) : div? z w = none := by
  have hn : w.squaredNorm = 0 := by rw [squaredNorm_eq_normSq, h, map_zero]
  exact if_pos (by simpa using hn)

theorem exists_div? {w : Cartesian ℝ} (h : w.toComplex ≠ 0) :
    ∃ q, div? z w = some q ∧ q.toComplex = z.toComplex / w.toComplex := by
  have hn : w.squaredNorm ≠ 0 := by
    rw [squaredNorm_eq_normSq]
    exact (map_ne_zero Complex.normSq).mpr h
  refine ⟨_, if_neg (by simpa using hn), ?_⟩
  apply Complex.ext
  · rw [Complex.div_re, ← squaredNorm_eq_normSq, ← add_div]
    rfl
  · rw [Complex.div_im, ← squaredNorm_eq_normSq, ← sub_div]
    rfl

theorem toComplex_div [Undefined ℝ] {z w : Cartesian ℝ} (h : w.toComplex ≠ 0) :
    (div z w).toComplex = z.toComplex / w.toComplex := by
  obtain ⟨q, hq, hvalue⟩ := exists_div? z h
  rw [div, hq]
  exact hvalue

theorem div?_eq_zero_iff {z w : Cartesian ℝ} :
    div? z w = some ⟨0, 0⟩ ↔ z.toComplex = 0 ∧ w.toComplex ≠ 0 := by
  constructor
  · intro h
    have hw : w.toComplex ≠ 0 := by
      intro hw
      rw [div?_of_zero z hw] at h
      cases h
    obtain ⟨q, hq, hvalue⟩ := exists_div? z hw
    cases hq.symm.trans h
    exact ⟨(div_eq_zero_iff.mp hvalue.symm).resolve_right hw, hw⟩
  · rintro ⟨hz, hw⟩
    obtain ⟨q, hq, hvalue⟩ := exists_div? z hw
    rw [hz, zero_div] at hvalue
    obtain rfl : q = ⟨0, 0⟩ := toComplex_injective hvalue
    exact hq

theorem abs_eq_norm : z.abs = ‖z.toComplex‖ := by
  rw [Complex.norm_def, ← squaredNorm_eq_normSq]
  rfl

theorem zero_le_abs_real : 0 ≤ z.abs := by
  rw [abs_eq_norm]
  exact norm_nonneg _

theorem norm_scale {k : ℝ} (hk : 0 ≤ k) : ‖(z.scale k).toComplex‖ = ‖z.toComplex‖ * k := by
  rw [toComplex_scale, norm_mul, Complex.norm_of_nonneg hk]

section SquareRoot

theorem half_angles :
    0 ≤ (‖z.toComplex‖ + z.re) / 2 ∧ 0 ≤ (‖z.toComplex‖ - z.re) / 2 ∧
      (‖z.toComplex‖ + z.re) / 2 * ((‖z.toComplex‖ - z.re) / 2) = (z.im / 2) ^ 2 := by
  have hre := abs_le.mp (Complex.abs_re_le_norm z.toComplex)
  have hsq : ‖z.toComplex‖ * ‖z.toComplex‖ = z.re * z.re + z.im * z.im :=
    (Complex.norm_mul_self_eq_normSq z.toComplex).trans (Complex.normSq_apply z.toComplex)
  rw [toComplex_re] at hre
  refine ⟨by linarith, by linarith, ?_⟩
  linear_combination hsq / 4

theorem sqrt_eq : z.sqrt =
    ⟨Real.sqrt ((‖z.toComplex‖ + z.re) / 2),
      if z.im < 0 then -Real.sqrt ((‖z.toComplex‖ - z.re) / 2)
      else Real.sqrt ((‖z.toComplex‖ - z.re) / 2)⟩ := by
  obtain ⟨hplus, hminus, -⟩ := half_angles z
  simp only [sqrt, positivePart_eq_max, abs_eq_norm, Nat.cast_ofNat, max_eq_right hplus,
    max_eq_right hminus, Elementary.sqrt]
  split <;> rfl

theorem sqrt_scale {k : ℝ} (hk : 0 < k) : (z.scale (k ^ 2)).sqrt = z.sqrt.scale k := by
  have hre : (z.scale (k ^ 2)).re = z.re * k ^ 2 := rfl
  have him : (z.scale (k ^ 2)).im = z.im * k ^ 2 := rfl
  have hroot (x : ℝ) : Real.sqrt (x * k ^ 2) = Real.sqrt x * k := by
    rw [Real.sqrt_mul' x (sq_nonneg k), Real.sqrt_sq hk.le]
  have hsign : z.im * k ^ 2 < 0 ↔ z.im < 0 := by
    simpa using mul_lt_mul_iff_left₀ (pow_pos hk 2) (b := z.im) (c := 0)
  rw [sqrt_eq, sqrt_eq, norm_scale z (sq_nonneg k), hre, him, ← add_mul, ← sub_mul,
    mul_div_right_comm, mul_div_right_comm, hroot, hroot]
  simp only [hsign, scale, ite_mul, neg_mul]

variable {z} in
theorem toComplex_mul_self {x y : ℝ} (hre : x * x - y * y = z.re) (him : 2 * (x * y) = z.im) :
    toComplex ⟨x, y⟩ * toComplex ⟨x, y⟩ = z.toComplex := by
  apply Complex.ext
  · rw [Complex.mul_re]
    exact hre
  · rw [Complex.mul_im, toComplex_im z, ← him]
    change x * y + y * x = 2 * (x * y)
    ring

theorem sqrt_mul_sqrt : z.sqrt.toComplex * z.sqrt.toComplex = z.toComplex := by
  obtain ⟨hplus, hminus, hprod⟩ := half_angles z
  have hp := Real.mul_self_sqrt hplus
  have hm := Real.mul_self_sqrt hminus
  have habs : Real.sqrt ((‖z.toComplex‖ + z.re) / 2) * Real.sqrt ((‖z.toComplex‖ - z.re) / 2) =
      |z.im / 2| := by
    rw [← Real.sqrt_mul hplus, hprod, Real.sqrt_sq_eq_abs]
  rw [sqrt_eq]
  split
  next hneg =>
    rw [abs_of_neg (by linarith)] at habs
    exact toComplex_mul_self (by linarith) (by linarith)
  next hpos =>
    rw [abs_of_nonneg (by linarith [not_lt.mp hpos])] at habs
    exact toComplex_mul_self (by linarith) (by linarith)

end SquareRoot

section CubeRoot

variable {z}

theorem cbrt_zero (h : z.toComplex = 0) : z.cbrt.toComplex = 0 := by
  obtain ⟨hre, him⟩ := toComplex_eq_zero.mp h
  simp [toComplex_eq_zero, cbrt, hre, him]

theorem cbrt_polar (h : z.toComplex ≠ 0) : z.cbrt.toComplex =
    (Elementary.cbrt ‖z.toComplex‖ : ℝ) *
      Complex.exp ((z.toComplex.arg / 3 : ℝ) * Complex.I) := by
  have hz : (z.re == 0 && z.im == 0) = false := by
    simpa [toComplex_eq_zero] using h
  have hpair : z.cbrt = ⟨Elementary.cbrt ‖z.toComplex‖ * Real.cos (z.toComplex.arg / 3),
      Elementary.cbrt ‖z.toComplex‖ * Real.sin (z.toComplex.arg / 3)⟩ := by
    simp only [cbrt, hz, abs_eq_norm, Nat.cast_ofNat]
    rfl
  apply Complex.ext
  · rw [hpair, Complex.re_ofReal_mul, Complex.exp_ofReal_mul_I_re, toComplex_re]
  · rw [hpair, Complex.im_ofReal_mul, Complex.exp_ofReal_mul_I_im, toComplex_im]

theorem cbrt_cubed (z : Cartesian ℝ) : z.cbrt.toComplex ^ 3 = z.toComplex := by
  by_cases h : z.toComplex = 0
  · rw [cbrt_zero h, h, zero_pow (by norm_num)]
  · have hnorm : ((Elementary.cbrt ‖z.toComplex‖ : ℝ) : ℂ) ^ 3 = ‖z.toComplex‖ := by
      rw [← Complex.ofReal_pow, cbrt_real_cubed (norm_nonneg _)]
    have hangle : 3 * (((z.toComplex.arg / 3 : ℝ) : ℂ) * Complex.I) =
        z.toComplex.arg * Complex.I := by
      push_cast
      ring
    rw [cbrt_polar h, mul_pow, hnorm, ← Complex.exp_nat_mul, Nat.cast_ofNat, hangle,
      Complex.norm_mul_exp_arg_mul_I]

theorem cbrt_scale (z : Cartesian ℝ) {k : ℝ} (hk : 0 < k) :
    (z.scale (k ^ 3)).cbrt = z.cbrt.scale k := by
  apply toComplex_injective
  have hk3 : 0 < k ^ 3 := pow_pos hk 3
  rw [toComplex_scale]
  rcases eq_or_ne z.toComplex 0 with h | h
  · have hscaled : (z.scale (k ^ 3)).toComplex = 0 := by rw [toComplex_scale, h, zero_mul]
    rw [cbrt_zero h, cbrt_zero hscaled, zero_mul]
  · have hscaled : (z.scale (k ^ 3)).toComplex ≠ 0 := by
      rw [toComplex_scale]
      exact mul_ne_zero h (Complex.ofReal_ne_zero.mpr hk3.ne')
    rw [cbrt_polar h, cbrt_polar hscaled, norm_scale z hk3.le, toComplex_scale,
      Complex.arg_mul_real hk3, cbrt_real_mul_cube (norm_nonneg _) hk.le, Complex.ofReal_mul]
    ring

end CubeRoot

end Cartesian

end Univariate
