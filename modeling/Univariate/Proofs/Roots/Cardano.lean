import Mathlib
import Univariate.Roots.ClosedForm
import Univariate.Proofs.Exact.Complex
import Univariate.Proofs.Exact.Power

/-!
# The formula for cubics is exact

In exact arithmetic the two numbers of the resolvent of `t ^ 3 + p t + q` have the product `-p / 3`
and cubes that add up to `-q`, as soon as the first of them is either zero or not so small that
its partner is dropped. The three numbers made of them are then the roots of the cubic, and the
shift carries them over to the cubic that was given.
-/

namespace Univariate.ClosedForm

open Cartesian

section Unity

theorem sqrt_three_sq : (Real.sqrt 3 : ℂ) ^ 2 = 3 := by
  rw [← Complex.ofReal_pow, Real.sq_sqrt (by norm_num)]
  norm_num

theorem unity_toComplex :
    (unity : Cartesian ℝ).toComplex = -(1 / 2) + Real.sqrt 3 / 2 * Complex.I := by
  apply Complex.ext <;> simp [unity, Elementary.sqrt]

theorem unityConjugate_toComplex :
    (unityConjugate : Cartesian ℝ).toComplex = -(1 / 2) - Real.sqrt 3 / 2 * Complex.I := by
  apply Complex.ext <;> simp [unityConjugate, Elementary.sqrt, neg_div]

theorem unity_add_unityConjugate :
    (unity : Cartesian ℝ).toComplex + (unityConjugate : Cartesian ℝ).toComplex = -1 := by
  rw [unity_toComplex, unityConjugate_toComplex]
  ring

theorem unity_mul_unityConjugate :
    (unity : Cartesian ℝ).toComplex * (unityConjugate : Cartesian ℝ).toComplex = 1 := by
  rw [unity_toComplex, unityConjugate_toComplex]
  linear_combination (1 / 4 : ℂ) * sqrt_three_sq
    - (Real.sqrt 3 : ℂ) ^ 2 / 4 * Complex.I_sq

theorem norm_unity : ‖(unity : Cartesian ℝ).toComplex‖ = 1 := by
  rw [← abs_eq_norm]
  norm_num [Cartesian.abs, squaredNorm, unity, Elementary.sqrt, div_mul_div_comm]

theorem norm_unityConjugate : ‖(unityConjugate : Cartesian ℝ).toComplex‖ = 1 := by
  have h := congrArg norm unity_mul_unityConjugate
  rwa [norm_mul, norm_unity, one_mul, norm_one] at h

end Unity

theorem depressed_factors {ω ω' : ℂ} (hsum : ω + ω' = -1) (hprod : ω * ω' = 1) (u v t : ℂ) :
    (t - (u + v)) * (t - (u * ω + v * ω')) * (t - (u * ω' + v * ω)) =
      t ^ 3 - 3 * (u * v) * t - (u ^ 3 + v ^ 3) := by
  obtain rfl : ω' = -1 - ω := by linear_combination hsum
  have hω : ω ^ 2 + ω + 1 = 0 := by linear_combination -hprod
  linear_combination (-(t - (u + v)) * ((u - v) ^ 2)) * hω

section Resolvent

variable (p q : ℝ)

/-- The partner of the first number of the resolvent is not dropped unless that number is zero. -/
def Resolvent.Kept (r : Resolvent ℝ) : Prop :=
  tolerance ≤ r.u.abs ∨ r.u.toComplex = 0

structure Radicands (first second : ℂ) : Prop where
  sum : first + second = -q
  product : first * second = -(p / 3) ^ 3
  norm_le : ‖second‖ ≤ ‖first‖

variable {p q}

theorem Radicands.eq_zero {second : ℂ} (h : Radicands p q 0 second) : p = 0 ∧ q = 0 := by
  have hsecond : second = 0 := norm_le_zero_iff.mp (by simpa using h.norm_le)
  have hq := h.sum
  have hp := h.product
  rw [hsecond] at hq hp
  constructor
  · have hcube : ((p : ℂ) / 3) ^ 3 = 0 := by linear_combination hp
    have hthird : (p : ℂ) / 3 = 0 := eq_zero_of_pow_eq_zero hcube
    exact_mod_cast show (p : ℂ) = 0 by linear_combination 3 * hthird
  · rw [add_zero] at hq
    exact_mod_cast neg_eq_zero.mp hq.symm

theorem halves_add_mul {root : ℂ} (h : root * root = (q / 2) ^ 2 + (p / 3) ^ 3) :
    (-q / 2 + root) + (-q / 2 - root) = -q ∧
      (-q / 2 + root) * (-q / 2 - root) = -((p : ℂ) / 3) ^ 3 := by
  constructor
  · ring
  · linear_combination -h

variable [Undefined ℝ] (p q)

theorem Resolvent.discriminant_eq :
    (ofDepressed p q).discriminant = (q / 2) ^ 2 + (p / 3) ^ 3 :=
  congrArg₂ (· + ·) (integerPower_natCast _ 2) (integerPower_natCast _ 3)

theorem Resolvent.exists_radicands :
    ∃ second, Radicands p q ((ofDepressed p q).u.toComplex ^ 3) second := by
  set root := (Cartesian.ofReal (ofDepressed p q).discriminant).sqrt with hroot
  have hsq : root.toComplex * root.toComplex = (q / 2) ^ 2 + (p / 3) ^ 3 := by
    rw [hroot, sqrt_mul_sqrt, toComplex_ofReal, discriminant_eq]
    push_cast
    rfl
  obtain ⟨hsum, hproduct⟩ := halves_add_mul hsq
  set plus := Cartesian.ofReal (-q / (2 : ℕ)) + root
  set minus := Cartesian.ofReal (-q / (2 : ℕ)) - root
  have hplus : plus.toComplex = -q / 2 + root.toComplex := by simp [plus]
  have hminus : minus.toComplex = -q / 2 - root.toComplex := by simp [minus]
  have hu : (ofDepressed p q).u = (if minus.abs ≤ plus.abs then plus else minus).cbrt := rfl
  rw [← hplus, ← hminus] at hsum hproduct
  rw [hu, cbrt_cubed]
  by_cases hle : minus.abs ≤ plus.abs
  · rw [if_pos hle]
    rw [abs_eq_norm, abs_eq_norm] at hle
    exact ⟨minus.toComplex, hsum, hproduct, hle⟩
  · rw [if_neg hle]
    rw [abs_eq_norm, abs_eq_norm, not_le] at hle
    exact ⟨plus.toComplex, (add_comm _ _).trans hsum, (mul_comm _ _).trans hproduct, hle.le⟩

theorem Resolvent.third_le_abs_sq : |p| / 3 ≤ (ofDepressed p q).u.abs ^ 2 := by
  obtain ⟨second, h⟩ := exists_radicands p q
  have hnorms : ‖(ofDepressed p q).u.toComplex‖ ^ 3 * ‖second‖ = (|p| / 3) ^ 3 := by
    rw [← norm_pow, ← norm_mul, h.product, norm_neg, norm_pow, norm_div, Complex.norm_real,
      Complex.norm_ofNat, Real.norm_eq_abs]
  have hle := h.norm_le
  rw [norm_pow] at hle
  have hcubes : (|p| / 3) ^ 3 ≤ (‖(ofDepressed p q).u.toComplex‖ ^ 2) ^ 3 :=
    calc (|p| / 3) ^ 3 = ‖(ofDepressed p q).u.toComplex‖ ^ 3 * ‖second‖ := hnorms.symm
      _ ≤ ‖(ofDepressed p q).u.toComplex‖ ^ 3 * ‖(ofDepressed p q).u.toComplex‖ ^ 3 := by gcongr
      _ = (‖(ofDepressed p q).u.toComplex‖ ^ 2) ^ 3 := by ring
  rw [abs_eq_norm]
  exact le_of_pow_le_pow_left₀ (by norm_num) (by positivity) hcubes

variable {p q} in
theorem Resolvent.tolerance_le_abs (h : 3 * tolerance ^ 2 ≤ |p|) :
    tolerance ≤ (ofDepressed p q).u.abs :=
  le_of_pow_le_pow_left₀ two_ne_zero (zero_le_abs_real _) (by linarith [third_le_abs_sq p q])

theorem Resolvent.u_ne_zero (h : tolerance ≤ (ofDepressed p q).u.abs) :
    (ofDepressed p q).u.toComplex ≠ 0 := by
  have hpos : (0 : ℝ) < tolerance := by norm_num [tolerance]
  rw [← norm_pos_iff, ← abs_eq_norm]
  exact hpos.trans_le h

theorem Resolvent.v_of_large (h : tolerance ≤ (ofDepressed p q).u.abs) :
    (ofDepressed p q).v.toComplex = -(p / 3) / (ofDepressed p q).u.toComplex := by
  have hv : (ofDepressed p q).v = (Cartesian.ofReal (-p / (3 : ℕ))).div (ofDepressed p q).u :=
    if_neg (not_lt.mpr h)
  rw [hv, toComplex_div (u_ne_zero p q h), toComplex_ofReal]
  push_cast
  ring

theorem Resolvent.v_of_small (h : (ofDepressed p q).u.abs < tolerance) :
    (ofDepressed p q).v.toComplex = 0 := by
  have hv : (ofDepressed p q).v = ⟨0, 0⟩ := if_pos h
  rw [hv]
  rfl

theorem Resolvent.v_of_zero (h : (ofDepressed p q).u.toComplex = 0) :
    (ofDepressed p q).v.toComplex = 0 := by
  apply v_of_small
  rw [abs_eq_norm, h, norm_zero]
  norm_num [tolerance]

theorem Resolvent.norm_v_le : ‖(ofDepressed p q).v.toComplex‖ ≤ (ofDepressed p q).u.abs := by
  rcases lt_or_ge (ofDepressed p q).u.abs tolerance with hsmall | hlarge
  · rw [v_of_small p q hsmall, norm_zero]
    exact zero_le_abs_real _
  · have hpos : 0 < ‖(ofDepressed p q).u.toComplex‖ := norm_pos_iff.mpr (u_ne_zero p q hlarge)
    have hthird := third_le_abs_sq p q
    rw [abs_eq_norm] at hthird ⊢
    rw [v_of_large p q hlarge, norm_div, norm_neg, norm_div, Complex.norm_real, Real.norm_eq_abs,
      Complex.norm_ofNat, div_le_iff₀ hpos, ← pow_two]
    exact hthird

theorem Resolvent.abs_sq_of_no_constant : (ofDepressed p 0).u.abs ^ 2 = |p| / 3 := by
  obtain ⟨second, h⟩ := exists_radicands p 0
  have hopposite : second = -(ofDepressed p 0).u.toComplex ^ 3 :=
    eq_neg_of_add_eq_zero_right (by simpa using h.sum)
  have hproduct := congrArg norm h.product
  rw [hopposite, norm_mul, norm_neg, norm_neg, norm_pow, norm_pow, norm_div, Complex.norm_real,
    Real.norm_eq_abs, Complex.norm_ofNat] at hproduct
  rw [abs_eq_norm, ← pow_left_inj₀ (by positivity) (by positivity) three_ne_zero, ← hproduct]
  ring

variable {p q}

theorem Resolvent.product_and_cubes (h : (ofDepressed p q).Kept) :
    (ofDepressed p q).u.toComplex * (ofDepressed p q).v.toComplex = -(p / 3) ∧
      (ofDepressed p q).u.toComplex ^ 3 + (ofDepressed p q).v.toComplex ^ 3 = -q := by
  obtain ⟨second, hradicands⟩ := exists_radicands p q
  rcases eq_or_ne (ofDepressed p q).u.toComplex 0 with hzero | hne
  · rw [hzero, zero_pow (by norm_num)] at hradicands
    obtain ⟨rfl, rfl⟩ := hradicands.eq_zero
    rw [hzero, v_of_zero _ _ hzero]
    norm_num
  · have hlarge := h.resolve_right hne
    have hproduct : (ofDepressed p q).u.toComplex * (ofDepressed p q).v.toComplex = -(p / 3) := by
      rw [v_of_large _ _ hlarge, mul_div_cancel₀ _ hne]
    have hsecond : (ofDepressed p q).v.toComplex ^ 3 = second := by
      apply mul_left_cancel₀ (pow_ne_zero 3 hne)
      rw [← mul_pow, hproduct, hradicands.product]
      ring
    exact ⟨hproduct, by rw [hsecond, hradicands.sum]⟩

theorem Resolvent.roots_factor (h : (ofDepressed p q).Kept) :
    ∃ t₁ t₂ t₃ : Cartesian ℝ, (ofDepressed p q).roots = [t₁, t₂, t₃] ∧
      ∀ t : ℂ, (t - t₁.toComplex) * (t - t₂.toComplex) * (t - t₃.toComplex) =
        t ^ 3 + p * t + q := by
  obtain ⟨hproduct, hcubes⟩ := product_and_cubes h
  refine ⟨_, _, _, rfl, fun t => ?_⟩
  simp only [toComplex_add, toComplex_mul]
  rw [depressed_factors unity_add_unityConjugate unity_mul_unityConjugate, hproduct, hcubes]
  ring

end Resolvent

theorem depressed_shift {a : ℂ} (ha : a ≠ 0) (b c d z : ℂ) :
    a * ((z + b / (3 * a)) ^ 3 + (3 * a * c - b * b) / (3 * a * a) * (z + b / (3 * a)) +
      (2 * b * b * b - 9 * a * b * c + 27 * a * a * d) / (27 * a * a * a)) =
        a * z ^ 3 + b * z ^ 2 + c * z + d := by
  field_simp
  ring

theorem cubic_factors [Undefined ℝ] {a : ℝ} (ha : a ≠ 0) (b c d : ℝ)
    (hu : tolerance ≤ (Resolvent.ofCubic a b c d).u.abs ∨
      (Resolvent.ofCubic a b c d).u = ⟨0, 0⟩) :
    ∃ r₁ r₂ r₃ : Cartesian ℝ, cubic a b c d = [r₁, r₂, r₃] ∧
      ∀ z : ℂ, a * (z - r₁.toComplex) * (z - r₂.toComplex) * (z - r₃.toComplex) =
        a * z ^ 3 + b * z ^ 2 + c * z + d := by
  have hkept : (Resolvent.ofCubic a b c d).Kept := hu.imp_right fun h => by rw [h]; rfl
  obtain ⟨t₁, t₂, t₃, hroots, hfactor⟩ := Resolvent.roots_factor hkept
  have ha' : (a == 0) = false := by simpa using ha
  let shift := Cartesian.ofReal (-b / ((3 : ℕ) * a))
  refine ⟨t₁ + shift, t₂ + shift, t₃ + shift, ?_, fun z => ?_⟩
  · simp only [cubic, ha', Bool.false_eq_true, if_false, Resolvent.ofCubic, hroots]
    rfl
  · have hz := hfactor (z + b / (3 * a))
    have hshift := depressed_shift (Complex.ofReal_ne_zero.mpr ha) b c d z
    simp only [shift, toComplex_add, toComplex_ofReal]
    push_cast at hz hshift ⊢
    rw [← hshift, ← hz]
    ring

theorem cubic_factors_one_two_three : ∃ _ : Undefined ℝ,
    ∃ r₁ r₂ r₃ : Cartesian ℝ, cubic 1 (-6) 11 (-6) = [r₁, r₂, r₃] ∧
      ∀ z : ℂ, (1 : ℝ) * (z - r₁.toComplex) * (z - r₂.toComplex) * (z - r₃.toComplex) =
        (1 : ℝ) * z ^ 3 + (-6 : ℝ) * z ^ 2 + (11 : ℝ) * z + (-6 : ℝ) := by
  let undefined : Undefined ℝ := ⟨0⟩
  have hlarge : 3 * tolerance ^ 2 ≤
      |((3 : ℕ) * 1 * 11 - -6 * -6) / ((3 : ℕ) * 1 * (1 : ℝ))| := by
    norm_num [tolerance]
  exact ⟨undefined, cubic_factors one_ne_zero (-6) 11 (-6) (.inl (Resolvent.tolerance_le_abs hlarge))⟩

end Univariate.ClosedForm
