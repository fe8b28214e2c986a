import Mathlib
import Univariate.Roots.ClosedForm
import Univariate.Proofs.Exact.Branches

namespace Univariate.ClosedForm

open Cartesian
open scoped ComplexConjugate

section Factors

variable {a b c root : ℂ}

theorem quadratic_halves (ha : a ≠ 0) (h : root * root = b ^ 2 - 4 * a * c) (z : ℂ) :
    a * (z - (-b + root) / (2 * a)) * (z - (-b - root) / (2 * a)) = a * z ^ 2 + b * z + c := by
  field_simp
  linear_combination -h

theorem sub_quadratic_halves (ha : a ≠ 0) :
    (-b + root) / (2 * a) - (-b - root) / (2 * a) = root / a := by
  field_simp
  ring

end Factors

section Conjugation

variable {x : ℝ}

theorem conj_sqrt_of_nonneg (hx : 0 ≤ x) :
    conj (ofReal x).sqrt.toComplex = (ofReal x).sqrt.toComplex := by
  rw [sqrt_ofReal_of_nonneg hx]
  exact Complex.conj_ofReal _

theorem conj_sqrt_of_nonpos (hx : x ≤ 0) :
    conj (ofReal x).sqrt.toComplex = -(ofReal x).sqrt.toComplex := by
  rw [sqrt_ofReal_of_nonpos hx]
  apply Complex.ext <;> simp

end Conjugation

section Halves

structure Halves (a b : ℝ) (root : ℂ) (r₁ r₂ : Cartesian ℝ) : Prop where
  first : r₁.toComplex = (-b + root) / (2 * a)
  second : r₂.toComplex = (-b - root) / (2 * a)

variable {a b : ℝ} {root : ℂ} {r₁ r₂ : Cartesian ℝ}

theorem Halves.conj_first (h : Halves a b root r₁ r₂) :
    conj r₁.toComplex = (-b + conj root) / (2 * a) := by
  simp [h.first, map_ofNat]

theorem Halves.conj_second (h : Halves a b root r₁ r₂) :
    conj r₂.toComplex = (-b - conj root) / (2 * a) := by
  simp [h.second, map_ofNat]

theorem Halves.im_eq_zero (h : Halves a b root r₁ r₂) (hroot : conj root = root) :
    r₁.im = 0 ∧ r₂.im = 0 := by
  constructor
  · apply (conjugate_eq_self_iff r₁).mp
    apply toComplex_injective
    rw [toComplex_conjugate, h.conj_first, hroot, h.first]
  · apply (conjugate_eq_self_iff r₂).mp
    apply toComplex_injective
    rw [toComplex_conjugate, h.conj_second, hroot, h.second]

theorem Halves.eq_conjugate (h : Halves a b root r₁ r₂) (hroot : conj root = -root) :
    r₂ = r₁.conjugate := by
  apply toComplex_injective
  rw [toComplex_conjugate, h.conj_first, hroot, h.second, sub_eq_add_neg]

theorem exists_halves [Undefined ℝ] (ha : a ≠ 0) (b c : ℝ) :
    ∃ r₁ r₂ : Cartesian ℝ, quadratic a b c = [r₁, r₂] ∧
      Halves a b (Cartesian.ofReal (b ^ 2 - 4 * a * c)).sqrt.toComplex r₁ r₂ := by
  have ha' : (a == 0) = false := by simpa using ha
  have htwo : (Cartesian.ofReal (2 * a)).toComplex ≠ 0 := by simpa using ha
  set root := (Cartesian.ofReal (b ^ 2 - 4 * a * c)).sqrt with hroot
  refine ⟨(Cartesian.ofReal (-b) + root).div (Cartesian.ofReal (2 * a)),
    (Cartesian.ofReal (-b) - root).div (Cartesian.ofReal (2 * a)), ?_, ?_, ?_⟩
  · simp only [quadratic, ha', Bool.false_eq_true, if_false, hroot, pow_two, Nat.cast_ofNat]
  · rw [toComplex_div htwo]
    simp
  · rw [toComplex_div htwo]
    simp

end Halves

/-- The values returned for a quadratic are its roots, the one with the positive root of the
discriminant first. -/
theorem quadratic_factors [Undefined ℝ] {a : ℝ} (ha : a ≠ 0) (b c : ℝ) :
    ∃ r₁ r₂ : Cartesian ℝ, quadratic a b c = [r₁, r₂] ∧
      (∀ z : ℂ, a * (z - r₁.toComplex) * (z - r₂.toComplex) = a * z ^ 2 + b * z + c) ∧
      r₁.toComplex - r₂.toComplex =
        (Cartesian.ofReal (b ^ 2 - 4 * a * c)).sqrt.toComplex / a ∧
      (0 ≤ b ^ 2 - 4 * a * c → r₁.im = 0 ∧ r₂.im = 0) ∧
      (b ^ 2 - 4 * a * c ≤ 0 → r₂ = r₁.conjugate) := by
  obtain ⟨r₁, r₂, heq, h⟩ := exists_halves ha b c
  have ha' : (a : ℂ) ≠ 0 := Complex.ofReal_ne_zero.mpr ha
  have hsq : (Cartesian.ofReal (b ^ 2 - 4 * a * c)).sqrt.toComplex *
      (Cartesian.ofReal (b ^ 2 - 4 * a * c)).sqrt.toComplex = b ^ 2 - 4 * a * c := by
    rw [sqrt_mul_sqrt, toComplex_ofReal]
    push_cast
    rfl
  refine ⟨r₁, r₂, heq, fun z => ?_, ?_, fun hpos => ?_, fun hneg => ?_⟩
  · rw [h.first, h.second]
    exact quadratic_halves ha' hsq z
  · rw [h.first, h.second]
    exact sub_quadratic_halves ha'
  · exact h.im_eq_zero (conj_sqrt_of_nonneg hpos)
  · exact h.eq_conjugate (conj_sqrt_of_nonpos hneg)

theorem quadratic_factors_conjugate : ∃ _ : Undefined ℝ,
    (-1 : ℝ) ≠ 0 ∧ (2 : ℝ) ^ 2 - 4 * -1 * -5 ≤ 0 ∧
      ∃ r₁ r₂ : Cartesian ℝ, quadratic (-1) 2 (-5) = [r₁, r₂] ∧
        (∀ z : ℂ, (-1 : ℝ) * (z - r₁.toComplex) * (z - r₂.toComplex) =
          (-1 : ℝ) * z ^ 2 + (2 : ℝ) * z + (-5 : ℝ)) ∧
        r₁.toComplex - r₂.toComplex =
          (Cartesian.ofReal ((2 : ℝ) ^ 2 - 4 * -1 * -5)).sqrt.toComplex / (-1 : ℝ) ∧
        r₂ = r₁.conjugate := by
  let undefined : Undefined ℝ := ⟨0⟩
  have ha : (-1 : ℝ) ≠ 0 := by norm_num
  have hneg : (2 : ℝ) ^ 2 - 4 * -1 * -5 ≤ 0 := by norm_num
  obtain ⟨r₁, r₂, heq, hfactors, hsub, -, hconjugate⟩ := quadratic_factors ha 2 (-5)
  exact ⟨undefined, ha, hneg, r₁, r₂, heq, hfactors, hsub, hconjugate hneg⟩

end Univariate.ClosedForm
