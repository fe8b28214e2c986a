import Mathlib
import Univariate.Proofs.Roots.FixedPoints

namespace Univariate.DurandKerner

open Cartesian Polynomial
open scoped ComplexConjugate

variable {n : ℕ}

theorem exists_steps (hn : n ≠ 0) : ∃ turn first : ℂ,
    IsPrimitiveRoot turn n ∧ first ^ n = Complex.I ∧
      (initialGuesses n).map toComplex = (List.range n).map fun i => turn ^ i * first := by
  have hn' : (n : ℂ) ≠ 0 := Nat.cast_ne_zero.mpr hn
  have hquarter : (n : ℂ) * (2 * Real.pi * Complex.I / n / 4) = Real.pi / 2 * Complex.I := by
    field_simp
    ring
  refine ⟨Complex.exp (2 * Real.pi * Complex.I / n), Complex.exp (2 * Real.pi * Complex.I / n / 4),
    Complex.isPrimitiveRoot_exp n hn, ?_, ?_⟩
  · rw [← Complex.exp_nat_mul, hquarter, Complex.exp_pi_div_two_mul_I]
  · rw [initialGuesses, List.map_map]
    apply List.map_congr_left
    intro i _
    set angle : ℝ := 2 * Real.pi / n * i + 2 * Real.pi / n / 4 with hangle
    have hpoint : Complex.exp (2 * Real.pi * Complex.I / n) ^ i *
        Complex.exp (2 * Real.pi * Complex.I / n / 4) = Complex.exp (angle * Complex.I) := by
      rw [← Complex.exp_nat_mul, ← Complex.exp_add, hangle]
      push_cast
      congr 1
      ring
    rw [hpoint]
    apply Complex.ext
    · rw [Complex.exp_ofReal_mul_I_re]
      simp [hangle, Elementary.cos, Elementary.pi]
    · rw [Complex.exp_ofReal_mul_I_im]
      simp [hangle, Elementary.sin, Elementary.pi]

section Guesses

variable {z : Cartesian ℝ}

theorem length_initialGuesses (n : ℕ) : (initialGuesses n : List (Cartesian ℝ)).length = n := by
  rw [initialGuesses, List.length_map, List.length_range]

theorem nodup_initialGuesses (n : ℕ) : (initialGuesses n : List (Cartesian ℝ)).Nodup := by
  rcases Nat.eq_zero_or_pos n with rfl | hpos
  · exact List.nodup_nil
  · obtain ⟨turn, first, hturn, hfirst, hmap⟩ := exists_steps hpos.ne'
    have hne : first ≠ 0 := by
      rintro rfl
      rw [zero_pow hpos.ne'] at hfirst
      exact Complex.I_ne_zero hfirst.symm
    apply List.Nodup.of_map toComplex
    rw [hmap]
    refine List.nodup_range.map_on fun i hi j hj h => ?_
    exact hturn.pow_inj (List.mem_range.mp hi) (List.mem_range.mp hj) (mul_right_cancel₀ hne h)

theorem ne_zero_of_mem_initialGuesses (hz : z ∈ initialGuesses n) : n ≠ 0 := by
  rintro rfl
  cases hz

theorem pow_of_mem_initialGuesses (hz : z ∈ initialGuesses n) :
    z.toComplex ^ n = Complex.I := by
  obtain ⟨turn, first, hturn, hfirst, hmap⟩ := exists_steps (ne_zero_of_mem_initialGuesses hz)
  have hmem := List.mem_map_of_mem (f := toComplex) hz
  rw [hmap, List.mem_map] at hmem
  obtain ⟨i, -, hpoint⟩ := hmem
  rw [← hpoint, mul_pow, hfirst, ← pow_mul, mul_comm i n, pow_mul, hturn.pow_eq_one, one_pow,
    one_mul]

theorem prod_initialGuesses (hn : n ≠ 0) :
    (X ^ n - C Complex.I : ℂ[X]) =
      ((initialGuesses n : List (Cartesian ℝ)).map fun z => X - C z.toComplex).prod := by
  have hnodup := (nodup_initialGuesses n).map toComplex_injective
  have hlength : ((initialGuesses n).map toComplex).length =
      (X ^ n - C Complex.I : ℂ[X]).natDegree := by
    rw [List.length_map, length_initialGuesses, natDegree_X_pow_sub_C]
  have hroots := roots_iff_eq_prod (monic_X_pow_sub_C Complex.I hn) hnodup hlength
  rw [List.map_map, List.forall_mem_map] at hroots
  refine hroots.mp fun z hz => ?_
  rw [IsRoot.def, eval_sub, eval_pow, eval_X, eval_C, pow_of_mem_initialGuesses hz, sub_self]

theorem mem_initialGuesses_iff (hn : n ≠ 0) :
    z ∈ initialGuesses n ↔ z.toComplex ^ n = Complex.I := by
  refine ⟨pow_of_mem_initialGuesses, fun hpow => ?_⟩
  have hzero := congrArg (eval z.toComplex) (prod_initialGuesses hn)
  rw [eval_sub, eval_pow, eval_X, eval_C, hpow, sub_self, eval_list_prod, List.map_map, eq_comm,
    List.prod_eq_zero_iff, List.mem_map] at hzero
  obtain ⟨w, hw, hdifference⟩ := hzero
  rw [Function.comp_apply, eval_sub, eval_X, eval_C, sub_eq_zero] at hdifference
  rwa [toComplex_injective hdifference]

theorem abs_of_mem_initialGuesses (hz : z ∈ initialGuesses n) : z.abs = 1 := by
  have hnorm := congrArg norm (pow_of_mem_initialGuesses hz)
  rw [norm_pow, Complex.norm_I] at hnorm
  rw [abs_eq_norm]
  exact (pow_eq_one_iff_of_nonneg (norm_nonneg _) (ne_zero_of_mem_initialGuesses hz)).mp hnorm

theorem conjugate_not_mem_initialGuesses (hz : z ∈ initialGuesses n) :
    z.conjugate ∉ initialGuesses n := by
  intro hconjugate
  have hpow := pow_of_mem_initialGuesses hconjugate
  rw [toComplex_conjugate, ← map_pow, pow_of_mem_initialGuesses hz, Complex.conj_I] at hpow
  exact Complex.I_ne_zero (CharZero.neg_eq_self_iff.mp hpow)

theorem im_ne_zero_of_mem_initialGuesses (hz : z ∈ initialGuesses n) : z.im ≠ 0 := by
  intro him
  apply conjugate_not_mem_initialGuesses hz
  rwa [(conjugate_eq_self_iff z).mpr him]

end Guesses

theorem initialGuesses_scattered (n : ℕ) :
    (initialGuesses n : List (Cartesian ℝ)).length = n ∧
    (initialGuesses n : List (Cartesian ℝ)).Nodup ∧
    (∀ z : Cartesian ℝ, z ∈ initialGuesses n → z.abs = 1 ∧ z.im ≠ 0) ∧
    ∀ z w : Cartesian ℝ, z ∈ initialGuesses n → w ∈ initialGuesses n → w ≠ z.conjugate := by
  refine ⟨length_initialGuesses n, nodup_initialGuesses n, fun z hz => ?_, fun z w hz hw => ?_⟩
  · exact ⟨abs_of_mem_initialGuesses hz, im_ne_zero_of_mem_initialGuesses hz⟩
  · rintro rfl
    exact conjugate_not_mem_initialGuesses hz hw

theorem initialGuesses_scattered_quintic :
    (⟨0, 1⟩ : Cartesian ℝ) ∈ initialGuesses 5 ∧
      (⟨0, 1⟩ : Cartesian ℝ).abs = 1 ∧
      ∀ w : Cartesian ℝ, w ∈ initialGuesses 5 → w ≠ ⟨0, -1⟩ := by
  have hmem : (⟨0, 1⟩ : Cartesian ℝ) ∈ initialGuesses 5 := by
    have hunit : toComplex ⟨0, 1⟩ = Complex.I := rfl
    rw [mem_initialGuesses_iff (by norm_num), hunit, pow_succ, Complex.I_pow_four, one_mul]
  obtain ⟨-, -, hcircle, hconjugate⟩ := initialGuesses_scattered 5
  exact ⟨hmem, (hcircle _ hmem).1, fun w => hconjugate _ w hmem⟩

end Univariate.DurandKerner
