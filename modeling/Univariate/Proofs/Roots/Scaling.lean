import Mathlib
import Univariate.Proofs.Roots.Cardano

namespace Univariate.ClosedForm

open Cartesian

section Resolvent

variable [Undefined ℝ] (p q : ℝ) {k : ℝ}

theorem Resolvent.discriminant_scale :
    (ofDepressed (p * k ^ 2) (q * k ^ 3)).discriminant =
      (ofDepressed p q).discriminant * (k ^ 3) ^ 2 := by
  rw [discriminant_eq, discriminant_eq]
  ring

theorem Resolvent.u_scale (hk : 0 < k) :
    (ofDepressed (p * k ^ 2) (q * k ^ 3)).u = (ofDepressed p q).u.scale k := by
  have hk3 : 0 < k ^ 3 := pow_pos hk 3
  set root := (Cartesian.ofReal (ofDepressed p q).discriminant).sqrt
  set plus := Cartesian.ofReal (-q / (2 : ℕ)) + root
  set minus := Cartesian.ofReal (-q / (2 : ℕ)) - root
  have hroot : (Cartesian.ofReal (ofDepressed (p * k ^ 2) (q * k ^ 3)).discriminant).sqrt =
      root.scale (k ^ 3) := by
    rw [discriminant_scale, ← ofReal_scale, sqrt_scale _ hk3]
  have hhalf : Cartesian.ofReal (-(q * k ^ 3) / (2 : ℕ)) =
      (Cartesian.ofReal (-q / (2 : ℕ))).scale (k ^ 3) := by
    rw [ofReal_scale, ← neg_mul, mul_div_right_comm]
  have hle : (minus.scale (k ^ 3)).abs ≤ (plus.scale (k ^ 3)).abs ↔ minus.abs ≤ plus.abs := by
    rw [abs_eq_norm, abs_eq_norm, norm_scale _ hk3.le, norm_scale _ hk3.le,
      mul_le_mul_iff_left₀ hk3, abs_eq_norm, abs_eq_norm]
  calc (ofDepressed (p * k ^ 2) (q * k ^ 3)).u
    _ = (if (minus.scale (k ^ 3)).abs ≤ (plus.scale (k ^ 3)).abs then plus.scale (k ^ 3)
          else minus.scale (k ^ 3)).cbrt := by
      rw [add_scale, sub_scale, ← hhalf, ← hroot]
      rfl
    _ = ((if minus.abs ≤ plus.abs then plus else minus).scale (k ^ 3)).cbrt := by
      simp only [hle, apply_ite (scale · (k ^ 3))]
    _ = (ofDepressed p q).u.scale k := cbrt_scale _ hk

theorem Resolvent.v_scale_iff (hk : 0 < k) :
    (ofDepressed (p * k ^ 2) (q * k ^ 3)).v = (ofDepressed p q).v.scale k ↔
      p = 0 ∨ ((ofDepressed p q).u.abs < tolerance ↔
        (ofDepressed (p * k ^ 2) (q * k ^ 3)).u.abs < tolerance) := by
  have hkne : (k : ℂ) ≠ 0 := Complex.ofReal_ne_zero.mpr hk.ne'
  have hu : (ofDepressed (p * k ^ 2) (q * k ^ 3)).u.toComplex =
      (ofDepressed p q).u.toComplex * k := by
    rw [u_scale p q hk, toComplex_scale]
  rw [← toComplex_injective.eq_iff, toComplex_scale]
  rcases lt_or_ge (ofDepressed p q).u.abs tolerance with hsmall | hlarge
  · rw [v_of_small p q hsmall, zero_mul]
    rcases lt_or_ge (ofDepressed (p * k ^ 2) (q * k ^ 3)).u.abs tolerance with hsmall' | hlarge'
    · exact iff_of_true (v_of_small _ _ hsmall') (.inr (iff_of_true hsmall hsmall'))
    · have hne := u_ne_zero _ _ hlarge'
      rw [v_of_large _ _ hlarge']
      simp [hne, hk.ne', hsmall, hlarge'.not_gt]
  · have hne := u_ne_zero p q hlarge
    rw [v_of_large p q hlarge]
    rcases lt_or_ge (ofDepressed (p * k ^ 2) (q * k ^ 3)).u.abs tolerance with hsmall' | hlarge'
    · rw [v_of_small _ _ hsmall', eq_comm]
      simp [hne, hk.ne', hsmall', hlarge.not_gt]
    · rw [v_of_large _ _ hlarge', hu]
      refine iff_of_true ?_ (.inr (iff_of_false hlarge.not_gt hlarge'.not_gt))
      push_cast
      field_simp

theorem Resolvent.v_scale_close (hk : 0 < k) :
    ‖(ofDepressed (p * k ^ 2) (q * k ^ 3)).v.toComplex - (ofDepressed p q).v.toComplex * k‖ <
      max 1 k * tolerance := by
  have hpos : (0 : ℝ) < tolerance := by norm_num [tolerance]
  have hbound (x : ℝ) (hx : x ≤ max 1 k) : x * tolerance ≤ max 1 k * tolerance :=
    mul_le_mul_of_nonneg_right hx hpos.le
  have habs : (ofDepressed (p * k ^ 2) (q * k ^ 3)).u.abs = (ofDepressed p q).u.abs * k := by
    rw [u_scale p q hk, abs_eq_norm, norm_scale _ hk.le, abs_eq_norm]
  by_cases hfollows : (ofDepressed (p * k ^ 2) (q * k ^ 3)).v = (ofDepressed p q).v.scale k
  · rw [hfollows, toComplex_scale, sub_self, norm_zero]
    exact mul_pos (lt_max_of_lt_left one_pos) hpos
  · rw [v_scale_iff p q hk, not_or, not_iff] at hfollows
    obtain ⟨-, hside⟩ := hfollows
    rcases lt_or_ge (ofDepressed p q).u.abs tolerance with hsmall | hlarge
    · rw [v_of_small p q hsmall, zero_mul, sub_zero]
      calc ‖(ofDepressed (p * k ^ 2) (q * k ^ 3)).v.toComplex‖
        _ ≤ (ofDepressed p q).u.abs * k := (norm_v_le _ _).trans_eq habs
        _ < tolerance * k := mul_lt_mul_of_pos_right hsmall hk
        _ = k * tolerance := mul_comm _ _
        _ ≤ max 1 k * tolerance := hbound k (le_max_right 1 k)
    · have hsmall' := hside.mp hlarge.not_gt
      rw [v_of_small _ _ hsmall', zero_sub, norm_neg, norm_mul, Complex.norm_of_nonneg hk.le]
      calc ‖(ofDepressed p q).v.toComplex‖ * k
        _ ≤ (ofDepressed p q).u.abs * k := mul_le_mul_of_nonneg_right (norm_v_le p q) hk.le
        _ < tolerance := habs ▸ hsmall'
        _ = 1 * tolerance := (one_mul _).symm
        _ ≤ max 1 k * tolerance := hbound 1 (le_max_left 1 k)

theorem Resolvent.roots_scale_iff (hk : 0 < k) :
    (ofDepressed (p * k ^ 2) (q * k ^ 3)).roots = scaleRoots (ofDepressed p q).roots k ↔
      (ofDepressed (p * k ^ 2) (q * k ^ 3)).v = (ofDepressed p q).v.scale k := by
  have hu := u_scale p q hk
  simp only [roots, scaleRoots, List.map_cons, List.map_nil, List.cons.injEq, and_true, hu,
    ← toComplex_injective.eq_iff, toComplex_add, toComplex_mul, toComplex_scale]
  constructor
  · rintro ⟨hfirst, -, -⟩
    linear_combination hfirst
  · intro hv
    rw [hv]
    refine ⟨?_, ?_, ?_⟩ <;> ring

theorem Resolvent.roots_scale_close (hk : 0 < k) :
    List.Forall₂ (fun z w => ‖z.toComplex - w.toComplex‖ < max 1 k * tolerance)
      (ofDepressed (p * k ^ 2) (q * k ^ 3)).roots (scaleRoots (ofDepressed p q).roots k) := by
  have hu := u_scale p q hk
  have hclose := v_scale_close p q hk
  simp only [roots, scaleRoots, List.map_cons, List.map_nil, List.forall₂_cons,
    List.forall₂_nil_left_iff, and_true, hu, toComplex_add, toComplex_mul, toComplex_scale]
  have hturned {ω : ℂ} (hω : ‖ω‖ = 1) :
      ‖((ofDepressed (p * k ^ 2) (q * k ^ 3)).v.toComplex -
        (ofDepressed p q).v.toComplex * k) * ω‖ < max 1 k * tolerance := by
    rwa [norm_mul, hω, mul_one]
  refine ⟨?_, ?_, ?_⟩
  · convert hclose using 2
    ring
  · convert hturned norm_unityConjugate using 2
    ring
  · convert hturned norm_unity using 2
    ring

end Resolvent

section Cubic

variable [Undefined ℝ] {a k : ℝ} (b c d : ℝ)

theorem Resolvent.ofCubic_scale (ha : a ≠ 0) :
    ofCubic a (b * k) (c * k ^ 2) (d * k ^ 3) =
      ofDepressed ((ofCubic a b c d).p * k ^ 2) ((ofCubic a b c d).q * k ^ 3) := by
  apply congrArg₂ ofDepressed
  · change _ = ((3 : ℕ) * a * c - b * b) / ((3 : ℕ) * a * a) * k ^ 2
    push_cast
    field_simp
  · change _ = ((2 : ℕ) * b * b * b - (9 : ℕ) * a * b * c + (27 : ℕ) * a * a * d) /
      ((27 : ℕ) * a * a * a) * k ^ 3
    push_cast
    field_simp

theorem Resolvent.ofCubic_p_eq_zero_iff (ha : a ≠ 0) :
    (ofCubic a b c d).p = 0 ↔ b * b = 3 * a * c := by
  have hp : (ofCubic a b c d).p = (3 * a * c - b * b) / (3 * a * a) := rfl
  rw [hp, div_eq_zero_iff, or_iff_left (by simp [ha]), sub_eq_zero, eq_comm]

theorem cubic_eq (ha : a ≠ 0) :
    cubic a b c d =
      (Resolvent.ofCubic a b c d).roots.map (· + Cartesian.ofReal (-b / ((3 : ℕ) * a))) :=
  if_neg (by simpa using ha)

theorem scaleRoots_cubic (ha : a ≠ 0) :
    scaleRoots (cubic a b c d) k =
      (scaleRoots (Resolvent.ofCubic a b c d).roots k).map
        (· + Cartesian.ofReal (-(b * k) / ((3 : ℕ) * a))) := by
  rw [cubic_eq b c d ha, scaleRoots, scaleRoots, List.map_map, List.map_map]
  apply List.map_congr_left
  intro z _
  rw [Function.comp_apply, Function.comp_apply, add_scale, ofReal_scale, neg_mul_eq_neg_mul,
    mul_div_right_comm]

theorem cubic_scale_iff_partner (ha : a ≠ 0) (hk : 0 < k) :
    cubic a (b * k) (c * k ^ 2) (d * k ^ 3) = scaleRoots (cubic a b c d) k ↔
      (Resolvent.ofCubic a (b * k) (c * k ^ 2) (d * k ^ 3)).v =
        (Resolvent.ofCubic a b c d).v.scale k := by
  have hinjective : Function.Injective
      (· + Cartesian.ofReal (-(b * k) / ((3 : ℕ) * a)) : Cartesian ℝ → Cartesian ℝ) := by
    intro z w h
    apply toComplex_injective
    simpa using congrArg toComplex h
  rw [cubic_eq _ _ _ ha, scaleRoots_cubic b c d ha, (List.map_injective_iff.mpr hinjective).eq_iff,
    Resolvent.ofCubic_scale b c d ha]
  exact Resolvent.roots_scale_iff _ _ hk

theorem cubic_scale_close (ha : a ≠ 0) (hk : 0 < k) :
    List.Forall₂ (fun z w => ‖z.toComplex - w.toComplex‖ < max 1 k * tolerance)
      (cubic a (b * k) (c * k ^ 2) (d * k ^ 3)) (scaleRoots (cubic a b c d) k) := by
  rw [cubic_eq _ _ _ ha, scaleRoots_cubic b c d ha, Resolvent.ofCubic_scale b c d ha,
    List.forall₂_map_left_iff, List.forall₂_map_right_iff]
  simp only [toComplex_add, add_sub_add_right_eq_sub]
  exact Resolvent.roots_scale_close _ _ hk

/-- Scaling the variable of a cubic scales its roots, one by one, exactly if no partner other than
zero is dropped for one of the two cubics alone. -/
theorem cubic_scale_iff (ha : a ≠ 0) (hk : 0 < k) :
    cubic a (b * k) (c * k ^ 2) (d * k ^ 3) = scaleRoots (cubic a b c d) k ↔
      b * b = 3 * a * c ∨ ((Resolvent.ofCubic a b c d).u.abs < tolerance ↔
        (Resolvent.ofCubic a (b * k) (c * k ^ 2) (d * k ^ 3)).u.abs < tolerance) := by
  rw [cubic_scale_iff_partner b c d ha hk, ← Resolvent.ofCubic_p_eq_zero_iff b c d ha,
    Resolvent.ofCubic_scale b c d ha]
  exact Resolvent.v_scale_iff _ _ hk

end Cubic

theorem cubic_scale_double : ∃ _ : Undefined ℝ,
    (1 : ℝ) ≠ 0 ∧ (0 : ℝ) < 2 ∧
      cubic 1 (-6 * 2) (11 * 2 ^ 2) (-6 * 2 ^ 3) = scaleRoots (cubic 1 (-6) 11 (-6)) (2 : ℝ) := by
  let undefined : Undefined ℝ := ⟨0⟩
  refine ⟨undefined, one_ne_zero, two_pos,
    (cubic_scale_iff (-6) 11 (-6) one_ne_zero two_pos).mpr (.inr (iff_of_false ?_ ?_))⟩
  · apply not_lt.mpr
    apply Resolvent.tolerance_le_abs
    norm_num [tolerance]
  · apply not_lt.mpr
    apply Resolvent.tolerance_le_abs
    norm_num [tolerance]

/-- The first number of the resolvent of `x ^ 3 + 3 x` has the modulus one, and its partner is
dropped as soon as the variable is scaled below the tolerance. -/
theorem cubic_scale_tiny : ∃ _ : Undefined ℝ,
    (1 : ℝ) ≠ 0 ∧ (0 : ℝ) < 1 / 2 ^ 34 ∧
      cubic 1 (0 * (1 / 2 ^ 34)) (3 * (1 / 2 ^ 34) ^ 2) (0 * (1 / 2 ^ 34) ^ 3) ≠
        scaleRoots (cubic 1 0 3 0) (1 / 2 ^ 34 : ℝ) := by
  let undefined : Undefined ℝ := ⟨0⟩
  have hk : (0 : ℝ) < 1 / 2 ^ 34 := by norm_num
  refine ⟨undefined, one_ne_zero, hk, ?_⟩
  have hresolvent : Resolvent.ofCubic 1 0 3 (0 : ℝ) = Resolvent.ofDepressed 3 0 := by
    apply congrArg₂ Resolvent.ofDepressed <;> norm_num
  have habs : (Resolvent.ofDepressed (3 : ℝ) 0).u.abs = 1 := by
    have hsq := Resolvent.abs_sq_of_no_constant 3
    rw [abs_of_pos three_pos, div_self three_ne_zero] at hsq
    exact (pow_eq_one_iff_of_nonneg (zero_le_abs_real _) two_ne_zero).mp hsq
  rw [ne_eq, cubic_scale_iff_partner 0 3 0 one_ne_zero hk,
    Resolvent.ofCubic_scale 0 3 0 one_ne_zero, hresolvent]
  change ¬ (Resolvent.ofDepressed (3 * _) (0 * _)).v = _
  rw [Resolvent.v_scale_iff 3 0 hk, Resolvent.u_scale 3 0 hk, abs_eq_norm (scale _ _),
    norm_scale _ hk.le, ← abs_eq_norm, habs]
  norm_num [tolerance]

end Univariate.ClosedForm
