import Mathlib
import Univariate.Roots.DurandKerner
import Univariate.Proofs.Exact.Complex
import Univariate.Proofs.Polynomial.Coefficients

namespace Univariate.DurandKerner

open Cartesian Polynomial

variable {monic tail : List ℝ} {z : Cartesian ℝ} {zs others done : List (Cartesian ℝ)}

noncomputable def complexPolynomial (coefficients : List ℝ) : ℂ[X] :=
  Dense.toPolynomial (coefficients.map Complex.ofReal)

theorem toComplex_evalCartesian (coefficients : List ℝ) (z : Cartesian ℝ) :
    (Dense.evalCartesian coefficients z).toComplex =
      (complexPolynomial coefficients).eval z.toComplex := by
  rw [complexPolynomial, Dense.eval_toPolynomial, Dense.eval, Dense.evalCartesian, List.foldl_map]
  exact (List.foldl_hom toComplex fun acc c => by simp [← toComplex_ofReal, ofReal]).symm

theorem toComplex_distances (z : Cartesian ℝ) (others : List (Cartesian ℝ)) :
    (distances z others).toComplex =
      (others.map fun w => z.toComplex - w.toComplex).prod := by
  rw [distances, List.prod_eq_foldl, List.foldl_map]
  exact (List.foldl_hom toComplex fun acc w => by simp).symm

theorem distances_ne_zero_iff : (distances z others).toComplex ≠ 0 ↔ z ∉ others := by
  rw [toComplex_distances, Ne, List.prod_eq_zero_iff, List.mem_map, not_iff_not]
  constructor
  · rintro ⟨w, hw, hzero⟩
    rwa [toComplex_injective (sub_eq_zero.mp hzero)]
  · exact fun hz => ⟨z, hz, sub_self _⟩

theorem correction?_eq_zero_iff : correction? monic z others = some ⟨0, 0⟩ ↔
    (complexPolynomial monic).IsRoot z.toComplex ∧ z ∉ others := by
  rw [correction?, div?_eq_zero_iff, distances_ne_zero_iff, toComplex_evalCartesian, IsRoot.def]

theorem sub_zero_pair (z : Cartesian ℝ) : z - (⟨0, 0⟩ : Cartesian ℝ) = z := by
  apply toComplex_injective
  rw [toComplex_sub]
  exact sub_zero _

section Sweep

variable [Undefined ℝ]

/-- No estimate is corrected, and no correction is a quotient by zero. -/
def Still (steps : List (Step ℝ)) : Prop := ∀ s ∈ steps, s.correction = some ⟨0, 0⟩

theorem sweepAfter_of_correction (h : correction? monic z (done.reverse ++ zs) = some ⟨0, 0⟩) :
    sweepAfter monic done (z :: zs) =
      ⟨some ⟨0, 0⟩, z⟩ :: sweepAfter monic (z :: done) zs := by
  rw [sweepAfter, h]
  simp only [Option.getD_some, sub_zero_pair]

theorem still_cons_iff : Still (sweepAfter monic done (z :: zs)) ↔
    correction? monic z (done.reverse ++ zs) = some ⟨0, 0⟩ ∧
      Still (sweepAfter monic (z :: done) zs) := by
  constructor
  · intro h
    have hhead : correction? monic z (done.reverse ++ zs) = some ⟨0, 0⟩ := h _ List.mem_cons_self
    rw [sweepAfter_of_correction hhead] at h
    exact ⟨hhead, fun s hs => h s (List.mem_cons_of_mem _ hs)⟩
  · rintro ⟨hhead, hrest⟩
    rw [sweepAfter_of_correction hhead]
    exact List.forall_mem_cons.mpr ⟨rfl, hrest⟩

theorem map_estimate_of_still (h : Still (sweepAfter monic done zs)) :
    (sweepAfter monic done zs).map Step.estimate = zs := by
  induction zs generalizing done with
  | nil => rfl
  | cons z zs ih =>
    obtain ⟨hhead, hrest⟩ := still_cons_iff.mp h
    rw [sweepAfter_of_correction hhead, List.map_cons, ih hrest]

theorem still_sweepAfter_iff : Still (sweepAfter monic done zs) ↔
    (∀ z ∈ zs, (complexPolynomial monic).IsRoot z.toComplex) ∧ zs.Nodup ∧ zs.Disjoint done := by
  induction zs generalizing done with
  | nil => simp [Still, sweepAfter]
  | cons z zs ih =>
    rw [still_cons_iff, ih, correction?_eq_zero_iff, List.mem_append, List.mem_reverse, not_or,
      List.forall_mem_cons, List.nodup_cons, List.disjoint_cons_left, List.disjoint_cons_right]
    tauto

theorem still_sweep_iff : Still (sweep monic zs) ↔
    (∀ z ∈ zs, (complexPolynomial monic).IsRoot z.toComplex) ∧ zs.Nodup := by
  rw [sweep, still_sweepAfter_iff]
  simp

end Sweep

section Roots

theorem roots_iff_eq_prod {P : ℂ[X]} (hP : P.Monic) {zs : List ℂ} (hzs : zs.Nodup)
    (hlength : zs.length = P.natDegree) :
    (∀ z ∈ zs, P.IsRoot z) ↔ P = (zs.map fun z => X - C z).prod := by
  constructor
  · intro h
    have hroots : (zs : Multiset ℂ) ≤ P.roots := by
      rw [Multiset.le_iff_subset (Multiset.coe_nodup.mpr hzs)]
      exact fun z hz => (mem_roots hP.ne_zero).mpr (h z hz)
    have hdvd := (Multiset.prod_X_sub_C_dvd_iff_le_roots hP.ne_zero zs).mpr hroots
    rw [Multiset.map_coe, Multiset.prod_coe] at hdvd
    have hdegree : (zs.map fun z => X - C z).prod.natDegree = zs.length := by
      rw [← Multiset.prod_coe, ← Multiset.map_coe, natDegree_multiset_prod_X_sub_C_eq_card,
        Multiset.coe_card]
    have hmonic : (zs.map fun z => X - C z).prod.Monic := by
      rw [← Multiset.prod_coe, ← Multiset.map_coe]
      exact monic_multisetProd_X_sub_C _
    exact eq_of_monic_of_dvd_of_natDegree_le hmonic hP hdvd (by rw [hdegree, hlength])
  · intro h z hz
    rw [h, IsRoot.def, eval_list_prod, List.map_map, List.prod_eq_zero_iff]
    exact List.mem_map.mpr ⟨z, hz, by simp⟩

theorem complexPolynomial_monic (tail : List ℝ) :
    (complexPolynomial (1 :: tail)).Monic ∧
      (complexPolynomial (1 :: tail)).natDegree = tail.length := by
  have hdegree : (complexPolynomial (1 :: tail)).natDegree = tail.length := by
    apply natDegree_eq_of_degree_eq_some
    rw [complexPolynomial, List.map_cons, Dense.degree_toPolynomial_cons (by simp),
      List.length_map]
  have hlength : (tail.map Complex.ofReal).length = tail.length := List.length_map _
  refine ⟨?_, hdegree⟩
  rw [Monic, leadingCoeff, hdegree, complexPolynomial, List.map_cons, ← hlength,
    Dense.coeff_length_toPolynomial, Complex.ofReal_one]

end Roots

/-- A sweep over as many estimates as the degree of a monic polynomial corrects none of them exactly
if they are the roots of the polynomial, each once. -/
theorem sweep_still_iff_roots [Undefined ℝ] (h : zs.length = tail.length) :
    ((∀ s ∈ sweep (1 :: tail) zs, s.correction = some ⟨0, 0⟩) ↔
      zs.Nodup ∧ Dense.toPolynomial ((1 :: tail).map Complex.ofReal) =
        (zs.map fun z => X - C z.toComplex).prod) ∧
    ((∀ s ∈ sweep (1 :: tail) zs, s.correction = some ⟨0, 0⟩) →
      (sweep (1 :: tail) zs).map Step.estimate = zs) := by
  refine ⟨?_, map_estimate_of_still⟩
  obtain ⟨hmonic, hdegree⟩ := complexPolynomial_monic tail
  refine still_sweep_iff.trans (and_comm.trans (and_congr_right fun hnodup => ?_))
  have hroots := roots_iff_eq_prod hmonic (hnodup.map toComplex_injective)
    (by rw [List.length_map, h, hdegree])
  rw [List.map_map, List.forall_mem_map] at hroots
  exact hroots

theorem sweep_still_imaginary_units : ∃ _ : Undefined ℝ,
    [(⟨0, 1⟩ : Cartesian ℝ), ⟨0, -1⟩].length = [(0 : ℝ), 1].length ∧
    (∀ s ∈ sweep [1, 0, 1] [(⟨0, 1⟩ : Cartesian ℝ), ⟨0, -1⟩], s.correction = some ⟨0, 0⟩) ∧
    (sweep [1, 0, 1] [(⟨0, 1⟩ : Cartesian ℝ), ⟨0, -1⟩]).map Step.estimate =
      [⟨0, 1⟩, ⟨0, -1⟩] := by
  let undefined : Undefined ℝ := ⟨0⟩
  have hlength : [(⟨0, 1⟩ : Cartesian ℝ), ⟨0, -1⟩].length = [(0 : ℝ), 1].length := rfl
  have hnodup : [(⟨0, 1⟩ : Cartesian ℝ), ⟨0, -1⟩].Nodup := by
    refine List.nodup_cons.mpr ⟨?_, List.nodup_singleton _⟩
    rw [List.mem_singleton, Cartesian.mk.injEq]
    norm_num
  have hproduct : Dense.toPolynomial ([1, 0, 1].map Complex.ofReal) =
      ([(⟨0, 1⟩ : Cartesian ℝ), ⟨0, -1⟩].map fun z => X - C z.toComplex).prod := by
    have hupper : toComplex ⟨0, 1⟩ = Complex.I := rfl
    have hlower : toComplex ⟨0, -1⟩ = -Complex.I := by
      apply Complex.ext <;> simp
    have hunit : (C Complex.I) ^ 2 = (-1 : ℂ[X]) := by
      rw [← C_pow, Complex.I_sq, C_neg, C_1]
    simp only [List.map_cons, List.map_nil, Dense.toPolynomial_cons, Dense.toPolynomial_nil,
      List.length_cons, List.length_nil, List.prod_cons, List.prod_nil, hupper, hlower,
      Complex.ofReal_one, Complex.ofReal_zero, C_1, C_0, C_neg]
    linear_combination hunit
  have hstill := (sweep_still_iff_roots hlength).1.mpr ⟨hnodup, hproduct⟩
  exact ⟨undefined, hlength, hstill, (sweep_still_iff_roots hlength).2 hstill⟩

end Univariate.DurandKerner
