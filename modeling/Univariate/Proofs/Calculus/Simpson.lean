import Mathlib
import Univariate.Calculus.Simpson

/-!
# The composite Simpson rule

The number of intervals is even, so the nodes fall into panels of two intervals, which share the nodes
between them: this is where the weights four and two come from. A panel integrates the derivative of a
quartic exactly, and the differences over all panels add up to the one over the whole interval. Read
backwards the nodes are those from the other end, and an even number of intervals keeps their weights.
-/

namespace Univariate.Calculus

open Polynomial

section Nodes

theorem evenCount_eq (intervals : ℕ) : evenCount intervals = 2 * ((intervals + 1) / 2) := by
  unfold evenCount
  split <;> omega

variable {K : Type} [Field K]

def spacing (a b : K) (intervals : ℕ) : K := (b - a) / evenCount intervals

def node (a b : K) (intervals i : ℕ) : K := a + i * spacing a b intervals

theorem node_zero (a b : K) (intervals : ℕ) : node a b intervals 0 = a := by
  rw [node, Nat.cast_zero, zero_mul, add_zero]

theorem node_add (a b : K) (intervals i k : ℕ) :
    node a b intervals (i + k) = node a b intervals i + k * spacing a b intervals := by
  rw [node, node, Nat.cast_add]
  ring

theorem sum_eq_listSum (xs : List K) : sum xs = xs.sum := by
  rw [sum, neg_zero, List.sum_eq_foldl]

theorem simpson_eq_sum (f : K → K) (a b : K) (intervals : ℕ) :
    simpson f a b intervals = spacing a b intervals / 3 *
      (f a + ∑ i ∈ Finset.Ico 1 (evenCount intervals),
        simpsonWeight i * f (node a b intervals i) + f b) := by
  rw [simpson, sum_eq_listSum, Nat.cast_ofNat]
  rfl

end Nodes

section Reversal

variable {K : Type} [Field K] {intervals i : ℕ}

theorem spacing_swap (a b : K) (intervals : ℕ) :
    spacing b a intervals = -spacing a b intervals := by
  rw [spacing, spacing, ← neg_div, neg_sub]

theorem node_swap (a b : K) (h : (evenCount intervals : K) ≠ 0) (hi : i ≤ evenCount intervals) :
    node b a intervals i = node a b intervals (evenCount intervals - i) := by
  have hends : evenCount intervals * spacing a b intervals = b - a := mul_div_cancel₀ _ h
  rw [node, node, spacing_swap, Nat.cast_sub hi]
  linear_combination -hends

theorem simpsonWeight_reflect (hi : i ≤ evenCount intervals) :
    (simpsonWeight (evenCount intervals - i) : K) = simpsonWeight i := by
  have hparity : (evenCount intervals - i) % 2 = i % 2 := by
    rw [evenCount_eq] at hi ⊢
    omega
  rw [simpsonWeight, simpsonWeight, hparity]

theorem sum_nodes_swap (f : K → K) (a b : K) (h : (evenCount intervals : K) ≠ 0) :
    ∑ i ∈ Finset.Ico 1 (evenCount intervals), simpsonWeight i * f (node b a intervals i) =
      ∑ i ∈ Finset.Ico 1 (evenCount intervals), simpsonWeight i * f (node a b intervals i) := by
  have hreflect := Finset.sum_Ico_reflect
    (fun i => simpsonWeight i * f (node a b intervals i)) 1 (Nat.le_succ (evenCount intervals))
  rw [Nat.add_sub_cancel_left, Nat.add_sub_cancel] at hreflect
  rw [← hreflect]
  apply Finset.sum_congr rfl
  intro i hi
  have hle : i ≤ evenCount intervals := (Finset.mem_Ico.mp hi).2.le
  rw [node_swap a b h hle, simpsonWeight_reflect hle]

end Reversal

theorem simpson_swap {K : Type} [Field K] (f : K → K) (a b : K) (intervals : ℕ) :
    simpson f b a intervals = -simpson f a b intervals := by
  rw [simpson_eq_sum, simpson_eq_sum, spacing_swap]
  by_cases h : (evenCount intervals : K) = 0
  -- without intervals there is no distance between the nodes, and both values are zero
  · rw [spacing, h, div_zero, neg_zero, zero_div, zero_mul, zero_mul, neg_zero]
  · rw [sum_nodes_swap f a b h]
    ring

section Panels

variable {K : Type} [Field K]

theorem simpsonWeight_even (j : ℕ) : (simpsonWeight (2 * j) : K) = 2 := by
  have heven : 2 * j % 2 ≠ 1 := by omega
  rw [simpsonWeight, if_neg heven, Nat.cast_ofNat]

theorem simpsonWeight_odd (j : ℕ) : (simpsonWeight (2 * j + 1) : K) = 4 := by
  have hodd : (2 * j + 1) % 2 = 1 := by omega
  rw [simpsonWeight, if_pos hodd, Nat.cast_ofNat]

theorem sum_weights_eq_panels (g : ℕ → K) (m : ℕ) :
    g 0 + ∑ i ∈ Finset.Ico 1 (2 * (m + 1)), simpsonWeight i * g i + g (2 * (m + 1)) =
      ∑ j ∈ Finset.range (m + 1), (g (2 * j) + 4 * g (2 * j + 1) + g (2 * (j + 1))) := by
  induction m with
  | zero =>
    have hmiddle : (simpsonWeight 1 : K) = 4 := simpsonWeight_odd 0
    simp [hmiddle]
  | succ m ih =>
    rw [Finset.sum_range_succ, ← ih, mul_add_one 2 (m + 1), Finset.sum_Ico_succ_top (by omega),
      Finset.sum_Ico_succ_top (by omega), simpsonWeight_even, simpsonWeight_odd]
    ring

theorem simpson_two (f : K → K) (a b : K) : simpson f a b 2 =
    (b - a) / 2 / 3 * (f a + 4 * f (a + (b - a) / 2) + f b) := by
  have hcount : evenCount 2 = 2 := rfl
  have hspacing : spacing a b 2 = (b - a) / 2 := by rw [spacing, hcount, Nat.cast_ofNat]
  have hmiddle : node a b 2 1 = a + (b - a) / 2 := by
    rw [node, hspacing, Nat.cast_one, one_mul]
  rw [simpson_eq_sum, hcount, hspacing, Nat.Ico_succ_singleton, Finset.sum_singleton, hmiddle,
    simpsonWeight_odd 0]

variable [CharZero K] {intervals : ℕ}

theorem evenCount_ne_zero (h : 0 < intervals) : (evenCount intervals : K) ≠ 0 := by
  rw [Nat.cast_ne_zero, evenCount_eq]
  omega

theorem node_last (a b : K) (h : 0 < intervals) :
    node a b intervals (2 * ((intervals + 1) / 2)) = b := by
  rw [← evenCount_eq, node, spacing, mul_div_cancel₀ _ (evenCount_ne_zero h), add_sub_cancel]

theorem simpson_eq_panels (f : K → K) (a b : K) (h : 0 < intervals) :
    simpson f a b intervals = ∑ j ∈ Finset.range ((intervals + 1) / 2),
      simpson f (node a b intervals (2 * j)) (node a b intervals (2 * (j + 1))) 2 := by
  obtain ⟨m, hm⟩ : ∃ m, (intervals + 1) / 2 = m + 1 := Nat.exists_eq_add_one.mpr (by omega)
  have hlast : node a b intervals (2 * (m + 1)) = b := hm ▸ node_last a b h
  have hsum := sum_weights_eq_panels (fun i => f (node a b intervals i)) m
  rw [node_zero, hlast] at hsum
  rw [simpson_eq_sum, evenCount_eq, hm, hsum, Finset.mul_sum]
  apply Finset.sum_congr rfl
  intro j _
  have hwidth : (node a b intervals (2 * (j + 1)) - node a b intervals (2 * j)) / 2 =
      spacing a b intervals := by
    rw [mul_add_one, node_add, add_sub_cancel_left, Nat.cast_ofNat,
      mul_div_cancel_left₀ _ two_ne_zero]
  rw [simpson_two, hwidth, node_add _ _ _ _ 1, Nat.cast_one, one_mul]

end Panels

section Exactness

variable {K : Type} [Field K] [CharZero K] {P Q : K[X]} {intervals : ℕ}

theorem simpson_two_derivative (hQ : Q.natDegree ≤ 4) (a b : K) :
    simpson (Polynomial.derivative Q).eval a b 2 = Q.eval b - Q.eval a := by
  have hderivative : (Polynomial.derivative Q).natDegree < 4 := by
    have hle := natDegree_derivative_le Q
    omega
  simp only [simpson_two, eval_eq_sum_range' (Nat.lt_succ_of_le hQ), eval_eq_sum_range' hderivative,
    coeff_derivative, Finset.sum_range_succ, Finset.sum_range_zero]
  push_cast
  field_simp
  ring

theorem simpson_derivative (hQ : Q.natDegree ≤ 4) (a b : K) (h : 0 < intervals) :
    simpson (Polynomial.derivative Q).eval a b intervals = Q.eval b - Q.eval a := by
  rw [simpson_eq_panels _ a b h]
  simp only [simpson_two_derivative hQ]
  rw [Finset.sum_range_sub (fun j => Q.eval (node a b intervals (2 * j))), node_last a b h,
    mul_zero, node_zero]

theorem exists_derivative_eq (P : K[X]) :
    ∃ Q : K[X], Q.natDegree ≤ P.natDegree + 1 ∧ Polynomial.derivative Q = P := by
  refine ⟨∑ i ∈ Finset.range (P.natDegree + 1), C (P.coeff i / (i + 1)) * X ^ (i + 1), ?_, ?_⟩
  · apply natDegree_sum_le_of_forall_le
    intro i hi
    exact (natDegree_C_mul_X_pow_le _ _).trans (Nat.succ_le_of_lt (Finset.mem_range.mp hi))
  · rw [derivative_sum]
    conv_rhs => rw [P.as_sum_range_C_mul_X_pow]
    apply Finset.sum_congr rfl
    intro i _
    rw [derivative_C_mul_X_pow, Nat.cast_add_one, div_mul_cancel₀ _ (Nat.cast_add_one_ne_zero i),
      Nat.add_sub_cancel]

theorem integral_derivative (Q : ℝ[X]) (a b : ℝ) :
    ∫ x in a..b, (Polynomial.derivative Q).eval x = Q.eval b - Q.eval a :=
  intervalIntegral.integral_eq_sub_of_hasDerivAt (fun x _ => Q.hasDerivAt x)
    ((Polynomial.derivative Q).continuous.intervalIntegrable a b)

end Exactness

theorem simpson_cubic {P : ℝ[X]} (hP : P.natDegree ≤ 3) (a b : ℝ) {intervals : ℕ}
    (h : 0 < intervals) : simpson P.eval a b intervals = ∫ x in a..b, P.eval x := by
  obtain ⟨Q, hdegree, rfl⟩ := exists_derivative_eq P
  rw [simpson_derivative (by omega) a b h, integral_derivative]

theorem simpson_cubic_reversed :
    (X ^ 3 : ℝ[X]).natDegree ≤ 3 ∧ 0 < 3 ∧
      simpson (X ^ 3 : ℝ[X]).eval 2 0 3 = ∫ x in (2 : ℝ)..0, (X ^ 3 : ℝ[X]).eval x ∧
      simpson (X ^ 3 : ℝ[X]).eval 2 0 3 = -4 := by
  have hdegree : (X ^ 3 : ℝ[X]).natDegree ≤ 3 := (natDegree_X_pow 3).le
  have hsimpson := simpson_cubic hdegree 2 0 three_pos
  have hvalue : ∫ x in (2 : ℝ)..0, (X ^ 3 : ℝ[X]).eval x = -4 := by
    simp only [eval_pow, eval_X, integral_pow]
    norm_num
  exact ⟨hdegree, three_pos, hsimpson, hsimpson.trans hvalue⟩

end Univariate.Calculus
