import Mathlib
import Univariate.Calculus.Difference
import Univariate.Proofs.Exact.Power
import Univariate.Proofs.Exact.Real

/-!
# Central differences of polynomials

The sum carries the binomial coefficients along, so it is an iterated difference from the first node
on. In exact arithmetic the difference of a polynomial with a step is its derivative half a step
further on, as long as the degree is at most two, and from this by induction the central difference
of order `n` is the derivative of order `n` as long as the degree is at most `n + 1`. That holds for
the orders below `2 ^ 31`, whose powers of the step have the order for their exponent.
-/

namespace Univariate.Calculus

open Polynomial

section Loop

variable {K : Type} [Zero K] [One K] [NatCast K] [Add K] [Sub K] [Mul K] [Div K] [Neg K]

structure Progress (K : Type) where
  binomial : K
  sum : K

def Progress.next (f : K → K) (x h : K) (n k : ℕ) (p : Progress K) : Progress K :=
  let sign : K := if k % 2 = 0 then 1 else -1
  let node := x + (1 / ((2 : ℕ) : K) * (n : K) - (k : K)) * h
  ⟨p.binomial * ((n : K) - (k : K)) / ((k : K) + 1), p.sum + sign * p.binomial * f node⟩

def progress (f : K → K) (x h : K) (n : ℕ) : ℕ → Progress K
  | 0 => ⟨1, 0⟩
  | k + 1 => (progress f x h n k).next f x h n k

theorem differenceSum_progress (f : K → K) (x h : K) (n terms k : ℕ) :
    differenceSum f x h n terms k (progress f x h n k).binomial (progress f x h n k).sum =
      (progress f x h n (k + terms)).sum := by
  induction terms generalizing k with
  | zero => rfl
  | succ terms ih =>
    have hk : k + (terms + 1) = k + 1 + terms := by omega
    rw [hk, ← ih (k + 1)]
    rfl

theorem difference_eq_progress (f : K → K) (x h : K) {order : UInt32} {k : ℕ}
    (hk : k ≤ order.toNat + 1) :
    difference f x h order =
      differenceSum f x h order.toNat (order.toNat + 1 - k) k
        (progress f x h order.toNat k).binomial (progress f x h order.toNat k).sum /
          integerPower h order.toInt32.toInt := by
  have hstart := differenceSum_progress f x h order.toNat (order.toNat + 1) 0
  rw [differenceSum_progress, Nat.add_sub_cancel' hk, difference]
  rw [Nat.zero_add] at hstart
  rw [← hstart]
  rfl

end Loop

section Exponent

theorem toInt_toInt32 (order : UInt32) : order.toInt32.toInt =
    if order.toNat < 2147483648 then (order.toNat : ℤ) else order.toNat - 4294967296 := by
  have hlt := order.toNat_lt
  have hsigned : order.toInt32.toInt = (order.toNat : ℤ).bmod 4294967296 :=
    BitVec.toInt_eq_toNat_bmod order.toBitVec
  rw [hsigned, Int.bmod_def]
  split <;> split <;> omega

end Exponent

section Binomial

variable {K : Type} [Field K]

theorem sign_eq_pow (k : ℕ) : (if k % 2 = 0 then 1 else -1 : K) = (-1) ^ k := by
  rcases Nat.even_or_odd k with h | h
  · rw [if_pos (Nat.even_iff.mp h), h.neg_one_pow]
  · rw [if_neg (Nat.odd_iff.mp h ▸ one_ne_zero), h.neg_one_pow]

variable [CharZero K]

theorem choose_mul_div (n k : ℕ) :
    (n.choose k : K) * (n - k) / (k + 1) = n.choose (k + 1) := by
  have hk : (k : K) + 1 ≠ 0 := Nat.cast_add_one_ne_zero k
  rw [div_eq_iff hk]
  rcases Nat.lt_or_ge n k with hlt | hle
  · rw [Nat.choose_eq_zero_of_lt hlt, Nat.choose_eq_zero_of_lt (Nat.lt_succ_of_lt hlt)]
    simp
  · have hchoose := congrArg (Nat.cast (R := K)) (Nat.choose_succ_right_eq n k)
    push_cast [Nat.cast_sub hle] at hchoose
    exact hchoose.symm

theorem binomial_progress (f : K → K) (x h : K) (n k : ℕ) :
    (progress f x h n k).binomial = n.choose k := by
  induction k with
  | zero => simp [progress]
  | succ k ih => rw [progress, Progress.next, ih, choose_mul_div]

theorem sum_progress (f : K → K) (x h : K) (n k : ℕ) :
    (progress f x h n k).sum =
      ∑ i ∈ Finset.range k, (-1) ^ i * n.choose i * f (x + (n / 2 - i) * h) := by
  induction k with
  | zero => rfl
  | succ k ih =>
    rw [Finset.sum_range_succ, ← ih, progress, Progress.next, sign_eq_pow, binomial_progress,
      Nat.cast_ofNat, one_div_mul_eq_div]

theorem sum_eq_fwdDiff (f : K → K) (x h : K) (n : ℕ) :
    ∑ k ∈ Finset.range (n + 1), (-1) ^ k * n.choose k * f (x + (n / 2 - k) * h) =
      (fwdDiff h)^[n] f (x - n / 2 * h) := by
  rw [fwdDiff_iter_eq_sum_shift, ← Finset.sum_range_reflect]
  apply Finset.sum_congr rfl
  intro k hk
  have hle : k ≤ n := Nat.lt_succ_iff.mp (Finset.mem_range.mp hk)
  have hnode : x + (n / 2 - (n - k)) * h = x - n / 2 * h + k * h := by ring
  rw [Nat.add_sub_cancel, Nat.choose_symm hle, nsmul_eq_mul, Nat.cast_sub hle, hnode, zsmul_eq_mul]
  push_cast
  rfl

theorem difference_eq_fwdDiff (f : K → K) (x h : K) (order : UInt32) :
    difference f x h order =
      (fwdDiff h)^[order.toNat] f (x - order.toNat / 2 * h) / h ^ order.toInt32.toInt := by
  rw [difference_eq_progress f x h le_rfl, Nat.sub_self, differenceSum, sum_progress,
    sum_eq_fwdDiff, integerPower_eq_zpow]

end Binomial

section Increment

variable {K : Type} [Field K] {P : K[X]}

noncomputable def increment (h : K) (P : K[X]) : K[X] := Polynomial.taylor h P - P

theorem eval_increment (h : K) (P : K[X]) (y : K) :
    (increment h P).eval y = P.eval (y + h) - P.eval y := by
  rw [increment, eval_sub, taylor_eval]

theorem iterate_derivative_increment (h : K) (P : K[X]) (n : ℕ) :
    Polynomial.derivative^[n] (increment h P) = increment h (Polynomial.derivative^[n] P) := by
  have hcommute : Function.Commute (Polynomial.derivative (R := K)) (increment h) := by
    intro Q
    simp [increment, taylor_apply, derivative_comp]
  exact (hcommute.iterate_left n).eq P

variable [CharZero K]

theorem increment_quadratic (hP : P.natDegree ≤ 2) (h : K) :
    increment h P = C h * Polynomial.taylor (h / 2) (Polynomial.derivative P) := by
  apply Polynomial.funext
  intro y
  rw [eval_increment, eval_mul, eval_C, taylor_eval,
    eq_quadratic_of_degree_le_two (degree_le_of_natDegree_le hP)]
  simp only [derivative_add, derivative_C_mul, derivative_X_sq, derivative_X, derivative_C,
    eval_add, eval_mul, eval_pow, eval_X, eval_C, eval_one, eval_zero]
  ring

theorem fwdDiff_iter_eval (n : ℕ) (hP : (Polynomial.derivative^[n] P).natDegree ≤ 1) (y h : K) :
    (fwdDiff h)^[n] P.eval y = h ^ n * (Polynomial.derivative^[n] P).eval (y + n / 2 * h) := by
  induction n generalizing P with
  | zero => simp
  | succ n ih =>
    rw [Function.iterate_succ_apply'] at hP
    have hquadratic : (Polynomial.derivative^[n] P).natDegree ≤ 2 := by
      rw [natDegree_derivative] at hP
      omega
    have hincrement : Polynomial.derivative^[n] (increment h P) =
        C h * Polynomial.taylor (h / 2)
          (Polynomial.derivative (Polynomial.derivative^[n] P)) := by
      rw [iterate_derivative_increment, increment_quadratic hquadratic]
    have hline : (Polynomial.derivative^[n] (increment h P)).natDegree ≤ 1 := by
      rw [hincrement]
      exact (natDegree_C_mul_le _ _).trans (by rwa [natDegree_taylor])
    have hvalues : fwdDiff h P.eval = (increment h P).eval :=
      funext fun y => (eval_increment h P y).symm
    have hnode : y + n / 2 * h + h / 2 = y + (n + 1 : ℕ) / 2 * h := by
      push_cast
      ring
    rw [Function.iterate_succ_apply, Function.iterate_succ_apply', hvalues, ih hline, hincrement,
      eval_mul, eval_C, taylor_eval, hnode]
    ring

end Increment

section Derivative

variable {K : Type} [Field K] [CharZero K] {P : K[X]} {order : UInt32} {h : K}

theorem difference_eval (hP : P.natDegree ≤ order.toNat + 1) (x : K) (hh : h ≠ 0) :
    difference P.eval x h order = h ^ ((order.toNat : ℤ) - order.toInt32.toInt) *
      (Polynomial.derivative^[order.toNat] P).eval x := by
  have hline : (Polynomial.derivative^[order.toNat] P).natDegree ≤ 1 := by
    have hle := natDegree_iterate_derivative P order.toNat
    omega
  rw [difference_eq_fwdDiff, fwdDiff_iter_eval order.toNat hline, sub_add_cancel, zpow_sub₀ hh,
    zpow_natCast, mul_div_right_comm]

theorem difference_eq_derivative_iff (hP : P.natDegree ≤ order.toNat + 1) (x : K) (hh : h ≠ 0) :
    difference P.eval x h order = (Polynomial.derivative^[order.toNat] P).eval x ↔
      order.toNat < 2147483648 ∨ (Polynomial.derivative^[order.toNat] P).eval x = 0 ∨
        h ^ UInt32.size = 1 := by
  rw [difference_eval hP x hh, toInt_toInt32]
  split
  next hlt =>
    rw [sub_self, zpow_zero, one_mul]
    exact iff_of_true rfl (.inl hlt)
  next hge =>
    rw [sub_sub_cancel]
    have hpow : h ^ (4294967296 : ℤ) = h ^ UInt32.size := zpow_natCast h UInt32.size
    rw [hpow, or_iff_right hge, mul_left_eq_self₀, or_comm]

theorem difference_zero (f : K → K) (x h : K) : difference f x h 0 = f x := by
  rw [difference_eq_fwdDiff]
  simp

theorem derivative_eq_difference [LT K] [DecidableLT K] [Elementary K] (f : K → K) (x : K)
    (order : UInt32) :
    derivative f x order = difference f x (differenceStep x order.toNat) order := by
  rw [derivative]
  split
  next hzero => rw [hzero, difference_zero]
  next => rfl

theorem differenceStep_pos (x : ℝ) (n : ℕ) : 0 < differenceStep x n := by
  apply mul_pos
  · exact Real.rpow_pos_of_pos (by norm_num) _
  · split
    next hlarge => exact one_pos.trans hlarge
    next => exact one_pos

theorem derivative_eq_eval {P : ℝ[X]} (hP : P.natDegree ≤ order.toNat + 1)
    (horder : order.toNat < 2147483648) (x : ℝ) :
    derivative P.eval x order = (Polynomial.derivative^[order.toNat] P).eval x := by
  rw [derivative_eq_difference]
  exact (difference_eq_derivative_iff hP x (differenceStep_pos x order.toNat).ne').mpr (.inl horder)

end Derivative

/-- The central difference of order `n` of a polynomial of degree at most `n + 1` is its derivative,
whatever step is taken, as long as `n` is below `2 ^ 31`. From there on it is the derivative only if
that is zero or the power of the step with the exponent `2 ^ 32` is one. The sum holds the binomial
coefficient of every term that it comes to. -/
theorem difference_polynomial {K : Type} [Field K] [CharZero K] [LT K] [DecidableLT K]
    [Elementary K] {P : K[X]} {n : UInt32} (hP : P.natDegree ≤ n.toNat + 1) (x : K) {h : K}
    (hh : h ≠ 0) :
    (∀ k ≤ n.toNat, (progress P.eval x h n.toNat k).binomial = n.toNat.choose k ∧
      difference P.eval x h n =
        differenceSum P.eval x h n.toNat (n.toNat + 1 - k) k
          (progress P.eval x h n.toNat k).binomial (progress P.eval x h n.toNat k).sum /
            integerPower h n.toInt32.toInt) ∧
    (difference P.eval x h n = (Polynomial.derivative^[n.toNat] P).eval x ↔
      n.toNat < 2147483648 ∨ (Polynomial.derivative^[n.toNat] P).eval x = 0 ∨
        h ^ UInt32.size = 1) ∧
    (differenceStep x n.toNat = h → derivative P.eval x n = difference P.eval x h n) := by
  refine ⟨fun k hk => ?_, difference_eq_derivative_iff hP x hh, fun hstep => ?_⟩
  · exact ⟨binomial_progress _ x h n.toNat k,
      difference_eq_progress _ x h (Nat.le_succ_of_le hk)⟩
  · rw [derivative_eq_difference, hstep]

theorem difference_polynomial_cube :
    (X ^ 3 : ℝ[X]).natDegree ≤ 2 + 1 ∧ differenceStep (2 : ℝ) 2 ≠ 0 ∧
      (progress (X ^ 3 : ℝ[X]).eval 2 (differenceStep 2 2) 2 1).binomial = (2 : ℕ).choose 1 ∧
      difference (X ^ 3 : ℝ[X]).eval 2 (differenceStep 2 2) 2 = 12 ∧
      derivative (X ^ 3 : ℝ[X]).eval 2 2 = 12 := by
  have hdegree : (X ^ 3 : ℝ[X]).natDegree ≤ (2 : UInt32).toNat + 1 := (natDegree_X_pow 3).le
  have hstep : differenceStep (2 : ℝ) 2 ≠ 0 := (differenceStep_pos 2 2).ne'
  have hvalue : (Polynomial.derivative^[2] (X ^ 3 : ℝ[X])).eval 2 = 12 := by
    norm_num [derivative_X_pow]
  obtain ⟨hsum, hdifference, hderivative⟩ := difference_polynomial hdegree 2 hstep
  have hexact := (hdifference.mpr (.inl (by decide))).trans hvalue
  exact ⟨hdegree, hstep, (hsum 1 one_le_two).1, hexact, (hderivative rfl).trans hexact⟩

theorem eval_iterate_derivative_X_pow (n : ℕ) :
    (Polynomial.derivative^[n] (X ^ n : ℚ[X])).eval 0 = n.factorial := by
  rw [iterate_derivative_X_pow_eq_C_mul, Nat.sub_self, pow_zero, mul_one, eval_C,
    Nat.descFactorial_self]

/-- From order `2 ^ 31` on the sum is multiplied by a power of the step in place of being divided
by one. -/
theorem difference_ne_derivative :
    (X ^ (2147483648 : UInt32).toNat : ℚ[X]).natDegree ≤ (2147483648 : UInt32).toNat + 1 ∧
    (2 : ℚ) ≠ 0 ∧
    difference (X ^ (2147483648 : UInt32).toNat : ℚ[X]).eval 0 2 2147483648 ≠
      (Polynomial.derivative^[(2147483648 : UInt32).toNat]
        (X ^ (2147483648 : UInt32).toNat : ℚ[X])).eval 0 := by
  have horder : ¬ (2147483648 : UInt32).toNat < 2147483648 := by decide
  generalize (2147483648 : UInt32) = order at horder ⊢
  have hdegree : (X ^ order.toNat : ℚ[X]).natDegree ≤ order.toNat + 1 :=
    (natDegree_X_pow _).trans_le (Nat.le_succ _)
  refine ⟨hdegree, two_ne_zero, ?_⟩
  rw [ne_eq, difference_eq_derivative_iff hdegree 0 two_ne_zero, eval_iterate_derivative_X_pow]
  rintro (hlt | hzero | hone)
  · exact horder hlt
  · exact order.toNat.factorial_ne_zero (Nat.cast_eq_zero.mp hzero)
  · exact (one_lt_pow₀ one_lt_two (Nat.succ_ne_zero _)).ne' hone

end Univariate.Calculus
