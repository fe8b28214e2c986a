import Univariate.Expr.Eval
import Univariate.Proofs.Double.Truncation
import Univariate.Proofs.Exact.Pairs
import Univariate.Proofs.Exact.Power
import Univariate.Proofs.Exact.Real

namespace Univariate.Expr

open Decimal Double

def shortInteger (c : Float) : Bool := fractionalPart c == 0 && decide (c.abs ≤ 2147483647)

section Exponents

variable {c : Float} {n : Int}

theorem abs_le_iff (hc : c.isFinite = true) (hn : value c = n) :
    c.abs ≤ 2147483647 ↔ n.natAbs ≤ 2147483647 := by
  have hlimit : Float.isFinite 2147483647 = true := by decide +kernel
  have hvalue : value 2147483647 = (2147483647 : Nat) := by decide +kernel
  rw [le_iff_value_le (isFinite_abs hc) hlimit, value_abs, hvalue, abs_value_of_integer hn,
    Nat.cast_le]

theorem shortInteger_iff : shortInteger c = true ↔
    c.isFinite = true ∧ ∃ n : Int, value c = n ∧ n.natAbs ≤ 2147483647 := by
  rw [shortInteger, Bool.and_eq_true, decide_eq_true_eq, fractionalPart_beq_zero_iff]
  constructor
  · rintro ⟨⟨hc, n, hn⟩, hle⟩
    exact ⟨hc, n, hn, (abs_le_iff hc hn).mp hle⟩
  · rintro ⟨hc, n, hn, hle⟩
    exact ⟨⟨hc, n, hn⟩, (abs_le_iff hc hn).mpr hle⟩

theorem integerExponent?_const_eq_some_iff : (const c).integerExponent? = some n ↔
    c.isFinite = true ∧ value c = n ∧ n.natAbs ≤ 2147483647 := by
  rw [integerExponent?, Option.filter_eq_some_iff, integer?_eq_some_iff, decide_eq_true_eq, and_assoc]

theorem integerExponent?_const (c : Float) :
    (const c).integerExponent? = if shortInteger c then some (toInt32 c).toInt else none := by
  split
  · rename_i hshort
    obtain ⟨hc, n, hn, hle⟩ := shortInteger_iff.mp hshort
    rw [(toInt32_of_value hc hn hle).1]
    exact integerExponent?_const_eq_some_iff.mpr ⟨hc, hn, hle⟩
  · rename_i hlong
    rw [Option.eq_none_iff_forall_ne_some]
    intro n hn
    obtain ⟨hc, hvalue, hle⟩ := integerExponent?_const_eq_some_iff.mp hn
    exact hlong (shortInteger_iff.mpr ⟨hc, n, hvalue, hle⟩)

end Exponents

section Powers

variable {K : Type} [Field K]

theorem ofReal_pow (a : K) (n : Nat) :
    (Cartesian.ofReal a).pow n = Cartesian.ofReal (a ^ n) := by
  rw [Cartesian.pow_eq]
  exact (map_pow Cartesian.ofRealHom a n).symm

variable [Elementary K] {constant : Float → K} {names : String → K} {l r : Expr} {n : Int}

theorem eval_pow (h : r.integerExponent? = some n) :
    (binary .pow l r).eval constant names = l.eval constant names ^ n :=
  (eval_pow_of_integer h).trans (integerPower_eq_zpow _ n)

end Powers

/-- The exponents that pass the test in doubles are those of the powers that are computed by
products. Each is an integer, which neither the conversion to 32 bits nor the opposite there changes
into another, and in exact arithmetic the power is the product of as many bases, or its inverse. On a
real base the product of complex numbers is the same. -/
theorem integer_powers (c : Float) :
    (const c).integerExponent? = (if shortInteger c then some (toInt32 c).toInt else none) ∧
    ∀ n : Int, (const c).integerExponent? = some n →
      (c.isFinite = true ∧ value c = n) ∧ (toInt32 c).toInt = n ∧ (-toInt32 c).toInt = -n ∧
      ∀ (K : Type) [Field K] [Elementary K] (constant : Float → K) (names : String → K) (l : Expr),
        let a := l.eval constant names
        let power := (binary .pow l (const c)).eval constant names
        (0 ≤ n → power = a ^ n.natAbs) ∧
        (n < 0 → a ≠ 0 → power = (a ^ n.natAbs)⁻¹) ∧
        (Cartesian.ofReal a).pow n.natAbs = Cartesian.ofReal (a ^ n.natAbs) := by
  refine ⟨integerExponent?_const c, ?_⟩
  intro n h
  obtain ⟨hc, hn, hle⟩ := integerExponent?_const_eq_some_iff.mp h
  obtain ⟨hint, hneg⟩ := toInt32_of_value hc hn hle
  refine ⟨⟨hc, hn⟩, hint, hneg, ?_⟩
  intro K _ _ constant names l a power
  have hpower : power = a ^ n := eval_pow h
  refine ⟨?_, ?_, ofReal_pow a _⟩
  · intro hsign
    rw [hpower, ← zpow_natCast, Int.natAbs_of_nonneg hsign]
  · intro hsign _
    rw [hpower, ← zpow_natCast, ← zpow_neg, Int.ofNat_natAbs_of_nonpos hsign.le, neg_neg]

theorem integer_powers_inverse_cube : (const (-3)).integerExponent? = some (-3) ∧
    (binary .pow (var "x") (const (-3))).eval (fun c => (value c : ℝ)) (fun _ => -2) = -1 / 8 := by
  have hexponent : (const (-3)).integerExponent? = some (-3) := by decide +kernel
  obtain ⟨-, -, -, hpower⟩ := (integer_powers (-3)).2 (-3) hexponent
  obtain ⟨-, hinverse, -⟩ := hpower ℝ (fun c => (value c : ℝ)) (fun _ => -2) (var "x")
  refine ⟨hexponent, ?_⟩
  rw [hinverse (by decide) (neg_ne_zero.mpr two_ne_zero), eval]
  norm_num

end Univariate.Expr
