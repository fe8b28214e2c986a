import Mathlib
import Univariate.Scalar

namespace Univariate

section Powers

variable {K : Type} [Monoid K]

theorem halved_pow (m a : K) (n : Nat) :
    (if n % 2 = 1 then m * a else m) * (a * a) ^ (n / 2) = m * a ^ n := by
  have hodd : (if n % 2 = 1 then m * a else m) = m * a ^ (n % 2) := by
    rcases Nat.mod_two_eq_zero_or_one n with h | h
    · simp [h]
    · simp [h]
  rw [hodd, ← pow_two, ← pow_mul, mul_assoc, ← pow_add, Nat.mod_add_div]

theorem squaring_eq (m a : K) (n : Nat) : squaring m a n = m * a ^ n := by
  fun_induction squaring m a n with
  | case1 m a n m' hzero =>
    rw [← halved_pow m a n, hzero, pow_zero, mul_one]
    rfl
  | case2 m a n m' hzero ih =>
    rw [ih, ← halved_pow m a n]
    rfl

theorem integerPower_natCast [Div K] (a : K) (n : Nat) : integerPower a n = a ^ n := by
  have hsign : ¬ (n : Int) < 0 := by omega
  rw [integerPower, if_neg hsign, squaring_eq, one_mul, Int.natAbs_natCast]

end Powers

theorem integerPower_eq_zpow {K : Type} [DivisionRing K] (a : K) (n : Int) :
    integerPower a n = a ^ n := by
  cases n with
  | ofNat k => rw [Int.ofNat_eq_natCast, integerPower_natCast, zpow_natCast]
  | negSucc k =>
    rw [integerPower, if_pos (Int.negSucc_lt_zero k), squaring_eq, one_mul, Int.natAbs_negSucc,
      zpow_negSucc, one_div]

end Univariate
