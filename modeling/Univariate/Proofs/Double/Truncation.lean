import Mathlib.Algebra.Order.Floor.Semiring
import Univariate.Proofs.Decimal.Sign
import Univariate.Proofs.Double.ExactDifference

namespace Univariate.Double

open Decimal
open Float.Model (UnpackedFloat Format)
open Float.Model.UnpackedFloat

def truncated (x : Float) : Float :=
  if x.abs < 4503599627370496 then
    let whole := ((unpacked x).toInt 0 0).natAbs.toUInt64.toFloat
    if signBit x then -whole else whole
  else x

def fractionalPart (x : Float) : Float := x - truncated x

/-- The integer part in 32 bits. What does not fit becomes the nearest number that does, and what is
not a number becomes zero. -/
def toInt32 (x : Float) : Int32 := x.toModel.toInt32

variable {x : Float} {n : Int} {lo hi : Int}

theorem mantissa_lt (hx : x.isFinite = true) : (Binary.ofFloat x).mantissa < 2 ^ 53 := by
  rcases zero_or_finite hx with ⟨s, hu⟩ | ⟨s, m, e, hm, hu⟩
  · rw [ofFloat_of_zero hu]
    exact Nat.two_pow_pos _
  · rw [ofFloat_of_unpacked hu]
    exact (canonical_of_unpacked hu).1

section Floors

theorem floor_of_exponent_nonneg (m : Nat) {e : Int} (he : 0 ≤ e) :
    (⌊(m : ℚ) * 2 ^ e⌋₊ : ℚ) = m * 2 ^ e := by
  obtain ⟨k, hk⟩ := Binary.exists_natCast_of_nonneg (a := 2) (n := m) he (by decide)
  rw [Int.cast_ofNat] at hk
  rw [hk, Nat.floor_natCast]

theorem exists_integer_iff (hx : x.isFinite = true) :
    (∃ n : Int, value x = n) ↔ |value x| = (⌊|value x|⌋₊ : ℚ) := by
  constructor
  · rintro ⟨n, hn⟩
    rw [abs_value_of_integer hn, Nat.floor_natCast]
  · intro h
    have hsigned := value_eq_signed hx
    rw [h] at hsigned
    split at hsigned
    · exact ⟨-(⌊|value x|⌋₊ : Int), hsigned.trans (by push_cast; rfl)⟩
    · exact ⟨⌊|value x|⌋₊, hsigned⟩

theorem roundToInt_eq (s : Sign) (m : Nat) (e : Int) :
    roundToInt s m e = s.apply (⌊(m : ℚ) * 2 ^ e⌋₊ : Nat) := by
  obtain ⟨k, hk⟩ : ∃ k, k = (0 - (e - (e - 0).toNat)).toNat := ⟨_, rfl⟩
  have hread : Reads (ExtendedMantissa.ofMantissaAndAccuracy (m <<< (e - 0).toNat) .exact >>> k)
      (m * 2 ^ e) := by
    have hshift := (Reads.exact (m <<< (e - 0).toNat)).shiftRight k
    have hvalue : ((m <<< (e - 0).toNat : Nat) : ℚ) / 2 ^ k = m * 2 ^ e := by
      have hexp : ((e - 0).toNat : Int) = e + k := by omega
      rw [Nat.shiftLeft_eq, Nat.cast_mul, Nat.cast_pow, Nat.cast_ofNat, ← zpow_natCast, hexp,
        zpow_add₀ two_ne_zero, zpow_natCast]
      field_simp
    rwa [hvalue] at hshift
  have hbounds := hread.bounds
  have hfloor := (Nat.floor_eq_iff (by positivity)).mpr hbounds
  simp only [roundToInt, decreaseExponent, shiftToExponent, ← hk]
  rw [hfloor]

theorem natAbs_toInt (hx : x.isFinite = true) :
    ((unpacked x).toInt lo hi).natAbs = ⌊|value x|⌋₊ := by
  rcases zero_or_finite hx with ⟨s, hu⟩ | ⟨s, m, e, hm, hu⟩
  · rw [value, hu]
    simp [UnpackedFloat.toInt, rational]
  · rw [value, ← rational_abs, hu, UnpackedFloat.abs, rational_positive]
    simp only [UnpackedFloat.toInt, roundToInt_eq]
    cases s <;> simp [Sign.apply]

theorem toInt_of_value (hx : x.isFinite = true) (hn : value x = n) :
    (unpacked x).toInt lo hi = n := by
  have hfloor := (exists_integer_iff hx).mp ⟨n, hn⟩
  have hcast : ((unpacked x).toInt lo hi : ℚ) = value x := by
    rcases zero_or_finite hx with ⟨s, hu⟩ | ⟨s, m, e, hm, hu⟩
    · rw [value, hu]
      rfl
    · rw [value, ← rational_abs, hu, UnpackedFloat.abs, rational_positive] at hfloor
      rw [value, hu]
      simp only [UnpackedFloat.toInt, roundToInt_eq]
      cases s with
      | positive =>
        rw [rational_positive]
        exact hfloor.symm
      | negative =>
        rw [rational_negative, Sign.apply, Int.cast_neg, Int.cast_natCast, ← hfloor]
  exact_mod_cast hcast.trans hn

end Floors

section Truncation

theorem value_toFloat {k : Nat} (hk : k < 2 ^ 53) :
    value k.toUInt64.toFloat = k ∧ k.toUInt64.toFloat.isFinite = true := by
  by_cases hzero : k = 0
  · rw [hzero]
    exact ⟨by decide +kernel, by decide +kernel⟩
  · obtain ⟨m, e, h, hu, -, hvalue⟩ := unpacked_toFloat hzero hk
    refine ⟨?_, ?_⟩
    · rw [value, hu, rational_positive, hvalue]
    · rw [isFinite_eq, hu]
      rfl

theorem abs_lt_iff (hx : x.isFinite = true) :
    x.abs < 4503599627370496 ↔ |value x| < 2 ^ 52 := by
  have hlimit : Float.isFinite 4503599627370496 = true := by decide +kernel
  have hvalue : value 4503599627370496 = 2 ^ 52 := by decide +kernel
  rw [lt_iff_value_lt (isFinite_abs hx) hlimit, value_abs, hvalue]

theorem not_abs_lt (hx : ¬ x.isFinite = true) : ¬ x.abs < 4503599627370496 := by
  rw [isFinite_eq] at hx
  rw [lt_iff, unpacked_abs]
  cases hu : unpacked x with
  | notANumber => exact nofun
  | infinity s => exact nofun
  | zero | finite =>
    rw [hu] at hx
    exact absurd rfl hx

theorem floor_lt (h : |value x| < 2 ^ 52) : ⌊|value x|⌋₊ < 2 ^ 53 := by
  have hle := Nat.floor_le (abs_nonneg (value x))
  have hlt : (⌊|value x|⌋₊ : ℚ) < 2 ^ 53 := by linarith
  exact_mod_cast hlt

theorem truncated_eq (hx : x.isFinite = true) (h : |value x| < 2 ^ 52) :
    (truncated x).isFinite = true ∧
      value (truncated x) = if signBit x then -(⌊|value x|⌋₊ : ℚ) else ⌊|value x|⌋₊ := by
  obtain ⟨hvalue, hfinite⟩ := value_toFloat (floor_lt h)
  rw [truncated, if_pos ((abs_lt_iff hx).mpr h)]
  dsimp only
  rw [natAbs_toInt hx]
  cases signBit x with
  | true => exact ⟨isFinite_neg.trans hfinite, by rw [if_pos rfl, if_pos rfl, value_neg, hvalue]⟩
  | false => exact ⟨hfinite, hvalue⟩

theorem truncated_of_le (hx : x.isFinite = true) (h : 2 ^ 52 ≤ |value x|) : truncated x = x := by
  rw [truncated, if_neg]
  rw [abs_lt_iff hx, not_lt]
  exact h

theorem isFinite_truncated (hx : x.isFinite = true) : (truncated x).isFinite = true := by
  by_cases h : |value x| < 2 ^ 52
  · exact (truncated_eq hx h).1
  · rwa [truncated_of_le hx (not_lt.mp h)]

theorem exists_integer_of_le (hx : x.isFinite = true) (h : 2 ^ 52 ≤ |value x|) :
    ∃ n : Int, value x = n := by
  have hm := mantissa_lt hx
  rw [exists_integer_iff hx]
  rw [abs_value_eq hx] at h ⊢
  generalize Binary.ofFloat x = b at hm h
  have he : 0 ≤ b.exponent := by
    by_contra he
    have hpow : (2 : ℚ) ^ b.exponent ≤ 2 ^ (-1 : Int) :=
      zpow_le_zpow_right₀ one_le_two (by omega)
    have hm' : (b.mantissa : ℚ) < 2 ^ 53 := by exact_mod_cast hm
    have hpos : (0 : ℚ) ≤ b.mantissa := Nat.cast_nonneg _
    rw [zpow_neg_one] at hpow
    have hle := mul_le_mul_of_nonneg_left hpow hpos
    linarith
  exact (floor_of_exponent_nonneg b.mantissa he).symm

theorem value_truncated_iff (hx : x.isFinite = true) :
    value x = value (truncated x) ↔ ∃ n : Int, value x = n := by
  by_cases h : |value x| < 2 ^ 52
  · have hsigned := value_eq_signed hx
    rw [(truncated_eq hx h).2, exists_integer_iff hx]
    split
    · rename_i hsign
      rw [if_pos hsign] at hsigned
      rw [hsigned, abs_neg, abs_abs, neg_inj]
    · rename_i hsign
      rw [if_neg hsign] at hsigned
      rw [hsigned, abs_abs]
  · have hle := not_lt.mp h
    rw [truncated_of_le hx hle]
    exact iff_of_true rfl (exists_integer_of_le hx hle)

end Truncation

section Fraction

theorem exists_fraction (hx : x.isFinite = true) : ∃ (r : Nat) (e : Int), r < 2 ^ 53 ∧
    -1074 ≤ e ∧ e ≤ 971 ∧ |value x| - ⌊|value x|⌋₊ = r * 2 ^ e := by
  have habs := abs_value_eq hx
  rcases zero_or_finite hx with ⟨s, hu⟩ | ⟨s, m, e, hm, hu⟩
  · refine ⟨0, 0, by decide, by decide, by decide, ?_⟩
    rw [habs, ofFloat_of_zero hu]
    simp
  · obtain ⟨hlt, hle, hge, -⟩ := canonical_of_unpacked hu
    rw [habs, ofFloat_of_unpacked hu]
    dsimp only
    by_cases he : 0 ≤ e
    · refine ⟨0, 0, by decide, by decide, by decide, ?_⟩
      rw [floor_of_exponent_nonneg m he]
      simp
    · obtain ⟨k, hk⟩ := Int.eq_ofNat_of_zero_le (show 0 ≤ -e by omega)
      obtain rfl : e = -(k : Int) := by omega
      refine ⟨m % 2 ^ k, -(k : Int), (Nat.mod_le _ _).trans_lt hlt, hle, hge, ?_⟩
      have hpow : ((2 ^ k : Nat) : ℚ) ≠ 0 := by positivity
      have hmod : ((2 ^ k : Nat) : ℚ) * (m / 2 ^ k : Nat) + (m % 2 ^ k : Nat) = m := by
        exact_mod_cast Nat.div_add_mod m (2 ^ k)
      have hunit : (2 : ℚ) ^ (-(k : Int)) = ((2 ^ k : Nat) : ℚ)⁻¹ := by
        rw [zpow_neg, zpow_natCast, Nat.cast_pow, Nat.cast_ofNat]
      rw [hunit, ← div_eq_mul_inv, ← div_eq_mul_inv, Nat.floor_div_eq_div, eq_div_iff hpow,
        sub_mul, div_mul_cancel₀ _ hpow]
      linarith

theorem value_sub_truncated (hx : x.isFinite = true) (h : |value x| < 2 ^ 52) :
    value x - value (truncated x) =
      if signBit x then -(|value x| - ⌊|value x|⌋₊) else |value x| - ⌊|value x|⌋₊ := by
  rw [(truncated_eq hx h).2]
  nth_rewrite 1 [value_eq_signed hx]
  split
  · ring
  · rfl

theorem value_fractionalPart (hx : x.isFinite = true) : (fractionalPart x).isFinite = true ∧
    value (fractionalPart x) = value x - value (truncated x) := by
  have ht := isFinite_truncated hx
  by_cases heq : value x = value (truncated x)
  · obtain ⟨s, hu⟩ := unpacked_sub_of_value_eq hx ht heq
    rw [fractionalPart, isFinite_eq, value, hu, sub_eq_zero.mpr heq]
    exact ⟨rfl, rfl⟩
  · have hlt : |value x| < 2 ^ 52 := by
      by_contra hle
      exact heq ((value_truncated_iff hx).mpr (exists_integer_of_le hx (not_lt.mp hle)))
    obtain ⟨r, e, hr, hle, hge, hfraction⟩ := exists_fraction hx
    have hsub := value_sub_truncated hx hlt
    rw [hfraction] at hsub
    have hne : r ≠ 0 := by
      rintro rfl
      refine heq (sub_eq_zero.mp ?_)
      simpa using hsub
    obtain ⟨m, e', hm, hc, hvalue⟩ :=
      exists_canonical (if signBit x then .negative else .positive) hne hr hle hge
    have hrational : value x - value (truncated x) =
        rational (.finite (if signBit x then .negative else .positive) m e' hm) := by
      rw [hsub, ← hvalue]
      split
      · exact (rational_negative m e' hm).symm
      · exact (rational_positive m e' hm).symm
    have hu := unpacked_sub_of_value hx ht hc hrational
    rw [hrational, fractionalPart, isFinite_eq, value, hu]
    exact ⟨rfl, rfl⟩

theorem not_fractionalPart_beq (hx : ¬ x.isFinite = true) : ¬ (fractionalPart x == 0) = true := by
  have hsub : unpacked (x - x) = .notANumber := by
    rw [isFinite_eq] at hx
    rw [sub_eq]
    cases hu : unpacked x with
    | notANumber => exact unpacked_packed (u := .notANumber) trivial
    | infinity s => cases s <;> exact unpacked_packed (u := .notANumber) trivial
    | zero | finite =>
      rw [hu] at hx
      exact absurd rfl hx
  rw [fractionalPart, truncated, if_neg (not_abs_lt hx), beq_iff, hsub]
  exact nofun

theorem fractionalPart_beq_zero_iff : (fractionalPart x == 0) = true ↔
    x.isFinite = true ∧ ∃ n : Int, value x = n := by
  by_cases hx : x.isFinite = true
  · obtain ⟨hfinite, hvalue⟩ := value_fractionalPart hx
    rw [beq_iff_value_eq hfinite isFinite_zero, hvalue, value_zero, sub_eq_zero,
      value_truncated_iff hx, and_iff_right hx]
  · exact iff_of_false (not_fractionalPart_beq hx) fun h => hx h.1

end Fraction

section Words

theorem toInt32_of_value (hx : x.isFinite = true) (hn : value x = n)
    (hle : n.natAbs ≤ 2147483647) : (toInt32 x).toInt = n ∧ (-toInt32 x).toInt = -n := by
  have hint : (toInt32 x).toInt = n := by
    have hconvert : toInt32 x = Int32.ofIntClamp n := congrArg Int32.ofIntClamp (toInt_of_value hx hn)
    rw [hconvert]
    refine Int32.toInt_ofIntClamp ?_ ?_
    · change -2147483648 ≤ n
      omega
    · change n ≤ 2147483647
      omega
  refine ⟨hint, ?_⟩
  rw [Int32.toInt_neg, hint, Int.bmod_eq_of_le (by omega) (by omega)]

end Words

end Univariate.Double
