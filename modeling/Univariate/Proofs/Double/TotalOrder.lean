import Univariate.Proofs.Decimal.ReadBack
import Univariate.Proofs.Double.NotANumber
import Univariate.Roots.Separation

namespace Univariate.Double

open Float.Model (UnpackedFloat Format)
open Float.Model.UnpackedFloat
open Decimal (pattern reading_pattern signBit signBit_eq_false_iff)

variable {x y : Float} {u v : UnpackedFloat} {s s' : Sign} {m m' : Nat} {e e' : Int}

def signed : Sign → Nat → Int
  | .positive, n => n
  | .negative, n => -n - 1

def place : UnpackedFloat → Int
  | .notANumber => 0
  | .infinity s => signed s (2047 * 2 ^ 52)
  | .zero s => signed s 0
  | .finite s m e _ => signed s ((e + 1074).toNat * 2 ^ 52 + m)

section Bits

theorem magnitude_bits (x : Float) : (x.toBits &&& 0x7fffffffffffffff).toNat =
    (unpackExponent (pattern x)).toNat * 2 ^ 52 + (unpackMantissa (pattern x)).toNat := by
  have hand : (x.toBits &&& 0x7fffffffffffffff).toNat = (pattern x).toNat % 2 ^ 63 := by
    rw [UInt64.toNat_and]
    exact Nat.and_two_pow_sub_one_eq_mod _ 63
  rw [hand, toNat_unpackExponent, toNat_unpackMantissa]
  omega

theorem place_of_reading {b : BitVec Format.binary64.numBits} (h : Reading b u)
    (hu : u ≠ .notANumber) : place u = signed (Sign.ofBitVec (unpackSign b))
      ((unpackExponent b).toNat * 2 ^ 52 + (unpackMantissa b).toNat) := by
  cases h with
  | notANumber => exact absurd rfl hu
  | infinity he hm | zero he hm =>
    rw [he, hm]
    rfl
  | subnormal h he =>
    rw [place, he]
    exact congrArg (signed _) rfl
  | normal h he =>
    rw [place]
    exact congrArg (signed _) (by omega)

theorem signed_sign (x : Float) (n : Nat) : signed (Sign.ofBitVec (unpackSign (pattern x))) n =
    if signBit x then -(n : Int) - 1 else n := by
  cases hsign : signBit x with
  | false =>
    rw [signBit_eq_false_iff.mp hsign]
    rfl
  | true =>
    have hnegative : Sign.ofBitVec (unpackSign (pattern x)) ≠ .positive := by
      rw [ne_eq, ← signBit_eq_false_iff, hsign]
      exact Bool.noConfusion
    generalize Sign.ofBitVec (unpackSign (pattern x)) = s at hnegative
    cases s with
    | positive => exact absurd rfl hnegative
    | negative => rfl

theorem orderKey_of_number (sign : Bool) (hx : x.isNaN = false) :
    SignedFloat.orderKey ⟨x, sign⟩ = place (unpacked x) := by
  rw [SignedFloat.orderKey, magnitude_bits, hx,
    place_of_reading (reading_pattern x) (isNaN_eq_false_iff.mp hx), signed_sign]
  rfl

theorem orderKey_notANumber (sign : Bool) (hx : x.isNaN = true) :
    SignedFloat.orderKey ⟨x, sign⟩ =
      signed (if sign then .negative else .positive) (2047 * 2 ^ 52 + 2 ^ 51) := by
  rw [← packed_unpacked x, isNaN_iff.mp hx]
  cases sign <;> decide +kernel

end Bits

section Order

theorem place_bounds (hu : Canonical u) (hf : u.isFinite = true) :
    place (.infinity .negative) < place u ∧ place u < place (.infinity .positive) := by
  have hbounds (s : Sign) {n : Nat} (hn : n < 2047 * 2 ^ 52) :
      place (.infinity .negative) < signed s n ∧ signed s n < place (.infinity .positive) := by
    cases s <;> simp only [place, signed] <;> omega
  cases u with
  | notANumber | infinity => cases hf
  | zero s => exact hbounds s (Nat.zero_lt_succ _)
  | finite s m e h =>
    obtain ⟨hm, hle, hge, hn⟩ := hu
    exact hbounds s (by omega)

theorem magnitude_lt_iff {h : 0 < m} {h' : 0 < m'} (hu : Canonical (.finite s m e h))
    (hv : Canonical (.finite s' m' e' h')) :
    (e + 1074).toNat * 2 ^ 52 + m < (e' + 1074).toNat * 2 ^ 52 + m' ↔
      (compare e e').then (compare m m') = .lt := by
  obtain ⟨hm, hle, -, hn⟩ := hu
  obtain ⟨hm', hle', -, hn'⟩ := hv
  rw [Ordering.then_eq_lt, compare_lt_iff_lt, compare_eq_iff_eq, compare_lt_iff_lt]
  omega

theorem place_lt_of_finite {h : 0 < m} {h' : 0 < m'} (hu : Canonical (.finite s m e h))
    (hv : Canonical (.finite s' m' e' h'))
    (hlt : UnpackedFloat.compare (.finite s m e h) (.finite s' m' e' h') = some .lt) :
    place (.finite s m e h) < place (.finite s' m' e' h') := by
  cases s with
  | positive =>
    cases s' with
    | positive =>
      have hmagnitude := (magnitude_lt_iff hu hv).mpr (Option.some.inj hlt)
      simp only [place, signed]
      omega
    | negative => cases hlt
  | negative =>
    cases s' with
    | positive =>
      simp only [place, signed]
      omega
    | negative =>
      have hswap : ((compare e e').then (compare m m')).swap = .lt := Option.some.inj hlt
      rw [Ordering.swap_then, Int.compare_swap, Nat.compare_swap] at hswap
      have hmagnitude := (magnitude_lt_iff hv hu).mpr hswap
      simp only [place, signed]
      omega

theorem place_lt_of_compare (hu : Canonical u) (hv : Canonical v)
    (h : u.compare v = some .lt) : place u < place v := by
  -- Against an infinity only the bounds of the finite numbers count, against a zero only the sign.
  cases u with
  | notANumber => cases h
  | infinity s =>
    cases s with
    | positive =>
      cases v with
      | infinity s' => cases s' <;> cases h
      | notANumber | zero | finite => cases h
    | negative =>
      cases v with
      | notANumber => cases h
      | infinity s' =>
        cases s' with
        | positive => decide
        | negative => cases h
      | zero | finite => exact (place_bounds hv rfl).1
  | zero s =>
    cases v with
    | notANumber | zero => cases h
    | infinity s' =>
      cases s' with
      | positive => exact (place_bounds hu rfl).2
      | negative => cases h
    | finite s' m' e' h' =>
      cases s' with
      | positive => cases s <;> simp only [place, signed] <;> omega
      | negative => cases h
  | finite s m e hm =>
    cases v with
    | notANumber => cases h
    | infinity s' =>
      cases s' with
      | positive => exact (place_bounds hu rfl).2
      | negative => cases s <;> cases h
    | zero s' =>
      cases s with
      | positive => cases h
      | negative => cases s' <;> simp only [place, signed] <;> omega
    | finite s' m' e' hm' => exact place_lt_of_finite hu hv h

theorem place_bounds_of_number (hu : Canonical u) (h : u ≠ .notANumber) :
    place (.infinity .negative) ≤ place u ∧ place u ≤ place (.infinity .positive) := by
  cases u with
  | notANumber => exact absurd rfl h
  | infinity s => cases s <;> decide
  | zero | finite => exact (place_bounds hu rfl).imp le_of_lt le_of_lt

theorem orderKey_lt_of_lt {s t : Bool} (h : x < y) :
    SignedFloat.orderKey ⟨x, s⟩ < SignedFloat.orderKey ⟨y, t⟩ := by
  obtain ⟨hx, hy⟩ := isNaN_eq_false_of_lt h
  rw [orderKey_of_number s hx, orderKey_of_number t hy]
  exact place_lt_of_compare (canonical_unpacked x) (canonical_unpacked y) ((lt_iff x y).mp h)

theorem orderKey_lt_of_isNaN {s t : Bool} (hx : x.isNaN = true) (hy : y.isNaN = false) :
    if s then SignedFloat.orderKey ⟨x, s⟩ < SignedFloat.orderKey ⟨y, t⟩
    else SignedFloat.orderKey ⟨y, t⟩ < SignedFloat.orderKey ⟨x, s⟩ := by
  obtain ⟨hlow, hhigh⟩ :=
    place_bounds_of_number (canonical_unpacked y) (isNaN_eq_false_iff.mp hy)
  have hbelow : signed .negative (2047 * 2 ^ 52 + 2 ^ 51) < place (.infinity .negative) := by decide
  have habove : place (.infinity .positive) < signed .positive (2047 * 2 ^ 52 + 2 ^ 51) := by decide
  rw [orderKey_notANumber s hx, orderKey_of_number t hy]
  cases s with
  | true => exact hbelow.trans_le hlow
  | false => exact hhigh.trans_lt habove

end Order

end Univariate.Double
