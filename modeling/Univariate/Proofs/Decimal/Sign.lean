import Univariate.Proofs.Decimal.ReadBack
import Univariate.Proofs.Double.Value

namespace Univariate.Decimal

open Univariate.Double
open Float.Model (UnpackedFloat Format)
open Float.Model.UnpackedFloat

variable {x : Float}

theorem zero_or_finite (hx : x.isFinite = true) :
    (∃ s, unpacked x = .zero s) ∨ ∃ s m e h, unpacked x = .finite s m e h := by
  rw [isFinite_eq] at hx
  cases hu : unpacked x with
  | infinity | notANumber =>
    rw [hu] at hx
    cases hx
  | zero s => exact .inl ⟨s, rfl⟩
  | finite s m e h => exact .inr ⟨s, m, e, h, rfl⟩

theorem unsigned_neg_iff_not {u : UnpackedFloat} (h : u.isFinite = true) :
    Unsigned u.neg ↔ ¬ Unsigned u := by
  cases u with
  | infinity | notANumber => cases h
  | zero s =>
    cases s with
    | positive => exact iff_of_false (fun h => nomatch h) (not_not.mpr .zero)
    | negative => exact iff_of_true .zero fun h => nomatch h
  | finite s m e hm =>
    cases s with
    | positive => exact iff_of_false (fun h => nomatch h) (not_not.mpr (.finite m e hm))
    | negative => exact iff_of_true (.finite m e hm) fun h => nomatch h

theorem isFinite_neg : (-x).isFinite = x.isFinite := by
  rw [isFinite_eq, isFinite_eq, unpacked_neg]
  cases unpacked x <;> rfl

theorem signBit_eq_true_iff (hx : x.isFinite = true) :
    signBit x = true ↔ Unsigned (unpacked (-x)) := by
  have hneg := unsigned_neg_iff_not (u := unpacked x) hx
  rw [← unpacked_neg] at hneg
  rw [hneg, unsigned_iff]
  simp [hx]

theorem signBit_neg (hx : x.isFinite = true) (hsign : signBit x = true) : signBit (-x) = false :=
  (unsigned_iff.mp ((signBit_eq_true_iff hx).mp hsign)).2

theorem signBit_neg_of_unsigned (hx : Unsigned (unpacked x)) : signBit (-x) = true := by
  have hfinite := isFinite_neg.trans (unsigned_iff.mp hx).1
  have hneg := unsigned_neg_iff_not (u := unpacked x) (unsigned_iff.mp hx).1
  rw [← unpacked_neg] at hneg
  rw [← Bool.not_eq_false]
  exact fun hsign => hneg.mp (unsigned_iff.mpr ⟨hfinite, hsign⟩) hx

theorem shortest_neg (hx : x.isFinite = true) :
    (Binary.ofFloat (-x)).shortest = (Binary.ofFloat x).shortest := by
  rcases zero_or_finite hx with ⟨s, hu⟩ | ⟨s, m, e, hm, hu⟩
  · have hneg : unpacked (-x) = .zero (-s) := by rw [unpacked_neg, hu]; rfl
    have hzero : ∀ b : Binary, b.mantissa = 0 → b.shortest = ⟨0, 0⟩ := fun _ hb => if_pos hb
    rw [hzero _ (ofFloat_of_zero hu), hzero _ (ofFloat_of_zero hneg)]
  · have hneg : unpacked (-x) = .finite (-s) m e hm := by rw [unpacked_neg, hu]; rfl
    rw [ofFloat_of_unpacked hu, ofFloat_of_unpacked hneg]

theorem plain_of_signBit (hx : x.isFinite = true) (hsign : signBit x = true) :
    plain x = '-' :: plain (-x) := by
  have hneg := signBit_neg hx hsign
  have hspecial : ∀ {y : Float}, y.isFinite = true → y.isNaN = false ∧ y.isInf = false := by
    intro y hy
    change (unpacked y).isNaN = false ∧ (unpacked y).isInf = false
    rcases zero_or_finite hy with ⟨s, hu⟩ | ⟨s, m, e, hm, hu⟩
    · rw [hu]
      exact ⟨rfl, rfl⟩
    · rw [hu]
      exact ⟨rfl, rfl⟩
  obtain ⟨hnan, hinf⟩ := hspecial hx
  obtain ⟨hnan', hinf'⟩ := hspecial (isFinite_neg.trans hx)
  simp only [plain, Layout.write, hnan, hinf, hnan', hinf', signed, hsign, hneg, shortest_neg hx,
    Bool.false_eq_true, if_false, if_true]

theorem unsigned_or_signed (hx : x.isFinite = true) :
    signBit x = false ∧ Unsigned (unpacked x) ∨
      signBit x = true ∧ plain x = '-' :: plain (-x) ∧ Unsigned (unpacked (-x)) := by
  cases hsign : signBit x with
  | false => exact .inl ⟨rfl, unsigned_iff.mpr ⟨hx, hsign⟩⟩
  | true => exact .inr ⟨rfl, plain_of_signBit hx hsign, (signBit_eq_true_iff hx).mp hsign⟩

theorem value_nonneg_of_unsigned (hx : Unsigned (unpacked x)) : 0 ≤ value x := by
  unfold value
  generalize unpacked x = u at hx
  cases hx with
  | zero => exact le_refl 0
  | finite m e h =>
    rw [rational_positive]
    exact (magnitude_pos e h).le

theorem value_nonpos_of_signBit (hx : x.isFinite = true) (hsign : signBit x = true) :
    value x ≤ 0 := by
  have h := value_nonneg_of_unsigned ((signBit_eq_true_iff hx).mp hsign)
  rw [value_neg] at h
  linarith

theorem value_eq_signed (hx : x.isFinite = true) :
    value x = if signBit x then -|value x| else |value x| := by
  cases hsign : signBit x with
  | true => rw [abs_of_nonpos (value_nonpos_of_signBit hx hsign), if_pos rfl, neg_neg]
  | false =>
    rw [abs_of_nonneg (value_nonneg_of_unsigned (unsigned_iff.mpr ⟨hx, hsign⟩))]
    rfl

theorem abs_value_eq (hx : x.isFinite = true) :
    |value x| = (Binary.ofFloat x).mantissa * 2 ^ (Binary.ofFloat x).exponent := by
  rcases zero_or_finite hx with ⟨s, hu⟩ | ⟨s, m, e, hm, hu⟩
  · rw [ofFloat_of_zero hu, Nat.cast_zero, zero_mul, value, hu]
    exact abs_zero
  · rw [ofFloat_of_unpacked hu, value, ← rational_abs, hu, UnpackedFloat.abs, rational_positive]

section Integer

variable {n : Int}

theorem abs_value_of_integer (h : value x = n) : |value x| = n.natAbs := by
  rw [h, Nat.cast_natAbs, Int.cast_abs]

theorem Binary.whole?_eq_some {b : Binary} {n : Nat} (h : b.whole? = some n) :
    (b.mantissa : ℚ) * 2 ^ b.exponent = n := by
  unfold Binary.whole? at h
  simp only [Nat.pow_eq] at h
  split at h
  · rename_i he
    obtain ⟨k, hk⟩ := Int.eq_ofNat_of_zero_le he
    cases h
    rw [hk]
    simp
  · rename_i he
    obtain ⟨k, hk⟩ := Int.eq_ofNat_of_zero_le (show 0 ≤ -b.exponent by omega)
    split at h
    · rename_i hmod
      cases h
      have hexp : b.exponent = -(k : Int) := by omega
      rw [hk, Int.toNat_natCast] at hmod ⊢
      rw [hexp, zpow_neg, zpow_natCast, ← div_eq_mul_inv,
        Nat.cast_div (Nat.dvd_of_mod_eq_zero hmod) (by positivity)]
      push_cast
      rfl
    · cases h

theorem Binary.whole?_eq_some_iff {b : Binary} {k : Nat} :
    b.whole? = some k ↔ (b.mantissa : ℚ) * 2 ^ b.exponent = k := by
  refine ⟨Binary.whole?_eq_some, fun h => ?_⟩
  unfold Binary.whole?
  simp only [Nat.pow_eq]
  split
  · rename_i he
    obtain ⟨j, hj⟩ := Int.eq_ofNat_of_zero_le he
    rw [hj, zpow_natCast] at h
    rw [hj, Int.toNat_natCast]
    exact congrArg some (by exact_mod_cast h)
  · rename_i he
    obtain ⟨j, hj⟩ := Int.eq_ofNat_of_zero_le (show 0 ≤ -b.exponent by omega)
    have hexp : b.exponent = -(j : Int) := by omega
    rw [hexp, zpow_neg, zpow_natCast, ← div_eq_mul_inv, div_eq_iff (by positivity)] at h
    have hm : b.mantissa = k * 2 ^ j := by exact_mod_cast h
    rw [hj, Int.toNat_natCast, hm, Nat.mul_mod_left, if_pos rfl,
      Nat.mul_div_cancel _ (Nat.two_pow_pos j)]

theorem integer?_eq (hx : x.isFinite = true) : integer? x =
    (Binary.ofFloat x).whole?.map fun k : Nat => if signBit x then -(k : Int) else k := by
  rw [integer?, if_pos hx]
  cases (Binary.ofFloat x).whole? with
  | none => rfl
  | some k => rfl

theorem isFinite_of_integer? (h : integer? x = some n) : x.isFinite = true := by
  by_contra hx
  rw [integer?, if_neg hx] at h
  cases h

theorem value_of_integer? (h : integer? x = some n) : value x = n := by
  have hx := isFinite_of_integer? h
  rw [integer?_eq hx] at h
  obtain ⟨k, hwhole, rfl⟩ := Option.map_eq_some_iff.mp h
  rw [value_eq_signed hx, abs_value_eq hx, Binary.whole?_eq_some hwhole,
    apply_ite (Int.cast : ℤ → ℚ), Int.cast_neg, Int.cast_natCast]

theorem integer?_eq_some_iff : integer? x = some n ↔ x.isFinite = true ∧ value x = n := by
  refine ⟨fun h => ⟨isFinite_of_integer? h, value_of_integer? h⟩, ?_⟩
  rintro ⟨hx, hvalue⟩
  have habs := abs_value_of_integer hvalue
  have hwhole := Binary.whole?_eq_some_iff.mpr ((abs_value_eq hx).symm.trans habs)
  have hsigned := value_eq_signed hx
  rw [habs, hvalue] at hsigned
  have hcast : ((if signBit x = true then -(n.natAbs : Int) else n.natAbs : Int) : ℚ) = n := by
    rw [hsigned, apply_ite (Int.cast : ℤ → ℚ), Int.cast_neg, Int.cast_natCast]
  rw [integer?_eq hx, hwhole, Option.map_some]
  exact congrArg some (by exact_mod_cast hcast)

end Integer

section Literal

inductive Plus : UnpackedFloat → Prop
  | zero : Plus (.zero .positive)
  | finite (m : Nat) (e : Int) (h : 0 < m) : Plus (.finite .positive m e h)
  | infinity : Plus (.infinity .positive)

variable {u : UnpackedFloat}

theorem Plus.components (h : Plus u) : ∃ (e : BitVec 11) (m : BitVec 52),
    pattern (packed u) = packComponents Format.binary64 .positive e m ∧
      (e = -1#11 → m = 0#52) := by
  cases h with
  | zero => exact ⟨0#11, 0#52, rfl, fun _ => rfl⟩
  | infinity => exact ⟨-1#11, 0#52, rfl, fun _ => rfl⟩
  | finite m e h =>
    have hbits : pattern (Double.packed (.finite .positive m e h)) =
        pack Format.binary64 (.finite .positive m e h) := rfl
    unfold pack at hbits
    dsimp only at hbits
    split at hbits
    · exact ⟨-1#11, 0#52, hbits, fun _ => rfl⟩
    · rename_i hfit
      split at hbits
      · refine ⟨_, _, hbits, fun hlargest => absurd ?_ hfit⟩
        have hnat := congrArg BitVec.toNat hlargest
        rw [BitVec.toNat_ofNat] at hnat
        change _ % 2 ^ 11 = 2047 at hnat
        change 2 ^ 11 ≤ _
        omega
      · exact ⟨_, _, hbits, fun hlargest => absurd hlargest (by decide)⟩

theorem Plus.signBit_packed (h : Plus u) : signBit (packed u) = false := by
  obtain ⟨e, m, hbits, -⟩ := h.components
  rw [signBit_eq_false_iff, hbits, unpackSign_packComponents, Sign.ofBitVec_toBitVec]

theorem Plus.isNaN_packed (h : Plus u) : (packed u).isNaN = false := by
  obtain ⟨e, m, hbits, hlargest⟩ := h.components
  have hreading := reading_pattern (packed u)
  have hnumber : (unpacked (packed u)).isNaN = false := by
    generalize unpacked (packed u) = v at hreading
    cases hreading with
    | notANumber he hm =>
      rw [hbits, unpackExponent_packComponents] at he
      rw [hbits, unpackMantissa_packComponents] at hm
      exact absurd (hlargest he) hm
    | infinity | zero | subnormal | normal => rfl
  exact hnumber

theorem plus_roundWithAccuracy (m : Nat) (e : Int) (a : Accuracy) :
    Plus (roundWithAccuracy Format.binary64 .positive m e a) := by
  unfold roundWithAccuracy
  dsimp only
  split
  · exact .zero
  · exact .finite _ _ _

theorem plus_ofScientific (n : Nat) (e : Int) :
    Plus (UnpackedFloat.ofScientific Format.binary64 n e) := by
  unfold UnpackedFloat.ofScientific
  split
  · exact .zero
  · split
    · exact .infinity
    · split
      · exact .zero
      · split
        · exact plus_roundWithAccuracy _ _ _
        · exact plus_roundWithAccuracy _ _ _

theorem plus_quotient {n k : Nat} {y : Float} (hn : n < 2 ^ 53) (hy : isPowerOfTen k y = true) :
    Plus (UnpackedFloat.div Format.binary64 (unpacked n.toUInt64.toFloat) (unpacked y)) := by
  obtain ⟨m, e, h, hu, -⟩ := unpacked_of_isPowerOfTen hy
  rw [hu]
  rcases eq_or_ne n 0 with rfl | hne
  · have hzero : unpacked (0 : Nat).toUInt64.toFloat = .zero .positive :=
      unpacked_packed (u := .zero .positive) trivial
    rw [hzero]
    exact .zero
  · obtain ⟨m', e', h', hu', -⟩ := unpacked_toFloat hne hn
    rw [hu']
    exact plus_roundWithAccuracy _ _ _

theorem exists_plus_ofScientific (n k : Nat) :
    ∃ u, Plus u ∧ Float.ofScientific n true k = packed u := by
  unfold Float.ofScientific
  split
  · rename_i h
    exact ⟨_, plus_quotient h.1 (isPowerOfTen_table ⟨k, by omega⟩), rfl⟩
  · exact ⟨_, plus_ofScientific _ _, rfl⟩

theorem signBit_ofScientific (n k : Nat) : signBit (Float.ofScientific n true k) = false := by
  obtain ⟨u, hu, heq⟩ := exists_plus_ofScientific n k
  rw [heq]
  exact hu.signBit_packed

theorem isNaN_ofScientific (n k : Nat) : (Float.ofScientific n true k).isNaN = false := by
  obtain ⟨u, hu, heq⟩ := exists_plus_ofScientific n k
  rw [heq]
  exact hu.isNaN_packed

end Literal

end Univariate.Decimal
