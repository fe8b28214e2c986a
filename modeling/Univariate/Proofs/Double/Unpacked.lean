import Mathlib
import Univariate.Scalar

namespace Univariate.Double

open Float.Model (UnpackedFloat Format)
open Float.Model.UnpackedFloat

def unpacked (x : Float) : UnpackedFloat := x.toModel.unpack

def packed (u : UnpackedFloat) : Float := .ofModel (.pack u)

/-- A number that is packed without loss: with 53 binary digits, or fewer at the least exponent. -/
def Canonical : UnpackedFloat → Prop
  | .finite _ m e _ => m < 2 ^ 53 ∧ -1074 ≤ e ∧ e ≤ 971 ∧ (2 ^ 52 ≤ m ∨ e = -1074)
  | _ => True

section Components

variable (b : BitVec Format.binary64.numBits)

theorem toNat_unpackMantissa : (unpackMantissa b).toNat = b.toNat % 2 ^ 52 := by
  simp [unpackMantissa]

theorem toNat_unpackExponent : (unpackExponent b).toNat = b.toNat / 2 ^ 52 % 2 ^ 11 := by
  simp [unpackExponent, Nat.shiftRight_eq_div_pow]

theorem toNat_unpackSign : (unpackSign b).toNat = b.toNat / 2 ^ 63 := by
  have : b.toNat < 2 ^ 64 := b.isLt
  simp [unpackSign, Nat.shiftRight_eq_div_pow]
  omega

theorem pack_infinity (s : Sign) :
    pack Format.binary64 (.infinity s) = packComponents Format.binary64 s (-1#11) 0#52 := rfl

theorem pack_zero (s : Sign) :
    pack Format.binary64 (.zero s) = packComponents Format.binary64 s 0#11 0#52 := rfl

theorem pack_finite (s : Sign) (m : Nat) (e : Int) (hm : 0 < m)
    (h : Canonical (.finite s m e hm)) :
    pack Format.binary64 (.finite s m e hm) =
      packComponents Format.binary64 s
        (BitVec.ofNat 11 (if 2 ^ 52 ≤ m then (e + 1075).toNat else 0)) (BitVec.ofNat 52 m) := by
  obtain ⟨hlt, hle, hge, hnormal⟩ := h
  have hbias : (e + Format.binary64.exponentBias + Format.binary64.mantissaBitsWithoutImplicit) =
      e + 1075 := by
    simp [Format.exponentBias]
    omega
  have hfit : ¬ 2 ^ 11 ≤ (e + 1075).toNat + 1 := by omega
  simp only [pack, hbias, hfit, if_false]
  by_cases hn : 2 ^ 52 ≤ m
  · have hlog : m.log2 + 1 = Format.binary64.mantissaBits := by
      have h1 := (Nat.le_log2 (Nat.ne_of_gt hm)).mpr hn
      have h2 := (Nat.log2_lt (Nat.ne_of_gt hm)).mpr hlt
      simp only [Format.mantissaBits]
      omega
    rw [if_pos hlog, if_pos hn]
  · have hlog : ¬ m.log2 + 1 = Format.binary64.mantissaBits := by
      have h2 := (Nat.log2_lt (Nat.ne_of_gt hm)).mpr (Nat.lt_of_not_le hn)
      simp only [Format.mantissaBits]
      omega
    rw [if_neg hlog, if_neg hn]

inductive Reading (b : BitVec Format.binary64.numBits) : UnpackedFloat → Prop
  | infinity : unpackExponent b = -1#11 → unpackMantissa b = 0#52 →
      Reading b (.infinity (Sign.ofBitVec (unpackSign b)))
  | notANumber : unpackExponent b = -1#11 → unpackMantissa b ≠ 0#52 → Reading b .notANumber
  | zero : unpackExponent b = 0#11 → unpackMantissa b = 0#52 →
      Reading b (.zero (Sign.ofBitVec (unpackSign b)))
  | subnormal (h : 0 < (unpackMantissa b).toNat) : unpackExponent b = 0#11 →
      unpackMantissa b ≠ 0#52 →
      Reading b (.finite (Sign.ofBitVec (unpackSign b)) (unpackMantissa b).toNat (-1074) h)
  | normal (h : 0 < 2 ^ 52 + (unpackMantissa b).toNat) : 0 < (unpackExponent b).toNat →
      (unpackExponent b).toNat < 2047 →
      Reading b (.finite (Sign.ofBitVec (unpackSign b)) (2 ^ 52 + (unpackMantissa b).toNat)
        ((unpackExponent b).toNat - 1075) h)

theorem reading_unpack : Reading b (unpack Format.binary64 b) := by
  have he : (unpackExponent b).toNat < 2048 := (unpackExponent b).isLt
  have hm : (unpackMantissa b).toNat < 2 ^ 52 := (unpackMantissa b).isLt
  have hbias : ((unpackExponent b).toNat : Int) -
      ((Format.binary64.exponentBias : Int) + Format.binary64.mantissaBitsWithoutImplicit) =
      (unpackExponent b).toNat - 1075 := by
    simp [Format.exponentBias]
  unfold unpack
  simp only [hbias]
  split
  · rename_i hexp
    split
    · exact .infinity hexp ‹_›
    · exact .notANumber hexp ‹_›
  · rename_i hinf
    have hinf' : (unpackExponent b).toNat ≠ 2047 := fun h => hinf (BitVec.eq_of_toNat_eq h)
    split
    · rename_i hexp
      split
      · exact .zero hexp ‹_›
      · simp only [hexp, BitVec.toNat_zero]
        exact .subnormal _ hexp ‹_›
    · rename_i hzero
      have hzero' : (unpackExponent b).toNat ≠ 0 := fun h => hzero (BitVec.eq_of_toNat_eq h)
      have happend : (1#1 ++ unpackMantissa b).toNat = 2 ^ 52 + (unpackMantissa b).toNat := by
        rw [BitVec.toNat_append, ← Nat.shiftLeft_add_eq_or_of_lt hm]
        rfl
      simp only [happend]
      exact .normal _ (by omega) (by omega)

variable {b}
variable {u u' : UnpackedFloat}

theorem Reading.canonical (h : Reading b u) : Canonical u := by
  have hm : (unpackMantissa b).toNat < 2 ^ 52 := (unpackMantissa b).isLt
  cases h with
  | infinity | notANumber | zero => trivial
  | subnormal => exact ⟨by omega, by omega, by omega, .inr rfl⟩
  | normal => exact ⟨by omega, by omega, by omega, .inl (by omega)⟩

theorem Reading.unique (h : Reading b u) (h' : Reading b u') : u = u' := by
  cases h <;> cases h' <;> simp_all

theorem reading_pack (h : Canonical u) : Reading (pack Format.binary64 u) u := by
  cases u with
  | infinity s =>
    have := Reading.infinity (b := packComponents Format.binary64 s (-1#11) 0#52)
    simpa [unpackSign_packComponents, Sign.ofBitVec_toBitVec, pack_infinity] using this
  | notANumber =>
    exact .notANumber (by simp [pack, packedNaN]) (by simp [pack, packedNaN])
  | zero s =>
    have := Reading.zero (b := packComponents Format.binary64 s 0#11 0#52)
    simpa [unpackSign_packComponents, Sign.ofBitVec_toBitVec, pack_zero] using this
  | finite s m e hm =>
    rw [pack_finite _ _ _ _ h]
    obtain ⟨hlt, hle, hge, hnormal⟩ := h
    by_cases hn : 2 ^ 52 ≤ m
    · have hM : 2 ^ 52 + (BitVec.ofNat 52 m).toNat = m := by
        rw [BitVec.toNat_ofNat]
        omega
      have hE : (BitVec.ofNat 11 (e + 1075).toNat).toNat = (e + 1075).toNat := by
        rw [BitVec.toNat_ofNat]
        omega
      have hE' : ((e + 1075).toNat : Int) - 1075 = e := by omega
      have := Reading.normal (b := packComponents Format.binary64 s
        (BitVec.ofNat 11 (e + 1075).toNat) (BitVec.ofNat 52 m))
      simp only [unpackMantissa_packComponents, unpackExponent_packComponents,
        unpackSign_packComponents, Sign.ofBitVec_toBitVec, hM, hE, hE'] at this
      rw [if_pos hn]
      exact this hm (by omega) (by omega)
    · have hM : (BitVec.ofNat 52 m).toNat = m := by
        rw [BitVec.toNat_ofNat]
        omega
      have hne : BitVec.ofNat 52 m ≠ 0#52 := fun h => by
        rw [h] at hM
        exact absurd hM.symm (Nat.ne_of_gt hm)
      obtain rfl : e = -1074 := hnormal.resolve_left hn
      have := Reading.subnormal (b := packComponents Format.binary64 s 0#11 (BitVec.ofNat 52 m))
      simp only [unpackMantissa_packComponents, unpackExponent_packComponents,
        unpackSign_packComponents, Sign.ofBitVec_toBitVec, hM] at this
      rw [if_neg hn]
      exact this hm trivial hne

end Components

theorem packed_unpacked (x : Float) : packed (unpacked x) = x := by
  have := pack_unpack_of_valid x.toModel.valid
  cases x
  simp only [packed, unpacked, Float.Model.pack, Float.Model.unpack] at this ⊢
  simp only [this]

theorem canonical_unpacked (x : Float) : Canonical (unpacked x) :=
  (reading_unpack _).canonical

theorem unpacked_packed {u : UnpackedFloat} (h : Canonical u) : unpacked (packed u) = u :=
  (reading_unpack _).unique (reading_pack h)

section Operations

variable (x y : Float)

theorem add_eq : x + y = packed (.add Format.binary64 (unpacked x) (unpacked y)) := rfl

theorem sub_eq : x - y = packed (.sub Format.binary64 (unpacked x) (unpacked y)) := rfl

theorem mul_eq : x * y = packed (.mul Format.binary64 (unpacked x) (unpacked y)) := rfl

theorem div_eq : x / y = packed (.div Format.binary64 (unpacked x) (unpacked y)) := rfl

theorem sqrt_eq : x.sqrt = packed (.sqrt Format.binary64 (unpacked x)) := rfl

theorem isFinite_eq : x.isFinite = (unpacked x).isFinite := rfl

theorem lt_iff : x < y ↔ (unpacked x).compare (unpacked y) = some .lt := by
  have h : x < y ↔ (x.toModel.lt y.toModel) = true := decide_eq_true_iff
  rw [h]
  exact beq_iff_eq

theorem le_iff : x ≤ y ↔ ((unpacked x).compare (unpacked y)).any Ordering.isLE = true :=
  decide_eq_true_iff

theorem beq_iff : (x == y) = true ↔ (unpacked x).compare (unpacked y) = some .eq := by
  have h : (x == y) = true ↔ ((unpacked x).compare (unpacked y) == some .eq) = true := Iff.rfl
  rw [h]
  exact beq_iff_eq

theorem unpacked_zero : unpacked 0 = .zero .positive :=
  unpacked_packed (u := .zero .positive) trivial

theorem Canonical.neg {u : UnpackedFloat} (h : Canonical u) : Canonical u.neg := by
  cases u <;> exact h

theorem Canonical.abs {u : UnpackedFloat} (h : Canonical u) : Canonical u.abs := by
  cases u <;> exact h

theorem unpacked_neg : unpacked (-x) = (unpacked x).neg :=
  unpacked_packed (canonical_unpacked x).neg

theorem unpacked_abs : unpacked x.abs = (unpacked x).abs :=
  unpacked_packed (canonical_unpacked x).abs

theorem eq_of_unpacked {x y : Float} (h : unpacked x = unpacked y) : x = y := by
  rw [← packed_unpacked x, h, packed_unpacked]

end Operations

end Univariate.Double
