import Univariate.Decimal.Layout
import Univariate.Decimal.Literal
import Univariate.Proofs.Decimal.Shortest
import Univariate.Proofs.Double.Scientific

namespace Univariate.Decimal

open Univariate.Double
open Float.Model (UnpackedFloat Format)
open Float.Model.UnpackedFloat

namespace Digits

def whole (d : Digits) : List Char :=
  let ds := Nat.toDigits 10 d.value
  let places := (-d.exponent).toNat
  if 0 ≤ d.exponent then ds ++ List.replicate d.exponent.toNat '0'
  else if places < ds.length then ds.take (ds.length - places) else ['0']

def fraction (d : Digits) : List Char :=
  let ds := Nat.toDigits 10 d.value
  let places := (-d.exponent).toNat
  if 0 ≤ d.exponent then []
  else if places < ds.length then ds.drop (ds.length - places)
  else List.replicate (places - ds.length) '0' ++ ds

variable (d : Digits)

theorem length_fraction : d.fraction.length = (-d.exponent).toNat := by
  unfold fraction
  dsimp only
  split
  · rw [List.length_nil]
    omega
  · split
    · rw [List.length_drop]
      omega
    · rw [List.length_append, List.length_replicate]
      omega

theorem positional_eq :
    d.positional false = d.whole ++ (if d.fraction = [] then [] else '.' :: d.fraction) := by
  have hlength := d.length_fraction
  unfold positional whole
  dsimp only
  split
  · have hnil : d.fraction = [] := List.eq_nil_of_length_eq_zero (by omega)
    rw [hnil, if_pos rfl]
    rfl
  · rename_i hneg
    have hne : d.fraction ≠ [] := by
      intro h
      rw [h, List.length_nil] at hlength
      omega
    rw [if_neg hne]
    unfold fraction
    dsimp only
    rw [if_neg hneg]
    split
    · rfl
    · rfl

theorem whole_ne_nil : d.whole ≠ [] := by
  unfold whole
  dsimp only
  split
  · simp
  · split
    · simp only [ne_eq, List.take_eq_nil_iff, Nat.toDigits_ne_nil, or_false]
      omega
    · simp

theorem isDigit_toDigits {n : Nat} {c : Char} (h : c ∈ Nat.toDigits 10 n) : c.isDigit = true :=
  Nat.isDigit_of_mem_toDigits (by decide) (by decide) h

theorem isDigit_whole : ∀ c ∈ d.whole, c.isDigit = true := by
  intro c hc
  unfold whole at hc
  dsimp only at hc
  split at hc
  · rcases List.mem_append.mp hc with hc | hc
    · exact isDigit_toDigits hc
    · rw [List.eq_of_mem_replicate hc]
      rfl
  · split at hc
    · exact isDigit_toDigits (List.mem_of_mem_take hc)
    · rw [List.mem_singleton.mp hc]
      rfl

theorem isDigit_fraction : ∀ c ∈ d.fraction, c.isDigit = true := by
  intro c hc
  unfold fraction at hc
  dsimp only at hc
  split at hc
  · cases hc
  · split at hc
    · exact isDigit_toDigits (List.mem_of_mem_drop hc)
    · rcases List.mem_append.mp hc with hc | hc
      · rw [List.eq_of_mem_replicate hc]
        rfl
      · exact isDigit_toDigits hc

theorem value_eq_ofDigitChars (cs : List Char) : Literal.value cs = Nat.ofDigitChars 10 cs 0 := rfl

theorem value_toDigits (n : Nat) : Literal.value (Nat.toDigits 10 n) = n :=
  Nat.ofDigitChars_toDigits (by decide) (by decide)

theorem value_append (cs ds : List Char) :
    Literal.value (cs ++ ds) = 10 ^ ds.length * Literal.value cs + Literal.value ds := by
  rw [value_eq_ofDigitChars, Nat.ofDigitChars_append, Nat.ofDigitChars_eq_ofDigitChars_zero]
  rfl

theorem value_whole_append_fraction :
    Literal.value (d.whole ++ d.fraction) = d.value * 10 ^ d.exponent.toNat := by
  have hzeros : ∀ k, Literal.value (List.replicate k '0') = 0 := by
    intro k
    rw [value_eq_ofDigitChars, Nat.ofDigitChars_replicate_zero, Nat.mul_zero]
  unfold whole fraction
  dsimp only
  split
  · rw [List.append_nil, value_append, hzeros, value_toDigits, List.length_replicate,
      Nat.add_zero, Nat.mul_comm]
  · have hexp : d.exponent.toNat = 0 := by omega
    rw [hexp, Nat.pow_zero, Nat.mul_one]
    split
    · rw [List.take_append_drop, value_toDigits]
    · rw [← List.append_assoc, value_append, value_toDigits]
      rw [show ['0'] = List.replicate 1 '0' from rfl, List.replicate_append_replicate, hzeros,
        Nat.mul_zero, Nat.zero_add]

theorem rational_eq : (Literal.value (d.whole ++ d.fraction) : ℚ) / 10 ^ d.fraction.length =
    d.rational := by
  have hpow := zpow_mul_pow_neg (show (10 : ℚ) ≠ 0 by norm_num) d.exponent
  rw [value_whole_append_fraction, length_fraction, rational]
  push_cast
  rw [← hpow, ← mul_assoc]
  exact mul_div_cancel_right₀ _ (by positivity)

end Digits

section Bits

variable {x : Float}

def pattern (x : Float) : BitVec Format.binary64.numBits := x.toBits.toBitVec

theorem reading_pattern (x : Float) : Reading (pattern x) (unpacked x) :=
  reading_unpack x.toModel.toBits.toBitVec

theorem mantissa_bits (x : Float) :
    (x.toBits &&& 0xfffffffffffff).toNat = (unpackMantissa (pattern x)).toNat := by
  rw [toNat_unpackMantissa, UInt64.toNat_and]
  exact Nat.and_two_pow_sub_one_eq_mod _ 52

theorem exponent_bits (x : Float) :
    (x.toBits >>> 52 &&& 0x7ff).toNat = (unpackExponent (pattern x)).toNat := by
  rw [toNat_unpackExponent, UInt64.toNat_and, UInt64.toNat_shiftRight, Nat.shiftRight_eq_div_pow]
  exact Nat.and_two_pow_sub_one_eq_mod _ 11

theorem signBit_eq_false_iff : signBit x = false ↔
    Sign.ofBitVec (unpackSign (pattern x)) = .positive := by
  have hsign : (x.toBits >>> 63).toNat = (unpackSign (pattern x)).toNat := by
    rw [toNat_unpackSign, UInt64.toNat_shiftRight, Nat.shiftRight_eq_div_pow]
    rfl
  rw [signBit, bne_eq_false_iff_eq, ← UInt64.toNat_inj, hsign]
  generalize unpackSign (pattern x) = v
  rw [Sign.ofBitVec]
  by_cases hv : v = 0#1
  · rw [if_pos hv, hv]
    exact ⟨fun _ => rfl, fun _ => rfl⟩
  · rw [if_neg hv]
    constructor
    · intro h
      exact absurd (BitVec.eq_of_toNat_eq (y := 0#1) h) hv
    · intro h
      cases h

inductive Unsigned : UnpackedFloat → Prop
  | zero : Unsigned (.zero .positive)
  | finite (m : Nat) (e : Int) (h : 0 < m) : Unsigned (.finite .positive m e h)

theorem unsigned_iff : Unsigned (unpacked x) ↔ x.isFinite = true ∧ signBit x = false := by
  have hr := reading_pattern x
  rw [signBit_eq_false_iff, isFinite_eq]
  revert hr
  generalize unpacked x = u
  intro hr
  cases hr with
  | infinity => exact ⟨fun h => (nomatch h), fun h => (nomatch h.1)⟩
  | notANumber => exact ⟨fun h => (nomatch h), fun h => (nomatch h.1)⟩
  | zero =>
    generalize Sign.ofBitVec (unpackSign _) = s
    constructor
    · intro h
      cases h
      exact ⟨rfl, rfl⟩
    · intro h
      rw [h.2]
      exact .zero
  | subnormal hpos =>
    generalize Sign.ofBitVec (unpackSign _) = s
    constructor
    · intro h
      cases h
      exact ⟨rfl, rfl⟩
    · intro h
      rw [h.2]
      exact .finite _ _ hpos
  | normal hpos =>
    generalize Sign.ofBitVec (unpackSign _) = s
    constructor
    · intro h
      cases h
      exact ⟨rfl, rfl⟩
    · intro h
      rw [h.2]
      exact .finite _ _ hpos

theorem ofFloat_of_unpacked {s : Sign} {m : Nat} {e : Int} {h : 0 < m}
    (hx : unpacked x = .finite s m e h) : Binary.ofFloat x = ⟨m, e⟩ := by
  have hr := reading_pattern x
  rw [hx] at hr
  rw [Binary.ofFloat, Binary.ofBits]
  simp only [mantissa_bits, exponent_bits, Nat.pow_eq]
  cases hr with
  | subnormal hpos hexp =>
    rw [hexp]
    rfl
  | normal hpos hexp =>
    rw [if_neg hexp.ne']

theorem ofFloat_of_zero {s : Sign} (hx : unpacked x = .zero s) :
    (Binary.ofFloat x).mantissa = 0 := by
  have hr := reading_pattern x
  rw [hx] at hr
  rw [Binary.ofFloat, Binary.ofBits]
  simp only [mantissa_bits, exponent_bits]
  generalize hu : UnpackedFloat.zero s = u at hr
  cases hr with
  | infinity => cases hu
  | notANumber => cases hu
  | zero hexp hman =>
    rw [hexp, hman]
    rfl
  | subnormal => cases hu
  | normal => cases hu

theorem Unsigned.not_special {u : UnpackedFloat} (h : Unsigned u) :
    u.isNaN = false ∧ u.isInf = false := by
  cases h <;> exact ⟨rfl, rfl⟩

end Bits

def whole (x : Float) : List Char := (Binary.ofFloat x).shortest.whole

def fraction (x : Float) : List Char := (Binary.ofFloat x).shortest.fraction

section Text

variable {x : Float}

theorem plain_eq (hx : Unsigned (unpacked x)) :
    plain x = whole x ++ (if fraction x = [] then [] else '.' :: fraction x) := by
  have hsign : signBit x = false := (unsigned_iff.mp hx).2
  have hnan : x.isNaN = false := hx.not_special.1
  have hinf : x.isInf = false := hx.not_special.2
  simp only [plain, Layout.write, hnan, hinf, signed, hsign, Bool.false_eq_true, if_false]
  exact Digits.positional_eq _

theorem whole_ne_nil (x : Float) : whole x ≠ [] := Digits.whole_ne_nil _

theorem isEmpty_whole (x : Float) : (whole x).isEmpty = false :=
  List.isEmpty_eq_false_iff.mpr (whole_ne_nil x)

theorem plain_ne_nil (hx : Unsigned (unpacked x)) : plain x ≠ [] := by
  rw [plain_eq hx]
  exact List.append_ne_nil_of_left_ne_nil (whole_ne_nil x) _

theorem isDigit_whole (x : Float) : ∀ c ∈ whole x, c.isDigit = true := Digits.isDigit_whole _

theorem isDigit_fraction (x : Float) : ∀ c ∈ fraction x, c.isDigit = true :=
  Digits.isDigit_fraction _

theorem canonical_of_unpacked {s : Sign} {m : Nat} {e : Int} {h : 0 < m}
    (hx : unpacked x = .finite s m e h) : Canonical (.finite s m e h) := by
  rw [← hx]
  exact canonical_unpacked x

theorem decimal_whole_fraction (hx : Unsigned (unpacked x)) :
    Literal.decimal (whole x) (fraction x) = x := by
  apply eq_of_unpacked
  generalize hu : unpacked x = u at hx
  cases hx with
  | zero =>
    have hzero : (Binary.ofFloat x).shortest = ⟨0, 0⟩ := if_pos (ofFloat_of_zero hu)
    rw [whole, fraction, hzero]
    exact unpacked_packed (u := .zero .positive) trivial
  | finite m e h =>
    have hb := ofFloat_of_unpacked hu
    have hround := Binary.roundsTo_shortest (b := ⟨m, e⟩) h
    rw [← Digits.rational_eq] at hround
    have hne : Literal.value ((Binary.shortest ⟨m, e⟩).whole ++ (Binary.shortest ⟨m, e⟩).fraction) ≠
        0 := by
      intro hzero
      have hlower := hround.lower (canonical_of_unpacked hu)
      rw [hzero, Nat.cast_zero, zero_div] at hlower
      exact absurd hlower (not_le.mpr (by positivity))
    rw [whole, fraction, hb]
    exact unpacked_ofScientific hne (canonical_of_unpacked hu) hround

theorem fraction_eq_nil_iff (hx : Unsigned (unpacked x)) :
    fraction x = [] ↔ ∃ n : Nat, value x = n := by
  generalize hu : unpacked x = u at hx
  cases hx with
  | zero =>
    have hzero : (Binary.ofFloat x).shortest = ⟨0, 0⟩ := if_pos (ofFloat_of_zero hu)
    have hvalue : value x = (0 : Nat) := by
      rw [value, hu, Nat.cast_zero]
      rfl
    rw [fraction, hzero]
    exact iff_of_true rfl ⟨0, hvalue⟩
  | finite m e h =>
    have hlt : m < 2 ^ 53 := (canonical_of_unpacked hu).1
    rw [← List.length_eq_zero_iff, fraction, ofFloat_of_unpacked hu, Digits.length_fraction,
      Int.toNat_eq_zero, Int.neg_nonpos_iff, Binary.shortest_exponent_nonneg_iff h hlt, value, hu,
      rational_positive]

theorem value_whole_le (d : Digits) : (Literal.value d.whole : ℚ) ≤ d.rational := by
  rw [← Digits.rational_eq, Digits.value_append, le_div_iff₀ (by positivity)]
  push_cast
  have : (0 : ℚ) ≤ Literal.value d.fraction := Nat.cast_nonneg _
  linarith

section Natural

variable {cs : List Char}

theorem unpacked_decimal_zero (h : Literal.value cs = 0) :
    unpacked (Literal.decimal cs []) = .zero .positive := by
  rw [Literal.decimal, List.append_nil, List.length_nil, h]
  exact unpacked_packed (u := .zero .positive) trivial

theorem unpacked_decimal (hne : Literal.value cs ≠ 0) (hlt : Literal.value cs < 2 ^ 53) :
    ∃ h, unpacked (Literal.decimal cs []) = .finite .positive
        (Literal.value cs <<< (52 - (Literal.value cs).log2)) ((Literal.value cs).log2 - 52) h ∧
      ((Literal.value cs <<< (52 - (Literal.value cs).log2) : Nat) : ℚ) *
        2 ^ (((Literal.value cs).log2 : Int) - 52) = Literal.value cs := by
  rw [Literal.decimal, List.append_nil, List.length_nil]
  generalize Literal.value cs = n at hne hlt
  obtain ⟨hm, hc, hvalue⟩ := canonical_nat hne hlt
  have hround := roundsTo_self (n <<< (52 - n.log2)) ((n.log2 : Int) - 52)
  rw [hvalue] at hround
  have hdiv : (n : ℚ) / 10 ^ 0 = n := by rw [pow_zero, div_one]
  rw [← hdiv] at hround
  exact ⟨hm, unpacked_ofScientific hne hc hround, hvalue⟩

theorem value_decimal_natural (h : Literal.value cs < 2 ^ 53) :
    value (Literal.decimal cs []) = Literal.value cs := by
  by_cases hn : Literal.value cs = 0
  · rw [value, unpacked_decimal_zero hn, hn, Nat.cast_zero]
    rfl
  · obtain ⟨hm, hunpacked, hvalue⟩ := unpacked_decimal hn h
    rw [value, hunpacked, rational_positive, hvalue]

theorem whole?_shifted {n : Nat} (hn : n ≠ 0) (hlt : n < 2 ^ 53) :
    (⟨n <<< (52 - n.log2), (n.log2 : Int) - 52⟩ : Binary).whole? = some n := by
  have hlog : n.log2 < 53 := (Nat.log2_lt hn).mpr hlt
  unfold Binary.whole?
  simp only [Nat.pow_eq, Nat.shiftLeft_eq]
  split
  · have hexp : ((n.log2 : Int) - 52).toNat = 0 := by omega
    have hshift : 52 - n.log2 = 0 := by omega
    rw [hexp, hshift, pow_zero, mul_one, mul_one]
  · have hexp : (-((n.log2 : Int) - 52)).toNat = 52 - n.log2 := by omega
    rw [hexp, if_pos (Nat.mul_mod_left _ _), Nat.mul_div_cancel _ (Nat.two_pow_pos _)]

theorem unsigned_decimal (h : Literal.value cs < 2 ^ 53) :
    Unsigned (unpacked (Literal.decimal cs [])) := by
  by_cases hn : Literal.value cs = 0
  · rw [unpacked_decimal_zero hn]
    exact .zero
  · obtain ⟨hm, hunpacked, -⟩ := unpacked_decimal hn h
    rw [hunpacked]
    exact .finite _ _ hm

theorem integer?_decimal (h : Literal.value cs < 2 ^ 53) :
    integer? (Literal.decimal cs []) = some (Literal.value cs : Int) := by
  obtain ⟨hfinite, hsign⟩ := unsigned_iff.mp (unsigned_decimal h)
  have hwhole : (Binary.ofFloat (Literal.decimal cs [])).whole? = some (Literal.value cs) := by
    by_cases hn : Literal.value cs = 0
    · have hmantissa := ofFloat_of_zero (unpacked_decimal_zero hn)
      simp [Binary.whole?, hmantissa, hn]
    · obtain ⟨hm, hunpacked, -⟩ := unpacked_decimal hn h
      rw [ofFloat_of_unpacked hunpacked, whole?_shifted hn h]
  rw [integer?, if_pos hfinite, hwhole, hsign]
  rfl

end Natural

theorem value_whole_lt (hx : Unsigned (unpacked x)) (hx' : ¬∃ n : Nat, value x = n) :
    Literal.value (whole x) < 2 ^ 53 := by
  generalize hu : unpacked x = u at hx
  cases hx with
  | zero =>
    refine absurd ⟨0, ?_⟩ hx'
    rw [value, hu, Nat.cast_zero]
    rfl
  | finite m e h =>
    have hm : m < 2 ^ 53 := (canonical_of_unpacked hu).1
    have he : e < 0 := by
      by_contra he
      rw [value, hu, rational_positive] at hx'
      exact hx' (Binary.exists_natCast_of_nonneg (a := 2) (not_lt.mp he) (by decide))
    have hhigh := (Binary.roundsTo_shortest (b := ⟨m, e⟩) h).bounds.2
    have hle := value_whole_le (Binary.shortest ⟨m, e⟩)
    have hpow : (2 : ℚ) ^ e ≤ 1 := zpow_le_one_of_nonpos₀ one_le_two he.le
    rw [div_le_iff₀ (by positivity)] at hhigh
    have hm' : (m : ℚ) + 1 ≤ 2 ^ 53 := by exact_mod_cast hm
    have hlt : (Literal.value (whole x) : ℚ) < 2 ^ 53 := by
      rw [whole, ofFloat_of_unpacked hu]
      have hm0 : (0 : ℚ) ≤ m := Nat.cast_nonneg m
      nlinarith
    exact_mod_cast hlt

theorem decimal_whole_eq_iff (hx : Unsigned (unpacked x)) :
    Literal.decimal (whole x) [] = x ↔ ∃ n : Nat, value x = n := by
  constructor
  · intro heq
    by_contra hx'
    have hvalue := value_decimal_natural (value_whole_lt hx hx')
    rw [heq] at hvalue
    exact hx' ⟨_, hvalue⟩
  · intro hx'
    have hback := decimal_whole_fraction hx
    rw [(fraction_eq_nil_iff hx).mpr hx'] at hback
    exact hback

end Text

end Univariate.Decimal
