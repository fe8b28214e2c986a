import Univariate.Proofs.Double.Nonnegative
import Univariate.Proofs.Double.Rounding

namespace Univariate.Double

open Float.Model (UnpackedFloat Format totalExponent)
open Float.Model.UnpackedFloat

theorem reads_fraction (n : Nat) {num den : Nat} (h : num < den) :
    Reads (ExtendedMantissa.ofMantissaAndAccuracy n (accuracyOfFraction num den))
      (n + (num : ℚ) / den) := by
  have hden : (0 : ℚ) < den := by exact_mod_cast Nat.zero_lt_of_lt h
  unfold accuracyOfFraction
  by_cases hzero : num = 0
  · rw [if_pos hzero, hzero, Nat.cast_zero, zero_div, add_zero]
    exact .exact n
  · have hnum : (0 : ℚ) < num := by exact_mod_cast Nat.pos_of_ne_zero hzero
    have hfrac : (0 : ℚ) < num / den := div_pos hnum hden
    rw [if_neg hzero]
    rcases lt_trichotomy (2 * num) den with hlt | heq | hgt
    · rw [compare_lt_iff_lt.mpr hlt]
      have hhalf : (num : ℚ) / den < 1 / 2 := by
        have : (2 : ℚ) * num < den := by exact_mod_cast hlt
        rw [div_lt_iff₀ hden]
        linarith
      exact .low (by linarith) (by linarith)
    · rw [compare_eq_iff_eq.mpr heq]
      have hhalf : (num : ℚ) / den = 1 / 2 := by
        have : (2 : ℚ) * num = den := by exact_mod_cast heq
        rw [div_eq_iff hden.ne']
        linarith
      rw [hhalf]
      exact .half n
    · rw [compare_gt_iff_gt.mpr hgt]
      have hhalf : 1 / 2 < (num : ℚ) / den := by
        have : (den : ℚ) < 2 * num := by exact_mod_cast hgt
        rw [lt_div_iff₀ hden]
        linarith
      have hone : (num : ℚ) / den < 1 := by
        rw [div_lt_one hden]
        exact_mod_cast h
      exact .high (by linarith) (by linarith)

theorem log2_mul_two_pow {n : Nat} (k : Nat) (h : n ≠ 0) : (n <<< k).log2 = n.log2 + k := by
  have hlow := Nat.log2_self_le h
  have hhigh : n < 2 ^ (n.log2 + 1) := Nat.lt_log2_self
  have hpos : 0 < 2 ^ k := Nat.two_pow_pos k
  rw [Nat.shiftLeft_eq, Nat.log2_eq_iff (Nat.mul_ne_zero h hpos.ne')]
  rw [show n.log2 + k + 1 = n.log2 + 1 + k by omega, Nat.pow_add, Nat.pow_add _ _ k]
  exact ⟨Nat.mul_le_mul_right _ hlow, Nat.mul_lt_mul_of_pos_right hhigh hpos⟩

section Division

variable {m₁ m₂ m : Nat} {e₁ e₂ e : Int} {h₁ : 0 < m₁} {h₂ : 0 < m₂} {h : 0 < m}

theorem quotient_le_cutExponent {t : Int}
    (ht : t ≤ e₁ - e₂) (ht' : t ≤ max (m₁.log2 + e₁ - (m₂.log2 + e₂) - 53) (-1074))
    (h₁ : 0 < m₁) (h₂ : 0 < m₂) :
    t ≤ cutExponent (m₁ <<< (e₁ - e₂ - t).toNat / m₂) t := by
  unfold cutExponent
  by_cases hsub : t ≤ -1074
  · omega
  · have hshift : m₂.log2 + 53 ≤ m₁.log2 + (e₁ - e₂ - t).toNat := by omega
    have hlog := log2_mul_two_pow (e₁ - e₂ - t).toNat h₁.ne'
    have hlarge : 2 ^ 52 ≤ m₁ <<< (e₁ - e₂ - t).toNat / m₂ := by
      rw [Nat.le_div_iff_mul_le h₂]
      have hm₂ : m₂ < 2 ^ (m₂.log2 + 1) := Nat.lt_log2_self
      have hm₁ : 2 ^ (m₁.log2 + (e₁ - e₂ - t).toNat) ≤ m₁ <<< (e₁ - e₂ - t).toNat := by
        rw [← hlog]
        exact Nat.log2_self_le (by rw [Nat.shiftLeft_eq]; positivity)
      calc 2 ^ 52 * m₂ ≤ 2 ^ 52 * 2 ^ (m₂.log2 + 1) := Nat.mul_le_mul_left _ hm₂.le
        _ = 2 ^ (m₂.log2 + 53) := by rw [← Nat.pow_add]; congr 1; omega
        _ ≤ 2 ^ (m₁.log2 + (e₁ - e₂ - t).toNat) := Nat.pow_le_pow_right (by decide) hshift
        _ ≤ m₁ <<< (e₁ - e₂ - t).toNat := hm₁
    have hlog' : 52 ≤ (m₁ <<< (e₁ - e₂ - t).toNat / m₂).log2 :=
      (Nat.le_log2 (by omega)).mpr hlarge
    omega

theorem div_eq_of_roundsTo (hc : Canonical (.finite .positive m e h))
    (hv : RoundsTo (m₁ * 2 ^ e₁ / (m₂ * 2 ^ e₂)) m e) :
    UnpackedFloat.div Format.binary64 (.finite .positive m₁ e₁ h₁) (.finite .positive m₂ e₂ h₂) =
      .finite .positive m e h := by
  have hm₂ : (m₂ : ℚ) ≠ 0 := by exact_mod_cast h₂.ne'
  simp only [UnpackedFloat.div, divCore]
  generalize ht : min (e₁ - e₂)
    (Format.binary64.targetExponent (totalExponent m₁ e₁ - totalExponent m₂ e₂)) = t
  have hle : t ≤ e₁ - e₂ := by omega
  have hcut : t ≤ cutExponent (m₁ <<< (e₁ - e₂ - t).toNat / m₂) t := by
    apply quotient_le_cutExponent hle _ h₁ h₂
    simp only [Format.targetExponent, totalExponent, Format.mantissaBits, Format.minExponent] at ht
    omega
  apply roundWithAccuracy_eq hc hv _ hcut
  have hread := reads_fraction (m₁ <<< (e₁ - e₂ - t).toNat / m₂)
    (Nat.mod_lt (m₁ <<< (e₁ - e₂ - t).toNat) h₂)
  have hdiv : ((m₁ <<< (e₁ - e₂ - t).toNat / m₂ : Nat) : ℚ) +
      (m₁ <<< (e₁ - e₂ - t).toNat % m₂ : Nat) / m₂ = (m₁ <<< (e₁ - e₂ - t).toNat : Nat) / m₂ := by
    rw [eq_div_iff hm₂, add_mul, div_mul_cancel₀ _ hm₂]
    exact_mod_cast Nat.div_add_mod' _ _
  have hshift : ((m₁ <<< (e₁ - e₂ - t).toNat : Nat) : ℚ) = m₁ * 2 ^ (e₁ - e₂ - t) := by
    rw [Nat.shiftLeft_eq, Nat.cast_mul, Nat.cast_pow, Nat.cast_ofNat, ← zpow_natCast,
      Int.toNat_of_nonneg (by omega)]
  have hvalue : (m₁ * 2 ^ e₁ / (m₂ * 2 ^ e₂) : ℚ) / 2 ^ t = m₁ * 2 ^ (e₁ - e₂ - t) / m₂ := by
    rw [zpow_sub₀ two_ne_zero, zpow_sub₀ two_ne_zero]
    field_simp
  rw [hvalue, ← hshift, ← hdiv]
  exact hread

end Division

section Scientific

variable {n k m : Nat} {e : Int} {h : 0 < m}

theorem canonical_nat (hn : n ≠ 0) (hlt : n < 2 ^ 53) :
    ∃ h, Canonical (.finite .positive (n <<< (52 - n.log2)) (n.log2 - 52) h) ∧
      ((n <<< (52 - n.log2) : Nat) : ℚ) * 2 ^ ((n.log2 : Int) - 52) = n := by
  have hlog : n.log2 < 53 := (Nat.log2_lt hn).mpr hlt
  have hlog' := log2_mul_two_pow (52 - n.log2) hn
  have hne : n <<< (52 - n.log2) ≠ 0 := by
    rw [Nat.shiftLeft_eq]
    exact Nat.mul_ne_zero hn (Nat.two_pow_pos _).ne'
  have hlow : 2 ^ 52 ≤ n <<< (52 - n.log2) := (Nat.le_log2 hne).mp (by omega)
  have hhigh : n <<< (52 - n.log2) < 2 ^ 53 := (Nat.log2_lt hne).mp (by omega)
  refine ⟨Nat.pos_of_ne_zero hne, ⟨hhigh, by omega, by omega, .inl hlow⟩, ?_⟩
  have hexp : ((52 - n.log2 : Nat) : Int) + (n.log2 - 52) = 0 := by omega
  rw [Nat.shiftLeft_eq, Nat.cast_mul, Nat.cast_pow, Nat.cast_ofNat, ← zpow_natCast, mul_assoc,
    ← zpow_add₀ two_ne_zero, hexp, zpow_zero, mul_one]

theorem ofNat_eq {h : 0 < n <<< (52 - n.log2)} (hn : n ≠ 0) (hlt : n < 2 ^ 53)
    (hc : Canonical (.finite .positive (n <<< (52 - n.log2)) (n.log2 - 52) h)) :
    UnpackedFloat.ofNat Format.binary64 n =
      .finite .positive (n <<< (52 - n.log2)) (n.log2 - 52) h := by
  have hlog : n.log2 < 53 := (Nat.log2_lt hn).mpr hlt
  have hpos : (n : Int) > 0 := by omega
  have hcut : cutExponent n 0 = n.log2 - 52 := by
    unfold cutExponent
    omega
  have hshift : (0 - ((n.log2 : Int) - 52)).toNat = 52 - n.log2 := by omega
  have hexp : (0 : Int) - ((52 - n.log2 : Nat) : Int) = n.log2 - 52 := by omega
  rw [UnpackedFloat.ofNat, UnpackedFloat.ofInt, UnpackedFloat.normalize,
    compare_gt_iff_gt.mpr hpos]
  simp only [UnpackedFloat.round, decreaseExponent, Int.toNat_natCast, targetExponent_eq, hcut, hshift, hexp]
  exact roundWithAccuracy_exact hc (roundsTo_self _ _) (cutExponent_of_canonical hc).ge

theorem unpacked_toFloat (hn : n ≠ 0) (hlt : n < 2 ^ 53) :
    ∃ m e h, unpacked n.toUInt64.toFloat = .finite .positive m e h ∧
      Canonical (.finite .positive m e h) ∧ (m : ℚ) * 2 ^ e = n := by
  obtain ⟨h, hc, hvalue⟩ := canonical_nat hn hlt
  refine ⟨_, _, h, ?_, hc, hvalue⟩
  have hsize : n.toUInt64.toNat = n := UInt64.toNat_ofNat_of_lt (by unfold UInt64.size; omega)
  have hfloat : n.toUInt64.toFloat = packed (UnpackedFloat.ofNat Format.binary64 n) := by
    change packed (UnpackedFloat.ofNat Format.binary64 n.toUInt64.toNat) = _
    rw [hsize]
  rw [hfloat, ofNat_eq hn hlt hc, unpacked_packed hc]

def isPowerOfTen (k : Nat) (x : Float) : Bool :=
  match unpacked x with
  | .finite .positive m e _ => m * 2 ^ e.toNat == 10 ^ k * 2 ^ (-e).toNat
  | _ => false

theorem isPowerOfTen_table : ∀ k : Fin 23, isPowerOfTen k
    (getElem Float.exactlyRepresentablePowersOfTen (k : Nat) k.isLt) = true := by
  decide +kernel

theorem unpacked_of_isPowerOfTen {x : Float} (hx : isPowerOfTen k x = true) :
    ∃ m e h, unpacked x = .finite .positive m e h ∧ (m : ℚ) * 2 ^ e = 10 ^ k := by
  unfold isPowerOfTen at hx
  split at hx
  · rename_i m e h hu
    refine ⟨m, e, h, hu, ?_⟩
    have heq : m * 2 ^ e.toNat = 10 ^ k * 2 ^ (-e).toNat := eq_of_beq hx
    have heq : (m : ℚ) * 2 ^ e.toNat = 10 ^ k * 2 ^ (-e).toNat := by exact_mod_cast heq
    rcases le_total 0 e with he | he
    · obtain ⟨j, rfl⟩ := Int.eq_ofNat_of_zero_le he
      rw [Int.toNat_natCast, Int.toNat_eq_zero.mpr (by omega), pow_zero, mul_one] at heq
      rw [zpow_natCast, heq]
    · obtain ⟨j, hj⟩ := Int.eq_ofNat_of_zero_le (Int.neg_nonneg.mpr he)
      obtain rfl : e = -j := by omega
      rw [Int.toNat_eq_zero.mpr he, pow_zero, mul_one, Int.neg_neg, Int.toNat_natCast] at heq
      rw [heq, zpow_neg, zpow_natCast, mul_inv_cancel_right₀ (by positivity)]
  · cases hx

theorem quotient_fast (hn : n ≠ 0) (hlt : n < 2 ^ 53) {x : Float} (hx : isPowerOfTen k x = true)
    (hc : Canonical (.finite .positive m e h)) (hv : RoundsTo (n / 10 ^ k) m e) :
    unpacked (n.toUInt64.toFloat / x) = .finite .positive m e h := by
  obtain ⟨m₁, e₁, h₁, hu₁, -, hvalue₁⟩ := unpacked_toFloat hn hlt
  obtain ⟨m₂, e₂, h₂, hu₂, hvalue₂⟩ := unpacked_of_isPowerOfTen hx
  rw [← hvalue₁, ← hvalue₂] at hv
  rw [div_eq, hu₁, hu₂, div_eq_of_roundsTo hc hv, unpacked_packed hc]

theorem RoundsTo.lower {v : ℚ} (hc : Canonical (.finite .positive m e h)) (hv : RoundsTo v m e) :
    (2 : ℚ) ^ (-1075 : Int) ≤ v := by
  have hlow := hv.bounds.1
  have hgap := gapBelow_le m e
  have hpos : (0 : ℚ) < 2 ^ e := by positivity
  have hm : (1 : ℚ) ≤ m := by exact_mod_cast h
  have hscale : (2 : ℚ) ^ (-1075 : Int) ≤ 1 / 2 * 2 ^ e := by
    rw [one_div, mul_comm, ← zpow_sub_one₀ two_ne_zero]
    exact zpow_le_zpow_right₀ one_le_two (by have := hc.2.1; omega)
  calc (2 : ℚ) ^ (-1075 : Int) ≤ 1 / 2 * 2 ^ e := hscale
    _ ≤ v / 2 ^ e * 2 ^ e := mul_le_mul_of_nonneg_right (by linarith) hpos.le
    _ = v := div_mul_cancel₀ v hpos.ne'

theorem quotient_upper (n k : Nat) : (n : ℚ) / 10 ^ k < 2 ^ ((n.log2 : Int) + 1 - k) := by
  have hlt : (n : ℚ) < 2 ^ (n.log2 + 1) := by exact_mod_cast Nat.lt_log2_self
  have hpow : (2 : ℚ) ^ k ≤ 10 ^ k := pow_le_pow_left₀ (by norm_num) (by norm_num) k
  have hexp : (2 : ℚ) ^ ((n.log2 : Int) + 1 - k) = 2 ^ (n.log2 + 1) / 2 ^ k := by
    rw [zpow_sub₀ two_ne_zero, zpow_natCast]
    exact_mod_cast rfl
  rw [hexp]
  exact div_lt_div₀ hlt hpow (by positivity) (by positivity)

theorem round_shifted (hn : n ≠ 0) (hc : Canonical (.finite .positive m e h))
    (hv : RoundsTo n m e) :
    roundWithAccuracy Format.binary64 .positive (n <<< 53) (-53) .exact =
      .finite .positive m e h := by
  have hcut : (-53 : Int) ≤ cutExponent (n <<< 53) (-53) := by
    unfold cutExponent
    rw [log2_mul_two_pow 53 hn]
    omega
  have hexact : ((n <<< 53 : Nat) : ℚ) * 2 ^ (-53 : Int) = n := by
    rw [Nat.shiftLeft_eq, Nat.cast_mul, Nat.cast_pow, Nat.cast_ofNat, zpow_neg]
    exact mul_inv_cancel_right₀ (by positivity) _
  rw [← hexact] at hv
  exact roundWithAccuracy_exact hc hv hcut

theorem ofScientific_model (hn : n ≠ 0) (hc : Canonical (.finite .positive m e h))
    (hv : RoundsTo (n / 10 ^ k) m e) :
    UnpackedFloat.ofScientific Format.binary64 n (-(k : Int)) = .finite .positive m e h := by
  have hnotsmall : ¬(-(k : Int) < -((2 ^ 11 : Int) + n.log2)) := by
    intro hsmall
    have hlt := zpow_lt_zpow_of (hv.lower hc) (quotient_upper n k)
    omega
  have hnotlarge : ¬(-(k : Int) > (2 ^ 11 : Int)) := by omega
  unfold UnpackedFloat.ofScientific
  rw [dif_neg hn, if_neg hnotlarge, if_neg hnotsmall]
  rcases Nat.eq_zero_or_pos k with rfl | hk
  · rw [pow_zero, div_one] at hv
    rw [if_pos (by omega)]
    simp only [UnpackedFloat.mul, sign_mul_self, Nat.cast_zero, Int.neg_zero, Int.toNat_zero,
      pow_zero, Nat.mul_one, Int.add_zero]
    exact round_shifted hn hc hv
  · rw [if_neg (by omega)]
    apply div_eq_of_roundsTo hc
    rw [Int.neg_neg, Int.toNat_natCast, zpow_zero, mul_one, mul_one]
    push_cast
    exact hv

theorem unpacked_ofScientific (hn : n ≠ 0) (hc : Canonical (.finite .positive m e h))
    (hv : RoundsTo (n / 10 ^ k) m e) :
    unpacked (Float.ofScientific n true k) = .finite .positive m e h := by
  unfold Float.ofScientific
  by_cases hfast : n < 2 ^ 53 ∧ k ≤ 22
  · rw [dif_pos hfast]
    exact quotient_fast hn hfast.1 (isPowerOfTen_table ⟨k, by omega⟩) hc hv
  · rw [dif_neg hfast]
    change unpacked (packed (UnpackedFloat.ofScientific Format.binary64 n (Int.negOfNat k))) = _
    have hneg : Int.negOfNat k = -(k : Int) := Int.negOfNat_eq
    rw [hneg, ofScientific_model hn hc hv, unpacked_packed hc]

end Scientific

end Univariate.Double
