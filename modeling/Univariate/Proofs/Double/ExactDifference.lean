import Univariate.Proofs.Double.Scientific

namespace Univariate.Double

open Float.Model (UnpackedFloat Format)
open Float.Model.UnpackedFloat

variable {s : Sign} {m n : Nat} {e e' : Int} {h : 0 < m}

section Representation

theorem exists_canonical (s : Sign) (hn : n ≠ 0) (hlt : n < 2 ^ 53) (hle : -1074 ≤ e)
    (hge : e ≤ 971) : ∃ m e' h, Canonical (.finite s m e' h) ∧ (m : ℚ) * 2 ^ e' = n * 2 ^ e := by
  have hlog : n.log2 < 53 := (Nat.log2_lt hn).mpr hlt
  obtain ⟨k, hk⟩ : ∃ k, k = min (52 - n.log2) (e + 1074).toNat := ⟨_, rfl⟩
  have hlog' := log2_mul_two_pow k hn
  have hne : n <<< k ≠ 0 := by
    rw [Nat.shiftLeft_eq]
    exact Nat.mul_ne_zero hn (Nat.two_pow_pos _).ne'
  have hhigh : n <<< k < 2 ^ 53 := (Nat.log2_lt hne).mp (by omega)
  refine ⟨n <<< k, e - k, Nat.pos_of_ne_zero hne, ⟨hhigh, by omega, by omega, ?_⟩, ?_⟩
  · by_cases hfull : k = 52 - n.log2
    · exact .inl ((Nat.le_log2 hne).mp (by omega))
    · exact .inr (by omega)
  · rw [Nat.shiftLeft_eq, Nat.cast_mul, Nat.cast_pow, Nat.cast_ofNat, ← zpow_natCast, mul_assoc,
      ← zpow_add₀ two_ne_zero, add_sub_cancel]

end Representation

section Rounding

theorem round_eq (hc : Canonical (.finite s m e h)) (hv : (n : ℚ) * 2 ^ e' = m * 2 ^ e) :
    UnpackedFloat.round Format.binary64 s n e' = .finite s m e h := by
  have hn : n ≠ 0 := by
    rintro rfl
    have hpos := magnitude_pos e h
    rw [Nat.cast_zero, zero_mul] at hv
    exact hpos.ne hv
  obtain ⟨k, hk⟩ : ∃ k, k = (e' - cutExponent n e').toNat := ⟨_, rfl⟩
  have hshift : ((n <<< k : Nat) : ℚ) * 2 ^ (e' - k) = m * 2 ^ e := by
    rw [← hv, Nat.shiftLeft_eq, Nat.cast_mul, Nat.cast_pow, Nat.cast_ofNat, ← zpow_natCast,
      mul_assoc, ← zpow_add₀ two_ne_zero, add_sub_cancel]
  have hrounds : RoundsTo ((n <<< k : Nat) * 2 ^ (e' - k)) m e := by
    rw [hshift]
    exact roundsTo_self m e
  have hcut : e' - k ≤ cutExponent (n <<< k) (e' - k) := by
    have hlog := log2_mul_two_pow k hn
    unfold cutExponent at hk ⊢
    omega
  simp only [UnpackedFloat.round, decreaseExponent, targetExponent_eq, ← hk]
  exact roundWithAccuracy_exact hc hrounds hcut

theorem normalize_eq (hc : Canonical (.finite s m e h)) {d : Int} (zeroSign : Sign)
    (hv : (d : ℚ) * 2 ^ e' = rational (.finite s m e h)) :
    UnpackedFloat.normalize Format.binary64 d e' zeroSign = .finite s m e h := by
  have hpos := magnitude_pos e h
  have hpow : (0 : ℚ) < 2 ^ e' := by positivity
  rw [UnpackedFloat.normalize]
  cases s with
  | positive =>
    rw [rational_positive] at hv
    have hd : 0 < d := by
      have hd : (0 : ℚ) < d := pos_of_mul_pos_left (hv ▸ hpos) hpow.le
      exact_mod_cast hd
    obtain ⟨n, rfl⟩ := Int.eq_ofNat_of_zero_le hd.le
    rw [compare_gt_iff_gt.mpr hd]
    exact round_eq hc (by exact_mod_cast hv)
  | negative =>
    rw [rational_negative] at hv
    have hd : d < 0 := by
      have hd : (0 : ℚ) < -d := pos_of_mul_pos_left (by linarith) hpow.le
      have hd' : (d : ℚ) < 0 := by linarith
      exact_mod_cast hd'
    obtain ⟨n, hn⟩ := Int.eq_ofNat_of_zero_le (show 0 ≤ -d by omega)
    rw [compare_lt_iff_lt.mpr hd]
    refine round_eq hc ?_
    have hcast : ((-d).toNat : ℚ) = -d := by
      rw [hn, Int.toNat_natCast, ← Int.cast_natCast, ← hn, Int.cast_neg]
    rw [hcast]
    linarith

end Rounding

section Difference

variable {x y : Float} {u v : UnpackedFloat}

theorem apply_shiftLeft (s : Sign) (m : Nat) {e t : Int} (ht : t ≤ e) :
    ((s.apply (m <<< (e - t).toNat : Nat) : Int) : ℚ) * 2 ^ t = (s.apply m : Int) * 2 ^ e := by
  obtain ⟨k, rfl⟩ := Int.le.dest ht
  have hk : (t + (k : Int) - t).toNat = k := by omega
  have hcast : ((m <<< k : Nat) : ℚ) * 2 ^ t = m * 2 ^ (t + (k : Int)) := by
    rw [Nat.shiftLeft_eq, Nat.cast_mul, Nat.cast_pow, Nat.cast_ofNat, zpow_add₀ two_ne_zero,
      zpow_natCast]
    ring
  rw [hk]
  cases s with
  | positive => exact hcast
  | negative =>
    simp only [Sign.apply, Int.cast_neg, Int.cast_natCast]
    linarith

theorem sub_eq_of_rational (hu : Canonical u) (hv : Canonical v) (fu : u.isFinite = true)
    (fv : v.isFinite = true) (hc : Canonical (.finite s m e h))
    (hd : rational u - rational v = rational (.finite s m e h)) :
    UnpackedFloat.sub Format.binary64 u v = .finite s m e h := by
  have hunique : ∀ {w : UnpackedFloat}, Canonical w → w.isFinite = true →
      rational w = rational (.finite s m e h) → w = .finite s m e h := by
    intro w hw fw heq
    rcases eq_of_rational_eq hw hc fw rfl heq with heq | ⟨_, _, -, hzero⟩
    · exact heq
    · cases hzero
  cases u with
  | notANumber | infinity => cases fu
  | zero s₁ =>
    cases v with
    | notANumber | infinity => cases fv
    | zero s₂ =>
      have hne : rational (.finite s m e h) ≠ 0 := by
        have hpos := magnitude_pos e h
        cases s with
        | positive =>
          rw [rational_positive]
          exact hpos.ne'
        | negative =>
          rw [rational_negative]
          exact (neg_lt_zero.mpr hpos).ne
      exact absurd (hd.symm.trans (sub_self (0 : ℚ))) hne
    | finite s₂ m₂ e₂ h₂ =>
      refine hunique hv.neg rfl ?_
      rw [← hd]
      exact (rational_neg (.finite s₂ m₂ e₂ h₂)).trans (zero_sub _).symm
  | finite s₁ m₁ e₁ h₁ =>
    cases v with
    | notANumber | infinity => cases fv
    | zero s₂ =>
      refine hunique hu rfl ?_
      rw [← hd]
      exact (sub_zero _).symm
    | finite s₂ m₂ e₂ h₂ =>
      refine normalize_eq hc .positive ?_
      rw [← hd, Int.cast_sub, sub_mul, apply_shiftLeft s₁ m₁ (min_le_left e₁ e₂),
        apply_shiftLeft s₂ m₂ (min_le_right e₁ e₂)]
      rfl

theorem unpacked_sub_of_value (hx : x.isFinite = true) (hy : y.isFinite = true)
    (hc : Canonical (.finite s m e h)) (hd : value x - value y = rational (.finite s m e h)) :
    unpacked (x - y) = .finite s m e h := by
  rw [sub_eq, sub_eq_of_rational (canonical_unpacked x) (canonical_unpacked y) hx hy hc hd,
    unpacked_packed hc]

end Difference

end Univariate.Double
