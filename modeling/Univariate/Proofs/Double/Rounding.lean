import Mathlib.Tactic.FieldSimp
import Univariate.Proofs.Double.Value

/-!
# Rounding to the nearest double

The interval of the numbers that round to a given double: from halfway to the double below to
halfway to the double above, the ends included if the mantissa is even. Below a power of two the
doubles are twice as dense. Whatever lies in the interval is rounded to the double.
-/

namespace Univariate.Double

open Float.Model (UnpackedFloat Format totalExponent)
open Float.Model.UnpackedFloat

inductive Reads : ExtendedMantissa → ℚ → Prop
  | exact (n : Nat) : Reads ⟨n, false, false⟩ n
  | low {n : Nat} {q : ℚ} : n < q → q < n + 1 / 2 → Reads ⟨n, false, true⟩ q
  | half (n : Nat) : Reads ⟨n, true, false⟩ (n + 1 / 2)
  | high {n : Nat} {q : ℚ} : n + 1 / 2 < q → q < n + 1 → Reads ⟨n, true, true⟩ q

/-- Rounding `q` to an integer gives `m`, a tie going to the even one. -/
def Nearest (m : Nat) (q : ℚ) : Prop :=
  (m - 1 / 2 < q ∧ q < m + 1 / 2) ∨ (m % 2 = 0 ∧ m - 1 / 2 ≤ q ∧ q ≤ m + 1 / 2)

theorem Nearest.bounds {m : Nat} {q : ℚ} (h : Nearest m q) :
    (m : ℚ) - 1 / 2 ≤ q ∧ q ≤ m + 1 / 2 := by
  rcases h with ⟨h, h'⟩ | ⟨-, h, h'⟩
  · exact ⟨h.le, h'.le⟩
  · exact ⟨h, h'⟩

namespace Reads

variable {em : ExtendedMantissa} {q : ℚ}

theorem shiftRightOne_inexact {n : Nat} {r s : Bool} (hrs : (r || s) = true) (hlow : n < q)
    (hhigh : q < n + 1) : Reads (ExtendedMantissa.shiftRightOne ⟨n, r, s⟩) (q / 2) := by
  rcases Nat.even_or_odd' n with ⟨k, rfl | rfl⟩
  · push_cast at hlow hhigh
    have hread : Reads ⟨k, false, true⟩ (q / 2) := low (by linarith) (by linarith)
    simpa [ExtendedMantissa.shiftRightOne, hrs] using hread
  · push_cast at hlow hhigh
    have hdiv : (2 * k + 1) / 2 = k := by omega
    have hread : Reads ⟨k, true, true⟩ (q / 2) := high (by linarith) (by linarith)
    simpa [ExtendedMantissa.shiftRightOne, hrs, hdiv] using hread

theorem shiftRightOne (h : Reads em q) : Reads em.shiftRightOne (q / 2) := by
  cases h with
  | exact n =>
    rcases Nat.even_or_odd' n with ⟨k, rfl | rfl⟩
    · have heq : ((2 * k : Nat) : ℚ) / 2 = k := by push_cast; ring
      rw [heq]
      simpa [ExtendedMantissa.shiftRightOne] using exact k
    · have heq : ((2 * k + 1 : Nat) : ℚ) / 2 = k + 1 / 2 := by push_cast; ring
      have hdiv : (2 * k + 1) / 2 = k := by omega
      rw [heq]
      simpa [ExtendedMantissa.shiftRightOne, hdiv] using half k
  | low hlow hhigh => exact shiftRightOne_inexact rfl hlow (by linarith)
  | half n => exact shiftRightOne_inexact rfl (by linarith) (by linarith)
  | high hlow hhigh => exact shiftRightOne_inexact rfl (by linarith) hhigh

theorem shiftRight (h : Reads em q) (k : Nat) : Reads (em >>> k) (q / 2 ^ k) := by
  induction k with
  | zero =>
    rw [pow_zero, div_one]
    exact h
  | succ k ih =>
    rw [pow_succ, ← div_div]
    exact ih.shiftRightOne

theorem roundedMantissa_eq {m : Nat} (h : Reads em q) (hm : Nearest m q) :
    em.roundedMantissa = m := by
  have hbounds := hm.bounds
  cases h with
  | exact n =>
    have h1 : (m : ℚ) < n + 1 := by linarith
    have h2 : (n : ℚ) < m + 1 := by linarith
    norm_cast at h1 h2
    change n = m
    omega
  | @low n q hlow hhigh =>
    have h1 : (m : ℚ) < n + 1 := by linarith
    have h2 : (n : ℚ) < m + 1 := by linarith
    norm_cast at h1 h2
    change n = m
    omega
  | half n =>
    have h1 : (m : ℚ) < n + 2 := by linarith
    have h2 : (n : ℚ) < m + 1 := by linarith
    norm_cast at h1 h2
    have heven : m % 2 = 0 := by
      rcases hm with ⟨hl, hr⟩ | ⟨heven, -, -⟩
      · have h3 : (m : ℚ) < n + 1 := by linarith
        have h4 : (n : ℚ) < m := by linarith
        norm_cast at h3 h4
        omega
      · exact heven
    change n + n % 2 = m
    omega
  | @high n q hlow hhigh =>
    have h1 : (m : ℚ) < n + 2 := by linarith
    have h2 : (n : ℚ) < m := by linarith
    norm_cast at h1 h2
    change n + 1 = m
    omega

theorem bounds (h : Reads em q) : (em.mantissa : ℚ) ≤ q ∧ q < em.mantissa + 1 := by
  cases h with
  | exact n => exact ⟨le_refl _, by linarith⟩
  | low hlow hhigh => exact ⟨hlow.le, by linarith⟩
  | half n => exact ⟨by linarith, by linarith⟩
  | high hlow hhigh => exact ⟨by linarith, hhigh⟩

end Reads

def gapBelow (m : Nat) (e : Int) : ℚ := if m = 2 ^ 52 ∧ -1074 < e then 1 / 4 else 1 / 2

/-- `v` lies in the interval of the numbers that round to `m * 2 ^ e`. -/
def RoundsTo (v : ℚ) (m : Nat) (e : Int) : Prop :=
  (m - gapBelow m e < v / 2 ^ e ∧ v / 2 ^ e < m + 1 / 2) ∨
    (m % 2 = 0 ∧ m - gapBelow m e ≤ v / 2 ^ e ∧ v / 2 ^ e ≤ m + 1 / 2)

theorem gapBelow_le (m : Nat) (e : Int) : gapBelow m e ≤ 1 / 2 := by
  unfold gapBelow
  split <;> norm_num

theorem gapBelow_pos (m : Nat) (e : Int) : 0 < gapBelow m e := by
  unfold gapBelow
  split <;> norm_num

theorem roundsTo_self (m : Nat) (e : Int) : RoundsTo (m * 2 ^ e) m e := by
  have hpos := gapBelow_pos m e
  have heq : (m : ℚ) * 2 ^ e / 2 ^ e = m := mul_div_cancel_right₀ _ (by positivity)
  left
  rw [heq]
  exact ⟨by linarith, by linarith⟩

theorem RoundsTo.bounds {v : ℚ} {m : Nat} {e : Int} (h : RoundsTo v m e) :
    m - gapBelow m e ≤ v / 2 ^ e ∧ v / 2 ^ e ≤ m + 1 / 2 := by
  rcases h with ⟨h, h'⟩ | ⟨-, h, h'⟩
  · exact ⟨h.le, h'.le⟩
  · exact ⟨h, h'⟩

theorem RoundsTo.nearest {v : ℚ} {m : Nat} {e : Int} (h : RoundsTo v m e) :
    Nearest m (v / 2 ^ e) := by
  have hgap := gapBelow_le m e
  rcases h with ⟨h, h'⟩ | ⟨heven, h, h'⟩
  · exact .inl ⟨by linarith, h'⟩
  · exact .inr ⟨heven, by linarith, h'⟩

def cutExponent (n : Nat) (e : Int) : Int := max (n.log2 + e - 52) (-1074)

theorem targetExponent_eq (n : Nat) (e : Int) :
    Format.binary64.targetExponent (totalExponent n e) = cutExponent n e := by
  simp only [Format.targetExponent, totalExponent, Format.mantissaBits, Format.minExponent,
    cutExponent]
  omega

theorem zpow_lt_zpow_of {a b : Int} {v : ℚ} (h : (2 : ℚ) ^ a ≤ v) (h' : v < 2 ^ b) : a < b :=
  (zpow_lt_zpow_iff_right₀ one_lt_two).mp (h.trans_lt h')

theorem log2_bounds {n : Nat} {q v : ℚ} {e : Int} (hn : n ≠ 0) (hq : (n : ℚ) ≤ q)
    (hq' : q < n + 1) (hv : v = q * 2 ^ e) :
    (2 : ℚ) ^ (n.log2 + e) ≤ v ∧ v < 2 ^ (n.log2 + 1 + e) := by
  have hpos : (0 : ℚ) < 2 ^ e := by positivity
  have hle : (2 ^ n.log2 : Nat) ≤ n := Nat.log2_self_le hn
  have hlt : n + 1 ≤ (2 ^ (n.log2 + 1) : Nat) := Nat.lt_log2_self
  have hle : (2 : ℚ) ^ n.log2 ≤ n := by exact_mod_cast hle
  have hlt : (n : ℚ) + 1 ≤ 2 ^ (n.log2 + 1) := by exact_mod_cast hlt
  rw [zpow_add₀ two_ne_zero, zpow_add₀ two_ne_zero, hv]
  constructor
  · rw [zpow_natCast]
    exact mul_le_mul_of_nonneg_right (hle.trans hq) hpos.le
  · have heq : (2 : ℚ) ^ ((n.log2 : Int) + 1) = 2 ^ (n.log2 + 1) := by
      exact_mod_cast zpow_natCast (2 : ℚ) (n.log2 + 1)
    rw [heq]
    exact mul_lt_mul_of_pos_right (hq'.trans_le hlt) hpos

variable {s : Sign} {m : Nat} {e : Int} {h : 0 < m} {v : ℚ}

theorem zpow_le_of_le_div {k : Nat} (hk : (2 : ℚ) ^ k ≤ v / 2 ^ e) : (2 : ℚ) ^ ((k : Int) + e) ≤ v := by
  rw [zpow_add₀ two_ne_zero, zpow_natCast]
  exact (le_div_iff₀ (by positivity)).mp hk

theorem lt_zpow_of_div_lt {k : Nat} (hk : v / 2 ^ e < 2 ^ k) : v < (2 : ℚ) ^ ((k : Int) + e) := by
  rw [zpow_add₀ two_ne_zero, zpow_natCast]
  exact (div_lt_iff₀ (by positivity)).mp hk

theorem Canonical.pow_le_mantissa (hc : Canonical (.finite s m e h)) (he : e ≠ -1074) :
    (2 : ℚ) ^ 52 ≤ m := by
  obtain ⟨-, -, -, hnormal⟩ := hc
  exact_mod_cast hnormal.resolve_right he

theorem RoundsTo.div_lt (hc : Canonical (.finite s m e h)) (hv : RoundsTo v m e) :
    v / 2 ^ e < 2 ^ 53 := by
  obtain ⟨hm, -, -, -⟩ := hc
  have hm : (m : ℚ) + 1 ≤ 2 ^ 53 := by exact_mod_cast hm
  have hhigh := hv.bounds.2
  linarith

theorem cutExponent_zero (hc : Canonical (.finite s m e h)) (hv : RoundsTo v m e) {q : ℚ}
    {e' : Int} (hq : q < 1) (hvq : v = q * 2 ^ e') (he : e' ≤ cutExponent 0 e') :
    cutExponent 0 e' = e := by
  have hcut : e' ≤ -1074 ∧ cutExponent 0 e' = -1074 := by
    rw [cutExponent, Nat.log2_zero] at he ⊢
    omega
  rw [hcut.2]
  by_contra hne
  have hlower : (2 : ℚ) ^ ((0 : Nat) + e) ≤ v := by
    apply zpow_le_of_le_div
    have hm := hc.pow_le_mantissa (Ne.symm hne)
    have hlow := hv.bounds.1
    have hgap := gapBelow_le m e
    linarith
  have hupper : v < 2 ^ e' := by
    rw [hvq]
    have hpos : (0 : ℚ) < 2 ^ e' := by positivity
    nlinarith
  have hlt := zpow_lt_zpow_of hlower hupper
  obtain ⟨-, hle, -, -⟩ := hc
  omega

theorem RoundsTo.eq_of_div_lt (hc : Canonical (.finite s m e h)) (hv : RoundsTo v m e)
    (he : e ≠ -1074) (hlt : v / 2 ^ e < 2 ^ 52) : m = 2 ^ 52 := by
  have hm := hc.pow_le_mantissa he
  have hlow := hv.bounds.1
  have hgap := gapBelow_le m e
  have hm' : (m : ℚ) < 2 ^ 52 + 1 := by linarith
  norm_cast at hm hm'
  omega

theorem cutExponent_cases (hc : Canonical (.finite s m e h)) (hv : RoundsTo v m e) {n : Nat}
    {q : ℚ} {e' : Int} (hq : (n : ℚ) ≤ q) (hq' : q < n + 1) (hvq : v = q * 2 ^ e')
    (he : e' ≤ cutExponent n e') :
    cutExponent n e' = e ∨
      cutExponent n e' = e - 1 ∧ m = 2 ^ 52 ∧ -1074 < e ∧ v / 2 ^ e < 2 ^ 52 := by
  have hle : -1074 ≤ e := hc.2.1
  by_cases hn : n = 0
  · subst hn
    rw [Nat.cast_zero, zero_add] at hq'
    exact .inl (cutExponent_zero hc hv hq' hvq he)
  · obtain ⟨hlo, hhi⟩ := log2_bounds hn hq hq' hvq
    have hupper := zpow_lt_zpow_of hlo (lt_zpow_of_div_lt (hv.div_lt hc))
    by_cases hsub : e = -1074
    · left
      unfold cutExponent
      omega
    by_cases hw : (2 : ℚ) ^ 52 ≤ v / 2 ^ e
    · left
      have hlower := zpow_lt_zpow_of (zpow_le_of_le_div hw) hhi
      unfold cutExponent
      omega
    · right
      have hw' : v / 2 ^ e < 2 ^ 52 := not_le.mp hw
      have hhalf : (2 : ℚ) ^ 51 ≤ v / 2 ^ e := by
        have hm := hc.pow_le_mantissa hsub
        have hlow := hv.bounds.1
        have hgap := gapBelow_le m e
        linarith
      have hlower := zpow_lt_zpow_of (zpow_le_of_le_div hhalf) hhi
      have hupper' := zpow_lt_zpow_of hlo (lt_zpow_of_div_lt hw')
      refine ⟨?_, hv.eq_of_div_lt hc hsub hw', by omega, hw'⟩
      unfold cutExponent
      omega

theorem roundWithAccuracy_eq_of_rounded {n k : Nat} {a : Accuracy} {e' t : Int} {r : Nat}
    (ht : e' + (cutExponent n e' - e').toNat = t)
    (hr : (ExtendedMantissa.ofMantissaAndAccuracy n a >>>
      (cutExponent n e' - e').toNat).roundedMantissa = r)
    (hk : (cutExponent r t - t).toNat = k)
    (hm : (ExtendedMantissa.ofMantissaAndAccuracy r .exact >>> k).mantissa = m) (he : t + k = e) :
    roundWithAccuracy Format.binary64 s n e' a = .finite s m e h := by
  unfold roundWithAccuracy shiftToTargetExponent shiftToExponent
  simp only [targetExponent_eq, ht, hr, hk, he]
  have hne : (ExtendedMantissa.ofMantissaAndAccuracy r .exact >>> k).mantissa ≠ 0 := by omega
  rw [dif_neg hne, UnpackedFloat.finite.injEq]
  exact ⟨rfl, hm, rfl⟩

theorem cutExponent_of_canonical (hc : Canonical (.finite s m e h)) : cutExponent m e = e := by
  obtain ⟨hm, hle, -, hnormal⟩ := hc
  have hlt : m.log2 < 53 := (Nat.log2_lt (Nat.ne_of_gt h)).mpr hm
  unfold cutExponent
  rcases hnormal with hnormal | rfl
  · have hge : 52 ≤ m.log2 := (Nat.le_log2 (Nat.ne_of_gt h)).mpr hnormal
    omega
  · omega

theorem mantissa_ofMantissaAndAccuracy (n : Nat) (a : Accuracy) :
    (ExtendedMantissa.ofMantissaAndAccuracy n a).mantissa = n := by
  cases a with
  | exact => rfl
  | inexact o => cases o <;> rfl

theorem roundWithAccuracy_eq (hc : Canonical (.finite s m e h)) (hv : RoundsTo v m e) {n : Nat}
    {a : Accuracy} {e' : Int}
    (hr : Reads (ExtendedMantissa.ofMantissaAndAccuracy n a) (v / 2 ^ e'))
    (he : e' ≤ cutExponent n e') :
    roundWithAccuracy Format.binary64 s n e' a = .finite s m e h := by
  have hpos : (0 : ℚ) < 2 ^ e' := by positivity
  have hbounds := hr.bounds
  rw [mantissa_ofMantissaAndAccuracy] at hbounds
  have hcut := cutExponent_cases hc hv hbounds.1 hbounds.2 (div_mul_cancel₀ v hpos.ne').symm he
  have hshift := hr.shiftRight (cutExponent n e' - e').toNat
  have ht : e' + ((cutExponent n e' - e').toNat : Int) = cutExponent n e' := by omega
  rw [div_div, ← zpow_natCast, ← zpow_add₀ two_ne_zero, ht] at hshift
  rcases hcut with hcut | ⟨hcut, rfl, hsub, hlt⟩
  · have hnearest : Nearest m (v / 2 ^ cutExponent n e') := by
      rw [hcut]
      exact hv.nearest
    have hrounded := hshift.roundedMantissa_eq hnearest
    refine roundWithAccuracy_eq_of_rounded (ht.trans hcut) hrounded (k := 0) ?_ rfl ?_
    · rw [cutExponent_of_canonical hc]
      omega
    · omega
  · have hnearest : Nearest (2 ^ 53) (v / 2 ^ cutExponent n e') := by
      have hlow := hv.bounds.1
      have hgap : gapBelow (2 ^ 52) e = 1 / 4 := if_pos ⟨rfl, hsub⟩
      have hdouble : v / 2 ^ cutExponent n e' = 2 * (v / 2 ^ e) := by
        rw [hcut, zpow_sub_one₀ two_ne_zero]
        field_simp
      rw [hdouble]
      rw [hgap] at hlow
      push_cast at hlow ⊢
      exact .inr ⟨rfl, by linarith, by linarith⟩
    have hrounded := hshift.roundedMantissa_eq hnearest
    refine roundWithAccuracy_eq_of_rounded ht hrounded (k := 1) ?_ rfl ?_
    · have hlog : (2 ^ 53 : Nat).log2 = 53 := Nat.log2_two_pow
      unfold cutExponent at hcut ⊢
      omega
    · omega

theorem roundWithAccuracy_exact {n : Nat} {e' : Int} (hc : Canonical (.finite s m e h))
    (hv : RoundsTo (n * 2 ^ e') m e) (he : e' ≤ cutExponent n e') :
    roundWithAccuracy Format.binary64 s n e' .exact = .finite s m e h := by
  have hread : Reads (ExtendedMantissa.ofMantissaAndAccuracy n .exact) (n * 2 ^ e' / 2 ^ e') := by
    rw [mul_div_cancel_right₀ _ (by positivity)]
    exact .exact n
  exact roundWithAccuracy_eq hc hv hread he

end Univariate.Double
