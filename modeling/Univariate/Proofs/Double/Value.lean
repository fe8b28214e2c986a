import Mathlib.Algebra.Order.Field.Power
import Mathlib.Algebra.Order.Ring.Rat
import Mathlib.Tactic.Linarith
import Mathlib.Tactic.Positivity
import Mathlib.Tactic.Ring
import Univariate.Proofs.Double.Unpacked

namespace Univariate.Double

open Float.Model (UnpackedFloat Format)
open Float.Model.UnpackedFloat

def rational : UnpackedFloat → ℚ
  | .finite s m e _ => (s.apply m : ℤ) * 2 ^ e
  | _ => 0

def value (x : Float) : ℚ := rational (unpacked x)

theorem rational_positive (m : Nat) (e : Int) (h : 0 < m) :
    rational (.finite .positive m e h) = m * 2 ^ e := by
  simp [rational, Sign.apply]

theorem rational_negative (m : Nat) (e : Int) (h : 0 < m) :
    rational (.finite .negative m e h) = -(m * 2 ^ e) := by
  simp [rational, Sign.apply]

theorem magnitude_pos {m : Nat} (e : Int) (h : 0 < m) : 0 < (m : ℚ) * 2 ^ e := by
  have : (0 : ℚ) < m := by exact_mod_cast h
  positivity

theorem magnitude_lt_of_exponent_lt {m m' : Nat} {e e' : Int} (hm : m < 2 ^ 53)
    (hm' : 2 ^ 52 ≤ m') (he : e < e') : (m : ℚ) * 2 ^ e < m' * 2 ^ e' := by
  have hm : (m : ℚ) < 2 ^ 53 := by exact_mod_cast hm
  have hm' : (2 : ℚ) ^ 52 ≤ m' := by exact_mod_cast hm'
  have hpos : (0 : ℚ) < 2 ^ e := by positivity
  have hstep : (2 : ℚ) ^ e * 2 ≤ 2 ^ e' := by
    rw [← zpow_add_one₀ two_ne_zero]
    exact zpow_le_zpow_right₀ one_le_two he
  calc (m : ℚ) * 2 ^ e < 2 ^ 53 * 2 ^ e := mul_lt_mul_of_pos_right hm hpos
    _ = 2 ^ 52 * (2 ^ e * 2) := by ring
    _ ≤ m' * 2 ^ e' := mul_le_mul hm' hstep (by positivity) (by positivity)

theorem compare_mul_right {a b c : ℚ} (hc : 0 < c) : compare (a * c) (b * c) = compare a b := by
  rw [← cmp_eq_compare, ← cmp_eq_compare, cmp_mul_pos_right hc]

theorem compare_natCast (m n : Nat) : compare (m : ℚ) n = compare m n := by
  rw [← cmp_eq_compare, ← cmp_eq_compare, Nat.strictMono_cast.cmp_map_eq]

theorem compare_magnitudes {m m' : Nat} {e e' : Int} {s s' : Sign} {h : 0 < m} {h' : 0 < m'}
    (hu : Canonical (.finite s m e h)) (hv : Canonical (.finite s' m' e' h')) :
    (compare e e').then (compare m m') = compare ((m : ℚ) * 2 ^ e) (m' * 2 ^ e') := by
  obtain ⟨hm, hle, -, hn⟩ := hu
  obtain ⟨hm', hle', -, hn'⟩ := hv
  rcases lt_trichotomy e e' with he | rfl | he
  · have hlt := magnitude_lt_of_exponent_lt hm (hn'.resolve_right (by omega)) he
    rw [compare_lt_iff_lt.mpr he, compare_lt_iff_lt.mpr hlt]
    rfl
  · have hpos : (0 : ℚ) < 2 ^ e := by positivity
    rw [compare_eq_iff_eq.mpr rfl, Ordering.then, compare_mul_right hpos, compare_natCast]
  · have hlt := magnitude_lt_of_exponent_lt hm' (hn.resolve_right (by omega)) he
    rw [compare_gt_iff_gt.mpr he, compare_gt_iff_gt.mpr hlt]
    rfl

theorem swap_compare (a b : ℚ) : (compare a b).swap = compare (-a) (-b) := by
  have hneg : StrictAnti fun q : ℚ => -q := fun _ _ h => neg_lt_neg h
  rw [← cmp_eq_compare, ← cmp_eq_compare, cmp_swap, ← hneg.cmp_map_eq]

theorem compare_zero_finite (s : Sign) {s' : Sign} {m : Nat} {e : Int} (h : 0 < m) :
    UnpackedFloat.compare (.zero s) (.finite s' m e h) =
      some (compare 0 (rational (.finite s' m e h))) := by
  have hpos := magnitude_pos e h
  cases s' with
  | positive =>
    rw [rational_positive]
    exact congrArg some (compare_lt_iff_lt.mpr hpos).symm
  | negative =>
    rw [rational_negative]
    exact congrArg some (compare_gt_iff_gt.mpr (neg_lt_zero.mpr hpos)).symm

theorem compare_finite_zero {s : Sign} (s' : Sign) {m : Nat} {e : Int} (h : 0 < m) :
    UnpackedFloat.compare (.finite s m e h) (.zero s') =
      some (compare (rational (.finite s m e h)) 0) := by
  have hpos := magnitude_pos e h
  cases s with
  | positive =>
    rw [rational_positive]
    exact congrArg some (compare_gt_iff_gt.mpr hpos).symm
  | negative =>
    rw [rational_negative]
    exact congrArg some (compare_lt_iff_lt.mpr (neg_lt_zero.mpr hpos)).symm

theorem compare_finite {s s' : Sign} {m m' : Nat} {e e' : Int} {h : 0 < m} {h' : 0 < m'}
    (hu : Canonical (.finite s m e h)) (hv : Canonical (.finite s' m' e' h')) :
    UnpackedFloat.compare (.finite s m e h) (.finite s' m' e' h') =
      some (compare (rational (.finite s m e h)) (rational (.finite s' m' e' h'))) := by
  have hpos := magnitude_pos e h
  have hpos' := magnitude_pos e' h'
  have hmag := compare_magnitudes hu hv
  cases s with
  | positive =>
    cases s' with
    | positive =>
      rw [rational_positive, rational_positive, ← hmag]
      rfl
    | negative =>
      rw [rational_positive, rational_negative]
      exact congrArg some (compare_gt_iff_gt.mpr (by linarith)).symm
  | negative =>
    cases s' with
    | positive =>
      rw [rational_positive, rational_negative]
      exact congrArg some (compare_lt_iff_lt.mpr (by linarith)).symm
    | negative =>
      rw [rational_negative, rational_negative, ← swap_compare, ← hmag]
      rfl

theorem compare_rational {u v : UnpackedFloat} (hu : Canonical u) (hv : Canonical v)
    (fu : u.isFinite = true) (fv : v.isFinite = true) :
    u.compare v = some (compare (rational u) (rational v)) := by
  cases u with
  | notANumber | infinity => cases fu
  | zero s =>
    cases v with
    | notANumber | infinity => cases fv
    | zero => simp [UnpackedFloat.compare, rational]
    | finite s' m' e' h' => exact compare_zero_finite s h'
  | finite s m e h =>
    cases v with
    | notANumber | infinity => cases fv
    | zero s' => exact compare_finite_zero s' h
    | finite s' m' e' h' => exact compare_finite hu hv

section Order

variable {x y : Float}

theorem lt_iff_value_lt (hx : x.isFinite = true) (hy : y.isFinite = true) :
    x < y ↔ value x < value y := by
  rw [lt_iff, compare_rational (canonical_unpacked x) (canonical_unpacked y) hx hy,
    Option.some_inj, compare_lt_iff_lt, value, value]

theorem le_iff_value_le (hx : x.isFinite = true) (hy : y.isFinite = true) :
    x ≤ y ↔ value x ≤ value y := by
  rw [le_iff, compare_rational (canonical_unpacked x) (canonical_unpacked y) hx hy,
    Option.any_some, Ordering.isLE_iff_ne_gt]
  exact compare_le_iff_le

theorem beq_iff_value_eq (hx : x.isFinite = true) (hy : y.isFinite = true) :
    (x == y) = true ↔ value x = value y := by
  rw [beq_iff, compare_rational (canonical_unpacked x) (canonical_unpacked y) hx hy,
    Option.some_inj, compare_eq_iff_eq, value, value]

end Order

theorem value_zero : value 0 = 0 := by
  rw [value, unpacked_zero]
  rfl

theorem isFinite_zero : Float.isFinite 0 = true := by
  rw [isFinite_eq, unpacked_zero]
  rfl

section Infinity

variable {x y : Float}

theorem unpacked_eq_infinity (hy : 0 < y) (hf : ¬y.isFinite = true) :
    unpacked y = .infinity .positive := by
  rw [lt_iff, unpacked_zero] at hy
  rw [isFinite_eq] at hf
  cases hu : unpacked y with
  | notANumber =>
    rw [hu] at hy
    cases hy
  | zero =>
    rw [hu] at hf
    exact absurd rfl hf
  | finite =>
    rw [hu] at hf
    exact absurd rfl hf
  | infinity s =>
    cases s with
    | positive => rfl
    | negative =>
      rw [hu] at hy
      cases hy

theorem compare_infinity (hx : x.isFinite = true) (hy : unpacked y = .infinity .positive) :
    (unpacked x).compare (unpacked y) = some .lt ∧
      (unpacked y).compare (unpacked x) = some .gt := by
  rw [isFinite_eq] at hx
  rw [hy]
  cases hu : unpacked x with
  | notANumber =>
    rw [hu] at hx
    cases hx
  | infinity =>
    rw [hu] at hx
    cases hx
  | zero s => exact ⟨rfl, rfl⟩
  | finite s m e h => cases s <;> exact ⟨rfl, rfl⟩

theorem le_iff_of_pos (hx : x.isFinite = true) (hy : 0 < y) :
    y ≤ x ↔ y.isFinite = true ∧ value y ≤ value x := by
  by_cases hf : y.isFinite = true
  · rw [le_iff_value_le hf hx]
    exact ⟨fun h => ⟨hf, h⟩, fun h => h.2⟩
  · have hc := (compare_infinity hx (unpacked_eq_infinity hy hf)).2
    rw [le_iff, hc]
    exact ⟨fun h => (nomatch h), fun h => absurd h.1 hf⟩

theorem not_lt_iff_le_of_pos (hx : x.isFinite = true) (hy : 0 < y) : ¬x < y ↔ y ≤ x := by
  by_cases hf : y.isFinite = true
  · rw [lt_iff_value_lt hx hf, le_iff_value_le hf hx, not_lt]
  · have hc := compare_infinity hx (unpacked_eq_infinity hy hf)
    rw [lt_iff, le_iff, hc.1, hc.2]
    exact ⟨fun h => absurd rfl h, fun h => nomatch h⟩

end Infinity

theorem rational_neg (u : UnpackedFloat) : rational u.neg = -rational u := by
  cases u with
  | finite s m e h => cases s <;> simp [UnpackedFloat.neg, rational, Sign.apply]
  | _ => simp [UnpackedFloat.neg, rational]

theorem rational_abs (u : UnpackedFloat) : rational u.abs = |rational u| := by
  cases u with
  | finite s m e h =>
    have hpos := magnitude_pos e h
    cases s with
    | positive => rw [UnpackedFloat.abs, rational_positive, abs_of_pos hpos]
    | negative => rw [UnpackedFloat.abs, rational_positive, rational_negative, abs_neg, abs_of_pos hpos]
  | _ => simp [UnpackedFloat.abs, rational]

theorem isFinite_abs {x : Float} (h : x.isFinite = true) : x.abs.isFinite = true := by
  rw [isFinite_eq] at h
  rw [isFinite_eq, unpacked_abs]
  cases hu : unpacked x <;> rw [hu] at h <;> exact h

theorem value_neg (x : Float) : value (-x) = -value x := by
  rw [value, unpacked_neg, rational_neg, value]

theorem value_abs (x : Float) : value x.abs = |value x| := by
  rw [value, unpacked_abs, rational_abs, value]

theorem eq_of_rational_eq {u v : UnpackedFloat} (hu : Canonical u) (hv : Canonical v)
    (fu : u.isFinite = true) (fv : v.isFinite = true) (h : rational u = rational v) :
    u = v ∨ ∃ s s', u = .zero s ∧ v = .zero s' := by
  have hbeq : u.beq v = true := by
    rw [UnpackedFloat.beq, compare_rational hu hv fu fv, h, compare_eq_iff_eq.mpr rfl]
    rfl
  obtain ⟨-, -, heq | hzero | hzero⟩ := (beq_iff_ne_notANumber_and_eq u v).mp hbeq
  · exact .inl heq
  · exact .inr ⟨_, _, hzero⟩
  · exact .inr ⟨_, _, hzero⟩

theorem sub_self_eq_zero {u : UnpackedFloat} (hu : u.isFinite = true) :
    ∃ s, UnpackedFloat.sub Format.binary64 u u = .zero s := by
  cases u with
  | notANumber => cases hu
  | infinity => cases hu
  | zero s => cases s <;> exact ⟨_, rfl⟩
  | finite s m e h =>
    refine ⟨.positive, ?_⟩
    simp only [UnpackedFloat.sub, Int.sub_self]
    rfl

theorem add_neg_eq_zero {u : UnpackedFloat} (hu : u.isFinite = true) :
    ∃ s, UnpackedFloat.add Format.binary64 u.neg u = .zero s := by
  cases u with
  | notANumber => cases hu
  | infinity => cases hu
  | zero s => cases s <;> exact ⟨_, rfl⟩
  | finite s m e h =>
    refine ⟨.positive, ?_⟩
    cases s with
    | positive =>
      simp only [UnpackedFloat.neg, UnpackedFloat.add]
      rw [show (-Sign.positive).apply = fun n : Int => -n from rfl, Sign.apply, Int.add_comm,
        Int.add_right_neg]
      rfl
    | negative =>
      simp only [UnpackedFloat.neg, UnpackedFloat.add]
      rw [show (-Sign.negative).apply = fun n : Int => n from rfl, Sign.apply, Int.add_right_neg]
      rfl

section Cancellation

variable {x y : Float}

theorem unpacked_sub_of_value_eq (hx : x.isFinite = true) (hy : y.isFinite = true)
    (h : value x = value y) : ∃ s, unpacked (x - y) = .zero s := by
  have hz : ∃ s, UnpackedFloat.sub Format.binary64 (unpacked x) (unpacked y) = .zero s := by
    rcases eq_of_rational_eq (canonical_unpacked x) (canonical_unpacked y) hx hy h with
      h | ⟨s, s', h, h'⟩
    · rw [h]
      exact sub_self_eq_zero hy
    · rw [h, h']
      cases s <;> cases s' <;> exact ⟨_, rfl⟩
  obtain ⟨s, hs⟩ := hz
  refine ⟨s, ?_⟩
  rw [sub_eq, hs]
  exact unpacked_packed trivial

theorem unpacked_add_of_value_eq_neg (hx : x.isFinite = true) (hy : y.isFinite = true)
    (h : value x = -value y) : ∃ s, unpacked (x + y) = .zero s := by
  have hz : ∃ s, UnpackedFloat.add Format.binary64 (unpacked x) (unpacked y) = .zero s := by
    have hf : (unpacked y).neg.isFinite = true := by
      rw [isFinite_eq] at hy
      cases hu : unpacked y <;> rw [hu] at hy <;> exact hy
    rw [value, value, ← rational_neg] at h
    rcases eq_of_rational_eq (canonical_unpacked x) (canonical_unpacked y).neg hx hf h with
      h | ⟨s, s', h, h'⟩
    · rw [h]
      exact add_neg_eq_zero hy
    · have hu : unpacked y = .zero (-s') := by
        cases hu : unpacked y <;> rw [hu] at h' <;> cases h'
        rename_i s''
        cases s'' <;> rfl
      rw [h, hu]
      cases s <;> cases s' <;> exact ⟨_, rfl⟩
  obtain ⟨s, hs⟩ := hz
  refine ⟨s, ?_⟩
  rw [add_eq, hs]
  exact unpacked_packed trivial

end Cancellation

section Nonzero

variable {x y : Float}

theorem exists_unpacked_finite (hx : x.isFinite = true) (h : (x == 0) = false) :
    ∃ s m e h, unpacked x = .finite s m e h := by
  rw [isFinite_eq] at hx
  cases hu : unpacked x with
  | notANumber =>
    rw [hu] at hx
    cases hx
  | infinity =>
    rw [hu] at hx
    cases hx
  | zero s =>
    have hzero : (x == 0) = true := by
      rw [beq_iff, hu, unpacked_zero]
      rfl
    rw [hzero] at h
    cases h
  | finite s m e h => exact ⟨s, m, e, h, rfl⟩

theorem eq_of_beq_finite {s : Sign} {m : Nat} {e : Int} {h : 0 < m}
    (hx : unpacked x = .finite s m e h) (heq : (x == y) = true) : x = y := by
  obtain ⟨-, -, h | ⟨rfl, -⟩ | ⟨rfl, -⟩⟩ := Float.beq_iff_ne_nan_and_eq.mp heq
  · exact h
  · rw [unpacked_zero] at hx
    cases hx
  · rw [unpacked_neg, unpacked_zero] at hx
    cases hx

theorem zero_add_of_finite {s : Sign} {m : Nat} {e : Int} {h : 0 < m}
    (hx : unpacked x = .finite s m e h) : 0 + x = x := by
  rw [add_eq, unpacked_zero, hx]
  change packed (.finite s m e h) = x
  rw [← hx, packed_unpacked]

theorem signed_abs {s : Sign} {m : Nat} {e : Int} {h : 0 < m}
    (hx : unpacked x = .finite s m e h) : (if x < 0 then -x.abs else x.abs) = x := by
  have hlt : x < 0 ↔ s = .negative := by
    rw [lt_iff, hx, unpacked_zero]
    cases s with
    | positive => exact ⟨fun h => (nomatch h), fun h => (nomatch h)⟩
    | negative => exact ⟨fun _ => rfl, fun _ => rfl⟩
  apply eq_of_unpacked
  cases s with
  | positive =>
    have hnot : ¬x < 0 := fun h => nomatch hlt.mp h
    rw [if_neg hnot, unpacked_abs, hx, UnpackedFloat.abs]
  | negative =>
    rw [if_pos (hlt.mpr rfl), unpacked_neg, unpacked_abs, hx]
    rfl

theorem beq_self (hx : x.isFinite = true) : (x == x) = true :=
  (beq_iff_value_eq hx hx).mpr rfl

end Nonzero

end Univariate.Double
