import Mathlib.Order.Compare
import Mathlib.Order.WithBot
import Univariate.Proofs.Double.Nonnegative

namespace Univariate.Double

open Float.Model (UnpackedFloat Format)
open Float.Model.UnpackedFloat

variable {x y z : Float} {u v : UnpackedFloat}

theorem isNaN_iff : x.isNaN = true ↔ unpacked x = .notANumber := by
  have h : x.isNaN = (unpacked x).isNaN := rfl
  rw [h, UnpackedFloat.isNaN_iff]

theorem isNaN_eq_false_iff : x.isNaN = false ↔ unpacked x ≠ .notANumber := by
  rw [← Bool.not_eq_true, isNaN_iff]

section Propagation

theorem isNaN_packed_notANumber : (packed .notANumber).isNaN = true :=
  isNaN_iff.mpr (unpacked_packed (u := .notANumber) trivial)

theorem isNaN_of_operand {f : UnpackedFloat → UnpackedFloat → UnpackedFloat}
    (hl : ∀ v, f .notANumber v = .notANumber) (hr : ∀ u, f u .notANumber = .notANumber)
    (h : x.isNaN = true ∨ y.isNaN = true) :
    (packed (f (unpacked x) (unpacked y))).isNaN = true := by
  rw [isNaN_iff, isNaN_iff] at h
  rcases h with h | h
  · rw [h, hl]
    exact isNaN_packed_notANumber
  · rw [h, hr]
    exact isNaN_packed_notANumber

theorem isNaN_add (h : x.isNaN = true ∨ y.isNaN = true) : (x + y).isNaN = true :=
  isNaN_of_operand (f := UnpackedFloat.add Format.binary64) (fun _ => rfl)
    (fun u => by cases u <;> rfl) h

theorem isNaN_sub (h : x.isNaN = true ∨ y.isNaN = true) : (x - y).isNaN = true :=
  isNaN_of_operand (f := UnpackedFloat.sub Format.binary64) (fun _ => rfl)
    (fun u => by cases u <;> rfl) h

theorem isNaN_mul (h : x.isNaN = true ∨ y.isNaN = true) : (x * y).isNaN = true :=
  isNaN_of_operand (f := UnpackedFloat.mul Format.binary64) (fun _ => rfl)
    (fun u => by cases u <;> rfl) h

theorem isNaN_div (h : x.isNaN = true ∨ y.isNaN = true) : (x / y).isNaN = true :=
  isNaN_of_operand (f := UnpackedFloat.div Format.binary64) (fun _ => rfl)
    (fun u => by cases u <;> rfl) h

theorem isNaN_sqrt (h : x.isNaN = true) : x.sqrt.isNaN = true := by
  rw [sqrt_eq, isNaN_iff.mp h]
  exact isNaN_packed_notANumber

end Propagation

section Order

def extended : UnpackedFloat → WithBot (WithTop ℚ)
  | .infinity .positive => ⊤
  | .infinity .negative => ⊥
  | u => ((rational u : WithTop ℚ) : WithBot (WithTop ℚ))

theorem extended_of_isFinite (h : u.isFinite = true) :
    extended u = ((rational u : WithTop ℚ) : WithBot (WithTop ℚ)) := by
  cases u with
  | notANumber | infinity => cases h
  | zero | finite => rfl

theorem extended_lt_infinity (h : u.isFinite = true) :
    extended u < extended (.infinity .positive) := by
  rw [extended_of_isFinite h]
  exact WithBot.coe_lt_coe.mpr (WithTop.coe_lt_top _)

theorem infinity_lt_extended (h : u.isFinite = true) :
    extended (.infinity .negative) < extended u := by
  rw [extended_of_isFinite h]
  exact WithBot.bot_lt_coe _

theorem compare_infinity_left (s : Sign) (h : u.isFinite = true) :
    UnpackedFloat.compare (.infinity s) u = some (cmp (extended (.infinity s)) (extended u)) := by
  cases s with
  | positive =>
    rw [(cmp_eq_gt_iff _ _).mpr (extended_lt_infinity h)]
    cases u with
    | notANumber | infinity => cases h
    | zero | finite => rfl
  | negative =>
    rw [(cmp_eq_lt_iff _ _).mpr (infinity_lt_extended h)]
    cases u with
    | notANumber | infinity => cases h
    | zero | finite => rfl

theorem compare_infinity_right (s : Sign) (h : u.isFinite = true) :
    u.compare (.infinity s) = some (cmp (extended u) (extended (.infinity s))) := by
  cases s with
  | positive =>
    rw [(cmp_eq_lt_iff _ _).mpr (extended_lt_infinity h)]
    cases u with
    | notANumber | infinity => cases h
    | zero | finite => rfl
  | negative =>
    rw [(cmp_eq_gt_iff _ _).mpr (infinity_lt_extended h)]
    cases u with
    | notANumber | infinity => cases h
    | zero | finite => rfl

theorem compare_infinities (s s' : Sign) : UnpackedFloat.compare (.infinity s) (.infinity s') =
    some (cmp (extended (.infinity s)) (extended (.infinity s'))) := by
  have hlt : extended (.infinity .negative) < extended (.infinity .positive) := bot_lt_top
  cases s with
  | positive =>
    cases s' with
    | positive =>
      rw [cmp_self_eq_eq]
      rfl
    | negative =>
      rw [(cmp_eq_gt_iff _ _).mpr hlt]
      rfl
  | negative =>
    cases s' with
    | positive =>
      rw [(cmp_eq_lt_iff _ _).mpr hlt]
      rfl
    | negative =>
      rw [cmp_self_eq_eq]
      rfl

theorem cmp_extended (hu : u.isFinite = true) (hv : v.isFinite = true) :
    cmp (extended u) (extended v) = compare (rational u) (rational v) := by
  have hmono : StrictMono fun q : ℚ => ((q : WithTop ℚ) : WithBot (WithTop ℚ)) :=
    fun _ _ h => WithBot.coe_lt_coe.mpr (WithTop.coe_lt_coe.mpr h)
  rw [extended_of_isFinite hu, extended_of_isFinite hv, ← cmp_eq_compare]
  exact hmono.cmp_map_eq _ _

theorem eq_infinity_of_not_isFinite (hu : u ≠ .notANumber) (h : ¬ u.isFinite = true) :
    ∃ s, u = .infinity s := by
  cases u with
  | notANumber => exact absurd rfl hu
  | infinity s => exact ⟨s, rfl⟩
  | zero | finite => exact absurd rfl h

theorem compare_extended (hu : Canonical u) (hv : Canonical v) (nu : u ≠ .notANumber)
    (nv : v ≠ .notANumber) : u.compare v = some (cmp (extended u) (extended v)) := by
  by_cases fu : u.isFinite = true
  · by_cases fv : v.isFinite = true
    · rw [compare_rational hu hv fu fv, cmp_extended fu fv]
    · obtain ⟨s, rfl⟩ := eq_infinity_of_not_isFinite nv fv
      exact compare_infinity_right s fu
  · obtain ⟨s, rfl⟩ := eq_infinity_of_not_isFinite nu fu
    by_cases fv : v.isFinite = true
    · exact compare_infinity_left s fv
    · obtain ⟨s', rfl⟩ := eq_infinity_of_not_isFinite nv fv
      exact compare_infinities s s'

theorem compare_unpacked (hx : x.isNaN = false) (hy : y.isNaN = false) :
    (unpacked x).compare (unpacked y) =
      some (cmp (extended (unpacked x)) (extended (unpacked y))) :=
  compare_extended (canonical_unpacked x) (canonical_unpacked y) (isNaN_eq_false_iff.mp hx)
    (isNaN_eq_false_iff.mp hy)

theorem lt_iff_extended_lt (hx : x.isNaN = false) (hy : y.isNaN = false) :
    x < y ↔ extended (unpacked x) < extended (unpacked y) := by
  rw [lt_iff, compare_unpacked hx hy, Option.some_inj, cmp_eq_lt_iff]

theorem le_iff_extended_le (hx : x.isNaN = false) (hy : y.isNaN = false) :
    x ≤ y ↔ extended (unpacked x) ≤ extended (unpacked y) := by
  rw [le_iff, compare_unpacked hx hy, Option.any_some, Ordering.isLE_iff_ne_gt, ← not_lt,
    ← cmp_eq_gt_iff]

theorem compare_notANumber_right (u : UnpackedFloat) : u.compare .notANumber = none := by
  cases u <;> rfl

theorem isNaN_eq_false_of_lt (h : x < y) : x.isNaN = false ∧ y.isNaN = false := by
  rw [lt_iff] at h
  rw [isNaN_eq_false_iff, isNaN_eq_false_iff]
  constructor
  · intro hx
    rw [hx] at h
    cases h
  · intro hy
    rw [hy, compare_notANumber_right] at h
    cases h

theorem le_lt_trans (hx : x.isNaN = false) (h : x ≤ y) (h' : y < z) : x < z := by
  obtain ⟨hy, hz⟩ := isNaN_eq_false_of_lt h'
  rw [le_iff_extended_le hx hy] at h
  rw [lt_iff_extended_lt hy hz] at h'
  rw [lt_iff_extended_lt hx hz]
  exact h.trans_lt h'

theorem isNaN_eq_false_of_le (h : x ≤ y) : x.isNaN = false ∧ y.isNaN = false := by
  rw [le_iff] at h
  rw [isNaN_eq_false_iff, isNaN_eq_false_iff]
  constructor
  · intro hx
    rw [hx] at h
    cases h
  · intro hy
    rw [hy, compare_notANumber_right] at h
    cases h

theorem lt_le_trans (h : x < y) (h' : y ≤ z) : x < z := by
  obtain ⟨hx, hy⟩ := isNaN_eq_false_of_lt h
  have hz := (isNaN_eq_false_of_le h').2
  rw [lt_iff_extended_lt hx hy] at h
  rw [le_iff_extended_le hy hz] at h'
  rw [lt_iff_extended_lt hx hz]
  exact h.trans_le h'

theorem ge_of_not_le (hx : x.isNaN = false) (hy : y.isNaN = false) (h : ¬ x ≤ y) : y ≤ x := by
  rw [le_iff_extended_le hx hy] at h
  rw [le_iff_extended_le hy hx]
  exact (not_le.mp h).le

theorem not_le_of_isNaN (h : x.isNaN = true) : ¬ x ≤ y := by
  rw [le_iff, isNaN_iff.mp h]
  exact Bool.false_ne_true

end Order

section Nonnegative

theorem isNaN_eq_false_of_nonnegative (h : 0 ≤ x) : x.isNaN = false := by
  rw [zero_le_iff] at h
  rw [isNaN_eq_false_iff]
  intro hx
  rw [hx] at h
  cases h

theorem zero_le_square (hx : x.isNaN = false) : 0 ≤ x * x := by
  by_cases hf : (unpacked x).isFinite = true
  · exact zero_le_mul_self hf
  · obtain ⟨s, hs⟩ := eq_infinity_of_not_isFinite (isNaN_eq_false_iff.mp hx) hf
    rw [mul_eq, hs]
    apply Nonnegative.packed
    rw [UnpackedFloat.mul, sign_mul_self]
    exact .infinity

end Nonnegative

end Univariate.Double
