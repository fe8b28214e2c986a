import Mathlib
import Univariate.Calculus.Limit
import Univariate.Proofs.Exact.Extended

namespace Univariate.Calculus

open Extended ExtendedNumber

variable {R : Type} [Field R] [LinearOrder R]

section Agreement

variable {x y : R} {u v w : ExtendedNumber R}

theorem abs_sub_mean_le [IsStrictOrderedRing R] (x y : R) :
    |x - (x + y) / 2| ≤ |x - y| ∧ |y - (x + y) / 2| ≤ |x - y| := by
  have hhalf : |(x - y) / 2| ≤ |x - y| := by
    rw [abs_div, abs_two]
    exact half_le_self (abs_nonneg _)
  have hleft : x - (x + y) / 2 = (x - y) / 2 := by ring
  have hright : y - (x + y) / 2 = -((x - y) / 2) := by ring
  rw [hleft, hright, abs_neg]
  exact ⟨hhalf, hhalf⟩

/-- The pairs of one-sided limits that agree, and on what. -/
inductive Agreed : (left right common : ExtendedNumber R) → Prop
  | infinite (negative : Bool) : Agreed (infinite negative) (infinite negative) (infinite negative)
  | number {x y : R} (near : |x - y| ≤ 1 / 1000000 * (1 + |(x + y) / 2|)) :
      Agreed (number x) (number y) (number ((x + y) / 2))

theorem agreed_infinite_iff {negative : Bool} :
    Agreed u v (infinite negative) ↔ u = infinite negative ∧ v = infinite negative := by
  constructor
  · intro h
    cases h
    exact ⟨rfl, rfl⟩
  · rintro ⟨rfl, rfl⟩
    exact .infinite negative

theorem Agreed.near [IsStrictOrderedRing R] {L : R} (h : Agreed u v (.number L)) :
    (∃ x, u = .number x ∧ |x - L| ≤ 1 / 1000000 * (1 + |L|)) ∧
      ∃ y, v = .number y ∧ |y - L| ≤ 1 / 1000000 * (1 + |L|) := by
  cases h with
  | @number x y near =>
    obtain ⟨hx, hy⟩ := abs_sub_mean_le x y
    exact ⟨⟨x, rfl, hx.trans near⟩, y, rfl, hy.trans near⟩

theorem Agreed.self [IsStrictOrderedRing R] (hu : u ≠ notANumber) : Agreed u u u := by
  cases u with
  | notANumber => exact absurd rfl hu
  | infinite negative => exact .infinite negative
  | number x =>
    have hmean : (x + x) / 2 = x := add_self_div_two x
    have hnear : |x - x| ≤ 1 / 1000000 * (1 + |(x + x) / 2|) := by
      rw [sub_self, abs_zero]
      positivity
    have hagreed := Agreed.number hnear
    rwa [hmean] at hagreed

variable [Elementary (ExtendedNumber R)]

theorem agreement_infinite (s t : Bool) :
    agreement (infinite s : ExtendedNumber R) (infinite t) =
      if s = t then infinite s else notANumber := by
  cases s <;> cases t <;> rfl

theorem agreement_infinite_number (s : Bool) (y : R) :
    agreement (infinite s) (number y) = notANumber := rfl

theorem agreement_number_infinite (x : R) (t : Bool) :
    agreement (number x) (infinite t) = notANumber := rfl

theorem agreement_notANumber_left (v : ExtendedNumber R) : agreement notANumber v = notANumber := by
  cases v with
  | infinite t => rfl
  | number | notANumber =>
    rw [agreement, notANumber_add, mul_notANumber]
    exact ite_self _

theorem agreement_notANumber_right (u : ExtendedNumber R) :
    agreement u notANumber = notANumber := by
  cases u with
  | infinite s => rfl
  | number | notANumber =>
    rw [agreement, add_notANumber, mul_notANumber]
    exact ite_self _

variable [IsStrictOrderedRing R] (habs : ∀ u : ExtendedNumber R, Elementary.abs u = u.abs)

include habs

theorem agreement_number (x y : R) : agreement (number x) (number y) =
    if |x - y| ≤ 1 / 1000000 * (1 + |(x + y) / 2|) then number ((x + y) / 2)
    else notANumber := by
  have hfinite : ¬ (isInfinite (number x) || isInfinite (number y)) = true := Bool.false_ne_true
  have hmean : 1 / ((2 : ℕ) : ExtendedNumber R) * (number x + number y) = number ((x + y) / 2) := by
    rw [one_div_natCast two_ne_zero, number_add, number_mul, Nat.cast_ofNat, one_div_mul_eq_div]
  have hdistance : Elementary.abs (number x - number y) = number |x - y| := by
    rw [habs, number_sub, abs_number]
  have htolerance : 1 / ((1000000 : ℕ) : ExtendedNumber R) *
      (1 + Elementary.abs (number ((x + y) / 2))) =
        number (1 / 1000000 * (1 + |(x + y) / 2|)) := by
    rw [one_div_natCast (by norm_num), habs, abs_number, one_eq, number_add, number_mul,
      Nat.cast_ofNat]
  rw [agreement, if_neg hfinite]
  simp only [hmean, hdistance, htolerance, number_le_iff]
  rfl

theorem Agreed.agreement_eq (h : Agreed u v w) : agreement u v = w := by
  cases h with
  | infinite negative => rw [agreement_infinite, if_pos rfl]
  | number near => rw [agreement_number habs, if_pos near]

theorem agreed_agreement (h : agreement u v ≠ notANumber) : Agreed u v (agreement u v) := by
  cases u with
  | notANumber => exact absurd (agreement_notANumber_left v) h
  | infinite s =>
    cases v with
    | notANumber => exact absurd (agreement_notANumber_right _) h
    | number y => exact absurd (agreement_infinite_number s y) h
    | infinite t =>
      rw [agreement_infinite] at h ⊢
      split at h
      next hst =>
        rw [if_pos hst, ← hst]
        exact .infinite s
      next => exact absurd rfl h
  | number x =>
    cases v with
    | notANumber => exact absurd (agreement_notANumber_right _) h
    | infinite t => exact absurd (agreement_number_infinite x t) h
    | number y =>
      rw [agreement_number habs] at h ⊢
      split at h
      next near =>
        rw [if_pos near]
        exact .number near
      next => exact absurd rfl h

theorem agreement_eq_iff (hw : w ≠ notANumber) : agreement u v = w ↔ Agreed u v w := by
  constructor
  · rintro rfl
    exact agreed_agreement habs hw
  · exact Agreed.agreement_eq habs

end Agreement

section Limits

variable [Elementary (ExtendedNumber R)] {f : ExtendedNumber R → ExtendedNumber R}
  {point : ExtendedNumber R} {side : Side}

theorem oneSidedLimit_of_isFinite (h : isFinite (f point) = true) (side : Side) :
    oneSidedLimit f point side = f point :=
  if_pos h

theorem isFinite_of_oneSidedLimit {negative : Bool}
    (h : oneSidedLimit f point side = infinite negative) : isFinite (f point) = false := by
  rw [← Bool.not_eq_true]
  intro hfinite
  rw [oneSidedLimit_of_isFinite hfinite] at h
  rw [h] at hfinite
  cases hfinite

variable [IsStrictOrderedRing R] (habs : ∀ u : ExtendedNumber R, Elementary.abs u = u.abs)

include habs

theorem limit_eq_agreement : limit f point =
    agreement (oneSidedLimit f point .left) (oneSidedLimit f point .right) := by
  by_cases h : isFinite (f point) = true
  · have hnumber : f point ≠ notANumber := by
      intro hvalue
      rw [hvalue] at h
      cases h
    rw [oneSidedLimit_of_isFinite h, oneSidedLimit_of_isFinite h,
      (Agreed.self hnumber).agreement_eq habs]
    exact if_pos h
  · rw [limit, oneSidedLimit, oneSidedLimit, if_neg h, if_neg h, if_neg h]

theorem limit_eq_iff {w : ExtendedNumber R} (hw : w ≠ notANumber) : limit f point = w ↔
    Agreed (oneSidedLimit f point .left) (oneSidedLimit f point .right) w := by
  rw [limit_eq_agreement habs, agreement_eq_iff habs hw]

theorem oneSidedLimit_near {L : R} (h : limit f point = number L) (side : Side) :
    ∃ x, oneSidedLimit f point side = number x ∧ |x - L| ≤ 1 / 1000000 * (1 + |L|) := by
  have hnumber : number L ≠ notANumber := nofun
  obtain ⟨hleft, hright⟩ := ((limit_eq_iff habs hnumber).mp h).near
  cases side with
  | left => exact hleft
  | right => exact hright

theorem limit_eq_infinite_iff {negative : Bool} : limit f point = infinite negative ↔
    isFinite (f point) = false ∧ ∀ side, oneSidedLimit f point side = infinite negative := by
  have hinfinite : (infinite negative : ExtendedNumber R) ≠ notANumber := nofun
  rw [limit_eq_iff habs hinfinite, agreed_infinite_iff]
  constructor
  · rintro ⟨hleft, hright⟩
    refine ⟨isFinite_of_oneSidedLimit hleft, fun side => ?_⟩
    cases side with
    | left => exact hleft
    | right => exact hright
  · rintro ⟨-, hsides⟩
    exact ⟨hsides .left, hsides .right⟩

theorem limit_of_oneSidedLimit {v : ExtendedNumber R} (hv : v ≠ notANumber)
    (h : ∀ side, oneSidedLimit f point side = v) : limit f point = v := by
  rw [limit_eq_iff habs hv, h, h]
  exact .self hv

end Limits

/-- A limit from both sides that is a number has a number near it for the limit from either side, an
infinite one is the limit from either side, and equal limits from the two sides are the limit. -/
theorem limit_agrees [IsStrictOrderedRing R] [Elementary (ExtendedNumber R)]
    (habs : ∀ u : ExtendedNumber R, Elementary.abs u = u.abs)
    (f : ExtendedNumber R → ExtendedNumber R) (point : ExtendedNumber R) :
    (∀ L, limit f point = number L → ∀ side, ∃ x,
      oneSidedLimit f point side = number x ∧ |x - L| ≤ 1 / 1000000 * (1 + |L|)) ∧
    (∀ negative, limit f point = infinite negative ↔
      isFinite (f point) = false ∧ ∀ side, oneSidedLimit f point side = infinite negative) ∧
    ∀ v, v ≠ notANumber → (∀ side, oneSidedLimit f point side = v) → limit f point = v := by
  refine ⟨?_, ?_, ?_⟩
  · intro L hL
    exact oneSidedLimit_near habs hL
  · intro negative
    exact limit_eq_infinite_iff habs
  · intro v hv
    exact limit_of_oneSidedLimit habs hv

instance : Elementary (ExtendedNumber ℚ) where
  pi := notANumber
  abs := ExtendedNumber.abs
  sqrt _ := notANumber
  cbrt _ := notANumber
  exp _ := notANumber
  ln _ := notANumber
  log10 _ := notANumber
  sin _ := notANumber
  cos _ := notANumber
  tan _ := notANumber
  arcsin _ := notANumber
  arccos _ := notANumber
  arctan _ := notANumber
  angle _ _ := notANumber
  power _ _ := notANumber

theorem limit_agrees_rational :
    (∀ u : ExtendedNumber ℚ, Elementary.abs u = u.abs) ∧
    limit (fun u : ExtendedNumber ℚ => (u * u - 1) / (u - 1)) 1 = number 2 ∧
    (∃ x, oneSidedLimit (fun u : ExtendedNumber ℚ => (u * u - 1) / (u - 1)) 1 .left = number x ∧
      |x - 2| ≤ 1 / 1000000 * (1 + |2|)) ∧
    (infinite false : ExtendedNumber ℚ) ≠ notANumber ∧
    (∀ side, oneSidedLimit (fun u : ExtendedNumber ℚ => 1 / (u * u)) 0 side = infinite false) ∧
    limit (fun u : ExtendedNumber ℚ => 1 / (u * u)) 0 = infinite false ∧
    isFinite (1 / (0 * 0) : ExtendedNumber ℚ) = false := by
  have habs (u : ExtendedNumber ℚ) : Elementary.abs u = u.abs := rfl
  have hgap : limit (fun u : ExtendedNumber ℚ => (u * u - 1) / (u - 1)) 1 = number 2 := by
    decide +kernel
  have hpole (side : Side) :
      oneSidedLimit (fun u : ExtendedNumber ℚ => 1 / (u * u)) 0 side = infinite false := by
    cases side <;> decide +kernel
  obtain ⟨hnear, -, -⟩ := limit_agrees habs (fun u => (u * u - 1) / (u - 1)) 1
  obtain ⟨-, hinfinite, hsame⟩ := limit_agrees habs (fun u => 1 / (u * u)) 0
  have hlimit := hsame (infinite false) nofun hpole
  exact ⟨habs, hgap, hnear 2 hgap .left, nofun, hpole, hlimit, ((hinfinite false).mp hlimit).1⟩

end Univariate.Calculus
