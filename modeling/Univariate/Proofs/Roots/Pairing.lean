import Mathlib.Data.List.Perm.Basic
import Univariate.Proofs.Double.Nonnegative
import Univariate.Roots.Separation

namespace Univariate

namespace Cartesian

def exact (z : Cartesian Float) : Cartesian ℚ := ⟨Double.value z.re, Double.value z.im⟩

def IsFinite (z : Cartesian Float) : Prop := z.re.isFinite = true ∧ z.im.isFinite = true

theorem exact_conjugate (z : Cartesian Float) : z.conjugate.exact = z.exact.conjugate := by
  rw [exact, conjugate, conjugate, exact, Double.value_neg]

theorem conjugate_conjugate (z : Cartesian ℚ) : z.conjugate.conjugate = z := by
  rw [conjugate, conjugate, neg_neg]

theorem conjugate_ne {z : Cartesian ℚ} (h : z.im ≠ 0) : z.conjugate ≠ z := by
  intro heq
  have him := congrArg Cartesian.im heq
  exact h (self_eq_neg.mp him.symm)

end Cartesian

open Cartesian

namespace Pairing

def members : Pairing → List (Cartesian Float)
  | .pair z w => [z, w]
  | .single z => [z]

def Opposite : Pairing → Prop
  | .pair z w => (0 < z.im ∧ w.im < 0) ∨ (z.im < 0 ∧ 0 < w.im)
  | .single _ => False

theorem ofRoots_of_find?_eq_some {z w : Cartesian Float} {zs : List (Cartesian Float)}
    (h : zs.find? (matching z) = some w) :
    ofRoots (z :: zs) = .pair z w :: ofRoots (zs.eraseP (matching z)) := by
  rw [ofRoots, h]

theorem ofRoots_of_find?_eq_none {z : Cartesian Float} {zs : List (Cartesian Float)}
    (h : zs.find? (matching z) = none) :
    ofRoots (z :: zs) = .single z :: ofRoots zs := by
  rw [ofRoots, h]

theorem perm_eraseP {α : Type} {p : α → Bool} {a : α} {as : List α} (h : as.find? p = some a) :
    (a :: as.eraseP p).Perm as := by
  induction as with
  | nil => cases h
  | cons b bs ih =>
    cases hb : p b with
    | true =>
      rw [List.find?_cons_of_pos hb] at h
      cases h
      rw [List.eraseP_cons_of_pos hb]
    | false =>
      rw [List.find?_cons_of_neg (by simp [hb])] at h
      rw [List.eraseP_cons_of_neg (by simp [hb])]
      exact (List.Perm.swap b a _).trans ((ih h).cons b)

theorem perm_members (zs : List (Cartesian Float)) :
    ((ofRoots zs).flatMap members).Perm zs := by
  induction zs using ofRoots.induct with
  | case1 => rw [ofRoots, List.flatMap_nil]
  | case2 z zs w h ih =>
    rw [ofRoots_of_find?_eq_some h, List.flatMap_cons]
    exact (((ih.cons w).trans (perm_eraseP h)).cons z)
  | case3 z zs h ih =>
    rw [ofRoots_of_find?_eq_none h, List.flatMap_cons]
    exact ih.cons z

theorem kept_pair (z w : Cartesian Float) :
    (pair z w).kept = if 0 < z.im then z else w := rfl

theorem kept_mem_members (p : Pairing) : p.kept ∈ p.members := by
  cases p with
  | pair z w =>
    rw [kept_pair, members]
    split
    · exact List.mem_cons_self
    · exact List.mem_cons_of_mem _ List.mem_cons_self
  | single z => exact List.mem_cons_self

theorem zero_le_tolerance {z : Cartesian Float} (h : IsFinite z) :
    0 ≤ 0.000001 * (1 + z.abs) := by
  have hsmall : ∃ m e h, Double.unpacked 0.000001 = .finite .positive m e h := ⟨_, _, _, rfl⟩
  obtain ⟨m, e, hm, hsmall⟩ := hsmall
  have hone : (0 : Float) ≤ 1 := by decide +kernel
  have hnorm : 0 ≤ z.squaredNorm :=
    Double.zero_le_add (Double.zero_le_mul_self h.1) (Double.zero_le_mul_self h.2)
  have habs : 0 ≤ z.abs := Double.zero_le_sqrt hnorm
  exact Double.zero_le_mul_of_pos hsmall (Double.zero_le_add hone habs)

theorem matching_of_exact_eq {z w : Cartesian Float} (hz : IsFinite z) (hw : IsFinite w)
    (h : w.exact = z.exact.conjugate) : matching z w = true := by
  have hre : Double.value w.re = Double.value z.re := congrArg Cartesian.re h
  have him : Double.value w.im = -Double.value z.im := congrArg Cartesian.im h
  obtain ⟨s, hs⟩ := Double.unpacked_sub_of_value_eq hw.1 hz.1 hre
  obtain ⟨s', hs'⟩ := Double.unpacked_add_of_value_eq_neg hw.2 hz.2 him
  have htolerance := zero_le_tolerance hz
  rw [matching, Bool.and_eq_true, decide_eq_true_iff, decide_eq_true_iff]
  exact ⟨Double.abs_le_of_unpacked_zero hs htolerance,
    Double.abs_le_of_unpacked_zero hs' htolerance⟩

theorem length_members_le (p : Pairing) : p.members.length ≤ 2 := by
  cases p with
  | pair z w => exact Nat.le_refl 2
  | single z => exact Nat.le_succ 1

end Pairing

section Sides

variable {z w : Cartesian Float}

theorem zero_lt_im_iff (h : IsFinite z) : 0 < z.im ↔ 0 < z.exact.im := by
  rw [Double.lt_iff_value_lt Double.isFinite_zero h.2, Double.value_zero, exact]

theorem im_lt_zero_iff (h : IsFinite z) : z.im < 0 ↔ z.exact.im < 0 := by
  rw [Double.lt_iff_value_lt h.2 Double.isFinite_zero, Double.value_zero, exact]

def upper (z : Cartesian ℚ) : Bool := decide (0 < z.im)

theorem upper_conjugate {z : Cartesian ℚ} (h : z.im ≠ 0) : upper z.conjugate = !upper z := by
  unfold upper conjugate
  rcases lt_or_gt_of_ne h with hlt | hgt
  · simp [hlt, hlt.le]
  · simp [hgt, hgt.le]

namespace Pairing

variable {p : Pairing}

theorem filter_upper_members (hf : ∀ z ∈ p.members, IsFinite z) (h : p.Opposite) :
    (p.members.map exact).filter upper = [p.kept.exact] := by
  cases p with
  | single z => cases h
  | pair z w =>
    have hz : IsFinite z := hf z List.mem_cons_self
    have hw : IsFinite w := hf w (List.mem_cons_of_mem _ List.mem_cons_self)
    rcases h with ⟨h, h'⟩ | ⟨h, h'⟩
    · rw [kept_pair, if_pos h]
      rw [zero_lt_im_iff hz] at h
      rw [im_lt_zero_iff hw] at h'
      simp [members, upper, h, h'.le]
    · rw [im_lt_zero_iff hz] at h
      rw [zero_lt_im_iff hw] at h'
      rw [kept_pair, if_neg (by rw [zero_lt_im_iff hz]; exact h.le.not_gt)]
      simp [members, upper, h', h.le]

theorem opposite_of_countP_upper (hf : ∀ z ∈ p.members, IsFinite z)
    (hne : ∀ z ∈ p.members, z.exact.im ≠ 0) (hlength : p.members.length = 2)
    (hcount : (p.members.map exact).countP upper = 1) : p.Opposite := by
  cases p with
  | single z => cases hlength
  | pair z w =>
    have hz : IsFinite z := hf z List.mem_cons_self
    have hw : IsFinite w := hf w (List.mem_cons_of_mem _ List.mem_cons_self)
    rw [Opposite, zero_lt_im_iff hz, im_lt_zero_iff hz, zero_lt_im_iff hw, im_lt_zero_iff hw]
    rcases lt_or_gt_of_ne (hne z List.mem_cons_self) with h | h
    · right
      refine ⟨h, ?_⟩
      by_contra h'
      simp [members, upper, h.le.not_gt, h'] at hcount
    · left
      refine ⟨h, ?_⟩
      rcases lt_or_gt_of_ne (hne w (List.mem_cons_of_mem _ List.mem_cons_self)) with h' | h'
      · exact h'
      · simp [members, upper, h, h'] at hcount

end Pairing

end Sides

end Univariate
