import Mathlib.Data.List.FinRange
import Univariate.Proofs.Double.TotalOrder
import Univariate.Proofs.Roots.Pairing

namespace Univariate

open Cartesian

inductive Places (α : Type) where
  | pair (i j : α)
  | single (i : α)

namespace Places

variable {α : Type} {root : α → Cartesian Float} {i j : α} {is : List α} {ps : List (Places α)}

def first : Places α → α
  | .pair i _ => i
  | .single i => i

def all : Places α → List α
  | .pair i j => [i, j]
  | .single i => [i]

def isPair : Places α → Bool
  | .pair _ _ => true
  | .single _ => false

def kept (root : α → Cartesian Float) : Places α → Cartesian Float
  | .pair i j => if 0 < (root i).im then root i else root j
  | .single i => root i

def pairing (root : α → Cartesian Float) : Places α → Pairing
  | .pair i j => .pair (root i) (root j)
  | .single i => .single (root i)

theorem kept_pairing (root : α → Cartesian Float) (p : Places α) :
    (p.pairing root).kept = p.kept root := by
  cases p <;> rfl

theorem first_mem_all (p : Places α) : p.first ∈ p.all := by
  cases p <;> exact List.mem_cons_self

theorem length_flatMap_all (ps : List (Places α)) :
    (ps.flatMap all).length = ps.countP (fun p => !p.isPair) + 2 * ps.countP isPair := by
  induction ps with
  | nil => rfl
  | cons p ps ih =>
    rw [List.flatMap_cons, List.length_append, ih, List.countP_cons, List.countP_cons]
    cases p with
    | pair i j => simp [all, isPair]; omega
    | single i => simp [all, isPair]; omega

variable [LinearOrder α]

/-- All places of `is` are settled, each once and in the order of the first ones: pairs match, and
what is left alone does not match. -/
structure Settled (root : α → Cartesian Float) (is : List α) (ps : List (Places α)) : Prop where
  perm : (ps.flatMap all).Perm is
  ascending : (ps.map first).Pairwise (· < ·)
  near : ∀ i j, .pair i j ∈ ps → i < j ∧ Pairing.matching (root i) (root j) = true
  apart : ∀ i j, .single i ∈ ps → .single j ∈ ps → i < j →
    Pairing.matching (root i) (root j) = false

theorem Settled.all_mem (h : Settled root is ps) {p : Places α} (hp : p ∈ ps) :
    ∀ k ∈ p.all, k ∈ is :=
  fun _ hk => h.perm.subset (List.mem_flatMap.mpr ⟨p, hp, hk⟩)

theorem Settled.first_mem (h : Settled root is ps) : ∀ k ∈ ps.map first, k ∈ is := by
  intro k hk
  obtain ⟨p, hp, rfl⟩ := List.mem_map.mp hk
  exact h.all_mem hp p.first p.first_mem_all

theorem Settled.nil : Settled root [] [] :=
  ⟨.nil, .nil, nofun, nofun⟩

theorem Settled.pair (hi : ∀ k ∈ is, i < k)
    (hfind : is.find? (fun k => Pairing.matching (root i) (root k)) = some j)
    (h : Settled root (is.eraseP fun k => Pairing.matching (root i) (root k)) ps) :
    Settled root (i :: is) (.pair i j :: ps) where
  perm := by
    rw [List.flatMap_cons]
    exact ((h.perm.cons j).trans (Pairing.perm_eraseP hfind)).cons i
  ascending := by
    rw [List.map_cons, List.pairwise_cons]
    exact ⟨fun k hk => hi k (List.mem_of_mem_eraseP (h.first_mem k hk)), h.ascending⟩
  near := by
    intro a b hab
    rcases List.mem_cons.mp hab with heq | hab
    · cases heq
      have hmatch : Pairing.matching (root i) (root j) = true := by
        simpa using List.find?_some hfind
      exact ⟨hi j (List.mem_of_find?_eq_some hfind), hmatch⟩
    · exact h.near a b hab
  apart := by
    intro a b ha hb
    rcases List.mem_cons.mp ha with heq | ha
    · cases heq
    · rcases List.mem_cons.mp hb with heq | hb
      · cases heq
      · exact h.apart a b ha hb

theorem Settled.single (hi : ∀ k ∈ is, i < k)
    (hfind : is.find? (fun k => Pairing.matching (root i) (root k)) = none)
    (h : Settled root is ps) : Settled root (i :: is) (.single i :: ps) where
  perm := by
    rw [List.flatMap_cons]
    exact h.perm.cons i
  ascending := by
    rw [List.map_cons, List.pairwise_cons]
    exact ⟨fun k hk => hi k (h.first_mem k hk), h.ascending⟩
  near := by
    intro a b hab
    rcases List.mem_cons.mp hab with heq | hab
    · cases heq
    · exact h.near a b hab
  apart := by
    intro a b ha hb hlt
    have hmem (c : α) (hc : .single c ∈ ps) : c ∈ is := h.all_mem hc c List.mem_cons_self
    rcases List.mem_cons.mp hb with heq | hb
    · -- Every other place stands behind the first one.
      cases heq
      rcases List.mem_cons.mp ha with heq | ha
      · cases heq
        exact absurd hlt (lt_irrefl _)
      · exact absurd hlt (hi a (hmem a ha)).not_gt
    · rcases List.mem_cons.mp ha with heq | ha
      · cases heq
        exact Bool.eq_false_iff.mpr (List.find?_eq_none.mp hfind b (hmem b hb))
      · exact h.apart a b ha hb hlt

end Places

namespace Pairing

variable {α : Type} [LinearOrder α]

theorem exists_settled (root : α → Cartesian Float) {is : List α} (h : is.Pairwise (· < ·)) :
    ∃ ps, ofRoots (is.map root) = ps.map (Places.pairing root) ∧ Places.Settled root is ps := by
  generalize hzs : is.map root = zs
  induction zs using ofRoots.induct generalizing is with
  | case1 =>
    obtain rfl : is = [] := List.map_eq_nil_iff.mp hzs
    exact ⟨[], by rw [ofRoots, List.map_nil], .nil⟩
  | case2 z zs w hfind ih =>
    obtain ⟨i, is, rfl, rfl, rfl⟩ := List.map_eq_cons_iff.mp hzs
    rw [List.pairwise_cons] at h
    have hroots := ofRoots_of_find?_eq_some hfind
    rw [List.find?_map, Option.map_eq_some_iff] at hfind
    obtain ⟨j, hj, rfl⟩ := hfind
    obtain ⟨ps, hps, hsettled⟩ := ih (h.2.eraseP _) List.eraseP_map.symm
    refine ⟨.pair i j :: ps, ?_, hsettled.pair h.1 hj⟩
    rw [hroots, hps, List.map_cons]
    rfl
  | case3 z zs hfind ih =>
    obtain ⟨i, is, rfl, rfl, rfl⟩ := List.map_eq_cons_iff.mp hzs
    rw [List.pairwise_cons] at h
    have hroots := ofRoots_of_find?_eq_none hfind
    rw [List.find?_map, Option.map_eq_none_iff] at hfind
    obtain ⟨ps, hps, hsettled⟩ := ih h.2 rfl
    refine ⟨.single i :: ps, ?_, hsettled.single h.1 hfind⟩
    rw [hroots, hps, List.map_cons]
    rfl

end Pairing

/-- What an ascending list of doubles says of two of them. -/
structure SignedFloat.Precedes (x y : SignedFloat) : Prop where
  key : x.orderKey ≤ y.orderKey
  not_lt : ¬ y.value < x.value
  first : x.value.isNaN = true → y.value.isNaN = false → x.sign = true
  last : x.value.isNaN = false → y.value.isNaN = true → y.sign = false

theorem SignedFloat.precedes_of_key {x y : SignedFloat} (h : x.orderKey ≤ y.orderKey) :
    x.Precedes y where
  key := h
  not_lt := fun hlt => (Double.orderKey_lt_of_lt hlt).not_ge h
  first := by
    intro hx hy
    by_contra hsign
    have hlt := Double.orderKey_lt_of_isNaN (s := x.sign) (t := y.sign) hx hy
    rw [if_neg hsign] at hlt
    exact hlt.not_ge h
  last := by
    intro hx hy
    rw [← Bool.not_eq_true]
    intro hsign
    have hlt := Double.orderKey_lt_of_isNaN (s := y.sign) (t := x.sign) hy hx
    rw [if_pos hsign] at hlt
    exact hlt.not_ge h

namespace Separation

variable (signs : Signs) (epsilon : Float) (roots : List (Cartesian Float))

def offAxis : List (Cartesian Float) := roots.filter fun z => !onAxis epsilon z

theorem map_value_axis :
    (axis signs epsilon roots).map SignedFloat.value =
      (roots.filter (onAxis epsilon)).map (·.re) := by
  have hplaces : (roots.zipIdx.filter fun place => onAxis epsilon place.1).map Prod.fst =
      roots.filter (onAxis epsilon) := by
    have hfilter := List.filter_map (f := Prod.fst) (p := onAxis epsilon) (l := roots.zipIdx)
    rw [List.zipIdx_map_fst] at hfilter
    exact hfilter.symm
  rw [← hplaces, axis, List.map_map, List.map_map]
  rfl

theorem exists_sorted : ∃ sorted : List SignedFloat,
    sorted.Perm (axis signs epsilon roots) ∧ sorted.Pairwise SignedFloat.Precedes ∧
      (ofRoots signs epsilon roots).real = sorted.map SignedFloat.value := by
  have htrans (a b c : SignedFloat) (hab : decide (a.orderKey ≤ b.orderKey) = true)
      (hbc : decide (b.orderKey ≤ c.orderKey) = true) :
      decide (a.orderKey ≤ c.orderKey) = true := by
    rw [decide_eq_true_iff] at hab hbc ⊢
    exact hab.trans hbc
  have htotal (a b : SignedFloat) :
      (decide (a.orderKey ≤ b.orderKey) || decide (b.orderKey ≤ a.orderKey)) = true := by
    rw [Bool.or_eq_true, decide_eq_true_iff, decide_eq_true_iff]
    exact Int.le_total _ _
  refine ⟨_, List.mergeSort_perm _ _, ?_, rfl⟩
  exact (List.pairwise_mergeSort htrans htotal _).imp fun h =>
    SignedFloat.precedes_of_key (of_decide_eq_true h)

theorem perm_real : (ofRoots signs epsilon roots).real.Perm
    ((roots.filter (onAxis epsilon)).map (·.re)) := by
  obtain ⟨sorted, hperm, -, hreal⟩ := exists_sorted signs epsilon roots
  rw [hreal, ← map_value_axis signs]
  exact hperm.map _

/-- The real parts of the roots on the axis are listed in the total order, whatever the signs of
those are that are no numbers. The places of all other roots are settled, and one root is kept for
every pair and for every place that is left alone; so no root is lost and none is invented. -/
theorem exists_places :
    (ofRoots signs epsilon roots).real.Perm ((roots.filter (onAxis epsilon)).map (·.re)) ∧
    (∃ sorted : List SignedFloat,
      sorted.Perm (axis signs epsilon roots) ∧ sorted.Pairwise SignedFloat.Precedes ∧
        (ofRoots signs epsilon roots).real = sorted.map SignedFloat.value) ∧
    ∃ ps : List (Places (Fin (offAxis epsilon roots).length)),
      Places.Settled (offAxis epsilon roots).get (List.finRange _) ps ∧
      (ofRoots signs epsilon roots).complex = ps.map (Places.kept (offAxis epsilon roots).get) ∧
      (ofRoots signs epsilon roots).real.length + ps.countP (fun p => !p.isPair) +
        2 * ps.countP Places.isPair = roots.length := by
  refine ⟨perm_real signs epsilon roots, exists_sorted signs epsilon roots, ?_⟩
  obtain ⟨ps, hps, hsettled⟩ :=
    Pairing.exists_settled (offAxis epsilon roots).get (List.pairwise_lt_finRange _)
  have hroots : (List.finRange _).map (offAxis epsilon roots).get = offAxis epsilon roots := by
    rw [← List.ofFn_eq_map, List.ofFn_get]
  rw [hroots] at hps
  refine ⟨ps, hsettled, ?_, ?_⟩
  · have hpairings : (ofRoots signs epsilon roots).pairings =
        ps.map (Places.pairing (offAxis epsilon roots).get) := hps
    rw [complex, hpairings, List.map_map]
    exact List.map_congr_left fun p _ => p.kept_pairing _
  · have hreal : (ofRoots signs epsilon roots).real.length =
        (roots.filter (onAxis epsilon)).length :=
      (perm_real signs epsilon roots).length_eq.trans (List.length_map _)
    have hplaces := hsettled.perm.length_eq
    rw [Places.length_flatMap_all, List.length_finRange] at hplaces
    have hsplit := List.length_eq_length_filter_add (l := roots) (onAxis epsilon)
    rw [hreal, hsplit, Nat.add_assoc, hplaces, offAxis]

end Separation

end Univariate
