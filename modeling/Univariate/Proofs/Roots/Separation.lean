import Mathlib.Algebra.Order.BigOperators.Group.List
import Univariate.Proofs.Roots.Pairing

namespace Univariate

open Cartesian

def ClosedUnderConjugation (zs : List (Cartesian ℚ)) : Prop := zs.Perm (zs.map conjugate)

/-- The kept roots are half of all, lie above the real axis and are, together with their
conjugates, all of them. -/
structure PairsUp (kept all : List (Cartesian Float)) : Prop where
  half : 2 * kept.length = all.length
  above : ∀ z ∈ kept, 0 < z.im
  perm : ((kept ++ kept.map conjugate).map exact).Perm (all.map exact)

section Closed

variable {zs : List (Cartesian ℚ)}

theorem ClosedUnderConjugation.filter {q : Cartesian ℚ → Bool} (h : ClosedUnderConjugation zs)
    (hq : ∀ z, q z.conjugate = q z) : ClosedUnderConjugation (zs.filter q) := by
  have hcomp : q ∘ conjugate = q := funext hq
  have hperm := List.Perm.filter q h
  rw [List.filter_map, hcomp] at hperm
  exact hperm

theorem perm_upper (h : ClosedUnderConjugation zs) (hne : ∀ z ∈ zs, z.im ≠ 0) :
    (zs.filter upper ++ (zs.filter upper).map conjugate).Perm zs := by
  have hlower : (zs.filter fun z => !upper z).Perm ((zs.filter upper).map conjugate) := by
    have hperm := List.Perm.filter (fun z => !upper z) h
    have hcongr : zs.filter ((fun z => !upper z) ∘ conjugate) = zs.filter upper := by
      apply List.filter_congr
      intro z hz
      rw [Function.comp, upper_conjugate (hne z hz), Bool.not_not]
    rw [List.filter_map, hcongr] at hperm
    exact hperm
  exact (hlower.symm.append_left _).trans (List.filter_append_perm upper zs)

theorem ClosedUnderConjugation.tail_tail {z : Cartesian ℚ}
    (h : ClosedUnderConjugation (z :: z.conjugate :: zs)) : ClosedUnderConjugation zs := by
  unfold ClosedUnderConjugation at h
  rw [List.map_cons, List.map_cons, conjugate_conjugate] at h
  exact ((h.trans (List.Perm.swap z z.conjugate _)).cons_inv).cons_inv

end Closed

theorem map_exact_append_conjugate (zs : List (Cartesian Float)) :
    (zs ++ zs.map conjugate).map exact = zs.map exact ++ (zs.map exact).map conjugate := by
  rw [List.map_append, List.map_map, List.map_map]
  congr 1
  apply List.map_congr_left
  intro z hz
  exact exact_conjugate z

theorem eq_of_sum_map_eq {α : Type} {f g : α → Nat} {as : List α} (hle : ∀ a ∈ as, f a ≤ g a)
    (h : (as.map f).sum = (as.map g).sum) : ∀ a ∈ as, f a = g a := by
  induction as with
  | nil =>
    intro a ha
    cases ha
  | cons b as ih =>
    have hb : f b ≤ g b := hle b List.mem_cons_self
    have htail : ∀ a ∈ as, f a ≤ g a := fun a ha => hle a (List.mem_cons_of_mem b ha)
    have hsum : (as.map f).sum ≤ (as.map g).sum := List.sum_le_sum htail
    rw [List.map_cons, List.map_cons, List.sum_cons, List.sum_cons] at h
    intro a ha
    rcases List.mem_cons.mp ha with rfl | ha
    · omega
    · exact ih htail (by omega) a ha

namespace Pairing

structure Admissible (zs : List (Cartesian Float)) : Prop where
  finite : ∀ z ∈ zs, IsFinite z
  offAxis : ∀ z ∈ zs, z.exact.im ≠ 0
  closed : ClosedUnderConjugation (zs.map exact)

variable {zs : List (Cartesian Float)}

theorem Admissible.exact_offAxis (h : Admissible zs) : ∀ z ∈ zs.map exact, z.im ≠ 0 := by
  intro z hz
  obtain ⟨w, hw, rfl⟩ := List.mem_map.mp hz
  exact h.offAxis w hw

theorem mem_of_mem_members {p : Pairing} {z : Cartesian Float} (hp : p ∈ ofRoots zs)
    (hz : z ∈ p.members) : z ∈ zs :=
  (perm_members zs).subset (List.mem_flatMap.mpr ⟨p, hp, hz⟩)

theorem filter_upper_flatMap {ps : List Pairing} (hf : ∀ p ∈ ps, ∀ z ∈ p.members, IsFinite z)
    (h : ∀ p ∈ ps, p.Opposite) :
    ((ps.flatMap members).map exact).filter upper = (ps.map kept).map exact := by
  induction ps with
  | nil => rfl
  | cons p ps ih =>
    have hp := filter_upper_members (hf p List.mem_cons_self) (h p List.mem_cons_self)
    have hps := ih (fun q hq => hf q (List.mem_cons_of_mem p hq))
      (fun q hq => h q (List.mem_cons_of_mem p hq))
    rw [List.flatMap_cons, List.map_append, List.filter_append, hp, hps]
    rfl

theorem pairsUp_of_opposite (hz : Admissible zs) (h : ∀ p ∈ ofRoots zs, p.Opposite) :
    PairsUp ((ofRoots zs).map kept) zs := by
  have hf : ∀ p ∈ ofRoots zs, ∀ z ∈ p.members, IsFinite z :=
    fun p hp z hm => hz.finite z (mem_of_mem_members hp hm)
  have hupper : (((ofRoots zs).map kept).map exact).Perm ((zs.map exact).filter upper) := by
    rw [← filter_upper_flatMap hf h]
    exact ((perm_members zs).map exact).filter upper
  have hperm : ((((ofRoots zs).map kept) ++ ((ofRoots zs).map kept).map conjugate).map exact).Perm
      (zs.map exact) := by
    rw [map_exact_append_conjugate]
    exact (hupper.append (hupper.map conjugate)).trans (perm_upper hz.closed hz.exact_offAxis)
  refine ⟨?_, ?_, hperm⟩
  · have hlength := hperm.length_eq
    simp only [List.length_map, List.length_append] at hlength
    rw [List.length_map]
    omega
  · intro z hmem
    obtain ⟨p, hp, rfl⟩ := List.mem_map.mp hmem
    rw [zero_lt_im_iff (hf p hp p.kept p.kept_mem_members)]
    have hexact := hupper.subset (List.mem_map_of_mem hmem)
    exact of_decide_eq_true (List.mem_filter.mp hexact).2

theorem countP_upper_of_pairsUp {kept all : List (Cartesian Float)} (hf : ∀ z ∈ kept, IsFinite z)
    (h : PairsUp kept all) : (all.map exact).countP upper = kept.length := by
  have habove : ∀ z ∈ kept.map exact, 0 < z.im := by
    intro z hz
    obtain ⟨w, hw, rfl⟩ := List.mem_map.mp hz
    exact (zero_lt_im_iff (hf w hw)).mp (h.above w hw)
  have hkept : (kept.map exact).countP upper = kept.length := by
    rw [List.countP_eq_length.mpr, List.length_map]
    intro z hz
    exact decide_eq_true (habove z hz)
  have hconjugates : ((kept.map exact).map conjugate).countP upper = 0 := by
    rw [List.countP_eq_zero]
    intro w hw
    obtain ⟨z, hz, rfl⟩ := List.mem_map.mp hw
    have hpos := habove z hz
    rw [upper_conjugate hpos.ne', upper, decide_eq_true hpos]
    exact Bool.false_ne_true
  rw [← h.perm.countP_eq, map_exact_append_conjugate, List.countP_append, hkept, hconjugates,
    Nat.add_zero]

theorem opposite_of_pairsUp (hz : Admissible zs) (h : PairsUp ((ofRoots zs).map kept) zs) :
    ∀ p ∈ ofRoots zs, p.Opposite := by
  have hf : ∀ p ∈ ofRoots zs, ∀ z ∈ p.members, IsFinite z :=
    fun p hp z hm => hz.finite z (mem_of_mem_members hp hm)
  have hkept : ∀ z ∈ (ofRoots zs).map kept, IsFinite z := by
    intro z hmem
    obtain ⟨p, hp, rfl⟩ := List.mem_map.mp hmem
    exact hf p hp p.kept p.kept_mem_members
  -- All members are twice as many as the pairings, and no pairing has more than two.
  have hlength : ∀ p ∈ ofRoots zs, p.members.length = 2 := by
    apply eq_of_sum_map_eq (fun p _ => p.length_members_le)
    have hhalf := h.half
    have hsum := (perm_members zs).length_eq
    rw [List.length_map] at hhalf
    rw [List.length_flatMap] at hsum
    rw [hsum, ← hhalf, List.map_const', List.sum_replicate_nat, Nat.mul_comm]
  -- The members above the axis are as many as the pairings, and each pairing has one.
  have hcount : ∀ p ∈ ofRoots zs, 1 = (p.members.map exact).countP upper := by
    apply eq_of_sum_map_eq
    · intro p hp
      have habove := h.above p.kept (List.mem_map_of_mem hp)
      rw [zero_lt_im_iff (hf p hp p.kept p.kept_mem_members)] at habove
      exact List.countP_pos_iff.mpr
        ⟨p.kept.exact, List.mem_map_of_mem p.kept_mem_members, decide_eq_true habove⟩
    · have hupper := countP_upper_of_pairsUp hkept h
      have hsum := ((perm_members zs).map exact).countP_eq upper
      rw [List.map_flatMap, List.countP_flatMap, hupper, List.length_map] at hsum
      rw [List.map_const', List.sum_replicate_nat, Nat.mul_one]
      exact hsum.symm
  intro p hp
  exact opposite_of_countP_upper (hf p hp)
    (fun z hm => hz.offAxis z (mem_of_mem_members hp hm)) (hlength p hp) (hcount p hp).symm

def Separated (zs : List (Cartesian Float)) : Prop :=
  ∀ z ∈ zs, ∀ w ∈ zs, matching z w = true → w.exact = z.exact.conjugate

theorem opposite_of_exact_eq {z w : Cartesian Float} (hz : IsFinite z) (hw : IsFinite w)
    (hne : z.exact.im ≠ 0) (h : w.exact = z.exact.conjugate) : (pair z w).Opposite := by
  have him : w.exact.im = -z.exact.im := congrArg Cartesian.im h
  rw [Opposite, zero_lt_im_iff hz, im_lt_zero_iff hz, zero_lt_im_iff hw, im_lt_zero_iff hw, him,
    neg_lt_zero, neg_pos, and_self, and_self]
  exact (lt_or_gt_of_ne hne).symm

theorem Admissible.remaining {z w : Cartesian Float} (h : Admissible (z :: zs))
    (hfind : zs.find? (matching z) = some w) (hw : w.exact = z.exact.conjugate) :
    Admissible (zs.eraseP (matching z)) := by
  have hsub : ∀ y ∈ zs.eraseP (matching z), y ∈ z :: zs :=
    fun y hy => List.mem_cons_of_mem z (List.mem_of_mem_eraseP hy)
  refine ⟨fun y hy => h.finite y (hsub y hy), fun y hy => h.offAxis y (hsub y hy), ?_⟩
  have hperm := (((perm_eraseP hfind).cons z).map exact)
  rw [List.map_cons, List.map_cons, hw] at hperm
  have hclosed := (hperm.trans h.closed).trans (hperm.symm.map conjugate)
  exact ClosedUnderConjugation.tail_tail hclosed

theorem opposite_of_separated (hz : Admissible zs) (h : Separated zs) :
    ∀ p ∈ ofRoots zs, p.Opposite := by
  induction zs using ofRoots.induct with
  | case1 =>
    intro p hp
    rw [ofRoots] at hp
    cases hp
  | case2 z zs w hfind ih =>
    have hmem : w ∈ zs := List.mem_of_find?_eq_some hfind
    have hw : w.exact = z.exact.conjugate := h z List.mem_cons_self w
      (List.mem_cons_of_mem z hmem) (List.find?_some hfind)
    have hrest : Separated (zs.eraseP (matching z)) := fun y hy y' hy' => h y
      (List.mem_cons_of_mem z (List.mem_of_mem_eraseP hy)) y'
      (List.mem_cons_of_mem z (List.mem_of_mem_eraseP hy'))
    rw [ofRoots_of_find?_eq_some hfind]
    intro p hp
    rcases List.mem_cons.mp hp with rfl | hp
    · exact opposite_of_exact_eq (hz.finite z List.mem_cons_self)
        (hz.finite w (List.mem_cons_of_mem z hmem)) (hz.offAxis z List.mem_cons_self) hw
    · exact ih (hz.remaining hfind hw) hrest p hp
  | case3 z zs hfind ih =>
    -- The conjugate of the first root is among the others, and it would have been found.
    have hmem : z.exact.conjugate ∈ (z :: zs).map exact :=
      hz.closed.symm.subset (List.mem_map_of_mem List.mem_cons_self)
    rcases List.mem_cons.mp hmem with heq | hmem
    · exact absurd heq (conjugate_ne (hz.offAxis z List.mem_cons_self))
    · obtain ⟨w, hw, heq⟩ := List.mem_map.mp hmem
      have hmatch := matching_of_exact_eq (hz.finite z List.mem_cons_self)
        (hz.finite w (List.mem_cons_of_mem z hw)) heq
      exact absurd hmatch (List.find?_eq_none.mp hfind w hw)

end Pairing

namespace Separation

variable {signs : Signs} {epsilon : Float} {roots : List (Cartesian Float)}

def nonReal (epsilon : Float) (roots : List (Cartesian Float)) : List (Cartesian Float) :=
  roots.filter fun z => decide (epsilon ≤ z.im.abs)

theorem pairings_ofRoots (hε : 0 < epsilon) (hf : ∀ z ∈ roots, IsFinite z) :
    (ofRoots signs epsilon roots).pairings = Pairing.ofRoots (nonReal epsilon roots) := by
  have hfilter : roots.filter (fun z => !onAxis epsilon z) = nonReal epsilon roots := by
    apply List.filter_congr
    intro z hz
    rw [onAxis, ← decide_not, decide_eq_decide]
    exact Double.not_lt_iff_le_of_pos (Double.isFinite_abs (hf z hz).2) hε
  rw [← hfilter]
  rfl

theorem le_abs_im_iff (hε : 0 < epsilon) {z : Cartesian Float} (hz : IsFinite z) :
    epsilon ≤ z.im.abs ↔
      epsilon.isFinite = true ∧ Double.value epsilon ≤ |z.exact.im| := by
  rw [Double.le_iff_of_pos (Double.isFinite_abs hz.2) hε, Double.value_abs, exact]

theorem admissible_nonReal (hε : 0 < epsilon) (hf : ∀ z ∈ roots, IsFinite z)
    (hc : ClosedUnderConjugation (roots.map exact)) :
    Pairing.Admissible (nonReal epsilon roots) := by
  refine ⟨fun z hz => hf z (List.mem_of_mem_filter hz), ?_, ?_⟩
  · intro z hz him
    have hle := of_decide_eq_true (List.mem_filter.mp hz).2
    obtain ⟨hfinite, hle⟩ := (le_abs_im_iff hε (hf z (List.mem_of_mem_filter hz))).mp hle
    rw [him, abs_zero] at hle
    rw [Double.lt_iff_value_lt Double.isFinite_zero hfinite, Double.value_zero] at hε
    exact hε.not_ge hle
  · let off (z : Cartesian ℚ) : Bool :=
      decide (epsilon.isFinite = true ∧ Double.value epsilon ≤ |z.im|)
    have hexact : (nonReal epsilon roots).map exact = (roots.map exact).filter off := by
      rw [nonReal, List.filter_map]
      congr 1
      apply List.filter_congr
      intro z hz
      exact decide_eq_decide.mpr (le_abs_im_iff hε (hf z hz))
    rw [hexact]
    apply hc.filter
    intro z
    simp only [off, conjugate, abs_neg]

/-- The separation gives one root of every conjugate pair exactly if every pairing joins a root
above the real axis and one below it. That is so for roots that match only their conjugates. -/
theorem pairsUp_iff_opposite (hε : 0 < epsilon) (hf : ∀ z ∈ roots, IsFinite z)
    (hc : ClosedUnderConjugation (roots.map exact)) :
    (PairsUp (ofRoots signs epsilon roots).complex (nonReal epsilon roots) ↔
      ∀ p ∈ (ofRoots signs epsilon roots).pairings, p.Opposite) ∧
    (Pairing.Separated (nonReal epsilon roots) →
      PairsUp (ofRoots signs epsilon roots).complex (nonReal epsilon roots)) := by
  have hz := admissible_nonReal hε hf hc
  rw [complex, pairings_ofRoots hε hf]
  refine ⟨⟨Pairing.opposite_of_pairsUp hz, Pairing.pairsUp_of_opposite hz⟩, ?_⟩
  intro h
  exact Pairing.pairsUp_of_opposite hz (Pairing.opposite_of_separated hz h)

theorem pairsUp_two_off_axis :
    PairsUp (ofRoots written 1e-9 [⟨1, 2⟩, ⟨5, 0⟩, ⟨1, -2⟩]).complex
      (nonReal 1e-9 [⟨1, 2⟩, ⟨5, 0⟩, ⟨1, -2⟩]) := by
  have hf : ∀ z ∈ [⟨1, 2⟩, ⟨5, 0⟩, (⟨1, -2⟩ : Cartesian Float)], IsFinite z := by
    unfold IsFinite
    decide +kernel
  have hc : ClosedUnderConjugation ([⟨1, 2⟩, ⟨5, 0⟩, ⟨1, -2⟩].map exact) := by
    unfold ClosedUnderConjugation
    decide +kernel
  have hs : Pairing.Separated (nonReal 1e-9 [⟨1, 2⟩, ⟨5, 0⟩, ⟨1, -2⟩]) := by
    unfold Pairing.Separated
    decide +kernel
  exact (pairsUp_iff_opposite (by decide +kernel) hf hc).2 hs

/-- Two pairs closer to each other than the tolerance: both roots above the axis are paired, and
so are both below it. -/
theorem not_pairsUp_clustered :
    ClosedUnderConjugation ([⟨1, 1e-8⟩, ⟨1, 2e-8⟩, ⟨1, -2e-8⟩, ⟨1, -1e-8⟩].map exact) ∧
    ¬PairsUp (ofRoots written 1e-9 [⟨1, 1e-8⟩, ⟨1, 2e-8⟩, ⟨1, -2e-8⟩, ⟨1, -1e-8⟩]).complex
      (nonReal 1e-9 [⟨1, 1e-8⟩, ⟨1, 2e-8⟩, ⟨1, -2e-8⟩, ⟨1, -1e-8⟩]) := by
  refine ⟨by unfold ClosedUnderConjugation; decide +kernel, ?_⟩
  intro h
  have hbelow : ∃ z ∈ (ofRoots written 1e-9
      [⟨1, 1e-8⟩, ⟨1, 2e-8⟩, ⟨1, -2e-8⟩, ⟨1, -1e-8⟩]).complex, ¬0 < z.im := by decide +kernel
  obtain ⟨z, hz, hle⟩ := hbelow
  exact hle (h.above z hz)

end Separation

end Univariate
