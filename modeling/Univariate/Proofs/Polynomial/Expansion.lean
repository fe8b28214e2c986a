import Univariate.Proofs.Polynomial.Coefficients

namespace Univariate.Dense

open Polynomial

variable {K : Type} [CommRing K] {roots roots' cs : List K}

theorem length_timesRootAfter (r carry : K) (cs : List K) :
    (timesRootAfter r carry cs).length = cs.length + 1 := by
  induction cs generalizing carry with
  | nil => rfl
  | cons c cs ih => rw [timesRootAfter, List.length_cons, ih, List.length_cons]

theorem head?_timesRoot (r : K) (h : cs.head? = some 1) :
    (timesRootAfter r 0 cs).head? = some 1 := by
  cases cs with
  | nil => cases h
  | cons c cs =>
    cases h
    rw [timesRootAfter, zero_add]
    rfl

theorem toPolynomial_timesRootAfter (r carry : K) (cs : List K) :
    toPolynomial (timesRootAfter r carry cs) =
      C carry * X ^ cs.length + toPolynomial cs * (X - C r) := by
  induction cs generalizing carry with
  | nil => rw [timesRootAfter, toPolynomial_cons, toPolynomial_nil, zero_mul]
  | cons c cs ih =>
    rw [timesRootAfter, toPolynomial_cons, ih, length_timesRootAfter, toPolynomial_cons c cs,
      List.length_cons, C_add, C_sub, C_mul, C_0]
    ring

structure Expands (roots cs : List K) : Prop where
  length : cs.length = roots.length + 1
  head : cs.head? = some 1
  eq : toPolynomial cs = (roots.map fun r => X - C r).prod

theorem Expands.concat (h : Expands roots cs) (r : K) :
    Expands (roots ++ [r]) (timesRootAfter r 0 cs) := by
  refine ⟨?_, head?_timesRoot r h.head, ?_⟩
  · rw [length_timesRootAfter, h.length, List.length_append, List.length_singleton]
  · rw [toPolynomial_timesRootAfter, C_0, zero_mul, zero_add, h.eq, List.map_append,
      List.prod_append, List.map_singleton, List.prod_singleton]

theorem expands_ofRoots (roots : List K) : Expands roots (ofRoots roots) := by
  induction roots using List.reverseRecOn with
  | nil =>
    refine ⟨rfl, rfl, ?_⟩
    rw [ofRoots, List.foldl_nil, toPolynomial_cons, toPolynomial_nil]
    simp
  | append_singleton roots r ih =>
    rw [ofRoots, List.foldl_concat]
    exact ih.concat r

theorem ofRoots_eq_of_perm (h : roots.Perm roots') : ofRoots roots = ofRoots roots' := by
  obtain ⟨hlength, -, heq⟩ := expands_ofRoots roots
  obtain ⟨hlength', -, heq'⟩ := expands_ofRoots roots'
  apply eq_of_toPolynomial_eq
  · rw [hlength, hlength', h.length_eq]
  · rw [heq, heq', (h.map _).prod_eq]

theorem eval_ofRoots (roots : List K) (x : K) :
    Dense.eval (ofRoots roots) x = (roots.map fun r => x - r).prod := by
  rw [← eval_toPolynomial, (expands_ofRoots roots).eq, eval_list_prod, List.map_map]
  congr 1
  apply List.map_congr_left
  intro r _
  rw [Function.comp_apply, eval_sub, eval_X, eval_C]

theorem ofRoots_expands (roots : List K) :
    (ofRoots roots).length = roots.length + 1 ∧ (ofRoots roots).head? = some 1 ∧
    (∀ roots', roots'.Perm roots → ofRoots roots' = ofRoots roots) ∧
    ∀ x, Dense.eval (ofRoots roots) x = (roots.map fun r => x - r).prod := by
  obtain ⟨hlength, hhead, -⟩ := expands_ofRoots roots
  exact ⟨hlength, hhead, fun roots' hperm => ofRoots_eq_of_perm hperm, eval_ofRoots roots⟩

theorem ofRoots_expands_cubic :
    [2, -1, 2].Perm [2, 2, (-1 : ℤ)] ∧ ofRoots [2, -1, 2] = ofRoots [2, 2, (-1 : ℤ)] ∧
      ofRoots [2, 2, (-1 : ℤ)] = [1, -3, 0, 4] := by
  have hperm : [2, -1, 2].Perm [2, 2, (-1 : ℤ)] := by decide
  exact ⟨hperm, (ofRoots_expands [2, 2, -1]).2.2.1 _ hperm, by decide⟩

end Univariate.Dense
