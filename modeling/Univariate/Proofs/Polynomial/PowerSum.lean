import Univariate.Proofs.Exact.Pairs
import Univariate.Proofs.Polynomial.Coefficients

namespace Univariate.Dense

open Cartesian

theorem map_eval {K L : Type} [CommRing K] [CommRing L] (f : K →+* L) (cs : List K) (x : K) :
    f (Dense.eval cs x) = Dense.eval (cs.map f) (f x) := by
  induction cs with
  | nil => exact map_zero f
  | cons c cs ih =>
    rw [eval_cons, List.map_cons, eval_cons, map_add, map_mul, map_pow, ih, List.length_map]

variable {K : Type} [CommRing K]

theorem evalCartesian_eq (cs : List K) (z : Cartesian K) :
    evalCartesian cs z = Dense.eval (cs.map ofReal) z := by
  rw [Dense.eval, List.foldl_map]
  rfl

theorem evalCartesian_cons (c : K) (cs : List K) (z : Cartesian K) :
    evalCartesian (c :: cs) z = (z.pow cs.length).scale c + evalCartesian cs z := by
  rw [evalCartesian_eq, evalCartesian_eq, List.map_cons, eval_cons, List.length_map, scale_eq,
    pow_eq]

theorem evalCartesian_eq_sum (cs : List K) (z : Cartesian K) :
    evalCartesian cs z =
      ∑ i : Fin cs.length, (z.pow (cs.length - 1 - i)).scale cs[i] := by
  induction cs with
  | nil => rfl
  | cons c cs ih =>
    have hlast (i : Fin cs.length) : cs.length + 1 - 1 - (i.succ : ℕ) = cs.length - 1 - i := by
      rw [Fin.val_succ]
      omega
    have hsplit := Fin.sum_univ_succ fun i : Fin (cs.length + 1) =>
      (z.pow (cs.length + 1 - 1 - i)).scale (c :: cs)[i]
    simp only [hlast] at hsplit
    rw [evalCartesian_cons, ih]
    exact hsplit.symm

theorem evalCartesian_ofReal (cs : List K) (x : K) :
    evalCartesian cs (ofReal x) = ofReal (Dense.eval cs x) := by
  rw [evalCartesian_eq]
  exact (map_eval ofRealHom cs x).symm

theorem evalCartesian_conjugate (cs : List K) (z : Cartesian K) :
    evalCartesian cs z.conjugate = (evalCartesian cs z).conjugate := by
  have hreal : (cs.map ofReal).map conjugateHom = cs.map ofReal := by
    rw [List.map_map]
    exact List.map_congr_left fun c _ => conjugate_ofReal c
  have hmap := map_eval conjugateHom (cs.map ofReal) z
  rw [hreal, ← evalCartesian_eq] at hmap
  rw [evalCartesian_eq]
  exact hmap.symm

theorem evalCartesian_powers (cs : List K) :
    (∀ z, evalCartesian cs z =
      ∑ i : Fin cs.length, (z.pow (cs.length - 1 - i)).scale cs[i]) ∧
    (∀ x, evalCartesian cs (ofReal x) = ofReal (Dense.eval cs x)) ∧
    ∀ z, evalCartesian cs z.conjugate = (evalCartesian cs z).conjugate :=
  ⟨evalCartesian_eq_sum cs, evalCartesian_ofReal cs, evalCartesian_conjugate cs⟩

end Univariate.Dense
