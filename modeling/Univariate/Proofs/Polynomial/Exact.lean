import Mathlib
import Univariate.Expr.Eval
import Univariate.Proofs.Decimal.ReadBack
import Univariate.Proofs.Exact.Power
import Univariate.Proofs.Polynomial.Collecting
import Univariate.Proofs.Polynomial.Phrases
import Univariate.Proofs.Expr.Soundness

namespace Univariate

namespace Dense

variable {K : Type} [CommSemiring K]

theorem eval_reverse (as : List K) (x : K) :
    eval as.reverse x = as.foldr (fun c acc => acc * x + c) 0 :=
  List.foldl_reverse

theorem foldr_addAscending (c x : K) (power : Nat) (as : List K) :
    (addAscending c power as).foldr (fun c acc => acc * x + c) 0 =
      as.foldr (fun c acc => acc * x + c) 0 + c * x ^ power := by
  induction power generalizing as with
  | zero => cases as <;> simp [addAscending, add_assoc]
  | succ power ih =>
    cases as with
    | nil =>
      rw [addAscending, List.foldr_cons, ih []]
      simp only [List.foldr_nil]
      ring
    | cons a as =>
      rw [addAscending, List.foldr_cons, List.foldr_cons, ih as]
      ring

theorem eval_ofTerms (terms : List (Nat × K)) (x : K) :
    eval (ofTerms terms) x = (terms.map fun t => t.2 * x ^ t.1).sum := by
  rw [ofTerms_eq, eval_reverse]
  induction terms using List.reverseRecOn with
  | nil => rfl
  | append_singleton terms t ih =>
    rw [collect_concat, addTo, foldr_addAscending, ih, List.map_append, List.sum_append]
    simp

end Dense

open Decimal

theorem integerExponent?_decimal {ds : List Char} (h : Literal.value ds ≤ Term.maxPower) :
    (Expr.const (Literal.decimal ds [])).integerExponent? = some (Literal.value ds : Int) := by
  have hlt : Literal.value ds < 2 ^ 53 := by
    unfold Term.maxPower at h
    omega
  have hle : ((Literal.value ds : Int).natAbs ≤ 2147483647) = True := by
    unfold Term.maxPower at h
    simp only [eq_iff_iff, iff_true]
    omega
  rw [Expr.integerExponent?, integer?_decimal hlt]
  simp only [Option.filter_some, hle, decide_true, if_true]

def Term.exact {K : Type} [Neg K] (constant : Float → K) (t : Term) : K :=
  if t.negative then -constant t.magnitude else constant t.magnitude

namespace Expr

variable {v : String} {e e' : Expr} {terms : List Term} {t : Term}

/-- The expression is the polynomial of the terms, in exact arithmetic. -/
def Denotes (v : String) (e : Expr) (terms : List Term) : Prop :=
  ∀ (K : Type) [CommRing K] [Div K] [Elementary K] (constant : Float → K) (value : String → K),
    constant 1 = 1 →
      e.eval constant value =
        Dense.eval (Dense.ofTerms (terms.map fun t => (t.power, t.exact constant))) (value v)

theorem denotes_iff_sum : Denotes v e terms ↔
    ∀ (K : Type) [CommRing K] [Div K] [Elementary K] (constant : Float → K) (value : String → K),
      constant 1 = 1 →
        e.eval constant value = (terms.map fun t => t.exact constant * value v ^ t.power).sum := by
  unfold Denotes
  simp only [Dense.eval_ofTerms, List.map_map, Function.comp_def]

theorem Denotes.add (h : Denotes v e terms) (h' : Denotes v e' [t]) :
    Denotes v (.binary .add e e') (terms ++ [t]) := by
  rw [denotes_iff_sum] at h h' ⊢
  intro K _ _ _ constant value hone
  rw [eval, h K constant value hone, h' K constant value hone]
  simp

theorem Denotes.sub (h : Denotes v e terms) (h' : Denotes v e' [t]) (ht : t.negative = false) :
    Denotes v (.binary .sub e e') (terms ++ [{ t with negative := true }]) := by
  rw [denotes_iff_sum] at h h' ⊢
  intro K _ _ _ constant value hone
  rw [eval, h K constant value hone, h' K constant value hone]
  simp [Term.exact, ht, sub_eq_add_neg]

theorem Denotes.neg (h : Denotes v e [t]) (ht : t.negative = false) :
    Denotes v (.neg e) [{ t with negative := true }] := by
  rw [denotes_iff_sum] at h ⊢
  intro K _ _ _ constant value hone
  rw [eval, h K constant value hone]
  simp [Term.exact, ht]

theorem denotes_const (v : String) (x : Float) : Denotes v (.const x) [⟨false, x, 0⟩] := by
  rw [denotes_iff_sum]
  intro K _ _ _ constant value _
  simp [eval, Term.exact]

theorem Denotes.mul {n : Nat} (h : Denotes v e [t]) (ht : t.power = 0)
    (h' : Denotes v e' [⟨false, 1, n⟩]) :
    Denotes v (.binary .mul e e') [{ t with power := n }] := by
  rw [denotes_iff_sum] at h h' ⊢
  intro K _ _ _ constant value hone
  rw [eval, h K constant value hone, h' K constant value hone]
  simp [Term.exact, ht, hone]

theorem denotes_var (v : String) : Denotes v (.var v) [⟨false, 1, 1⟩] := by
  rw [denotes_iff_sum]
  intro K _ _ _ constant value hone
  simp [eval, Term.exact, hone]

theorem denotes_pow (v : String) {ds : List Char} (h : Literal.value ds ≤ Term.maxPower) :
    Denotes v (.binary .pow (.var v) (.const (Literal.decimal ds [])))
      [⟨false, 1, Literal.value ds⟩] := by
  rw [denotes_iff_sum]
  intro K _ _ _ constant value hone
  rw [eval_pow_of_integer (integerExponent?_decimal h), integerPower_natCast]
  simp [eval, Term.exact, hone]

end Expr

end Univariate
