import Mathlib
import Univariate.Polynomial.Dense

namespace Univariate.Dense

open Polynomial

theorem head?_trim {K : Type} [Zero K] [BEq K] (cs : List K) :
    ∀ c ∈ (trim cs).head?, (c == 0) = false := by
  intro c hc
  have hhead := List.head?_dropWhile_not (· == 0) cs
  rw [trim, Option.mem_def] at hc
  rw [hc] at hhead
  exact hhead

section Horner

variable {K : Type} [CommSemiring K]

theorem foldl_horner (acc x : K) (cs : List K) :
    cs.foldl (fun acc c => acc * x + c) acc = acc * x ^ cs.length + Dense.eval cs x := by
  unfold Dense.eval
  induction cs generalizing acc with
  | nil => simp
  | cons c cs ih =>
    rw [List.foldl_cons, List.foldl_cons, ih (acc * x + c), ih (0 * x + c), List.length_cons]
    ring

theorem eval_cons (c x : K) (cs : List K) :
    Dense.eval (c :: cs) x = c * x ^ cs.length + Dense.eval cs x := by
  rw [← foldl_horner c x cs, Dense.eval, List.foldl_cons, zero_mul, zero_add]

end Horner

section Polynomials

variable {K : Type} [CommRing K] {c : K} {cs ds : List K}

noncomputable def toPolynomial (cs : List K) : K[X] := Dense.eval (cs.map C) X

@[simp]
theorem toPolynomial_nil : toPolynomial ([] : List K) = 0 := rfl

theorem toPolynomial_cons (c : K) (cs : List K) :
    toPolynomial (c :: cs) = C c * X ^ cs.length + toPolynomial cs := by
  rw [toPolynomial, List.map_cons, eval_cons, List.length_map, toPolynomial]

@[simp]
theorem toPolynomial_zero_cons (cs : List K) : toPolynomial (0 :: cs) = toPolynomial cs := by
  rw [toPolynomial_cons, C_0, zero_mul, zero_add]

theorem eval_toPolynomial (cs : List K) (x : K) :
    Polynomial.eval x (toPolynomial cs) = Dense.eval cs x := by
  induction cs with
  | nil => exact Polynomial.eval_zero
  | cons c cs ih =>
    rw [toPolynomial_cons, eval_cons, ← ih]
    simp

theorem degree_toPolynomial_lt (cs : List K) : (toPolynomial cs).degree < cs.length := by
  induction cs with
  | nil => exact degree_zero.trans_lt (WithBot.bot_lt_coe _)
  | cons c cs ih =>
    rw [toPolynomial_cons, List.length_cons]
    have hstep : (cs.length : WithBot ℕ) < (cs.length + 1 : ℕ) := by exact_mod_cast Nat.lt_succ_self _
    refine (degree_add_le _ _).trans_lt (max_lt ?_ (ih.trans hstep))
    exact (degree_C_mul_X_pow_le _ _).trans_lt hstep

theorem coeff_length_toPolynomial (c : K) (cs : List K) :
    (toPolynomial (c :: cs)).coeff cs.length = c := by
  rw [toPolynomial_cons, coeff_add, coeff_C_mul_X_pow, if_pos rfl,
    coeff_eq_zero_of_degree_lt (degree_toPolynomial_lt cs), add_zero]

theorem degree_toPolynomial_cons (h : c ≠ 0) :
    (toPolynomial (c :: cs)).degree = cs.length := by
  apply degree_eq_of_le_of_coeff_ne_zero
  · have hlt := degree_toPolynomial_lt (c :: cs)
    exact Order.lt_succ_iff.mp (by exact_mod_cast hlt)
  · rw [coeff_length_toPolynomial]
    exact h

theorem eq_of_toPolynomial_eq (hlength : cs.length = ds.length)
    (h : toPolynomial cs = toPolynomial ds) : cs = ds := by
  induction cs generalizing ds with
  | nil => exact (List.length_eq_zero_iff.mp hlength.symm).symm
  | cons c cs ih =>
    cases ds with
    | nil => cases hlength
    | cons d ds =>
      have hrest : cs.length = ds.length := Nat.succ.inj hlength
      have hcoeff := coeff_length_toPolynomial c cs
      rw [h, hrest, coeff_length_toPolynomial] at hcoeff
      rw [toPolynomial_cons, toPolynomial_cons, hrest, hcoeff, add_right_inj] at h
      rw [hcoeff, ih hrest h]

def Trimmed (cs : List K) : Prop := ∀ c ∈ cs.head?, c ≠ 0

theorem degree_of_trimmed (h : Trimmed (c :: cs)) :
    (toPolynomial (c :: cs)).degree = cs.length :=
  degree_toPolynomial_cons (h c rfl)

theorem length_eq_of_trimmed (h : Trimmed cs) (h' : Trimmed ds)
    (heq : toPolynomial cs = toPolynomial ds) : cs.length = ds.length := by
  have hdegree := congrArg degree heq
  cases cs with
  | nil =>
    cases ds with
    | nil => rfl
    | cons d ds =>
      rw [toPolynomial_nil, degree_zero, degree_of_trimmed h'] at hdegree
      cases hdegree
  | cons c cs =>
    rw [degree_of_trimmed h] at hdegree
    cases ds with
    | nil =>
      rw [toPolynomial_nil, degree_zero] at hdegree
      cases hdegree
    | cons d ds =>
      rw [degree_of_trimmed h'] at hdegree
      have hlength : cs.length = ds.length := by exact_mod_cast hdegree
      rw [List.length_cons, List.length_cons, hlength]

end Polynomials

section Trimmed

variable {K : Type} [CommRing K] [DecidableEq K] {c : K} {cs ds : List K}

theorem trimmed_trim (cs : List K) : Trimmed (trim cs) :=
  fun c hc => ne_of_beq_false (head?_trim cs c hc)

theorem trim_eq_self (h : Trimmed cs) : trim cs = cs := by
  cases cs with
  | nil => rfl
  | cons c cs =>
    have hc : (c == 0) = false := beq_false_of_ne (h c rfl)
    rw [trim, List.dropWhile_cons, hc]
    rfl

theorem trim_eq_nil_iff : trim cs = [] ↔ ∀ c ∈ cs, c = 0 := by
  simp [trim]

@[simp]
theorem toPolynomial_trim (cs : List K) : toPolynomial (trim cs) = toPolynomial cs := by
  induction cs with
  | nil => rfl
  | cons c cs ih =>
    by_cases hc : c = 0
    · have hstep : trim (c :: cs) = trim cs := List.dropWhile_cons_of_pos (by simp [hc])
      rw [hstep, ih, hc, toPolynomial_zero_cons]
    · rw [trim_eq_self]
      intro d hd
      cases hd
      exact hc

theorem trim_eq_trim_iff : trim cs = trim ds ↔ toPolynomial cs = toPolynomial ds := by
  constructor
  · intro h
    rw [← toPolynomial_trim cs, h, toPolynomial_trim]
  · intro h
    rw [← toPolynomial_trim cs, ← toPolynomial_trim ds] at h
    exact eq_of_toPolynomial_eq (length_eq_of_trimmed (trimmed_trim cs) (trimmed_trim ds) h) h

theorem toPolynomial_eq_zero_iff : toPolynomial cs = 0 ↔ ∀ c ∈ cs, c = 0 := by
  rw [← toPolynomial_nil, ← trim_eq_trim_iff, ← trim_eq_nil_iff]
  rfl

end Trimmed

end Univariate.Dense
