import Univariate.Proofs.Polynomial.Coefficients
import Univariate.Proofs.Roots.Partners
import Univariate.Proofs.Roots.Stopping
import Univariate.Roots.Solution

namespace Univariate

namespace DurandKerner

theorem length_roots_run (coefficients : List Float) (tolerance : Float) (cap : Nat) :
    (run coefficients tolerance cap).roots.length = (Dense.trim coefficients).length - 1 := by
  by_cases h : (Dense.trim coefficients).length < 2
  · rw [run_of_length_lt_two h]
    exact (Nat.sub_eq_zero_of_le (by omega)).symm
  · rw [(reached_run tolerance cap h).roots, length_estimates, initialGuesses, List.length_map,
      List.length_range]

end DurandKerner

section Formulas

variable {a : Float}

theorem length_linear (h : (a == 0) = false) (b : Float) : (ClosedForm.linear a b).length = 1 := by
  rw [ClosedForm.linear, h]
  rfl

theorem length_quadratic (h : (a == 0) = false) (b c : Float) :
    (ClosedForm.quadratic a b c).length = 2 := by
  rw [ClosedForm.quadratic, h]
  rfl

theorem length_cubic (h : (a == 0) = false) (b c d : Float) :
    (ClosedForm.cubic a b c d).length = 3 := by
  rw [ClosedForm.cubic, h]
  rfl

end Formulas

namespace Pairing

theorem length_ofRoots_bounds (zs : List (Cartesian Float)) :
    (ofRoots zs).length ≤ zs.length ∧ zs.length ≤ 2 * (ofRoots zs).length := by
  have hlength := (perm_members zs).length_eq
  rw [← hlength, List.length_flatMap]
  induction ofRoots zs with
  | nil => exact ⟨Nat.le_refl _, Nat.le_refl _⟩
  | cons p ps ih =>
    have hpos : 0 < p.members.length := List.length_pos_of_mem p.kept_mem_members
    have htwo := p.length_members_le
    rw [List.length_cons, List.map_cons, List.sum_cons]
    omega

end Pairing

namespace Separation

theorem length_bounds (signs : Signs) (epsilon : Float) (roots : List (Cartesian Float)) :
    (ofRoots signs epsilon roots).real.length + (ofRoots signs epsilon roots).complex.length ≤
        roots.length ∧
      roots.length ≤ (ofRoots signs epsilon roots).real.length +
        2 * (ofRoots signs epsilon roots).complex.length := by
  have hreal : (ofRoots signs epsilon roots).real.length =
      (roots.filter (onAxis epsilon)).length :=
    (perm_real signs epsilon roots).length_eq.trans (List.length_map _)
  have hcomplex : (ofRoots signs epsilon roots).complex.length =
      (Pairing.ofRoots (roots.filter fun z => !onAxis epsilon z)).length := List.length_map _
  have hsplit := List.length_eq_length_filter_add (l := roots) (onAxis epsilon)
  have hbounds := Pairing.length_ofRoots_bounds (roots.filter fun z => !onAxis epsilon z)
  omega

end Separation

namespace Solution

variable {settings : Settings} {lead : Float} {tail coefficients : List Float}

theorem methodFor_formula (settings : Settings) (hlead : (lead == 0) = false)
    (h : tail.length < 4) :
    (methodFor settings (lead :: tail)).1.iterations = none ∧
      (methodFor settings (lead :: tail)).1.converged = true ∧
      (methodFor settings (lead :: tail)).2.length = tail.length := by
  match tail with
  | [] => exact ⟨rfl, rfl, rfl⟩
  | [b] => exact ⟨rfl, rfl, length_linear hlead b⟩
  | [b, c] => exact ⟨rfl, rfl, length_quadratic hlead b c⟩
  | [b, c, d] => exact ⟨rfl, rfl, length_cubic hlead b c d⟩
  | _ :: _ :: _ :: _ :: tail =>
    simp only [List.length_cons] at h
    omega

theorem methodFor_iteration (settings : Settings) (lead : Float) (h : 4 ≤ tail.length) :
    methodFor settings (lead :: tail) =
      (.durandKerner
        (DurandKerner.run (lead :: tail) settings.tolerance settings.maxIterations),
        (DurandKerner.run (lead :: tail) settings.tolerance settings.maxIterations).roots) := by
  match tail with
  | [] | [_] | [_, _] | [_, _, _] => simp at h
  | _ :: _ :: _ :: _ :: tail => rfl

/-- All that a solution of a polynomial of this degree says about its roots fits together. -/
structure Accounts (settings : Settings) (degree : Nat) (s : Solution) : Prop where
  roots : s.roots.length = degree
  iterated : (∃ outcome, s.method = .durandKerner outcome) ↔ 4 ≤ degree
  iterations : (∃ k, s.method.iterations = some k ∧ k ≤ settings.maxIterations) ↔ 4 ≤ degree
  without : s.method.iterations = none ↔ degree < 4
  cutShort : s.method.converged = false → s.method.iterations = some settings.maxIterations
  separated_le : s.separation.real.length + s.separation.complex.length ≤ s.roots.length
  le_separated : s.roots.length ≤ s.separation.real.length + 2 * s.separation.complex.length

theorem accounts_methodFor (settings : Settings) (hlead : (lead == 0) = false) (nominal : Nat) :
    Accounts settings tail.length ⟨nominal, tail.length, (methodFor settings (lead :: tail)).1,
      (methodFor settings (lead :: tail)).2,
      .ofRoots Separation.computed settings.epsilon (methodFor settings (lead :: tail)).2⟩ := by
  have hbounds := Separation.length_bounds Separation.computed settings.epsilon
    (methodFor settings (lead :: tail)).2
  by_cases h : 4 ≤ tail.length
  · have htrim : Dense.trim (lead :: tail) = lead :: tail :=
      List.dropWhile_cons_of_neg (by simp [hlead])
    have hlength := DurandKerner.length_roots_run (lead :: tail) settings.tolerance
      settings.maxIterations
    rw [htrim, List.length_cons, Nat.add_sub_cancel] at hlength
    rw [methodFor_iteration settings lead h] at hbounds ⊢
    exact {
      roots := hlength
      iterated := iff_of_true ⟨_, rfl⟩ h
      iterations := iff_of_true ⟨_, rfl, DurandKerner.iterations_run_le _ _ _⟩ h
      without := iff_of_false nofun (not_lt.mpr h)
      cutShort := fun hc => congrArg some (DurandKerner.iterations_run_of_not_converged hc)
      separated_le := hbounds.1
      le_separated := hbounds.2 }
  · obtain ⟨hiterations, hconverged, hlength⟩ :=
      methodFor_formula settings hlead (not_le.mp h)
    refine ⟨hlength, iff_of_false ?_ h, iff_of_false ?_ h, iff_of_true hiterations (not_le.mp h),
      ?_, hbounds.1, hbounds.2⟩
    · rintro ⟨outcome, hmethod⟩
      dsimp only at hmethod
      rw [hmethod] at hiterations
      cases hiterations
    · rintro ⟨k, hk, -⟩
      cases hk.symm.trans hiterations
    · intro hc
      cases hc.symm.trans hconverged

theorem ofCoefficients_of_trim (settings : Settings) (h : Dense.trim coefficients = lead :: tail) :
    ofCoefficients settings coefficients =
      .ok ⟨coefficients.length - 1, tail.length, (methodFor settings (lead :: tail)).1,
        (methodFor settings (lead :: tail)).2,
        .ofRoots Separation.computed settings.epsilon (methodFor settings (lead :: tail)).2⟩ := by
  have hne : coefficients.isEmpty = false := by
    rw [List.isEmpty_eq_false_iff]
    rintro rfl
    cases h
  unfold ofCoefficients
  simp only [hne, h, List.isEmpty_cons, Bool.false_eq_true, if_false, List.length_cons,
    Nat.add_sub_cancel]

theorem exists_trim_eq_cons (h : ∃ c ∈ coefficients, (c == 0) = false) :
    ∃ lead tail, Dense.trim coefficients = lead :: tail ∧ (lead == 0) = false := by
  have hhead := Dense.head?_trim coefficients
  cases htrim : Dense.trim coefficients with
  | nil =>
    obtain ⟨c, hc, hne⟩ := h
    have hzero := List.dropWhile_eq_nil_iff.mp htrim c hc
    rw [hne] at hzero
    cases hzero
  | cons lead tail =>
    rw [htrim] at hhead
    exact ⟨lead, tail, rfl, hhead lead rfl⟩

/-- Every polynomial with a coefficient other than zero is solved, whatever the settings are, and
the solution accounts for all roots that its degree promises. Zeros in front change nothing but
the degree that the number of coefficients promises. -/
theorem ofCoefficients_accounts (settings : Settings) (coefficients : List Float) :
    (coefficients = [] → ofCoefficients settings coefficients = .error .emptyPolynomial) ∧
    (coefficients ≠ [] → (∀ c ∈ coefficients, (c == 0) = true) →
      ofCoefficients settings coefficients = .error .zeroPolynomial) ∧
    ((∃ c ∈ coefficients, (c == 0) = false) →
      ∃ s, ofCoefficients settings coefficients = .ok s ∧
        Accounts settings ((Dense.trim coefficients).length - 1) s ∧
        ∀ zeros : List Float, (∀ z ∈ zeros, (z == 0) = true) →
          ofCoefficients settings (zeros ++ coefficients) =
            .ok { s with nominalDegree := zeros.length + s.nominalDegree }) := by
  refine ⟨?_, ?_, ?_⟩
  · rintro rfl
    rfl
  · intro hne hzero
    have htrim : Dense.trim coefficients = [] := List.dropWhile_eq_nil_iff.mpr hzero
    have hempty : coefficients.isEmpty = false := List.isEmpty_eq_false_iff.mpr hne
    unfold ofCoefficients
    simp only [hempty, htrim, List.isEmpty_nil, Bool.false_eq_true, if_false, if_true]
  · intro hne
    obtain ⟨lead, tail, htrim, hlead⟩ := exists_trim_eq_cons hne
    obtain ⟨c, hc, -⟩ := hne
    have hpos := List.length_pos_of_mem hc
    refine ⟨_, ofCoefficients_of_trim settings htrim, ?_, ?_⟩
    · rw [htrim, List.length_cons, Nat.add_sub_cancel]
      exact accounts_methodFor settings hlead _
    · intro zeros hzeros
      have happend : Dense.trim (zeros ++ coefficients) = lead :: tail := by
        rw [← htrim]
        exact List.dropWhile_append_of_pos hzeros
      rw [ofCoefficients_of_trim settings happend, List.length_append,
        Nat.add_sub_assoc hpos]

theorem ofCoefficients_accounts_notANumber :
    ∃ s, ofCoefficients { maxIterations := 0 } [1, 0 / 0, 0, 0, 0] = .ok s ∧
      s.roots.length = 4 ∧
      ofCoefficients { maxIterations := 0 } ([0, -0] ++ [1, 0 / 0, 0, 0, 0]) =
        .ok { s with nominalDegree := 2 + s.nominalDegree } := by
  have hne : ∃ c ∈ [1, 0 / 0, 0, 0, (0 : Float)], (c == 0) = false := by decide +kernel
  have hlength : (Dense.trim [1, 0 / 0, 0, 0, (0 : Float)]).length - 1 = 4 := by decide +kernel
  have hzeros : ∀ z ∈ [0, (-0 : Float)], (z == 0) = true := by decide +kernel
  obtain ⟨s, hs, haccounts, hprepend⟩ :=
    (ofCoefficients_accounts { maxIterations := 0 } [1, 0 / 0, 0, 0, 0]).2.2 hne
  exact ⟨s, hs, haccounts.roots.trans hlength, hprepend _ hzeros⟩

end Solution

end Univariate
