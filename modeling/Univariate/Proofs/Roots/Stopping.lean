import Univariate.Proofs.Roots.Convergence

namespace Univariate.DurandKerner

variable {monic : List Float} {start : List (Cartesian Float)} {size : Nat → Float}
  {tolerance tolerance' : Float} {cap cap' k k' : Nat}

section Stop

def EndsBelow (size : Nat → Float) (tolerance : Float) (k : Nat) : Prop :=
  ∃ n, k = n + 1 ∧ size n < tolerance

/-- No sweep before the last of `k` is below the tolerance, and without the cap there is no other
reason to stop. -/
structure StopsAfter (size : Nat → Float) (tolerance : Float) (cap k : Nat) : Prop where
  le_cap : k ≤ cap
  larger : ∀ n, n + 1 < k → ¬ size n < tolerance
  ended : k < cap → EndsBelow size tolerance k

theorem EndsBelow.mono (h : EndsBelow size tolerance k) (htolerance : tolerance ≤ tolerance') :
    EndsBelow size tolerance' k := by
  obtain ⟨n, rfl, hlt⟩ := h
  exact ⟨n, rfl, Double.lt_le_trans hlt htolerance⟩

theorem StopsAfter.le_of_endsBelow (h : StopsAfter size tolerance cap k)
    (hbelow : EndsBelow size tolerance k') : k ≤ k' := by
  obtain ⟨n, rfl, hlt⟩ := hbelow
  exact Nat.le_of_not_lt fun hk => h.larger n hk hlt

theorem StopsAfter.le_of_tolerance_le (h : StopsAfter size tolerance cap k)
    (h' : StopsAfter size tolerance' cap k') (htolerance : tolerance ≤ tolerance') : k' ≤ k := by
  rcases Nat.lt_or_ge k cap with hk | hk
  · have hbelow : EndsBelow size tolerance k := h.ended hk
    exact h'.le_of_endsBelow (hbelow.mono htolerance)
  · exact h'.le_cap.trans hk

theorem StopsAfter.endsBelow_of_tolerance_le (h : StopsAfter size tolerance cap k)
    (h' : StopsAfter size tolerance' cap k') (htolerance : tolerance ≤ tolerance')
    (hbelow : EndsBelow size tolerance k) : EndsBelow size tolerance' k' := by
  rcases (h.le_of_tolerance_le h' htolerance).lt_or_eq with hlt | rfl
  · exact h'.ended (hlt.trans_le h.le_cap)
  · exact hbelow.mono htolerance

theorem StopsAfter.eq_of_cap_le (h : StopsAfter size tolerance cap k)
    (h' : StopsAfter size tolerance cap' k') (hcap : cap ≤ cap')
    (hbelow : EndsBelow size tolerance k) : k' = k := by
  have hle : k' ≤ k := h'.le_of_endsBelow hbelow
  rcases hle.lt_or_eq with hlt | heq
  · have hbelow' := h'.ended (hlt.trans_le (h.le_cap.trans hcap))
    exact hle.antisymm (h.le_of_endsBelow hbelow')
  · exact heq

end Stop

section Sweeps

def largestAfter (monic : List Float) (start : List (Cartesian Float)) (n : Nat) : Float :=
  largestCorrection (sweep monic (estimates monic start n))

def outcomeAfter (monic : List Float) (start : List (Cartesian Float)) (tolerance : Float) :
    Nat → Outcome Float
  | 0 => ⟨start, 0, false, none⟩
  | n + 1 =>
    ⟨estimates monic start (n + 1), n + 1, decide (largestAfter monic start n < tolerance),
      some (largestAfter monic start n)⟩

theorem roots_outcomeAfter (k : Nat) :
    (outcomeAfter monic start tolerance k).roots = estimates monic start k := by
  cases k <;> rfl

theorem iterations_outcomeAfter (k : Nat) :
    (outcomeAfter monic start tolerance k).iterations = k := by
  cases k <;> rfl

theorem converged_outcomeAfter_iff : (outcomeAfter monic start tolerance k).converged = true ↔
    EndsBelow (largestAfter monic start) tolerance k := by
  cases k with
  | zero => exact iff_of_false Bool.false_ne_true fun ⟨n, hn, _⟩ => nomatch hn
  | succ n =>
    rw [outcomeAfter, decide_eq_true_iff]
    constructor
    · exact fun hlt => ⟨n, rfl, hlt⟩
    · rintro ⟨m, hm, hlt⟩
      cases hm
      exact hlt

theorem iterate_outcomeAfter (m cap : Nat) :
    iterate monic tolerance (cap + 1) (outcomeAfter monic start tolerance m) =
      if largestAfter monic start m < tolerance then outcomeAfter monic start tolerance (m + 1)
      else iterate monic tolerance cap (outcomeAfter monic start tolerance (m + 1)) := by
  rw [iterate, roots_outcomeAfter, iterations_outcomeAfter]
  rfl

theorem exists_stop (cap : Nat) {m : Nat}
    (hlarger : ∀ n < m, ¬ largestAfter monic start n < tolerance) :
    ∃ k, iterate monic tolerance cap (outcomeAfter monic start tolerance m) =
        outcomeAfter monic start tolerance k ∧
      StopsAfter (largestAfter monic start) tolerance (m + cap) k := by
  induction cap generalizing m with
  | zero =>
    exact ⟨m, rfl, Nat.le_refl m, fun n hn => hlarger n (Nat.lt_of_succ_lt hn),
      fun hlt => absurd hlt (Nat.lt_irrefl m)⟩
  | succ cap ih =>
    rw [iterate_outcomeAfter]
    split
    · rename_i hlt
      refine ⟨m + 1, rfl, by omega, ?_, fun _ => ⟨m, rfl, hlt⟩⟩
      exact fun n hn => hlarger n (Nat.lt_of_succ_lt_succ hn)
    · rename_i hlt
      have hnext : ∀ n < m + 1, ¬ largestAfter monic start n < tolerance := by
        intro n hn
        rcases Nat.lt_succ_iff_lt_or_eq.mp hn with hn | rfl
        · exact hlarger n hn
        · exact hlt
      obtain ⟨k, hk, hstops⟩ := ih hnext
      rw [Nat.add_right_comm] at hstops
      exact ⟨k, hk, hstops⟩

end Sweeps

section Runs

variable {coefficients : List Float}

theorem exists_run_eq (tolerance : Float) (cap : Nat)
    (h : ¬ (Dense.trim coefficients).length < 2) :
    ∃ k, run coefficients tolerance cap =
        outcomeAfter (scaled coefficients)
          (initialGuesses ((Dense.trim coefficients).length - 1)) tolerance k ∧
      StopsAfter (largestAfter (scaled coefficients)
        (initialGuesses ((Dense.trim coefficients).length - 1))) tolerance cap k := by
  have hnone : ∀ n < 0, ¬ largestAfter (scaled coefficients)
      (initialGuesses ((Dense.trim coefficients).length - 1)) n < tolerance := nofun
  obtain ⟨k, hk, hstops⟩ := exists_stop cap hnone
  rw [Nat.zero_add] at hstops
  exact ⟨k, (run_eq_iterate tolerance cap h).trans hk, hstops⟩

theorem iterations_run_le (coefficients : List Float) (tolerance : Float) (cap : Nat) :
    (run coefficients tolerance cap).iterations ≤ cap := by
  by_cases h : (Dense.trim coefficients).length < 2
  · rw [run_of_length_lt_two h]
    exact Nat.zero_le cap
  · obtain ⟨k, hk, hstops⟩ := exists_run_eq tolerance cap h
    rw [hk, iterations_outcomeAfter]
    exact hstops.le_cap

theorem iterations_run_of_not_converged
    (h : (run coefficients tolerance cap).converged = false) :
    (run coefficients tolerance cap).iterations = cap := by
  by_cases hlength : (Dense.trim coefficients).length < 2
  · rw [run_of_length_lt_two hlength] at h
    cases h
  · obtain ⟨k, hk, hstops⟩ := exists_run_eq tolerance cap hlength
    rw [hk, ← Bool.not_eq_true, converged_outcomeAfter_iff] at h
    rw [hk, iterations_outcomeAfter]
    exact hstops.le_cap.antisymm (Nat.le_of_not_lt fun hlt => h (hstops.ended hlt))

theorem run_of_cap_le (hcap : cap ≤ cap')
    (h : (run coefficients tolerance cap).converged = true) :
    run coefficients tolerance cap' = run coefficients tolerance cap := by
  by_cases hlength : (Dense.trim coefficients).length < 2
  · rw [run_of_length_lt_two hlength, run_of_length_lt_two hlength]
  · obtain ⟨k, hk, hstops⟩ := exists_run_eq tolerance cap hlength
    obtain ⟨k', hk', hstops'⟩ := exists_run_eq tolerance cap' hlength
    rw [hk, converged_outcomeAfter_iff] at h
    rw [hk, hk', hstops.eq_of_cap_le hstops' hcap h]

theorem run_of_tolerance_le (coefficients : List Float) (cap : Nat)
    (htolerance : tolerance ≤ tolerance') :
    (run coefficients tolerance' cap).iterations ≤ (run coefficients tolerance cap).iterations ∧
      ((run coefficients tolerance cap).converged = true →
        (run coefficients tolerance' cap).converged = true) := by
  by_cases hlength : (Dense.trim coefficients).length < 2
  · rw [run_of_length_lt_two hlength, run_of_length_lt_two hlength]
    exact ⟨Nat.le_refl 0, id⟩
  · obtain ⟨k, hk, hstops⟩ := exists_run_eq tolerance cap hlength
    obtain ⟨k', hk', hstops'⟩ := exists_run_eq tolerance' cap hlength
    rw [hk, hk', iterations_outcomeAfter, iterations_outcomeAfter, converged_outcomeAfter_iff,
      converged_outcomeAfter_iff]
    exact ⟨hstops.le_of_tolerance_le hstops' htolerance,
      hstops.endsBelow_of_tolerance_le hstops' htolerance⟩

theorem roots_run_eq_of_iterations_eq
    (h : (run coefficients tolerance cap).iterations =
      (run coefficients tolerance' cap').iterations) :
    (run coefficients tolerance cap).roots = (run coefficients tolerance' cap').roots := by
  by_cases hlength : (Dense.trim coefficients).length < 2
  · rw [run_of_length_lt_two hlength, run_of_length_lt_two hlength]
  · rw [(reached_run tolerance cap hlength).roots, (reached_run tolerance' cap' hlength).roots, h]

/-- A run makes no more sweeps than its cap allows, and as many unless it converges. Once it has
converged, a larger cap changes nothing; a larger tolerance makes it stop no later, and not without
converging. The roots depend on nothing but the number of sweeps. -/
theorem run_stops_determined (coefficients : List Float) :
    (∀ tolerance cap, (run coefficients tolerance cap).iterations ≤ cap ∧
      ((run coefficients tolerance cap).converged = false →
        (run coefficients tolerance cap).iterations = cap)) ∧
    (∀ tolerance cap cap', cap ≤ cap' → (run coefficients tolerance cap).converged = true →
      run coefficients tolerance cap' = run coefficients tolerance cap) ∧
    (∀ tolerance tolerance' cap, tolerance ≤ tolerance' →
      (run coefficients tolerance' cap).iterations ≤ (run coefficients tolerance cap).iterations ∧
      ((run coefficients tolerance cap).converged = true →
        (run coefficients tolerance' cap).converged = true)) ∧
    ∀ tolerance tolerance' cap cap',
      (run coefficients tolerance cap).iterations =
        (run coefficients tolerance' cap').iterations →
      (run coefficients tolerance cap).roots = (run coefficients tolerance' cap').roots := by
  refine ⟨?_, ?_, ?_, ?_⟩
  · intro tolerance cap
    exact ⟨iterations_run_le coefficients tolerance cap, iterations_run_of_not_converged⟩
  · intro tolerance cap cap' hcap
    exact run_of_cap_le hcap
  · intro tolerance tolerance' cap
    exact run_of_tolerance_le coefficients cap
  · intro tolerance tolerance' cap cap'
    exact roots_run_eq_of_iterations_eq

theorem run_stops_determined_quartic :
    (run [1, 0, -5, 0, 4] 1e-6 0).iterations = 0 ∧
    run [0, 7] 1e-6 5 = run [0, 7] 1e-6 0 ∧
    (run [1, 0, -5, 0, 4] 1e-3 100).iterations ≤ (run [1, 0, -5, 0, 4] 1e-6 100).iterations ∧
    (run [0, 7] 1e-3 100).converged = true ∧
    (run [1, 0, -5, 0, 4] 1e-6 0).roots = (run [1, 0, -5, 0, 4] 1e-3 0).roots := by
  have htolerance : (1e-6 : Float) ≤ 1e-3 := by decide +kernel
  have hcut (tolerance : Float) :
      (run [1, 0, -5, 0, 4] tolerance 0).iterations = 0 :=
    Nat.le_zero.mp (iterations_run_le _ tolerance 0)
  obtain ⟨hcap, -, hlarger, hroots⟩ := run_stops_determined [1, 0, -5, 0, 4]
  obtain ⟨-, hconstant, hconverged, -⟩ := run_stops_determined [0, 7]
  have hseven (tolerance : Float) (cap : Nat) : (run [0, 7] tolerance cap).converged = true := by
    rw [run_of_length_lt_two (by decide +kernel)]
  exact ⟨Nat.le_zero.mp (hcap 1e-6 0).1,
    hconstant 1e-6 0 5 (Nat.zero_le 5) (hseven 1e-6 0),
    (hlarger 1e-6 1e-3 100 htolerance).1,
    (hconverged 1e-6 1e-3 100 htolerance).2 (hseven 1e-6 100),
    hroots 1e-6 1e-3 0 0 ((hcut 1e-6).trans (hcut 1e-3).symm)⟩

end Runs

end Univariate.DurandKerner
