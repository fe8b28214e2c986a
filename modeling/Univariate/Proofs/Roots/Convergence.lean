import Mathlib.Data.List.Pairwise
import Univariate.Elementary
import Univariate.Proofs.Double.NotANumber
import Univariate.Roots.DurandKerner

namespace Univariate

open Double

namespace Cartesian

def Spoilt (z : Cartesian Float) : Prop := z.re.isNaN = true ∨ z.im.isNaN = true

def Lost (z : Cartesian Float) : Prop := z.re.isNaN = true ∧ z.im.isNaN = true

variable {z w : Cartesian Float}

theorem Lost.spoilt (h : z.Lost) : z.Spoilt := .inl h.1

theorem lost_mul (h : z.Spoilt ∨ w.Spoilt) : (z * w).Lost := by
  have hre : (z.re * w.re).isNaN = true ∨ (z.im * w.im).isNaN = true := by
    rcases h with (h | h) | (h | h)
    · exact .inl (isNaN_mul (.inl h))
    · exact .inr (isNaN_mul (.inl h))
    · exact .inl (isNaN_mul (.inr h))
    · exact .inr (isNaN_mul (.inr h))
  have him : (z.re * w.im).isNaN = true ∨ (z.im * w.re).isNaN = true := by
    rcases h with (h | h) | (h | h)
    · exact .inl (isNaN_mul (.inl h))
    · exact .inr (isNaN_mul (.inl h))
    · exact .inr (isNaN_mul (.inr h))
    · exact .inl (isNaN_mul (.inr h))
  exact ⟨isNaN_sub hre, isNaN_add him⟩

theorem spoilt_sub (h : w.Spoilt) : (z - w).Spoilt :=
  h.imp (fun h => isNaN_sub (.inr h)) fun h => isNaN_sub (.inr h)

theorem isNaN_squaredNorm (h : z.Spoilt) : z.squaredNorm.isNaN = true :=
  isNaN_add (h.imp (fun h => isNaN_mul (.inl h)) fun h => isNaN_mul (.inl h))

theorem isNaN_abs_iff : z.abs.isNaN = true ↔ z.Spoilt := by
  constructor
  · intro h
    by_contra hz
    simp only [Spoilt, not_or, Bool.not_eq_true] at hz
    have hnorm : 0 ≤ z.squaredNorm := zero_le_add (zero_le_square hz.1) (zero_le_square hz.2)
    have hsize : z.abs.isNaN = false := isNaN_eq_false_of_nonnegative (zero_le_sqrt hnorm)
    rw [hsize] at h
    cases h
  · intro h
    exact isNaN_sqrt (isNaN_squaredNorm h)

theorem zero_le_abs (h : z.abs.isNaN = false) : 0 ≤ z.abs := by
  have hz : ¬ z.Spoilt := by
    rw [← isNaN_abs_iff, h]
    exact Bool.false_ne_true
  simp only [Spoilt, not_or, Bool.not_eq_true] at hz
  exact zero_le_sqrt (zero_le_add (zero_le_square hz.1) (zero_le_square hz.2))

theorem div?_of_spoilt (h : w.Spoilt) : ∃ q : Cartesian Float, z.div? w = some q ∧ q.Lost := by
  have hnorm := isNaN_squaredNorm h
  have hne : ¬ (w.squaredNorm == 0) = true := by
    rw [beq_iff, isNaN_iff.mp hnorm]
    intro h
    cases h
  refine ⟨_, if_neg hne, ?_⟩
  exact ⟨isNaN_div (.inr hnorm), isNaN_div (.inr hnorm)⟩

end Cartesian

open Cartesian

namespace DurandKerner

variable {monic : List Float} {z : Cartesian Float} {zs done others : List (Cartesian Float)}
  {s : Step Float} {steps : List (Step Float)} {largest tolerance : Float}

section Spreading

theorem lost_foldl_mul {acc : Cartesian Float} (h : acc.Lost ∨ ∃ w ∈ others, w.Spoilt) :
    (others.foldl (fun acc w => acc * (z - w)) acc).Lost := by
  induction others generalizing acc with
  | nil => simpa using h
  | cons w others ih =>
    apply ih
    rcases h with h | ⟨w', hw', h⟩
    · exact .inl (lost_mul (.inl h.spoilt))
    · rcases List.mem_cons.mp hw' with rfl | hw'
      · exact .inl (lost_mul (.inr (spoilt_sub h)))
      · exact .inr ⟨w', hw', h⟩

theorem lost_distances (h : ∃ w ∈ others, w.Spoilt) : (distances z others).Lost :=
  lost_foldl_mul (.inr h)

theorem exists_correction_lost (monic : List Float) (z : Cartesian Float)
    (h : ∃ w ∈ others, w.Spoilt) :
    ∃ q, correction? monic z others = some q ∧ q.Lost :=
  div?_of_spoilt (lost_distances h).spoilt

theorem spoilt_of_mem_sweepAfter (h : ∃ w ∈ done, w.Spoilt) :
    ∀ s ∈ sweepAfter monic done zs, s.taken.Spoilt := by
  induction zs generalizing done with
  | nil => simp [sweepAfter]
  | cons z zs ih =>
    obtain ⟨w, hw, hspoilt⟩ := h
    have hothers : ∃ w ∈ done.reverse ++ zs, w.Spoilt := ⟨w, by simp [hw], hspoilt⟩
    obtain ⟨q, hq, hlost⟩ := exists_correction_lost monic z hothers
    intro s hs
    rw [sweepAfter, hq] at hs
    rcases List.mem_cons.mp hs with rfl | hs
    · exact hlost.spoilt
    · exact ih ⟨w, List.mem_cons_of_mem _ hw, hspoilt⟩ s hs

theorem pairwise_spoilt_sweepAfter :
    (sweepAfter monic done zs).Pairwise fun s s' => s.taken.Spoilt → s'.taken.Spoilt := by
  induction zs generalizing done with
  | nil => exact .nil
  | cons z zs ih =>
    rw [sweepAfter]
    refine .cons ?_ ih
    intro s hs htaken
    exact spoilt_of_mem_sweepAfter ⟨_, List.mem_cons_self, spoilt_sub htaken⟩ s hs

end Spreading

section Largest

def larger (largest : Float) (s : Step Float) : Float :=
  if s.taken.abs ≤ largest then largest else s.taken.abs

theorem largestCorrection_eq (steps : List (Step Float)) :
    largestCorrection steps = steps.foldl larger 0 := rfl

theorem isNaN_larger (hl : largest.isNaN = false) (hs : s.taken.abs.isNaN = false) :
    (larger largest s).isNaN = false := by
  unfold larger
  split
  · exact hl
  · exact hs

theorem larger_lt_iff (hl : largest.isNaN = false) (hs : s.taken.abs.isNaN = false) :
    larger largest s < tolerance ↔ largest < tolerance ∧ s.taken.abs < tolerance := by
  unfold larger
  split
  · rename_i hle
    exact ⟨fun h => ⟨h, le_lt_trans hs hle h⟩, And.left⟩
  · rename_i hle
    exact ⟨fun h => ⟨le_lt_trans hl (ge_of_not_le hs hl hle) h, h⟩, And.right⟩

theorem foldl_larger_lt_iff (hl : largest.isNaN = false)
    (hs : ∀ s ∈ steps, s.taken.abs.isNaN = false) :
    steps.foldl larger largest < tolerance ↔
      largest < tolerance ∧ ∀ s ∈ steps, s.taken.abs < tolerance := by
  induction steps generalizing largest with
  | nil => simp
  | cons s steps ih =>
    have hhead := hs s List.mem_cons_self
    have hrest := ih (isNaN_larger hl hhead) fun s' hs' => hs s' (List.mem_cons_of_mem s hs')
    rw [List.foldl_cons, hrest, larger_lt_iff hl hhead, List.forall_mem_cons, and_assoc]

theorem isNaN_foldl_larger (steps : List (Step Float)) (hs : s.taken.Spoilt) :
    ((steps ++ [s]).foldl larger largest).isNaN = true := by
  have hsize := isNaN_abs_iff.mpr hs
  rw [List.foldl_append, List.foldl_cons, List.foldl_nil, larger, if_neg (not_le_of_isNaN hsize)]
  exact hsize

def Small (tolerance : Float) (s : Step Float) : Prop :=
  s.taken.abs.isNaN = false ∧ s.taken.abs < tolerance

theorem spoilt_last {s' : Step Float}
    (h : (steps ++ [s']).Pairwise fun s s' => s.taken.Spoilt → s'.taken.Spoilt)
    (hs : ∃ s ∈ steps ++ [s'], s.taken.Spoilt) : s'.taken.Spoilt := by
  obtain ⟨s, hmem, hspoilt⟩ := hs
  rcases List.mem_append.mp hmem with hmem | hmem
  · exact (List.pairwise_append.mp h).2.2 s hmem s' List.mem_cons_self hspoilt
  · cases List.mem_singleton.mp hmem
    exact hspoilt

theorem largestCorrection_lt_iff (hne : steps ≠ [])
    (h : steps.Pairwise fun s s' => s.taken.Spoilt → s'.taken.Spoilt) :
    largestCorrection steps < tolerance ↔ ∀ s ∈ steps, Small tolerance s := by
  have hzero : (0 : Float).isNaN = false := rfl
  rw [largestCorrection_eq]
  by_cases hspoilt : ∃ s ∈ steps, s.taken.Spoilt
  · obtain ⟨init, last, rfl⟩ : ∃ init last, steps = init ++ [last] :=
      ⟨_, _, (List.dropLast_concat_getLast hne).symm⟩
    have hlast := spoilt_last h hspoilt
    constructor
    · intro hlt
      have hnumber := (isNaN_eq_false_of_lt hlt).1
      rw [isNaN_foldl_larger init hlast] at hnumber
      cases hnumber
    · intro hsmall
      have hnumber := (hsmall last (by simp)).1
      rw [isNaN_abs_iff.mpr hlast] at hnumber
      cases hnumber
  · have hnumber : ∀ s ∈ steps, s.taken.abs.isNaN = false := by
      intro s hs
      rw [← Bool.not_eq_true, isNaN_abs_iff]
      exact fun hs' => hspoilt ⟨s, hs, hs'⟩
    rw [foldl_larger_lt_iff hzero hnumber]
    constructor
    · exact fun hlt s hs => ⟨hnumber s hs, hlt.2 s hs⟩
    · intro hsmall
      obtain ⟨s, hs⟩ := List.exists_mem_of_ne_nil steps hne
      exact ⟨le_lt_trans hzero (zero_le_abs (hnumber s hs)) (hsmall s hs).2,
        fun s hs => (hsmall s hs).2⟩

end Largest

section Runs

variable {start : List (Cartesian Float)}

def estimates (monic : List Float) (start : List (Cartesian Float)) : Nat → List (Cartesian Float)
  | 0 => start
  | n + 1 => (sweep monic (estimates monic start n)).map Step.estimate

theorem length_sweepAfter (done zs : List (Cartesian Float)) :
    (sweepAfter monic done zs).length = zs.length := by
  induction zs generalizing done with
  | nil => rfl
  | cons z zs ih => simp [sweepAfter, ih]

theorem length_sweep (monic : List Float) (zs : List (Cartesian Float)) :
    (sweep monic zs).length = zs.length :=
  length_sweepAfter [] zs

theorem length_estimates (n : Nat) : (estimates monic start n).length = start.length := by
  induction n with
  | zero => rfl
  | succ n ih => rw [estimates, List.length_map, length_sweep, ih]

structure Reached (monic : List Float) (start : List (Cartesian Float)) (tolerance : Float)
    (o : Outcome Float) : Prop where
  roots : o.roots = estimates monic start o.iterations
  converged : o.converged = true ↔ 0 < o.iterations ∧
    ∀ s ∈ sweep monic (estimates monic start (o.iterations - 1)), Small tolerance s

theorem Reached.next {o : Outcome Float} (hne : start ≠ []) (h : Reached monic start tolerance o) :
    Reached monic start tolerance
      ⟨(sweep monic o.roots).map Step.estimate, o.iterations + 1,
        decide (largestCorrection (sweep monic o.roots) < tolerance),
        some (largestCorrection (sweep monic o.roots))⟩ := by
  have hsteps : sweep monic (estimates monic start o.iterations) ≠ [] := by
    rw [← List.length_pos_iff, length_sweep, length_estimates, List.length_pos_iff]
    exact hne
  rw [h.roots]
  constructor
  · rfl
  · simp only [decide_eq_true_eq, Nat.add_sub_cancel, Nat.succ_pos, true_and]
    exact largestCorrection_lt_iff hsteps pairwise_spoilt_sweepAfter

theorem Reached.iterate {o : Outcome Float} (hne : start ≠ []) (cap : Nat)
    (h : Reached monic start tolerance o) :
    Reached monic start tolerance (iterate monic tolerance cap o) := by
  induction cap generalizing o with
  | zero => exact h
  | succ cap ih =>
    rw [DurandKerner.iterate]
    split
    · exact h.next hne
    · exact ih (h.next hne)

end Runs

section Coefficients

def scaled (coefficients : List Float) : List Float :=
  (Dense.trim coefficients).map (· / (Dense.trim coefficients).headD 0)

def estimatesAfter (coefficients : List Float) (n : Nat) : List (Cartesian Float) :=
  estimates (scaled coefficients) (initialGuesses ((Dense.trim coefficients).length - 1)) n

def lastSweep (coefficients : List Float) (tolerance : Float) (cap : Nat) : List (Step Float) :=
  sweep (scaled coefficients)
    (estimatesAfter coefficients ((run coefficients tolerance cap).iterations - 1))

variable {coefficients : List Float} {cap : Nat}

theorem run_of_length_lt_two (h : (Dense.trim coefficients).length < 2) :
    run coefficients tolerance cap = ⟨[], 0, true, none⟩ := by
  unfold run
  cases htrim : Dense.trim coefficients with
  | nil => rfl
  | cons lead tail =>
    cases tail with
    | nil => rfl
    | cons c tail => simp [htrim] at h

theorem run_eq_iterate (tolerance : Float) (cap : Nat)
    (h : ¬ (Dense.trim coefficients).length < 2) :
    run coefficients tolerance cap = iterate (scaled coefficients) tolerance cap
      ⟨initialGuesses ((Dense.trim coefficients).length - 1), 0, false, none⟩ := by
  unfold scaled run
  cases htrim : Dense.trim coefficients with
  | nil => simp [htrim] at h
  | cons lead tail =>
    cases tail with
    | nil => simp [htrim] at h
    | cons c tail => rfl

theorem initialGuesses_ne_nil {degree : Nat} (h : 0 < degree) :
    initialGuesses (K := Float) degree ≠ [] := by
  simp [initialGuesses, Nat.ne_of_gt h]

theorem reached_run (tolerance : Float) (cap : Nat) (h : ¬ (Dense.trim coefficients).length < 2) :
    Reached (scaled coefficients) (initialGuesses ((Dense.trim coefficients).length - 1)) tolerance
      (run coefficients tolerance cap) := by
  have hne : initialGuesses (K := Float) ((Dense.trim coefficients).length - 1) ≠ [] :=
    initialGuesses_ne_nil (by omega)
  have hstart : Reached (scaled coefficients)
      (initialGuesses ((Dense.trim coefficients).length - 1)) tolerance
      ⟨initialGuesses ((Dense.trim coefficients).length - 1), 0, false, none⟩ :=
    ⟨rfl, by simp⟩
  rw [run_eq_iterate tolerance cap h]
  exact hstart.iterate hne cap

theorem length_lastSweep (coefficients : List Float) (tolerance : Float) (cap : Nat) :
    (lastSweep coefficients tolerance cap).length = (Dense.trim coefficients).length - 1 := by
  rw [lastSweep, length_sweep, estimatesAfter, length_estimates, initialGuesses, List.length_map,
    List.length_range]

/-- The roots of a run are the estimates after its sweeps, and it ends by itself exactly if all
corrections of the last sweep, of which there is one for each root, are numbers below the
tolerance. A constant needs no sweep. -/
theorem converged_iff (coefficients : List Float) (tolerance : Float) (cap : Nat) :
    (run coefficients tolerance cap).roots =
        estimatesAfter coefficients (run coefficients tolerance cap).iterations ∧
      (lastSweep coefficients tolerance cap).length = (Dense.trim coefficients).length - 1 ∧
      ((run coefficients tolerance cap).converged = true ↔
        (Dense.trim coefficients).length < 2 ∨
          0 < (run coefficients tolerance cap).iterations ∧
            ∀ s ∈ lastSweep coefficients tolerance cap,
              s.taken.abs.isNaN = false ∧ s.taken.abs < tolerance) := by
  have hlength := length_lastSweep coefficients tolerance cap
  by_cases h : (Dense.trim coefficients).length < 2
  · have hdegree : (Dense.trim coefficients).length - 1 = 0 := by omega
    refine ⟨?_, hlength, ?_⟩
    · rw [run_of_length_lt_two h, estimatesAfter, hdegree]
      rfl
    · rw [run_of_length_lt_two h]
      exact iff_of_true rfl (.inl h)
  · have hrun := reached_run tolerance cap h
    exact ⟨hrun.roots, hlength, hrun.converged.trans ⟨.inr, fun hc => hc.resolve_left h⟩⟩

end Coefficients

end DurandKerner

end Univariate
