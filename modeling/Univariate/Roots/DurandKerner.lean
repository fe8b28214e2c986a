import Univariate.Polynomial.Dense

/-!
# Simultaneous iteration for all roots

Every estimate is corrected by the quotient of the polynomial's value there and the product of
its distances from the other estimates. Within a sweep the estimates are corrected one after the
other, and each correction is seen by the ones that follow.
-/

namespace Univariate.DurandKerner

section
variable {K : Type} [One K] [NatCast K] [Add K] [Mul K] [Div K] [Elementary K]

/-- Evenly spaced points of the unit circle, turned by a quarter of a step, so that none is real
and no two are conjugate. -/
def initialGuesses (degree : Nat) : List (Cartesian K) :=
  let step : K := (2 : Nat) * Elementary.pi / (degree : K)
  (List.range degree).map fun (i : Nat) =>
    let angle := step * (i : K) + step / (4 : Nat)
    ⟨Elementary.cos angle, Elementary.sin angle⟩

end

section
variable {K : Type} [Zero K] [One K] [Add K] [Sub K] [Mul K] [Div K] [BEq K]

@[specialize] def distances (z : Cartesian K) (others : List (Cartesian K)) : Cartesian K :=
  others.foldl (fun acc w => acc * (z - w)) (.ofReal 1)

@[specialize] def correction? (monic : List K) (z : Cartesian K) (others : List (Cartesian K)) :
    Option (Cartesian K) :=
  (Dense.evalCartesian monic z).div? (distances z others)

structure Step (K : Type) where
  correction : Option (Cartesian K)
  estimate : Cartesian K

variable [Undefined K]

def Step.taken (s : Step K) : Cartesian K := s.correction.getD ⟨undefined, undefined⟩

@[specialize] def sweepAfter (monic : List K) (done : List (Cartesian K)) :
    List (Cartesian K) → List (Step K)
  | [] => []
  | z :: zs =>
    let correction := correction? monic z (done.reverse ++ zs)
    let estimate := z - correction.getD ⟨undefined, undefined⟩
    ⟨correction, estimate⟩ :: sweepAfter monic (estimate :: done) zs

@[specialize] def sweep (monic : List K) (estimates : List (Cartesian K)) : List (Step K) :=
  sweepAfter monic [] estimates

end

structure Outcome (K : Type) where
  roots : List (Cartesian K)
  iterations : Nat
  converged : Bool
  largest : Option K

section
variable {K : Type} [Zero K] [One K] [NatCast K] [Add K] [Sub K] [Mul K] [Div K] [Neg K] [BEq K]
  [LT K] [DecidableLT K] [LE K] [DecidableLE K] [Elementary K] [Undefined K]

/-- The largest correction of a sweep. What does not compare counts as larger. -/
@[specialize] def largestCorrection (steps : List (Step K)) : K :=
  steps.foldl (fun largest s =>
    let size := s.taken.abs
    if size ≤ largest then largest else size) 0

@[specialize] def iterate (monic : List K) (tolerance : K) :
    (cap : Nat) → Outcome K → Outcome K
  | 0, o => o
  | cap + 1, o =>
    let steps := sweep monic o.roots
    let largest := largestCorrection steps
    let next : Outcome K :=
      ⟨steps.map Step.estimate, o.iterations + 1, decide (largest < tolerance), some largest⟩
    if largest < tolerance then next else iterate monic tolerance cap next

@[specialize] def run (coefficients : List K) (tolerance : K) (cap : Nat) : Outcome K :=
  match Dense.trim coefficients with
  | [] | [_] => ⟨[], 0, true, none⟩
  | lead :: tail =>
    let monic := (lead :: tail).map (· / lead)
    iterate monic tolerance cap ⟨initialGuesses tail.length, 0, false, none⟩

end

def defaultCap : Nat := 100

def defaultTolerance : Float := 0.000001

end Univariate.DurandKerner
