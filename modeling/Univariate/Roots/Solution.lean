import Univariate.Elementary
import Univariate.Roots.ClosedForm
import Univariate.Settings

namespace Univariate

inductive Method where
  | constant
  | linear
  | quadratic
  | cubic (resolvent : ClosedForm.Resolvent Float)
  | durandKerner (outcome : DurandKerner.Outcome Float)

namespace Method

def name : Method → String
  | .constant => "constant"
  | .linear => "linear formula"
  | .quadratic => "quadratic formula"
  | .cubic _ => "Cardano"
  | .durandKerner _ => "Durand-Kerner"

def iterations : Method → Option Nat
  | .durandKerner o => some o.iterations
  | _ => none

def converged : Method → Bool
  | .durandKerner o => o.converged
  | _ => true

end Method

structure Solution where
  /-- The degree that the number of coefficients promises. -/
  nominalDegree : Nat
  degree : Nat
  method : Method
  roots : List (Cartesian Float)
  separation : Separation

namespace Solution

def methodFor (settings : Settings) (coefficients : List Float) :
    Method × List (Cartesian Float) :=
  match coefficients with
  | [] | [_] => (.constant, [])
  | [a, b] => (.linear, ClosedForm.linear a b)
  | [a, b, c] => (.quadratic, ClosedForm.quadratic a b c)
  | [a, b, c, d] => (.cubic (.ofCubic a b c d), ClosedForm.cubic a b c d)
  | cs =>
    let outcome := DurandKerner.run cs settings.tolerance settings.maxIterations
    (.durandKerner outcome, outcome.roots)

def ofCoefficients (settings : Settings) (coefficients : List Float) :
    Except SolverError Solution :=
  if coefficients.isEmpty then .error .emptyPolynomial
  else
    let trimmed := Dense.trim coefficients
    if trimmed.isEmpty then .error .zeroPolynomial
    else
      let (method, roots) := methodFor settings trimmed
      .ok ⟨coefficients.length - 1, trimmed.length - 1, method, roots,
        .ofRoots Separation.computed settings.epsilon roots⟩

end Solution

def rootsOf (coefficients : List Float) : List (Cartesian Float) :=
  match Solution.ofCoefficients {} coefficients with
  | .ok s => s.roots
  | .error _ => []

end Univariate
