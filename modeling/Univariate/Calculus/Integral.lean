import Univariate.Calculus.GaussLegendre
import Univariate.Calculus.Simpson
import Univariate.Settings

namespace Univariate.Calculus

inductive Rule where
  | simpson (intervals : Nat)
  | gaussLegendre (nodes : Nat)
  deriving Repr

def Rule.usual : Rule := .simpson 1000

def integral (f : Float → Float) (a b : Float) : Rule → Except SolverError Float
  | .simpson intervals =>
    if intervals = 0 then .error (.invalidConfig "Simpson rule needs at least one interval")
    else .ok (simpson f a b intervals)
  | .gaussLegendre nodes =>
    if nodes < 2 then .error (.invalidConfig "Failed to create Gauss-Legendre quadrature")
    else .ok (gaussLegendre f a b nodes)

end Univariate.Calculus
