import Univariate.Scalar

namespace Univariate.Calculus

section
variable {K : Type} [Zero K] [One K] [NatCast K] [Add K] [Sub K] [Mul K] [Div K] [Neg K]

def evenCount (intervals : Nat) : Nat :=
  if intervals % 2 = 1 then intervals + 1 else intervals

def simpsonWeight (i : Nat) : K := if i % 2 = 1 then ((4 : Nat) : K) else ((2 : Nat) : K)

@[specialize] def simpson (f : K → K) (a b : K) (intervals : Nat) : K :=
  let n := evenCount intervals
  let h := (b - a) / (n : K)
  let inner := sum ((List.range' 1 (n - 1)).map fun (i : Nat) =>
    simpsonWeight i * f (a + (i : K) * h))
  h / ((3 : Nat) : K) * (f a + inner + f b)

end

end Univariate.Calculus
