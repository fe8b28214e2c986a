import Univariate.Scalar

namespace Univariate.Calculus

section
variable {K : Type} [Zero K] [One K] [NatCast K] [Add K] [Sub K] [Mul K] [Div K] [Neg K]

/-- The terms `k, k + 1, …` of the central difference of order `n` with step `h`, added to
`sum`. The binomial coefficient of `n` over `k` is carried along, and `terms` counts how many are
to come. -/
def differenceSum (f : K → K) (x h : K) (n : Nat) :
    (terms k : Nat) → (binomial sum : K) → K
  | 0, _, _, sum => sum
  | terms + 1, k, binomial, sum =>
    let sign : K := if k % 2 = 0 then 1 else -1
    let node := x + (1 / ((2 : Nat) : K) * (n : K) - (k : K)) * h
    differenceSum f x h n terms (k + 1) (binomial * ((n : K) - (k : K)) / ((k : K) + 1))
      (sum + sign * binomial * f node)

/-- The order counts the terms as it is and stands in the exponent with a sign, which from `2 ^ 31`
on is negative. -/
def difference (f : K → K) (x h : K) (order : UInt32) : K :=
  let n := order.toNat
  differenceSum f x h n (n + 1) 0 1 0 / integerPower h order.toInt32.toInt

variable [LT K] [DecidableLT K] [Elementary K]

def differenceStep (x : K) (n : Nat) : K :=
  let spacing : K := 1 / ((4503599627370496 : Nat) : K)
  let size := Elementary.abs x
  Elementary.power spacing (1 / ((n : K) + ((2 : Nat) : K))) * (if 1 < size then size else 1)

def derivative (f : K → K) (x : K) (order : UInt32) : K :=
  if order = 0 then f x else difference f x (differenceStep x order.toNat) order

def taylorAfter (f : K → K) (center : K) : (terms k : Nat) → (factorial : K) → List K
  | 0, _, _ => []
  | terms + 1, k, factorial =>
    let factorial := if k = 0 then factorial else factorial * (k : K)
    derivative f center (.ofNat k) / factorial :: taylorAfter f center terms (k + 1) factorial

def taylor (f : K → K) (center : K) (order : UInt32) : List K :=
  taylorAfter f center (order.toNat + 1) 0 1

end

end Univariate.Calculus
