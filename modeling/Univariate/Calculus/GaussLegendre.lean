import Univariate.Elementary

/-!
# Gauss–Legendre quadrature

The nodes are the zeros of a Legendre polynomial. They are found by Newton's method from their
asymptotic position, in integers that count units of `2 ^ -100`, and rounded at the end.
-/

namespace Univariate.Calculus

namespace GaussLegendre

def unit : Int := Nat.pow 2 100

def product (a b : Int) : Int := a * b / unit

def quotient (a b : Int) : Int := a * unit / b

def legendreAfter (x : Int) : (steps k : Nat) → (current previous : Int) → Int × Int
  | 0, _, current, previous => (current, previous)
  | steps + 1, k, current, previous =>
    let next := ((2 * k + 1) * product x current - k * previous) / (k + 1)
    legendreAfter x steps (k + 1) next current

def legendre (n : Nat) (x : Int) : Int × Int :=
  let (value, previous) := legendreAfter x n 0 unit 0
  (value, quotient (n * (product x value - previous)) (product x x - unit))

def newton (n : Nat) : (steps : Nat) → Int → Int
  | 0, x => x
  | steps + 1, x =>
    let (value, slope) := legendre n x
    newton n steps (x - quotient value slope)

def ofFloat (x : Float) : Int :=
  let b := Decimal.Binary.ofFloat x
  (b.mantissa * Nat.pow 2 100 / Nat.pow 2 (-b.exponent).toNat : Nat)

def toFloat (x : Int) : Float := Decimal.Binary.round ⟨x.toNat, -100⟩

def positiveNode (n i : Nat) : Float × Float :=
  let guess := Float.cos (Elementary.pi * ((i : Float) + 0.75) / ((n : Float) + 0.5))
  let x := newton n 5 (ofFloat guess)
  let slope := (legendre n x).2
  (toFloat x, toFloat (quotient (2 * unit) (product (unit - product x x) (product slope slope))))

def middleWeight (n : Nat) : Float :=
  let slope := (legendre n 0).2
  toFloat (quotient (2 * unit) (product slope slope))

def nodes (n : Nat) : List (Float × Float) :=
  let upper := (List.range (n / 2)).map (positiveNode n)
  let middle := if n % 2 = 1 then [(0, middleWeight n)] else []
  upper ++ middle ++ (upper.map fun (x, w) => (-x, w)).reverse

end GaussLegendre

def gaussLegendre (f : Float → Float) (a b : Float) (n : Nat) : Float :=
  1 / 2 * (b - a) * sum ((GaussLegendre.nodes n).map fun (x, w) =>
    f (1 / 2 * ((b - a) * x + (b + a))) * w)

end Univariate.Calculus
