/-!
# The numbers that the algorithms run on

The numerical algorithms are written once, over any type with the operations they use. The
classes here name the operations that are no part of arithmetic; doubles have all of them.
-/

namespace Univariate

class Undefined (K : Type) where
  undefined : K

export Undefined (undefined)

class Extended (K : Type) extends Undefined K where
  infinity : K
  isFinite : K → Bool
  isInfinite : K → Bool

class Elementary (K : Type) where
  pi : K
  abs : K → K
  sqrt : K → K
  cbrt : K → K
  exp : K → K
  ln : K → K
  log10 : K → K
  sin : K → K
  cos : K → K
  tan : K → K
  arcsin : K → K
  arccos : K → K
  arctan : K → K
  angle : K → K → K
  power : K → K → K

instance natCastFloat : NatCast Float := ⟨Float.ofNat⟩

instance : Extended Float where
  undefined := 0 / 0
  infinity := 1 / 0
  isFinite := Float.isFinite
  isInfinite := Float.isInf

section
variable {K : Type} [Zero K] [LT K] [DecidableLT K]

/-- A positive number as it is; zero in place of anything else, the undefined included. -/
def positivePart (x : K) : K := if 0 < x then x else 0

end

section
variable {K : Type} [One K] [Mul K] [Div K]

def squaring (m a : K) (n : Nat) : K :=
  let m := if n % 2 = 1 then m * a else m
  if n / 2 = 0 then m else squaring m (a * a) (n / 2)
termination_by n

@[specialize] def integerPower (a : K) (n : Int) : K :=
  let m := squaring 1 a n.natAbs
  if n < 0 then 1 / m else m

end

/-- A sum from the left that starts at the negative zero, so that a single zero keeps its
sign. -/
@[specialize] def sum {K : Type} [Zero K] [Add K] [Neg K] (xs : List K) : K :=
  xs.foldl (· + ·) (-0)

@[specialize] def linspace {K : Type} [One K] [NatCast K] [Add K] [Sub K] [Mul K] [Div K]
    (start stop : K) (count : Nat) : List K :=
  if count = 1 then [start]
  else
    let step := (stop - start) / ((count : K) - 1)
    (List.range count).map fun (i : Nat) => start + (i : K) * step

end Univariate
