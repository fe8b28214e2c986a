import Univariate.Scalar

namespace Univariate

structure Cartesian (K : Type) where
  re : K
  im : K
  deriving DecidableEq, Repr

namespace Cartesian

variable {K : Type}

instance [Add K] : Add (Cartesian K) where
  add z w := ⟨z.re + w.re, z.im + w.im⟩

instance [Sub K] : Sub (Cartesian K) where
  sub z w := ⟨z.re - w.re, z.im - w.im⟩

instance [Add K] [Sub K] [Mul K] : Mul (Cartesian K) where
  mul z w := ⟨z.re * w.re - z.im * w.im, z.re * w.im + z.im * w.re⟩

def ofReal [Zero K] (a : K) : Cartesian K := ⟨a, 0⟩

def conjugate [Neg K] (z : Cartesian K) : Cartesian K := ⟨z.re, -z.im⟩

def scale [Mul K] (z : Cartesian K) (k : K) : Cartesian K := ⟨z.re * k, z.im * k⟩

def squaredNorm [Add K] [Mul K] (z : Cartesian K) : K := z.re * z.re + z.im * z.im

def pow [Zero K] [One K] [Add K] [Sub K] [Mul K] (z : Cartesian K) (n : Nat) : Cartesian K :=
  n.repeat (· * z) (ofReal 1)

section
variable [Zero K] [Add K] [Sub K] [Mul K] [Div K] [BEq K]

@[inline] def div? (z w : Cartesian K) : Option (Cartesian K) :=
  let n := w.squaredNorm
  if n == 0 then none
  else some ⟨(z.re * w.re + z.im * w.im) / n, (z.im * w.re - z.re * w.im) / n⟩

def div [Undefined K] (z w : Cartesian K) : Cartesian K :=
  (div? z w).getD ⟨undefined, undefined⟩

end

section
variable [Zero K] [One K] [NatCast K] [Add K] [Sub K] [Mul K] [Div K] [Neg K] [BEq K]
  [LT K] [DecidableLT K] [Elementary K]

def abs (z : Cartesian K) : K := Elementary.sqrt z.squaredNorm

def sqrt (z : Cartesian K) : Cartesian K :=
  let r := z.abs
  let re := Elementary.sqrt (positivePart ((r + z.re) / (2 : Nat)))
  let im := Elementary.sqrt (positivePart ((r - z.re) / (2 : Nat)))
  if z.im < 0 then ⟨re, -im⟩ else ⟨re, im⟩

def cbrt (z : Cartesian K) : Cartesian K :=
  if z.re == 0 && z.im == 0 then ⟨0, 0⟩
  else
    let r := Elementary.cbrt z.abs
    let angle := Elementary.angle z.im z.re / (3 : Nat)
    ⟨r * Elementary.cos angle, r * Elementary.sin angle⟩

def tolerance : K := 1 / ((1000000000 : Nat) : K)

def isReal (z : Cartesian K) : Bool := decide (Elementary.abs z.im < tolerance)

def isZero (z : Cartesian K) : Bool :=
  decide (Elementary.abs z.re < tolerance) && decide (Elementary.abs z.im < tolerance)

end

end Cartesian

end Univariate
