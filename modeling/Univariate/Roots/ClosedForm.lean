import Univariate.Cartesian

namespace Univariate.ClosedForm

variable {K : Type} [Zero K] [One K] [NatCast K] [Add K] [Sub K] [Mul K] [Div K] [Neg K]
  [BEq K] [LT K] [DecidableLT K] [LE K] [DecidableLE K] [Elementary K] [Undefined K]

def linear (a b : K) : List (Cartesian K) :=
  if a == 0 then [] else [⟨-b / a, 0⟩]

def quadratic (a b c : K) : List (Cartesian K) :=
  if a == 0 then linear b c
  else
    let discriminant := b * b - (4 : Nat) * a * c
    let root := (Cartesian.ofReal discriminant).sqrt
    let minusB := Cartesian.ofReal (-b)
    let twoA := Cartesian.ofReal ((2 : Nat) * a)
    [(minusB + root).div twoA, (minusB - root).div twoA]

/-- What the roots of the cubic `t ^ 3 + p t + q` are made of: its discriminant
`(q / 2) ^ 2 + (p / 3) ^ 3` and two numbers `u` and `v` with `u v = -p / 3` whose cubes are the
roots of the quadratic resolvent. -/
structure Resolvent (K : Type) where
  p : K
  q : K
  discriminant : K
  u : Cartesian K
  v : Cartesian K

def Resolvent.ofDepressed (p q : K) : Resolvent K :=
  let half := q / (2 : Nat)
  let third := p / (3 : Nat)
  let discriminant := integerPower half 2 + integerPower third 3
  let root := (Cartesian.ofReal discriminant).sqrt
  let minusHalf := Cartesian.ofReal (-q / (2 : Nat))
  let plus := minusHalf + root
  let minus := minusHalf - root
  let u := (if minus.abs ≤ plus.abs then plus else minus).cbrt
  let v := if u.abs < Cartesian.tolerance then ⟨0, 0⟩
    else (Cartesian.ofReal (-p / (3 : Nat))).div u
  ⟨p, q, discriminant, u, v⟩

def Resolvent.ofCubic (a b c d : K) : Resolvent K :=
  Resolvent.ofDepressed
    (((3 : Nat) * a * c - b * b) / ((3 : Nat) * a * a))
    (((2 : Nat) * b * b * b - (9 : Nat) * a * b * c + (27 : Nat) * a * a * d) /
      ((27 : Nat) * a * a * a))

def unity : Cartesian K := ⟨-(1 / (2 : Nat)), Elementary.sqrt ((3 : Nat) : K) / (2 : Nat)⟩

def unityConjugate : Cartesian K :=
  ⟨-(1 / (2 : Nat)), -Elementary.sqrt ((3 : Nat) : K) / (2 : Nat)⟩

def Resolvent.roots (r : Resolvent K) : List (Cartesian K) :=
  [r.u + r.v, r.u * unity + r.v * unityConjugate, r.u * unityConjugate + r.v * unity]

def cubic (a b c d : K) : List (Cartesian K) :=
  if a == 0 then quadratic b c d
  else
    let shift := Cartesian.ofReal (-b / ((3 : Nat) * a))
    (Resolvent.ofCubic a b c d).roots.map (· + shift)

def depressed (p q : K) : List (Cartesian K) := cubic 1 0 p q

def scaleRoots (roots : List (Cartesian K)) (k : K) : List (Cartesian K) :=
  roots.map (·.scale k)

end Univariate.ClosedForm
