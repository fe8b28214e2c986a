import Univariate.Cartesian
import Univariate.Elementary

/-!
# Real roots and conjugate pairs

Roots on the real axis are listed in ascending order. Of the others every root is paired with
the first one after it that lies near its conjugate, and one root of each pair is kept.
-/

namespace Univariate

/-- A double with the sign bit that it has if it is no number. A `Float` does not tell that bit. -/
structure SignedFloat where
  value : Float
  sign : Bool

/-- The place in the total order of the bit patterns: what is no number comes first if its sign bit
is set and last if it is not. -/
def SignedFloat.orderKey (x : SignedFloat) : Int :=
  let bits : Int := (x.value.toBits &&& 0x7fffffffffffffff).toNat
  if (if x.value.isNaN then x.sign else Decimal.signBit x.value) then -bits - 1 else bits

inductive Pairing where
  | pair (first second : Cartesian Float)
  | single (z : Cartesian Float)

namespace Pairing

def kept : Pairing → Cartesian Float
  | .pair z w => if 0 < z.im then z else w
  | .single z => z

def matching (z w : Cartesian Float) : Bool :=
  let tolerance := 0.000001 * (1 + z.abs)
  decide ((w.re - z.re).abs ≤ tolerance) && decide ((w.im + z.im).abs ≤ tolerance)

def ofRoots : List (Cartesian Float) → List Pairing
  | [] => []
  | z :: zs =>
    match zs.find? (matching z) with
    | some w => .pair z w :: ofRoots (zs.eraseP (matching z))
    | none => .single z :: ofRoots zs
termination_by zs => zs.length
decreasing_by
  · have := (List.eraseP_sublist (p := matching z) (l := zs)).length_le
    simp only [List.length_cons]
    omega
  · simp

end Pairing

structure Separation where
  real : List Float
  pairings : List Pairing

namespace Separation

abbrev Signs := Nat → Bool

/-- An operation that has no number to give sets the sign bit. -/
def computed : Signs := fun _ => true

/-- What is written as no number has no sign. -/
def written : Signs := fun _ => false

def onAxis (epsilon : Float) (z : Cartesian Float) : Bool := decide (z.im.abs < epsilon)

def axis (signs : Signs) (epsilon : Float) (roots : List (Cartesian Float)) : List SignedFloat :=
  (roots.zipIdx.filter fun (z, _) => onAxis epsilon z).map fun (z, i) => ⟨z.re, signs i⟩

def ofRoots (signs : Signs) (epsilon : Float) (roots : List (Cartesian Float)) : Separation :=
  let real := (axis signs epsilon roots).mergeSort fun a b => decide (a.orderKey ≤ b.orderKey)
  ⟨real.map SignedFloat.value, Pairing.ofRoots (roots.filter fun z => !onAxis epsilon z)⟩

def complex (s : Separation) : List (Cartesian Float) := s.pairings.map Pairing.kept

def defaultEpsilon : Float := 0.000000001

end Separation

end Univariate
