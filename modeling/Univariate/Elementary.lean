import Univariate.Decimal.Binary
import Univariate.Scalar

/-!
# Elementary functions of doubles

All but one are those of the platform. The cube root is computed here, so that it is correctly
rounded everywhere.
-/

namespace Univariate

def cubeRootFloor (n : Nat) : (bits : Nat) → (r : Nat) → Nat
  | 0, r => r
  | bits + 1, r =>
    let r' := r + Nat.pow 2 bits
    cubeRootFloor n bits (if r' * r' * r' ≤ n then r' else r)

/-- The double nearest to the cube root of a magnitude. The mantissa is scaled so that its
integer cube root has more digits than a double, and what the root leaves is kept as a last odd
digit. -/
def Decimal.Binary.cubeRoot (b : Decimal.Binary) : Float :=
  let shift := 180 + ((b.exponent - 180) % 3).toNat
  let n := b.mantissa * Nat.pow 2 shift
  let root := cubeRootFloor n 80 0
  let remainder := if root * root * root = n then 0 else 1
  Binary.round ⟨2 * root + remainder, (b.exponent - shift) / 3 - 1⟩

def cubeRoot (x : Float) : Float :=
  if x.isFinite && x != 0 then
    let y := (Decimal.Binary.ofFloat x).cubeRoot
    if Decimal.signBit x then -y else y
  else x

instance : Elementary Float where
  pi := 3.141592653589793
  abs := Float.abs
  sqrt := Float.sqrt
  cbrt := cubeRoot
  exp := Float.exp
  ln := Float.log
  log10 := Float.log10
  sin := Float.sin
  cos := Float.cos
  tan := Float.tan
  arcsin := Float.asin
  arccos := Float.acos
  arctan := Float.atan
  angle := Float.atan2
  power := Float.pow

end Univariate
