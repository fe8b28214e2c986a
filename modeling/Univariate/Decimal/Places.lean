import Univariate.Decimal.Layout

namespace Univariate.Decimal

def roundQuotient (num den : Nat) : Nat :=
  let q := num / den
  match compare (2 * (num % den)) den with
  | .lt => q
  | .gt => q + 1
  | .eq => if q % 2 = 0 then q else q + 1

def pointed (places n : Nat) : List Char :=
  let ds := Nat.toDigits 10 n
  let ds := List.replicate (places + 1 - ds.length) '0' ++ ds
  if places = 0 then ds
  else ds.take (ds.length - places) ++ '.' :: ds.drop (ds.length - places)

def fixed (places : Nat) (x : Float) : List Char :=
  if x.isFinite then
    let (num, den) := (Binary.ofFloat x).onGrid (-(places : Int))
    signed x (pointed places (roundQuotient num den))
  else plain x

def significant (count : Nat) (x : Float) : Float :=
  let b := Binary.ofFloat x
  if x.isFinite && b.mantissa != 0 then
    let grid := b.magnitude + 1 - count
    let (num, den) := b.onGrid grid
    let y := Float.ofScientific (roundQuotient num den) (decide (grid < 0)) grid.natAbs
    if signBit x then -y else y
  else x

end Univariate.Decimal
