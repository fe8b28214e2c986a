import Univariate.Decimal.Binary

/-!
# The fewest digits that read back

`Binary.shortest` is the decimal with the fewest digits among those that round to a given
magnitude, and of these the nearest to it; of two equally near the larger.
-/

namespace Univariate.Decimal

structure Digits where
  value : Nat
  exponent : Int
  deriving DecidableEq, Repr

def Digits.compareBinary (d : Digits) (n : Nat) (e : Int) : Ordering :=
  compare (d.value * Nat.pow 10 d.exponent.toNat * Nat.pow 2 (-e).toNat)
    (n * Nat.pow 2 e.toNat * Nat.pow 10 (-d.exponent).toNat)

def Digits.stripped (d : Digits) : Digits :=
  let zeros := ((Nat.toDigits 10 d.value).reverse.takeWhile (· == '0')).length
  ⟨d.value / Nat.pow 10 zeros, d.exponent + zeros⟩

/-- Whether `d` lies among the numbers that round to `b`: from halfway to the value below to
halfway to the value above, the ends themselves only if the mantissa is even. -/
def Binary.admits (b : Binary) (d : Digits) : Bool :=
  let low := 4 * b.mantissa - (if b.narrowBelow then 1 else 2)
  let high := 4 * b.mantissa + 2
  match d.compareBinary low (b.exponent - 2), d.compareBinary high (b.exponent - 2) with
  | .gt, .lt => true
  | .eq, .lt | .gt, .eq => b.mantissa % 2 == 0
  | _, _ => false

def Binary.magnitude (b : Binary) : Int :=
  let guess := ((b.mantissa.log2 : Int) + b.exponent) * 30103 / 100000
  match (Digits.mk 1 (guess + 1)).compareBinary b.mantissa b.exponent with
  | .gt => guess
  | _ => guess + 1

def Binary.onGrid (b : Binary) (grid : Int) : Nat × Nat :=
  (b.mantissa * Nat.pow 2 b.exponent.toNat * Nat.pow 10 (-grid).toNat,
    Nat.pow 2 (-b.exponent).toNat * Nat.pow 10 grid.toNat)

def Binary.nearest? (b : Binary) (grid : Int) : Option Digits :=
  let (num, den) := b.onGrid grid
  let below : Digits := ⟨num / den, grid⟩
  let above : Digits := ⟨num / den + 1, grid⟩
  match b.admits below, b.admits above with
  | true, true => some (if 2 * (num % den) < den then below else above)
  | true, false => some below
  | false, true => some above
  | false, false => none

def Binary.exact (b : Binary) : Digits :=
  if 0 ≤ b.exponent then ⟨b.mantissa * Nat.pow 2 b.exponent.toNat, 0⟩
  else ⟨b.mantissa * Nat.pow 5 (-b.exponent).toNat, b.exponent⟩

def Binary.shortest (b : Binary) : Digits :=
  if b.mantissa = 0 then ⟨0, 0⟩
  else
    (((List.range 17).findSome? fun (n : Nat) => b.nearest? (b.magnitude - n)).getD
      b.exact).stripped

end Univariate.Decimal
