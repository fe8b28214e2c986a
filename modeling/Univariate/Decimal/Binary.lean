/-!
# Floating-point values as exact binary fractions

A finite double is an integer times a power of two. Everything that is said about its decimal
text is said about that pair, in integer arithmetic.
-/

namespace Univariate.Decimal

structure Binary where
  mantissa : Nat
  exponent : Int
  deriving DecidableEq, Repr

def Binary.ofBits (bits : UInt64) : Binary :=
  let biased := (bits >>> 52 &&& 0x7ff).toNat
  let fraction := (bits &&& 0xfffffffffffff).toNat
  if biased = 0 then ⟨fraction, -1074⟩ else ⟨Nat.pow 2 52 + fraction, biased - 1075⟩

def Binary.ofFloat (x : Float) : Binary :=
  .ofBits x.toBits

/-- Whether the next value below is nearer than the next value above: so it is at a power of
two, the least normal one apart. -/
def Binary.narrowBelow (b : Binary) : Bool :=
  b.mantissa == Nat.pow 2 52 && decide (-1074 < b.exponent)

def Binary.whole? (b : Binary) : Option Nat :=
  if 0 ≤ b.exponent then some (b.mantissa * Nat.pow 2 b.exponent.toNat)
  else
    let unit := Nat.pow 2 (-b.exponent).toNat
    if b.mantissa % unit = 0 then some (b.mantissa / unit) else none

def powerOfTwo (e : Int) : Float :=
  Float.ofBits ((e + 1023).toNat.toUInt64 <<< 52)

/-- The double nearest to a magnitude of more than 53 binary digits, a tie going to the even
mantissa. The value has to be in the range of normal doubles. -/
def Binary.round (b : Binary) : Float :=
  let surplus := b.mantissa.log2 - 52
  let unit := Nat.pow 2 surplus
  let q := b.mantissa / unit
  let r := b.mantissa % unit
  let q := if 2 * r < unit ∨ (2 * r = unit ∧ q % 2 = 0) then q else q + 1
  Float.ofNat q * powerOfTwo (b.exponent + surplus)

def signBit (x : Float) : Bool :=
  x.toBits >>> 63 != 0

def integer? (x : Float) : Option Int :=
  if x.isFinite then
    (Binary.ofFloat x).whole?.map fun n => if signBit x then -(n : Int) else (n : Int)
  else none

end Univariate.Decimal
