import Univariate.Decimal.Binary
import Univariate.Elementary
import Univariate.Expr.Basic

namespace Univariate

def Function.eval {K : Type} [Elementary K] : Function → K → K
  | .exp => Elementary.exp
  | .ln => Elementary.ln
  | .log10 => Elementary.log10
  | .sqrt => Elementary.sqrt
  | .abs => Elementary.abs
  | .sin => Elementary.sin
  | .cos => Elementary.cos
  | .tan => Elementary.tan
  | .arcsin => Elementary.arcsin
  | .arccos => Elementary.arccos
  | .arctan => Elementary.arctan

/-- The integer that an exponent is, if it is written as a constant without a fraction and of
less than 32 bits. -/
def Expr.integerExponent? : Expr → Option Int
  | .const c => (Decimal.integer? c).filter fun n => decide (n.natAbs ≤ 2147483647)
  | _ => none

section
variable {K : Type} [One K] [Add K] [Sub K] [Mul K] [Div K] [Neg K] [Elementary K]

/-- The value of an expression whose constants and names stand for the numbers given. Powers to
a constant integer are products, so that a negative base is no obstacle. -/
@[specialize] def Expr.eval (constant : Float → K) (value : String → K) : Expr → K
  | .var name => value name
  | .const c => constant c
  | .binary .add l r => l.eval constant value + r.eval constant value
  | .binary .sub l r => l.eval constant value - r.eval constant value
  | .binary .mul l r => l.eval constant value * r.eval constant value
  | .binary .div l r => l.eval constant value / r.eval constant value
  | .binary .pow l r =>
    match r.integerExponent? with
    | some n => integerPower (l.eval constant value) n
    | none => Elementary.power (l.eval constant value) (r.eval constant value)
  | .neg e => -e.eval constant value
  | .apply f e => f.eval (e.eval constant value)

theorem Expr.eval_pow_of_integer {constant : Float → K} {value : String → K} {l r : Expr} {n : Int}
    (h : r.integerExponent? = some n) :
    (binary .pow l r).eval constant value = integerPower (l.eval constant value) n := by
  rw [eval, h]

end

/-- The value at `x` of an expression in `free`; all other names are undefined. -/
def Expr.valueAt (e : Expr) (free : String) (x : Float) : Float :=
  e.eval id fun name => if name = free then x else undefined

end Univariate
