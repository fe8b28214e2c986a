import Univariate.Decimal.Layout
import Univariate.Decimal.Literal

namespace Univariate

inductive Value where
  | string (s : String)
  | float (x : Float)
  | integer (n : Int)
  | boolean (b : Bool)
  deriving Repr

namespace Value

/-- What a word stands for: an integer, else a number, else a truth value, else itself. -/
def ofWord (cs : List Char) : Value :=
  match Decimal.Literal.integer? cs, Decimal.Literal.float? cs, Decimal.Literal.boolean? cs with
  | some n, _, _ => .integer n
  | none, some x, _ => .float x
  | none, none, some b => .boolean b
  | none, none, none => .string (String.ofList cs)

def string? : Value → Option String
  | .string s => some s
  | _ => none

def float? : Value → Option Float
  | .float x => some x
  | .integer n => some (Float.ofInt n)
  | _ => none

def integer? : Value → Option Int
  | .integer n => some n
  | _ => none

def boolean? : Value → Option Bool
  | .boolean b => some b
  | _ => none

def text : Value → String
  | .string s => s
  | .float x => String.ofList (Decimal.plain x)
  | .integer n => toString n
  | .boolean b => toString b

end Value

end Univariate
