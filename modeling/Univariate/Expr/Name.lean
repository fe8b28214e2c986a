import Univariate.Expr.Basic

namespace Univariate

inductive Callable where
  | sin | cos | tan | asin | acos | atan | sqrt | exp | log | ln | log10 | abs | pow
  deriving DecidableEq, Repr

namespace Callable

def all : List Callable :=
  [.sin, .cos, .tan, .asin, .acos, .atan, .sqrt, .exp, .log, .ln, .log10, .abs, .pow]

def name : Callable → String
  | .sin => "sin"
  | .cos => "cos"
  | .tan => "tan"
  | .asin => "asin"
  | .acos => "acos"
  | .atan => "atan"
  | .sqrt => "sqrt"
  | .exp => "exp"
  | .log => "log"
  | .ln => "ln"
  | .log10 => "log10"
  | .abs => "abs"
  | .pow => "pow"

def ofName? (s : String) : Option Callable :=
  all.find? fun f => f.name == s

theorem ofName?_name (f : Callable) : ofName? f.name = some f := by
  cases f <;> decide

def arity : Callable → Nat
  | .pow => 2
  | _ => 1

def function? : Callable → Option Function
  | .sin => some .sin
  | .cos => some .cos
  | .tan => some .tan
  | .asin => some .arcsin
  | .acos => some .arccos
  | .atan => some .arctan
  | .sqrt => some .sqrt
  | .exp => some .exp
  | .log | .ln => some .ln
  | .log10 => some .log10
  | .abs => some .abs
  | .pow => none

/-- The expression for a call. The arguments are given last first; missing ones are undefined
and surplus ones are left out. -/
def applyReversed (f : Callable) (args : List Expr) : Expr :=
  let undefined : Expr := .const (0 / 0)
  match f.function? with
  | some g => .apply g (args.head?.getD undefined)
  | none => .binary .pow (args[1]?.getD undefined) (args.head?.getD undefined)

def apply (f : Callable) (args : List Expr) : Expr := f.applyReversed args.reverse

end Callable

def namedConstant? (name : String) : Option Float :=
  if name = "pi" then some 3.141592653589793
  else if name = "e" then some 2.718281828459045
  else none

end Univariate
