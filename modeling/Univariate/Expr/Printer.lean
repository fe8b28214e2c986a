import Univariate.Decimal.Layout
import Univariate.Expr.Basic
import Univariate.Text.Quoted

namespace Univariate

def Operator.symbol : Operator → Char
  | .add => '+'
  | .sub => '-'
  | .mul => '*'
  | .div => '/'
  | .pow => '^'

def Function.name : Function → String
  | .exp => "exp"
  | .ln => "ln"
  | .log10 => "log10"
  | .sqrt => "sqrt"
  | .abs => "abs"
  | .sin => "sin"
  | .cos => "cos"
  | .tan => "tan"
  | .arcsin => "asin"
  | .arccos => "acos"
  | .arctan => "atan"

def Expr.text : Expr → List Char
  | .var name => name.toList
  | .const c => Decimal.plain c
  | .binary op l r => '(' :: l.text ++ [' ', op.symbol, ' '] ++ r.text ++ [')']
  | .neg e => '(' :: '-' :: e.text ++ [')']
  | .apply f e => f.name.toList ++ '(' :: e.text ++ [')']

def Operator.label : Operator → String
  | .add => "Add"
  | .sub => "Sub"
  | .mul => "Mul"
  | .div => "Div"
  | .pow => "Pow"

def Function.label : Function → String
  | .exp => "Exp"
  | .ln => "Ln"
  | .log10 => "Log10"
  | .sqrt => "Sqrt"
  | .abs => "Abs"
  | .sin => "sin"
  | .cos => "cos"
  | .tan => "tg"
  | .arcsin => "arcsin"
  | .arccos => "arccos"
  | .arctan => "arctg"

def Expr.outline : Expr → List Char
  | .var name => "Var(".toList ++ Text.quoted name.toList ++ [')']
  | .const c => "Const(".toList ++ Decimal.mixed c ++ [')']
  | .binary op l r =>
    op.label.toList ++ '(' :: l.outline ++ [',', ' '] ++ r.outline ++ [')']
  | .neg e => "Neg(".toList ++ e.outline ++ [')']
  | .apply f e => f.label.toList ++ '(' :: e.outline ++ [')']

end Univariate
