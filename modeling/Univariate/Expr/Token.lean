import Univariate.Expr.Name
import Univariate.Expr.Printer

namespace Univariate

inductive Token where
  | number (value : Float)
  | ident (name : String)
  | op (o : Operator)
  | lparen
  | rparen
  | comma
  deriving Repr

namespace Token

def text : Token → List Char
  | .number v => Decimal.plain v
  | .ident name => name.toList
  | .op o => [o.symbol]
  | .lparen => ['(']
  | .rparen => [')']
  | .comma => [',']

def outline : Token → List Char
  | .number v => "Number(".toList ++ Decimal.mixed v ++ [')']
  | .ident name => "Ident(".toList ++ Text.quoted name.toList ++ [')']
  | .op o => "Op('".toList ++ [o.symbol, '\'', ')']
  | .lparen => "LParen".toList
  | .rparen => "RParen".toList
  | .comma => "Comma".toList

end Token

end Univariate
