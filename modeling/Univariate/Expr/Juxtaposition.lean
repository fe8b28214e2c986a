import Univariate.Expr.Token

namespace Univariate.Juxtaposition

/-- `2x`, `2(x+1)`, `(x)(x)` and `2pi` are products. Two numbers in a row are not, and the
parenthesis after a function name opens its arguments. -/
def isProduct : Token → Token → Bool
  | .number _, .ident _ | .number _, .lparen => true
  | .rparen, .number _ | .rparen, .ident _ | .rparen, .lparen => true
  | .ident _, .number _ | .ident _, .ident _ => true
  | .ident name, .lparen => (Callable.ofName? name).isNone
  | _, _ => false

def explicit : List Token → List Token
  | a :: b :: ts =>
    if isProduct a b then a :: .op .mul :: explicit (b :: ts) else a :: explicit (b :: ts)
  | ts => ts

end Univariate.Juxtaposition
