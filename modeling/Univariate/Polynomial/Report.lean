import Univariate.Log
import Univariate.Decimal.Layout
import Univariate.Polynomial.Equation

namespace Univariate

def listText (items : List (List Char)) : List Char :=
  '[' :: Text.joined [',', ' '] items ++ [']']

namespace Equation

def parseMessages (unknown : Char) (text : List Char) : List Message :=
  match parse unknown text with
  | .error _ => []
  | .ok parsed =>
    [⟨.debug, .equation, String.ofList ("parsed equation '".toList ++ text ++
      "' -> degree ".toList ++ Nat.toDigits 10 parsed.degree ++ ", coefficients ".toList ++
      listText (parsed.coefficients.map Decimal.mixed))⟩]

def polynomialMessages (unknown : Char) (text : List Char) : List Message :=
  match parseSide? unknown text with
  | some (.error e) =>
    [⟨.debug, .equation, "'" ++ String.ofList (Latex.strip text) ++ "' is not a polynomial: " ++
      e.message⟩]
  | _ => []

end Equation

end Univariate
