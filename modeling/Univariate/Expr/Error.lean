namespace Univariate

inductive ParseError where
  | emptyInput
  | invalidEquationFormat
  | invalidTerm (term : String)
  | unexpectedToken (token : String)
  | unexpectedEnd
  | unknownIdentifier (name : String)
  | unbalancedBrackets
  | wrongArity (function : String) (expected found : Nat)
  deriving DecidableEq, Repr

def ParseError.message : ParseError → String
  | .emptyInput => "Empty input"
  | .invalidEquationFormat => "Invalid equation format: exactly one '=' expected"
  | .invalidTerm term => "Invalid polynomial term: '" ++ term ++ "'"
  | .unexpectedToken token => "Unexpected token: '" ++ token ++ "'"
  | .unexpectedEnd => "Unexpected end of expression"
  | .unknownIdentifier name => "Unknown identifier: '" ++ name ++ "'"
  | .unbalancedBrackets => "Unbalanced brackets"
  | .wrongArity function expected found =>
    "Function '" ++ function ++ "' takes " ++ toString expected ++ " argument(s), " ++
      toString found ++ " given"

end Univariate
