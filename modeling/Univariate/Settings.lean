import Univariate.Decimal.Layout
import Univariate.Expr.Error
import Univariate.Log
import Univariate.Roots.DurandKerner
import Univariate.Roots.Separation
import Univariate.Text.Blank
import Univariate.Text.Lowercase

namespace Univariate

inductive SolverError where
  | emptyPolynomial
  | zeroPolynomial
  | parse (e : ParseError)
  | invalidConfig (reason : String)
  | logger (reason : String)
  deriving DecidableEq, Repr

def SolverError.message : SolverError → String
  | .emptyPolynomial => "Polynomial has no coefficients"
  | .zeroPolynomial => "All coefficients are zero: every number is a root"
  | .parse e => "Parse error: " ++ e.message
  | .invalidConfig reason => "Invalid configuration: " ++ reason
  | .logger reason => "Logger initialisation failed: " ++ reason

/-- The threshold that a level name stands for: `none` for silence. No name stands for `info`. -/
def Level.threshold (name : Option String) : Except SolverError (Option Level) :=
  match name with
  | none => .ok (some .info)
  | some name =>
    let word := String.ofList (Text.lowercase (Text.trim name.toList))
    if word = "debug" then .ok (some .debug)
    else if word = "info" then .ok (some .info)
    else if word = "warn" then .ok (some .warn)
    else if word = "error" then .ok (some .error)
    else if word = "off" || word = "none" then .ok none
    else
      .error (.invalidConfig
        ("loglevel must be debug, info, warn, error, off or none, got '" ++ word ++ "'"))

structure Settings where
  tolerance : Float := DurandKerner.defaultTolerance
  maxIterations : Nat := DurandKerner.defaultCap
  epsilon : Float := Separation.defaultEpsilon
  logLevel : Option String := some "info"
  logToFile : Bool := false
  deriving Repr

namespace Settings

def validate (s : Settings) : Except SolverError Unit :=
  if ¬ 0 < s.tolerance then
    .error (.invalidConfig
      ("tolerance must be positive, got " ++ String.ofList (Decimal.plain s.tolerance)))
  else if s.maxIterations = 0 then .error (.invalidConfig "max_iterations must be positive")
  else if ¬ 0 < s.epsilon then
    .error (.invalidConfig
      ("epsilon must be positive, got " ++ String.ofList (Decimal.plain s.epsilon)))
  else (Level.threshold s.logLevel).map fun _ => ()

end Settings

end Univariate
