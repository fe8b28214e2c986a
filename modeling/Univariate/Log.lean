import Univariate.Text.Lines

namespace Univariate

inductive Level where
  | error | warn | info | debug
  deriving DecidableEq, Repr

inductive Origin where
  | evaluation | equation | closedForm | durandKerner | roots | calculus | log | solver
  deriving DecidableEq, Repr

structure Message where
  level : Level
  origin : Origin
  text : String
  deriving DecidableEq, Repr

namespace Level

def rank : Level → Nat
  | .error => 1
  | .warn => 2
  | .info => 3
  | .debug => 4

def name : Level → String
  | .error => "error"
  | .warn => "warn"
  | .info => "info"
  | .debug => "debug"

def capitals : Level → String
  | .error => "ERROR"
  | .warn => "WARN"
  | .info => "INFO"
  | .debug => "DEBUG"

end Level

def Origin.path : Origin → String
  | .evaluation => "RustedMathKit::symbolic::symbolic_lambdify"
  | .equation => "RustedMathKit::symbolic::polynomial_parser"
  | .closedForm => "RustedMathKit::numerical::closed_form"
  | .durandKerner => "RustedMathKit::numerical::durand_kerner"
  | .roots => "RustedMathKit::numerical::roots"
  | .calculus => "RustedMathKit::numerical::calculus"
  | .log => "RustedMathKit::Utils::logger"
  | .solver => "RustedMathKit::numerical::poly_solver"

def Message.record (m : Message) : String :=
  let head := "[" ++ m.level.capitals ++ "] "
  match m.level with
  | .debug => head ++ "(1) " ++ m.origin.path ++ ": " ++ m.text
  | _ => head ++ m.text

def Message.filter (threshold : Level) (messages : List Message) : List Message :=
  messages.filter fun m => decide (m.level.rank ≤ threshold.rank)

def Message.lines (messages : List Message) : List (List Char) :=
  messages.flatMap fun m => Text.lines (m.record.toList ++ ['\n'])

end Univariate
