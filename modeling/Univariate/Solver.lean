import Univariate.Logger
import Univariate.Polynomial.Printer
import Univariate.Polynomial.Report
import Univariate.Roots.Messages
import Univariate.Roots.Printer

namespace Univariate

structure Solver where
  settings : Settings := {}
  coefficients : List Float := []
  equation : Option String := none
  logFile : Bool := false
  solution : Option Solution := none

namespace Solver

def unknown : Char := 'x'

def configure (s : Solver) (settings : Settings) : Solver := { s with settings }

def setCoefficients (s : Solver) (coefficients : List Float) : Solver :=
  { s with coefficients, equation := none, solution := none }

def setEquation (s : Solver) (text : String) : Except SolverError Solver :=
  match Equation.parse unknown text.toList with
  | .error e => .error (.parse e)
  | .ok parsed =>
    .ok { s with coefficients := parsed.coefficients, equation := some text, solution := none }

def opening (s : Solver) : Message :=
  let subject := match s.equation with
    | some equation => equation
    | none => String.ofList (Dense.format s.coefficients [unknown]) ++ " = 0"
  ⟨.info, .solver, "solving " ++ subject⟩

def closing (solution : Solution) : Message :=
  ⟨.info, .solver, "\n \n ROOTS \n \n " ++ String.ofList solution.table.text⟩

structure Attempt where
  solver : Solver
  logger? : Option Logger
  messages : List Message
  outcome : Except SolverError Solution

/-- Solves the polynomial after a log was started, or could not be. -/
def solveLogged (s : Solver) (running? : Option Logger)
    (started : Except SolverError Logger.Start) : Attempt :=
  match s.settings.validate with
  | .error e => ⟨s, running?, [], .error e⟩
  | .ok () =>
    match started with
    | .error e => ⟨s, running?, [], .error e⟩
    | .ok start =>
      let s := { s with logFile := start.file }
      let found := Solution.ofCoefficients s.settings s.coefficients
      let messages := start.messages ++ s.opening :: Solution.messagesOf s.settings found
      match found with
      | .error e => ⟨s, start.logger?, messages, .error e⟩
      | .ok solution =>
        ⟨{ s with solution := some solution }, start.logger?, messages ++ [closing solution],
          .ok solution⟩

def solve (s : Solver) (running? : Option Logger) : Attempt :=
  s.solveLogged running? (Logger.start running? s.settings.logLevel s.settings.logToFile)

def solveAll (s : Solver) (running? : Option Logger) : List (List Float) → List Attempt
  | [] => []
  | coefficients :: rest =>
    let attempt := (s.setCoefficients coefficients).solve running?
    attempt :: attempt.solver.solveAll attempt.logger? rest

end Solver

end Univariate
