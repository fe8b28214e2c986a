import Univariate.Polynomial.Dense
import Univariate.Polynomial.Latex
import Univariate.Polynomial.Term

namespace Univariate

namespace Term

/-- The largest power named, whether or not its coefficients cancel. -/
def degree (terms : List Term) : Nat := (terms.map power).max?.getD 0

def total (terms : List Term) : List Float :=
  Dense.ofTerms (terms.map fun t => (t.power, t.coefficient))

end Term

namespace Equation

structure Parsed where
  degree : Nat
  coefficients : List Float
  deriving Repr

def Parsed.ofTerms (terms : List Term) : Parsed := ⟨Term.degree terms, Term.total terms⟩

def readSum (unknown : Char) (sum : List Char) : Except ParseError Parsed :=
  match Term.listOfText unknown sum with
  | .error e => .error e
  | .ok [] => .error .emptyInput
  | .ok terms => .ok (.ofTerms terms)

def leftSide (cs : List Char) : List Char := cs.takeWhile (· != '=')

/-- Reads an equation, which has exactly one sign; what stands on the right counts as zero. -/
def parse (unknown : Char) (text : List Char) : Except ParseError Parsed :=
  let cs := Latex.strip text
  if cs.isEmpty then .error .emptyInput
  else if cs.count '=' = 1 then readSum unknown (leftSide cs)
  else .error .invalidEquationFormat

/-- Reads an equation or the left side of one. `none` stands for more than one sign, and an error
for a side that is no sum of terms. -/
def parseSide? (unknown : Char) (text : List Char) : Option (Except ParseError Parsed) :=
  let cs := Latex.strip text
  if 1 < cs.count '=' then none else some (readSum unknown (leftSide cs))

def polynomial? (unknown : Char) (text : List Char) : Option (List Float) :=
  ((parseSide? unknown text).bind Except.toOption).map Parsed.coefficients

end Equation

end Univariate
