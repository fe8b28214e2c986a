import Univariate.Cartesian

/-!
# Polynomials as lists of coefficients

The coefficient of the highest power comes first.
-/

namespace Univariate.Dense

variable {K : Type}

def trim [Zero K] [BEq K] (coefficients : List K) : List K :=
  coefficients.dropWhile (· == 0)

section
variable [Zero K] [Add K] [Mul K]

@[specialize] def eval (coefficients : List K) (x : K) : K :=
  coefficients.foldl (fun acc c => acc * x + c) 0

@[specialize] def evalCartesian [Sub K] (coefficients : List K) (z : Cartesian K) : Cartesian K :=
  coefficients.foldl (fun acc c => acc * z + ⟨c, 0⟩) ⟨0, 0⟩

end

section
variable [Zero K] [One K] [Add K] [Sub K] [Mul K]

/-- The coefficients of `x - r` times a polynomial, of which `carry` is the part that the terms
read so far leave for the next place. -/
def timesRootAfter (r : K) (carry : K) : List K → List K
  | [] => [carry]
  | c :: cs => (carry + c) :: timesRootAfter r (0 - c * r) cs

def ofRoots (roots : List K) : List K :=
  roots.foldl (fun acc r => timesRootAfter r 0 acc) [1]

end

structure Division (K : Type) where
  quotient : List K
  remainder : List K
  deriving Repr

section
variable [Zero K] [Sub K] [Mul K] [Div K] [BEq K]

def subtractScaled (factor : K) : (divisor : List K) → List K → List K
  | d :: ds, w :: ws => (w - factor * d) :: subtractScaled factor ds ws
  | _, ws => ws

def longDivision (lead : K) (tail : List K) : (steps : Nat) → List K → List K × List K
  | steps + 1, w :: ws =>
    let factor := w / lead
    let (quotient, rest) := longDivision lead tail steps (subtractScaled factor tail ws)
    (factor :: quotient, rest)
  | _, ws => ([], ws)

def orZero (coefficients : List K) : List K :=
  if coefficients.isEmpty then [0] else coefficients

/-- Division with remainder; `none` if an operand has no coefficients or the divisor is zero. -/
def divide? (dividend divisor : List K) : Option (Division K) :=
  if dividend.isEmpty then none
  else
    match trim divisor with
    | [] => none
    | lead :: tail =>
      let work := orZero (trim dividend)
      if work.length ≤ tail.length then some ⟨[0], work⟩
      else
        let (quotient, rest) := longDivision lead tail (work.length - tail.length) work
        some ⟨quotient, orZero (trim rest)⟩

end

section
variable [Zero K] [Add K]

def addAscending (c : K) : (power : Nat) → List K → List K
  | 0, [] => [0 + c]
  | 0, a :: as => (a + c) :: as
  | power + 1, [] => 0 :: addAscending c power []
  | power + 1, a :: as => a :: addAscending c power as

def ofTerms (terms : List (Nat × K)) : List K :=
  (terms.foldl (fun acc (power, c) => addAscending c power acc) []).reverse

end

end Univariate.Dense
