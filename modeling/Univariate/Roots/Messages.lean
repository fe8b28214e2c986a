import Univariate.Decimal.Layout
import Univariate.Roots.Solution

namespace Univariate

def Cartesian.plain (z : Cartesian Float) : List Char :=
  let (sign, im) := if z.im < 0 then ('-', -z.im) else ('+', z.im)
  Decimal.plain z.re ++ sign :: Decimal.plain im ++ ['i']

def ClosedForm.linearMessages (a b : Float) : List Message :=
  if a == 0 then
    [⟨.debug, .closedForm, "linear equation with zero slope: " ++
      (if b == 0 then "infinitely many" else "no") ++ " solutions"⟩]
  else []

def ClosedForm.Resolvent.message (r : ClosedForm.Resolvent Float) : Message :=
  ⟨.debug, .closedForm, String.ofList ("cubic: p = ".toList ++ Decimal.plain r.p ++
    ", q = ".toList ++ Decimal.plain r.q ++ ", D = ".toList ++ Decimal.plain r.discriminant ++
    ", u = ".toList ++ r.u.plain ++ ", v = ".toList ++ r.v.plain)⟩

def ClosedForm.quadraticMessages (a b c : Float) : List Message :=
  if a == 0 then ClosedForm.linearMessages b c else []

def ClosedForm.cubicMessages (a b c d : Float) : List Message :=
  if a == 0 then ClosedForm.quadraticMessages b c d
  else [(ClosedForm.Resolvent.ofCubic a b c d).message]

def DurandKerner.Outcome.message (o : DurandKerner.Outcome Float) (degree cap : Nat) : Message :=
  let largest := String.ofList (Decimal.scientific (o.largest.getD (1 / 0)))
  let head := "Durand-Kerner: degree " ++ toString degree
  if o.converged then
    ⟨.debug, .durandKerner, head ++ " converged after " ++ toString o.iterations ++
      " iterations (max correction " ++ largest ++ ")"⟩
  else
    ⟨.warn, .durandKerner, head ++ " stopped at the iteration cap " ++ toString cap ++
      " with max correction " ++ largest ++ "; returning the last estimates"⟩

def DurandKerner.messages (coefficients : List Float) (cap : Nat)
    (o : DurandKerner.Outcome Float) : List Message :=
  match Dense.trim coefficients with
  | [] | [_] => []
  | _ :: tail => [o.message tail.length cap]

def Separation.messages (s : Separation) : List Message :=
  s.pairings.filterMap fun
    | .single z =>
      some ⟨.debug, .roots, "root " ++ String.ofList z.plain ++ " has no conjugate partner"⟩
    | .pair _ _ => none

def Method.messages (m : Method) (degree cap : Nat) : List Message :=
  match m with
  | .constant | .linear | .quadratic => []
  | .cubic r => [r.message]
  | .durandKerner o => [o.message degree cap]

namespace Solution

def messages (s : Solution) (settings : Settings) : List Message :=
  (if s.degree < s.nominalDegree then
    [⟨.debug, .roots, "leading zeros demote the degree from " ++ toString s.nominalDegree ++
      " to " ++ toString s.degree⟩]
  else []) ++
  s.method.messages s.degree settings.maxIterations ++
  [⟨.info, .roots, "degree " ++ toString s.degree ++ " solved by " ++ s.method.name ++ ": " ++
    toString s.roots.length ++ " roots"⟩] ++
  s.separation.messages

end Solution

def Solution.messagesOf (settings : Settings) : Except SolverError Solution → List Message
  | .ok s => s.messages settings
  | .error _ => []

def rootsOfMessages (coefficients : List Float) : List Message :=
  match Solution.ofCoefficients {} coefficients with
  | .ok s => s.messages {}
  | .error e => [⟨.debug, .roots, "no roots: " ++ e.message⟩]

end Univariate
