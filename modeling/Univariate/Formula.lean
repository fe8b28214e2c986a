import Univariate.Calculus.Difference
import Univariate.Calculus.Integral
import Univariate.Calculus.Limit
import Univariate.Expr.Eval
import Univariate.Expr.Parser

namespace Univariate.Formula

def function (text : List Char) (free : String) : Except ParseError (Float → Float) :=
  (Expr.parse (some free) text).map fun e => e.valueAt free

def value? (text : List Char) (free : String) (x : Float) : Except ParseError Float :=
  (function text free).map (· x)

def value (text : List Char) (free : String) (x : Float) : Float :=
  match value? text free x with
  | .ok y => y
  | .error _ => undefined

def valueMessages (text : List Char) (free : String) : List Message :=
  match function text free with
  | .ok _ => []
  | .error e =>
    [⟨.debug, .evaluation, "failed to evaluate '" ++ String.ofList text ++ "': " ++ e.message⟩]

def withFunction {α : Type} (text : List Char) (free : String)
    (compute : (Float → Float) → Except SolverError α) : Except SolverError α :=
  match function text free with
  | .ok f => compute f
  | .error e => .error (.parse e)

def limit (text : List Char) (free : String) (point : Float) (side? : Option Calculus.Side) :
    Except SolverError Float :=
  withFunction text free fun f =>
    .ok (match side? with
      | some side => Calculus.oneSidedLimit f point side
      | none => Calculus.limit f point)

def limitMessages (text : List Char) (free : String) (point : Float) : List Message :=
  match function text free with
  | .error _ => []
  | .ok f =>
    if (f point).isFinite then []
    else
      [⟨.debug, .calculus, String.ofList ("limit at ".toList ++ Decimal.plain point ++
        ": left ".toList ++ Decimal.plain (Calculus.approach f point .left) ++
        ", right ".toList ++ Decimal.plain (Calculus.approach f point .right))⟩]

def derivative (text : List Char) (free : String) (x : Float) (order : UInt32) :
    Except SolverError Float :=
  withFunction text free fun f => .ok (Calculus.derivative f x order)

def taylor (text : List Char) (free : String) (center : Float) (order : UInt32) :
    Except SolverError (List Float) :=
  withFunction text free fun f => .ok (Calculus.taylor f center order)

def integral (text : List Char) (free : String) (a b : Float) (rule : Calculus.Rule) :
    Except SolverError Float :=
  withFunction text free fun f => Calculus.integral f a b rule

end Univariate.Formula
