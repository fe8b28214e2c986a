import Univariate.Document.Configuration
import Univariate.Formula
import Univariate.Solver

namespace Univariate.Showcase

def page (lines : List String) : String :=
  lines.foldl (fun text line => text ++ line ++ "\n") ""

def absent (number : Nat) : String := page ["no such example: " ++ toString number]

def plain (x : Float) : String := String.ofList (Decimal.plain x)

def list (xs : List Float) : String := String.ofList (listText (xs.map Decimal.mixed))

def parts (z : Cartesian Float) : List Char :=
  "Complex \x7b re: ".toList ++ Decimal.mixed z.re ++ ", im: ".toList ++ Decimal.mixed z.im ++
    " \x7d".toList

def partsList (zs : List (Cartesian Float)) : String := String.ofList (listText (zs.map parts))

def formatted (zs : List (Cartesian Float)) : List String :=
  zs.map fun z => String.ofList z.text

def tabulation (formula free : String) (point : Float) (grid : List Float) : List String :=
  match Expr.parse (some free) formula.toList with
  | .error e => ["could not parse " ++ formula ++ ": " ++ e.message]
  | .ok e =>
    ("parsed_expression " ++ String.ofList e.text) ::
      (point :: grid).map fun x =>
        "f(" ++ plain x ++ ") = " ++ plain (e.valueAt free x)

def evaluation (label formula free : String) (x : Float) : String :=
  label ++ ": " ++ plain (Formula.value formula.toList free x)

def equation (text : String) : String :=
  match Equation.parse 'x' text.toList with
  | .ok parsed =>
    text ++ " -> degree " ++ toString parsed.degree ++ ", coefficients " ++
      list parsed.coefficients
  | .error e => text ++ " is rejected: " ++ e.message

def tokens (text : String) : String :=
  match Token.ofText text.toList with
  | .ok ts => "tokens: " ++ String.ofList (Text.joined [' '] (ts.map Token.text))
  | .error e => "tokenizer error: " ++ e.message

def symbolic : Nat → String
  | 0 => page (tabulation "2x^2 - 3sin(x)/x + e^(-x)" "x" 1.5 (linspace 0.5 2.5 5))
  | 1 => page <|
    [tokens "2(x+1)sin(pi x)",
      evaluation "2x at x = 3" "2x" "x" 3,
      evaluation "exp(e) with variable e = 1" "exp(e)" "e" 1,
      evaluation "broken input" "sin(" "x" 1] ++
    match Formula.value? "sin(".toList "x" 1 with
    | .ok _ => []
    | .error e => ["because: " ++ e.message]
  | 2 => page <|
    [equation "3x^\x7b3\x7d - \\frac12 x + 2 \\cdot x^\x7b2\x7d - 7 = 0",
      equation "3x^\x7b3\x7d + 2 \\cdot x^\x7b2\x7d - 7 = 0",
      "formatted: " ++ String.ofList (Dense.format [3, 2, 0, -7] ['x']),
      equation "x^2 - 1"] ++
    match Equation.polynomial? 'x' "x^4 - 5x^2 + 4".toList with
    | some cs => ["Some(" ++ list cs ++ ")"]
    | none => ["None"]
  | number => absent number

def rootLines (label : String) (coefficients : List Float) : List String :=
  let roots := rootsOf coefficients
  let separation := Separation.ofRoots Separation.computed Separation.defaultEpsilon roots
  let quotedRoots := separation.complex.map fun z => Text.quoted z.text
  [label ++ ": " ++ ", ".intercalate (formatted roots),
    "   real roots " ++ list separation.real ++
      ", complex roots (one per conjugate pair) " ++ String.ofList (listText quotedRoots)]

def iteration (coefficients : List Float) (cap : Nat) : DurandKerner.Outcome Float :=
  DurandKerner.run coefficients DurandKerner.defaultTolerance cap

def solved (text : String) : String :=
  let settings : Settings := { tolerance := 0.0000000001 }
  match ({ settings } : Solver).setEquation text with
  | .error e => "parse error: " ++ e.message
  | .ok solver =>
    match (solver.solve none).outcome with
    | .error e => "solver error: " ++ e.message
    | .ok s => "method " ++ s.method.name ++ ", real roots " ++ list s.separation.real

def roots : Nat → String
  | 0 => page <|
    (formatted (ClosedForm.quadratic 1 (-2) 5)).map ("x^2 - 2x + 5: " ++ ·) ++
    (formatted (ClosedForm.cubic 1 (-6) 11 (-6))).map ("x^3 - 6x^2 + 11x - 6: " ++ ·) ++
    [partsList (ClosedForm.cubic 0 1 (-5) 6)]
  | 1 => page <|
    rootLines "x - 4" [1, -4] ++
    rootLines "x^2 + 1" [1, 0, 1] ++
    rootLines "x^3 + 8" [1, 0, 0, 8] ++
    rootLines "x^4 - 5x^2 + 4" [1, 0, -5, 0, 4] ++
    rootLines "x^5 - x" [1, 0, 0, 0, -1, 0]
  | 2 =>
    let quintic := iteration [1, -1, 2, -2, 3, -3] DurandKerner.defaultCap
    let quartic := iteration [1, -4, 6, -4, 1] 10
    page <|
      ["converged: " ++ toString quintic.converged ++ " after " ++ toString quintic.iterations ++
        " iterations"] ++
      (formatted quintic.roots).map ("   " ++ ·) ++
      ["(x - 1)^4 with 10 iterations: converged = " ++ toString quartic.converged ++ ", roots " ++
        partsList quartic.roots]
  | 3 => page
    [solved "x^\x7b4\x7d + x^\x7b3\x7d - 5 \\cdot x^\x7b2\x7d + x - 6 = 0"]
  | 4 => page <|
    (match Dense.divide? [1, -6, 11, -6] [(1 : Float), -1] with
      | some d => ["quotient " ++ list d.quotient ++ ", remainder " ++ list d.remainder]
      | none => []) ++
    (match Dense.divide? [1, 2] [(0 : Float)] with
      | some d => [list d.quotient]
      | none => ["None"])
  | number => absent number

def result (label : String) (r : Except SolverError Float) : String :=
  match r with
  | .ok x => label ++ plain x
  | .error e => e.message

def limitLine (label formula : String) (side? : Option Calculus.Side) : Float → String :=
  fun point => result (label ++ ": ") (Formula.limit formula.toList "x" point side?)

def sineIntegral (label : String) (rule : Calculus.Rule) : String :=
  result label (Formula.integral "sin(x)".toList "x" 0 Elementary.pi rule)

def calculus : Nat → String
  | 0 => page
    [limitLine "sin(x)/x at 0" "sin(x)/x" none 0,
      limitLine "(x^2-1)/(x-1) at 1" "(x^2-1)/(x-1)" none 1,
      limitLine "1/x^2 at 0" "1/x^2" none 0,
      limitLine "1/x at 0" "1/x" none 0,
      limitLine "1/x at 0 from the left" "1/x" (some .left) 0]
  | 1 => page <|
    ((List.range 4).map fun order =>
      result ("d^" ++ toString order ++ " / dt^" ++ toString order ++ " of t^3 at t = 2: ")
        (Formula.derivative "t^3".toList "t" 2 (.ofNat order))) ++
    match Formula.taylor "cos(x)".toList "x" 0 4 with
    | .ok cs => ["Taylor coefficients of cos(x) at 0: " ++ list cs]
    | .error e => [e.message]
  | 2 => page
    [sineIntegral "Simpson " (.simpson 100) ++
      sineIntegral ", Gauss-Legendre " (.gaussLegendre 12)]
  | number => absent number

def outline (s : Settings) : String :=
  let level := match s.logLevel with
    | some name => "Some(" ++ String.ofList (Text.quoted name.toList) ++ ")"
    | none => "None"
  "SolverConfig \x7b tolerance: " ++ String.ofList (Decimal.mixed s.tolerance) ++
    ", max_iterations: " ++ toString s.maxIterations ++
    ", epsilon: " ++ String.ofList (Decimal.mixed s.epsilon) ++
    ", loglevel: " ++ level ++ ", log_to_file: " ++ toString s.logToFile ++ " \x7d"

def settingsLine (text : String) : String :=
  match Settings.parse text.toList with
  | .ok s => outline s
  | .error e => e.message

def settings : Nat → String
  | 1 => page
    [settingsLine "solver tolerance: 1e-10 max_iterations: 400\nlogging loglevel: warn",
      settingsLine "solver step: 0.1"]
  | number => absent number

end Univariate.Showcase
