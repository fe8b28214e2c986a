import Univariate.Expr.FusedName
import Univariate.Expr.Juxtaposition
import Univariate.Expr.Lexer

/-!
# From tokens to expressions

The grammar is

    sum     := product (('+' | '-') product)*
    product := signed (('*' | '/') signed)*
    signed  := ('-' | '+') signed | power
    power   := primary ('^' signed)?
    primary := number | name | function '(' sum (',' sum)* ')' | '(' sum ')'

A list of tokens is read from left to right with a stack of frames, each of which waits for an
operand. An operand that is followed by an operator first completes the frames that bind at
least as tightly; a closing parenthesis, a comma and the end complete all frames down to the
innermost open parenthesis.
-/

namespace Univariate

def Operator.level : Operator → Nat
  | .add | .sub => 1
  | .mul | .div => 2
  | .pow => 4

inductive Frame where
  | operand (op : Operator) (lhs : Expr)
  | negation
  | group
  | call (f : Callable) (args : List Expr)

def Frame.complete (level : Nat) : List Frame → Expr → List Frame × Expr
  | .operand op lhs :: stack, e =>
    if level ≤ op.level then complete level stack (.binary op lhs e)
    else (.operand op lhs :: stack, e)
  | .negation :: stack, e =>
    if level ≤ 3 then complete level stack (.neg e) else (.negation :: stack, e)
  | stack, e => (stack, e)

def Frame.outermost : Nat := 0

/-- The level on which the operator completes what stands before it: left operators group to
the left, and the power groups to the right. -/
def Operator.pull : Operator → Nat
  | .pow => 5
  | op => op.level

namespace Parser

/-- What a name stands for. With a declared variable all other names but constants are unknown,
and it hides a constant of the same name. -/
def resolve (declared : Option String) (name : String) : Except ParseError Expr :=
  if declared = some name then .ok (.var name)
  else
    match namedConstant? name, declared with
    | some c, _ => .ok (.const c)
    | none, none => .ok (.var name)
    | none, some _ => .error (.unknownIdentifier name)

def finish (f : Callable) (args : List Expr) : Except ParseError Expr :=
  if args.length = f.arity then .ok (f.applyReversed args)
  else .error (.wrongArity f.name f.arity args.length)

def unexpected (t : Token) : ParseError := .unexpectedToken (String.ofList t.text)

def run (declared : Option String) :
    List Frame → (done : Option Expr) → List Token → Except ParseError Expr
  -- An operand is due.
  | _, none, [] => .error .unexpectedEnd
  | stack, none, .number v :: ts => run declared stack (some (.const v)) ts
  | stack, none, .ident name :: ts =>
    match ts, Callable.ofName? name with
    | .lparen :: ts, some f => run declared (.call f [] :: stack) none ts
    | ts, _ => do
      let e ← resolve declared name
      run declared stack (some e) ts
  | stack, none, .lparen :: ts => run declared (.group :: stack) none ts
  | stack, none, .op .sub :: ts => run declared (.negation :: stack) none ts
  | stack, none, .op .add :: ts => run declared stack none ts
  | _, none, t :: _ => .error (unexpected t)
  -- An operand stands finished.
  | stack, some e, [] =>
    match Frame.complete Frame.outermost stack e with
    | ([], e) => .ok e
    | _ => .error .unexpectedEnd
  | stack, some e, .op op :: ts =>
    let (stack, e) := Frame.complete op.pull stack e
    run declared (.operand op e :: stack) none ts
  | stack, some e, .rparen :: ts =>
    match Frame.complete Frame.outermost stack e with
    | (.group :: stack, e) => run declared stack (some e) ts
    | (.call f args :: stack, e) => do
      let e ← finish f (e :: args)
      run declared stack (some e) ts
    | _ => .error (unexpected .rparen)
  | stack, some e, .comma :: ts =>
    match Frame.complete Frame.outermost stack e with
    | (.call f args :: stack, e) => run declared (.call f (e :: args) :: stack) none ts
    | _ => .error (unexpected .comma)
  | _, some _, t :: _ => .error (unexpected t)

section

variable {declared : Option String}

theorem run_rparen_group (stack : List Frame) (e : Expr) (rest : List Token) :
    run declared (.group :: stack) (some e) (.rparen :: rest) =
      run declared stack (some e) rest := by
  simp only [run, Frame.complete]

theorem run_comma (f : Callable) (args : List Expr) (stack : List Frame) (e : Expr)
    (rest : List Token) :
    run declared (.call f args :: stack) (some e) (.comma :: rest) =
      run declared (.call f (e :: args) :: stack) none rest := by
  simp only [run, Frame.complete]

end

def ofTokens (declared : Option String) (ts : List Token) : Except ParseError Expr :=
  run declared [] none ts

end Parser

def Token.prepare (declared : Option String) (ts : List Token) : List Token :=
  Juxtaposition.explicit <|
    match declared with
    | some v => FusedName.splitAll v ts
    | none => ts

def Expr.parse (declared : Option String) (text : List Char) : Except ParseError Expr := do
  let ts ← Token.ofText text
  Parser.ofTokens declared (Token.prepare declared ts)

end Univariate
