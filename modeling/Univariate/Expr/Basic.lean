namespace Univariate

inductive Operator where
  | add | sub | mul | div | pow
  deriving DecidableEq, Repr

inductive Function where
  | exp | ln | log10 | sqrt | abs | sin | cos | tan | arcsin | arccos | arctan
  deriving DecidableEq, Repr

inductive Expr where
  | var (name : String)
  | const (value : Float)
  | binary (op : Operator) (lhs rhs : Expr)
  | neg (e : Expr)
  | apply (f : Function) (e : Expr)
  deriving BEq, Repr

namespace Expr

def substitute (name : String) (value : Float) : Expr → Expr
  | .var n => if n = name then .const value else .var n
  | .const c => .const c
  | .binary op l r => .binary op (l.substitute name value) (r.substitute name value)
  | .neg e => .neg (e.substitute name value)
  | .apply f e => .apply f (e.substitute name value)

def mentions (name : String) : Expr → Bool
  | .var n => n == name
  | .const _ => false
  | .binary _ l r => l.mentions name || r.mentions name
  | .neg e => e.mentions name
  | .apply _ e => e.mentions name

def insertName (name : String) : List String → List String
  | [] => [name]
  | n :: ns =>
    if name < n then name :: n :: ns
    else if name = n then n :: ns
    else n :: insertName name ns

def collectNames : Expr → List String → List String
  | .var n, names => insertName n names
  | .const _, names => names
  | .binary _ l r, names => r.collectNames (l.collectNames names)
  | .neg e, names => e.collectNames names
  | .apply _ e, names => e.collectNames names

def variableNames (e : Expr) : List String := e.collectNames []

def isZero : Expr → Bool
  | .const c => c == 0
  | _ => false

end Expr

end Univariate
