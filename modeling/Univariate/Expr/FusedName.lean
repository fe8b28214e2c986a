import Univariate.Expr.Token

/-!
# Names written without a space between them

A word that means nothing by itself is cut into known names, the longest possible name first,
so that `xsin` becomes `x sin` and `pix` becomes `pi x`. A word that cannot be cut completely is
left alone.
-/

namespace Univariate.FusedName

def longest (names : List (List Char)) : Nat :=
  names.foldl (fun n name => max n name.length) 0

def lengths (names : List (List Char)) (word : List Char) : List Nat :=
  (List.range (min word.length (longest names))).reverse.filter fun n =>
    names.contains (word.take (n + 1))

/-- The cuts of a word and of what is left of it after one character, after two, and so on to
the empty rest. A name of `n + 1` characters is followed by entry `n` of the cuts of the tail. -/
def cuts (names : List (List Char)) : List Char → List (Option (List (List Char)))
  | [] => [some []]
  | c :: cs =>
    let tails := cuts names cs
    let cut := (lengths names (c :: cs)).findSome? fun n =>
      tails[n]?.join.map (((c :: cs).take (n + 1)) :: ·)
    cut :: tails

def split? (names : List (List Char)) (word : List Char) : Option (List (List Char)) :=
  (cuts names word).head?.join

def known (free : String) : List String :=
  Callable.all.map Callable.name ++ ["pi", "e", free]

def isMeaningful (free name : String) : Bool :=
  name == free || (namedConstant? name).isSome || (Callable.ofName? name).isSome

def expand (free name : String) : List Token :=
  if isMeaningful free name then [.ident name]
  else
    match split? ((known free).map String.toList) name.toList with
    | some parts => parts.map fun part => .ident (String.ofList part)
    | none => [.ident name]

def splitAll (free : String) (ts : List Token) : List Token :=
  ts.flatMap fun t =>
    match t with
    | .ident name => expand free name
    | t => [t]

end Univariate.FusedName
