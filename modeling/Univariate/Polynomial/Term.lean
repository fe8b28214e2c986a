import Univariate.Decimal.Literal
import Univariate.Expr.Error
import Univariate.Text.DecimalDigit
import Univariate.Text.SignedTerms

namespace Univariate

structure Term where
  negative : Bool
  magnitude : Float
  power : Nat
  deriving Repr

namespace Term

def maxPower : Nat := 1000

def coefficient (t : Term) : Float := if t.negative then -t.magnitude else t.magnitude

structure Shape where
  negative : Bool
  literal : Option (List Char × List Char)
  star : Bool
  letter : Option Char
  exponent : Option (List Char)

/-- A decimal literal at the front, with digits of any script. -/
def literalPrefix (cs : List Char) : Option (List Char × List Char) × List Char :=
  let whole := cs.takeWhile Text.isDecimalDigit
  match cs.dropWhile Text.isDecimalDigit with
  | '.' :: ds =>
    let fraction := ds.takeWhile Text.isDecimalDigit
    if whole.isEmpty && fraction.isEmpty then (none, cs)
    else (some (whole, fraction), ds.dropWhile Text.isDecimalDigit)
  | rest => if whole.isEmpty then (none, cs) else (some (whole, []), rest)

def powerShape? : List Char → Option (Char × Option (List Char))
  | [c] => if c.isAlpha then some (c, none) else none
  | c :: '^' :: digits =>
    if c.isAlpha && !digits.isEmpty && digits.all Text.isDecimalDigit then some (c, some digits)
    else none
  | _ => none

def shape? (cs : List Char) : Option Shape :=
  let (negative, body) := Decimal.Literal.sign cs
  let (literal, rest) := literalPrefix body
  match rest with
  | [] => some ⟨negative, literal, false, none, none⟩
  | '*' :: cs => (powerShape? cs).map fun (c, e) => ⟨negative, literal, true, some c, e⟩
  | cs => (powerShape? cs).map fun (c, e) => ⟨negative, literal, false, some c, e⟩

def magnitude? : Option (List Char × List Char) → Option Float
  | none => some 1
  | some (whole, fraction) =>
    if (whole ++ fraction).all Char.isDigit then some (Decimal.Literal.decimal whole fraction)
    else none

def power? : Option Char → Option (List Char) → Option Nat
  | none, _ => some 0
  | some _, none => some 1
  | some _, some digits =>
    if digits.all Char.isDigit && decide (Decimal.Literal.value digits ≤ maxPower) then
      some (Decimal.Literal.value digits)
    else none

/-- Reads a term in `unknown`. A letter other than the variable is reported before a number
that cannot be read. -/
def ofText (unknown : Char) (cs : List Char) : Except ParseError Term :=
  let invalid : Except ParseError Term := .error (.invalidTerm (String.ofList cs))
  match shape? cs with
  | none => invalid
  | some s =>
    if s.literal.isNone && (s.letter.isNone || s.star) then invalid
    else if s.letter.any (· != unknown) then
      .error (.unknownIdentifier ((s.letter.map String.singleton).getD ""))
    else
      match magnitude? s.literal, power? s.letter s.exponent with
      | some magnitude, some power => .ok ⟨s.negative, magnitude, power⟩
      | _, _ => invalid

def listOfText (unknown : Char) (cs : List Char) : Except ParseError (List Term) :=
  (Text.signedTerms cs).mapM (ofText unknown)

end Term

end Univariate
