namespace Univariate.Decimal.Literal

def value (digits : List Char) : Nat :=
  digits.foldl (fun n c => 10 * n + (c.toNat - 48)) 0

def decimal (whole fraction : List Char) : Float :=
  Float.ofScientific (value (whole ++ fraction)) true fraction.length

/-- The double nearest to `n * 10 ^ exponent`. Exponents far outside the range of a double are
decided without computing the power. -/
def scaled (n : Nat) (exponent : Int) : Float :=
  let magnitude := exponent + (Nat.toDigits 10 n).length
  if n = 0 || magnitude < -400 then 0
  else if 400 < magnitude then 1 / 0
  else Float.ofScientific n (decide (exponent < 0)) exponent.natAbs

def sign : List Char → Bool × List Char
  | '-' :: cs => (true, cs)
  | '+' :: cs => (false, cs)
  | cs => (false, cs)

def exponent? : List Char → Option Int
  | [] => some 0
  | c :: cs =>
    let (negative, digits) := sign cs
    if (c = 'e' || c = 'E') && !digits.isEmpty && digits.all Char.isDigit then
      some (if negative then -(value digits : Int) else (value digits : Int))
    else none

def unsigned? (cs : List Char) : Option Float :=
  let whole := cs.takeWhile Char.isDigit
  let rest := cs.dropWhile Char.isDigit
  let (fraction, rest) := match rest with
    | '.' :: ds => (ds.takeWhile Char.isDigit, ds.dropWhile Char.isDigit)
    | _ => ([], rest)
  if whole.isEmpty && fraction.isEmpty then none
  else (exponent? rest).map fun e => scaled (value (whole ++ fraction)) (e - fraction.length)

/-- A signed decimal with an optional exponent, or in any case of letters `inf`, `infinity` or
`nan`. -/
def float? (cs : List Char) : Option Float :=
  let (negative, body) := sign cs
  let word := body.map Char.toLower
  let magnitude :=
    if word = ['i', 'n', 'f'] || word = ['i', 'n', 'f', 'i', 'n', 'i', 't', 'y'] then some (1 / 0)
    else if word = ['n', 'a', 'n'] then some (0 / 0)
    else unsigned? body
  magnitude.map fun x => if negative then -x else x

def integer? (cs : List Char) : Option Int :=
  let (negative, digits) := sign cs
  if digits.isEmpty || !digits.all Char.isDigit then none
  else
    let n : Int := if negative then -(value digits : Int) else (value digits : Int)
    if -9223372036854775808 ≤ n ∧ n ≤ 9223372036854775807 then some n else none

def boolean? (cs : List Char) : Option Bool :=
  if cs = ['t', 'r', 'u', 'e'] then some true
  else if cs = ['f', 'a', 'l', 's', 'e'] then some false
  else none

end Univariate.Decimal.Literal
