import Univariate.Decimal.Layout

namespace Univariate.Dense

def termText (unknown : List Char) (power : Nat) (magnitude : Float) : List Char :=
  let number := Decimal.plain magnitude
  match power with
  | 0 => number
  | power + 1 =>
    (if magnitude == 1 then [] else number) ++ unknown ++
      (if power = 0 then [] else '^' :: Nat.toDigits 10 (power + 1))

def signText (first negative : Bool) : List Char :=
  match first, negative with
  | true, true => ['-']
  | true, false => []
  | false, true => [' ', '-', ' ']
  | false, false => [' ', '+', ' ']

def termsText (unknown : List Char) (first : Bool) : List Float → List Char
  | [] => []
  | c :: cs =>
    if c == 0 then termsText unknown first cs
    else
      signText first (decide (c < 0)) ++ termText unknown cs.length c.abs ++
        termsText unknown false cs

def format (coefficients : List Float) (unknown : List Char) : List Char :=
  let text := termsText unknown true coefficients
  if text.isEmpty then ['0'] else text

end Univariate.Dense
