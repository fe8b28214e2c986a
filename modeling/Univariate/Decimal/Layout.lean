import Univariate.Decimal.Shortest

namespace Univariate.Decimal

structure Layout where
  positional : Int → Bool
  pointZero : Bool

def Layout.plain : Layout := ⟨fun _ => true, false⟩

def Layout.mixed : Layout := ⟨fun e => decide (-4 ≤ e) && decide (e < 16), true⟩

def Layout.scientific : Layout := ⟨fun _ => false, false⟩

def Digits.magnitude (d : Digits) : Int :=
  d.exponent + (Nat.toDigits 10 d.value).length - 1

def Digits.positional (d : Digits) (pointZero : Bool) : List Char :=
  let ds := Nat.toDigits 10 d.value
  if 0 ≤ d.exponent then
    ds ++ List.replicate d.exponent.toNat '0' ++ (if pointZero then ['.', '0'] else [])
  else
    let places := (-d.exponent).toNat
    if places < ds.length then
      ds.take (ds.length - places) ++ '.' :: ds.drop (ds.length - places)
    else '0' :: '.' :: (List.replicate (places - ds.length) '0' ++ ds)

def Digits.scientific (d : Digits) : List Char :=
  let ds := Nat.toDigits 10 d.value
  let fraction := ds.drop 1
  ds.take 1 ++ (if fraction.isEmpty then [] else '.' :: fraction) ++
    'e' :: (toString d.magnitude).toList

def Layout.digits (l : Layout) (d : Digits) : List Char :=
  if l.positional d.magnitude then d.positional l.pointZero else d.scientific

def signed (x : Float) (magnitude : List Char) : List Char :=
  if signBit x then '-' :: magnitude else magnitude

def Layout.write (l : Layout) (x : Float) : List Char :=
  if x.isNaN then ['N', 'a', 'N']
  else if x.isInf then signed x ['i', 'n', 'f']
  else signed x (l.digits (Binary.ofFloat x).shortest)

def plain (x : Float) : List Char := Layout.plain.write x

def mixed (x : Float) : List Char := Layout.mixed.write x

def scientific (x : Float) : List Char := Layout.scientific.write x

end Univariate.Decimal
