import Univariate.Decimal.Places
import Univariate.Roots.Solution

namespace Univariate

def Cartesian.format (decimals : Nat) (z : Cartesian Float) : List Char :=
  let tolerance : Float := Cartesian.tolerance
  if z.isZero then ['0']
  else if z.isReal then Decimal.fixed decimals z.re
  else
    let isUnit := decide ((z.im.abs - 1).abs < tolerance)
    let below := decide (z.im < 0)
    if z.re.abs < tolerance then
      if isUnit then (if below then ['-', 'i'] else ['i'])
      else Decimal.fixed decimals z.im ++ ['i']
    else
      Decimal.fixed decimals z.re ++ [' ', if below then '-' else '+', ' '] ++
        (if isUnit then [] else Decimal.fixed decimals z.im.abs) ++ ['i']

def Cartesian.text (z : Cartesian Float) : List Char := z.format 4

abbrev Table := List (List Char × List Char)

namespace Table

def width (column : List (List Char)) : Nat :=
  column.foldl (fun w cell => max w cell.length) 0

def cell (width : Nat) (text : List Char) : List Char :=
  ' ' :: text ++ List.replicate (width - text.length + 1) ' '

def rule (left right : Nat) (start knot stop : Char) : List Char :=
  start :: List.replicate (left + 2) '─' ++ knot :: List.replicate (right + 2) '─' ++ [stop]

def row (left right : Nat) (cells : List Char × List Char) : List Char :=
  '│' :: cell left cells.1 ++ '│' :: cell right cells.2 ++ ['│']

def lines (t : Table) : List (List Char) :=
  let left := width (t.map Prod.fst)
  let right := width (t.map Prod.snd)
  rule left right '╭' '┬' '╮' ::
    (t.map (row left right)).intersperse (rule left right '├' '┼' '┤') ++
    [rule left right '╰' '┴' '╯']

def text (t : Table) : List Char := Text.joined ['\n'] t.lines

end Table

namespace Solution

def rootRows {α : Type} (label : String) (write : α → List Char) (roots : List α) : Table :=
  roots.zipIdx.map fun (r, i) => ((label ++ " " ++ toString (i + 1)).toList, write r)

def table (s : Solution) : Table :=
  [([], "value".toList),
    ("method".toList, s.method.name.toList),
    ("iterations".toList, match s.method.iterations with
      | some n => Nat.toDigits 10 n
      | none => ['-']),
    ("converged".toList, (toString s.method.converged).toList)] ++
  rootRows "real root" (Decimal.fixed 6) s.separation.real ++
  rootRows "complex pair" (fun z => z.text ++ " and conjugate".toList) s.separation.complex

end Solution

end Univariate
