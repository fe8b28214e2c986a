namespace Univariate.Text

def linesAfter (current : List Char) : List Char → List (List Char)
  | [] => if current.isEmpty then [] else [current.reverse]
  | c :: cs =>
    if c = '\n' then
      let line := match current with
        | '\r' :: before => before
        | _ => current
      line.reverse :: linesAfter [] cs
    else linesAfter (c :: current) cs

def lines (cs : List Char) : List (List Char) := linesAfter [] cs

def joined (separator : List Char) (parts : List (List Char)) : List Char :=
  (parts.intersperse separator).flatten

end Univariate.Text
