namespace Univariate.Text

def plainSymbol (c : Char) : Char :=
  if c = '\u2212' then '-'
  else if c = '\u00d7' || c = '\u00b7' || c = '\u22c5' then '*'
  else if c = '\u00f7' then '/'
  else c

def plainSymbols (cs : List Char) : List Char := cs.map plainSymbol

end Univariate.Text
