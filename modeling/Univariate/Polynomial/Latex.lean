import Univariate.Text.Blank
import Univariate.Text.Symbols

/-!
# LaTeX spelling of polynomials

`Latex.strip` turns the commands for products into stars, leaves out spacing and sizing commands,
the braces of exponents, all other braces and blanks, and turns the double star into a power sign.
-/

namespace Univariate.Latex

def productCommands : List (List Char) := ["cdot".toList, "times".toList, "ast".toList]

def spacingCommands : List (List Char) :=
  ["left".toList, "right".toList, [','], [';'], ['!'], "quad".toList]

def replaceCommandsAfter (commands : List (List Char)) (replacement : List Char) :
    (skip : Nat) → List Char → List Char
  | _, [] => []
  | skip + 1, _ :: cs => replaceCommandsAfter commands replacement skip cs
  | 0, c :: cs =>
    match (if c = '\\' then commands.find? fun name => name.isPrefixOf cs else none) with
    | some name => replacement ++ replaceCommandsAfter commands replacement name.length cs
    | none => c :: replaceCommandsAfter commands replacement 0 cs

def replaceCommands (commands : List (List Char)) (replacement : List Char) (cs : List Char) :
    List Char :=
  replaceCommandsAfter commands replacement 0 cs

def isBrace (c : Char) : Bool := c == '{' || c == '}'

/-- Takes the braces off every exponent that has none inside. `opened` says that an exponent is
not closed yet, and `raised` that a power sign stands in front. -/
def unbraceAfter : (opened raised : Bool) → List Char → List Char
  | _, _, [] => []
  | opened, raised, c :: cs =>
    if raised && c == '{' && cs.find? isBrace == some '}' then unbraceAfter true false cs
    else if opened && c == '}' then unbraceAfter false false cs
    else c :: unbraceAfter opened (c == '^') cs

def unbraceExponents (cs : List Char) : List Char := unbraceAfter false false cs

def isMarkup (c : Char) : Bool := Text.isBlank c || c == '{' || c == '}'

def joinStars : List Char → List Char
  | '*' :: '*' :: cs => '^' :: joinStars cs
  | c :: cs => c :: joinStars cs
  | [] => []

theorem joinStars_cons {c : Char} (h : c ≠ '*') (cs : List Char) :
    joinStars (c :: cs) = c :: joinStars cs :=
  joinStars.eq_2 c cs fun _ hc => absurd hc h

def strip (text : List Char) : List Char :=
  let cs := replaceCommands productCommands ['*'] (Text.plainSymbols text)
  let cs := replaceCommands spacingCommands [] cs
  let cs := unbraceExponents cs
  joinStars (cs.filter fun c => !isMarkup c)

end Univariate.Latex
