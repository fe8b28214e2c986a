namespace Univariate.Text

def isOpening (c : Char) : Bool := c == '(' || c == '[' || c == '{'

def isClosing (c : Char) : Bool := c == ')' || c == ']' || c == '}'

def closing (c : Char) : Char :=
  if c = '(' then ')' else if c = '[' then ']' else '}'

/-- Whether the text closes the brackets that are open, the innermost first, and its own. -/
def closes : List Char → List Char → Bool
  | stack, [] => stack.isEmpty
  | stack, c :: cs =>
    if isOpening c then closes (c :: stack) cs
    else if isClosing c then
      match stack with
      | [] => false
      | b :: below => closing b == c && closes below cs
    else closes stack cs

def balanced (cs : List Char) : Bool := closes [] cs

end Univariate.Text
