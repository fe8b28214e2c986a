import Univariate.Text.Brackets

namespace Univariate.Text

def bindsSign (c : Char) : Bool :=
  c == '^' || c == '*' || c == '/' || isOpening c

def depthAfter (depth : Nat) (c : Char) : Nat :=
  if isOpening c then depth + 1 else if isClosing c then depth - 1 else depth

/-- The terms of a text of which `last :: before` is already read, backwards, as the start of a
term. -/
def signedTermsAfter (depth : Nat) (last : Char) (before : List Char) : List Char → List (List Char)
  | [] => [(last :: before).reverse]
  | c :: cs =>
    let depth' := depthAfter depth c
    if (c == '+' || c == '-') && depth' == 0 && !bindsSign last then
      (last :: before).reverse :: signedTermsAfter depth' c [] cs
    else signedTermsAfter depth' c (last :: before) cs

def signedTerms : List Char → List (List Char)
  | [] => []
  | c :: cs => signedTermsAfter (depthAfter 0 c) c [] cs

theorem flatten_signedTermsAfter (depth : Nat) (last : Char) (before cs : List Char) :
    (signedTermsAfter depth last before cs).flatten = (last :: before).reverse ++ cs := by
  induction cs generalizing depth last before with
  | nil => simp [signedTermsAfter]
  | cons c cs ih =>
    simp only [signedTermsAfter]
    split <;> simp [ih]

theorem flatten_signedTerms (cs : List Char) : (signedTerms cs).flatten = cs := by
  cases cs with
  | nil => rfl
  | cons c cs => simp [signedTerms, flatten_signedTermsAfter]

end Univariate.Text
