import Univariate.Decimal.Literal
import Univariate.Expr.Error
import Univariate.Expr.Token
import Univariate.Text.Blank
import Univariate.Text.Brackets
import Univariate.Text.Symbols

namespace Univariate.Token

def isNameStart (c : Char) : Bool := c.isAlpha || c == '_'

def isNamePart (c : Char) : Bool := c.isAlphanum || c == '_'

/-- The digits of a fraction behind a whole part that count if `rest` follows. In the grammar of
numbers all of them count. That those at the very end of a text are passed over is an assumption
about the library of combinators that recognizes a number, and no part of that grammar. -/
def keptFraction (fraction rest : List Char) : List Char :=
  if rest.isEmpty then [] else fraction

/-- A number at the front: `12`, `12.`, `12.5` or `.5`, without an exponent. -/
def lexNumber (cs : List Char) : Option (Token × List Char) :=
  let whole := cs.takeWhile Char.isDigit
  match cs.dropWhile Char.isDigit with
  | '.' :: ds =>
    let fraction := ds.takeWhile Char.isDigit
    let rest := ds.dropWhile Char.isDigit
    if whole.isEmpty then
      if fraction.isEmpty then none else some (.number (Decimal.Literal.decimal [] fraction), rest)
    else some (.number (Decimal.Literal.decimal whole (keptFraction fraction rest)), rest)
  | rest =>
    if whole.isEmpty then none else some (.number (Decimal.Literal.decimal whole []), rest)

def ofSymbol? : Char → Option Token
  | '+' => some (.op .add)
  | '-' => some (.op .sub)
  | '*' => some (.op .mul)
  | '/' => some (.op .div)
  | '^' => some (.op .pow)
  | '(' => some .lparen
  | ')' => some .rparen
  | ',' => some .comma
  | _ => none

def lexWord : List Char → Option (Token × List Char)
  | [] => none
  | c :: cs =>
    if isNameStart c then
      some (.ident (String.ofList (c :: cs.takeWhile isNamePart)), cs.dropWhile isNamePart)
    else (ofSymbol? c).map (·, cs)

def lex (cs : List Char) : Option (Token × List Char) :=
  lexNumber cs <|> lexWord cs

@[simp]
theorem keptFraction_nil (fraction : List Char) : keptFraction fraction [] = [] := rfl

theorem keptFraction_of_ne_nil {rest : List Char} (h : rest ≠ []) (fraction : List Char) :
    keptFraction fraction rest = fraction := by
  rw [keptFraction, if_neg (by rwa [List.isEmpty_iff])]

theorem length_lt_of_lexNumber {cs rest : List Char} {t : Token}
    (h : lexNumber cs = some (t, rest)) : rest.length < cs.length := by
  have hlen := congrArg List.length (List.takeWhile_append_dropWhile (p := Char.isDigit) (l := cs))
  simp only [List.length_append] at hlen
  simp only [lexNumber] at h
  split at h
  · rename_i ds hds
    have hle := Text.length_dropWhile_le Char.isDigit ds
    rw [hds, List.length_cons] at hlen
    split at h
    · split at h
      · simp at h
      · simp only [Option.some.injEq, Prod.mk.injEq] at h
        rw [← h.2]; omega
    · simp only [Option.some.injEq, Prod.mk.injEq] at h
      rw [← h.2]; omega
  · split at h
    · simp at h
    · rename_i hw
      simp only [Option.some.injEq, Prod.mk.injEq] at h
      have : 0 < (cs.takeWhile Char.isDigit).length := by
        cases hc : cs.takeWhile Char.isDigit with
        | nil => simp [hc] at hw
        | cons _ _ => simp
      rw [← h.2]; omega

theorem length_lt_of_lexWord {cs rest : List Char} {t : Token}
    (h : lexWord cs = some (t, rest)) : rest.length < cs.length := by
  cases cs with
  | nil => simp [lexWord] at h
  | cons c cs =>
    have hle := Text.length_dropWhile_le isNamePart cs
    simp only [lexWord] at h
    split at h
    · simp only [Option.some.injEq, Prod.mk.injEq] at h
      rw [← h.2, List.length_cons]; omega
    · cases hs : ofSymbol? c with
      | none => simp [hs] at h
      | some _ =>
        simp only [hs, Option.map_some, Option.some.injEq, Prod.mk.injEq] at h
        rw [← h.2, List.length_cons]; omega

theorem length_lt_of_lex {cs rest : List Char} {t : Token}
    (h : lex cs = some (t, rest)) : rest.length < cs.length := by
  simp only [lex] at h
  cases hn : lexNumber cs with
  | none => exact length_lt_of_lexWord (by simpa [hn] using h)
  | some p =>
    have : p = (t, rest) := by simpa [hn] using h
    exact length_lt_of_lexNumber (this ▸ hn)

def run (cs : List Char) : List Token × List Char :=
  match h : lex (cs.dropWhile Text.isGap) with
  | none => ([], cs)
  | some (t, rest) =>
    have : rest.length < cs.length :=
      Nat.lt_of_lt_of_le (length_lt_of_lex h) (Text.length_dropWhile_le _ cs)
    let (ts, remainder) := run rest
    (t :: ts, remainder)
termination_by cs.length

def roundBracket (c : Char) : Char :=
  if Text.isOpening c then '(' else if Text.isClosing c then ')' else c

def ofText (text : List Char) : Except ParseError (List Token) :=
  let cs := (Text.plainSymbols text).map roundBracket
  if cs.all Text.isBlank then .error .emptyInput
  else if !Text.balanced cs then .error .unbalancedBrackets
  else
    let (ts, rest) := run cs
    match Text.trimStart rest with
    | [] => .ok ts
    | c :: _ => .error (.unexpectedToken (String.singleton c))

end Univariate.Token
