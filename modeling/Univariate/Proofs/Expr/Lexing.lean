import Univariate.Expr.Lexer
import Univariate.Proofs.Decimal.ReadBack
import Univariate.Proofs.Text.Ascii

namespace Univariate.Token

open Decimal Double Text

variable {cs rest : List Char} {t : Token}

def isIdentifier (name : String) : Bool :=
  match name.toList with
  | [] => false
  | c :: cs => isNameStart c && cs.all isNamePart

theorem isIdentifier_iff {name : String} : isIdentifier name = true ↔
    ∃ c cs, name.toList = c :: cs ∧ isNameStart c = true ∧ ∀ d ∈ cs, isNamePart d = true := by
  unfold isIdentifier
  constructor
  · intro h
    cases hname : name.toList with
    | nil => simp [hname] at h
    | cons c cs =>
      simp only [hname, Bool.and_eq_true, List.all_eq_true] at h
      exact ⟨c, cs, rfl, h.1, h.2⟩
  · rintro ⟨c, cs, hname, hc, hcs⟩
    simp only [hname, Bool.and_eq_true, List.all_eq_true]
    exact ⟨hc, hcs⟩

theorem isNameStart_iff {c : Char} : isNameStart c = true ↔
    65 ≤ c.toNat ∧ c.toNat ≤ 90 ∨ 97 ≤ c.toNat ∧ c.toNat ≤ 122 ∨ c = '_' := by
  simp only [isNameStart, Bool.or_eq_true, isAlpha_iff, beq_iff_eq, or_assoc]

theorem isNamePart_iff {c : Char} : isNamePart c = true ↔
    65 ≤ c.toNat ∧ c.toNat ≤ 90 ∨ 97 ≤ c.toNat ∧ c.toNat ≤ 122 ∨
      48 ≤ c.toNat ∧ c.toNat ≤ 57 ∨ c = '_' := by
  simp only [isNamePart, Char.isAlphanum, Bool.or_eq_true, isAlpha_iff, isDigit_iff, beq_iff_eq,
    or_assoc]

theorem isNamePart_of_isNameStart {c : Char} (h : isNameStart c = true) : isNamePart c = true := by
  rw [isNameStart_iff] at h
  rw [isNamePart_iff]
  rcases h with h | h | h
  · exact .inl h
  · exact .inr (.inl h)
  · exact .inr (.inr (.inr h))

theorem isNamePart_of_mem {name : String} (h : isIdentifier name = true) :
    ∀ c ∈ name.toList, isNamePart c = true := by
  obtain ⟨c, cs, hname, hc, hcs⟩ := isIdentifier_iff.mp h
  intro d hd
  rw [hname] at hd
  rcases List.mem_cons.mp hd with rfl | hd
  · exact isNamePart_of_isNameStart hc
  · exact hcs d hd

theorem isDigit_of_isNameStart {c : Char} (h : isNameStart c = true) : c.isDigit = false := by
  rw [isNameStart_iff] at h
  rw [Bool.eq_false_iff]
  intro hd
  rw [isDigit_iff] at hd
  rcases h with h | h | rfl
  · omega
  · omega
  · revert hd
    decide

theorem lexNumber_eq_none {c : Char} (hdigit : c.isDigit = false) (hpoint : c ≠ '.') :
    lexNumber (c :: cs) = none := by
  unfold lexNumber
  simp only [List.takeWhile_cons, List.dropWhile_cons, hdigit, Bool.false_eq_true, if_false]
  split
  · rename_i heq
    cases heq
    exact absurd rfl hpoint
  · rfl

theorem lex_name {name : String} (h : isIdentifier name = true)
    (hrest : ∀ c ∈ rest.head?, isNamePart c = false) :
    lex (name.toList ++ rest) = some (.ident name, rest) := by
  obtain ⟨c, cs, hname, hc, hcs⟩ := isIdentifier_iff.mp h
  have hpoint : c ≠ '.' := by
    rintro rfl
    cases hc
  have hback : String.ofList (c :: cs) = name := by
    rw [← hname, String.ofList_toList]
  rw [hname, List.cons_append, lex, lexNumber_eq_none (isDigit_of_isNameStart hc) hpoint, lexWord,
    if_pos hc, takeWhile_append_stop hcs hrest, dropWhile_append_stop hcs hrest, hback]
  rfl

theorem lex_lparen : lex ('(' :: rest) = some (.lparen, rest) := rfl

theorem lex_rparen : lex (')' :: rest) = some (.rparen, rest) := rfl

theorem lex_op (op : Operator) : lex (op.symbol :: rest) = some (.op op, rest) := by
  cases op <;> rfl

section Number

variable {x : Float}

theorem lexNumber_whole (hrest : ∀ c ∈ rest.head?, c.isDigit = false ∧ c ≠ '.') :
    lexNumber (whole x ++ rest) = some (.number (Literal.decimal (whole x) []), rest) := by
  have hdigits : ∀ c ∈ rest.head?, c.isDigit = false := fun c hc => (hrest c hc).1
  unfold lexNumber
  rw [takeWhile_append_stop (isDigit_whole x) hdigits,
    dropWhile_append_stop (isDigit_whole x) hdigits]
  split
  · exact absurd rfl (hrest '.' rfl).2
  · simp only [isEmpty_whole, Bool.false_eq_true, if_false]

theorem lexNumber_point (fraction rest : List Char) :
    lexNumber (whole x ++ '.' :: (fraction ++ rest)) =
      some (.number (Literal.decimal (whole x)
          (keptFraction ((fraction ++ rest).takeWhile Char.isDigit)
            ((fraction ++ rest).dropWhile Char.isDigit))),
        (fraction ++ rest).dropWhile Char.isDigit) := by
  have hpoint : ∀ c ∈ ('.' :: (fraction ++ rest)).head?, c.isDigit = false := by
    intro c hc
    cases hc
    rfl
  unfold lexNumber
  rw [takeWhile_append_stop (isDigit_whole x) hpoint,
    dropWhile_append_stop (isDigit_whole x) hpoint]
  simp only [isEmpty_whole, Bool.false_eq_true, if_false]

def readAtEnd (x : Float) : Float := Literal.decimal (whole x) []

theorem lex_plain_end (hx : Unsigned (unpacked x)) :
    lex (plain x) = some (.number (readAtEnd x), []) := by
  have hnumber : lexNumber (plain x) = some (.number (readAtEnd x), []) := by
    rw [plain_eq hx]
    split
    · exact lexNumber_whole fun c hc => nomatch hc
    · have hstop : (fraction x ++ []).dropWhile Char.isDigit = [] :=
        dropWhile_append_stop (isDigit_fraction x) fun c hc => nomatch hc
      rw [← List.append_nil (fraction x), lexNumber_point, hstop, keptFraction_nil, readAtEnd]
  rw [lex, hnumber]
  rfl

theorem lex_plain (hx : Unsigned (unpacked x))
    (hrest : ∀ c ∈ rest.head?, c.isDigit = false ∧ c ≠ '.') (hne : rest ≠ []) :
    lex (plain x ++ rest) = some (.number x, rest) := by
  have hdigits : ∀ c ∈ rest.head?, c.isDigit = false := fun c hc => (hrest c hc).1
  have hback := decimal_whole_fraction hx
  have hnumber : lexNumber (plain x ++ rest) = some (.number x, rest) := by
    rw [plain_eq hx]
    split
    · rename_i hf
      rw [hf] at hback
      rw [List.append_nil, lexNumber_whole hrest, hback]
    · rw [List.append_assoc, List.cons_append, lexNumber_point,
        takeWhile_append_stop (isDigit_fraction x) hdigits,
        dropWhile_append_stop (isDigit_fraction x) hdigits, keptFraction_of_ne_nil hne, hback]
  rw [lex, hnumber]
  rfl

end Number

theorem run_eq (cs : List Char) : run cs =
    match lex (cs.dropWhile isGap) with
    | none => ([], cs)
    | some (t, rest) => (t :: (run rest).1, (run rest).2) := by
  rw [run]
  split
  · rename_i hlex
    simp only [hlex]
  · rename_i hlex
    simp only [hlex]

theorem run_cons (h : lex cs = some (t, rest)) (hgap : ∀ c ∈ cs.head?, isGap c = false) :
    run cs = (t :: (run rest).1, (run rest).2) := by
  have hdrop : cs.dropWhile isGap = cs :=
    dropWhile_append_stop (fun c hc => nomatch (List.not_mem_nil hc)) hgap
  rw [run_eq, hdrop, h]

theorem run_eq_cons {ts : List Token} {left : List Char} (hlex : lex cs = some (t, rest))
    (hgap : cs.head?.all (fun c => !isGap c) = true) (hrest : run rest = (ts, left)) :
    run cs = (t :: ts, left) := by
  rw [run_cons hlex, hrest]
  intro c hc
  rw [Option.mem_def] at hc
  simpa [hc] using hgap

theorem run_gap {c : Char} (hc : isGap c = true) (h : (run cs).1 ≠ []) : run (c :: cs) = run cs := by
  have hdrop : (c :: cs).dropWhile isGap = cs.dropWhile isGap := by
    rw [List.dropWhile_cons, if_pos hc]
  rw [run_eq] at h
  rw [run_eq (c :: cs), run_eq cs, hdrop]
  cases hlex : lex (cs.dropWhile isGap) with
  | none =>
    rw [hlex] at h
    exact absurd rfl h
  | some p => rfl

end Univariate.Token
