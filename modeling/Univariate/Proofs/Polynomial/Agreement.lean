import Univariate.Proofs.Polynomial.Acceptance
import Univariate.Proofs.Polynomial.Derivation
import Univariate.Proofs.Polynomial.Stripping

namespace Univariate

open Decimal Text

section Lexer

open Token

variable {text cs : List Char} {ts : List Token} {t : Token} {c : Char} {ended : Prop}

theorem joinStars_of_spells (h : Spells ended ts cs) (hts : Separate ts) :
    Latex.joinStars cs = cs := by
  have hword : ∀ {w : List Char}, (∀ c ∈ w, isWordChar c = true) → '*' ∉ w := by
    intro w hw hmem
    cases hw '*' hmem
  induction h with
  | nil => rfl
  | number hw _ _ ih =>
    rw [Latex.joinStars_append_of_not_mem (hword (isWordChar_of_numeral hw)), ih hts.tail]
  | @name c w cs ts hstart hpart _ ih =>
    have hall : ∀ d ∈ c :: w, isWordChar d = true := by
      rw [List.forall_mem_cons]
      exact ⟨isWordChar_of_isNamePart (isNamePart_of_isNameStart hstart),
        fun d hd => isWordChar_of_isNamePart (hpart d hd)⟩
    rw [Latex.joinStars_append_of_not_mem (hword hall), ih hts.tail]
  | @symbol c cs t ts ht hspells ih =>
    by_cases hc : c = '*'
    · subst hc
      cases ht
      rw [Latex.joinStars.eq_2, ih hts.tail]
      rintro cs' - rfl
      obtain ⟨ts', rfl, -⟩ := hspells.symbol_inv (t := .op .mul) rfl
      have hclash : clash (.op .mul) (.op .mul) = false := hts.rel_head? rfl
      cases hclash
    · rw [Latex.joinStars_cons hc, ih hts.tail]

end Lexer

namespace Term

open Univariate.Token

variable {v : Char} {w : List Char} {ws : List (List Char)} {t : Term} {terms read : List Term}
  {x : Float} {n : Nat} {ended : Prop}

def Bracketless (w : List Char) : Prop := ∀ c ∈ w, roundBracket c = c

theorem roundBracket_of_isWordChar {c : Char} (h : isWordChar c = true) : roundBracket c = c := by
  obtain ⟨hopen, hclose⟩ := not_bracket_of_isWordChar h
  rw [roundBracket, hopen, hclose]
  rfl

theorem Numeral.bracketless (h : Numeral w x) : Bracketless w :=
  fun c hc => roundBracket_of_isWordChar (isWordChar_of_numeral h c hc)

theorem Power.bracketless (h : Power v w n) : Bracketless w := by
  have hletter : v.isAlpha = true → roundBracket v = v := by
    intro hv
    apply roundBracket_of_isWordChar
    rw [isWordChar, isNamePart, Char.isAlphanum, hv]
    rfl
  cases h with
  | bare hv => exact List.forall_mem_singleton.mpr (hletter hv)
  | raised hv hne hds =>
    unfold Bracketless
    rw [List.forall_mem_cons, List.forall_mem_cons]
    exact ⟨hletter hv, by decide, (Numeral.whole hne hds).bracketless⟩

theorem Body.bracketless (h : Body v w x n) : Bracketless w := by
  cases h with
  | number h => exact h.bracketless
  | power h => exact h.bracketless
  | product h h' => exact List.forall_mem_append.mpr ⟨h.bracketless, h'.bracketless⟩
  | starred h h' =>
    exact List.forall_mem_append.mpr
      ⟨h.bracketless, List.forall_mem_cons.mpr ⟨by decide, h'.bracketless⟩⟩

theorem Written.bracketless (h : Written v w t) : Bracketless w := by
  cases h with
  | unsigned h => exact h.bracketless
  | plus h | minus h => exact List.forall_mem_cons.mpr ⟨by decide, h.bracketless⟩

theorem bracketless_flatten (h : List.Forall₂ (Written v) ws terms) : Bracketless ws.flatten := by
  induction h with
  | nil => exact fun c hc => nomatch hc
  | cons hw _ ih => exact List.forall_mem_append.mpr ⟨hw.bracketless, ih⟩

theorem Reread.ne_nil (h : Reread ended ws terms read) (hne : terms ≠ []) : read ≠ [] := by
  cases h with
  | nil => exact absurd rfl hne
  | cons => exact List.cons_ne_nil _ _

theorem Reread.eq_of_kept (h : Reread ended ws terms read)
    (hkept : ended → ∀ before w whole fraction, ws = before ++ [w] →
      Fractional (Literal.sign w).2 whole fraction →
        Literal.decimal whole fraction = Literal.decimal whole []) : read = terms := by
  induction h with
  | nil => rfl
  | @cons w ws t y terms read hlexed _ ih =>
    have hrest : read = terms := by
      apply ih
      rintro hended before w' whole fraction rfl
      exact hkept hended (w :: before) w' whole fraction rfl
    have hy : y = t.magnitude := by
      rcases lexed_iff.mp hlexed with ⟨hy, -⟩ | ⟨hlast, -, whole, fraction, hfractional, hx, hy⟩
      · exact hy
      · rw [hx, hy, hkept hlast.1 [] w whole fraction (by rw [hlast.2]; rfl) hfractional]
    rw [hrest, hy]

theorem Reread.last {before : List (List Char)} {whole fraction : List Char}
    (h : Reread ended ws terms read) (hended : ended) (hws : ws = before ++ [w])
    (hfractional : Fractional (Literal.sign w).2 whole fraction) :
    ∃ init t, terms = init ++ [t] ∧ t.power = 0 ∧ t.magnitude = Literal.decimal whole fraction ∧
      read = init ++ [{ t with magnitude := Literal.decimal whole [] }] := by
  induction h generalizing before with
  | nil => simp at hws
  | @cons w' ws t y terms read hlexed hread ih =>
    cases before with
    | nil =>
      cases hws
      cases hread
      rcases lexed_iff.mp hlexed with ⟨-, hfull⟩ | ⟨-, hpower, ds, fs, hcut, hx, rfl⟩
      · exact absurd hfractional (hfull ⟨hended, rfl⟩ whole fraction)
      · obtain ⟨rfl, rfl⟩ := hcut.eq_of_eq hfractional
        exact ⟨[], t, rfl, hpower, hx, rfl⟩
    | cons w'' before =>
      rw [List.cons_append, List.cons.injEq] at hws
      obtain ⟨init, t', rfl, hpower, hmagnitude, rfl⟩ := ih hws.2
      rw [eq_of_lexed_inside hlexed (by simp [hws.2])]
      exact ⟨t :: init, t', rfl, hpower, hmagnitude, rfl⟩

end Term

namespace Expr

variable {v : String} {e : Expr} {init : List Term} {t : Term} {y : Float}

@[reducible] def anyFunctions : Elementary ℤ where
  pi := 0
  abs := id
  sqrt := id
  cbrt := id
  exp := id
  ln := id
  log10 := id
  sin := id
  cos := id
  tan := id
  arcsin := id
  arccos := id
  arctan := id
  angle := fun _ => id
  power := fun _ => id

open Classical in
noncomputable def scalars (y z : Float) : ℤ := if z = 1 then 1 else if z = y then 2 else 3

theorem scalars_ne {x y : Float} (h : y ≠ x) : scalars y y ≠ scalars y x := by
  unfold scalars
  by_cases hy : y = 1
  · have hx : x ≠ 1 := fun hx => h (hy.trans hx.symm)
    rw [if_pos hy, if_neg hx, if_neg h.symm]
    decide
  · rw [if_neg hy, if_pos rfl, if_neg h.symm]
    split <;> decide

theorem not_denotes_of_last (h : Denotes v e (init ++ [{ t with magnitude := y }]))
    (hpower : t.power = 0) (hy : y ≠ t.magnitude) : ¬ Denotes v e (init ++ [t]) := by
  rw [denotes_iff_sum] at h ⊢
  intro h'
  have hone : scalars y 1 = 1 := if_pos rfl
  have hsum := (@h ℤ _ _ anyFunctions (scalars y) (fun _ => 0) hone).symm.trans
    (@h' ℤ _ _ anyFunctions (scalars y) (fun _ => 0) hone)
  have hlast : Term.exact (scalars y) { t with magnitude := y } = Term.exact (scalars y) t := by
    simpa [hpower] using hsum
  apply scalars_ne hy
  unfold Term.exact at hlast
  dsimp only at hlast
  split at hlast
  · exact neg_injective hlast
  · exact hlast

end Expr

namespace Equation

open Univariate.Expr (Denotes)

variable {v : Char} {text : List Char} {cs : List Float} {e : Expr} {ts : List Token}
  {terms : List Term}

/-- The text ends in a term that is a number with digits before and after its point, no blank
follows it, and without the fraction it is another number. -/
def FractionLost (text : List Char) : Prop :=
  Token.Ended text ∧ ∃ before w whole fraction,
    signedTerms (Latex.strip text) = before ++ [w] ∧
      Token.Fractional (Literal.sign w).2 whole fraction ∧
      Literal.decimal whole fraction ≠ Literal.decimal whole []

theorem strip_of_plain (hbraces : '{' ∉ text ∧ '}' ∉ text) (hcommand : '\\' ∉ plainSymbols text) :
    Latex.strip text = Latex.joinStars (unspaced (plainSymbols text)) := by
  have hne : ∀ c ∈ plainSymbols text, c ≠ '\\' := by
    rintro c hc rfl
    exact hcommand hc
  have hopen : '{' ∉ plainSymbols text := fun h =>
    hbraces.1 (Latex.mem_of_mem_plainSymbols (by decide) (by decide) (by decide) h)
  have hclose : '}' ∉ plainSymbols text := fun h =>
    hbraces.2 (Latex.mem_of_mem_plainSymbols (by decide) (by decide) (by decide) h)
  rw [Latex.strip_eq, Latex.bare, Latex.replaceCommands_eq _ _ hne,
    Latex.replaceCommands_eq _ _ hne, unspaced]
  congr 1
  apply List.filter_congr
  intro c hc
  have hc₁ : (c == '{') = false := beq_false_of_ne fun heq => hopen (heq ▸ hc)
  have hc₂ : (c == '}') = false := beq_false_of_ne fun heq => hclose (heq ▸ hc)
  rw [Latex.isMarkup, hc₁, hc₂, Bool.or_false, Bool.or_false]

theorem unspaced_rounded (h : Term.Bracketless (unspaced (plainSymbols text))) :
    unspaced (Token.rounded text) = unspaced (plainSymbols text) := by
  have hblank : (fun c => !isBlank c) ∘ Token.roundBracket = fun c => !isBlank c := by
    funext c
    rw [Function.comp_apply, Token.isBlank_roundBracket]
  have hid : ∀ c ∈ unspaced (plainSymbols text), Token.roundBracket c = id c := h
  rw [Token.rounded, unspaced, List.filter_map, hblank]
  change (unspaced (plainSymbols text)).map _ = _
  rw [List.map_congr_left hid, List.map_id]

theorem strip_of_tokens (hbraces : '{' ∉ text ∧ '}' ∉ text) (hts : Token.ofText text = .ok ts)
    (hseparate : Token.Separate ts)
    (hterms : List.Forall₂ (Term.Written v) (signedTerms (leftSide (Latex.strip text))) terms) :
    leftSide (Latex.strip text) = Latex.strip text ∧
      Latex.strip text = unspaced (Token.rounded text) := by
  have hcommand : '\\' ∉ plainSymbols text :=
    Token.not_mem_of_ofText hts (by decide) (by decide) rfl rfl
  have hequals : '=' ∉ plainSymbols text :=
    Token.not_mem_of_ofText hts (by decide) (by decide) rfl rfl
  have hstrip := strip_of_plain hbraces hcommand
  have hleft : leftSide (Latex.strip text) = Latex.strip text := by
    apply leftSide_eq
    rintro c hc rfl
    exact hequals (Latex.eq_of_mem_strip (by decide) (by decide) hc)
  refine ⟨hleft, ?_⟩
  have hbracketless := Term.bracketless_flatten hterms
  rw [hleft, flatten_signedTerms, hstrip] at hbracketless
  have hrounded : unspaced (Token.rounded text) = unspaced (plainSymbols text) := by
    apply unspaced_rounded
    intro c hc
    by_cases hstar : c = '*'
    · rw [hstar]
      decide
    · exact hbracketless c (Latex.mem_joinStars_of_mem hstar hc)
  rw [hstrip, ← hrounded, joinStars_of_spells (Token.spells_of_ofText hts) hseparate]

theorem denotes_iff (hbraces : '{' ∉ text ∧ '}' ∉ text)
    (hterms : List.Forall₂ (Term.Written v) (signedTerms (leftSide (Latex.strip text))) terms)
    (hne : terms ≠ [])
    (he : Expr.parse (some (String.singleton v)) text = .ok e) :
    Denotes (String.singleton v) e terms ↔ ¬ FractionLost text := by
  obtain ⟨ts, hts, he⟩ := Parser.bind_eq_ok he
  have hseparate := Token.separate_of_parse he
  obtain ⟨hleft, hstrip⟩ := strip_of_tokens hbraces hts hseparate hterms
  have hspells := Token.spells_of_ofText hts
  rw [hleft] at hterms
  rw [← hstrip, ← flatten_signedTerms (Latex.strip text)] at hspells
  have htail : ∀ w ∈ (signedTerms (Latex.strip text)).tail, StartsWithSign w := by
    cases hcons : signedTerms (Latex.strip text) with
    | nil => exact fun w hw => nomatch hw
    | cons w ws => exact startsWithSign_of_signedTerms hcons
  obtain ⟨read, hsum, hread⟩ :=
    Term.tokens_of_written false hterms htail nofun hspells hseparate
  obtain ⟨e', hderives, hdenotes⟩ := hsum.derives (hread.ne_nil hne)
  rw [hsum.prepare, Parser.ofTokens_of_derives hderives] at he
  cases he
  constructor
  · rintro h ⟨hended, before, w, whole, fraction, hws, hfractional, hlost⟩
    obtain ⟨init, t, rfl, hpower, hmagnitude, rfl⟩ := hread.last hended hws hfractional
    exact Expr.not_denotes_of_last hdenotes hpower (by rw [hmagnitude]; exact hlost.symm) h
  · intro hlost
    have hkept : read = terms := by
      apply hread.eq_of_kept
      intro hended before w whole fraction hws hfractional
      by_contra hne
      exact hlost ⟨hended, before, w, whole, fraction, hws, hfractional, hne⟩
    rwa [hkept] at hdenotes

/-- If a text without braces is read as a polynomial and as an expression, the expression denotes
the polynomial in exact arithmetic, unless the fraction of a number at its very end is lost. -/
theorem denotes_polynomial_iff (hbraces : '{' ∉ text ∧ '}' ∉ text)
    (hp : polynomial? v text = some cs)
    (he : Expr.parse (some (String.singleton v)) text = .ok e) :
    ∃ terms, Term.listOfText v (leftSide (Latex.strip text)) = .ok terms ∧
      cs = Term.total terms ∧ (Denotes (String.singleton v) e terms ↔ ¬ FractionLost text) := by
  obtain ⟨-, parsed, hread, rfl⟩ := polynomial?_eq_some_iff.mp hp
  obtain ⟨terms, hterms, hne, rfl⟩ := readSum_eq_ok_iff.mp hread
  exact ⟨terms, Term.listOfText_eq_ok_iff.mpr hterms, rfl, denotes_iff hbraces hterms hne he⟩

theorem denotes_before_blank :
    ('{' ∉ ['2', 'x', '-', '1', '.', '5', ' '] ∧ '}' ∉ ['2', 'x', '-', '1', '.', '5', ' ']) ∧
    polynomial? 'x' ['2', 'x', '-', '1', '.', '5', ' '] =
      some (Term.total
        [⟨false, Literal.decimal ['2'] [], 1⟩, ⟨true, Literal.decimal ['1'] ['5'], 0⟩]) ∧
    Expr.parse (some (String.singleton 'x')) ['2', 'x', '-', '1', '.', '5', ' '] =
      .ok (.binary .sub (.binary .mul (.const (Literal.decimal ['2'] [])) (.var "x"))
        (.const (Literal.decimal ['1'] ['5']))) ∧
    ∃ terms, Term.listOfText 'x' (leftSide (Latex.strip ['2', 'x', '-', '1', '.', '5', ' '])) =
        .ok terms ∧
      Denotes "x" (.binary .sub (.binary .mul (.const (Literal.decimal ['2'] [])) (.var "x"))
        (.const (Literal.decimal ['1'] ['5']))) terms := by
  have hstrip : Latex.strip ['2', 'x', '-', '1', '.', '5', ' '] =
      ['2', 'x', '-', '1', '.', '5'] := by decide +kernel
  have hequals : ∀ c ∈ ['2', 'x', '-', '1', '.', '5'], c ≠ '=' := by
    simp
  have hp := polynomial?_of_strip (v := 'x') hstrip hequals (List.cons_ne_nil _ _) rfl
  have hend : Token.run [' '] = ([], [' ']) := by
    rw [Token.run_eq]
    rfl
  have hrounded : Token.rounded ['2', 'x', '-', '1', '.', '5', ' '] =
      ['2', 'x', '-', '1', '.', '5', ' '] := by decide +kernel
  have hrun : Token.run ['2', 'x', '-', '1', '.', '5', ' '] =
      ([.number (Literal.decimal ['2'] []), .ident "x", .op .sub,
        .number (Literal.decimal ['1'] ['5'])], [' ']) :=
    Token.run_eq_cons rfl rfl <| Token.run_eq_cons rfl rfl <| Token.run_eq_cons rfl rfl <|
      Token.run_eq_cons rfl rfl hend
  have hts := Token.ofText_of_run hrounded hrun (by decide +kernel) rfl (by decide +kernel)
  have he : Expr.parse (some (String.singleton 'x')) ['2', 'x', '-', '1', '.', '5', ' '] =
      .ok (.binary .sub (.binary .mul (.const (Literal.decimal ['2'] [])) (.var "x"))
        (.const (Literal.decimal ['1'] ['5']))) := by
    rw [Expr.parse, hts]
    rfl
  have hbraces : '{' ∉ ['2', 'x', '-', '1', '.', '5', ' '] ∧
      '}' ∉ ['2', 'x', '-', '1', '.', '5', ' '] := by decide
  obtain ⟨terms, hterms, -, hiff⟩ := denotes_polynomial_iff hbraces hp he
  refine ⟨hbraces, hp, he, terms, hterms, hiff.mpr ?_⟩
  rintro ⟨hended, -⟩
  have hblank := hended ' ' rfl
  revert hblank
  decide

/-- `x+1.5` is read as an expression that ends in one. -/
theorem not_denotes_at_end : ¬ ∀ (v : Char) (text : List Char) (cs : List Float) (e : Expr),
    v.isAlpha = true → '{' ∉ text ∧ '}' ∉ text → polynomial? v text = some cs →
    Expr.parse (some (String.singleton v)) text = .ok e →
    ∃ terms, Term.listOfText v (leftSide (Latex.strip text)) = .ok terms ∧
      cs = Term.total terms ∧ Denotes (String.singleton v) e terms := by
  intro h
  have hstrip : Latex.strip ['x', '+', '1', '.', '5'] = ['x', '+', '1', '.', '5'] := by
    decide +kernel
  have hequals : ∀ c ∈ ['x', '+', '1', '.', '5'], c ≠ '=' := by
    simp
  have hp := polynomial?_of_strip (v := 'x') hstrip hequals (List.cons_ne_nil _ _) rfl
  have hrounded : Token.rounded ['x', '+', '1', '.', '5'] = ['x', '+', '1', '.', '5'] := by
    decide +kernel
  have hrun : Token.run ['x', '+', '1', '.', '5'] =
      ([.ident "x", .op .add, .number (Literal.decimal ['1'] [])], []) :=
    Token.run_eq_cons rfl rfl <| Token.run_eq_cons rfl rfl <|
      Token.run_eq_cons rfl rfl Token.run_nil
  have hts := Token.ofText_of_run hrounded hrun (by decide +kernel) rfl rfl
  have he : Expr.parse (some (String.singleton 'x')) ['x', '+', '1', '.', '5'] =
      .ok (.binary .add (.var "x") (.const (Literal.decimal ['1'] []))) := by
    rw [Expr.parse, hts]
    rfl
  have hbraces : '{' ∉ ['x', '+', '1', '.', '5'] ∧ '}' ∉ ['x', '+', '1', '.', '5'] := by decide
  obtain ⟨terms, hterms, -, hdenotes⟩ := h 'x' _ _ _ rfl hbraces hp he
  have hne : terms ≠ [] := by
    rintro rfl
    rw [hstrip] at hterms
    cases hterms
  rw [Term.listOfText_eq_ok_iff] at hterms
  apply (denotes_iff hbraces hterms hne he).mp hdenotes
  refine ⟨?_, [['x']], ['+', '1', '.', '5'], ['1'], ['5'], ?_, ⟨rfl, ?_, ?_, ?_⟩, ?_⟩
  · intro c hc
    cases hc
    decide
  · rw [hstrip]
    rfl
  · exact List.cons_ne_nil _ _
  · exact List.forall_mem_singleton.mpr rfl
  · exact List.forall_mem_singleton.mpr rfl
  · intro heq
    have hsame : (Literal.decimal ['1'] ['5'] == Literal.decimal ['1'] []) = false := by
      decide +kernel
    rw [heq] at hsame
    revert hsame
    decide +kernel

end Equation

end Univariate
