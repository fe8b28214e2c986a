import Univariate.Expr.Eval
import Univariate.Proofs.Expr.Vocabulary

namespace Univariate.Expr

open Decimal

variable {declared : Option String} {e : Expr} {text : List Char}

def IsVariable : Option String → String → Prop
  | none, name => Token.isIdentifier name = true ∧ name ≠ "pi" ∧ name ≠ "e"
  | some v, name => name = v

structure WellFormed (declared : Option String) (e : Expr) : Prop where
  names : ∀ name, e.mentions name = true → IsVariable declared name
  constants : ∀ c ∈ e.constants, c.isNaN = false ∧ signBit c = false

theorem ne_of_namedConstant_eq_none {name : String} (h : namedConstant? name = none) :
    name ≠ "pi" ∧ name ≠ "e" := by
  constructor
  · rintro rfl
    cases h
  · rintro rfl
    cases h

theorem isVariable_of_parse (h : parse declared text = .ok e) {name : String}
    (hname : e.mentions name = true) : IsVariable declared name := by
  cases resolves_of_parse h hname with
  | free hv =>
    rw [hv]
    exact rfl
  | undeclared hnone hc =>
    subst hnone
    exact ⟨isIdentifier_of_parse h hname, ne_of_namedConstant_eq_none hc⟩

section Values

variable {K : Type} [One K] [Add K] [Sub K] [Mul K] [Div K] [Neg K] [Elementary K]

theorem eval_congr {constant : Float → K} {value value' : String → K}
    (h : ∀ name, e.mentions name = true → value name = value' name) :
    e.eval constant value = e.eval constant value' := by
  induction e with
  | var n => exact h n (beq_self_eq_true n)
  | const c => rfl
  | binary op l r ihl ihr =>
    simp only [mentions, Bool.or_eq_true] at h
    have hl := ihl fun name hname => h name (.inl hname)
    have hr := ihr fun name hname => h name (.inr hname)
    cases op with
    | add | sub | mul | div | pow => rw [eval, eval, hl, hr]
  | neg e ih => rw [eval, eval, ih h]
  | apply f e ih => rw [eval, eval, ih h]

end Values

theorem WellFormed.valueAt_eq {v : String} (h : e.WellFormed (some v)) (x : Float)
    (unknown : String → Float) :
    (e.eval id fun name => if name = v then x else unknown name) = e.valueAt v x := by
  apply eval_congr
  intro name hname
  have hv : name = v := h.names name hname
  rw [if_pos hv, if_pos hv]

/-- Every expression that is read is well formed, and its value takes no name but the declared one
into account. -/
theorem parse_wellFormed (h : parse declared text = .ok e) :
    e.WellFormed declared ∧
      ∀ v, declared = some v → ∀ (x : Float) (unknown : String → Float),
        (e.eval id fun name => if name = v then x else unknown name) = e.valueAt v x := by
  have hwell : e.WellFormed declared := by
    constructor
    · exact fun name => isVariable_of_parse h
    · intro c hc
      obtain ⟨n, k, rfl⟩ := exists_scientific_of_parse h hc
      exact ⟨isNaN_ofScientific n k, signBit_ofScientific n k⟩
  refine ⟨hwell, ?_⟩
  rintro v rfl
  exact hwell.valueAt_eq

theorem parse_wellFormed_product :
    parse (some "x") ['2', 'x', 's', 'i', 'n', '(', 'x', ')'] =
      .ok (.binary .mul (.binary .mul (.const (Literal.decimal ['2'] [])) (.var "x"))
        (.apply .sin (.var "x"))) ∧
    WellFormed (some "x")
      (.binary .mul (.binary .mul (.const (Literal.decimal ['2'] [])) (.var "x"))
        (.apply .sin (.var "x"))) := by
  have hrun : Token.run ['2', 'x', 's', 'i', 'n', '(', 'x', ')'] =
      ([.number (Literal.decimal ['2'] []), .ident "xsin", .lparen, .ident "x", .rparen], []) :=
    Token.run_eq_cons rfl rfl <| Token.run_eq_cons rfl rfl <| Token.run_eq_cons rfl rfl <|
      Token.run_eq_cons rfl rfl <| Token.run_eq_cons rfl rfl Token.run_nil
  have hrounded : Token.rounded ['2', 'x', 's', 'i', 'n', '(', 'x', ')'] =
      ['2', 'x', 's', 'i', 'n', '(', 'x', ')'] := by decide +kernel
  have hparse : parse (some "x") ['2', 'x', 's', 'i', 'n', '(', 'x', ')'] =
      .ok (.binary .mul (.binary .mul (.const (Literal.decimal ['2'] [])) (.var "x"))
        (.apply .sin (.var "x"))) := by
    rw [parse, Token.ofText_of_run hrounded hrun rfl rfl rfl]
    rfl
  exact ⟨hparse, (parse_wellFormed hparse).1⟩

end Univariate.Expr
