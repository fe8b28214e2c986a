import Univariate.Proofs.Expr.Neighbours

namespace Univariate.Juxtaposition

open Token

variable {a b : Token} {ts us : List Token}

/-- The second list is the first with the sign of a product put in between some of its factors. -/
inductive Filled : List Token → List Token → Prop
  | nil : Filled [] []
  | keep {ts us : List Token} (t : Token) : Filled ts us → Filled (t :: ts) (t :: us)
  | sign {a b : Token} {ts us : List Token} : isProduct a b = true → Filled (b :: ts) us →
      Filled (a :: b :: ts) (a :: .op .mul :: us)

theorem isProduct_iff : isProduct a b = true ↔
    a.endsOperand = true ∧ b.startsOperand = true ∧
      ¬ (a.isNumber = true ∧ b.isNumber = true) ∧ opensCall a b = false := by
  cases a with
  | ident name =>
    cases b with
    | lparen => simp [isProduct, endsOperand, startsOperand, isNumber, opensCall]
    | number _ | ident _ | op _ | rparen | comma =>
      simp [isProduct, endsOperand, startsOperand, isNumber, opensCall]
  | number _ | op _ | lparen | rparen | comma =>
    cases b <;> simp [isProduct, endsOperand, startsOperand, isNumber, opensCall]

theorem isProduct_of_canFollow (h : canFollow a b = true) : isProduct a b = false := by
  rw [Bool.eq_false_iff, Ne, isProduct_iff]
  rintro ⟨hends, hstarts, -, hcall⟩
  rw [canFollow, hcall, isAdmitted, hends, hstarts] at h
  cases h

theorem filled_refl (ts : List Token) : Filled ts ts := by
  induction ts with
  | nil => exact .nil
  | cons t ts ih => exact .keep t ih

theorem filled_explicit (ts : List Token) : Filled ts (explicit ts) := by
  fun_induction explicit ts with
  | case1 a b ts hproduct ih => exact .sign hproduct ih
  | case2 a b ts hproduct ih => exact .keep a ih
  | case3 ts => exact filled_refl ts

theorem explicit_explicit (ts : List Token) : Explicit (explicit ts) := by
  fun_induction explicit ts with
  | case1 a b ts hproduct ih =>
    have hsign : Explicit (.op .mul :: explicit (b :: ts)) := ih.cons fun _ => rfl
    exact hsign.cons_cons (isProduct_op a .mul)
  | case2 a b ts hproduct ih =>
    refine List.IsChain.cons ih fun c hc => ?_
    rw [head?_explicit] at hc
    cases hc
    exact Bool.eq_false_iff.mpr hproduct
  | case3 ts hshort =>
    cases ts with
    | nil => exact .nil
    | cons a ts =>
      cases ts with
      | nil => exact .singleton a
      | cons b ts => exact (hshort a b ts rfl).elim

theorem explicit_of_ofTokens {declared : Option String} {e : Expr}
    (h : Parser.ofTokens declared ts = .ok e) : explicit ts = ts :=
  explicit_eq ((Parser.canFollow_of_run h).imp fun _ _ => isProduct_of_canFollow)

/-- Signs of products are put in between factors and nowhere else, at once wherever they are missing, and
nowhere in an expression. In the result the end of an operand is followed by the start of another one
only if both are numbers or a call is opened. -/
theorem explicit_spec (ts : List Token) :
    Filled ts (explicit ts) ∧
    explicit (explicit ts) = explicit ts ∧
    (∀ declared e, Parser.ofTokens declared ts = .ok e → explicit ts = ts) ∧
    (explicit ts).IsChain fun a b => a.endsOperand = true → b.startsOperand = true →
      (a.isNumber = true ∧ b.isNumber = true) ∨ opensCall a b = true := by
  refine ⟨filled_explicit ts, explicit_eq (explicit_explicit ts), ?_, ?_⟩
  · exact fun declared e => explicit_of_ofTokens
  · refine (explicit_explicit ts).imp fun a b hab hends hstarts => ?_
    rw [Bool.eq_false_iff, Ne, isProduct_iff] at hab
    by_contra hneither
    rw [not_or, Bool.not_eq_true] at hneither
    exact hab ⟨hends, hstarts, hneither⟩

theorem explicit_spec_sine :
    explicit [.number 2, .ident "sin", .lparen, .ident "x", .rparen] =
      [.number 2, .op .mul, .ident "sin", .lparen, .ident "x", .rparen] ∧
    Parser.ofTokens none [.number 2, .op .mul, .ident "sin", .lparen, .ident "x", .rparen] =
      .ok (.binary .mul (.const 2) (.apply .sin (.var "x"))) ∧
    explicit [.number 2, .op .mul, .ident "sin", .lparen, .ident "x", .rparen] =
      [.number 2, .op .mul, .ident "sin", .lparen, .ident "x", .rparen] :=
  ⟨rfl, rfl, (explicit_spec _).2.2.1 none _ rfl⟩

end Univariate.Juxtaposition
