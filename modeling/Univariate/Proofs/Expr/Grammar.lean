import Univariate.Expr.Parser

/-!
# The grammar of token lists

`Derives declared c ts e` says that the whole of `ts` is a phrase of category `c` with the tree
`e`. Sums and products recurse on their left operand, the power on its exponent.
-/

namespace Univariate

inductive Category where
  | sum | product | signed | power | primary
  deriving DecidableEq, Repr

def Category.level : Category → Nat
  | .sum => 1
  | .product => 2
  | .signed => 3
  | .power => 4
  | .primary => 5

theorem Category.one_le_level (c : Category) : 1 ≤ c.level := by
  cases c <;> decide

def Operator.whole : Operator → Category
  | .add | .sub => .sum
  | .mul | .div => .product
  | .pow => .power

def Operator.left : Operator → Category
  | .pow => .primary
  | op => op.whole

def Operator.right : Operator → Category
  | .add | .sub => .product
  | .mul | .div | .pow => .signed

inductive Resolves (declared : Option String) (name : String) : Expr → Prop
  | free : declared = some name → Resolves declared name (.var name)
  | constant {c : Float} : declared ≠ some name → namedConstant? name = some c →
      Resolves declared name (.const c)
  | undeclared : declared = none → namedConstant? name = none →
      Resolves declared name (.var name)

inductive Derives (declared : Option String) : Category → List Token → Expr → Prop
  | number (v : Float) : Derives declared .primary [.number v] (.const v)
  | name {name : String} {e : Expr} : Resolves declared name e →
      Derives declared .primary [.ident name] e
  | call {name : String} {f : Callable} {args : List (List Token × Expr)} :
      Callable.ofName? name = some f → args.length = f.arity →
      (∀ arg ∈ args, Derives declared .sum arg.1 arg.2) →
      Derives declared .primary
        (.ident name :: .lparen :: [Token.comma].intercalate (args.map Prod.fst) ++ [.rparen])
        (f.apply (args.map Prod.snd))
  | group {ts : List Token} {e : Expr} : Derives declared .sum ts e →
      Derives declared .primary (.lparen :: ts ++ [.rparen]) e
  | binary {op : Operator} {ts us : List Token} {l r : Expr} :
      Derives declared op.left ts l → Derives declared op.right us r →
      Derives declared op.whole (ts ++ .op op :: us) (.binary op l r)
  | minus {ts : List Token} {e : Expr} : Derives declared .signed ts e →
      Derives declared .signed (.op .sub :: ts) (.neg e)
  | plus {ts : List Token} {e : Expr} : Derives declared .signed ts e →
      Derives declared .signed (.op .add :: ts) e
  | ofPrimary {ts : List Token} {e : Expr} : Derives declared .primary ts e →
      Derives declared .power ts e
  | ofPower {ts : List Token} {e : Expr} : Derives declared .power ts e →
      Derives declared .signed ts e
  | ofSigned {ts : List Token} {e : Expr} : Derives declared .signed ts e →
      Derives declared .product ts e
  | ofProduct {ts : List Token} {e : Expr} : Derives declared .product ts e →
      Derives declared .sum ts e

namespace Operator

theorem level_whole (op : Operator) : op.whole.level = op.level := by
  cases op <;> rfl

theorem level_pos (op : Operator) : 0 < op.level := by
  cases op <;> decide

theorem level_right_le (op : Operator) : op.right.level ≤ 3 := by
  cases op <;> decide

theorem level_whole_le_left (op : Operator) : op.whole.level ≤ op.left.level := by
  cases op <;> decide

theorem pull_le_left (op : Operator) : op.pull ≤ op.left.level := by
  cases op <;> decide

theorem level_lt_pull {op op' : Operator} (h : op'.right.level ≤ op.whole.level) :
    op'.level < op.pull := by
  revert h
  cases op <;> cases op' <;> decide

theorem three_lt_pull {op : Operator} (h : 3 ≤ op.whole.level) : 3 < op.pull := by
  revert h
  cases op <;> decide

theorem pull_le_right {op op' : Operator} (h : op'.pull ≤ op.whole.level) :
    op'.pull ≤ op.right.level := by
  revert h
  cases op <;> cases op' <;> decide

theorem level_right_eq (op : Operator) (h : op.level < 2) : op.right.level = 2 := by
  revert h
  cases op <;> decide

theorem eq_pow_or_pull (op : Operator) :
    op = .pow ∨ op.pull ≤ 2 ∧ op.pull = op.level ∧ op.left = op.whole := by
  cases op <;> decide

end Operator

theorem resolve_eq_ok_iff {declared : Option String} {name : String} {e : Expr} :
    Parser.resolve declared name = .ok e ↔ Resolves declared name e := by
  constructor
  · intro h
    by_cases hv : declared = some name
    · simp only [Parser.resolve, hv, if_true, Except.ok.injEq] at h
      exact h ▸ .free hv
    · simp only [Parser.resolve, hv, if_false] at h
      cases hc : namedConstant? name with
      | some c =>
        simp only [hc, Except.ok.injEq] at h
        exact h ▸ .constant hv hc
      | none =>
        cases declared with
        | some v => simp [hc] at h
        | none =>
          simp only [hc, Except.ok.injEq] at h
          exact h ▸ .undeclared rfl hc
  · intro h
    cases h with
    | free hv => simp [Parser.resolve, hv]
    | constant hv hc => simp [Parser.resolve, hv, hc]
    | undeclared hv hc => simp [Parser.resolve, hv, hc]

namespace Derives

variable {declared : Option String} {c d : Category} {ts : List Token} {e : Expr}

theorem toSigned (h : Derives declared d ts e) (hd : 3 ≤ d.level) :
    Derives declared .signed ts e := by
  cases d with
  | sum | product => simp [Category.level] at hd
  | signed => exact h
  | power => exact h.ofPower
  | primary => exact h.ofPrimary.ofPower

theorem toProduct (h : Derives declared d ts e) (hd : 2 ≤ d.level) :
    Derives declared .product ts e := by
  cases d with
  | sum => simp [Category.level] at hd
  | product => exact h
  | signed | power | primary => exact (h.toSigned (by decide)).ofSigned

theorem mono (h : Derives declared d ts e) (hd : c.level ≤ d.level) : Derives declared c ts e := by
  cases c with
  | sum =>
    cases d with
    | sum => exact h
    | product | signed | power | primary => exact (h.toProduct (by decide)).ofProduct
  | product => exact h.toProduct hd
  | signed => exact h.toSigned hd
  | power =>
    cases d with
    | sum | product | signed => simp [Category.level] at hd
    | power => exact h
    | primary => exact h.ofPrimary
  | primary =>
    cases d with
    | sum | product | signed | power => simp [Category.level] at hd
    | primary => exact h

end Derives

end Univariate
