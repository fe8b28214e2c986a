import Univariate.Proofs.Expr.RoundTrip
import Univariate.Proofs.Expr.Soundness

namespace Univariate

variable {declared : Option String} {stack : List Frame} {done : Option Expr} {a b : Token}
  {ts : List Token} {e : Expr} {v : String}

namespace Token

def isNumber : Token → Bool
  | .number _ => true
  | _ => false

def isSignOp : Token → Bool
  | .op .add | .op .sub => true
  | _ => false

def startsOperand : Token → Bool
  | .number _ | .ident _ | .lparen => true
  | _ => false

def endsOperand : Token → Bool
  | .number _ | .ident _ | .rparen => true
  | _ => false

def opensCall : Token → Token → Bool
  | .ident name, .lparen => (Callable.ofName? name).isSome
  | _, _ => false

def isAdmitted (finished : Bool) (t : Token) : Bool :=
  if finished then !t.startsOperand else t.startsOperand || t.isSignOp

def canFollow (a b : Token) : Bool := opensCall a b || isAdmitted a.endsOperand b

def clash : Token → Token → Bool
  | .number _, .number _ | .op .mul, .op .mul => true
  | _, _ => false

def Separate (ts : List Token) : Prop := ts.IsChain fun a b => clash a b = false

theorem clash_ident (name : String) (b : Token) : clash (.ident name) b = false := by
  cases b <;> rfl

theorem clash_ident_right (a : Token) (name : String) : clash a (.ident name) = false := by
  cases a with
  | op o => cases o <;> rfl
  | number _ | ident _ | lparen | rparen | comma => rfl

theorem clash_of_isProduct (h : Juxtaposition.isProduct a b = true) : clash a b = false := by
  cases a with
  | number x =>
    cases b with
    | number y => cases h
    | ident _ | op _ | lparen | rparen | comma => rfl
  | op o => cases h
  | ident _ | lparen | rparen | comma => rfl

theorem clash_of_canFollow (h : canFollow a b = true) : clash a b = false := by
  unfold clash
  split
  · cases h
  · cases h
  · rfl

theorem canFollow_of_isAdmitted (h : isAdmitted a.endsOperand b = true) :
    canFollow a b = true := by
  rw [canFollow, h, Bool.or_true]

end Token

namespace Parser

open Token

theorem isAdmitted_of_run (h : run declared stack done ts = .ok e) :
    ∀ t ∈ ts.head?, isAdmitted done.isSome t = true := by
  intro t ht
  cases ts with
  | nil => cases ht
  | cons t' ts =>
    cases ht
    rw [run.eq_def] at h
    cases done with
    | none =>
      cases t with
      | op o => cases o <;> first | rfl | cases h
      | number _ | ident _ | lparen => rfl
      | rparen | comma => cases h
    | some e' =>
      cases t with
      | number _ | ident _ | lparen => cases h
      | op _ | rparen | comma => rfl

theorem canFollow_of_run (h : run declared stack done ts = .ok e) :
    ts.IsChain fun a b => canFollow a b = true := by
  -- Whether an operand is finished after a token is what the token says itself.
  have hcons : ∀ {stack done a} {ts : List Token}, run declared stack done ts = .ok e →
      a.endsOperand = done.isSome → (ts.IsChain fun a b => canFollow a b = true) →
      (a :: ts).IsChain fun a b => canFollow a b = true := by
    intro stack done a ts h ha hts
    refine hts.cons fun b hb => canFollow_of_isAdmitted ?_
    rw [ha]
    exact isAdmitted_of_run h b hb
  fun_induction run declared stack done ts with
  | case1 => cases h
  | case9 => exact .nil
  | case8 | case10 | case14 | case16 | case17 => cases h
  | case2 stack x ts ih | case5 stack ts ih | case6 stack ts ih | case7 stack ts ih
  | case11 stack e' op ts stack' e'' hc ih | case12 stack e' ts stack' e'' hc ih
  | case15 stack e' ts f done stack' e'' hc ih => exact hcons h rfl (ih h)
  | case3 stack name ts f hf ih =>
    have hopens : opensCall (.ident name) .lparen = true := by rw [opensCall, hf]; rfl
    refine (hcons h rfl (ih h)).cons_cons ?_
    rw [canFollow, hopens, Bool.true_or]
  | case4 stack name ts hcall ih =>
    obtain ⟨e', -, h⟩ := bind_eq_ok h
    exact hcons h rfl (ih e' h)
  | case13 stack e' ts f done stack' e'' hc ih =>
    obtain ⟨e₁, -, h⟩ := bind_eq_ok h
    exact hcons h rfl (ih e₁ h)

theorem separate_of_run (h : run declared stack done ts = .ok e) : Separate ts :=
  (canFollow_of_run h).imp fun _ _ => clash_of_canFollow

end Parser

namespace Token

theorem separate_of_explicit (h : Separate (Juxtaposition.explicit ts)) : Separate ts := by
  fun_induction Juxtaposition.explicit ts with
  | case1 a b ts hproduct ih => exact (ih h.tail.tail).cons_cons (clash_of_isProduct hproduct)
  | case2 a b ts hproduct ih =>
    refine (ih h.tail).cons_cons (h.rel_head? ?_)
    rw [Juxtaposition.head?_explicit]
    rfl
  | case3 ts => exact h

theorem splitAll_cons (ha : ∀ name, a ≠ .ident name) :
    FusedName.splitAll v (a :: ts) = a :: FusedName.splitAll v ts := by
  unfold FusedName.splitAll
  rw [List.flatMap_cons]
  cases a with
  | ident name => exact absurd rfl (ha name)
  | number _ | op _ | lparen | rparen | comma => rfl

theorem separate_of_splitAll (h : Separate (FusedName.splitAll v ts)) : Separate ts := by
  induction ts with
  | nil => exact .nil
  | cons a ts ih =>
    have hrest : Separate ts := by
      unfold FusedName.splitAll at h ih
      rw [List.flatMap_cons] at h
      exact ih h.right_of_append
    refine hrest.cons ?_
    intro b hb
    -- A name is no part of a clash, and every other token is kept by the splitting.
    by_cases ha : ∃ name, a = .ident name
    · obtain ⟨name, rfl⟩ := ha
      exact clash_ident name b
    · by_cases hb' : ∃ name, b = .ident name
      · obtain ⟨name, rfl⟩ := hb'
        exact clash_ident_right a name
      · cases ts with
        | nil => cases hb
        | cons t ts =>
          cases hb
          rw [splitAll_cons (not_exists.mp ha), splitAll_cons (not_exists.mp hb')] at h
          exact h.rel_head? rfl

theorem separate_of_parse (h : Parser.ofTokens declared (prepare declared ts) = .ok e) :
    Separate ts := by
  have hexplicit := separate_of_explicit (Parser.separate_of_run h)
  cases declared with
  | none => exact hexplicit
  | some v => exact separate_of_splitAll hexplicit

end Token

end Univariate
