import Univariate.Proofs.Expr.Completeness

namespace Univariate

/-- The tokens `ts` that were read before a stack came about, and the category of the phrase that
is due after them. A plus sign leaves no frame. -/
inductive Reads (declared : Option String) : Category → List Frame → List Token → Prop
  | start : Reads declared .sum [] []
  | group {c : Category} {stack : List Frame} {ts : List Token} : Reads declared c stack ts →
      Reads declared .sum (.group :: stack) (ts ++ [.lparen])
  | call {c : Category} {stack : List Frame} {ts : List Token} {name : String} {f : Callable}
      {args : List (List Token × Expr)} : Reads declared c stack ts →
      Callable.ofName? name = some f → (∀ arg ∈ args, Derives declared .sum arg.1 arg.2) →
      Reads declared .sum (.call f (args.map Prod.snd).reverse :: stack)
        (ts ++ .ident name :: .lparen :: args.flatMap fun arg => arg.1 ++ [.comma])
  | operand {c : Category} {stack : List Frame} {ts us : List Token} {op : Operator} {l : Expr} :
      Reads declared c stack ts → c.level ≤ op.whole.level → Derives declared op.left us l →
      Reads declared op.right (.operand op l :: stack) (ts ++ us ++ [.op op])
  | minus {c : Category} {stack : List Frame} {ts : List Token} : Reads declared c stack ts →
      Reads declared .signed (.negation :: stack) (ts ++ [.op .sub])
  | plus {c : Category} {stack : List Frame} {ts : List Token} : Reads declared c stack ts →
      Reads declared .signed stack (ts ++ [.op .add])

def Settled (declared : Option String) (level : Nat) (stack : List Frame) (e : Expr)
    (read : List Token) : Prop :=
  ∃ (c d : Category) (ts us : List Token), Reads declared c stack ts ∧ Derives declared d us e ∧
    ts ++ us = read ∧ c.level ≤ max 1 level ∧ level ≤ d.level

namespace Reads

variable {declared : Option String} {c d : Category} {stack : List Frame} {ts us : List Token}
  {e : Expr}

theorem level_le (h : Reads declared c stack ts) : c.level ≤ 3 := by
  cases h with
  | start | group | call | minus | plus => decide
  | operand => exact Operator.level_right_le _

theorem complete {level : Nat} (h : Reads declared c stack ts) (he : Derives declared d us e)
    (hc : c.level ≤ d.level) (hd : level ≤ d.level) (hlevel : level ≤ 2) :
    Settled declared level (Frame.complete level stack e).1 (Frame.complete level stack e).2
      (ts ++ us) := by
  induction h generalizing d us e with
  | start => exact ⟨.sum, d, _, us, .start, he, rfl, Nat.le_max_left 1 level, hd⟩
  | group h => exact ⟨.sum, d, _, us, .group h, he, rfl, Nat.le_max_left 1 level, hd⟩
  | call h hf hargs =>
    exact ⟨.sum, d, _, us, .call h hf hargs, he, rfl, Nat.le_max_left 1 level, hd⟩
  | @operand c stack ts ls op l h hop hl ih =>
    by_cases hpop : level ≤ op.level
    · have hwhole := hl.binary (he.mono hc)
      rw [Frame.complete_operand l stack e hpop]
      simpa using ih hwhole hop (op.level_whole ▸ hpop)
    · have hstay : op.right.level ≤ max 1 level := by
        have := op.level_right_eq (by omega)
        have := op.level_pos
        omega
      simp only [Frame.complete, hpop, if_false]
      exact ⟨op.right, d, _, us, .operand h hop hl, he, rfl, hstay, hd⟩
  | minus h ih =>
    rw [Frame.complete_negation _ e (Nat.le_trans hlevel (by decide))]
    simpa using ih (he.toSigned hc).minus h.level_le (Nat.le_trans hlevel (by decide))
  | plus h ih =>
    simpa using ih (he.toSigned hc).plus h.level_le (Nat.le_trans hlevel (by decide))

theorem settle (level : Nat) (h : Reads declared c stack ts)
    (hu : Derives declared .primary us e) (hlevel : level ≤ 2) :
    Settled declared level (Frame.complete level stack e).1 (Frame.complete level stack e).2
      (ts ++ us) :=
  h.complete hu (Nat.le_trans h.level_le (by decide)) (Nat.le_trans hlevel (by decide)) hlevel

end Reads

namespace Settled

variable {declared : Option String} {stack : List Frame} {e : Expr} {read : List Token}

theorem sum_of_nil (h : Settled declared 0 [] e read) : Derives declared .sum read e := by
  obtain ⟨c, d, ts, us, hr, hd, rfl, hc, -⟩ := h
  cases hr with
  | start => exact hd.mono (Category.one_le_level d)
  | plus => simp [Category.level] at hc

theorem of_group (h : Settled declared 0 (.group :: stack) e read) :
    ∃ c ts us, Reads declared c stack ts ∧ Derives declared .primary us e ∧
      ts ++ us = read ++ [.rparen] := by
  obtain ⟨c, d, ts, us, hr, hd, rfl, hc, -⟩ := h
  cases hr with
  | group hr =>
    exact ⟨_, _, _, hr, (hd.mono (c := .sum) (Category.one_le_level d)).group, by simp⟩
  | plus => simp [Category.level] at hc

theorem of_call {f : Callable} {done : List Expr}
    (h : Settled declared 0 (.call f done :: stack) e read) :
    ∃ c ts name, ∃ args : List (List Token × Expr), ∃ us, Reads declared c stack ts ∧
      Callable.ofName? name = some f ∧
      (∀ arg ∈ args ++ [(us, e)], Derives declared .sum arg.1 arg.2) ∧
      done = (args.map Prod.snd).reverse ∧
      read = ts ++ .ident name :: .lparen :: (args.flatMap fun arg => arg.1 ++ [.comma]) ++ us := by
  obtain ⟨c, d, ts, us, hr, hd, rfl, hc, -⟩ := h
  cases hr with
  | @call c _ ts name _ args hr hf hargs =>
    refine ⟨c, ts, name, args, us, hr, hf, ?_, rfl, by simp⟩
    intro arg harg
    rcases List.mem_append.mp harg with harg | harg
    · exact hargs arg harg
    · obtain rfl := List.mem_singleton.mp harg
      exact hd.mono (Category.one_le_level d)
  | plus => simp [Category.level] at hc

theorem operand {op : Operator} (h : Settled declared op.pull stack e read)
    (hop : op.pull ≤ 2 ∧ op.pull = op.level ∧ op.left = op.whole) :
    Reads declared op.right (.operand op e :: stack) (read ++ [.op op]) := by
  obtain ⟨c, d, ts, us, hr, hd, rfl, hc, hle⟩ := h
  obtain ⟨-, hpull, hleft⟩ := hop
  have hpos := op.level_pos
  have hlevel := op.level_whole
  refine hr.operand (by omega) (hd.mono ?_)
  rw [hleft]
  omega

end Settled

namespace Parser

variable {declared : Option String}

def Operand (declared : Option String) : Option Expr → List Token → Prop
  | none, us => us = []
  | some e, us => Derives declared .primary us e

theorem finish_eq_ok_iff {f : Callable} {args : List Expr} {e : Expr} :
    finish f args = .ok e ↔ args.length = f.arity ∧ f.applyReversed args = e := by
  by_cases h : args.length = f.arity <;> simp [finish, h]

theorem intercalate_arguments (args : List (List Token × Expr)) (last : List Token × Expr) :
    [Token.comma].intercalate ((args ++ [last]).map Prod.fst) =
      (args.flatMap fun arg => arg.1 ++ [.comma]) ++ last.1 := by
  induction args with
  | nil => simp [List.intercalate]
  | cons arg args ih =>
    cases args with
    | nil => simp [List.intercalate]
    | cons arg' args => simpa [List.intercalate] using ih

theorem bind_eq_ok {ε α β : Type} {x : Except ε α} {f : α → Except ε β} {b : β}
    (h : (x >>= f) = .ok b) : ∃ a, x = .ok a ∧ f a = .ok b := by
  cases x with
  | error err => simp [bind, Except.bind] at h
  | ok a => exact ⟨a, rfl, h⟩

theorem derives_of_run {stack : List Frame} {done : Option Expr} {rest : List Token} {e : Expr}
    (h : run declared stack done rest = .ok e) {c : Category} {ts us : List Token}
    (hr : Reads declared c stack ts) (hu : Operand declared done us) :
    Derives declared .sum (ts ++ us ++ rest) e := by
  fun_induction run declared stack done rest generalizing c ts us with
  | case1 => simp at h
  | case2 stack v ts' ih =>
    subst hu
    simpa using ih h hr (.number v)
  | case3 stack name ts' f hf ih =>
    subst hu
    have hnone : ∀ arg ∈ ([] : List (List Token × Expr)), Derives declared .sum arg.1 arg.2 :=
      List.forall_mem_nil _
    simpa using ih h (hr.call hf hnone) rfl
  | case4 stack name ts' hcall ih =>
    subst hu
    obtain ⟨e', he, h⟩ := bind_eq_ok h
    simpa using ih e' h hr (.name (resolve_eq_ok_iff.mp he))
  | case5 stack ts' ih =>
    subst hu
    simpa using ih h hr.group rfl
  | case6 stack ts' ih =>
    subst hu
    simpa using ih h hr.minus rfl
  | case7 stack ts' ih =>
    subst hu
    simpa using ih h hr.plus rfl
  | case8 => simp at h
  | case9 stack e' e'' hc =>
    have hs := hr.settle Frame.outermost hu (by decide)
    rw [hc] at hs
    cases h
    simpa using hs.sum_of_nil
  | case10 => simp at h
  | case11 stack e' op ts' stack' e'' hc ih =>
    rcases op.eq_pow_or_pull with rfl | hop
    · rw [Frame.complete_pow] at hc
      cases hc
      simpa using ih h (hr.operand (Nat.le_trans hr.level_le (by decide)) hu) rfl
    · have hs := hr.settle op.pull hu hop.1
      rw [hc] at hs
      simpa using ih h (hs.operand hop) rfl
  | case12 stack e' ts' stack' e'' hc ih =>
    have hs := hr.settle Frame.outermost hu (by decide)
    rw [hc] at hs
    obtain ⟨c', ts'', us', hr', hu', heq⟩ := hs.of_group
    have := ih h hr' hu'
    rw [heq] at this
    simpa using this
  | case13 stack e' ts' f done stack' e'' hc ih =>
    have hs := hr.settle Frame.outermost hu (by decide)
    rw [hc] at hs
    obtain ⟨c', ts'', name, args, us', hr', hf, hargs, rfl, heq⟩ := hs.of_call
    obtain ⟨e₁, he₁, h⟩ := bind_eq_ok h
    obtain ⟨hlen, rfl⟩ := finish_eq_ok_iff.mp he₁
    have hcall := Derives.call hf (by simpa using hlen) hargs
    rw [intercalate_arguments] at hcall
    have := ih _ h hr' (by simpa [Callable.apply, Operand] using hcall)
    simpa [heq] using this
  | case14 => simp at h
  | case15 stack e' ts' f done stack' e'' hc ih =>
    have hs := hr.settle Frame.outermost hu (by decide)
    rw [hc] at hs
    obtain ⟨c', ts'', name, args, us', hr', hf, hargs, rfl, heq⟩ := hs.of_call
    have := ih h (by simpa using hr'.call hf hargs) rfl
    simpa [heq] using this
  | case16 => simp at h
  | case17 => simp at h

theorem ofTokens_eq_ok_iff {ts : List Token} {e : Expr} :
    ofTokens declared ts = .ok e ↔ Derives declared .sum ts e :=
  ⟨fun h => derives_of_run h .start rfl, ofTokens_of_derives⟩

/-- The parser accepts the phrases of the grammar and builds their trees, of which every phrase
has one. -/
theorem recognizes_grammar (declared : Option String) (ts : List Token) :
    (∀ e, ofTokens declared ts = .ok e ↔ Derives declared .sum ts e) ∧
      ∀ e e', Derives declared .sum ts e → Derives declared .sum ts e' → e = e' := by
  refine ⟨fun e => ofTokens_eq_ok_iff, fun e e' h h' => ?_⟩
  have heq := (ofTokens_of_derives h).symm.trans (ofTokens_of_derives h')
  exact Except.ok.inj heq

theorem recognizes_signed_exponent :
    Derives none .sum
      [.ident "a", .op .pow, .op .sub, .ident "b", .op .pow, .ident "c", .op .mul, .ident "d"]
      (.binary .mul
        (.binary .pow (.var "a") (.neg (.binary .pow (.var "b") (.var "c")))) (.var "d")) :=
  ((recognizes_grammar none _).1 _).mp rfl

end Parser

end Univariate
