import Univariate.Proofs.Expr.Grammar

namespace Univariate

namespace Frame

/-- The category of the phrase that a stack waits for. -/
def hole : List Frame → Category
  | .operand op _ :: _ => op.right
  | .negation :: _ => .signed
  | _ => .sum

theorem level_hole_le (stack : List Frame) : (hole stack).level ≤ 3 := by
  cases stack with
  | nil => decide
  | cons frame stack =>
    cases frame with
    | operand op l => exact op.level_right_le
    | negation | group | call f args => simp [hole, Category.level]

theorem complete_of_hole {op : Operator} {stack : List Frame} (e : Expr)
    (h : (hole stack).level ≤ op.whole.level) : complete op.pull stack e = (stack, e) := by
  cases stack with
  | nil => rfl
  | cons frame stack =>
    cases frame with
    | operand op' l => simp [complete, Nat.not_le.mpr (Operator.level_lt_pull h)]
    | negation => simp [complete, Nat.not_le.mpr (Operator.three_lt_pull h)]
    | group | call f args => rfl

theorem complete_pow (stack : List Frame) (e : Expr) :
    complete Operator.pow.pull stack e = (stack, e) :=
  complete_of_hole e (Nat.le_trans (level_hole_le stack) (by decide))

theorem complete_operand {op : Operator} {level : Nat} (l : Expr) (stack : List Frame) (e : Expr)
    (h : level ≤ op.level) :
    complete level (.operand op l :: stack) e = complete level stack (.binary op l e) := by
  simp [complete, h]

theorem complete_negation {level : Nat} (stack : List Frame) (e : Expr) (h : level ≤ 3) :
    complete level (.negation :: stack) e = complete level stack (.neg e) := by
  simp [complete, h]

end Frame

def Category.Ends (c : Category) : List Token → Prop
  | [] | .rparen :: _ | .comma :: _ => True
  | .op op :: _ => op.pull ≤ c.level
  | _ => False

theorem Category.Ends.of_pull {c d : Category} {rest : List Token} (h : c.Ends rest)
    (hd : ∀ op : Operator, op.pull ≤ c.level → op.pull ≤ d.level) : d.Ends rest := by
  match rest with
  | [] | .rparen :: _ | .comma :: _ => trivial
  | .op op :: _ => exact hd op h
  | .number _ :: _ | .ident _ :: _ | .lparen :: _ => exact h.elim

theorem Category.Ends.mono {c d : Category} {rest : List Token} (h : c.Ends rest)
    (hd : c.level ≤ d.level) : d.Ends rest :=
  h.of_pull fun _ hop => Nat.le_trans hop hd

theorem Operator.ends_right {op : Operator} {rest : List Token} (h : op.whole.Ends rest) :
    op.right.Ends rest :=
  h.of_pull fun _ hop => pull_le_right hop

namespace Parser

variable {declared : Option String}

theorem run_name {name : String} {e : Expr} (stack : List Frame) {rest : List Token}
    (h : Resolves declared name e) (hrest : Category.primary.Ends rest) :
    run declared stack none (.ident name :: rest) = run declared stack (some e) rest := by
  have hr := resolve_eq_ok_iff.mpr h
  match rest with
  | [] | .rparen :: _ | .comma :: _ | .op op :: _ =>
    rw [run.eq_def]
    simp [hr, bind, Except.bind]
  | .number _ :: _ | .ident _ :: _ | .lparen :: _ => exact hrest.elim

theorem run_op {op : Operator} {stack : List Frame} (e : Expr) (rest : List Token)
    (h : (Frame.hole stack).level ≤ op.whole.level) :
    run declared stack (some e) (.op op :: rest) =
      run declared (.operand op e :: stack) none rest := by
  simp only [run, Frame.complete_of_hole e h]

theorem run_congr {stack stack' : List Frame} {e e' : Expr} {c : Category} {rest : List Token}
    (hrest : c.Ends rest)
    (h : ∀ level ≤ c.level, Frame.complete level stack e = Frame.complete level stack' e') :
    run declared stack (some e) rest = run declared stack' (some e') rest := by
  match rest with
  | [] => simp only [run, h Frame.outermost (Nat.zero_le _)]
  | .rparen :: _ | .comma :: _ => simp only [run, h Frame.outermost (Nat.zero_le _)]
  | .op op :: _ => simp only [run, h op.pull hrest]
  | .number _ :: _ | .ident _ :: _ | .lparen :: _ => exact hrest.elim

theorem run_operand {op : Operator} {l r : Expr} (stack : List Frame) {rest : List Token}
    (hrest : op.whole.Ends rest) :
    run declared (.operand op l :: stack) (some r) rest =
      run declared stack (some (.binary op l r)) rest :=
  run_congr hrest fun _ h => Frame.complete_operand l stack r (op.level_whole ▸ h)

theorem run_negation {e : Expr} (stack : List Frame) {rest : List Token}
    (hrest : Category.signed.Ends rest) :
    run declared (.negation :: stack) (some e) rest =
      run declared stack (some (.neg e)) rest :=
  run_congr hrest fun _ h => Frame.complete_negation stack e h

theorem run_rparen_call {f : Callable} {args : List Expr} {e : Expr} (stack : List Frame)
    (rest : List Token) (h : (e :: args).length = f.arity) :
    run declared (.call f args :: stack) (some e) (.rparen :: rest) =
      run declared stack (some (f.applyReversed (e :: args))) rest := by
  simp only [run, Frame.complete, finish, h, if_true, bind, Except.bind]

/-- The phrase is read as the operand of any stack that waits for its category or a looser one,
whatever follows it. -/
def Runs (declared : Option String) (c : Category) (ts : List Token) (e : Expr) : Prop :=
  ∀ (stack : List Frame) (rest : List Token), (Frame.hole stack).level ≤ c.level → c.Ends rest →
    run declared stack none (ts ++ rest) = run declared stack (some e) rest

theorem run_arguments {f : Callable} (stack : List Frame) (rest : List Token)
    {args : List (List Token × Expr)} (hargs : ∀ arg ∈ args, Runs declared .sum arg.1 arg.2)
    (done : List Expr) (hne : args ≠ []) (harity : args.length + done.length = f.arity) :
    run declared (.call f done :: stack) none
        ([Token.comma].intercalate (args.map Prod.fst) ++ .rparen :: rest) =
      run declared stack (some (f.applyReversed ((args.map Prod.snd).reverse ++ done))) rest := by
  induction args generalizing done with
  | nil => exact absurd rfl hne
  | cons arg args ih =>
    have harg := hargs arg (List.mem_cons_self ..) (.call f done :: stack)
    cases args with
    | nil =>
      have h := harg (.rparen :: rest) (Nat.le_refl _) trivial
      have hlen : (arg.2 :: done).length = f.arity := by
        simp only [List.length_cons, List.length_nil] at harity ⊢
        omega
      simpa [List.intercalate] using h.trans (run_rparen_call stack rest hlen)
    | cons arg' args =>
      have hlen : (arg' :: args).length + (arg.2 :: done).length = f.arity := by
        simp only [List.length_cons] at harity ⊢
        omega
      have h := ih (fun a ha => hargs a (List.mem_cons_of_mem _ ha)) (arg.2 :: done) (by simp) hlen
      rw [← run_comma] at h
      have := (harg (.comma :: _) (Nat.le_refl _) trivial).trans h
      simpa [List.intercalate] using this

theorem runs_of_derives {c : Category} {ts : List Token} {e : Expr}
    (h : Derives declared c ts e) : Runs declared c ts e := by
  induction h with
  | number v =>
    intro stack rest _ _
    simp [run]
  | name h =>
    intro stack rest _ hrest
    exact run_name stack h hrest
  | @call name f args hf harity _ ih =>
    intro stack rest _ _
    have hne : args ≠ [] := by
      rintro rfl
      cases f <;> simp [Callable.arity] at harity
    have := run_arguments stack rest ih [] hne (by simpa using harity)
    simpa [run, hf, Callable.apply] using this
  | @group ts e _ ih =>
    intro stack rest _ _
    have := ih (.group :: stack) (.rparen :: rest) (Nat.le_refl _) trivial
    simpa [run] using this.trans (run_rparen_group stack e rest)
  | @binary op ts us l r _ _ ihl ihr =>
    intro stack rest hhole hrest
    have hl := ihl stack (.op op :: (us ++ rest))
      (Nat.le_trans hhole op.level_whole_le_left) op.pull_le_left
    have hr := ihr (.operand op l :: stack) rest (Nat.le_refl _) (Operator.ends_right hrest)
    calc run declared stack none (ts ++ .op op :: us ++ rest)
        = run declared stack (some l) (.op op :: (us ++ rest)) := by simpa using hl
      _ = run declared (.operand op l :: stack) none (us ++ rest) := run_op l (us ++ rest) hhole
      _ = run declared (.operand op l :: stack) (some r) rest := hr
      _ = run declared stack (some (.binary op l r)) rest := run_operand stack hrest
  | minus _ ih =>
    intro stack rest _ hrest
    have := ih (.negation :: stack) rest (Nat.le_refl _) hrest
    simpa [run] using this.trans (run_negation stack hrest)
  | plus _ ih =>
    intro stack rest hhole hrest
    simpa [run] using ih stack rest hhole hrest
  | ofPrimary _ ih | ofPower _ ih | ofSigned _ ih | ofProduct _ ih =>
    intro stack rest hhole hrest
    exact ih stack rest (Nat.le_trans hhole (by decide)) (hrest.mono (by decide))

theorem ofTokens_of_derives {ts : List Token} {e : Expr} (h : Derives declared .sum ts e) :
    ofTokens declared ts = .ok e := by
  have := runs_of_derives h [] [] (Nat.le_refl _) trivial
  simpa [ofTokens, run, Frame.complete] using this

end Parser

end Univariate
