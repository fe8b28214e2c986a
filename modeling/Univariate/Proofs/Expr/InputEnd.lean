import Mathlib.Logic.Relation
import Univariate.Proofs.Expr.Nesting

namespace Univariate

variable {declared : Option String} {stack : List Frame} {done : Option Expr} {e : Expr}
  {ts us : List Token} {t : Token} {v name : String} {text : List Char}

namespace Frame

def depth : List Frame → Nat
  | [] => 0
  | .group :: stack | .call _ _ :: stack => depth stack + 1
  | .operand _ _ :: stack | .negation :: stack => depth stack

theorem depth_complete (level : Nat) (stack : List Frame) (e : Expr) :
    depth (complete level stack e).1 = depth stack := by
  fun_induction complete level stack e with
  | case1 op lhs stack e hle ih => exact ih
  | case3 stack e hle ih => exact ih
  | case2 | case4 | case5 => rfl

theorem depth_of_complete {level : Nat} {stack stack' : List Frame} {e e' : Expr}
    (h : complete level stack e = (stack', e')) : depth stack = depth stack' := by
  rw [← depth_complete level stack e, h]

theorem complete_outermost_of_depth (h : depth stack = 0) (e : Expr) :
    (complete outermost stack e).1 = [] := by
  induction stack generalizing e with
  | nil => rfl
  | cons frame stack ih =>
    cases frame with
    | operand op lhs =>
      have hle : outermost ≤ op.level := Nat.zero_le _
      rw [complete_operand lhs stack e hle]
      exact ih h _
    | negation =>
      have hle : outermost ≤ 3 := Nat.zero_le _
      rw [complete_negation stack e hle]
      exact ih h _
    | group | call f args => cases h

end Frame

namespace Parser

structure State where
  stack : List Frame
  done : Option Expr
  rest : List Token

def State.start (ts : List Token) : State := ⟨[], none, ts⟩

inductive Step (declared : Option String) : State → State → Prop
  | number {stack : List Frame} {x : Float} {ts : List Token} :
      Step declared ⟨stack, none, .number x :: ts⟩ ⟨stack, some (.const x), ts⟩
  | call {stack : List Frame} {name : String} {f : Callable} {ts : List Token} :
      Callable.ofName? name = some f →
      Step declared ⟨stack, none, .ident name :: .lparen :: ts⟩ ⟨.call f [] :: stack, none, ts⟩
  | name {stack : List Frame} {name : String} {e : Expr} {ts : List Token} :
      (∀ us f, ts = .lparen :: us → Callable.ofName? name ≠ some f) →
      resolve declared name = .ok e →
      Step declared ⟨stack, none, .ident name :: ts⟩ ⟨stack, some e, ts⟩
  | group {stack : List Frame} {ts : List Token} :
      Step declared ⟨stack, none, .lparen :: ts⟩ ⟨.group :: stack, none, ts⟩
  | minus {stack : List Frame} {ts : List Token} :
      Step declared ⟨stack, none, .op .sub :: ts⟩ ⟨.negation :: stack, none, ts⟩
  | plus {stack : List Frame} {ts : List Token} :
      Step declared ⟨stack, none, .op .add :: ts⟩ ⟨stack, none, ts⟩
  | operator {stack stack' : List Frame} {e e' : Expr} {op : Operator} {ts : List Token} :
      Frame.complete op.pull stack e = (stack', e') →
      Step declared ⟨stack, some e, .op op :: ts⟩ ⟨.operand op e' :: stack', none, ts⟩
  | closeGroup {stack stack' : List Frame} {e e' : Expr} {ts : List Token} :
      Frame.complete Frame.outermost stack e = (.group :: stack', e') →
      Step declared ⟨stack, some e, .rparen :: ts⟩ ⟨stack', some e', ts⟩
  | closeCall {stack stack' : List Frame} {f : Callable} {args : List Expr} {e e' call : Expr}
      {ts : List Token} :
      Frame.complete Frame.outermost stack e = (.call f args :: stack', e') →
      finish f (e' :: args) = .ok call →
      Step declared ⟨stack, some e, .rparen :: ts⟩ ⟨stack', some call, ts⟩
  | comma {stack stack' : List Frame} {f : Callable} {args : List Expr} {e e' : Expr}
      {ts : List Token} :
      Frame.complete Frame.outermost stack e = (.call f args :: stack', e') →
      Step declared ⟨stack, some e, .comma :: ts⟩ ⟨.call f (e' :: args) :: stack', none, ts⟩

def Reaches (declared : Option String) : State → State → Prop :=
  Relation.ReflTransGen (Step declared)

namespace State

variable {s s' : State}

def run (declared : Option String) (s : State) : Except ParseError Expr :=
  Parser.run declared s.stack s.done s.rest

def Due (s : State) : Prop := s.rest = [] ∧ s.done = none

def Unclosed (s : State) : Prop :=
  s.rest = [] ∧ ∃ e, s.done = some e ∧ (Frame.complete Frame.outermost s.stack e).1 ≠ []

end State

variable {s s' : State}

theorem Step.run_eq (h : Step declared s s') : s.run declared = s'.run declared := by
  cases h with
  | number | group | minus | plus => rfl
  | call hf =>
    rw [State.run, Parser.run.eq_def]
    simp only [hf]
    rfl
  | name hcall he =>
    rw [State.run, Parser.run.eq_def]
    dsimp only
    split
    · rename_i us f hf
      exact (hcall us f rfl hf).elim
    · rw [he]
      rfl
  | operator hc | closeGroup hc | comma hc => simp only [State.run, Parser.run, hc]
  | closeCall hc he => simp only [State.run, Parser.run, hc, he, bind, Except.bind]

theorem Reaches.run_eq (h : Reaches declared s s') : s.run declared = s'.run declared := by
  induction h with
  | refl => rfl
  | tail _ hstep ih => exact ih.trans hstep.run_eq

theorem bind_eq_error {ε α β : Type} {x : Except ε α} {f : α → Except ε β} {err : ε}
    (h : (x >>= f) = .error err) : x = .error err ∨ ∃ a, x = .ok a ∧ f a = .error err := by
  cases x with
  | error err' =>
    cases h
    exact .inl rfl
  | ok a => exact .inr ⟨a, rfl, h⟩

theorem resolve_ne_unexpectedEnd : resolve declared name ≠ .error .unexpectedEnd := by
  unfold resolve
  split
  · simp
  · split <;> simp

theorem finish_ne_unexpectedEnd (f : Callable) (args : List Expr) :
    finish f args ≠ .error .unexpectedEnd := by
  unfold finish
  split <;> simp

theorem reaches_end_of_run (h : Parser.run declared stack done ts = .error .unexpectedEnd) :
    ∃ s, Reaches declared ⟨stack, done, ts⟩ s ∧ (s.Due ∨ s.Unclosed) := by
  have hstep : ∀ {s s'}, Step declared s s' →
      (∃ s'', Reaches declared s' s'' ∧ (s''.Due ∨ s''.Unclosed)) →
      ∃ s'', Reaches declared s s'' ∧ (s''.Due ∨ s''.Unclosed) :=
    fun hstep ⟨s'', hreaches, hend⟩ => ⟨s'', hreaches.head hstep, hend⟩
  -- Names and calls fail in ways of their own, so that nothing else ends in this error.
  fun_induction Parser.run declared stack done ts with
  | case1 stack => exact ⟨_, .refl, .inl ⟨rfl, rfl⟩⟩
  | case10 stack e hopen =>
    exact ⟨_, .refl, .inr ⟨rfl, e, rfl, fun hnil => hopen _ (Prod.ext hnil rfl)⟩⟩
  | case9 | case8 | case14 | case16 | case17 => cases h
  | case2 stack x ts ih => exact hstep .number (ih h)
  | case3 stack name ts f hf ih => exact hstep (.call hf) (ih h)
  | case4 stack name ts hcall ih =>
    rcases bind_eq_error h with he | ⟨e, he, h⟩
    · exact (resolve_ne_unexpectedEnd he).elim
    · exact hstep (.name hcall he) (ih e h)
  | case5 stack ts ih => exact hstep .group (ih h)
  | case6 stack ts ih => exact hstep .minus (ih h)
  | case7 stack ts ih => exact hstep .plus (ih h)
  | case11 stack e' op ts stack' e'' hc ih => exact hstep (.operator hc) (ih h)
  | case12 stack e' ts stack' e'' hc ih => exact hstep (.closeGroup hc) (ih h)
  | case13 stack e' ts f done stack' e'' hc ih =>
    rcases bind_eq_error h with he | ⟨e, he, h⟩
    · exact (finish_ne_unexpectedEnd _ _ he).elim
    · exact hstep (.closeCall hc he) (ih e h)
  | case15 stack e' ts f done stack' e'' hc ih => exact hstep (.comma hc) (ih h)

/-- What holds of all states that the parser comes through. -/
structure Within (ts : List Token) (s : State) : Prop where
  nested : Token.nested (Frame.depth s.stack) s.rest = true
  suffix : s.rest <:+ ts
  operator : s.rest = [] → s.done = none → ∃ op, ts.getLast? = some (.op op)

theorem getLast?_of_suffix (h : [t] <:+ ts) : ts.getLast? = some t := by
  obtain ⟨us, rfl⟩ := h
  exact List.getLast?_concat

theorem within_of_read (hsuffix : t :: us <:+ ts)
    (hnested : Token.nested (Frame.depth stack) us = true)
    (ht : (∃ op, t = .op op) ∨ done ≠ none ∨ Frame.depth stack ≠ 0) :
    Within ts ⟨stack, done, us⟩ := by
  refine ⟨hnested, (List.suffix_cons t us).trans hsuffix, ?_⟩
  rintro rfl hdone
  rcases ht with ⟨op, rfl⟩ | hsome | hopen
  · exact ⟨op, getLast?_of_suffix hsuffix⟩
  · exact absurd hdone hsome
  · exact absurd (beq_iff_eq.mp hnested) hopen

theorem Within.step (h : Step declared s s') (hs : Within ts s) : Within ts s' := by
  obtain ⟨hnested, hsuffix, -⟩ := hs
  cases h with
  | number | name => exact within_of_read hsuffix hnested (.inr (.inl nofun))
  | call hf =>
    exact within_of_read ((List.suffix_cons _ _).trans hsuffix) hnested
      (.inr (.inr (Nat.succ_ne_zero _)))
  | group => exact within_of_read hsuffix hnested (.inr (.inr (Nat.succ_ne_zero _)))
  | minus | plus => exact within_of_read hsuffix hnested (.inl ⟨_, rfl⟩)
  | operator hc =>
    dsimp only at hnested
    rw [Frame.depth_of_complete hc] at hnested
    exact within_of_read hsuffix hnested (.inl ⟨_, rfl⟩)
  | closeGroup hc | closeCall hc =>
    dsimp only at hnested
    rw [Frame.depth_of_complete hc] at hnested
    exact within_of_read hsuffix hnested (.inr (.inl nofun))
  | comma hc =>
    dsimp only at hnested
    rw [Frame.depth_of_complete hc] at hnested
    exact within_of_read hsuffix hnested (.inr (.inr (Nat.succ_ne_zero _)))

theorem Within.reaches (h : Reaches declared s s') (hs : Within ts s) : Within ts s' := by
  induction h with
  | refl => exact hs
  | tail _ hstep ih => exact ih.step hstep

theorem Within.not_unclosed (hs : Within ts s) : ¬ s.Unclosed := by
  rintro ⟨hrest, e, -, hopen⟩
  have hnested := hs.nested
  rw [hrest] at hnested
  exact hopen (Frame.complete_outermost_of_depth (by simpa [Token.nested] using hnested) e)

theorem within_start (hnested : Token.nested 0 ts = true) (hne : ts ≠ []) :
    Within ts (.start ts) :=
  ⟨hnested, List.suffix_refl ts, fun hnil => absurd hnil hne⟩

end Parser

namespace FusedName

theorem ne_nil_of_split? {names : List (List Char)} {word : List Char} {parts : List (List Char)}
    (h : split? names word = some parts) (hword : word ≠ []) : parts ≠ [] := by
  cases word with
  | nil => exact absurd rfl hword
  | cons c cs =>
    obtain ⟨n, -, hn⟩ := List.exists_of_findSome?_eq_some h
    obtain ⟨rest, -, rfl⟩ := Option.map_eq_some_iff.mp hn
    exact List.cons_ne_nil _ _

theorem expand_ne_nil (v : String) (h : name.toList ≠ []) : expand v name ≠ [] := by
  unfold expand
  split
  · exact List.cons_ne_nil _ _
  · split
    · rename_i parts hparts
      exact fun hnil => ne_nil_of_split? hparts h (List.map_eq_nil_iff.mp hnil)
    · exact List.cons_ne_nil _ _

theorem exists_getLast?_splitAll (v : String) (h : ts.getLast? = some t)
    (ht : ∀ name, t = .ident name → name.toList ≠ []) :
    ∃ t', (splitAll v ts).getLast? = some t' ∧ ∀ op, t' = .op op → t = .op op := by
  obtain ⟨us, rfl⟩ := List.getLast?_eq_some_iff.mp h
  rw [splitAll_append]
  -- A word that is cut ends in a name again, and any other token is kept.
  cases t with
  | ident name =>
    have hne := expand_ne_nil v (ht name rfl)
    obtain ⟨n, hn⟩ := Token.exists_ident_of_mem_expand (List.getLast_mem hne)
    rw [splitAll_ident]
    refine ⟨.ident n, ?_, nofun⟩
    rw [List.getLast?_append_of_ne_nil _ hne, List.getLast?_eq_some_getLast hne, hn]
  | number _ | op _ | lparen | rparen | comma =>
    exact ⟨_, List.getLast?_concat, fun _ => id⟩

end FusedName

namespace Token

theorem getLast?_explicit (ts : List Token) :
    (Juxtaposition.explicit ts).getLast? = ts.getLast? := by
  fun_induction Juxtaposition.explicit ts with
  | case1 a b ts hproduct ih =>
    rw [List.getLast?_cons_cons, List.getLast?_cons, ih, List.getLast?_cons_cons, List.getLast?_cons]
    rfl
  | case2 a b ts hproduct ih =>
    rw [List.getLast?_cons, ih, List.getLast?_cons_cons, List.getLast?_cons]
    rfl
  | case3 ts => rfl

theorem exists_getLast?_prepare (declared : Option String) (h : ofText text = .ok ts) :
    ∃ t t', ts.getLast? = some t ∧ (prepare declared ts).getLast? = some t' ∧
      ∀ op, t' = .op op → t = .op op := by
  have hne := ne_nil_of_ofText h
  have hlast := List.getLast?_eq_some_getLast hne
  have hname : ∀ name, ts.getLast hne = .ident name → name.toList ≠ [] := by
    intro name hname
    refine name_ne_nil (isIdentifier_of_spells (spells_of_ofText h) ?_)
    rw [← hname]
    exact List.getLast_mem hne
  cases declared with
  | none => exact ⟨_, _, hlast, (getLast?_explicit ts).trans hlast, fun _ => id⟩
  | some v =>
    obtain ⟨t', hlast', hop⟩ := FusedName.exists_getLast?_splitAll v hlast hname
    exact ⟨_, t', hlast, (getLast?_explicit _).trans hlast', hop⟩

theorem ofText_ne_unexpectedEnd (text : List Char) : ofText text ≠ .error .unexpectedEnd := by
  intro h
  have houtcome := outcome_ofText text
  rw [h] at houtcome
  cases houtcome

end Token

namespace Expr

open Univariate.Parser

theorem within_of_reaches {s : State} (hts : Token.ofText text = .ok ts)
    (h : Reaches declared (.start (Token.prepare declared ts)) s) :
    Within (Token.prepare declared ts) s := by
  obtain ⟨t, t', -, hlast, -⟩ := Token.exists_getLast?_prepare declared hts
  refine (within_start ?_ ?_).reaches h
  · rw [Token.nested_prepare, Token.nested_of_ofText hts]
  · rintro hnil
    rw [hnil] at hlast
    cases hlast

/-- No parenthesis is open when the parser comes to the end of a text, so that it misses nothing there
but the operand of an operator. -/
theorem parse_at_end (declared : Option String) (text : List Char) :
    (∀ ts s, Token.ofText text = .ok ts →
      Reaches declared (.start (Token.prepare declared ts)) s →
      s.run declared = parse declared text ∧ ¬ s.Unclosed) ∧
    (parse declared text = .error .unexpectedEnd →
      ∃ ts op, Token.ofText text = .ok ts ∧ ts.getLast? = some (.op op)) := by
  constructor
  · intro ts s hts hs
    refine ⟨?_, (within_of_reaches hts hs).not_unclosed⟩
    rw [← hs.run_eq, parse, hts]
    rfl
  · intro h
    rcases bind_eq_error h with hts | ⟨ts, hts, h⟩
    · exact absurd hts (Token.ofText_ne_unexpectedEnd text)
    · obtain ⟨s, hs, hend⟩ := reaches_end_of_run h
      have hwithin := within_of_reaches hts hs
      obtain ⟨hrest, hdone⟩ := hend.resolve_right hwithin.not_unclosed
      obtain ⟨op, hop⟩ := hwithin.operator hrest hdone
      obtain ⟨t, t', hlast, hlast', hkept⟩ := Token.exists_getLast?_prepare declared hts
      cases hlast'.symm.trans hop
      refine ⟨ts, op, hts, ?_⟩
      rw [hlast, hkept op rfl]

theorem parse_at_end_plus :
    parse (some "x") ['(', 'x', ')', '+'] = .error .unexpectedEnd ∧
    (∃ s, Reaches (some "x") (.start [.lparen, .ident "x", .rparen, .op .add]) s ∧
      s.rest = [] ∧ ¬ s.Unclosed) ∧
    ∃ ts op, Token.ofText ['(', 'x', ')', '+'] = .ok ts ∧ ts.getLast? = some (.op op) := by
  have hrun : Token.run ['(', 'x', ')', '+'] =
      ([.lparen, .ident "x", .rparen, .op .add], []) :=
    Token.run_eq_cons rfl rfl <| Token.run_eq_cons rfl rfl <| Token.run_eq_cons rfl rfl <|
      Token.run_eq_cons rfl rfl Token.run_nil
  have hrounded : Token.rounded ['(', 'x', ')', '+'] = ['(', 'x', ')', '+'] := by decide +kernel
  have hts := Token.ofText_of_run hrounded hrun rfl rfl rfl
  have hparse : parse (some "x") ['(', 'x', ')', '+'] = .error .unexpectedEnd := by
    rw [parse, hts]
    rfl
  have hreaches : Reaches (some "x") (.start [.lparen, .ident "x", .rparen, .op .add])
      ⟨[.operand .add (.var "x")], none, []⟩ :=
    .head .group <| .head (.name (fun _ _ hopen => by cases hopen) rfl) <|
      .head (.closeGroup rfl) <| .single (.operator rfl)
  obtain ⟨hstates, hend⟩ := parse_at_end (some "x") ['(', 'x', ')', '+']
  exact ⟨hparse, ⟨_, hreaches, rfl, (hstates _ _ hts hreaches).2⟩, hend hparse⟩

end Expr

end Univariate
