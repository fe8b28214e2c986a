import Mathlib.Data.List.Chain
import Univariate.Proofs.Expr.Printing

namespace Univariate

open Decimal Double

namespace Juxtaposition

def Explicit (ts : List Token) : Prop := ts.IsChain fun a b => isProduct a b = false

theorem explicit_eq {ts : List Token} (h : Explicit ts) : explicit ts = ts := by
  induction ts with
  | nil => rfl
  | cons a ts ih =>
    cases ts with
    | nil => rfl
    | cons b ts =>
      obtain ⟨hab, hrest⟩ := List.isChain_cons_cons.mp h
      rw [explicit, hab, ih hrest]
      rfl

theorem head?_explicit (ts : List Token) : (explicit ts).head? = ts.head? := by
  fun_cases explicit ts <;> rfl

theorem isProduct_op (a : Token) (op : Operator) : isProduct a (.op op) = false := by
  cases a <;> rfl

theorem isProduct_rparen (a : Token) : isProduct a .rparen = false := by
  cases a <;> rfl

theorem Explicit.cons {a : Token} {ts : List Token} (h : Explicit ts)
    (ha : ∀ b, isProduct a b = false) : Explicit (a :: ts) :=
  List.IsChain.cons h fun b _ => ha b

theorem Explicit.append_cons {a : Token} {ts us : List Token} (h : Explicit ts)
    (ha : ∀ b, isProduct b a = false) (h' : Explicit (a :: us)) : Explicit (ts ++ a :: us) := by
  refine List.IsChain.append h h' ?_
  intro b _ c hc
  cases hc
  exact ha b

theorem explicit_spelled (e : Expr) : Explicit e.spelled := by
  have hop : ∀ (op : Operator) b, isProduct (.op op) b = false := fun _ _ => rfl
  have hparen : ∀ b, isProduct .lparen b = false := fun _ => rfl
  have hend : Explicit [.rparen] := .singleton _
  induction e with
  | var name => exact .singleton _
  | const c =>
    cases hsign : signBit c with
    | false =>
      rw [Expr.spelled_unsigned hsign]
      exact .singleton _
    | true =>
      rw [Expr.spelled_signed hsign]
      exact Explicit.cons (.singleton _) (hop .sub)
  | binary op l r ihl ihr =>
    rw [Expr.spelled_binary]
    have hr := (ihr.append_cons isProduct_rparen hend).cons (hop op)
    exact (ihl.append_cons (isProduct_op · op) hr).cons hparen
  | neg e ih =>
    rw [Expr.spelled_neg]
    exact ((ih.append_cons isProduct_rparen hend).cons (hop .sub)).cons hparen
  | apply f e ih =>
    rw [Expr.spelled_apply]
    have he := (ih.append_cons isProduct_rparen hend).cons hparen
    exact he.cons_cons f.isNone_callable

theorem explicit_spelledAlone (e : Expr) : Explicit e.spelledAlone := by
  cases e with
  | const c =>
    have hop : ∀ b, isProduct (.op .sub) b = false := fun _ => rfl
    rw [Expr.spelledAlone]
    split
    · exact Explicit.cons (.singleton _) hop
    · exact .singleton _
  | var name | binary op l r | neg e | apply f e => exact explicit_spelled _

end Juxtaposition

namespace FusedName

theorem splitAll_append (v : String) (ts us : List Token) :
    splitAll v (ts ++ us) = splitAll v ts ++ splitAll v us :=
  List.flatMap_append

theorem splitAll_ident (v name : String) : splitAll v [.ident name] = expand v name :=
  List.flatMap_singleton _ _

theorem splitAll_eq {v : String} {ts : List Token}
    (h : ∀ name, .ident name ∈ ts → isMeaningful v name = true) : splitAll v ts = ts := by
  induction ts with
  | nil => rfl
  | cons t ts ih =>
    have hrest : splitAll v ts = ts := ih fun name hname => h name (List.mem_cons_of_mem t hname)
    unfold splitAll at hrest ⊢
    rw [List.flatMap_cons, hrest]
    cases t with
    | ident name =>
      have hname := h name List.mem_cons_self
      simp only [expand, hname, if_true]
      rfl
    | number _ | op _ | lparen | rparen | comma => rfl

theorem isMeaningful_spelled {v : String} {e : Expr} (h : e.Legible (some v)) :
    ∀ name, .ident name ∈ e.spelled → isMeaningful v name = true := by
  intro name hname
  induction e with
  | var n =>
    cases List.mem_singleton.mp hname
    cases h.2 with
    | free heq =>
      cases heq
      simp [isMeaningful]
    | undeclared heq => cases heq
  | const c =>
    cases hsign : signBit c with
    | false => simp [Expr.spelled_unsigned hsign] at hname
    | true => simp [Expr.spelled_signed hsign] at hname
  | binary op l r ihl ihr =>
    simp only [Expr.spelled_binary, List.mem_append, List.mem_cons, reduceCtorEq, false_or,
      or_false, List.not_mem_nil] at hname
    rcases hname with hname | hname
    · exact ihl h.1 hname
    · exact ihr h.2 hname
  | neg e ih =>
    simp only [Expr.spelled_neg, List.mem_append, List.mem_cons, reduceCtorEq, false_or, or_false,
      List.not_mem_nil] at hname
    exact ih h hname
  | apply f e ih =>
    simp only [Expr.spelled_apply, List.mem_append, List.mem_cons, reduceCtorEq, false_or, or_false,
      List.not_mem_nil, Token.ident.injEq] at hname
    rcases hname with rfl | hname
    · obtain ⟨g, hg, -⟩ := f.exists_callable
      simp [isMeaningful, hg]
    · exact ih h hname

theorem splitAll_spelledAlone {v : String} {e : Expr} (h : e.Legible (some v)) :
    splitAll v e.spelledAlone = e.spelledAlone := by
  cases e with
  | const c =>
    rw [Expr.spelledAlone]
    split <;> rfl
  | var name | binary op l r | neg e | apply f e => exact splitAll_eq (isMeaningful_spelled h)

end FusedName

theorem Callable.apply_singleton {g : Callable} {f : Function} (h : g.function? = some f)
    (e : Expr) : g.apply [e] = .apply f e := by
  simp [apply, applyReversed, h]

namespace Expr

variable {declared : Option String} {e l r : Expr} {c : Float}

/-- What the text of an expression is read as inside the text of another one. -/
def reread : Expr → Expr
  | .var name => .var name
  | .const c => if signBit c then .neg (.const (-c)) else .const c
  | .binary op l r =>
    match op, l with
    | .pow, .const c =>
      if signBit c then .neg (.binary .pow (.const (-c)) r.reread)
      else .binary .pow (.const c) r.reread
    | op, l => .binary op l.reread r.reread
  | .neg e => .neg e.reread
  | .apply f e => .apply f e.reread

def rereadAlone : Expr → Expr
  | .const c =>
    if signBit c then .neg (.const (Token.readAtEnd (-c))) else .const (Token.readAtEnd c)
  | e => e.reread

theorem reread_unsigned (h : signBit c = false) : (const c).reread = .const c := by
  simp [reread, h]

theorem reread_signed (h : signBit c = true) : (const c).reread = .neg (.const (-c)) := by
  simp [reread, h]

def isSigned : Expr → Bool
  | .const c => signBit c
  | _ => false

theorem reread_signed_pow (h : signBit c = true) :
    (binary .pow (.const c) r).reread = .neg (.binary .pow (.const (-c)) r.reread) := by
  simp [reread, h]

theorem reread_binary {op : Operator} (h : op = .pow → l.isSigned = false) :
    (binary op l r).reread = .binary op l.reread r.reread := by
  cases op with
  | pow =>
    cases l with
    | const c => simp [reread, show signBit c = false from h rfl]
    | var name | binary op l r | neg e | apply f e => simp [reread]
  | add | sub | mul | div => simp [reread]

def category (e : Expr) : Category := if e.isSigned then .signed else .primary

theorem three_le_category (e : Expr) : 3 ≤ e.category.level := by
  unfold category
  split <;> decide

theorem category_primary (h : e.isSigned = false) : e.category = .primary := by
  rw [category, h]
  rfl

theorem left_le_category {op : Operator} (h : op = .pow → l.isSigned = false) :
    op.left.level ≤ l.category.level := by
  cases op with
  | pow =>
    rw [category_primary (h rfl)]
    decide
  | add | sub | mul | div => exact Nat.le_trans (by decide) (three_le_category l)

theorem derives_signed (declared : Option String) (c : Float) :
    Derives declared .signed [.op .sub, .number c] (.neg (.const c)) :=
  .minus ((Derives.number c).toSigned (by decide))

theorem derives_const (declared : Option String) (c : Float) :
    Derives declared (const c).category (const c).spelled (const c).reread := by
  cases hsign : signBit c with
  | false =>
    rw [category, isSigned, hsign, spelled_unsigned hsign, reread_unsigned hsign]
    exact .number c
  | true =>
    rw [category, isSigned, hsign, spelled_signed hsign, reread_signed hsign]
    exact derives_signed declared (-c)

theorem derives_signed_pow (hsign : signBit c = true)
    (hr : Derives declared .signed r.spelled r.reread) :
    Derives declared .signed ((const c).spelled ++ .op .pow :: r.spelled)
      (binary .pow (.const c) r).reread := by
  have hpow : Derives declared Operator.pow.whole _ (.binary .pow (.const (-c)) r.reread) :=
    .binary (.number (-c)) hr
  rw [spelled_signed hsign, reread_signed_pow hsign]
  exact (hpow.toSigned (by decide)).minus

theorem derives_spelled {e : Expr} (h : e.Legible declared) :
    Derives declared e.category e.spelled e.reread := by
  induction e with
  | var name => exact .name h.2
  | const c => exact derives_const declared c
  | binary op l r ihl ihr =>
    have hr := (ihr h.2).mono (c := op.right)
      (Nat.le_trans op.level_right_le (three_le_category r))
    have hsum : Derives declared .sum (l.spelled ++ .op op :: r.spelled)
        (binary op l r).reread := by
      -- Every text can stand where an operand is due, but for a sign before the base of a power.
      by_cases hbase : op = .pow → l.isSigned = false
      · have hl := (ihl h.1).mono (left_le_category hbase)
        rw [reread_binary hbase]
        exact (hl.binary hr).mono op.whole.one_le_level
      · obtain ⟨rfl, hsigned⟩ : op = .pow ∧ l.isSigned = true := by simpa using hbase
        cases l with
        | const c => exact (derives_signed_pow hsigned hr).mono (by decide)
        | var name | binary op l r | neg e | apply f e => cases hsigned
    have hgroup := hsum.group
    rw [spelled_binary, category_primary rfl]
    simpa using hgroup
  | neg e ih =>
    have hsigned := (ih h).toSigned (three_le_category e)
    rw [spelled_neg]
    exact (hsigned.minus.mono (c := .sum) (by decide)).group
  | apply f e ih =>
    obtain ⟨g, hg, harity, hfunction⟩ := f.exists_callable
    have hargs : ∀ arg ∈ [(e.spelled, e.reread)], Derives declared .sum arg.1 arg.2 := by
      intro arg harg
      cases List.mem_singleton.mp harg
      exact (ih h).mono (Nat.le_trans (by decide) (three_le_category e))
    have hlength : [(e.spelled, e.reread)].length = g.arity := harity.symm
    have hcall := Derives.call hg hlength hargs
    rw [List.map_singleton, List.map_singleton, Callable.apply_singleton hfunction] at hcall
    rw [spelled_apply, category_primary rfl, reread]
    simpa [List.intercalate] using hcall

theorem derives_spelledAlone (h : e.Legible declared) :
    Derives declared .sum e.spelledAlone e.rereadAlone := by
  cases e with
  | const c =>
    rw [spelledAlone, rereadAlone]
    split
    · exact (derives_signed declared _).mono (c := .sum) (by decide)
    · exact (Derives.number _).mono (c := .sum) (by decide)
  | var name | binary op l r | neg e | apply f e =>
    exact (derives_spelled h).mono (Nat.le_trans (by decide) (three_le_category _))

theorem prepare_spelledAlone (h : e.Legible declared) :
    Token.prepare declared e.spelledAlone = e.spelledAlone := by
  have hexplicit := Juxtaposition.explicit_eq (Juxtaposition.explicit_spelledAlone e)
  cases declared with
  | none => exact hexplicit
  | some v =>
    rw [Token.prepare]
    simp only [FusedName.splitAll_spelledAlone h]
    exact hexplicit

theorem parse_legible (h : e.Legible declared) : parse declared e.text = .ok e.rereadAlone := by
  rw [parse, Token.ofText_text h]
  simp only [bind, Except.bind, prepare_spelledAlone h]
  exact Parser.ofTokens_of_derives (derives_spelledAlone h)

theorem isSigned_of_printable (h : e.Printable declared) : e.isSigned = false := by
  cases e with
  | const c => exact (unsigned_iff.mp h).2
  | var name | binary op l r | neg e | apply f e => rfl

theorem reread_eq {e : Expr} (h : e.Printable declared) : e.reread = e := by
  induction e with
  | var name => rfl
  | const c => exact reread_unsigned (unsigned_iff.mp h).2
  | binary op l r ihl ihr =>
    rw [reread_binary fun _ => isSigned_of_printable h.1, ihl h.1, ihr h.2]
  | neg e ih => rw [reread, ih h]
  | apply f e ih => rw [reread, ih h]

theorem parse_text (h : e.Printable declared) : parse declared e.text = .ok e.readBack := by
  rw [parse_legible h.legible]
  cases e with
  | const c =>
    rw [rereadAlone, (unsigned_iff.mp h).2]
    rfl
  | var name | binary op l r | neg e | apply f e => exact congrArg Except.ok (reread_eq h)

theorem readBack_eq_iff (h : e.Printable declared) :
    e.readBack = e ↔ ∀ c, e = .const c → ∃ n : Nat, value c = n := by
  cases e with
  | const c =>
    rw [readBack, const.injEq, Token.readAtEnd, decimal_whole_eq_iff h]
    constructor
    · intro hc d hd
      cases hd
      exact hc
    · exact fun hc => hc c rfl
  | var name | binary op l r | neg e | apply f e =>
    refine iff_of_true rfl ?_
    rintro c ⟨⟩

theorem parse_text_eq_iff (h : e.Printable declared) :
    parse declared e.text = .ok e ↔ ∀ c, e = .const c → ∃ n : Nat, value c = n := by
  rw [parse_text h, Except.ok.injEq, readBack_eq_iff h]

/-- The printed form is read back as the same tree, with and without a declared variable, unless
the expression is a single number that has a fraction. -/
theorem reads_text_iff (e : Expr)
    (hconstants : ∀ c ∈ e.constants, c.isFinite = true ∧ signBit c = false) :
    ((∀ name, e.mentions name = true →
        Token.isIdentifier name = true ∧ name ≠ "pi" ∧ name ≠ "e") →
      (parse none e.text = .ok e ↔ ∀ c, e = .const c → ∃ n : Nat, value c = n)) ∧
    ∀ v, Token.isIdentifier v = true → (∀ name, e.mentions name = true → name = v) →
      (parse (some v) e.text = .ok e ↔ ∀ c, e = .const c → ∃ n : Nat, value c = n) := by
  have hunsigned : ∀ c ∈ e.constants, Unsigned (unpacked c) :=
    fun c hc => unsigned_iff.mpr (hconstants c hc)
  constructor
  · intro hnames
    refine parse_text_eq_iff (printable_of_forall ?_ hunsigned)
    intro name hname
    obtain ⟨hidentifier, hpi, he⟩ := hnames name hname
    refine ⟨hidentifier, .undeclared rfl ?_⟩
    rw [namedConstant?, if_neg hpi, if_neg he]
  · intro v hv hnames
    refine parse_text_eq_iff (printable_of_forall ?_ hunsigned)
    intro name hname
    rw [hnames name hname]
    exact ⟨hv, .free rfl⟩

theorem reads_text_sine :
    parse none (binary .mul (.const 0.25) (.apply .sin (.var "sin"))).text =
      .ok (.binary .mul (.const 0.25) (.apply .sin (.var "sin"))) ∧
    parse (some "sin") (binary .mul (.const 0.25) (.apply .sin (.var "sin"))).text =
      .ok (.binary .mul (.const 0.25) (.apply .sin (.var "sin"))) := by
  have hnames : ∀ name,
      (binary .mul (.const 0.25) (.apply .sin (.var "sin"))).mentions name = true →
        name = "sin" := by
    intro name h
    exact (beq_iff_eq.mp h).symm
  have hconstants : ∀ c ∈ (binary .mul (.const 0.25) (.apply .sin (.var "sin"))).constants,
      c.isFinite = true ∧ signBit c = false := by
    intro c hc
    cases List.mem_singleton.mp hc
    decide +kernel
  obtain ⟨hundeclared, hdeclared⟩ := reads_text_iff _ hconstants
  constructor
  · refine (hundeclared ?_).mpr fun c hc => nomatch hc
    intro name h
    rw [hnames name h]
    decide
  · exact (hdeclared "sin" (by decide) hnames).mpr fun c hc => nomatch hc

/-- A fraction that ends the text is lost. -/
theorem not_reads_quarter : ¬ ∀ e : Expr,
    (∀ c ∈ e.constants, c.isFinite = true ∧ signBit c = false) →
    (∀ name, e.mentions name = true →
      Token.isIdentifier name = true ∧ name ≠ "pi" ∧ name ≠ "e") →
    parse none e.text = .ok e := by
  intro h
  have hunsigned : (0.25 : Float).isFinite = true ∧ signBit 0.25 = false := by decide +kernel
  have hread := h (.const 0.25)
    (fun c hc => by cases List.mem_singleton.mp hc; exact hunsigned) fun name hname => nomatch hname
  have hprintable : (const 0.25).Printable none := unsigned_iff.mpr hunsigned
  obtain ⟨n, hn⟩ := (parse_text_eq_iff hprintable).mp hread 0.25 rfl
  have hfraction : fraction 0.25 ≠ [] := by decide +kernel
  exact hfraction ((fraction_eq_nil_iff hprintable).mpr ⟨n, hn⟩)

end Expr

end Univariate
