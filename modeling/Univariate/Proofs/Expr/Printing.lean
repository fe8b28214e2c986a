import Univariate.Proofs.Decimal.Sign
import Univariate.Proofs.Expr.Completeness
import Univariate.Proofs.Expr.Lexing
import Univariate.Proofs.Text.Brackets

namespace Univariate

open Decimal Double Text

def Token.spelled : Token → List Token
  | .number c => if signBit c then [.op .sub, .number (-c)] else [.number c]
  | t => [t]

namespace Expr

def tokens : Expr → List Token
  | .var name => [.ident name]
  | .const c => [.number c]
  | .binary op l r => .lparen :: l.tokens ++ .op op :: r.tokens ++ [.rparen]
  | .neg e => .lparen :: .op .sub :: e.tokens ++ [.rparen]
  | .apply f e => .ident f.name :: .lparen :: e.tokens ++ [.rparen]

def constants : Expr → List Float
  | .var _ => []
  | .const c => [c]
  | .binary _ l r => l.constants ++ r.constants
  | .neg e => e.constants
  | .apply _ e => e.constants

/-- The expressions that can be read back: variables are identifiers that stand for themselves,
and constants are written with digits. -/
def Printable (declared : Option String) : Expr → Prop
  | .var name => Token.isIdentifier name = true ∧ Resolves declared name (.var name)
  | .const c => Unsigned (unpacked c)
  | .binary _ l r => l.Printable declared ∧ r.Printable declared
  | .neg e => e.Printable declared
  | .apply _ e => e.Printable declared

/-- The expressions whose texts are read at all: constants are finite and may have a sign. -/
def Legible (declared : Option String) : Expr → Prop
  | .var name => Token.isIdentifier name = true ∧ Resolves declared name (.var name)
  | .const c => c.isFinite = true
  | .binary _ l r => l.Legible declared ∧ r.Legible declared
  | .neg e => e.Legible declared
  | .apply _ e => e.Legible declared

def spelled (e : Expr) : List Token := e.tokens.flatMap Token.spelled

def spelledAlone : Expr → List Token
  | .const c =>
    if signBit c then [.op .sub, .number (Token.readAtEnd (-c))] else [.number (Token.readAtEnd c)]
  | e => e.spelled

def readBack : Expr → Expr
  | .const c => .const (Token.readAtEnd c)
  | e => e

variable {declared : Option String} {e : Expr}

theorem printable_of_forall {e : Expr}
    (hnames : ∀ name, e.mentions name = true →
      Token.isIdentifier name = true ∧ Resolves declared name (.var name))
    (hconstants : ∀ c ∈ e.constants, Unsigned (unpacked c)) : e.Printable declared := by
  induction e with
  | var name => exact hnames name (beq_self_eq_true name)
  | const c => exact hconstants c List.mem_cons_self
  | binary op l r ihl ihr =>
    simp only [mentions, Bool.or_eq_true] at hnames
    simp only [constants, List.mem_append] at hconstants
    constructor
    · exact ihl (fun name h => hnames name (.inl h)) fun c hc => hconstants c (.inl hc)
    · exact ihr (fun name h => hnames name (.inr h)) fun c hc => hconstants c (.inr hc)
  | neg e ih => exact ih hnames hconstants
  | apply f e ih => exact ih hnames hconstants

theorem Printable.legible {e : Expr} (h : e.Printable declared) : e.Legible declared := by
  induction e with
  | var name => exact h
  | const c => exact (unsigned_iff.mp h).1
  | binary op l r ihl ihr => exact ⟨ihl h.1, ihr h.2⟩
  | neg e ih => exact ih h
  | apply f e ih => exact ih h

section Spelled

variable {op : Operator} {l r : Expr} {f : Function} {c : Float}

theorem spelled_unsigned (h : signBit c = false) : (const c).spelled = [.number c] := by
  simp [spelled, tokens, Token.spelled, h]

theorem spelled_signed (h : signBit c = true) :
    (const c).spelled = [.op .sub, .number (-c)] := by
  simp [spelled, tokens, Token.spelled, h]

theorem spelled_binary : (binary op l r).spelled =
    .lparen :: (l.spelled ++ .op op :: (r.spelled ++ [.rparen])) := by
  simp [spelled, tokens, Token.spelled]

theorem spelled_neg : (neg e).spelled = .lparen :: .op .sub :: (e.spelled ++ [.rparen]) := by
  simp [spelled, tokens, Token.spelled]

theorem spelled_apply : (apply f e).spelled =
    .ident f.name :: .lparen :: (e.spelled ++ [.rparen]) := by
  simp [spelled, tokens, Token.spelled]

end Spelled

end Expr

theorem Function.isIdentifier_name (f : Function) : Token.isIdentifier f.name = true := by
  cases f <;> decide

theorem Function.exists_callable (f : Function) : ∃ g : Callable,
    Callable.ofName? f.name = some g ∧ g.arity = 1 ∧ g.function? = some f := by
  cases f with
  | exp => exact ⟨.exp, by decide⟩
  | ln => exact ⟨.ln, by decide⟩
  | log10 => exact ⟨.log10, by decide⟩
  | sqrt => exact ⟨.sqrt, by decide⟩
  | abs => exact ⟨.abs, by decide⟩
  | sin => exact ⟨.sin, by decide⟩
  | cos => exact ⟨.cos, by decide⟩
  | tan => exact ⟨.tan, by decide⟩
  | arcsin => exact ⟨.asin, by decide⟩
  | arccos => exact ⟨.acos, by decide⟩
  | arctan => exact ⟨.atan, by decide⟩

theorem Function.isNone_callable (f : Function) : (Callable.ofName? f.name).isNone = false := by
  obtain ⟨g, hg, -⟩ := f.exists_callable
  rw [hg]
  rfl

namespace Token

def Boundary (rest : List Char) : Prop := ∀ c ∈ rest.head?, c = ' ' ∨ c = ')'

theorem boundary_nil : Boundary [] := fun _ hc => nomatch hc

theorem boundary_blank (rest : List Char) : Boundary (' ' :: rest) := by
  intro c hc
  cases hc
  exact .inl rfl

theorem boundary_rparen (rest : List Char) : Boundary (')' :: rest) := by
  intro c hc
  cases hc
  exact .inr rfl

theorem Boundary.isNamePart {rest : List Char} (h : Boundary rest) :
    ∀ c ∈ rest.head?, isNamePart c = false := by
  intro c hc
  rcases h c hc with rfl | rfl
  · decide
  · decide

theorem Boundary.isDigit {rest : List Char} (h : Boundary rest) :
    ∀ c ∈ rest.head?, c.isDigit = false ∧ c ≠ '.' := by
  intro c hc
  rcases h c hc with rfl | rfl
  · decide
  · decide

theorem isGap_of_isNamePart {c : Char} (h : Token.isNamePart c = true) : isGap c = false := by
  have hne : ∀ d : Char, Token.isNamePart d = false → (c == d) = false :=
    fun _ hd => beq_eq_false_of_class h hd
  simp only [isGap, hne ' ' rfl, hne '\t' rfl, hne '\n' rfl, hne '\r' rfl, Bool.or_false]

theorem isNamePart_of_isDigit {c : Char} (h : c.isDigit = true) : Token.isNamePart c = true := by
  rw [Token.isNamePart, Char.isAlphanum, h, Bool.or_true, Bool.true_or]

theorem head_not_gap {cs : List Char} (hne : cs ≠ []) (h : ∀ c ∈ cs, Token.isNamePart c = true)
    (rest : List Char) : ∀ c ∈ (cs ++ rest).head?, isGap c = false := by
  intro c hc
  rw [List.head?_append_of_ne_nil _ hne] at hc
  exact isGap_of_isNamePart (h c (List.mem_of_mem_head? hc))

theorem name_ne_nil {name : String} (h : isIdentifier name = true) : name.toList ≠ [] := by
  obtain ⟨c, cs, hname, -⟩ := isIdentifier_iff.mp h
  rw [hname]
  exact List.cons_ne_nil c cs

theorem run_name {name : String} (h : isIdentifier name = true) {rest : List Char}
    (hrest : ∀ c ∈ rest.head?, Token.isNamePart c = false) :
    run (name.toList ++ rest) = (.ident name :: (run rest).1, (run rest).2) :=
  run_cons (lex_name h hrest) (head_not_gap (name_ne_nil h) (isNamePart_of_mem h) rest)

theorem plain_not_gap {x : Float} (hx : Unsigned (unpacked x)) (rest : List Char) :
    ∀ c ∈ (plain x ++ rest).head?, isGap c = false := by
  rw [plain_eq hx, List.append_assoc]
  exact head_not_gap (whole_ne_nil x) (fun c hc => isNamePart_of_isDigit (isDigit_whole x c hc)) _

theorem run_op (op : Operator) (rest : List Char) :
    run (op.symbol :: rest) = (.op op :: (run rest).1, (run rest).2) := by
  refine run_cons (lex_op op) ?_
  intro c hc
  cases hc
  cases op <;> rfl

theorem run_lparen (rest : List Char) :
    run ('(' :: rest) = (.lparen :: (run rest).1, (run rest).2) :=
  run_cons lex_lparen fun c hc => by cases hc; rfl

theorem run_rparen (rest : List Char) :
    run (')' :: rest) = (.rparen :: (run rest).1, (run rest).2) :=
  run_cons lex_rparen fun c hc => by cases hc; rfl

theorem run_nil : run [] = ([], []) := by
  rw [run_eq]
  rfl

theorem run_plain {x : Float} (hx : x.isFinite = true) {rest : List Char} (hrest : Boundary rest)
    (hne : rest ≠ []) :
    run (plain x ++ rest) = ((Expr.const x).spelled ++ (run rest).1, (run rest).2) := by
  have hnumber : ∀ {y : Float}, Unsigned (unpacked y) →
      run (plain y ++ rest) = (.number y :: (run rest).1, (run rest).2) :=
    fun hy => run_cons (lex_plain hy hrest.isDigit hne) (plain_not_gap hy rest)
  rcases unsigned_or_signed hx with ⟨hsign, hy⟩ | ⟨hsign, hplain, hy⟩
  · rw [Expr.spelled_unsigned hsign]
    exact hnumber hy
  · have hop : run ('-' :: (plain (-x) ++ rest)) = _ := run_op .sub (plain (-x) ++ rest)
    rw [Expr.spelled_signed hsign, hplain, List.cons_append, hop, hnumber hy]
    rfl

theorem run_text {declared : Option String} {e : Expr} (h : e.Legible declared)
    {rest : List Char} (hrest : Boundary rest) (hend : rest = [] → ∀ c, e ≠ .const c) :
    run (e.text ++ rest) = (e.spelled ++ (run rest).1, (run rest).2) := by
  induction e generalizing rest with
  | var name => exact run_name h.1 hrest.isNamePart
  | const c =>
    -- A number inside brackets is always followed by something; `hend` is about a whole text.
    exact run_plain h hrest fun hnil => hend hnil c rfl
  | binary op l r ihl ihr =>
    have hr := ihr h.2 (boundary_rparen rest) fun hnil => nomatch hnil
    have hblank : run (' ' :: (r.text ++ ')' :: rest)) = run (r.text ++ ')' :: rest) := by
      apply run_gap rfl
      rw [hr, run_rparen]
      exact List.append_ne_nil_of_right_ne_nil _ (List.cons_ne_nil _ _)
    have hop := run_op op (' ' :: (r.text ++ ')' :: rest))
    have hblank' : run (' ' :: op.symbol :: ' ' :: (r.text ++ ')' :: rest)) =
        run (op.symbol :: ' ' :: (r.text ++ ')' :: rest)) := by
      apply run_gap rfl
      rw [hop]
      exact List.cons_ne_nil _ _
    have hl := ihl h.1 (boundary_blank (op.symbol :: ' ' :: (r.text ++ ')' :: rest)))
      fun hnil => nomatch hnil
    simp only [Expr.text, Expr.spelled_binary, List.cons_append, List.append_assoc, List.nil_append]
    rw [run_lparen, hl, hblank', hop, hblank, hr, run_rparen]
  | neg e ih =>
    have he := ih h (boundary_rparen rest) fun hnil => nomatch hnil
    have hop : run ('-' :: (e.text ++ ')' :: rest)) = _ := run_op .sub (e.text ++ ')' :: rest)
    simp only [Expr.text, Expr.spelled_neg, List.cons_append, List.append_assoc, List.nil_append]
    rw [run_lparen, hop, he, run_rparen]
  | apply f e ih =>
    have he := ih h (boundary_rparen rest) fun hnil => nomatch hnil
    have hname : run (f.name.toList ++ '(' :: (e.text ++ ')' :: rest)) = _ :=
      run_name f.isIdentifier_name fun c hc => by cases hc; rfl
    simp only [Expr.text, Expr.spelled_apply, List.cons_append, List.append_assoc, List.nil_append]
    rw [hname, run_lparen, he, run_rparen]

theorem run_plain_end {x : Float} (hx : x.isFinite = true) :
    run (plain x) = ((Expr.const x).spelledAlone, []) := by
  have hnumber : ∀ {y : Float}, Unsigned (unpacked y) →
      run (plain y) = ([.number (readAtEnd y)], []) := by
    intro y hy
    have hgap := plain_not_gap hy []
    rw [List.append_nil] at hgap
    rw [run_cons (lex_plain_end hy) hgap, run_nil]
  rcases unsigned_or_signed hx with ⟨hsign, hy⟩ | ⟨hsign, hplain, hy⟩
  · rw [Expr.spelledAlone, hsign]
    exact hnumber hy
  · have hop : run ('-' :: plain (-x)) = _ := run_op .sub (plain (-x))
    rw [Expr.spelledAlone, hsign, hplain, hop, hnumber hy]
    rfl

theorem run_text_end {declared : Option String} {e : Expr} (h : e.Legible declared) :
    run e.text = (e.spelledAlone, []) := by
  cases e with
  | const c => exact run_plain_end h
  | var name | binary op l r | neg e | apply f e =>
    have hrun := run_text h boundary_nil fun _ c hc => nomatch hc
    rw [run_nil, List.append_nil, List.append_nil] at hrun
    exact hrun

def isWordChar (c : Char) : Bool := Token.isNamePart c || c == '.'

theorem isWordChar_plain {x : Float} (hx : Unsigned (unpacked x)) :
    ∀ c ∈ plain x, isWordChar c = true := by
  have hdigit : ∀ c : Char, c.isDigit = true → isWordChar c = true := by
    intro c hc
    rw [isWordChar, isNamePart_of_isDigit hc, Bool.true_or]
  intro c hc
  rw [plain_eq hx] at hc
  rcases List.mem_append.mp hc with hc | hc
  · exact hdigit c (isDigit_whole x c hc)
  · split at hc
    · cases hc
    · rcases List.mem_cons.mp hc with rfl | hc
      · rfl
      · exact hdigit c (isDigit_fraction x c hc)

theorem isWordChar_name {name : String} (h : isIdentifier name = true) :
    ∀ c ∈ name.toList, isWordChar c = true := by
  intro c hc
  rw [isWordChar, isNamePart_of_mem h c hc, Bool.true_or]

theorem ascii_of_isWordChar {c : Char} (h : isWordChar c = true) :
    33 ≤ c.toNat ∧ c.toNat < 128 := by
  simp only [isWordChar, Bool.or_eq_true, isNamePart_iff, beq_iff_eq] at h
  rcases h with (h | h | h | rfl) | rfl
  · omega
  · omega
  · omega
  · decide
  · decide

theorem not_bracket_of_isWordChar {c : Char} (h : isWordChar c = true) :
    isOpening c = false ∧ isClosing c = false :=
  not_bracket_of_class h ⟨rfl, rfl, rfl⟩ ⟨rfl, rfl, rfl⟩

theorem closes_words {cs : List Char} (h : ∀ c ∈ cs, isWordChar c = true)
    (stack rest : List Char) : closes stack (cs ++ rest) = closes stack rest := by
  induction cs with
  | nil => rfl
  | cons c cs ih =>
    obtain ⟨hopen, hclose⟩ := not_bracket_of_isWordChar (h c List.mem_cons_self)
    rw [List.cons_append, closes_skip hopen hclose]
    exact ih fun d hd => h d (List.mem_cons_of_mem c hd)

theorem closes_text {declared : Option String} {e : Expr} (h : e.Legible declared)
    (stack rest : List Char) : closes stack (e.text ++ rest) = closes stack rest := by
  have hlparen : ∀ stack cs, closes stack ('(' :: cs) = closes ('(' :: stack) cs := by
    intro stack cs
    rw [closes.eq_def]
    rfl
  have hrparen : ∀ stack cs, closes ('(' :: stack) (')' :: cs) = closes stack cs := by
    intro stack cs
    rfl
  have hblank : ∀ stack cs, closes stack (' ' :: cs) = closes stack cs :=
    fun _ _ => closes_skip rfl rfl
  have hop : ∀ (op : Operator) stack cs, closes stack (op.symbol :: cs) = closes stack cs := by
    intro op stack cs
    cases op <;> exact closes_skip rfl rfl
  have hminus : ∀ stack cs, closes stack ('-' :: cs) = closes stack cs := hop .sub
  induction e generalizing stack rest with
  | var name => exact closes_words (isWordChar_name h.1) stack rest
  | const c =>
    rcases unsigned_or_signed h with ⟨-, hc⟩ | ⟨-, hplain, hc⟩
    · exact closes_words (isWordChar_plain hc) stack rest
    · rw [Expr.text, hplain, List.cons_append, hminus, closes_words (isWordChar_plain hc)]
  | binary op l r ihl ihr =>
    simp only [Expr.text, List.cons_append, List.append_assoc, List.nil_append]
    rw [hlparen, ihl h.1, hblank, hop, hblank, ihr h.2, hrparen]
  | neg e ih =>
    simp only [Expr.text, List.cons_append, List.append_assoc, List.nil_append]
    rw [hlparen, hminus, ih h, hrparen]
  | apply f e ih =>
    simp only [Expr.text, List.cons_append, List.append_assoc, List.nil_append]
    rw [closes_words (isWordChar_name f.isIdentifier_name), hlparen, ih h, hrparen]

theorem roundBracket_plainSymbol {c : Char} (h : isWordChar c = true) :
    roundBracket (plainSymbol c) = c := by
  obtain ⟨hopen, hclose⟩ := not_bracket_of_isWordChar h
  rw [plainSymbol_of_ascii (ascii_of_isWordChar h).2, roundBracket, hopen, hclose]
  rfl

theorem roundBracket_text {declared : Option String} {e : Expr} (h : e.Legible declared) :
    ∀ c ∈ e.text, roundBracket (plainSymbol c) = c := by
  have hop : ∀ op : Operator, roundBracket (plainSymbol op.symbol) = op.symbol := by
    intro op
    cases op <;> decide
  have hlparen : roundBracket (plainSymbol '(') = '(' := by decide
  have hrparen : roundBracket (plainSymbol ')') = ')' := by decide
  have hblank : roundBracket (plainSymbol ' ') = ' ' := by decide
  have hminus : roundBracket (plainSymbol '-') = '-' := hop .sub
  induction e with
  | var name => exact fun c hc => roundBracket_plainSymbol (isWordChar_name h.1 c hc)
  | const x =>
    rcases unsigned_or_signed h with ⟨-, hx⟩ | ⟨-, hplain, hx⟩
    · exact fun c hc => roundBracket_plainSymbol (isWordChar_plain hx c hc)
    · rw [Expr.text, hplain]
      exact List.forall_mem_cons.mpr
        ⟨hminus, fun c hc => roundBracket_plainSymbol (isWordChar_plain hx c hc)⟩
  | binary op l r ihl ihr =>
    simp only [Expr.text, List.forall_mem_append, List.forall_mem_cons, List.not_mem_nil,
      false_imp_iff, implies_true, and_true, hlparen, hrparen, hblank, hop, true_and]
    exact ⟨ihl h.1, ihr h.2⟩
  | neg e ih =>
    simp only [Expr.text, List.forall_mem_append, List.forall_mem_cons, List.not_mem_nil,
      false_imp_iff, implies_true, and_true, hlparen, hrparen, hminus, true_and]
    exact ih h
  | apply f e ih =>
    simp only [Expr.text, List.forall_mem_append, List.forall_mem_cons, List.not_mem_nil,
      false_imp_iff, implies_true, and_true, hlparen, hrparen, true_and]
    exact ⟨fun c hc => roundBracket_plainSymbol (isWordChar_name f.isIdentifier_name c hc), ih h⟩

theorem all_isBlank_words {cs : List Char} (hne : cs ≠ []) (h : ∀ c ∈ cs, isWordChar c = true)
    (rest : List Char) : (cs ++ rest).all isBlank = false := by
  cases cs with
  | nil => exact absurd rfl hne
  | cons c cs =>
    obtain ⟨hlow, hhigh⟩ := ascii_of_isWordChar (h c List.mem_cons_self)
    rw [List.cons_append, List.all_cons, isBlank_eq_false hlow hhigh, Bool.false_and]

theorem all_isBlank_text {declared : Option String} {e : Expr} (h : e.Legible declared) :
    e.text.all isBlank = false := by
  cases e with
  | var name =>
    have hall := all_isBlank_words (name_ne_nil h.1) (isWordChar_name h.1) []
    rw [List.append_nil] at hall
    exact hall
  | const c =>
    rcases unsigned_or_signed h with ⟨-, hc⟩ | ⟨-, hplain, hc⟩
    · have hall := all_isBlank_words (plain_ne_nil hc) (isWordChar_plain hc) []
      rw [List.append_nil] at hall
      exact hall
    · rw [Expr.text, hplain]
      rfl
  | binary op l r =>
    rfl
  | neg e => rfl
  | apply f e =>
    rw [Expr.text, List.append_assoc]
    exact all_isBlank_words (name_ne_nil f.isIdentifier_name) (isWordChar_name f.isIdentifier_name) _

theorem ofText_text {declared : Option String} {e : Expr} (h : e.Legible declared) :
    ofText e.text = .ok e.spelledAlone := by
  have hplain : (plainSymbols e.text).map roundBracket = e.text := by
    have hid : e.text.map (roundBracket ∘ plainSymbol) = e.text.map id :=
      List.map_congr_left (roundBracket_text h)
    rw [plainSymbols, List.map_map, hid, List.map_id]
  have hbalanced : balanced e.text = true := by
    have hcloses := closes_text h [] []
    rw [List.append_nil] at hcloses
    exact hcloses
  simp only [ofText, hplain, all_isBlank_text h, hbalanced, run_text_end h]
  rfl

end Token

end Univariate
