import Univariate.Proofs.Expr.ExactValue
import Univariate.Proofs.Expr.Variables
import Univariate.Proofs.Expr.Vocabulary

namespace Univariate.Expr

open Decimal Double

variable {v : String} {a c : Float} {e p l r : Expr} {text : List Char}

section Substitute

theorem substitute_eq_pow_const (h : p.substitute v a = .binary .pow (.const c) r) :
    ∃ l r', p = .binary .pow l r' ∧ l.substitute v a = .const c ∧ r'.substitute v a = r := by
  cases p with
  | binary op l r' =>
    obtain ⟨rfl, hl, hr⟩ := Expr.binary.inj h
    exact ⟨l, r', rfl, hl, hr⟩
  | var n =>
    rw [substitute] at h
    split at h <;> cases h
  | const x | neg e | apply f e => cases h

theorem substitute_eq_const (h : l.substitute v a = .const c) :
    l = .var v ∧ c = a ∨ l = .const c := by
  cases l with
  | var n =>
    rw [substitute] at h
    split at h
    · rename_i hn
      cases h
      exact .inl ⟨congrArg Expr.var hn, rfl⟩
    · cases h
  | const x => exact .inr h
  | binary op l r | neg e | apply f e => cases h

theorem Part.substitute (h : Part p e) : Part (p.substitute v a) (e.substitute v a) := by
  induction h with
  | whole => exact .whole _
  | left _ ih => exact .left ih
  | right _ ih => exact .right ih
  | neg _ ih => exact .neg ih
  | argument _ ih => exact .argument ih

theorem part_substitute_iff :
    Part p (e.substitute v a) ↔ ∃ q, Part q e ∧ p = q.substitute v a := by
  constructor
  · intro h
    induction e with
    | var n =>
      refine ⟨.var n, .whole _, ?_⟩
      rw [Expr.substitute] at h ⊢
      split at h
      all_goals
        rename_i hn
        cases h
        simp [hn]
    | const x =>
      cases h
      exact ⟨.const x, .whole _, rfl⟩
    | binary op l r ihl ihr =>
      cases h with
      | whole => exact ⟨_, .whole _, rfl⟩
      | left h =>
        obtain ⟨q, hq, rfl⟩ := ihl h
        exact ⟨q, .left hq, rfl⟩
      | right h =>
        obtain ⟨q, hq, rfl⟩ := ihr h
        exact ⟨q, .right hq, rfl⟩
    | neg e ih =>
      cases h with
      | whole => exact ⟨_, .whole _, rfl⟩
      | neg h =>
        obtain ⟨q, hq, rfl⟩ := ih h
        exact ⟨q, .neg hq, rfl⟩
    | apply f e ih =>
      cases h with
      | whole => exact ⟨_, .whole _, rfl⟩
      | argument h =>
        obtain ⟨q, hq, rfl⟩ := ih h
        exact ⟨q, .argument hq, rfl⟩
  · rintro ⟨q, hq, rfl⟩
    exact hq.substitute

theorem constants_substitute (ha : a.isFinite = true)
    (hfinite : ∀ c ∈ e.constants, c.isFinite = true) :
    ∀ c ∈ (e.substitute v a).constants, c.isFinite = true := by
  induction e with
  | var n =>
    rw [substitute]
    split
    · exact List.forall_mem_singleton.mpr ha
    · exact List.forall_mem_nil _
  | const x => exact hfinite
  | binary op l r ihl ihr =>
    rw [constants, List.forall_mem_append] at hfinite
    rw [substitute, constants, List.forall_mem_append]
    exact ⟨ihl hfinite.1, ihr hfinite.2⟩
  | neg e ih | apply f e ih => exact ih hfinite

theorem mentions_substitute (hnames : ∀ name, e.mentions name = true → name = v) (name : String) :
    (e.substitute v a).mentions name = false := by
  rw [Bool.eq_false_iff]
  intro h
  obtain ⟨hne, hname⟩ := mentions_substitute_iff.mp h
  exact hne (hnames name hname)

end Substitute

theorem legible_of_closed {declared : Option String} (hnames : ∀ name, e.mentions name = false)
    (hfinite : ∀ c ∈ e.constants, c.isFinite = true) : e.Legible declared := by
  induction e with
  | var n =>
    have hn := hnames n
    rw [mentions, beq_self_eq_true] at hn
    cases hn
  | const x => exact hfinite x List.mem_cons_self
  | binary op l r ihl ihr =>
    simp only [mentions, Bool.or_eq_false_iff, forall_and] at hnames
    rw [constants, List.forall_mem_append] at hfinite
    exact ⟨ihl hnames.1 hfinite.1, ihr hnames.2 hfinite.2⟩
  | neg e ih | apply f e ih => exact ih hnames hfinite

theorem signsPass_substitute_iff (names : String → ℝ)
    (hsigns : ∀ c ∈ e.constants, signBit c = false) :
    SignsPass names (e.substitute v a) ↔ (signBit a = true → ∀ r, Part (.binary .pow (.var v) r) e →
      SignPasses (value a) ((r.substitute v a).exact names)) := by
  constructor
  · intro h ha r hpow
    have hpart := hpow.substitute (v := v) (a := a)
    rw [substitute, substitute, if_pos rfl] at hpart
    exact h a _ hpart ha
  · intro h c r hpow hsign
    obtain ⟨q, hq, heq⟩ := part_substitute_iff.mp hpow
    obtain ⟨l, r', rfl, hl, rfl⟩ := substitute_eq_pow_const heq.symm
    rcases substitute_eq_const hl with ⟨rfl, rfl⟩ | rfl
    · exact h hsign r' hq
    · have hunsigned := hsigns c (hq.constants c (List.mem_append_left _ List.mem_cons_self))
      rw [hsign] at hunsigned
      cases hunsigned

/-- The text of an expression with a number put in for its variable is read again, and every part
of it keeps its exact value if and only if the powers of a negative number take over its sign. A
number that stands alone keeps its value if and only if it has no fraction. -/
theorem substitute_reads_back (names : String → ℝ) (ha : a.isFinite = true)
    (he : parse (some v) text = .ok e) (hfinite : ∀ c ∈ e.constants, c.isFinite = true) :
    ∃ e', parse none (e.substitute v a).text = .ok e' ∧
      (∀ c, e.substitute v a = .const c →
        (e'.exact names = (e.substitute v a).exact names ↔ ∃ n : Nat, |value c| = n)) ∧
      ((∀ c, e.substitute v a ≠ .const c) →
        e' = (e.substitute v a).reread ∧
        ((∀ p, Part p (e.substitute v a) → p.reread.exact names = p.exact names) ↔
          (signBit a = true → ∀ r, Part (.binary .pow (.var v) r) e →
            SignPasses (value a) ((r.substitute v a).exact names)))) := by
  have hnames : ∀ name, e.mentions name = true → name = v := by
    intro name hname
    cases resolves_of_parse he hname with
    | free hv => exact (Option.some.inj hv).symm
    | undeclared hnone => cases hnone
  have hconstants := constants_substitute (v := v) ha hfinite
  have hlegible : (e.substitute v a).Legible none :=
    legible_of_closed (mentions_substitute hnames) hconstants
  refine ⟨_, parse_legible hlegible, ?_, ?_⟩
  · intro c hc
    rw [hc] at hconstants ⊢
    exact exact_rereadAlone_const names (hconstants c List.mem_cons_self)
  · intro hne
    constructor
    · cases hs : e.substitute v a with
      | const c => exact absurd hs (hne c)
      | var name | binary op l r | neg e | apply f e => rfl
    · rw [← signsPass_substitute_iff names fun c hc => signBit_of_parse he hc]
      exact exact_reread_iff hconstants

section Powers

variable {d : Char}

theorem parse_power (hd : d = '2' ∨ d = '3') :
    parse (some "x") ['x', '^', d] =
      .ok (.binary .pow (.var "x") (.const (Literal.decimal [d] []))) := by
  have hrounded : Token.rounded ['x', '^', d] = ['x', '^', d] := by
    rcases hd with rfl | rfl <;> rfl
  have hrun : Token.run ['x', '^', d] =
      ([.ident "x", .op .pow, .number (Literal.decimal [d] [])], []) := by
    rcases hd with rfl | rfl
    all_goals
      exact Token.run_eq_cons rfl rfl <| Token.run_eq_cons rfl rfl <|
        Token.run_eq_cons rfl rfl Token.run_nil
  have hblank : ['x', '^', d].all Text.isBlank = false := by
    rcases hd with rfl | rfl <;> rfl
  have hbalanced : Text.balanced ['x', '^', d] = true := by
    rcases hd with rfl | rfl <;> rfl
  rw [parse, Token.ofText_of_run hrounded hrun hblank hbalanced rfl]
  rfl

theorem value_lt_power (hd : d = '2' ∨ d = '3') : Literal.value [d] < 2 ^ 53 := by
  rcases hd with rfl | rfl <;> decide

theorem isFinite_power (hd : d = '2' ∨ d = '3') :
    ∀ c ∈ (binary .pow (.var "x") (.const (Literal.decimal [d] []))).constants,
      c.isFinite = true :=
  List.forall_mem_singleton.mpr (unsigned_iff.mp (unsigned_decimal (value_lt_power hd))).1

theorem minus_three : (-Literal.decimal ['3'] []).isFinite = true ∧
    signBit (-Literal.decimal ['3'] []) = true ∧ value (-Literal.decimal ['3'] []) = -3 := by
  have hlt : Literal.value ['3'] < 2 ^ 53 := value_lt_power (.inr rfl)
  refine ⟨isFinite_neg.trans (unsigned_iff.mp (unsigned_decimal hlt)).1,
    signBit_neg_of_unsigned (unsigned_decimal hlt), ?_⟩
  rw [value_neg, value_decimal_natural hlt]
  rfl

theorem substitute_reads_back_cube :
    parse (some "x") ['x', '^', '3'] =
      .ok (.binary .pow (.var "x") (.const (Literal.decimal ['3'] []))) ∧
    ∃ e', parse none (substitute "x" (-Literal.decimal ['3'] [])
        (.binary .pow (.var "x") (.const (Literal.decimal ['3'] [])))).text = .ok e' ∧
      e'.exact (fun _ => 0) = (substitute "x" (-Literal.decimal ['3'] [])
        (.binary .pow (.var "x") (.const (Literal.decimal ['3'] [])))).exact (fun _ => 0) := by
  obtain ⟨ha, -, hvalue⟩ := minus_three
  have hparse := parse_power (.inr rfl)
  obtain ⟨e', he', -, hvalues⟩ :=
    substitute_reads_back (fun _ => 0) ha hparse (isFinite_power (.inr rfl))
  obtain ⟨rfl, hiff⟩ := hvalues fun c hc => nomatch hc
  refine ⟨hparse, _, he', hiff.mpr ?_ _ (.whole _)⟩
  intro _ r hpart
  have hr : r = .const (Literal.decimal ['3'] []) := by
    cases hpart with
    | whole => rfl
    | left h => cases h
    | right h => cases h
  have hthree : value (Literal.decimal ['3'] []) = 3 := by
    rw [value_decimal_natural (value_lt_power (.inr rfl))]
    rfl
  rw [hr, substitute, exact_const, hvalue, hthree, SignPasses, if_neg (by norm_num)]
  exact ⟨1, by norm_num⟩

/-- `x^2` at `-3` is written `(-3 ^ 2)` and read as the opposite of the square. -/
theorem not_substitute_reads_back : ¬ ∀ (text : List Char) (v : String) (a : Float) (e : Expr),
    Token.isIdentifier v = true → a.isFinite = true → parse (some v) text = .ok e →
    (∀ c ∈ e.constants, c.isFinite = true) →
    ∃ e', parse none (e.substitute v a).text = .ok e' ∧
      ∀ names : String → ℝ, e'.exact names = (e.substitute v a).exact names := by
  intro h
  obtain ⟨ha, hsign, hminus⟩ := minus_three
  have hfinite := isFinite_power (.inl rfl)
  obtain ⟨e', he', hvalue⟩ := h _ "x" _ _ (by decide) ha (parse_power (.inl rfl)) hfinite
  have hlegible : (substitute "x" (-Literal.decimal ['3'] [])
      (.binary .pow (.var "x") (.const (Literal.decimal ['2'] [])))).Legible none :=
    legible_of_closed
      (mentions_substitute fun n hn => (show "x" = n by simpa [mentions] using hn).symm)
      (constants_substitute ha hfinite)
  cases (parse_legible hlegible).symm.trans he'
  have htwo : value (Literal.decimal ['2'] []) = 2 := by
    rw [value_decimal_natural (value_lt_power (.inl rfl))]
    rfl
  have hpow := hvalue fun _ => 0
  change (reread (.binary .pow (.const (-Literal.decimal ['3'] []))
      (.const (Literal.decimal ['2'] [])))).exact _ =
    (binary .pow (.const (-Literal.decimal ['3'] []))
      (.const (Literal.decimal ['2'] []))).exact _ at hpow
  rw [exact_reread_signed_pow hsign, exact_pow, exact_reread_const, exact_const, exact_const,
    neg_rpow_value_iff (value_nonpos_of_signBit ha hsign), htwo, hminus, SignPasses,
    if_neg (by norm_num)] at hpow
  obtain ⟨k, hk⟩ := hpow
  have hk' : (2 : ℤ) = 2 * k + 1 := by exact_mod_cast hk
  omega

end Powers

end Univariate.Expr
