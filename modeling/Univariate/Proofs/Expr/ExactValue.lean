import Univariate.Proofs.Exact.Real
import Univariate.Proofs.Expr.RoundTrip
import Univariate.Proofs.Polynomial.Exact

namespace Univariate.Expr

open Decimal Double

noncomputable def exact (names : String → ℝ) (e : Expr) : ℝ :=
  e.eval (fun c => (value c : ℝ)) names

inductive Part : Expr → Expr → Prop
  | whole (e : Expr) : Part e e
  | left {p l r : Expr} {op : Operator} : Part p l → Part p (.binary op l r)
  | right {p l r : Expr} {op : Operator} : Part p r → Part p (.binary op l r)
  | neg {p e : Expr} : Part p e → Part p (.neg e)
  | argument {p e : Expr} {f : Function} : Part p e → Part p (.apply f e)

variable {names : String → ℝ} {p q e l r : Expr} {c : Float}

theorem Part.trans (h : Part p q) (h' : Part q e) : Part p e := by
  induction h' with
  | whole => exact h
  | left _ ih => exact .left ih
  | right _ ih => exact .right ih
  | neg _ ih => exact .neg ih
  | argument _ ih => exact .argument ih

theorem Part.constants (h : Part p e) : ∀ c ∈ p.constants, c ∈ e.constants := by
  induction h with
  | whole => exact fun _ hc => hc
  | left _ ih => exact fun c hc => List.mem_append_left _ (ih c hc)
  | right _ ih => exact fun c hc => List.mem_append_right _ (ih c hc)
  | neg _ ih | argument _ ih => exact ih

section Values

theorem value_of_integerExponent? {n : Int} (h : r.integerExponent? = some n) :
    r.exact names = n := by
  cases r with
  | const c =>
    obtain ⟨hn, -⟩ := Option.filter_eq_some_iff.mp h
    have hvalue := value_of_integer? hn
    simp only [exact, eval, hvalue, Rat.cast_intCast]
  | var name | binary op l r | neg e | apply f e => cases h

theorem exact_pow (names : String → ℝ) (l r : Expr) :
    (binary .pow l r).exact names = l.exact names ^ r.exact names := by
  cases h : r.integerExponent? with
  | none =>
    simp only [exact, eval, h]
    rfl
  | some n =>
    rw [value_of_integerExponent? h, Real.rpow_intCast, ← integerPower_eq_zpow]
    exact eval_pow_of_integer h

theorem exact_const (names : String → ℝ) (c : Float) : (const c).exact names = value c := rfl

theorem exact_neg (names : String → ℝ) (e : Expr) : (neg e).exact names = -e.exact names := rfl

theorem exact_apply (names : String → ℝ) (f : Function) (e : Expr) :
    (apply f e).exact names = f.eval (e.exact names) := rfl

theorem exact_binary_congr {op : Operator} {l' r' : Expr} (hl : l'.exact names = l.exact names)
    (hr : r'.exact names = r.exact names) :
    (binary op l' r').exact names = (binary op l r).exact names := by
  cases op with
  | pow => rw [exact_pow, exact_pow, hl, hr]
  | add | sub | mul | div =>
    unfold exact at hl hr
    simp only [exact, eval, hl, hr]

theorem exact_reread_const (names : String → ℝ) (c : Float) :
    (const c).reread.exact names = (const c).exact names := by
  cases hsign : signBit c with
  | false => rw [reread_unsigned hsign]
  | true =>
    rw [reread_signed hsign, exact_neg, exact_const, exact_const, value_neg]
    push_cast
    ring

theorem exact_reread_signed_pow (hsign : signBit c = true) :
    (binary .pow (.const c) r).reread.exact names =
      -((-(value c : ℝ)) ^ r.reread.exact names) := by
  rw [reread_signed_pow hsign, exact_neg, exact_pow, exact_const, value_neg]
  push_cast
  rfl

end Values

/-- Whether every power of a constant with a sign takes over the sign. -/
def SignsPass (names : String → ℝ) (e : Expr) : Prop :=
  ∀ c r, Part (.binary .pow (.const c) r) e → signBit c = true →
    SignPasses (value c) (r.exact names)

theorem SignsPass.of_part (h : SignsPass names e) (hp : Part p e) : SignsPass names p :=
  fun c r hpow => h c r (hpow.trans hp)

theorem neg_rpow_value_iff (hc : value c ≤ 0) (y : ℝ) :
    -((-(value c : ℝ)) ^ y) = (value c : ℝ) ^ y ↔ SignPasses (value c) y := by
  have hc' : (value c : ℝ) ≤ 0 := by exact_mod_cast hc
  have h := neg_rpow_iff (y := y) (neg_nonneg.mpr hc')
  rw [neg_neg] at h
  rw [← h]
  exact eq_comm

theorem exact_reread {e : Expr} (hfinite : ∀ c ∈ e.constants, c.isFinite = true)
    (h : SignsPass names e) : e.reread.exact names = e.exact names := by
  induction e with
  | var name => rfl
  | const c => exact exact_reread_const names c
  | binary op l r ihl ihr =>
    have hl := ihl (fun c hc => hfinite c (List.mem_append_left _ hc)) (h.of_part (.left (.whole l)))
    have hr := ihr (fun c hc => hfinite c (List.mem_append_right _ hc))
      (h.of_part (.right (.whole r)))
    by_cases hbase : op = .pow → l.isSigned = false
    · rw [reread_binary hbase]
      exact exact_binary_congr hl hr
    · obtain ⟨rfl, hsigned⟩ : op = .pow ∧ l.isSigned = true := by simpa using hbase
      cases l with
      | const c =>
        have hc := value_nonpos_of_signBit (hfinite c List.mem_cons_self) hsigned
        rw [exact_reread_signed_pow hsigned, exact_pow, exact_const, hr]
        exact (neg_rpow_value_iff hc _).mpr (h c r (.whole _) hsigned)
      | var name | binary op l r | neg e | apply f e => cases hsigned
  | neg e ih => rw [reread, exact_neg, exact_neg, ih hfinite (h.of_part (.neg (.whole e)))]
  | apply f e ih =>
    rw [reread, exact_apply, exact_apply, ih hfinite (h.of_part (.argument (.whole e)))]

theorem exact_reread_iff (hfinite : ∀ c ∈ e.constants, c.isFinite = true) :
    (∀ p, Part p e → p.reread.exact names = p.exact names) ↔ SignsPass names e := by
  constructor
  · intro h c r hpow hsign
    have hc := value_nonpos_of_signBit
      (hfinite c (hpow.constants c (List.mem_append_left _ List.mem_cons_self))) hsign
    have hr := h r ((Part.right (.whole r)).trans hpow)
    have hvalue := h _ hpow
    rw [exact_reread_signed_pow hsign, exact_pow, exact_const, hr] at hvalue
    exact (neg_rpow_value_iff hc _).mp hvalue
  · intro h p hp
    exact exact_reread (fun c hc => hfinite c (hp.constants c hc)) (h.of_part hp)

section Alone

theorem value_readAtEnd_iff (hc : Unsigned (unpacked c)) :
    value (Token.readAtEnd c) = value c ↔ ∃ n : Nat, value c = n := by
  constructor
  · intro h
    by_contra hnatural
    rw [Token.readAtEnd, value_decimal_natural (value_whole_lt hc hnatural)] at h
    exact hnatural ⟨_, h.symm⟩
  · intro h
    rw [Token.readAtEnd, (decimal_whole_eq_iff hc).mpr h]

theorem exact_rereadAlone_const (names : String → ℝ) (hc : c.isFinite = true) :
    (const c).rereadAlone.exact names = (const c).exact names ↔ ∃ n : Nat, |value c| = n := by
  cases hsign : signBit c with
  | false =>
    have hunsigned := unsigned_iff.mpr ⟨hc, hsign⟩
    rw [rereadAlone, hsign, abs_of_nonneg (value_nonneg_of_unsigned hunsigned),
      ← value_readAtEnd_iff hunsigned, if_neg (by decide), exact_const, exact_const, Rat.cast_inj]
  | true =>
    have hunsigned := (signBit_eq_true_iff hc).mp hsign
    have hvalue : value c = -value (-c) := by rw [value_neg, neg_neg]
    rw [rereadAlone, hsign, if_pos rfl, abs_of_nonpos (value_nonpos_of_signBit hc hsign),
      ← value_neg, ← value_readAtEnd_iff hunsigned, exact_neg, exact_const, exact_const, hvalue,
      Rat.cast_neg, neg_inj, Rat.cast_inj]

end Alone

end Univariate.Expr
