import Univariate.Proofs.Polynomial.Exact

namespace Univariate

open Decimal Juxtaposition

variable {v : String} {us ts : List Token} {e : Expr} {x : Float} {n : Nat} {t : Term}
  {terms done : List Term} {signed negative : Bool}

namespace Juxtaposition

theorem explicit_cons {a : Token} (h : ∀ b ∈ ts.head?, isProduct a b = false) :
    explicit (a :: ts) = a :: explicit ts := by
  cases ts with
  | nil => rfl
  | cons b ts =>
    rw [explicit, h b rfl]
    rfl

theorem explicit_append (h : ∀ b ∈ us.head?, ∃ o, b = .op o) :
    explicit (ts ++ us) = explicit ts ++ explicit us := by
  have hend : ∀ a, ∀ b ∈ us.head?, isProduct a b = false := by
    intro a b hb
    obtain ⟨o, rfl⟩ := h b hb
    exact isProduct_op a o
  induction ts with
  | nil => rfl
  | cons a ts ih =>
    cases ts with
    | nil => exact explicit_cons (hend a)
    | cons b ts =>
      rw [List.cons_append, List.cons_append, explicit, ← List.cons_append, ih, explicit]
      split <;> rfl

end Juxtaposition

namespace Term

open Univariate.Expr (Denotes)

theorem PowerTokens.derives (h : PowerTokens v us n) :
    ∃ e, Derives (some v) .power us e ∧ Denotes v e [⟨false, 1, n⟩] := by
  have hname : Derives (some v) .primary [.ident v] (.var v) := .name (.free rfl)
  cases h with
  | bare => exact ⟨.var v, hname.ofPrimary, Expr.denotes_var v⟩
  | @raised ds hle =>
    have hexponent : Derives (some v) .primary [.number (Literal.decimal ds [])] _ := .number _
    have hpower : Derives (some v) Operator.pow.whole _ _ := .binary hname hexponent.ofPrimary.ofPower
    exact ⟨_, hpower, Expr.denotes_pow v hle⟩

theorem PowerTokens.explicit_eq (h : PowerTokens v us n) : explicit us = us := by
  cases h <;> rfl

theorem PowerTokens.explicit_product (h : PowerTokens v us n) (x : Float) :
    explicit (.number x :: us) = .number x :: .op .mul :: us := by
  cases h <;> rfl

theorem PowerTokens.explicit_starred (h : PowerTokens v us n) (x : Float) :
    explicit (.number x :: .op .mul :: us) = .number x :: .op .mul :: us := by
  cases h <;> rfl

def Signs (v : String) (ss : List Token) (negative : Bool) : Prop :=
  ∀ us e, Derives (some v) .signed us e → ∃ e', Derives (some v) .signed (ss ++ us) e' ∧
    ∀ x n, Denotes v e [⟨false, x, n⟩] → Denotes v e' [⟨negative, x, n⟩]

theorem signs_nil (v : String) : Signs v [] false :=
  fun _ e h => ⟨e, h, fun _ _ => id⟩

theorem signs_plus (v : String) : Signs v [.op .add] false :=
  fun _ e h => ⟨e, h.plus, fun _ _ => id⟩

theorem signs_minus (v : String) : Signs v [.op .sub] true :=
  fun _ e h => ⟨.neg e, h.minus, fun _ _ h' => h'.neg rfl⟩

theorem FactorTokens.derives {ss : List Token} (h : FactorTokens v us x n)
    (hs : Signs v ss negative) :
    ∃ e, Derives (some v) .product (ss ++ explicit us) e ∧ Denotes v e [⟨negative, x, n⟩] := by
  have hnumber : ∀ x, ∃ e, Derives (some v) .signed (ss ++ [.number x]) e ∧
      Denotes v e [⟨negative, x, 0⟩] := by
    intro x
    obtain ⟨e, he, hdenotes⟩ := hs _ _ (Derives.number x).ofPrimary.ofPower
    exact ⟨e, he, hdenotes x 0 (Expr.denotes_const v x)⟩
  -- A number before a power is the left operand of a star, written or put in.
  have hproduct : ∀ {x n us}, PowerTokens v us n →
      ∃ e, Derives (some v) .product (ss ++ .number x :: .op .mul :: us) e ∧
        Denotes v e [⟨negative, x, n⟩] := by
    intro x n us hpower
    obtain ⟨l, hl, hx⟩ := hnumber x
    obtain ⟨r, hr, hn⟩ := hpower.derives
    have hbinary : Derives (some v) Operator.mul.whole _ _ := .binary hl.ofSigned hr.ofPower
    rw [List.append_assoc] at hbinary
    exact ⟨_, hbinary, hx.mul rfl hn⟩
  cases h with
  | number x =>
    obtain ⟨e, he, hdenotes⟩ := hnumber x
    exact ⟨e, he.ofSigned, hdenotes⟩
  | power hpower =>
    obtain ⟨e, he, hdenotes⟩ := hpower.derives
    obtain ⟨e', he', hsigned⟩ := hs _ _ he.ofPower
    rw [hpower.explicit_eq]
    exact ⟨e', he'.ofSigned, hsigned _ _ hdenotes⟩
  | product x hpower =>
    rw [hpower.explicit_product]
    exact hproduct hpower
  | starred x hpower =>
    rw [hpower.explicit_starred]
    exact hproduct hpower

theorem SumTokens.head? (h : SumTokens v true ts terms) : ∀ b ∈ ts.head?, ∃ o, b = .op o := by
  cases h with
  | nil => exact fun b hb => nomatch hb
  | cons h _ =>
    intro b hb
    cases h with
    | unsigned hfalse => cases hfalse
    | plus | minus =>
      cases hb
      exact ⟨_, rfl⟩

theorem explicit_op (o : Operator) (ts : List Token) :
    explicit (.op o :: ts) = .op o :: explicit ts :=
  explicit_cons fun _ _ => rfl

theorem TermTokens.derives_after (h : TermTokens v true us t) (he : Derives (some v) .sum ts e)
    (hdone : Denotes v e done) :
    ∃ e', Derives (some v) .sum (ts ++ explicit us) e' ∧ Denotes v e' (done ++ [t]) := by
  cases h with
  | unsigned hfalse => cases hfalse
  | plus h =>
    obtain ⟨r, hr, hterm⟩ := h.derives (signs_nil v)
    rw [explicit_op]
    have hsum : Derives (some v) Operator.add.whole _ _ := he.binary hr
    exact ⟨_, hsum, hdone.add hterm⟩
  | minus h =>
    obtain ⟨r, hr, hterm⟩ := h.derives (signs_nil v)
    rw [explicit_op]
    have hsum : Derives (some v) Operator.sub.whole _ _ := he.binary hr
    exact ⟨_, hsum, hdone.sub hterm rfl⟩

theorem TermTokens.derives (h : TermTokens v signed us t) :
    ∃ e, Derives (some v) .sum (explicit us) e ∧ Denotes v e [t] := by
  cases h with
  | unsigned _ h =>
    obtain ⟨e, he, hterm⟩ := h.derives (signs_nil v)
    exact ⟨e, he.ofProduct, hterm⟩
  | plus h =>
    obtain ⟨e, he, hterm⟩ := h.derives (signs_plus v)
    rw [explicit_op]
    exact ⟨e, he.ofProduct, hterm⟩
  | minus h =>
    obtain ⟨e, he, hterm⟩ := h.derives (signs_minus v)
    rw [explicit_op]
    exact ⟨e, he.ofProduct, hterm⟩

theorem SumTokens.derives_after (h : SumTokens v signed us terms) (hsigned : signed = true)
    (he : Derives (some v) .sum ts e) (hdone : Denotes v e done) :
    ∃ e', Derives (some v) .sum (ts ++ explicit us) e' ∧ Denotes v e' (done ++ terms) := by
  induction h generalizing ts e done with
  | nil =>
    have hnil : explicit [] = [] := rfl
    rw [hnil, List.append_nil, List.append_nil]
    exact ⟨e, he, hdone⟩
  | @cons signed us ts' t terms hterm hrest ih =>
    subst hsigned
    obtain ⟨e₁, he₁, hdone₁⟩ := hterm.derives_after he hdone
    obtain ⟨e₂, he₂, hdone₂⟩ := ih rfl he₁ hdone₁
    rw [explicit_append hrest.head?, ← List.append_assoc]
    rw [List.append_assoc] at hdone₂
    exact ⟨e₂, he₂, hdone₂⟩

theorem SumTokens.derives (h : SumTokens v signed us terms) (hne : terms ≠ []) :
    ∃ e, Derives (some v) .sum (explicit us) e ∧ Denotes v e terms := by
  cases h with
  | nil => exact absurd rfl hne
  | cons hterm hrest =>
    obtain ⟨e, he, hdenotes⟩ := hterm.derives
    rw [explicit_append hrest.head?]
    exact hrest.derives_after rfl he hdenotes

theorem PowerTokens.name_eq (h : PowerTokens v us n) {name : String} (hmem : .ident name ∈ us) :
    name = v := by
  cases h with
  | bare | raised => simpa using hmem

theorem FactorTokens.name_eq (h : FactorTokens v us x n) {name : String} (hmem : .ident name ∈ us) :
    name = v := by
  cases h with
  | number => simp at hmem
  | power h => exact h.name_eq hmem
  | product _ h | starred _ h => exact h.name_eq (by simpa using hmem)

theorem TermTokens.name_eq (h : TermTokens v signed us t) {name : String}
    (hmem : .ident name ∈ us) : name = v := by
  cases h with
  | unsigned _ h => exact h.name_eq hmem
  | plus h | minus h => exact h.name_eq (by simpa using hmem)

theorem SumTokens.name_eq (h : SumTokens v signed us terms) {name : String}
    (hmem : .ident name ∈ us) : name = v := by
  induction h with
  | nil => cases hmem
  | cons hterm _ ih =>
    rcases List.mem_append.mp hmem with hmem | hmem
    · exact hterm.name_eq hmem
    · exact ih hmem

theorem SumTokens.prepare (h : SumTokens v signed us terms) :
    Token.prepare (some v) us = explicit us := by
  have hsplit : FusedName.splitAll v us = us := by
    apply FusedName.splitAll_eq
    intro name hname
    rw [h.name_eq hname, FusedName.isMeaningful, beq_self_eq_true, Bool.true_or, Bool.true_or]
  rw [Token.prepare]
  simp only [hsplit]

end Term

end Univariate
