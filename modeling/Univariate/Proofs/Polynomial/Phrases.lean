import Univariate.Proofs.Expr.Lexemes
import Univariate.Proofs.Expr.Neighbours
import Univariate.Proofs.Polynomial.Language

namespace Univariate

open Decimal Text

namespace Token

variable {w cs ds fs : List Char} {c : Char} {x : Float} {t : Token} {ts : List Token}
  {ended : Prop}

def isNumeralChar (c : Char) : Bool := c.isDigit || c == '.'

theorem isNumeralChar_of_digits (hds : Term.AllDigits ds) :
    ∀ c ∈ ds, isNumeralChar c = true := by
  intro c hc
  rw [isNumeralChar, hds c hc, Bool.true_or]

theorem isNumeralChar_of_pointed (hds : Term.AllDigits ds) (hfs : Term.AllDigits fs) :
    ∀ c ∈ ds ++ '.' :: fs, isNumeralChar c = true := by
  rw [List.forall_mem_append, List.forall_mem_cons]
  exact ⟨isNumeralChar_of_digits hds, rfl, isNumeralChar_of_digits hfs⟩

theorem isNumeralChar_of_numeral (h : Term.Numeral w x) : ∀ c ∈ w, isNumeralChar c = true := by
  cases h with
  | whole _ hds => exact isNumeralChar_of_digits hds
  | pointed hds hfs => exact isNumeralChar_of_pointed hds hfs

theorem isNumeralChar_of_class {p : Char → Bool} (hc : p c = true) (hpoint : p '.' = false)
    (hdigit : c.isDigit = false) : isNumeralChar c = false := by
  rw [isNumeralChar, hdigit, beq_eq_false_of_class hc hpoint]
  rfl

theorem isNumeralChar_of_isNameStart (h : isNameStart c = true) : isNumeralChar c = false :=
  isNumeralChar_of_class h rfl (isDigit_of_isNameStart h)

theorem not_special_of_symbol (h : ofSymbol? c = some t) :
    isNumeralChar c = false ∧ isNameStart c = false := by
  unfold ofSymbol? at h
  split at h
  all_goals first | exact ⟨rfl, rfl⟩ | cases h

theorem Spells.front_number (h : Spells ended ts (c :: cs)) (hc : isNumeralChar c = true) :
    ∃ x ts', ts = .number x :: ts' := by
  generalize hds : c :: cs = ds at h
  cases h with
  | nil => cases hds
  | number => exact ⟨_, _, rfl⟩
  | name hstart =>
    cases hds
    rw [isNumeralChar_of_isNameStart hstart] at hc
    cases hc
  | symbol ht =>
    cases hds
    rw [(not_special_of_symbol ht).1] at hc
    cases hc

theorem Spells.number_inv (h : Spells ended ts (w ++ cs)) (hw : Term.Numeral w x)
    (hcs : ∀ c ∈ cs.head?, isNumeralChar c = false) (hts : Separate ts) :
    ∃ y ts', ts = .number y :: ts' ∧ Lexed (ended ∧ cs = []) w x y 0 ∧ Spells ended ts' cs := by
  obtain ⟨d, u, hcons, -⟩ := hw.head
  have hd : isNumeralChar d = true := isNumeralChar_of_numeral hw d (by simp [hcons])
  generalize hds : w ++ cs = ds at h
  cases h with
  | nil => simp [hcons] at hds
  | @number w' cs' x' y ts' hw' hlexed hspells =>
    -- No number follows this one, so both words are what the text has of number characters.
    have hcs' : ∀ c ∈ cs'.head?, isNumeralChar c = false := by
      intro c hc
      cases cs' with
      | nil => cases hc
      | cons c' cs' =>
        cases hc
        rw [Bool.eq_false_iff]
        intro hnumeral
        obtain ⟨z, ts'', rfl⟩ := hspells.front_number hnumeral
        have hclash : clash (.number y) (.number z) = false := hts.rel_head? rfl
        cases hclash
    have hwords : w = w' := by
      rw [← takeWhile_append_stop (isNumeralChar_of_numeral hw) hcs, hds,
        takeWhile_append_stop (isNumeralChar_of_numeral hw') hcs']
    subst hwords
    rw [List.append_cancel_left_eq] at hds
    subst hds
    have hx : x = x' := (numeral_eq_decimal hw).trans (numeral_eq_decimal hw').symm
    rw [hx]
    exact ⟨y, ts', rfl, hlexed, hspells⟩
  | name hstart =>
    rw [hcons, List.cons_append, List.cons_append, List.cons.injEq] at hds
    rw [hds.1, isNumeralChar_of_isNameStart hstart] at hd
    cases hd
  | symbol ht =>
    rw [hcons, List.cons_append, List.cons.injEq] at hds
    rw [hds.1, (not_special_of_symbol ht).1] at hd
    cases hd

theorem Spells.symbol_inv (h : Spells ended ts (c :: cs)) (hc : ofSymbol? c = some t) :
    ∃ ts', ts = t :: ts' ∧ Spells ended ts' cs := by
  obtain ⟨hnumeral, hname⟩ := not_special_of_symbol hc
  generalize hds : c :: cs = ds at h
  cases h with
  | nil => cases hds
  | @number w cs' x y ts' hw =>
    obtain ⟨d, u, rfl, -⟩ := hw.head
    cases hds
    rw [isNumeralChar_of_numeral hw c List.mem_cons_self] at hnumeral
    cases hnumeral
  | name hstart =>
    cases hds
    rw [hstart] at hname
    cases hname
  | symbol ht hspells =>
    cases hds
    rw [hc] at ht
    cases ht
    exact ⟨_, rfl, hspells⟩

theorem Spells.letter_inv {v : Char} (h : Spells ended ts (v :: cs)) (hv : v.isAlpha = true)
    (hcs : ∀ c ∈ cs.head?, isNamePart c = false) :
    ∃ ts', ts = .ident (String.singleton v) :: ts' ∧ Spells ended ts' cs := by
  have hstart : isNameStart v = true := by rw [isNameStart, hv, Bool.true_or]
  generalize hds : v :: cs = ds at h
  cases h with
  | nil => cases hds
  | @number w cs' x y ts' hw =>
    obtain ⟨d, u, rfl, -⟩ := hw.head
    cases hds
    have hnumeral := isNumeralChar_of_numeral hw v List.mem_cons_self
    rw [isNumeralChar_of_isNameStart hstart] at hnumeral
    cases hnumeral
  | @name c w cs' ts' _ hw hspells =>
    rw [List.cons_append, List.cons.injEq] at hds
    obtain ⟨rfl, rfl⟩ := hds
    cases w with
    | nil => exact ⟨ts', rfl, hspells⟩
    | cons d w =>
      have hd := hcs d rfl
      rw [hw d List.mem_cons_self] at hd
      cases hd
  | symbol ht =>
    cases hds
    rw [(not_special_of_symbol ht).2] at hstart
    cases hstart

end Token

namespace Term

open Univariate.Token

inductive PowerTokens (v : String) : List Token → Nat → Prop
  | bare : PowerTokens v [.ident v] 1
  | raised {ds : List Char} : Literal.value ds ≤ maxPower →
      PowerTokens v [.ident v, .op .pow, .number (Literal.decimal ds [])] (Literal.value ds)

inductive FactorTokens (v : String) : List Token → Float → Nat → Prop
  | number (x : Float) : FactorTokens v [.number x] x 0
  | power {us : List Token} {n : Nat} : PowerTokens v us n → FactorTokens v us 1 n
  | product (x : Float) {us : List Token} {n : Nat} : PowerTokens v us n →
      FactorTokens v (.number x :: us) x n
  | starred (x : Float) {us : List Token} {n : Nat} : PowerTokens v us n →
      FactorTokens v (.number x :: .op .mul :: us) x n

inductive TermTokens (v : String) (signed : Bool) : List Token → Term → Prop
  | unsigned {us : List Token} {x : Float} {n : Nat} : signed = false → FactorTokens v us x n →
      TermTokens v signed us ⟨false, x, n⟩
  | plus {us : List Token} {x : Float} {n : Nat} : FactorTokens v us x n →
      TermTokens v signed (.op .add :: us) ⟨false, x, n⟩
  | minus {us : List Token} {x : Float} {n : Nat} : FactorTokens v us x n →
      TermTokens v signed (.op .sub :: us) ⟨true, x, n⟩

inductive SumTokens (v : String) : (signed : Bool) → List Token → List Term → Prop
  | nil {signed : Bool} : SumTokens v signed [] []
  | cons {signed : Bool} {us ts : List Token} {t : Term} {terms : List Term} :
      TermTokens v signed us t → SumTokens v true ts terms →
      SumTokens v signed (us ++ ts) (t :: terms)

/-- The terms as the lexer reads their numbers: all as they are written, but for the last. -/
inductive Reread (ended : Prop) : List (List Char) → (terms read : List Term) → Prop
  | nil : Reread ended [] [] []
  | cons {w : List Char} {ws : List (List Char)} {t : Term} {y : Float} {terms read : List Term} :
      Lexed (ended ∧ ws = []) (Literal.sign w).2 t.magnitude y t.power → Reread ended ws terms read →
      Reread ended (w :: ws) (t :: terms) ({ t with magnitude := y } :: read)

variable {v : Char} {w cs : List Char} {ws : List (List Char)} {x : Float} {n : Nat} {t : Term}
  {ts : List Token} {terms : List Term} {ended : Prop}

section Words

theorem isNumeralChar_of_isSign {c : Char} (h : isSign c = true) :
    isNumeralChar c = false ∧ isNamePart c = false := by
  rw [isSign, Bool.or_eq_true, beq_iff_eq, beq_iff_eq] at h
  rcases h with rfl | rfl
  · exact ⟨rfl, rfl⟩
  · exact ⟨rfl, rfl⟩

theorem eq_of_lexed_digits {last : Prop} {y : Float} (h : Lexed last w x y n)
    (hw : AllDigits w) : y = x := by
  cases h with
  | full => rfl
  | cut _ hfractional =>
    have hpoint := hw '.' hfractional.point_mem
    cases hpoint

theorem eq_of_lexed_inside {last : Prop} {y : Float} (h : Lexed last w x y n)
    (hlast : ¬ last) : y = x := by
  cases h with
  | full => rfl
  | cut hl => exact absurd hl hlast

theorem not_fractional_of_letter {u ds fs : List Char} (hv : v.isAlpha = true) (hmem : v ∈ u) :
    ¬ Fractional u ds fs := by
  intro h
  have hchar := isNumeralChar_of_pointed h.whole h.fraction v (h.eq ▸ hmem)
  rw [isNumeralChar_of_class hv rfl (isDigit_eq_false_of_isAlpha hv)] at hchar
  cases hchar

theorem Power.tokens (h : Power v w n) (hs : Spells ended ts (w ++ cs))
    (hcs : ∀ c ∈ cs.head?, isSign c = true) (hts : Separate ts) :
    ∃ us ts', ts = us ++ ts' ∧ PowerTokens (String.singleton v) us n ∧ Spells ended ts' cs := by
  cases h with
  | bare hv =>
    obtain ⟨ts', rfl, hrest⟩ := hs.letter_inv hv fun c hc => (isNumeralChar_of_isSign (hcs c hc)).2
    exact ⟨[_], ts', rfl, .bare, hrest⟩
  | @raised ds hv hne hds hle =>
    obtain ⟨ts₁, rfl, hhat⟩ := hs.letter_inv hv fun c hc => by cases hc; rfl
    obtain ⟨ts₂, rfl, hnumber⟩ := hhat.symbol_inv (t := .op .pow) rfl
    obtain ⟨y, ts₃, rfl, hlexed, hrest⟩ := hnumber.number_inv (.whole hne hds)
      (fun c hc => (isNumeralChar_of_isSign (hcs c hc)).1) hts.tail.tail
    rw [eq_of_lexed_digits hlexed hds]
    exact ⟨[_, _, _], ts₃, rfl, .raised hle, hrest⟩

theorem Body.tokens (h : Body v w x n) (hs : Spells ended ts (w ++ cs))
    (hcs : ∀ c ∈ cs.head?, isSign c = true) (hts : Separate ts) :
    ∃ us ts' y, ts = us ++ ts' ∧ FactorTokens (String.singleton v) us y n ∧
      Lexed (ended ∧ cs = []) w x y n ∧ Spells ended ts' cs := by
  have hinside : ∀ (u' : List Char) {u : List Char} {m : Nat}, Power v u m → w = u' ++ u →
      Lexed (ended ∧ cs = []) w x x n := by
    rintro u' u m hpower rfl
    obtain ⟨hv, u'', rfl⟩ := hpower.eq_cons
    exact .full fun _ _ _ => not_fractional_of_letter hv (by simp)
  cases h with
  | number hw =>
    obtain ⟨y, ts', rfl, hlexed, hrest⟩ := hs.number_inv hw
      (fun c hc => (isNumeralChar_of_isSign (hcs c hc)).1) hts
    exact ⟨[_], ts', y, rfl, .number y, hlexed, hrest⟩
  | power hw =>
    obtain ⟨us, ts', rfl, htokens, hrest⟩ := hw.tokens hs hcs hts
    exact ⟨us, ts', 1, rfl, .power htokens, hinside [] hw rfl, hrest⟩
  | @product u u' _ _ hw hw' =>
    obtain ⟨hv, u'', hcons⟩ := hw'.eq_cons
    rw [List.append_assoc] at hs
    obtain ⟨y, ts₁, rfl, hlexed, hpower⟩ := hs.number_inv hw (by
      intro c hc
      rw [hcons] at hc
      cases hc
      exact isNumeralChar_of_class hv rfl (isDigit_eq_false_of_isAlpha hv)) hts
    obtain ⟨us, ts', rfl, htokens, hrest⟩ := hw'.tokens hpower hcs hts.tail
    rw [eq_of_lexed_inside hlexed (by simp [hcons])]
    exact ⟨_ :: us, ts', x, rfl, .product x htokens, hinside u hw' rfl, hrest⟩
  | @starred u u' _ _ hw hw' =>
    rw [List.append_assoc] at hs
    obtain ⟨y, ts₁, rfl, hlexed, hstar⟩ := hs.number_inv hw (fun c hc => by cases hc; rfl) hts
    obtain ⟨ts₂, rfl, hpower⟩ := hstar.symbol_inv (t := .op .mul) rfl
    obtain ⟨us, ts', rfl, htokens, hrest⟩ := hw'.tokens hpower hcs hts.tail.tail
    rw [eq_of_lexed_inside hlexed (by simp)]
    exact ⟨_ :: _ :: us, ts', x, rfl, .starred x htokens,
      hinside (u ++ ['*']) hw' (by simp), hrest⟩

theorem Written.tokens {signed : Bool} (h : Written v w t) (hs : Spells ended ts (w ++ cs))
    (hcs : ∀ c ∈ cs.head?, isSign c = true) (hts : Separate ts)
    (hsigned : signed = true → StartsWithSign w) :
    ∃ us ts' y, ts = us ++ ts' ∧
      TermTokens (String.singleton v) signed us { t with magnitude := y } ∧
      Lexed (ended ∧ cs = []) (Literal.sign w).2 t.magnitude y t.power ∧ Spells ended ts' cs := by
  cases h with
  | unsigned h =>
    obtain ⟨c, u, rfl, hc⟩ := h.head
    have hfalse : signed = false := by
      rw [Bool.eq_false_iff]
      intro htrue
      obtain ⟨c', u', heq, hc'⟩ := hsigned htrue
      cases heq
      rw [hc] at hc'
      cases hc'
    obtain ⟨us, ts', y, rfl, htokens, hlexed, hrest⟩ := h.tokens hs hcs hts
    rw [sign_of_head hc u]
    exact ⟨us, ts', y, rfl, .unsigned hfalse htokens, hlexed, hrest⟩
  | plus h =>
    obtain ⟨ts₁, rfl, hbody⟩ := hs.symbol_inv (t := .op .add) rfl
    obtain ⟨us, ts', y, rfl, htokens, hlexed, hrest⟩ := h.tokens hbody hcs hts.tail
    exact ⟨_ :: us, ts', y, rfl, .plus htokens, hlexed, hrest⟩
  | minus h =>
    obtain ⟨ts₁, rfl, hbody⟩ := hs.symbol_inv (t := .op .sub) rfl
    obtain ⟨us, ts', y, rfl, htokens, hlexed, hrest⟩ := h.tokens hbody hcs hts.tail
    exact ⟨_ :: us, ts', y, rfl, .minus htokens, hlexed, hrest⟩

end Words

theorem flatten_eq_nil_iff {ws : List (List Char)} (h : ∀ w ∈ ws, StartsWithSign w) :
    ws.flatten = [] ↔ ws = [] := by
  cases ws with
  | nil => exact iff_of_true rfl rfl
  | cons w ws =>
    obtain ⟨c, u, rfl, -⟩ := h w List.mem_cons_self
    exact iff_of_false (by simp) (List.cons_ne_nil _ _)

theorem tokens_of_written (signed : Bool) (hw : List.Forall₂ (Written v) ws terms)
    (htail : ∀ w ∈ ws.tail, StartsWithSign w)
    (hsigned : signed = true → ∀ w ∈ ws.head?, StartsWithSign w)
    (hs : Spells ended ts ws.flatten) (hts : Separate ts) :
    ∃ read, SumTokens (String.singleton v) signed ts read ∧ Reread ended ws terms read := by
  induction hw generalizing signed ts with
  | nil =>
    rw [Token.eq_nil_of_spells_nil hs]
    exact ⟨[], .nil, .nil⟩
  | @cons w t ws terms hwritten _ ih =>
    rw [List.tail_cons] at htail
    rw [List.flatten_cons] at hs
    obtain ⟨us, ts', y, rfl, htokens, hlexed, hrest⟩ :=
      hwritten.tokens hs (isSign_of_head?_flatten htail) hts fun h => hsigned h w rfl
    rw [flatten_eq_nil_iff htail] at hlexed
    obtain ⟨read, hsum, hread⟩ := ih true
      (fun w hw => htail w (List.mem_of_mem_tail hw))
      (fun _ w hw => htail w (List.mem_of_mem_head? hw)) hrest hts.right_of_append
    exact ⟨_, .cons htokens hsum, .cons hlexed hread⟩

end Term

end Univariate
