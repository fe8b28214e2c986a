import Univariate.Proofs.Decimal.ReadBack
import Univariate.Proofs.Polynomial.Acceptance
import Univariate.Proofs.Polynomial.Stripping

namespace Univariate

open Decimal Text

namespace Term

variable {v : Char} {w w' u u' : List Char} {x : Float} {n : Nat} {t : Term}

theorem exists_of_append_eq {c : Char} (h : w ++ w' = u ++ c :: u') (hw : c ∉ w) :
    ∃ a, u = w ++ a ∧ w' = a ++ c :: u' := by
  rcases List.append_eq_append_iff.mp h with ⟨a, ha, hb⟩ | ⟨b, hb, hc⟩
  · exact ⟨a, ha, hb⟩
  · cases b with
    | nil => exact ⟨[], by simpa using hb.symm, hc.symm⟩
    | cons d b =>
      cases hc
      exact absurd (by simp [hb]) hw

theorem AllDigits.not_mem {c : Char} (h : AllDigits w) (hc : c.isDigit = false) : c ∉ w := by
  intro hmem
  rw [h c hmem] at hc
  cases hc

theorem Numeral.hat_not_mem (h : Numeral w x) : '^' ∉ w := by
  cases h with
  | whole _ hds => exact hds.not_mem rfl
  | pointed hds hfs => simp [hds.not_mem (c := '^') rfl, hfs.not_mem (c := '^') rfl]

structure Exponent (ds : List Char) (n : Nat) : Prop where
  ne_nil : ds ≠ []
  digits : AllDigits ds
  le : Literal.value ds ≤ maxPower
  eq : n = Literal.value ds

theorem hat_not_mem_letter (hv : v.isAlpha = true) : '^' ∉ [v] := by
  rw [List.mem_singleton]
  rintro rfl
  cases hv

theorem Power.exponent (h : Power v (u ++ '^' :: u') n) : Exponent u' n := by
  generalize hw : u ++ '^' :: u' = w at h
  cases h with
  | bare hv =>
    obtain ⟨a, -, ha⟩ := exists_of_append_eq (w := [v]) hw.symm (hat_not_mem_letter hv)
    simp at ha
  | @raised ds hv hne hds hle =>
    obtain ⟨a, -, ha⟩ := exists_of_append_eq (w := [v]) hw.symm (hat_not_mem_letter hv)
    cases a with
    | nil =>
      cases ha
      exact ⟨hne, hds, hle, rfl⟩
    | cons b a =>
      cases ha
      exact absurd (by simp) (hds.not_mem (c := '^') rfl)

theorem Body.exponent (h : Body v (u ++ '^' :: u') x n) : Exponent u' n := by
  generalize hw : u ++ '^' :: u' = w at h
  cases h with
  | number h => exact absurd (by simp [← hw]) h.hat_not_mem
  | power h =>
    rw [← hw] at h
    exact h.exponent
  | product h h' =>
    obtain ⟨a, -, ha⟩ := exists_of_append_eq hw.symm h.hat_not_mem
    rw [ha] at h'
    exact h'.exponent
  | starred h h' =>
    obtain ⟨a, -, ha⟩ := exists_of_append_eq hw.symm h.hat_not_mem
    obtain ⟨b, -, hb⟩ := exists_of_append_eq (w := ['*']) ha (by decide)
    rw [hb] at h'
    exact h'.exponent

theorem Written.exponent (h : Written v (u ++ '^' :: u') t) : Exponent u' t.power := by
  generalize hw : u ++ '^' :: u' = w at h
  cases h with
  | unsigned h =>
    rw [← hw] at h
    exact h.exponent
  | plus h =>
    obtain ⟨a, -, ha⟩ := exists_of_append_eq (w := ['+']) hw.symm (by decide)
    rw [ha] at h
    exact h.exponent
  | minus h =>
    obtain ⟨a, -, ha⟩ := exists_of_append_eq (w := ['-']) hw.symm (by decide)
    rw [ha] at h
    exact h.exponent

end Term

namespace Equation

variable {v : Char} {l s r text front : List Char} {t : Term} {parsed : Parsed}

def braced (l : List Char) (v : Char) (s r : List Char) : List Char :=
  l ++ v :: '^' :: '{' :: s ++ '}' :: r

/-- The sign of a power that follows on `front` in the stripped left side belongs to the word
that spells `t`. -/
def PowerIn (v : Char) (text front : List Char) (t : Term) : Prop :=
  ∃ before w w' after,
    signedTerms (leftSide (Latex.strip text)) = before ++ (w ++ '^' :: w') :: after ∧
      before.flatten ++ w = front ∧ Term.Written v (w ++ '^' :: w') t

theorem strip_braced (l : List Char) (v : Char) (s r : List Char) :
    Latex.strip (braced l v s r) =
      Latex.strip (l ++ [v]) ++ '^' :: Latex.strip (s ++ '}' :: r) := by
  have hsplit : braced l v s r = (l ++ [v]) ++ '^' :: ([] ++ '{' :: (s ++ '}' :: r)) := by
    simp [braced]
  rw [hsplit, Latex.strip_eq, Latex.strip_eq, Latex.strip_eq, Latex.bare_append (.inl rfl),
    Latex.bare_append (.inr (.inl rfl))]
  change Latex.joinStars (_ ++ '^' :: _) = _
  rw [Latex.joinStars_append (by decide), Latex.joinStars_cons (by decide)]
  rfl

theorem leftSide_braced (h : '=' ∉ l ++ [v]) :
    leftSide (Latex.strip (braced l v s r)) =
      Latex.strip (l ++ [v]) ++ '^' :: leftSide (Latex.strip (s ++ '}' :: r)) := by
  rw [strip_braced, leftSide_append fun hmem => h (Latex.equals_mem_of_mem_strip hmem)]
  rfl

theorem exists_word_of_flatten {ws : List (List Char)} {cs ds : List Char} {c : Char}
    (h : ws.flatten = cs ++ c :: ds) : ∃ before w w' after,
      ws = before ++ (w ++ c :: w') :: after ∧ before.flatten ++ w = cs := by
  rcases List.flatten_eq_append_iff.mp h with ⟨as, bs, rfl, rfl, hbs⟩ | ⟨as, bs, d, ds', es, rfl, rfl, hc⟩
  · obtain ⟨as', b, bs', rfl, hnil, -⟩ := List.flatten_eq_cons_iff.mp hbs.symm
    refine ⟨as ++ as', [], b, bs', by simp, ?_⟩
    have : as'.flatten = [] := List.flatten_eq_nil_iff.mpr hnil
    simp [this]
  · cases hc
    exact ⟨as, bs, ds', es, rfl, rfl⟩

theorem takeWhile_leftSide (cs : List Char) :
    (leftSide cs).takeWhile Char.isDigit = cs.takeWhile Char.isDigit := by
  unfold leftSide
  rw [List.takeWhile_takeWhile]
  congr 1
  funext c
  cases hc : c.isDigit with
  | false => simp
  | true => simpa [bne] using beq_eq_false_of_class hc rfl

theorem exponent_of_powerIn (hl : '=' ∉ l ++ [v])
    (h : PowerIn v (braced l v s r) (Latex.strip (l ++ [v])) t) :
    Term.Exponent ((Latex.strip (s ++ '}' :: r)).takeWhile Char.isDigit) t.power := by
  obtain ⟨before, w, w', after, hterms, hfront, hwritten⟩ := h
  have hflatten := flatten_signedTerms (leftSide (Latex.strip (braced l v s r)))
  rw [hterms, leftSide_braced hl, ← hfront] at hflatten
  have hrest : w' ++ after.flatten = leftSide (Latex.strip (s ++ '}' :: r)) := by
    simpa using hflatten
  have hstop : ∀ c ∈ after.flatten.head?, c.isDigit = false := by
    intro c hc
    have hsign := isSign_of_head?_flatten (startsWithSign_after hterms) c hc
    rw [isSign, Bool.or_eq_true, beq_iff_eq, beq_iff_eq] at hsign
    rcases hsign with rfl | rfl <;> rfl
  have hexponent := hwritten.exponent
  have htake := takeWhile_append_stop hexponent.digits hstop
  rw [hrest, takeWhile_leftSide] at htake
  rwa [htake]

theorem exists_powerIn (hl : '=' ∉ l ++ [v]) (h : parse v (braced l v s r) = .ok parsed) :
    ∃ t, PowerIn v (braced l v s r) (Latex.strip (l ++ [v])) t := by
  rw [parse_eq_ok_iff_readSum, readSum_eq_ok_iff] at h
  obtain ⟨-, terms, hterms, -⟩ := h
  have hflatten := flatten_signedTerms (leftSide (Latex.strip (braced l v s r)))
  rw [leftSide_braced hl] at hflatten
  obtain ⟨before, w, w', after, hsplit, hfront⟩ := exists_word_of_flatten hflatten
  rw [← leftSide_braced hl] at hsplit
  obtain ⟨t, ht⟩ := exists_forall₂_iff.mp ⟨terms, hterms⟩ (w ++ '^' :: w') (by simp [hsplit])
  exact ⟨t, before, w, w', after, hsplit, hfront, ht⟩

section Braces

def IsNumber (cs : List Char) : Prop := cs ≠ [] ∧ Term.AllDigits cs

def BracesMeanNumber (v : Char) (l s r : List Char) : Prop :=
  ∃ t, PowerIn v (braced l v s r) (Latex.strip (l ++ [v])) t ∧ IsNumber (unspaced s) ∧
    Literal.value (unspaced s) ≤ Term.maxPower ∧ t.power = Literal.value (unspaced s)

theorem isBlank_or_isDigit (h : Term.AllDigits (unspaced s)) :
    ∀ c ∈ s, isBlank c = true ∨ c.isDigit = true := by
  intro c hc
  by_cases hblank : isBlank c = true
  · exact .inl hblank
  · exact .inr (h c (List.mem_filter.mpr ⟨hc, by simpa using hblank⟩))

theorem ne_of_unspaced (h : Term.AllDigits (unspaced s)) {c d : Char} (hc : c ∈ s)
    (hblank : isBlank d = false) (hdigit : d.isDigit = false) : c ≠ d := by
  rintro rfl
  rcases isBlank_or_isDigit h c hc with h | h
  · rw [hblank] at h
    cases h
  · rw [hdigit] at h
    cases h

theorem bare_number (h : Term.AllDigits (unspaced s)) : Latex.bare s = unspaced s := by
  have hne : ∀ c ∈ s, ∀ d, isBlank d = false → d.isDigit = false → c ≠ d :=
    fun c hc d hblank hdigit => ne_of_unspaced h hc hblank hdigit
  have hplain : plainSymbols s = s := by
    rw [plainSymbols, List.map_congr_left (g := id), List.map_id]
    intro c hc
    have hsymbol := hne c hc
    simp [plainSymbol, hsymbol '\u2212' (by decide) rfl, hsymbol '\u00d7' (by decide) rfl,
      hsymbol '\u00b7' (by decide) rfl, hsymbol '\u22c5' (by decide) rfl,
      hsymbol '\u00f7' (by decide) rfl]
  have hcommand : ∀ c ∈ s, c ≠ '\\' := fun c hc => hne c hc '\\' (by decide) rfl
  rw [Latex.bare, hplain, Latex.replaceCommands_eq _ _ hcommand,
    Latex.replaceCommands_eq _ _ hcommand, unspaced]
  apply List.filter_congr
  intro c hc
  rw [Latex.isMarkup, beq_false_of_ne (hne c hc '{' (by decide) rfl),
    beq_false_of_ne (hne c hc '}' (by decide) rfl), Bool.or_false, Bool.or_false]

theorem strip_number (h : Term.AllDigits (unspaced s)) (r : List Char) :
    Latex.strip (s ++ '}' :: r) = unspaced s ++ Latex.strip r := by
  rw [Latex.strip_eq, Latex.strip_eq, Latex.bare_append (.inr (.inr (.inl rfl))), bare_number h]
  change Latex.joinStars (unspaced s ++ Latex.bare r) = _
  rw [Latex.joinStars_append_of_not_mem (h.not_mem rfl)]

theorem value_append_eq_iff (ds es : List Char) :
    Literal.value (ds ++ es) = Literal.value ds ↔ es = [] ∨ Literal.value (ds ++ es) = 0 := by
  cases es with
  | nil => simp
  | cons e es =>
    have hscaled : Literal.value (ds ++ e :: es) =
        10 * (10 ^ es.length * Literal.value ds) + Literal.value (e :: es) := by
      rw [Digits.value_append, List.length_cons]
      ring
    have hle : Literal.value ds ≤ 10 ^ es.length * Literal.value ds :=
      Nat.le_mul_of_pos_left _ (Nat.pow_pos (by decide))
    simp only [List.cons_ne_nil, false_or]
    omega

theorem takeWhile_append_digits (h : Term.AllDigits s) (r : List Char) :
    (s ++ r).takeWhile Char.isDigit = s ++ r.takeWhile Char.isDigit :=
  List.takeWhile_append_of_pos h

theorem bracesMeanNumber_iff (hl : '=' ∉ l ++ [v]) (h : parse v (braced l v s r) = .ok parsed) :
    BracesMeanNumber v l s r ↔ IsNumber (unspaced s) ∧
      ((Latex.strip r).takeWhile Char.isDigit = [] ∨
        Literal.value (unspaced s ++ (Latex.strip r).takeWhile Char.isDigit) = 0) := by
  constructor
  · rintro ⟨t, ht, hnumber, -, hpower⟩
    have hexponent := exponent_of_powerIn hl ht
    rw [strip_number hnumber.2, takeWhile_append_digits hnumber.2] at hexponent
    exact ⟨hnumber, (value_append_eq_iff _ _).mp (hexponent.eq.symm.trans hpower)⟩
  · rintro ⟨hnumber, hrest⟩
    obtain ⟨t, ht⟩ := exists_powerIn hl h
    have hexponent := exponent_of_powerIn hl ht
    rw [strip_number hnumber.2, takeWhile_append_digits hnumber.2] at hexponent
    have hvalue := (value_append_eq_iff _ _).mpr hrest
    have hle := hexponent.le
    rw [hvalue] at hle
    exact ⟨t, ht, hnumber, hle, hexponent.eq.trans hvalue⟩

end Braces

/-- If an equation with a braced exponent on its left side is read, some term holds the exponent,
and its power is written by the digits that come first in what is left of the braced text and of
the text behind it. The braces mean the number in them exactly if they hold nothing but a number
and either no digit follows them or all the digits together are zero. -/
theorem power_of_braced_exponent (hl : '=' ∉ l ++ [v]) (h : parse v (braced l v s r) = .ok parsed) :
    (∃ t, PowerIn v (braced l v s r) (Latex.strip (l ++ [v])) t) ∧
    (∀ t, PowerIn v (braced l v s r) (Latex.strip (l ++ [v])) t →
      Term.Exponent ((Latex.strip (s ++ '}' :: r)).takeWhile Char.isDigit) t.power) ∧
    (BracesMeanNumber v l s r ↔ IsNumber (unspaced s) ∧
      ((Latex.strip r).takeWhile Char.isDigit = [] ∨
        Literal.value (unspaced s ++ (Latex.strip r).takeWhile Char.isDigit) = 0)) :=
  ⟨exists_powerIn hl h, fun _ ht => exponent_of_powerIn hl ht, bracesMeanNumber_iff hl h⟩

theorem power_of_braced_two :
    '=' ∉ ['3'] ++ ['x'] ∧
      parse 'x' (braced ['3'] 'x' [' ', '2', ' '] [' ', '+', ' ', '1', ' ', '=', ' ', '0']) =
        .ok (.ofTerms [⟨false, Literal.decimal ['3'] [], 2⟩, ⟨false, Literal.decimal ['1'] [], 0⟩]) ∧
      BracesMeanNumber 'x' ['3'] [' ', '2', ' '] [' ', '+', ' ', '1', ' ', '=', ' ', '0'] := by
  have hl : '=' ∉ ['3'] ++ ['x'] := by decide
  have h : parse 'x' (braced ['3'] 'x' [' ', '2', ' '] [' ', '+', ' ', '1', ' ', '=', ' ', '0']) =
      .ok (.ofTerms
        [⟨false, Literal.decimal ['3'] [], 2⟩, ⟨false, Literal.decimal ['1'] [], 0⟩]) :=
    parse_of_strip (w := ['3', 'x', '^', '2', '+', '1', '=', '0']) (by decide +kernel) rfl rfl
      (List.cons_ne_nil _ _)
  refine ⟨hl, h, (power_of_braced_exponent hl h).2.2.mpr ⟨⟨by decide, ?_⟩, .inl (by decide +kernel)⟩⟩
  have hunspaced : unspaced [' ', '2', ' '] = ['2'] := by decide +kernel
  rw [hunspaced]
  exact List.forall_mem_singleton.mpr rfl

/-- `x^{2}3 = 0` is read as a power of 23. -/
theorem not_bracesMeanNumber : ¬ ∀ (v : Char) (l s r : List Char) (parsed : Parsed),
    v.isAlpha = true → (∀ c ∈ s, c ≠ '{' ∧ c ≠ '}') → '=' ∉ l ++ [v] → '=' ∉ s →
    parse v (braced l v s r) = .ok parsed → BracesMeanNumber v l s r := by
  intro h
  have hl : '=' ∉ [] ++ ['x'] := by decide
  have hparse : parse 'x' (braced [] 'x' ['2'] ['3', '=', '0']) =
      .ok (.ofTerms [⟨false, 1, 23⟩]) :=
    parse_of_strip (w := ['x', '^', '2', '3', '=', '0']) (by decide +kernel) rfl rfl
      (List.cons_ne_nil _ _)
  have hmeans := h 'x' [] ['2'] ['3', '=', '0'] _ rfl
    (List.forall_mem_singleton.mpr (by decide)) hl (by decide) hparse
  rcases ((bracesMeanNumber_iff hl hparse).mp hmeans).2 with hnil | hzero
  · revert hnil
    decide
  · revert hzero
    decide

end Equation

end Univariate
