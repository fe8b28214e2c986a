import Univariate.Proofs.Expr.Nesting

namespace Univariate.Token

open Decimal Double Text

variable {gap lead trail rest cs : List Char} {c : Char} {t : Token} {ts : List Token} {x : Float}

def AllGaps (gap : List Char) : Prop := ∀ c ∈ gap, isGap c = true

theorem allGaps_nil : AllGaps [] := List.forall_mem_nil _

def Writable : Token → Prop
  | .number x => x.isFinite = true ∧ signBit x = false
  | .ident name => isIdentifier name = true
  | .op _ | .lparen | .rparen | .comma => True

inductive Spaced : List Token → List Char → Prop
  | single (t : Token) : Spaced [t] t.text
  | cons (t : Token) {gap : List Char} {ts : List Token} {cs : List Char} : AllGaps gap → gap ≠ [] →
      Spaced ts cs → Spaced (t :: ts) (t.text ++ gap ++ cs)

def readLast : Token → Token
  | .number x => .number (readAtEnd x)
  | t => t

def readBefore (rest : List Char) (t : Token) : Token := if rest = [] then t.readLast else t

theorem readBefore_of_ne_nil (h : rest ≠ []) (t : Token) : t.readBefore rest = t := if_neg h

theorem readLast_eq_iff (ht : t.Writable) :
    t.readLast = t ↔ ∀ x, t = .number x → ∃ n : ℕ, value x = n := by
  cases t with
  | number x =>
    have hvalue := decimal_whole_eq_iff (unsigned_iff.mpr ht)
    rw [readLast, number.injEq, readAtEnd, hvalue]
    exact ⟨fun h y hy => number.inj hy ▸ h, fun h => h x rfl⟩
  | ident _ | op _ | lparen | rparen | comma =>
    refine iff_of_true rfl fun x hx => ?_
    cases hx

theorem readBefore_eq_iff (ht : t.Writable) : t.readBefore rest = t ↔
    (rest = [] → ∀ x, t = .number x → ∃ n : ℕ, value x = n) := by
  by_cases hrest : rest = []
  · rw [readBefore, if_pos hrest, readLast_eq_iff ht]
    simp [hrest]
  · simp [readBefore, hrest]

section Gaps

theorem run_gaps {us : List Token} {left : List Char} (hgap : AllGaps gap)
    (h : run cs = (us ++ [t], left)) : run (gap ++ cs) = (us ++ [t], left) := by
  induction gap with
  | nil => exact h
  | cons c gap ih =>
    have hrest := ih fun d hd => hgap d (List.mem_cons_of_mem c hd)
    have hread : (run (gap ++ cs)).1 ≠ [] := by
      rw [hrest]
      exact List.concat_ne_nil _ _
    exact (run_gap (hgap c List.mem_cons_self) hread).trans hrest

theorem run_of_gaps (hgap : AllGaps gap) : run gap = ([], gap) := by
  rw [run_eq, List.dropWhile_eq_nil_iff.mpr hgap]
  rfl

theorem isNamePart_of_isGap (h : isGap c = true) : isNamePart c = false := by
  rw [Bool.eq_false_iff]
  intro hpart
  rw [isGap_of_isNamePart hpart] at h
  cases h

theorem not_numeral_of_isGap (h : isGap c = true) : c.isDigit = false ∧ c ≠ '.' := by
  constructor
  · rw [Bool.eq_false_iff]
    intro hdigit
    rw [isGap_of_isNamePart (isNamePart_of_isDigit hdigit)] at h
    cases h
  · rintro rfl
    cases h

theorem AllGaps.head? (h : AllGaps gap) (hne : gap ≠ []) (cs : List Char) :
    ∀ c ∈ (gap ++ cs).head?, isGap c = true := by
  intro c hc
  rw [List.head?_append_of_ne_nil _ hne] at hc
  exact h c (List.mem_of_mem_head? hc)

end Gaps

theorem run_token (ht : t.Writable) (hrest : ∀ c ∈ rest.head?, isGap c = true) :
    run (t.text ++ rest) = (t.readBefore rest :: (run rest).1, (run rest).2) := by
  have hother (ht : t.readLast = t) : t.readBefore rest = t := by
    rw [readBefore, ht, ite_self]
  cases t with
  | number x =>
    have hx := unsigned_iff.mpr ht
    by_cases hnil : rest = []
    · subst hnil
      have hgap := plain_not_gap hx []
      rw [List.append_nil] at hgap
      rw [text, List.append_nil, run_cons (lex_plain_end hx) hgap]
      rfl
    · rw [readBefore_of_ne_nil hnil]
      exact run_cons (lex_plain hx (fun c hc => not_numeral_of_isGap (hrest c hc)) hnil)
        (plain_not_gap hx rest)
  | ident name =>
    rw [hother rfl]
    exact run_name ht fun c hc => isNamePart_of_isGap (hrest c hc)
  | op o =>
    rw [hother rfl]
    exact run_op o rest
  | lparen =>
    rw [hother rfl]
    exact run_lparen rest
  | rparen =>
    rw [hother rfl]
    exact run_rparen rest
  | comma =>
    rw [hother rfl]
    exact run_cons rfl fun c hc => by cases hc; rfl

theorem run_spaced (h : Spaced ts cs) (hts : ∀ t ∈ ts, t.Writable) (htrail : AllGaps trail) :
    ∃ us t, ts = us ++ [t] ∧ run (cs ++ trail) = (us ++ [t.readBefore trail], trail) := by
  -- All tokens but the last have a gap behind them, so that `trail` matters to that one alone.
  induction h with
  | single t =>
    have hrun := run_token (hts t List.mem_cons_self) fun c hc => htrail c (List.mem_of_mem_head? hc)
    rw [run_of_gaps htrail] at hrun
    exact ⟨[], t, rfl, hrun⟩
  | @cons t gap ts cs hgap hne _ ih =>
    obtain ⟨us, last, rfl, hrun⟩ := ih fun t ht => hts t (List.mem_cons_of_mem _ ht)
    have hgaps := run_gaps hgap hrun
    have hstart := hgap.head? hne (cs ++ trail)
    have htoken := run_token (hts t List.mem_cons_self) hstart
    have hbehind : gap ++ (cs ++ trail) ≠ [] := List.append_ne_nil_of_left_ne_nil hne _
    refine ⟨t :: us, last, rfl, ?_⟩
    rw [List.append_assoc, List.append_assoc, htoken, hgaps, readBefore_of_ne_nil hbehind]
    rfl

section Plain

def Plain (cs : List Char) : Prop := ∀ c ∈ cs, roundBracket (plainSymbol c) = c

theorem plain_text (ht : t.Writable) : Plain t.text := by
  cases t with
  | number x =>
    exact fun c hc => roundBracket_plainSymbol (isWordChar_plain (unsigned_iff.mpr ht) c hc)
  | ident name => exact fun c hc => roundBracket_plainSymbol (isWordChar_name ht c hc)
  | op o =>
    refine List.forall_mem_singleton.mpr ?_
    cases o <;> decide
  | lparen | rparen | comma => exact List.forall_mem_singleton.mpr (by decide)

theorem plain_gaps (h : AllGaps gap) : Plain gap := by
  intro c hc
  have hgap := h c hc
  simp only [isGap, Bool.or_eq_true, beq_iff_eq] at hgap
  rcases hgap with ((rfl | rfl) | rfl) | rfl <;> decide

theorem plain_spaced (h : Spaced ts cs) (hts : ∀ t ∈ ts, t.Writable) : Plain cs := by
  induction h with
  | single t => exact plain_text (hts t List.mem_cons_self)
  | cons t hgap _ _ ih =>
    have hrest := ih fun t ht => hts t (List.mem_cons_of_mem _ ht)
    have htoken := plain_text (hts t List.mem_cons_self)
    exact List.forall_mem_append.mpr
      ⟨List.forall_mem_append.mpr ⟨htoken, plain_gaps hgap⟩, hrest⟩

theorem rounded_of_plain (h : Plain cs) : rounded cs = cs := by
  rw [rounded, plainSymbols, List.map_map]
  exact (List.map_congr_left h).trans (List.map_id cs)

end Plain

theorem nested_concat_readBefore (us : List Token) (t : Token) (rest : List Char) (depth : Nat) :
    nested depth (us ++ [t.readBefore rest]) = nested depth (us ++ [t]) := by
  induction us generalizing depth with
  | nil =>
    rw [readBefore]
    split
    · cases t <;> rfl
    · rfl
  | cons u us ih => exact nested_cons_congr u ih depth

theorem ofText_spaced (h : Spaced ts cs) (hts : ∀ t ∈ ts, t.Writable) (hnested : nested 0 ts = true)
    (hlead : AllGaps lead) (htrail : AllGaps trail) :
    ∃ us t, ts = us ++ [t] ∧
      ofText (lead ++ cs ++ trail) = .ok (us ++ [t.readBefore trail]) := by
  obtain ⟨us, t, rfl, hrun⟩ := run_spaced h hts htrail
  have hplain : Plain (lead ++ cs ++ trail) := List.forall_mem_append.mpr
    ⟨List.forall_mem_append.mpr ⟨plain_gaps hlead, plain_spaced h hts⟩, plain_gaps htrail⟩
  have hwhole : run (rounded (lead ++ cs ++ trail)) = (us ++ [t.readBefore trail], trail) := by
    rw [rounded_of_plain hplain, List.append_assoc, run_gaps hlead hrun]
  have hnested' : nested 0 (us ++ [t.readBefore trail]) = true := by
    rw [nested_concat_readBefore, hnested]
  exact ⟨us, t, rfl, ofText_of_nested hwhole (fun c hc => isBlank_of_isGap (htrail c hc))
    (List.concat_ne_nil _ _) hnested'⟩

/-- A text with gaps between its tokens is read as these tokens, unless the last one is a number that is
not natural and has no gap behind it. -/
theorem ofText_spaced_iff (h : Spaced ts cs) (hts : ∀ t ∈ ts, t.Writable)
    (hnested : nested 0 ts = true) (hlead : AllGaps lead) (htrail : AllGaps trail) :
    ofText (lead ++ cs ++ trail) = .ok ts ↔
      (trail = [] → ∀ x, ts.getLast? = some (.number x) → ∃ n : ℕ, value x = n) := by
  obtain ⟨us, t, rfl, hread⟩ := ofText_spaced h hts hnested hlead htrail
  have ht : t.Writable := hts t List.mem_concat_self
  rw [hread, Except.ok.injEq, List.append_cancel_left_eq, List.singleton_inj, readBefore_eq_iff ht,
    List.getLast?_concat]
  simp only [Option.some.injEq]

theorem ofText_spaced_product :
    ofText (['\n'] ++ (['('] ++ [' '] ++ ("x".toList ++ ['\r', '\n'] ++ ([')'] ++ [' '] ++
      (['*'] ++ ['\t'] ++ plain 0.25)))) ++ [' ']) =
      .ok [.lparen, .ident "x", .rparen, .op .mul, .number 0.25] := by
  have hgap (c : Char) (hc : isGap c = true) : AllGaps [c] := List.forall_mem_singleton.mpr hc
  have hline : AllGaps ['\r', '\n'] := List.forall_mem_cons.mpr ⟨rfl, hgap '\n' rfl⟩
  have hspaced : Spaced [.lparen, .ident "x", .rparen, .op .mul, .number 0.25] _ :=
    .cons .lparen (hgap ' ' rfl) (List.cons_ne_nil _ _) <|
      .cons (.ident "x") hline (List.cons_ne_nil _ _) <|
      .cons .rparen (hgap ' ' rfl) (List.cons_ne_nil _ _) <|
      .cons (.op .mul) (hgap '\t' rfl) (List.cons_ne_nil _ _) <| .single (.number 0.25)
  have hts : ∀ t ∈ [lparen, .ident "x", .rparen, .op .mul, .number 0.25], t.Writable := by
    simp only [List.forall_mem_cons, List.not_mem_nil, Writable, false_imp_iff, implies_true, true_and,
      and_true]
    decide +kernel
  have hiff := ofText_spaced_iff hspaced hts rfl (hgap '\n' rfl) (hgap ' ' rfl)
  exact hiff.mpr fun hnil => absurd hnil (List.cons_ne_nil _ _)

/-- A fraction that ends the text is lost. -/
theorem not_ofText_spaced_quarter : ¬ ∀ (ts : List Token) (lead cs trail : List Char),
    Spaced ts cs → (∀ t ∈ ts, t.Writable) → nested 0 ts = true → AllGaps lead → AllGaps trail →
    ofText (lead ++ cs ++ trail) = .ok ts := by
  intro h
  have hunsigned : (0.25 : Float).isFinite = true ∧ signBit 0.25 = false := by decide +kernel
  have hts : ∀ t ∈ [Token.number 0.25], t.Writable := List.forall_mem_singleton.mpr hunsigned
  have hread := h [.number 0.25] [] _ [] (.single _) hts rfl allGaps_nil allGaps_nil
  obtain ⟨us, t, hsplit, hspaced⟩ := ofText_spaced (.single _) hts rfl allGaps_nil allGaps_nil
  rw [hspaced, Except.ok.injEq, hsplit, List.append_cancel_left_eq, List.singleton_inj] at hread
  have hlast : [] ++ [.number 0.25] = us ++ [t] := hsplit
  obtain ⟨-, rfl⟩ := List.append_singleton_inj.mp hlast
  have hnatural := (readBefore_eq_iff (hts _ List.mem_cons_self)).mp hread rfl 0.25 rfl
  have hfraction : fraction 0.25 ≠ [] := by decide +kernel
  exact hfraction ((fraction_eq_nil_iff (unsigned_iff.mpr hunsigned)).mpr hnatural)

end Univariate.Token
