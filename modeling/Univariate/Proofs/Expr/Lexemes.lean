import Univariate.Proofs.Expr.Printing
import Univariate.Proofs.Polynomial.Language

/-!
# What the tokens of a text are spelled by

`Spells ended ts cs` says that the tokens `ts` are spelled by `cs`, a text without its blanks. All
numbers are read in full but one with a whole part and a fraction that ends the text.
-/

namespace Univariate.Token

open Decimal Text

variable {cs ds fs w rest : List Char} {c : Char} {t : Token} {ts : List Token} {x y : Float}

structure Fractional (w whole fraction : List Char) : Prop where
  eq : w = whole ++ '.' :: fraction
  ne_nil : whole ≠ []
  whole : Term.AllDigits whole
  fraction : Term.AllDigits fraction

/-- A word that says `x`, before a power, is read as `y`. -/
inductive Lexed (last : Prop) (w : List Char) : (x y : Float) → (power : Nat) → Prop
  | full {x : Float} {n : Nat} : (last → ∀ ds fs, ¬ Fractional w ds fs) → Lexed last w x x n
  | cut {ds fs : List Char} : last → Fractional w ds fs →
      Lexed last w (Literal.decimal ds fs) (Literal.decimal ds []) 0

inductive Spells (ended : Prop) : List Token → List Char → Prop
  | nil : Spells ended [] []
  | number {w cs : List Char} {x y : Float} {ts : List Token} : Term.Numeral w x →
      Lexed (ended ∧ cs = []) w x y 0 → Spells ended ts cs → Spells ended (.number y :: ts) (w ++ cs)
  | name {c : Char} {w cs : List Char} {ts : List Token} : isNameStart c = true →
      (∀ d ∈ w, isNamePart d = true) → Spells ended ts cs →
      Spells ended (.ident (String.ofList (c :: w)) :: ts) (c :: w ++ cs)
  | symbol {c : Char} {cs : List Char} {t : Token} {ts : List Token} : ofSymbol? c = some t →
      Spells ended ts cs → Spells ended (t :: ts) (c :: cs)

section Words

theorem numeral_eq_decimal (h : Term.Numeral w x) :
    x = Literal.decimal (w.takeWhile Char.isDigit) ((w.dropWhile Char.isDigit).drop 1) := by
  cases h with
  | whole _ hds =>
    rw [List.takeWhile_eq_self_iff.mpr hds, List.dropWhile_eq_nil_iff.mpr hds, List.drop_nil]
  | @pointed ds fs hds =>
    have hstop : ∀ c ∈ ('.' :: fs).head?, c.isDigit = false := fun c hc => by cases hc; rfl
    rw [takeWhile_append_stop hds hstop, dropWhile_append_stop hds hstop]
    rfl

theorem Fractional.point_mem (h : Fractional w ds fs) : '.' ∈ w := by
  simp [h.eq]

theorem Fractional.eq_of_eq {ds' fs' : List Char} (h : Fractional w ds fs)
    (h' : Fractional w ds' fs') : ds = ds' ∧ fs = fs' := by
  have hstop : ∀ fs : List Char, ∀ c ∈ ('.' :: fs).head?, c.isDigit = false := by
    intro fs c hc
    cases hc
    rfl
  have hds := takeWhile_append_stop h.whole (hstop fs)
  have hds' := takeWhile_append_stop h'.whole (hstop fs')
  rw [← h.eq] at hds
  rw [← h'.eq, hds] at hds'
  have heq := h.eq.symm.trans h'.eq
  rw [hds', List.append_cancel_left_eq, List.cons.injEq] at heq
  exact ⟨hds', heq.2⟩

theorem not_fractional_of_point (hfs : Term.AllDigits fs) : ¬ Fractional ('.' :: fs) ds w := by
  intro h
  obtain ⟨heq, hne, hwhole, -⟩ := h
  cases ds with
  | nil => exact hne rfl
  | cons d ds =>
    cases heq
    exact absurd (hwhole '.' List.mem_cons_self) (by decide)

end Words

theorem lexed_iff {last : Prop} {n : Nat} : Lexed last w x y n ↔
    y = x ∧ (last → ∀ ds fs, ¬ Fractional w ds fs) ∨
      last ∧ n = 0 ∧ ∃ ds fs, Fractional w ds fs ∧ x = Literal.decimal ds fs ∧
        y = Literal.decimal ds [] := by
  constructor
  · intro h
    cases h with
    | full h => exact .inl ⟨rfl, h⟩
    | cut hlast h => exact .inr ⟨hlast, rfl, _, _, h, rfl, rfl⟩
  · rintro (⟨rfl, h⟩ | ⟨hlast, rfl, ds, fs, h, rfl, rfl⟩)
    · exact .full h
    · exact .cut hlast h

section Lexer

theorem allDigits_takeWhile (cs : List Char) : Term.AllDigits (cs.takeWhile Char.isDigit) :=
  fun _ hc => List.mem_takeWhile_imp hc

theorem lexed_of_lexNumber (h : lexNumber cs = some (t, rest)) :
    ∃ w x y, t = .number y ∧ cs = w ++ rest ∧ Term.Numeral w x ∧ Lexed (rest = []) w x y 0 := by
  have hcs := List.takeWhile_append_dropWhile (p := Char.isDigit) (l := cs)
  unfold lexNumber at h
  dsimp only at h
  split at h
  · rename_i ds hdrop
    have hds := List.takeWhile_append_dropWhile (p := Char.isDigit) (l := ds)
    split at h
    · rename_i hwhole
      rw [hdrop, List.isEmpty_iff.mp hwhole] at hcs
      split at h
      · cases h
      · rename_i hfraction
        cases h
        have hnumeral : Term.Numeral ([] ++ '.' :: ds.takeWhile Char.isDigit) _ :=
          .pointed (List.forall_mem_nil _) (allDigits_takeWhile ds) (by simpa using hfraction)
        refine ⟨'.' :: ds.takeWhile Char.isDigit, _, _, rfl, ?_, hnumeral,
          .full fun _ _ _ => not_fractional_of_point (allDigits_takeWhile ds)⟩
        rw [List.cons_append, hds, ← hcs, List.nil_append]
    · rename_i hwhole
      have hne : cs.takeWhile Char.isDigit ≠ [] := by simpa using hwhole
      have hnumeral : Term.Numeral (cs.takeWhile Char.isDigit ++ '.' :: ds.takeWhile Char.isDigit) _ :=
        .pointed (allDigits_takeWhile cs) (allDigits_takeWhile ds) (by simp [hne])
      have heq : cs = cs.takeWhile Char.isDigit ++ '.' :: ds.takeWhile Char.isDigit ++
          ds.dropWhile Char.isDigit := by
        rw [List.append_assoc, List.cons_append, hds, ← hdrop, hcs]
      by_cases hrest : ds.dropWhile Char.isDigit = []
      · rw [hrest] at h heq
        cases h
        exact ⟨_, _, _, rfl, heq, hnumeral, .cut rfl
          ⟨rfl, hne, allDigits_takeWhile cs, allDigits_takeWhile ds⟩⟩
      · rw [keptFraction_of_ne_nil hrest] at h
        cases h
        exact ⟨_, _, _, rfl, heq, hnumeral, .full fun hnil => absurd hnil hrest⟩
  · split at h
    · cases h
    · rename_i hwhole
      cases h
      have hdigits := allDigits_takeWhile cs
      refine ⟨_, _, _, rfl, hcs.symm, .whole (by simpa using hwhole) hdigits, .full ?_⟩
      intro _ ds fs hfractional
      exact absurd (hdigits '.' hfractional.point_mem) (by decide)

theorem lex_cases (h : lex cs = some (t, rest)) :
    (∃ w x y, t = .number y ∧ cs = w ++ rest ∧ Term.Numeral w x ∧ Lexed (rest = []) w x y 0) ∨
    (∃ c w, t = .ident (String.ofList (c :: w)) ∧ cs = c :: w ++ rest ∧ isNameStart c = true ∧
      ∀ d ∈ w, isNamePart d = true) ∨
    ∃ c, cs = c :: rest ∧ ofSymbol? c = some t := by
  unfold lex at h
  cases hnumber : lexNumber cs with
  | some p =>
    rw [hnumber] at h
    cases h
    exact .inl (lexed_of_lexNumber hnumber)
  | none =>
    rw [hnumber] at h
    change lexWord cs = _ at h
    unfold lexWord at h
    split at h
    · cases h
    · rename_i c cs'
      split at h
      · rename_i hstart
        cases h
        refine .inr (.inl ⟨c, _, rfl, ?_, hstart, fun d hd => List.mem_takeWhile_imp hd⟩)
        rw [List.cons_append, List.takeWhile_append_dropWhile]
      · obtain ⟨t', ht, heq⟩ := Option.map_eq_some_iff.mp h
        cases heq
        exact .inr (.inr ⟨c, rfl, ht⟩)

theorem isBlank_of_isWordChar (h : isWordChar c = true) : isBlank c = false := by
  obtain ⟨hlow, hhigh⟩ := ascii_of_isWordChar h
  exact isBlank_eq_false hlow hhigh

theorem isWordChar_of_isNamePart (h : isNamePart c = true) : isWordChar c = true := by
  rw [isWordChar, h, Bool.true_or]

theorem isWordChar_of_numeral (h : Term.Numeral w x) : ∀ c ∈ w, isWordChar c = true := by
  have hdigits : ∀ {ds : List Char}, Term.AllDigits ds → ∀ c ∈ ds, isWordChar c = true :=
    fun hds c hc => isWordChar_of_isNamePart (isNamePart_of_isDigit (hds c hc))
  cases h with
  | whole _ hds => exact hdigits hds
  | pointed hds hfs =>
    intro c hc
    rcases List.mem_append.mp hc with hc | hc
    · exact hdigits hds c hc
    · rcases List.mem_cons.mp hc with rfl | hc
      · rfl
      · exact hdigits hfs c hc

theorem isBlank_of_symbol (h : ofSymbol? c = some t) : isBlank c = false := by
  unfold ofSymbol? at h
  split at h
  all_goals first | rfl | cases h

end Lexer

section Run

def Ended (cs : List Char) : Prop := ∀ c ∈ cs.getLast?, isBlank c = false

theorem unspaced_append (cs ds : List Char) : unspaced (cs ++ ds) = unspaced cs ++ unspaced ds :=
  List.filter_append cs ds

theorem unspaced_eq_self (h : ∀ c ∈ cs, isBlank c = false) : unspaced cs = cs :=
  List.filter_eq_self.mpr fun c hc => by rw [h c hc]; rfl

theorem unspaced_eq_nil_iff : unspaced cs = [] ↔ ∀ c ∈ cs, isBlank c = true := by
  simp [unspaced]

theorem ended_append (cs : List Char) (h : rest ≠ []) : Ended (cs ++ rest) ↔ Ended rest := by
  unfold Ended
  rw [List.getLast?_append_of_ne_nil _ h]

theorem ended_of_not_blank (cs : List Char) (hne : w ≠ []) (h : ∀ c ∈ w, isBlank c = false) :
    Ended (cs ++ w) := by
  rw [ended_append cs hne]
  exact fun c hc => h c (List.mem_of_getLast? hc)

theorem rest_eq_nil_iff (rest cs : List Char) (hne : w ≠ []) (h : ∀ c ∈ w, isBlank c = false) :
    rest = [] ↔ Ended (cs ++ w ++ rest) ∧ unspaced rest = [] := by
  constructor
  · rintro rfl
    rw [List.append_nil]
    exact ⟨ended_of_not_blank cs hne h, rfl⟩
  · rintro ⟨hended, hblank⟩
    by_contra hrest
    rw [ended_append _ hrest] at hended
    have hlast := List.getLast_mem hrest
    have hfalse := hended _ (List.getLast?_eq_some_getLast hrest)
    rw [unspaced_eq_nil_iff.mp hblank _ hlast] at hfalse
    cases hfalse

theorem spells_of_lex (ended : Prop) (h : lex cs = some (t, rest)) :
    ∃ w, w ≠ [] ∧ cs = w ++ rest ∧ (∀ c ∈ w, isBlank c = false) ∧
      ∀ ds, (rest = [] ↔ ended ∧ ds = []) → Spells ended ts ds →
        Spells ended (t :: ts) (w ++ ds) := by
  rcases lex_cases h with ⟨w, x, y, rfl, rfl, hnumeral, hlexed⟩ |
    ⟨c, w, rfl, rfl, hstart, hpart⟩ | ⟨c, rfl, ht⟩
  · obtain ⟨c, u, rfl, -⟩ := hnumeral.head
    refine ⟨_, List.cons_ne_nil _ _, rfl, ?_, ?_⟩
    · exact fun c hc => isBlank_of_isWordChar (isWordChar_of_numeral hnumeral c hc)
    · intro ds hrest hds
      rw [hrest] at hlexed
      exact .number hnumeral hlexed hds
  · refine ⟨c :: w, List.cons_ne_nil _ _, rfl, ?_, fun ds _ hds => .name hstart hpart hds⟩
    intro d hd
    apply isBlank_of_isWordChar
    apply isWordChar_of_isNamePart
    rcases List.mem_cons.mp hd with rfl | hd
    · exact isNamePart_of_isNameStart hstart
    · exact hpart d hd
  · refine ⟨[c], List.cons_ne_nil _ _, rfl, ?_, fun ds _ hds => .symbol ht hds⟩
    exact List.forall_mem_singleton.mpr (isBlank_of_symbol ht)

theorem unspaced_gaps (cs : List Char) : unspaced (cs.takeWhile isGap) = [] :=
  unspaced_eq_nil_iff.mpr fun _ hc => isBlank_of_isGap (List.mem_takeWhile_imp hc)

theorem spells_run (h : ∀ c ∈ (run cs).2, isBlank c = true) :
    Spells (Ended cs) (run cs).1 (unspaced cs) := by
  induction cs using run.induct with
  | case1 cs hlex =>
    rw [run_eq, hlex] at h ⊢
    rw [unspaced_eq_nil_iff.mpr h]
    exact .nil
  | case2 cs t rest hlex hlength _ _ _ ih =>
    rw [run_eq, hlex] at h ⊢
    have hcs := List.takeWhile_append_dropWhile (p := isGap) (l := cs)
    obtain ⟨w, hne, hdrop, hblank, hspells⟩ := spells_of_lex (Ended cs) hlex
    rw [hdrop, ← List.append_assoc] at hcs
    have hrest := rest_eq_nil_iff rest (cs.takeWhile isGap) hne hblank
    rw [hcs] at hrest
    have hunspaced : unspaced cs = w ++ unspaced rest := by
      rw [← hcs, unspaced_append, unspaced_append, unspaced_gaps, unspaced_eq_self hblank]
      rfl
    rw [hunspaced]
    refine hspells _ hrest ?_
    -- Where the rest is empty its end says nothing about the text, but then nothing is read.
    by_cases hnil : rest = []
    · rw [hnil, run_nil]
      exact .nil
    · have hended : Ended cs ↔ Ended rest := by rw [← hcs, ended_append _ hnil]
      rw [hended]
      exact ih h

end Run

section Whole

variable {text : List Char} {ended : Prop}

def rounded (text : List Char) : List Char := (plainSymbols text).map roundBracket

inductive Outcome (text : List Char) : Except ParseError (List Token) → Prop
  | empty : (rounded text).all isBlank = true → Outcome text (.error .emptyInput)
  | unbalanced : balanced (rounded text) = false → Outcome text (.error .unbalancedBrackets)
  | tokens : (rounded text).all isBlank = false → balanced (rounded text) = true →
      trimStart (run (rounded text)).2 = [] → Outcome text (.ok (run (rounded text)).1)
  | culprit {c : Char} {after : List Char} : trimStart (run (rounded text)).2 = c :: after →
      Outcome text (.error (.unexpectedToken (String.singleton c)))

theorem outcome_ofText (text : List Char) : Outcome text (ofText text) := by
  unfold ofText
  dsimp only
  split
  · rename_i hblank
    exact .empty hblank
  · rename_i hblank
    split
    · rename_i hbalanced
      exact .unbalanced (by simpa [rounded] using hbalanced)
    · rename_i hbalanced
      split
      · rename_i hrest
        exact .tokens (Bool.eq_false_iff.mpr hblank) (by simpa [rounded] using hbalanced) hrest
      · rename_i hrest
        exact .culprit hrest

theorem run_of_ofText (h : ofText text = .ok ts) :
    (run (rounded text)).1 = ts ∧ ∀ c ∈ (run (rounded text)).2, isBlank c = true := by
  have houtcome := outcome_ofText text
  rw [h] at houtcome
  cases houtcome with
  | tokens _ _ hrest => exact ⟨rfl, List.dropWhile_eq_nil_iff.mp hrest⟩

theorem checks_of_ofText (h : ofText text = .ok ts) :
    (rounded text).all isBlank = false ∧ balanced (rounded text) = true := by
  have houtcome := outcome_ofText text
  rw [h] at houtcome
  cases houtcome with
  | tokens hblank hbalanced _ => exact ⟨hblank, hbalanced⟩

theorem ofText_of_checks (hblank : (rounded text).all isBlank = false)
    (hbalanced : balanced (rounded text) = true) : ofText text =
      match trimStart (run (rounded text)).2 with
      | [] => .ok (run (rounded text)).1
      | c :: _ => .error (.unexpectedToken (String.singleton c)) := by
  rw [rounded] at hblank hbalanced ⊢
  unfold ofText
  simp only [hblank, hbalanced]
  rfl

theorem ofText_of_run {left : List Char} (hrounded : rounded text = cs)
    (hrun : run cs = (ts, left)) (hblank : cs.all isBlank = false) (hbalanced : balanced cs = true)
    (hleft : trimStart left = []) : ofText text = .ok ts := by
  subst hrounded
  simp only [ofText_of_checks hblank hbalanced, hrun, hleft]

theorem isBlank_plainSymbol (c : Char) : isBlank (plainSymbol c) = isBlank c := by
  unfold plainSymbol
  split
  · rename_i h
    rw [h]
    decide
  · split
    · rename_i h
      simp only [Bool.or_eq_true, decide_eq_true_eq] at h
      rcases h with (rfl | rfl) | rfl <;> decide
    · split
      · rename_i h
        rw [h]
        decide
      · rfl

theorem isBlank_roundBracket (c : Char) : isBlank (roundBracket c) = isBlank c := by
  unfold roundBracket
  split
  · rename_i h
    simp only [isOpening, Bool.or_eq_true, beq_iff_eq] at h
    rcases h with (rfl | rfl) | rfl <;> decide
  · split
    · rename_i h
      simp only [isClosing, Bool.or_eq_true, beq_iff_eq] at h
      rcases h with (rfl | rfl) | rfl <;> decide
    · rfl

theorem ended_rounded : Ended (rounded text) ↔ Ended text := by
  unfold Ended rounded plainSymbols
  rw [List.map_map, List.getLast?_map]
  simp [isBlank_roundBracket, isBlank_plainSymbol]

theorem mem_of_spells (h : Spells ended ts cs) :
    ∀ c ∈ cs, isWordChar c = true ∨ ∃ t, ofSymbol? c = some t := by
  induction h with
  | nil => exact fun c hc => nomatch hc
  | number hw _ _ ih =>
    rw [List.forall_mem_append]
    exact ⟨fun c hc => .inl (isWordChar_of_numeral hw c hc), ih⟩
  | name hstart hpart _ ih =>
    rw [List.forall_mem_append, List.forall_mem_cons]
    exact ⟨⟨.inl (isWordChar_of_isNamePart (isNamePart_of_isNameStart hstart)),
      fun c hc => .inl (isWordChar_of_isNamePart (hpart c hc))⟩, ih⟩
  | symbol ht _ ih =>
    rw [List.forall_mem_cons]
    exact ⟨.inr ⟨_, ht⟩, ih⟩

theorem eq_nil_of_spells_nil (h : Spells ended ts []) : ts = [] := by
  generalize hds : ([] : List Char) = ds at h
  cases h with
  | nil => rfl
  | number hw =>
    obtain ⟨c, u, rfl, -⟩ := hw.head
    cases hds
  | name | symbol => cases hds

theorem spells_of_ofText (h : ofText text = .ok ts) :
    Spells (Ended text) ts (unspaced (rounded text)) := by
  obtain ⟨rfl, hrest⟩ := run_of_ofText h
  have hspells := spells_run hrest
  rwa [ended_rounded] at hspells

theorem not_mem_of_ofText (h : ofText text = .ok ts) (hblank : isBlank c = false)
    (hround : roundBracket c = c) (hword : isWordChar c = false) (hsymbol : ofSymbol? c = none) :
    c ∉ plainSymbols text := by
  intro hmem
  have hrounded : c ∈ unspaced (rounded text) := by
    refine List.mem_filter.mpr ⟨List.mem_map.mpr ⟨c, hmem, hround⟩, ?_⟩
    rw [hblank]
    rfl
  rcases mem_of_spells (spells_of_ofText h) c hrounded with hc | ⟨t, ht⟩
  · rw [hword] at hc
    cases hc
  · rw [hsymbol] at ht
    cases ht

end Whole

end Univariate.Token
