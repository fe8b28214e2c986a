import Univariate.Proofs.Expr.Spacing

namespace Univariate.Token

open Text

variable {text cs after left rest w : List Char} {c d : Char} {s : String} {t : Token} {ts : List Token}

inductive Word : List Char → Prop
  | number {w : List Char} {x : Float} : Term.Numeral w x → Word w
  | name {c : Char} {w : List Char} : isNameStart c = true → (∀ d ∈ w, isNamePart d = true) →
      Word (c :: w)
  | symbol {c : Char} : c ∈ ['+', '-', '*', '/', '^', '(', ')', ','] → Word [c]

def Begins (cs : List Char) : Prop := ∃ w rest, Word w ∧ cs = w ++ rest

inductive Starts : Char → List Char → Prop
  | digit {c : Char} (after : List Char) : c.isDigit = true → Starts c after
  | letter {c : Char} (after : List Char) : isNameStart c = true → Starts c after
  | symbol {c : Char} (after : List Char) : c ∈ ['+', '-', '*', '/', '^', '(', ')', ','] →
      Starts c after
  | point {d : Char} (after : List Char) : d.isDigit = true → Starts '.' (d :: after)

section Starts

theorem mem_symbols_iff : c ∈ ['+', '-', '*', '/', '^', '(', ')', ','] ↔ ofSymbol? c ≠ none := by
  constructor
  · intro h
    simp only [List.mem_cons, List.not_mem_nil, or_false] at h
    rcases h with rfl | rfl | rfl | rfl | rfl | rfl | rfl | rfl <;> exact Option.some_ne_none _
  · intro h
    unfold ofSymbol? at h
    split at h
    case h_9 => exact absurd rfl h
    all_goals decide

theorem begins_of_lex (h : lex cs = some (t, rest)) : Begins cs := by
  rcases lex_cases h with ⟨w, x, -, -, rfl, hnumeral, -⟩ | ⟨c, w, -, rfl, hstart, hpart⟩ |
    ⟨c, rfl, ht⟩
  · exact ⟨w, rest, .number hnumeral, rfl⟩
  · exact ⟨c :: w, rest, .name hstart hpart, rfl⟩
  · exact ⟨[c], rest, .symbol (mem_symbols_iff.mpr (by simp [ht])), rfl⟩

theorem starts_of_begins (h : Begins (c :: after)) : Starts c after := by
  obtain ⟨w, rest, hw, hsplit⟩ := h
  cases hw with
  | @number w x hnumeral =>
    cases hnumeral with
    | whole hne hds =>
      obtain ⟨d, ds, rfl⟩ := List.exists_cons_of_ne_nil hne
      cases hsplit
      exact .digit _ (hds c List.mem_cons_self)
    | @pointed ds fs hds hfs hne =>
      cases ds with
      | cons d ds =>
        cases hsplit
        exact .digit _ (hds c List.mem_cons_self)
      | nil =>
        obtain ⟨d, fs, rfl⟩ := List.exists_cons_of_ne_nil hne
        cases hsplit
        exact .point _ (hfs d List.mem_cons_self)
  | name hstart _ =>
    cases hsplit
    exact .letter _ hstart
  | symbol hmem =>
    cases hsplit
    exact .symbol _ hmem

theorem lexNumber_ne_none (h : c.isDigit = true) (cs : List Char) : lexNumber (c :: cs) ≠ none := by
  have hwhole : ((c :: cs).takeWhile Char.isDigit).isEmpty = false := by
    rw [List.takeWhile_cons_of_pos h]
    rfl
  unfold lexNumber
  dsimp only
  simp only [hwhole, Bool.false_eq_true, if_false]
  split <;> exact Option.some_ne_none _

theorem lexNumber_point_ne_none (h : d.isDigit = true) (cs : List Char) :
    lexNumber ('.' :: d :: cs) ≠ none := by
  have hfraction : ((d :: cs).takeWhile Char.isDigit).isEmpty = false := by
    rw [List.takeWhile_cons_of_pos h]
    rfl
  have hpoint : ¬ ('.').isDigit = true := by decide
  unfold lexNumber
  simp [List.takeWhile_cons_of_neg hpoint, List.dropWhile_cons_of_neg hpoint, hfraction]

theorem lex_ne_none (h : Starts c after) : lex (c :: after) ≠ none := by
  have hnumber (hne : lexNumber (c :: after) ≠ none) : lex (c :: after) ≠ none := by
    obtain ⟨p, hp⟩ := Option.ne_none_iff_exists'.mp hne
    rw [lex, hp]
    exact Option.some_ne_none p
  have hword (hne : lexWord (c :: after) ≠ none) : lex (c :: after) ≠ none := by
    cases hn : lexNumber (c :: after) with
    | none =>
      rw [lex, hn]
      exact hne
    | some p => exact hnumber (by rw [hn]; exact Option.some_ne_none p)
  cases h with
  | digit _ hdigit => exact hnumber (lexNumber_ne_none hdigit after)
  | letter _ hstart =>
    apply hword
    rw [lexWord, if_pos hstart]
    exact Option.some_ne_none _
  | symbol _ hmem =>
    apply hword
    rw [lexWord]
    split
    · exact Option.some_ne_none _
    · rw [Ne, Option.map_eq_none_iff]
      exact mem_symbols_iff.mp hmem
  | point after hdigit => exact hnumber (lexNumber_point_ne_none hdigit after)

theorem begins_iff : Begins (c :: after) ↔ Starts c after := by
  refine ⟨starts_of_begins, fun h => ?_⟩
  obtain ⟨⟨t, rest⟩, hlex⟩ := Option.ne_none_iff_exists'.mp (lex_ne_none h)
  exact begins_of_lex hlex

end Starts

section Run

theorem isGap_eq_false (h : isBlank c = false) : isGap c = false := by
  rw [Bool.eq_false_iff]
  intro hgap
  rw [isBlank_of_isGap hgap] at h
  cases h

theorem ended_nil : Ended [] := by simp [Ended]

theorem exists_before_of_run (h : (run cs).2 ≠ []) :
    ∃ before, cs = before ++ (run cs).2 ∧ Ended before ∧
      Spells False (run cs).1 (unspaced before) ∧ lex ((run cs).2.dropWhile isGap) = none := by
  induction cs using run.induct with
  | case1 cs hlex =>
    rw [run_eq, hlex]
    exact ⟨[], rfl, ended_nil, .nil, hlex⟩
  | case2 cs t rest hlex hlength _ _ _ ih =>
    rw [run_eq, hlex] at h ⊢
    obtain ⟨before, hrest, hended, hspells, hnone⟩ := ih h
    obtain ⟨w, hne, hdrop, hblank, htoken⟩ := spells_of_lex False hlex
    have hcs := List.takeWhile_append_dropWhile (p := isGap) (l := cs)
    refine ⟨cs.takeWhile isGap ++ w ++ before, ?_, ?_, ?_, hnone⟩
    · rw [List.append_assoc, ← hrest, List.append_assoc, ← hdrop, hcs]
    · by_cases hbefore : before = []
      · rw [hbefore, List.append_nil]
        exact ended_of_not_blank _ hne hblank
      · rwa [ended_append _ hbefore]
    · have hnil : rest ≠ [] := by
        rw [hrest]
        exact List.append_ne_nil_of_right_ne_nil _ h
      rw [unspaced_append, unspaced_append, unspaced_gaps, unspaced_eq_self hblank, List.nil_append]
      exact htoken _ (iff_of_false hnil fun hfalse => hfalse.1) hspells

theorem rest_of_ofText (h : ofText text = .error (.unexpectedToken s)) :
    ∃ blanks c after, (run (rounded text)).2 = blanks ++ c :: after ∧
      (∀ d ∈ blanks, isBlank d = true) ∧ isBlank c = false ∧ s = String.singleton c := by
  have houtcome := outcome_ofText text
  rw [h] at houtcome
  cases houtcome with
  | @culprit c after hrest =>
    have hsplit := List.takeWhile_append_dropWhile (p := isBlank) (l := (run (rounded text)).2)
    have hc := List.head?_dropWhile_not isBlank (run (rounded text)).2
    rw [trimStart] at hrest
    rw [hrest] at hsplit hc
    exact ⟨_, c, after, hsplit.symm, fun d hd => List.mem_takeWhile_imp hd, hc, rfl⟩

theorem run_stuck (h : lex (cs.dropWhile isGap) = none) : run cs = ([], cs) := by
  rw [run_eq, h]

theorem ofText_of_rest (hrounded : rounded text = cs) (hrun : run cs = (ts, left))
    (hblank : cs.all isBlank = false) (hbalanced : balanced cs = true)
    (hleft : trimStart left = c :: after) :
    ofText text = .error (.unexpectedToken (String.singleton c)) := by
  subst hrounded
  simp only [ofText_of_checks hblank hbalanced, hrun, hleft]

end Run

/-- The character that is named is not white space and stands, with nothing but white space between, behind
tokens. A token begins with it just if it looks like that and other white space than gaps stands before
it. -/
theorem culprit_of_ofText (h : ofText text = .error (.unexpectedToken s)) :
    ∃ ts before blanks c after, rounded text = before ++ blanks ++ c :: after ∧
      Ended before ∧ Spells False ts (unspaced before) ∧ (∀ d ∈ blanks, isBlank d = true) ∧
      isBlank c = false ∧ s = String.singleton c ∧
      (Begins (c :: after) ↔ ¬ AllGaps blanks ∧ Starts c after) := by
  obtain ⟨blanks, c, after, hleft, hblanks, hc, hs⟩ := rest_of_ofText h
  have hne : (run (rounded text)).2 ≠ [] := by
    rw [hleft]
    exact List.append_ne_nil_of_right_ne_nil _ (List.cons_ne_nil c after)
  obtain ⟨before, hsplit, hended, hspells, hnone⟩ := exists_before_of_run hne
  rw [hleft] at hsplit hnone
  refine ⟨_, before, blanks, c, after, by rw [hsplit, List.append_assoc], hended, hspells, hblanks, hc,
    hs, ?_⟩
  rw [begins_iff, iff_and_self]
  -- Behind gaps alone the reading stopped at `c` itself.
  intro hstarts hgaps
  have hstop : ∀ d ∈ (c :: after).head?, isGap d = false := by
    intro d hd
    cases hd
    exact isGap_eq_false hc
  rw [dropWhile_append_stop hgaps hstop] at hnone
  exact lex_ne_none hstarts hnone

theorem culprit_of_ofText_dollar :
    ofText ['x', ' ', '$', 'y'] = .error (.unexpectedToken "$") ∧
    ∃ before blanks after, rounded ['x', ' ', '$', 'y'] = before ++ blanks ++ '$' :: after ∧
      ¬ Begins ('$' :: after) := by
  have hrun : run ['x', ' ', '$', 'y'] = ([.ident "x"], [' ', '$', 'y']) :=
    run_eq_cons rfl rfl (run_stuck rfl)
  have hrounded : rounded ['x', ' ', '$', 'y'] = ['x', ' ', '$', 'y'] := by decide +kernel
  have hleft : trimStart [' ', '$', 'y'] = ['$', 'y'] := by decide +kernel
  have hread : ofText ['x', ' ', '$', 'y'] = .error (.unexpectedToken "$") :=
    ofText_of_rest hrounded hrun (by decide +kernel) rfl hleft
  obtain ⟨-, before, blanks, c, after, hsplit, -, -, -, -, hc, hbegins⟩ := culprit_of_ofText hread
  have hdollar : c = '$' := by simpa using (congrArg String.toList hc).symm
  subst hdollar
  refine ⟨hread, before, blanks, after, hsplit, fun h => ?_⟩
  have hstarts := (hbegins.mp h).2
  cases hstarts with
  | digit _ h | letter _ h | symbol _ h => exact absurd h (by decide)

/-- In `x`, no-break space, `y$` it is the `y` that is named, which is a token. -/
theorem not_culprit_no_break_space : ¬ ∀ (text : List Char) (s : String),
    ofText text = .error (.unexpectedToken s) → ∃ before c after, rounded text = before ++ c :: after ∧
      s = String.singleton c ∧ isBlank c = false ∧ ¬ Begins (c :: after) := by
  intro h
  have hrun : run ['x', '\u00a0', 'y', '$'] = ([.ident "x"], ['\u00a0', 'y', '$']) :=
    run_eq_cons rfl rfl (run_stuck rfl)
  have hrounded : rounded ['x', '\u00a0', 'y', '$'] = ['x', '\u00a0', 'y', '$'] := by
    decide +kernel
  have hleft : trimStart ['\u00a0', 'y', '$'] = ['y', '$'] := by decide +kernel
  have hread : ofText ['x', '\u00a0', 'y', '$'] = .error (.unexpectedToken "y") :=
    ofText_of_rest hrounded hrun (by decide +kernel) rfl hleft
  obtain ⟨before, c, after, -, hc, -, hbegins⟩ := h _ _ hread
  have hy : c = 'y' := by simpa using (congrArg String.toList hc).symm
  subst hy
  exact hbegins (begins_iff.mpr (.letter after rfl))

end Univariate.Token
