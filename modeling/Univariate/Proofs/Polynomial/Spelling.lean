import Mathlib
import Univariate.Proofs.Polynomial.Acceptance
import Univariate.Proofs.Polynomial.Stripping

/-!
# Spellings of an equation

LaTeX spells a product sign, a minus and the power of a letter in more than one way, and lets
blanks, braces and commands for size and spacing stand anywhere between the symbols. Whatever is
chosen, stripping leaves the plain text, because none of these spellings reaches over the next
symbol and the stars of a sum of terms stand in front of letters.
-/

namespace Univariate

open Decimal Text

namespace Latex

section Symbols

inductive Filler : List Char → Prop
  | blank {c : Char} : isBlank c = true → Filler [c]
  | opening : Filler ['{']
  | closing : Filler ['}']
  | left : Filler "\\left".toList
  | right : Filler "\\right".toList
  | quad : Filler "\\quad".toList
  | comma : Filler "\\,".toList
  | semicolon : Filler "\\;".toList
  | exclamation : Filler "\\!".toList

inductive Product : List Char → Prop
  | star : Product ['*']
  | cdot : Product "\\cdot".toList
  | times : Product "\\times".toList
  | ast : Product "\\ast".toList
  | cross : Product ['\u00d7']
  | middleDot : Product ['\u00b7']
  | dotOperator : Product ['\u22c5']

inductive Spelling (v : Char) : List Char → List Char → Prop
  | plus : Spelling v ['+'] ['+']
  | minus : Spelling v ['-'] ['-']
  | minusSign : Spelling v ['-'] ['\u2212']
  | literal {w : List Char} {x : Float} : Term.Numeral w x → Spelling v w w
  | product {s : List Char} : Product s → Spelling v ['*'] s
  | letter : Spelling v [v] [v]
  | power {ds : List Char} : ds ≠ [] → Term.AllDigits ds → Spelling v ('^' :: ds) ('^' :: ds)
  | braced {ds : List Char} : ds ≠ [] → Term.AllDigits ds →
      Spelling v ('^' :: ds) ('^' :: '{' :: ds ++ ['}'])
  | doubleStar {ds : List Char} : ds ≠ [] → Term.AllDigits ds →
      Spelling v ('^' :: ds) ('*' :: '*' :: ds)
  | equals : Spelling v ['='] ['=']

/-- A text that spells the symbols of the plain one, with anything that may stand between them. -/
inductive Spelled (v : Char) : List Char → List Char → Prop
  | nil : Spelled v [] []
  | filler {f plain text : List Char} : Filler f → Spelled v plain text →
      Spelled v plain (f ++ text)
  | symbol {w s plain text : List Char} : Spelling v w s → Spelled v plain text →
      Spelled v (w ++ plain) (s ++ text)

end Symbols

section Plain

structure Ordinary (c : Char) : Prop where
  ne_backslash : c ≠ '\\'
  symbol : plainSymbol c = c
  markup : isMarkup c = false

instance (c : Char) : Decidable (Ordinary c) :=
  decidable_of_iff (c ≠ '\\' ∧ plainSymbol c = c ∧ isMarkup c = false)
    ⟨fun h => ⟨h.1, h.2.1, h.2.2⟩, fun h => ⟨h.ne_backslash, h.symbol, h.markup⟩⟩

def Starless (c : Char) : Prop := Ordinary c ∧ c ≠ '*'

instance (c : Char) : Decidable (Starless c) := inferInstanceAs (Decidable (_ ∧ _))

def Apart (c d : Char) : Prop := c = '*' → d ≠ '*' ∧ d ≠ '^'

structure Plain (cs : List Char) : Prop where
  ordinary : ∀ c ∈ cs, Ordinary c
  apart : cs.IsChain Apart

variable {c : Char} {cs ds : List Char}

theorem Plain.of_cons (h : Plain (c :: cs)) : Plain cs :=
  ⟨fun d hd => h.ordinary d (List.mem_cons_of_mem c hd), h.apart.of_cons⟩

theorem Plain.of_append (h : Plain (cs ++ ds)) : Plain ds :=
  ⟨fun d hd => h.ordinary d (List.mem_append_right cs hd), h.apart.right_of_append⟩

theorem Plain.cons (h : Plain cs) (hc : Ordinary c) (hnext : ∀ d ∈ cs.head?, Apart c d) :
    Plain (c :: cs) :=
  ⟨List.forall_mem_cons.mpr ⟨hc, h.ordinary⟩, List.isChain_cons.mpr ⟨hnext, h.apart⟩⟩

theorem Plain.append (h : Plain ds) (hcs : ∀ c ∈ cs, Starless c) : Plain (cs ++ ds) := by
  induction cs with
  | nil => exact h
  | cons c cs ih =>
    rw [List.forall_mem_cons] at hcs
    exact (ih hcs.2).cons hcs.1.1 fun d _ hstar => absurd hstar hcs.1.2

theorem Plain.of_starless (h : ∀ c ∈ cs, Starless c) : Plain cs := by
  have hnil : Plain [] := ⟨by simp, .nil⟩
  simpa using hnil.append h

theorem Plain.append_head (h : Plain cs) (h' : Plain ds)
    (hhead : ∀ d ∈ ds.head?, d ≠ '*' ∧ d ≠ '^') : Plain (cs ++ ds) :=
  ⟨List.forall_mem_append.mpr ⟨h.ordinary, h'.ordinary⟩,
    h.apart.append h'.apart fun _ _ d hd _ => hhead d hd⟩

theorem Ordinary.bare_cons (h : Ordinary c) (cs : List Char) : bare (c :: cs) = c :: bare cs := by
  rw [Latex.bare_cons (by rw [h.symbol]; exact h.ne_backslash), h.symbol, h.markup]
  rfl

theorem bare_append_ordinary (h : ∀ c ∈ cs, Ordinary c) (ds : List Char) :
    bare (cs ++ ds) = cs ++ bare ds := by
  induction cs with
  | nil => rfl
  | cons c cs ih =>
    rw [List.cons_append, (h c List.mem_cons_self).bare_cons,
      ih fun d hd => h d (List.mem_cons_of_mem c hd), List.cons_append]

theorem ordinary_of_ascii (h : 33 ≤ c.toNat) (h' : c.toNat < 128)
    (hne : ∀ d ∈ ['\\', '{', '}'], c ≠ d) : Ordinary c := by
  refine ⟨hne _ (by simp), plainSymbol_of_ascii h', ?_⟩
  rw [isMarkup, isBlank_eq_false h h', beq_false_of_ne (hne '{' (by simp)),
    beq_false_of_ne (hne '}' (by simp))]
  rfl

theorem starless_of_isAlphanum (h : c.isAlphanum = true) : Starless c := by
  have hrange : 33 ≤ c.toNat ∧ c.toNat < 128 := by
    rw [Char.isAlphanum, Bool.or_eq_true, isAlpha_iff, isDigit_iff] at h
    omega
  refine ⟨ordinary_of_ascii hrange.1 hrange.2 ?_, ne_of_class h rfl⟩
  intro d hd
  fin_cases hd <;> exact ne_of_class h rfl

theorem bare_digits (h : Term.AllDigits cs) (ds : List Char) : bare (cs ++ ds) = cs ++ bare ds :=
  bare_append_ordinary
    (fun c hc => (starless_of_isAlphanum (by simp [Char.isAlphanum, h c hc])).1) ds

theorem joinStars_star (h : ∀ d ∈ (joinStars cs).head?, d ≠ '*' ∧ d ≠ '^') :
    joinStars ('*' :: cs) = '*' :: joinStars cs := by
  -- A star or two at the front of the rest would show in what becomes of it.
  cases cs using joinStars.induct with
  | case1 cs => exact absurd rfl (h '^' rfl).2
  | case2 c cs hne =>
    rw [joinStars.eq_2 c cs hne] at h
    apply joinStars.eq_2
    rintro ds - hcons
    cases hcons
    exact absurd rfl (h '*' rfl).1
  | case3 => rfl

theorem strip_cons (h : Ordinary c) (hnext : ∀ d ∈ (strip cs).head?, Apart c d) :
    strip (c :: cs) = c :: strip cs := by
  rw [strip_eq] at hnext ⊢
  rw [strip_eq, h.bare_cons]
  rcases eq_or_ne c '*' with rfl | hstar
  · exact joinStars_star fun d hd => hnext d hd rfl
  · exact joinStars_cons hstar _

theorem strip_append (h : Plain (cs ++ strip ds)) : strip (cs ++ ds) = cs ++ strip ds := by
  induction cs with
  | nil => rfl
  | cons c cs ih =>
    have hrest := ih h.of_cons
    rw [List.cons_append, strip_cons (h.ordinary c (by simp)), hrest, List.cons_append]
    rw [hrest]
    exact (List.isChain_cons.mp h.apart).1

end Plain

section Strip

variable {v c : Char} {f s w plain text cs : List Char}

theorem isMarkup_of_isBlank (h : isBlank c = true) : isMarkup c = true := by
  rw [isMarkup, h]
  rfl

theorem plainSymbol_of_isBlank (h : isBlank c = true) : plainSymbol c = c := by
  have hne (d : Char) (hd : isBlank d = false) : c ≠ d := ne_of_class h hd
  simp [plainSymbol, hne '\u2212' rfl, hne '\u00d7' rfl, hne '\u00b7' rfl, hne '\u22c5' rfl,
    hne '\u00f7' rfl]

theorem Filler.strip_append (h : Filler f) (cs : List Char) : strip (f ++ cs) = strip cs := by
  rw [strip_eq, strip_eq]
  apply congrArg joinStars
  cases h with
  | @blank c hc =>
    have hne : plainSymbol c ≠ '\\' := by
      rw [plainSymbol_of_isBlank hc]
      exact ne_of_class hc rfl
    rw [List.singleton_append, bare_cons hne, plainSymbol_of_isBlank hc, isMarkup_of_isBlank hc]
    rfl
  | opening | closing => rfl
  -- The passes run through the letters of a command without a look at the text behind it.
  | left | right | quad | comma | semicolon | exclamation => rfl

theorem Product.bare_append (h : Product s) (cs : List Char) : bare (s ++ cs) = '*' :: bare cs := by
  cases h with
  | star => rfl
  | cdot | times | ast => rfl
  | cross | middleDot | dotOperator => rfl

theorem Spelling.strip_append (h : Spelling v w s) (cs : List Char) :
    strip (s ++ cs) = strip (w ++ cs) := by
  rw [strip_eq, strip_eq]
  cases h with
  | plus | minus | equals | literal | letter | power => rfl
  | minusSign => rfl
  | product h => exact congrArg joinStars (h.bare_append cs)
  | @braced ds _ hds =>
    apply congrArg joinStars
    change '^' :: bare ((ds ++ ['}']) ++ cs) = '^' :: bare (ds ++ cs)
    rw [List.append_assoc, bare_digits hds, bare_digits hds]
    rfl
  | doubleStar => rfl

theorem Spelled.strip_eq (h : Spelled v plain text) (hplain : Plain plain) : strip text = plain := by
  induction h with
  | nil => rfl
  | filler hf _ ih => rw [hf.strip_append, ih hplain]
  | symbol hw _ ih =>
    -- What is left of the rest is plain text, so the symbol may be put in front of it.
    have hrest := ih hplain.of_append
    rw [hw.strip_append, Latex.strip_append (by rwa [hrest]), hrest]

theorem Plain.strip_eq (h : Plain cs) : strip cs = cs := by
  have hnil : strip [] = [] := rfl
  have happend : strip (cs ++ []) = cs ++ strip [] :=
    Latex.strip_append (by rwa [hnil, List.append_nil])
  rwa [hnil, List.append_nil] at happend

end Strip

end Latex

namespace Term

open Latex

variable {v : Char} {w w' cs : List Char} {x : Float} {n : Nat} {t : Term} {terms : List Term}

theorem AllDigits.starless (h : AllDigits cs) : ∀ c ∈ cs, Starless c :=
  fun c hc => starless_of_isAlphanum (by simp [Char.isAlphanum, h c hc])

theorem Numeral.starless (h : Numeral w x) : ∀ c ∈ w, Starless c := by
  cases h with
  | whole _ hds => exact hds.starless
  | pointed hds hfs =>
    rw [List.forall_mem_append, List.forall_mem_cons]
    exact ⟨hds.starless, by decide, hfs.starless⟩

theorem Power.starless (h : Power v w n) : ∀ c ∈ w, Starless c := by
  have hletter (hv : v.isAlpha = true) : Starless v :=
    starless_of_isAlphanum (by simp [Char.isAlphanum, hv])
  cases h with
  | bare hv => exact List.forall_mem_singleton.mpr (hletter hv)
  | raised hv _ hds =>
    rw [List.forall_mem_cons, List.forall_mem_cons]
    exact ⟨hletter hv, by decide, hds.starless⟩

theorem Power.plain_star (h : Power v w n) : Plain ('*' :: w) := by
  refine (Plain.of_starless h.starless).cons (by decide) ?_
  obtain ⟨hv, u, rfl⟩ := h.eq_cons
  rintro d ⟨⟩ -
  exact ⟨ne_of_class hv rfl, ne_of_class hv rfl⟩

theorem Body.plain (h : Body v w x n) : Plain w := by
  cases h with
  | number hw => exact .of_starless hw.starless
  | power hw => exact .of_starless hw.starless
  | product hw hw' => exact (Plain.of_starless hw'.starless).append hw.starless
  | starred hw hw' => exact hw'.plain_star.append hw.starless

theorem Written.plain (h : Written v w t) : Plain w := by
  cases h with
  | unsigned h => exact h.plain
  | plus h | minus h => exact h.plain.append (List.forall_mem_singleton.mpr (by decide))

theorem plain_flatten {ws : List (List Char)} (hws : ∀ w ∈ ws, Plain w)
    (hsigns : ∀ w ∈ ws.tail, StartsWithSign w) : Plain ws.flatten := by
  induction ws with
  | nil => exact .of_starless nofun
  | cons w ws ih =>
    rw [List.forall_mem_cons] at hws
    rw [List.tail_cons] at hsigns
    rw [List.flatten_cons]
    refine hws.1.append_head (ih hws.2 fun u hu => hsigns u (List.mem_of_mem_tail hu)) ?_
    intro d hd
    have hsign := isSign_of_head?_flatten hsigns d hd
    exact ⟨ne_of_class hsign rfl, ne_of_class hsign rfl⟩

theorem plain_of_listOfText (h : listOfText v cs = .ok terms) : Plain cs := by
  rw [listOfText_eq_ok_iff] at h
  rw [← flatten_signedTerms cs]
  apply plain_flatten
  · intro w hw
    obtain ⟨t, ht⟩ := Equation.exists_forall₂_iff.mp ⟨terms, h⟩ w hw
    exact ht.plain
  · intro w hw
    cases hwords : signedTerms cs with
    | nil =>
      rw [hwords] at hw
      cases hw
    | cons w' ws =>
      rw [hwords] at hw
      exact startsWithSign_of_signedTerms hwords w hw

end Term

namespace Equation

variable {v : Char} {left text : List Char} {terms : List Term}

theorem parse_spelled (hterms : Term.listOfText v left = .ok terms)
    (h : Latex.Spelled v (left ++ ['=', '0']) text) :
    Latex.strip text = left ++ ['=', '0'] ∧ parse v text = parse v (left ++ ['=', '0']) := by
  have hequals : Latex.Plain ['=', '0'] := by
    apply Latex.Plain.of_starless
    rw [List.forall_mem_cons, List.forall_mem_singleton]
    exact ⟨by decide, by decide⟩
  have hplain := (Term.plain_of_listOfText hterms).append_head hequals fun d hd => by
    cases hd
    decide
  have hstrip := h.strip_eq hplain
  refine ⟨hstrip, ?_⟩
  rw [parse, parse, hstrip, hplain.strip_eq]

theorem parse_spelled_cdot :
    Term.listOfText 'x' "3*x^2-2*x^3".toList =
        .ok [⟨false, Literal.decimal ['3'] [], 2⟩, ⟨true, Literal.decimal ['2'] [], 3⟩] ∧
      Latex.strip "3\\cdotx^\x7b2\x7d\\,\u22122*\\leftx**3 = 0".toList =
        "3*x^2-2*x^3".toList ++ ['=', '0'] ∧
      parse 'x' "3\\cdotx^\x7b2\x7d\\,\u22122*\\leftx**3 = 0".toList =
        parse 'x' ("3*x^2-2*x^3".toList ++ ['=', '0']) := by
  have hterms : Term.listOfText 'x' "3*x^2-2*x^3".toList =
      .ok [⟨false, Literal.decimal ['3'] [], 2⟩, ⟨true, Literal.decimal ['2'] [], 3⟩] := rfl
  have hdigit (d : Char) (hd : d.isDigit = true) : Term.AllDigits [d] :=
    List.forall_mem_singleton.mpr hd
  have hnumeral (d : Char) (hd : d.isDigit = true) :
      Term.Numeral [d] (Literal.decimal [d] []) :=
    .whole (List.cons_ne_nil _ _) (hdigit d hd)
  refine ⟨hterms, parse_spelled hterms ?_⟩
  refine .symbol (w := ['3']) (.literal (hnumeral '3' rfl)) ?_
  refine .symbol (w := ['*']) (.product .cdot) ?_
  refine .symbol (w := ['x']) .letter ?_
  refine .symbol (w := ['^', '2']) (.braced (List.cons_ne_nil _ _) (hdigit '2' rfl)) ?_
  refine .filler .comma ?_
  refine .symbol (w := ['-']) .minusSign ?_
  refine .symbol (w := ['2']) (.literal (hnumeral '2' rfl)) ?_
  refine .symbol (w := ['*']) (.product .star) ?_
  refine .filler .left ?_
  refine .symbol (w := ['x']) .letter ?_
  refine .symbol (w := ['^', '3']) (.doubleStar (List.cons_ne_nil _ _) (hdigit '3' rfl)) ?_
  refine .filler (.blank (c := ' ') rfl) ?_
  refine .symbol (w := ['=']) .equals ?_
  refine .filler (.blank (c := ' ') rfl) ?_
  exact .symbol (w := ['0']) (.literal (hnumeral '0' rfl)) .nil

end Equation

end Univariate
