import Univariate.Proofs.Polynomial.Acceptance
import Univariate.Proofs.Polynomial.Stripping
import Univariate.Proofs.Polynomial.Term

namespace Univariate

open Decimal Double Text

namespace Dense

variable {v : Char} {x : Float}

theorem unsigned_abs (hx : x.isFinite = true) : Unsigned (unpacked x.abs) := by
  rw [isFinite_eq] at hx
  rw [unpacked_abs]
  cases hu : unpacked x with
  | notANumber =>
    rw [hu] at hx
    cases hx
  | infinity =>
    rw [hu] at hx
    cases hx
  | zero s => exact .zero
  | finite s m e h => exact .finite m e h

def chunks (unknown : List Char) (first : Bool) : List Float → List (List Char)
  | [] => []
  | c :: cs =>
    if c == 0 then chunks unknown first cs
    else
      (signMark first (decide (c < 0)) ++ termText unknown cs.length c.abs) ::
        chunks unknown false cs

def nonzeroTerms : List Float → List Term
  | [] => []
  | c :: cs =>
    if c == 0 then nonzeroTerms cs else ⟨decide (c < 0), c.abs, cs.length⟩ :: nonzeroTerms cs

def TextChar (unknown c : Char) : Prop := c = ' ' ∨ c = '+' ∨ c = '-' ∨ TermChar unknown c

theorem mem_signText {first negative : Bool} {d : Char} (h : d ∈ signText first negative) :
    d = ' ' ∨ d = '+' ∨ d = '-' := by
  cases first with
  | true =>
    cases negative with
    | true => exact .inr (.inr (List.mem_singleton.mp h))
    | false => cases h
  | false =>
    cases negative with
    | true | false =>
      simp only [signText, List.mem_cons, List.not_mem_nil, or_false] at h
      rcases h with rfl | rfl | rfl <;> simp

theorem textChar_termsText (first : Bool) {cs : List Float} (hf : ∀ c ∈ cs, c.isFinite = true) :
    ∀ d ∈ termsText [v] first cs, TextChar v d := by
  induction cs generalizing first with
  | nil =>
    intro d hd
    cases hd
  | cons c cs ih =>
    have hrest := fun b => ih b fun d hd => hf d (List.mem_cons_of_mem c hd)
    intro d hd
    rw [termsText] at hd
    split at hd
    · exact hrest first d hd
    · rcases List.mem_append.mp hd with hd | hd
      · rcases List.mem_append.mp hd with hd | hd
        · rcases mem_signText hd with h | h | h
          · exact .inl h
          · exact .inr (.inl h)
          · exact .inr (.inr (.inl h))
        · have habs := unsigned_abs (hf c List.mem_cons_self)
          exact .inr (.inr (.inr (termChar_termText habs cs.length d hd)))
      · exact hrest false d hd

theorem TextChar.ascii {c : Char} (hv : v.isAlpha = true) (h : TextChar v c) : c.toNat < 128 := by
  rcases h with rfl | rfl | rfl | h
  · decide
  · decide
  · decide
  · exact (h.ascii hv).2

theorem TextChar.ne {c d : Char} (hv : v.isAlpha = true) (h : TextChar v c)
    (hd : (d == ' ' || d == '+' || d == '-' || d.isAlphanum || d == '.' || d == '^') = false) :
    c ≠ d := by
  simp only [Bool.or_eq_false_iff, beq_eq_false_iff_ne] at hd
  obtain ⟨⟨⟨⟨⟨hblank, hplus⟩, hminus⟩, halpha⟩, hpoint⟩, hhat⟩ := hd
  rcases h with rfl | rfl | rfl | h
  · exact hblank.symm
  · exact hplus.symm
  · exact hminus.symm
  · apply h.ne hv
    rw [halpha, beq_false_of_ne hpoint, beq_false_of_ne hhat]
    rfl

theorem filter_termText (hv : v.isAlpha = true) (hx : Unsigned (unpacked x)) (power : Nat) :
    (termText [v] power x).filter (fun c => !Latex.isMarkup c) = termText [v] power x := by
  rw [List.filter_eq_self]
  intro c hc
  have hterm := termChar_termText hx power c hc
  have hblank := isBlank_eq_false (hterm.ascii hv).1 (hterm.ascii hv).2
  rw [Latex.isMarkup, hblank, beq_false_of_ne (hterm.ne hv (d := '{') rfl),
    beq_false_of_ne (hterm.ne hv (d := '}') rfl)]
  rfl

theorem filter_signText : ∀ first negative,
    (signText first negative).filter (fun c => !Latex.isMarkup c) = signMark first negative := by
  decide

theorem filter_termsText (hv : v.isAlpha = true) (first : Bool) {cs : List Float}
    (hf : ∀ c ∈ cs, c.isFinite = true) :
    (termsText [v] first cs).filter (fun c => !Latex.isMarkup c) =
      (chunks [v] first cs).flatten := by
  induction cs generalizing first with
  | nil => rfl
  | cons c cs ih =>
    have hrest := fun b => ih b fun d hd => hf d (List.mem_cons_of_mem c hd)
    rw [termsText, chunks]
    split
    · exact hrest first
    · rw [List.filter_append, List.filter_append, filter_signText,
        filter_termText hv (unsigned_abs (hf c List.mem_cons_self)), hrest false,
        List.flatten_cons]

theorem strip_termsText (hv : v.isAlpha = true) (first : Bool) {cs : List Float}
    (hf : ∀ c ∈ cs, c.isFinite = true) :
    Latex.strip (termsText [v] first cs) = (chunks [v] first cs).flatten := by
  have htext := textChar_termsText (v := v) first hf
  rw [Latex.strip_eq_filter, filter_termsText hv first hf]
  · exact fun c hc => (htext c hc).ascii hv
  · exact fun c hc => (htext c hc).ne hv rfl
  · exact fun c hc => (htext c hc).ne hv rfl

theorem chunk_chunks (hv : v.isAlpha = true) (first : Bool) {cs : List Float}
    (hf : ∀ c ∈ cs, c.isFinite = true) : ∀ w ∈ chunks [v] first cs, Chunk w := by
  induction cs generalizing first with
  | nil =>
    intro w hw
    cases hw
  | cons c cs ih =>
    have hrest := fun b => ih b fun d hd => hf d (List.mem_cons_of_mem c hd)
    intro w hw
    rw [chunks] at hw
    split at hw
    · exact hrest first w hw
    · rcases List.mem_cons.mp hw with rfl | hw
      · exact chunk_term hv (unsigned_abs (hf c List.mem_cons_self)) cs.length first _
      · exact hrest false w hw

theorem startsWithSign_chunks (cs : List Float) :
    ∀ w ∈ chunks [v] false cs, StartsWithSign w := by
  induction cs with
  | nil =>
    intro w hw
    cases hw
  | cons c cs ih =>
    intro w hw
    rw [chunks] at hw
    split at hw
    · exact ih w hw
    · rcases List.mem_cons.mp hw with rfl | hw
      · exact startsWithSign_term cs.length _
      · exact ih w hw

theorem mapM_chunks (hv : v.isAlpha = true) (first : Bool) {cs : List Float}
    (hf : ∀ c ∈ cs, c.isFinite = true) (hlength : cs.length ≤ Term.maxPower + 1) :
    (chunks [v] first cs).mapM (Term.ofText v) = .ok (nonzeroTerms cs) := by
  induction cs generalizing first with
  | nil => rfl
  | cons c cs ih =>
    rw [List.length_cons] at hlength
    have hrest := fun b => ih b (fun d hd => hf d (List.mem_cons_of_mem c hd)) (by omega)
    rw [chunks, nonzeroTerms]
    split
    · exact hrest first
    · rename_i hzero
      obtain ⟨s, m, e, h, hc⟩ := exists_unpacked_finite (hf c List.mem_cons_self)
        (Bool.eq_false_iff.mpr hzero)
      have habs : unpacked c.abs = .finite .positive m e h := by
        rw [unpacked_abs, hc]
        rfl
      rw [List.mapM_cons, Term.ofText_term hv habs (by omega), hrest false]
      rfl

def unsignedZero (c : Float) : Float := if c == 0 then 0 else c

theorem addAscending_nil (c : Float) (power : Nat) :
    addAscending c power [] = List.replicate power 0 ++ [0 + c] := by
  induction power with
  | zero => rfl
  | succ power ih =>
    rw [addAscending, ih]
    rfl

theorem addAscending_replicate (c : Float) (power : Nat) (done : List Float) :
    addAscending c power (List.replicate power 0 ++ 0 :: done) =
      List.replicate power 0 ++ (0 + c) :: done := by
  induction power with
  | zero => rfl
  | succ power ih =>
    rw [List.replicate_succ, List.cons_append, addAscending, ih]
    rfl

def addTerm (acc : List Float) (t : Term) : List Float :=
  addAscending t.coefficient t.power acc

theorem total_eq_foldl (terms : List Term) :
    Term.total terms = (terms.foldl addTerm []).reverse := by
  rw [Term.total, ofTerms, List.foldl_map]
  rfl

theorem coefficient_eq {c : Float} (hf : c.isFinite = true) (hzero : (c == 0) = false)
    (power : Nat) :
    0 + Term.coefficient ⟨decide (c < 0), c.abs, power⟩ = unsignedZero c := by
  obtain ⟨s, m, e, h, hc⟩ := exists_unpacked_finite hf hzero
  have hsigned := signed_abs hc
  rw [Term.coefficient, unsignedZero, hzero]
  simp only [decide_eq_true_eq, hsigned, Bool.false_eq_true, if_false]
  exact zero_add_of_finite hc

theorem foldl_nonzeroTerms {cs : List Float} (hf : ∀ c ∈ cs, c.isFinite = true)
    (done : List Float) :
    (nonzeroTerms cs).foldl addTerm (List.replicate cs.length 0 ++ done) =
      (cs.map unsignedZero).reverse ++ done := by
  -- The places below the terms added so far hold zeros; a skipped term leaves its place at zero.
  induction cs generalizing done with
  | nil => rfl
  | cons c cs ih =>
    have hrest := ih fun d hd => hf d (List.mem_cons_of_mem c hd)
    have hplace : List.replicate (c :: cs).length (0 : Float) ++ done =
        List.replicate cs.length 0 ++ 0 :: done := by
      rw [List.length_cons, List.replicate_succ', List.append_assoc, List.singleton_append]
    rw [hplace, nonzeroTerms, List.map_cons, List.reverse_cons, List.append_assoc,
      List.singleton_append]
    split
    · rename_i hzero
      have hc : unsignedZero c = 0 := if_pos hzero
      rw [hrest, hc]
    · rename_i hzero
      have hc := coefficient_eq (hf c List.mem_cons_self) (Bool.eq_false_iff.mpr hzero) cs.length
      rw [List.foldl_cons, addTerm, addAscending_replicate, hc, hrest]

theorem total_nonzeroTerms {c : Float} {cs : List Float} (hf : ∀ d ∈ c :: cs, d.isFinite = true)
    (hzero : (c == 0) = false) :
    Term.total (nonzeroTerms (c :: cs)) = (c :: cs).map unsignedZero := by
  have hc := coefficient_eq (hf c List.mem_cons_self) hzero cs.length
  have hrest := foldl_nonzeroTerms (fun d hd => hf d (List.mem_cons_of_mem c hd)) [unsignedZero c]
  rw [total_eq_foldl, nonzeroTerms, hzero]
  simp only [Bool.false_eq_true, if_false]
  rw [List.foldl_cons, addTerm, addAscending_nil, hc, hrest, List.reverse_append,
    List.reverse_reverse]
  rfl

theorem termsText_trim (first : Bool) (cs : List Float) :
    termsText [v] first (trim cs) = termsText [v] first cs := by
  induction cs with
  | nil => rfl
  | cons c cs ih =>
    unfold trim at ih ⊢
    rw [List.dropWhile_cons]
    split
    · rename_i hzero
      rw [termsText, if_pos hzero]
      exact ih
    · rfl

theorem trim_eq_nil_or (cs : List Float) :
    trim cs = [] ∨ ∃ d ds, trim cs = d :: ds ∧ (d == 0) = false := by
  cases htrim : trim cs with
  | nil => exact .inl rfl
  | cons d ds =>
    have hhead := List.head?_dropWhile_not (p := (· == (0 : Float))) (l := cs)
    have hdrop : cs.dropWhile (· == 0) = d :: ds := htrim
    rw [hdrop] at hhead
    exact .inr ⟨d, ds, rfl, hhead⟩

theorem beq_unsignedZero {cs : List Float} (hf : ∀ c ∈ cs, c.isFinite = true) :
    (cs.map unsignedZero == cs) = true := by
  induction cs with
  | nil => rfl
  | cons c cs ih =>
    have hc := hf c List.mem_cons_self
    have hhead : (unsignedZero c == c) = true := by
      unfold unsignedZero
      split
      · rename_i hzero
        rw [beq_iff_value_eq isFinite_zero hc]
        exact ((beq_iff_value_eq hc isFinite_zero).mp hzero).symm
      · exact beq_self hc
    rw [List.map_cons, List.cons_beq_cons, hhead, ih fun d hd => hf d (List.mem_cons_of_mem c hd)]
    rfl

end Dense

namespace Equation

open Univariate.Dense

variable {v : Char}

theorem polynomial?_zero (v : Char) : polynomial? v ['0'] = some [0] := by
  have hterms : Term.listOfText v ['0'] = .ok [⟨false, Literal.decimal ['0'] [], 0⟩] := rfl
  have hstrip : Latex.strip ['0'] = ['0'] := by decide +kernel
  have hequals : ∀ c ∈ ['0'], c ≠ '=' := by
    intro c hc
    cases List.mem_singleton.mp hc
    decide
  rw [polynomial?_of_strip hstrip hequals (List.cons_ne_nil _ _) hterms]
  have htotal : Term.total [⟨false, Literal.decimal ['0'] [], 0⟩] =
      [0 + Literal.decimal ['0'] []] := rfl
  have hzero : 0 + Literal.decimal ['0'] [] = 0 := eq_of_unpacked rfl
  rw [htotal, hzero]

theorem polynomial?_termsText (hv : v.isAlpha = true) {c : Float} {cs : List Float}
    (hf : ∀ d ∈ c :: cs, d.isFinite = true) (hlength : (c :: cs).length ≤ Term.maxPower + 1)
    (hzero : (c == 0) = false) :
    polynomial? v (termsText [v] true (c :: cs)) = some ((c :: cs).map unsignedZero) := by
  have hstrip := strip_termsText hv true hf
  have hchunks : chunks [v] true (c :: cs) =
      (signMark true (decide (c < 0)) ++ termText [v] cs.length c.abs) :: chunks [v] false cs := by
    rw [chunks, hzero]
    rfl
  have hread := mapM_chunks hv true hf hlength
  have hcut : signedTerms (chunks [v] true (c :: cs)).flatten = chunks [v] true (c :: cs) := by
    have hall := chunk_chunks hv true hf
    rw [hchunks] at hall ⊢
    exact signedTerms_flatten (hall _ List.mem_cons_self)
      (fun w hw => hall w (List.mem_cons_of_mem _ hw)) (startsWithSign_chunks cs)
  have hequals : ∀ d ∈ (chunks [v] true (c :: cs)).flatten, d ≠ '=' := by
    intro d hd
    rw [← filter_termsText hv true hf] at hd
    exact (textChar_termsText true hf d (List.mem_of_mem_filter hd)).ne hv rfl
  rw [polynomial?_of_strip hstrip hequals, total_nonzeroTerms hf hzero]
  · rw [nonzeroTerms, hzero]
    exact List.cons_ne_nil _ _
  · rw [Term.listOfText, hcut, hread]

theorem termsText_ne_nil {c : Float} {cs : List Float} (hf : c.isFinite = true)
    (hzero : (c == 0) = false) (first : Bool) : termsText [v] first (c :: cs) ≠ [] := by
  rw [termsText, hzero, List.append_assoc]
  exact List.append_ne_nil_of_right_ne_nil _
    (List.append_ne_nil_of_left_ne_nil (termText_ne_nil (unsigned_abs hf) _) _)

/-- A printed polynomial is read back without its leading zeros, the signs of zeros apart. -/
theorem polynomial?_format (hv : v.isAlpha = true) {cs : List Float}
    (hf : ∀ c ∈ cs, c.isFinite = true) (hlength : (trim cs).length ≤ Term.maxPower + 1) :
    (polynomial? v (format cs [v]) == some (orZero (trim cs))) = true := by
  unfold format
  rw [← termsText_trim]
  rcases trim_eq_nil_or cs with htrim | ⟨d, ds, htrim, hd⟩
  · rw [htrim]
    change (polynomial? v ['0'] == some [0]) = true
    rw [polynomial?_zero]
    decide +kernel
  · have hfd : ∀ c ∈ d :: ds, c.isFinite = true := by
      intro c hc
      rw [← htrim] at hc
      exact hf c ((List.dropWhile_sublist _).subset hc)
    have hne : (termsText [v] true (d :: ds)).isEmpty = false :=
      List.isEmpty_eq_false_iff.mpr (termsText_ne_nil (hfd d List.mem_cons_self) hd true)
    rw [htrim] at hlength ⊢
    dsimp only
    rw [hne, if_neg Bool.false_ne_true, polynomial?_termsText hv hfd hlength hd]
    exact beq_unsignedZero hfd

theorem polynomial?_format_signed_zero :
    (polynomial? 'x' (format [0, 2, -1, -0.0, 0.5] ['x']) ==
      some (orZero (trim [0, 2, -1, -0.0, 0.5]))) = true := by
  refine polynomial?_format rfl ?_ ?_
  · simp only [List.forall_mem_cons]
    decide +kernel
  · decide +kernel

end Equation

end Univariate
