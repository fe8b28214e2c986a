import Univariate.Text.SignedTerms

namespace Univariate.Text

def isSign (c : Char) : Bool := c == '+' || c == '-'

def Smooth (c : Char) : Prop := isSign c = false ∧ isOpening c = false ∧ isClosing c = false

structure Chunk (w : List Char) : Prop where
  smooth : ∃ c u, w = c :: u ∧ depthAfter 0 c = 0 ∧ ∀ d ∈ u, Smooth d
  ends : ∃ u c, w = u ++ [c] ∧ bindsSign c = false

def StartsWithSign (w : List Char) : Prop := ∃ c u, w = c :: u ∧ isSign c = true

theorem depthAfter_zero {c : Char} (h : isOpening c = false) : depthAfter 0 c = 0 := by
  unfold depthAfter
  rw [h]
  split
  · rename_i h
    cases h
  · split
    · rfl
    · rfl

theorem isOpening_of_isSign {c : Char} (h : isSign c = true) : isOpening c = false := by
  unfold isSign at h
  rw [Bool.or_eq_true, beq_iff_eq, beq_iff_eq] at h
  rcases h with rfl | rfl
  · decide
  · decide

theorem signedTermsAfter_smooth {u : List Char} (hu : ∀ d ∈ u, Smooth d) (last : Char)
    (before rest : List Char) :
    ∃ last' before', last' :: before' = u.reverse ++ last :: before ∧
      signedTermsAfter 0 last before (u ++ rest) = signedTermsAfter 0 last' before' rest := by
  induction u generalizing last before with
  | nil => exact ⟨last, before, rfl, rfl⟩
  | cons d u ih =>
    obtain ⟨hsign, hopen, -⟩ := hu d List.mem_cons_self
    obtain ⟨last', before', hrev, hterms⟩ :=
      ih (fun c hc => hu c (List.mem_cons_of_mem d hc)) d (last :: before)
    refine ⟨last', before', ?_, ?_⟩
    · rw [hrev, List.reverse_cons, List.append_assoc, List.singleton_append]
    · rw [← hterms, List.cons_append, signedTermsAfter, depthAfter_zero hopen]
      rw [isSign] at hsign
      rw [hsign]
      rfl

theorem signedTermsAfter_sign {s last : Char} (hs : isSign s = true) (hlast : bindsSign last = false)
    (before rest : List Char) :
    signedTermsAfter 0 last before (s :: rest) =
      (last :: before).reverse :: signedTermsAfter 0 s [] rest := by
  rw [signedTermsAfter, depthAfter_zero (isOpening_of_isSign hs), hlast]
  rw [isSign] at hs
  rw [hs]
  rfl

theorem Chunk.read {w : List Char} (hw : Chunk w) (rest : List Char) :
    ∃ s u last before, w = s :: u ∧ depthAfter 0 s = 0 ∧ bindsSign last = false ∧
      (last :: before).reverse = w ∧
      signedTermsAfter 0 s [] (u ++ rest) = signedTermsAfter 0 last before rest := by
  obtain ⟨⟨s, u, rfl, hdepth, hu⟩, v, c, hend, hc⟩ := hw
  obtain ⟨last, before, hrev, hterms⟩ := signedTermsAfter_smooth hu s [] rest
  have hword : (last :: before).reverse = s :: u := by
    rw [hrev, ← List.reverse_cons, List.reverse_reverse]
  have hlast : last = c := by
    rw [hend, List.reverse_cons] at hword
    exact List.singleton_inj.mp (List.append_inj_right' hword rfl)
  refine ⟨s, u, last, before, rfl, hdepth, ?_, hword, hterms⟩
  rw [hlast]
  exact hc

theorem signedTermsAfter_flatten {ws : List (List Char)} (hws : ∀ w ∈ ws, Chunk w)
    (hsigns : ∀ w ∈ ws, StartsWithSign w) {last : Char} (hlast : bindsSign last = false)
    (before : List Char) :
    signedTermsAfter 0 last before ws.flatten = (last :: before).reverse :: ws := by
  induction ws generalizing last before with
  | nil => rfl
  | cons w ws ih =>
    obtain ⟨s, u, last', before', rfl, -, hlast', hword, hterms⟩ :=
      (hws w List.mem_cons_self).read ws.flatten
    obtain ⟨s', u', heq, hs⟩ := hsigns _ List.mem_cons_self
    cases heq
    have hrest := ih (fun w hw => hws w (List.mem_cons_of_mem _ hw))
      (fun w hw => hsigns w (List.mem_cons_of_mem _ hw)) hlast' before'
    rw [List.flatten_cons, List.cons_append, signedTermsAfter_sign hs hlast, hterms, hrest, hword]

theorem signedTerms_flatten {w : List Char} {ws : List (List Char)} (hw : Chunk w)
    (hws : ∀ w ∈ ws, Chunk w) (hsigns : ∀ w ∈ ws, StartsWithSign w) :
    signedTerms (w :: ws).flatten = w :: ws := by
  obtain ⟨s, u, last, before, rfl, hdepth, hlast, hword, hterms⟩ := hw.read ws.flatten
  rw [List.flatten_cons, List.cons_append, signedTerms, hdepth, hterms,
    signedTermsAfter_flatten hws hsigns hlast, hword]

theorem signedTermsAfter_eq_cons (depth : Nat) (last : Char) (before cs : List Char) :
    ∃ u ws, signedTermsAfter depth last before cs = ((last :: before).reverse ++ u) :: ws ∧
      ∀ w ∈ ws, StartsWithSign w := by
  induction cs generalizing depth last before with
  | nil => exact ⟨[], [], by simp [signedTermsAfter], by simp⟩
  | cons c cs ih =>
    rw [signedTermsAfter]
    split
    · rename_i hcut
      obtain ⟨u, ws, hterms, hws⟩ := ih (depthAfter depth c) c []
      refine ⟨[], _, by rw [List.append_nil], ?_⟩
      intro w hw
      rw [hterms] at hw
      rcases List.mem_cons.mp hw with rfl | hw
      · simp only [Bool.and_eq_true] at hcut
        exact ⟨c, u, rfl, hcut.1.1⟩
      · exact hws w hw
    · obtain ⟨u, ws, hterms, hws⟩ := ih (depthAfter depth c) c (last :: before)
      exact ⟨c :: u, ws, by simp [hterms], hws⟩

theorem startsWithSign_of_signedTerms {cs w : List Char} {ws : List (List Char)}
    (h : signedTerms cs = w :: ws) : ∀ u ∈ ws, StartsWithSign u := by
  cases cs with
  | nil => cases h
  | cons c cs =>
    obtain ⟨u, ws', hterms, hws⟩ := signedTermsAfter_eq_cons (depthAfter 0 c) c [] cs
    rw [signedTerms, hterms] at h
    cases h
    exact hws

theorem startsWithSign_after {cs w : List Char} {before after : List (List Char)}
    (h : signedTerms cs = before ++ w :: after) : ∀ u ∈ after, StartsWithSign u := by
  cases before with
  | nil => exact startsWithSign_of_signedTerms h
  | cons w' before =>
    intro u hu
    exact startsWithSign_of_signedTerms h u (by simp [hu])

theorem isSign_of_head?_flatten {ws : List (List Char)} (h : ∀ w ∈ ws, StartsWithSign w) :
    ∀ c ∈ ws.flatten.head?, isSign c = true := by
  cases ws with
  | nil => simp
  | cons w ws =>
    obtain ⟨c, u, rfl, hc⟩ := h w List.mem_cons_self
    intro d hd
    cases hd
    exact hc

theorem signedTerms_eq_nil_iff {cs : List Char} : signedTerms cs = [] ↔ cs = [] := by
  constructor
  · intro h
    rw [← flatten_signedTerms cs, h]
    rfl
  · rintro rfl
    rfl

section Cuts

def depth (cs : List Char) : Nat := cs.foldl depthAfter 0

/-- Some of the terms make up `before`, and another starts behind it. -/
def CutBehind (before : List Char) (terms : List (List Char)) : Prop :=
  ∃ ws ws', terms = ws ++ ws' ∧ ws' ≠ [] ∧ ws.flatten = before

theorem cutBehind_nil {terms : List (List Char)} (h : terms ≠ []) : CutBehind [] terms :=
  ⟨[], terms, rfl, h, rfl⟩

theorem cutBehind_cons {w : List Char} (hw : w ≠ []) (before : List Char)
    (terms : List (List Char)) : CutBehind (w ++ before) (w :: terms) ↔ CutBehind before terms := by
  constructor
  · rintro ⟨ws, ws', hterms, hne, hbefore⟩
    cases ws with
    | nil => exact absurd (List.append_eq_nil_iff.mp hbefore.symm).1 hw
    | cons u ws =>
      cases hterms
      exact ⟨ws, ws', rfl, hne, List.append_cancel_left hbefore⟩
  · rintro ⟨ws, ws', rfl, hne, rfl⟩
    exact ⟨w :: ws, ws', rfl, hne, rfl⟩

theorem not_cutBehind_inside {before u : List Char} (hbefore : before ≠ []) (hu : u ≠ [])
    (terms : List (List Char)) : ¬ CutBehind before ((before ++ u) :: terms) := by
  rintro ⟨ws, ws', hterms, -, hflatten⟩
  cases ws with
  | nil => exact hbefore hflatten.symm
  | cons w ws =>
    cases hterms
    rw [List.flatten_cons, List.append_assoc, List.append_right_eq_self] at hflatten
    exact hu (List.append_eq_nil_iff.mp hflatten).1

theorem isSign_iff {c : Char} : isSign c = true ↔ c = '+' ∨ c = '-' := by
  rw [isSign, Bool.or_eq_true, beq_iff_eq, beq_iff_eq]

theorem depthAfter_of_isSign {c : Char} (h : isSign c = true) (depth : Nat) :
    depthAfter depth c = depth := by
  rcases isSign_iff.mp h with rfl | rfl <;> rfl

theorem bindsSign_eq_false_iff {c : Char} :
    bindsSign c = false ↔ c ∉ ['^', '*', '/', '(', '[', '{'] := by
  simp only [bindsSign, isOpening, Bool.or_eq_false_iff, beq_eq_false_iff_ne, List.mem_cons,
    List.not_mem_nil, or_false, not_or, and_assoc, ne_eq]

theorem startsTerm_iff (depth : Nat) (last c : Char) :
    ((c == '+' || c == '-') && depthAfter depth c == 0 && !bindsSign last) = true ↔
      isSign c = true ∧ depth = 0 ∧ bindsSign last = false := by
  rw [← isSign, Bool.and_eq_true, Bool.and_eq_true, beq_iff_eq, Bool.not_eq_true', and_assoc]
  exact and_congr_right fun hc => by rw [depthAfter_of_isSign hc]

theorem cutBehind_signedTermsAfter (depth : Nat) (last : Char) (before u : List Char) (c : Char)
    (after : List Char) :
    CutBehind ((last :: before).reverse ++ u) (signedTermsAfter depth last before (u ++ c :: after)) ↔
      isSign c = true ∧ u.foldl depthAfter depth = 0 ∧
        bindsSign ((last :: u).getLast (List.cons_ne_nil _ _)) = false := by
  have hne (c : Char) (cs : List Char) : (c :: cs).reverse ≠ [] := by simp
  induction u generalizing depth last before with
  | nil =>
    rw [List.nil_append, signedTermsAfter]
    split
    · rename_i hcut
      obtain ⟨v, ws, hterms, -⟩ := signedTermsAfter_eq_cons (depthAfter depth c) c [] after
      have hbehind := cutBehind_nil (List.cons_ne_nil ([c].reverse ++ v) ws)
      rw [hterms, cutBehind_cons (hne last before)]
      exact iff_of_true hbehind ((startsTerm_iff depth last c).mp hcut)
    · rename_i hcut
      obtain ⟨v, ws, hterms, -⟩ :=
        signedTermsAfter_eq_cons (depthAfter depth c) c (last :: before) after
      have hgoesOn : (c :: last :: before).reverse ++ v = (last :: before).reverse ++ c :: v := by
        rw [List.reverse_cons, List.append_assoc, List.singleton_append]
      rw [List.append_nil, hterms, hgoesOn]
      exact iff_of_false (not_cutBehind_inside (hne last before) (List.cons_ne_nil c v) ws)
        fun h => hcut ((startsTerm_iff depth last c).mpr h)
  | cons d u ih =>
    rw [List.cons_append, signedTermsAfter, List.foldl_cons, List.getLast_cons_cons]
    split
    · rw [cutBehind_cons (hne last before)]
      exact ih (depthAfter depth d) d []
    · have hrest := ih (depthAfter depth d) d (last :: before)
      rwa [List.reverse_cons, List.append_assoc] at hrest

theorem ne_nil_of_mem_signedTerms {cs w : List Char} (h : w ∈ signedTerms cs) : w ≠ [] := by
  cases cs with
  | nil => cases h
  | cons c cs =>
    obtain ⟨u, ws, hterms, hws⟩ := signedTermsAfter_eq_cons (depthAfter 0 c) c [] cs
    rw [signedTerms, hterms] at h
    rcases List.mem_cons.mp h with rfl | h
    · simp
    · obtain ⟨d, v, rfl, -⟩ := hws w h
      exact List.cons_ne_nil d v

/-- Nothing is lost of a sum, no term is empty, and a term starts at just those signs that stand
outside all brackets and behind no operator. -/
theorem signedTerms_cuts (cs : List Char) :
    (signedTerms cs).flatten = cs ∧ (∀ w ∈ signedTerms cs, w ≠ []) ∧
    ∀ before last c after, cs = before ++ last :: c :: after →
      (CutBehind (before ++ [last]) (signedTerms cs) ↔
        (c = '+' ∨ c = '-') ∧ depth (before ++ [last]) = 0 ∧
          last ∉ ['^', '*', '/', '(', '[', '{']) := by
  refine ⟨flatten_signedTerms cs, fun w => ne_nil_of_mem_signedTerms, ?_⟩
  rintro before last c after rfl
  rw [← isSign_iff, ← bindsSign_eq_false_iff]
  cases before with
  | nil => exact cutBehind_signedTermsAfter (depthAfter 0 last) last [] [] c after
  | cons d before =>
    have hcut := cutBehind_signedTermsAfter (depthAfter 0 d) d [] (before ++ [last]) c after
    have hlast : (d :: (before ++ [last])).getLast (List.cons_ne_nil _ _) = last :=
      List.getLast_concat (l := d :: before)
    rw [List.append_assoc, List.singleton_append, hlast] at hcut
    exact hcut

theorem signedTerms_cuts_once :
    CutBehind ['2', '*', '-', '3', ')'] (signedTerms "2*-3)+(x-1)".toList) ∧
    ¬ CutBehind ['2', '*'] (signedTerms "2*-3)+(x-1)".toList) ∧
    ¬ CutBehind "2*-3)+(x".toList (signedTerms "2*-3)+(x-1)".toList) := by
  obtain ⟨-, -, hcut⟩ := signedTerms_cuts "2*-3)+(x-1)".toList
  refine ⟨(hcut ['2', '*', '-', '3'] ')' '+' "(x-1)".toList rfl).mpr (by decide), fun h => ?_,
    fun h => ?_⟩
  · have hbinds := ((hcut ['2'] '*' '-' "3)+(x-1)".toList rfl).mp h).2.2
    exact hbinds (by decide)
  · have hdepth := ((hcut "2*-3)+(".toList 'x' '-' "1)".toList rfl).mp h).2.1
    exact absurd hdepth (by decide)

end Cuts

end Univariate.Text
