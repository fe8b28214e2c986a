import Univariate.Polynomial.Term
import Univariate.Proofs.Text.Ascii
import Univariate.Proofs.Text.SignedTerms

/-!
# The language of terms

`Written v w t` says that `w` spells the term `t` in the letter `v`: an optional sign before a
decimal literal, a power of the letter, or both, with an optional star between the two. The reader
of terms accepts exactly these words.
-/

namespace Univariate.Term

open Decimal Text

def AllDigits (ds : List Char) : Prop := ∀ c ∈ ds, c.isDigit = true

inductive Numeral : List Char → Float → Prop
  | whole {ds : List Char} : ds ≠ [] → AllDigits ds → Numeral ds (Literal.decimal ds [])
  | pointed {ds fs : List Char} : AllDigits ds → AllDigits fs → ds ++ fs ≠ [] →
      Numeral (ds ++ '.' :: fs) (Literal.decimal ds fs)

inductive Power (v : Char) : List Char → Nat → Prop
  | bare : v.isAlpha = true → Power v [v] 1
  | raised {ds : List Char} : v.isAlpha = true → ds ≠ [] → AllDigits ds →
      Literal.value ds ≤ maxPower → Power v (v :: '^' :: ds) (Literal.value ds)

inductive Body (v : Char) : List Char → Float → Nat → Prop
  | number {w : List Char} {x : Float} : Numeral w x → Body v w x 0
  | power {w : List Char} {n : Nat} : Power v w n → Body v w 1 n
  | product {w w' : List Char} {x : Float} {n : Nat} : Numeral w x → Power v w' n →
      Body v (w ++ w') x n
  | starred {w w' : List Char} {x : Float} {n : Nat} : Numeral w x → Power v w' n →
      Body v (w ++ '*' :: w') x n

inductive Written (v : Char) : List Char → Term → Prop
  | unsigned {w : List Char} {x : Float} {n : Nat} : Body v w x n → Written v w ⟨false, x, n⟩
  | plus {w : List Char} {x : Float} {n : Nat} : Body v w x n → Written v ('+' :: w) ⟨false, x, n⟩
  | minus {w : List Char} {x : Float} {n : Nat} : Body v w x n → Written v ('-' :: w) ⟨true, x, n⟩

variable {v : Char} {w w' cs rest body : List Char} {x : Float} {n : Nat} {t : Term}

section Classes

theorem isDecimalDigit_of_isDigit {c : Char} (h : c.isDigit = true) :
    isDecimalDigit c = true := by
  have hascii : c.toNat < 128 := by
    rw [isDigit_iff] at h
    omega
  rw [isDecimalDigit_of_ascii hascii, h]

theorem isDecimalDigit_of_isAlpha {c : Char} (h : c.isAlpha = true) :
    isDecimalDigit c = false := by
  have hascii : c.toNat < 128 := by
    rw [isAlpha_iff] at h
    omega
  rw [isDecimalDigit_of_ascii hascii, isDigit_eq_false_of_isAlpha h]

theorem isSign_of_class {p : Char → Bool} {c : Char} (hc : p c = true) (hplus : p '+' = false)
    (hminus : p '-' = false) : isSign c = false := by
  rw [isSign, beq_eq_false_of_class hc hplus, beq_eq_false_of_class hc hminus]
  rfl

end Classes

section Accepted

theorem Power.eq_cons (h : Power v w n) : v.isAlpha = true ∧ ∃ u, w = v :: u := by
  cases h with
  | bare hv => exact ⟨hv, [], rfl⟩
  | raised hv => exact ⟨hv, _, rfl⟩

theorem Numeral.head (h : Numeral w x) : ∃ c u, w = c :: u ∧ isSign c = false := by
  have hdigit : ∀ {c : Char} {ds : List Char}, AllDigits (c :: ds) → isSign c = false :=
    fun hds => isSign_of_class (hds _ List.mem_cons_self) rfl rfl
  cases h with
  | whole hne hds =>
    cases w with
    | nil => exact absurd rfl hne
    | cons c ds => exact ⟨c, ds, rfl, hdigit hds⟩
  | @pointed ds fs hds =>
    cases ds with
    | nil => exact ⟨'.', fs, rfl, rfl⟩
    | cons c ds => exact ⟨c, _, rfl, hdigit hds⟩

theorem Body.head (h : Body v w x n) : ∃ c u, w = c :: u ∧ isSign c = false := by
  cases h with
  | number hw => exact hw.head
  | power hw =>
    obtain ⟨hv, u, rfl⟩ := hw.eq_cons
    exact ⟨v, u, rfl, isSign_of_class hv rfl rfl⟩
  | product hw _ =>
    obtain ⟨c, u, rfl, hc⟩ := hw.head
    exact ⟨c, _, rfl, hc⟩
  | starred hw _ =>
    obtain ⟨c, u, rfl, hc⟩ := hw.head
    exact ⟨c, _, rfl, hc⟩

theorem sign_of_head {c : Char} (h : isSign c = false) (u : List Char) :
    Literal.sign (c :: u) = (false, c :: u) := by
  rw [isSign, Bool.or_eq_false_iff, beq_eq_false_iff_ne, beq_eq_false_iff_ne] at h
  unfold Literal.sign
  split
  · rename_i heq
    cases heq
    exact absurd rfl h.2
  · rename_i heq
    cases heq
    exact absurd rfl h.1
  · rfl

theorem literalPrefix_numeral (rest : List Char) (h : Numeral w x)
    (hrest : ∀ c ∈ rest.head?, isDecimalDigit c = false ∧ c ≠ '.') :
    ∃ p, literalPrefix (w ++ rest) = (some p, rest) ∧ magnitude? (some p) = some x := by
  have hstop : ∀ c ∈ rest.head?, isDecimalDigit c = false := fun c hc => (hrest c hc).1
  have hdecimal : ∀ {ds : List Char}, AllDigits ds → ∀ c ∈ ds, isDecimalDigit c = true :=
    fun hds c hc => isDecimalDigit_of_isDigit (hds c hc)
  cases h with
  | whole hne hds =>
    refine ⟨(w, []), ?_, ?_⟩
    · unfold literalPrefix
      rw [takeWhile_append_stop (hdecimal hds) hstop, dropWhile_append_stop (hdecimal hds) hstop]
      dsimp only
      split
      · exact absurd rfl (hrest '.' rfl).2
      · rw [List.isEmpty_eq_false_iff.mpr hne]
        rfl
    · rw [magnitude?, if_pos]
      rw [List.append_nil, List.all_eq_true]
      exact hds
  | @pointed ds fs hds hfs hne =>
    have hpoint : ∀ c ∈ ('.' :: (fs ++ rest)).head?, isDecimalDigit c = false := by
      intro c hc
      cases hc
      decide
    refine ⟨(ds, fs), ?_, ?_⟩
    · rw [List.append_assoc, List.cons_append]
      unfold literalPrefix
      rw [takeWhile_append_stop (hdecimal hds) hpoint, dropWhile_append_stop (hdecimal hds) hpoint]
      change (if (ds.isEmpty && ((fs ++ rest).takeWhile isDecimalDigit).isEmpty) = true
        then _ else (some (_, (fs ++ rest).takeWhile isDecimalDigit),
          (fs ++ rest).dropWhile isDecimalDigit)) = _
      rw [takeWhile_append_stop (hdecimal hfs) hstop, dropWhile_append_stop (hdecimal hfs) hstop,
        if_neg]
      simpa using hne
    · rw [magnitude?, if_pos]
      rw [List.all_eq_true]
      intro c hc
      exact (List.mem_append.mp hc).elim (hds c) (hfs c)

theorem powerShape?_power (h : Power v w n) :
    ∃ e, powerShape? w = some (v, e) ∧ power? (some v) e = some n := by
  cases h with
  | bare hv => exact ⟨none, if_pos hv, rfl⟩
  | @raised ds hv hne hds hle =>
    have hdecimal : ds.all isDecimalDigit = true :=
      List.all_eq_true.mpr fun c hc => isDecimalDigit_of_isDigit (hds c hc)
    refine ⟨some ds, ?_, ?_⟩
    · rw [powerShape?, hv, hdecimal, List.isEmpty_eq_false_iff.mpr hne]
      rfl
    · rw [power?, List.all_eq_true.mpr hds, decide_eq_true hle]
      rfl

theorem literalPrefix_of_head {c : Char} (u : List Char) (hc : isDecimalDigit c = false)
    (hpoint : c ≠ '.') : literalPrefix (c :: u) = (none, c :: u) := by
  unfold literalPrefix
  simp only [List.takeWhile_cons, List.dropWhile_cons, hc, Bool.false_eq_true, if_false]
  split
  · rename_i heq
    cases heq
    exact absurd rfl hpoint
  · rfl

theorem ofText_of_shape {s : Shape} (hshape : shape? cs = some s)
    (hliteral : (s.literal.isNone && (s.letter.isNone || s.star)) = false)
    (hletter : s.letter.any (· != v) = false) (hmagnitude : magnitude? s.literal = some x)
    (hpower : power? s.letter s.exponent = some n) :
    ofText v cs = .ok ⟨s.negative, x, n⟩ := by
  unfold ofText
  rw [hshape]
  dsimp only
  rw [hliteral, hletter, hmagnitude, hpower]
  rfl

theorem Power.shape? {negative : Bool} {literal : Option (List Char × List Char)}
    (h : Power v w n) (hsign : Literal.sign cs = (negative, body))
    (hliteral : literalPrefix body = (literal, w)) :
    ∃ e, shape? cs = some ⟨negative, literal, false, some v, e⟩ ∧ power? (some v) e = some n := by
  obtain ⟨e, hpower, hn⟩ := powerShape?_power h
  obtain ⟨hv, u, rfl⟩ := h.eq_cons
  refine ⟨e, ?_, hn⟩
  unfold Term.shape?
  rw [hsign]
  dsimp only
  rw [hliteral]
  split
  · rename_i heq
    cases heq
  · rename_i heq
    cases heq
    cases hv
  · rw [hpower]
    rfl

theorem any_ne_self (v : Char) : (some v).any (· != v) = false := by
  rw [Option.any_some, bne_self_eq_false]

theorem ofText_of_body {negative : Bool} (h : Body v body x n)
    (hsign : Literal.sign cs = (negative, body)) : ofText v cs = .ok ⟨negative, x, n⟩ := by
  cases h with
  | number hw =>
    obtain ⟨p, hliteral, hx⟩ := literalPrefix_numeral [] hw fun c hc => nomatch hc
    rw [List.append_nil] at hliteral
    have hshape : shape? cs = some ⟨negative, some p, false, none, none⟩ := by
      unfold shape?
      rw [hsign]
      dsimp only
      rw [hliteral]
    exact ofText_of_shape hshape rfl rfl hx rfl
  | power hw =>
    obtain ⟨hv, u, hcons⟩ := hw.eq_cons
    have hliteral : literalPrefix body = (none, body) := by
      rw [hcons]
      refine literalPrefix_of_head u (isDecimalDigit_of_isAlpha hv) ?_
      rintro rfl
      cases hv
    obtain ⟨e, hshape, hn⟩ := hw.shape? hsign hliteral
    exact ofText_of_shape hshape rfl (any_ne_self v) rfl hn
  | @product w w' _ _ hw hw' =>
    obtain ⟨hv, u, hcons⟩ := hw'.eq_cons
    obtain ⟨p, hliteral, hx⟩ := literalPrefix_numeral w' hw (by
      rw [hcons]
      rintro c ⟨⟩
      refine ⟨isDecimalDigit_of_isAlpha hv, ?_⟩
      rintro rfl
      cases hv)
    obtain ⟨e, hshape, hn⟩ := hw'.shape? hsign hliteral
    exact ofText_of_shape hshape rfl (any_ne_self v) hx hn
  | @starred w w' _ _ hw hw' =>
    obtain ⟨p, hliteral, hx⟩ := literalPrefix_numeral ('*' :: w') hw (by
      rintro c ⟨⟩
      decide)
    obtain ⟨e, hpower, hn⟩ := powerShape?_power hw'
    have hshape : shape? cs = some ⟨negative, some p, true, some v, e⟩ := by
      unfold shape?
      rw [hsign]
      dsimp only
      rw [hliteral]
      change (powerShape? w').map _ = _
      rw [hpower]
      rfl
    exact ofText_of_shape hshape rfl (any_ne_self v) hx hn

theorem ofText_of_written (h : Written v cs t) : ofText v cs = .ok t := by
  cases h with
  | unsigned h =>
    obtain ⟨c, u, rfl, hc⟩ := h.head
    exact ofText_of_body h (sign_of_head hc u)
  | plus h => exact ofText_of_body h rfl
  | minus h => exact ofText_of_body h rfl

end Accepted

section Read

theorem numeral_of_literalPrefix {p : List Char × List Char}
    (h : literalPrefix body = (some p, rest)) (hx : magnitude? (some p) = some x) :
    ∃ w, body = w ++ rest ∧ Numeral w x := by
  obtain ⟨ds, fs⟩ := p
  rw [magnitude?] at hx
  split at hx
  · rename_i hall
    cases hx
    rw [List.all_eq_true] at hall
    have hds : AllDigits ds := fun c hc => hall c (List.mem_append_left fs hc)
    have hfs : AllDigits fs := fun c hc => hall c (List.mem_append_right ds hc)
    have hbody := List.takeWhile_append_dropWhile (p := isDecimalDigit) (l := body)
    unfold literalPrefix at h
    dsimp only at h
    split at h
    · rename_i ds' hdrop
      have hrest := List.takeWhile_append_dropWhile (p := isDecimalDigit) (l := ds')
      split at h
      · cases h
      · rename_i hne
        cases h
        refine ⟨_, ?_, .pointed hds hfs ?_⟩
        · rw [List.append_assoc, List.cons_append, hrest, ← hdrop, hbody]
        · simpa using hne
    · split at h
      · cases h
      · rename_i hne
        cases h
        exact ⟨_, hbody.symm, .whole (by simpa using hne) hds⟩
  · cases hx

theorem rest_of_literalPrefix_none (h : literalPrefix body = (none, rest)) : rest = body := by
  unfold literalPrefix at h
  dsimp only at h
  split at h
  · split at h
    · cases h
      rfl
    · cases h
  · split at h
    · cases h
      rfl
    · cases h

theorem power_of_powerShape? {c : Char} {e : Option (List Char)}
    (h : powerShape? rest = some (c, e)) (hn : power? (some c) e = some n) : Power c rest n := by
  unfold powerShape? at h
  split at h
  · split at h
    · cases h
      cases hn
      exact .bare ‹_›
    · cases h
  · split at h
    · rename_i hall
      cases h
      simp only [Bool.and_eq_true, Bool.not_eq_true', List.isEmpty_eq_false_iff] at hall
      rw [power?] at hn
      split at hn
      · rename_i hdigits
        simp only [Bool.and_eq_true, decide_eq_true_eq, List.all_eq_true] at hdigits
        cases hn
        exact .raised hall.1.1 hall.1.2 hdigits.1 hdigits.2
      · cases hn
    · cases h
  · cases h

theorem eq_of_any_ne {c : Char} (h : (some c).any (· != v) = false) : c = v := by
  rw [Option.any_some, bne_eq_false_iff_eq] at h
  exact h

theorem exists_of_map_powerShape? {f : Char × Option (List Char) → Shape} {s : Shape}
    (h : (powerShape? rest).map f = some s) : ∃ c e, powerShape? rest = some (c, e) ∧ f (c, e) = s := by
  obtain ⟨⟨c, e⟩, hpower, hs⟩ := Option.map_eq_some_iff.mp h
  exact ⟨c, e, hpower, hs⟩

theorem body_of_shape? {s : Shape} (h : shape? cs = some s)
    (hliteral : (s.literal.isNone && (s.letter.isNone || s.star)) = false)
    (hletter : s.letter.any (· != v) = false) (hx : magnitude? s.literal = some x)
    (hn : power? s.letter s.exponent = some n) :
    ∃ body, Literal.sign cs = (s.negative, body) ∧ Body v body x n := by
  unfold shape? at h
  generalize Literal.sign cs = p at h
  obtain ⟨negative, body⟩ := p
  dsimp only at h
  generalize hprefix : literalPrefix body = p at h
  obtain ⟨literal, rest⟩ := p
  dsimp only at h
  split at h
  · cases h
    cases literal with
    | none => cases hliteral
    | some p =>
      obtain ⟨w, rfl, hw⟩ := numeral_of_literalPrefix hprefix hx
      cases hn
      rw [List.append_nil]
      exact ⟨w, rfl, .number hw⟩
  · obtain ⟨c, e, hpower, rfl⟩ := exists_of_map_powerShape? h
    obtain rfl := eq_of_any_ne hletter
    cases literal with
    | none => cases hliteral
    | some p =>
      obtain ⟨w, rfl, hw⟩ := numeral_of_literalPrefix hprefix hx
      exact ⟨_, rfl, .starred hw (power_of_powerShape? hpower hn)⟩
  · obtain ⟨c, e, hpower, rfl⟩ := exists_of_map_powerShape? h
    obtain rfl := eq_of_any_ne hletter
    have hpower' := power_of_powerShape? hpower hn
    cases literal with
    | none =>
      cases hx
      obtain rfl := rest_of_literalPrefix_none hprefix
      exact ⟨_, rfl, .power hpower'⟩
    | some p =>
      obtain ⟨w, rfl, hw⟩ := numeral_of_literalPrefix hprefix hx
      exact ⟨_, rfl, .product hw hpower'⟩

theorem written_of_body {negative : Bool} (hsign : Literal.sign cs = (negative, body))
    (h : Body v body x n) : Written v cs ⟨negative, x, n⟩ := by
  unfold Literal.sign at hsign
  split at hsign
  · cases hsign
    exact .minus h
  · cases hsign
    exact .plus h
  · cases hsign
    exact .unsigned h

theorem written_of_ofText (h : ofText v cs = .ok t) : Written v cs t := by
  unfold ofText at h
  dsimp only at h
  split at h
  · cases h
  · rename_i s hshape
    split at h
    · cases h
    · rename_i hliteral
      split at h
      · cases h
      · rename_i hletter
        split at h
        · rename_i x n hx hn
          cases h
          rw [Bool.not_eq_true] at hliteral hletter
          obtain ⟨body, hsign, hbody⟩ := body_of_shape? hshape hliteral hletter hx hn
          exact written_of_body hsign hbody
        · cases h

end Read

theorem ofText_eq_ok_iff : ofText v w = .ok t ↔ Written v w t :=
  ⟨written_of_ofText, ofText_of_written⟩

theorem mapM_eq_ok_iff {ε α β : Type} {f : α → Except ε β} {xs : List α} {ys : List β} :
    xs.mapM f = .ok ys ↔ List.Forall₂ (fun x y => f x = .ok y) xs ys := by
  induction xs generalizing ys with
  | nil =>
    rw [List.forall₂_nil_left_iff]
    exact ⟨fun h => by cases h; rfl, fun h => by cases h; rfl⟩
  | cons x xs ih =>
    rw [List.mapM_cons, List.forall₂_cons_left_iff]
    constructor
    · intro h
      cases hx : f x with
      | error e =>
        rw [hx] at h
        cases h
      | ok y =>
        cases hxs : xs.mapM f with
        | error e =>
          rw [hx, hxs] at h
          cases h
        | ok ys' =>
          rw [hx, hxs] at h
          cases h
          exact ⟨y, ys', rfl, ih.mp hxs, rfl⟩
    · rintro ⟨y, ys', hx, hxs, rfl⟩
      rw [hx, ih.mpr hxs]
      rfl

theorem listOfText_eq_ok_iff {terms : List Term} :
    listOfText v cs = .ok terms ↔ List.Forall₂ (Written v) (signedTerms cs) terms := by
  rw [listOfText, mapM_eq_ok_iff]
  simp only [ofText_eq_ok_iff]

theorem Power.le (h : Power v w n) : n ≤ maxPower := by
  cases h with
  | bare => decide
  | raised _ _ _ hle => exact hle

theorem Body.power_le (h : Body v w x n) : n ≤ maxPower := by
  cases h with
  | number => exact Nat.zero_le _
  | power hw | product _ hw | starred _ hw => exact hw.le

theorem Written.power_le (h : Written v w t) : t.power ≤ maxPower := by
  cases h with
  | unsigned h | plus h | minus h => exact h.power_le

end Univariate.Term
