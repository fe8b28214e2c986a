import Univariate.Polynomial.Printer
import Univariate.Proofs.Decimal.ReadBack
import Univariate.Proofs.Polynomial.Language

namespace Univariate

open Decimal Double Text

namespace Dense

def TermChar (unknown c : Char) : Prop :=
  c.isDigit = true ∨ c = '.' ∨ c = '^' ∨ c = unknown

def signMark (first negative : Bool) : List Char :=
  if negative then ['-'] else if first then [] else ['+']

def exponentText (power : Nat) : List Char :=
  if power = 0 then [] else '^' :: Nat.toDigits 10 (power + 1)

variable {v : Char} {x : Float}

theorem termText_zero : termText [v] 0 x = plain x := rfl

theorem termText_succ (power : Nat) : termText [v] (power + 1) x =
    (if x == 1 then [] else plain x) ++ v :: exponentText power := by
  rw [termText, List.append_assoc]
  rfl

theorem termChar_plain (hx : Unsigned (unpacked x)) : ∀ c ∈ plain x, TermChar v c := by
  intro c hc
  rw [plain_eq hx] at hc
  rcases List.mem_append.mp hc with hc | hc
  · exact .inl (isDigit_whole x c hc)
  · split at hc
    · cases hc
    · rcases List.mem_cons.mp hc with rfl | hc
      · exact .inr (.inl rfl)
      · exact .inl (isDigit_fraction x c hc)

theorem termChar_exponentText (power : Nat) : ∀ c ∈ exponentText power, TermChar v c := by
  intro c hc
  unfold exponentText at hc
  split at hc
  · cases hc
  · rcases List.mem_cons.mp hc with rfl | hc
    · exact .inr (.inr (.inl rfl))
    · exact .inl (Digits.isDigit_toDigits hc)

theorem termChar_termText (hx : Unsigned (unpacked x)) (power : Nat) :
    ∀ c ∈ termText [v] power x, TermChar v c := by
  intro c hc
  cases power with
  | zero => exact termChar_plain hx c hc
  | succ power =>
    rw [termText_succ] at hc
    rcases List.mem_append.mp hc with hc | hc
    · split at hc
      · cases hc
      · exact termChar_plain hx c hc
    · rcases List.mem_cons.mp hc with rfl | hc
      · exact .inr (.inr (.inr rfl))
      · exact termChar_exponentText power c hc

theorem TermChar.ascii {c : Char} (hv : v.isAlpha = true) (h : TermChar v c) :
    33 ≤ c.toNat ∧ c.toNat < 128 := by
  rw [isAlpha_iff] at hv
  rcases h with h | rfl | rfl | rfl
  · rw [isDigit_iff] at h
    omega
  · decide
  · decide
  · omega

theorem TermChar.ne {c d : Char} (hv : v.isAlpha = true) (h : TermChar v c)
    (hd : (d.isAlphanum || d == '.' || d == '^') = false) : c ≠ d := by
  simp only [Char.isAlphanum, Bool.or_eq_false_iff, beq_eq_false_iff_ne] at hd
  obtain ⟨⟨⟨halpha, hdigit⟩, hpoint⟩, hhat⟩ := hd
  rintro rfl
  rcases h with h | h | h | rfl
  · rw [hdigit] at h
    cases h
  · exact hpoint h
  · exact hhat h
  · rw [halpha] at hv
    cases hv

theorem TermChar.smooth {c : Char} (hv : v.isAlpha = true) (h : TermChar v c) : Smooth c := by
  have hne : ∀ d : Char, (d.isAlphanum || d == '.' || d == '^') = false → (c == d) = false :=
    fun d hd => beq_false_of_ne (h.ne hv hd)
  refine ⟨?_, ?_, ?_⟩
  · rw [isSign, hne '+' rfl, hne '-' rfl, Bool.or_false]
  · rw [isOpening, hne '(' rfl, hne '[' rfl, hne '{' rfl, Bool.or_false, Bool.or_false]
  · rw [isClosing, hne ')' rfl, hne ']' rfl, hne '}' rfl, Bool.or_false, Bool.or_false]

theorem termText_ne_nil (hx : Unsigned (unpacked x)) (power : Nat) : termText [v] power x ≠ [] := by
  cases power with
  | zero =>
    rw [termText_zero]
    exact plain_ne_nil hx
  | succ power =>
    rw [termText_succ]
    exact List.append_ne_nil_of_right_ne_nil _ (List.cons_ne_nil _ _)

theorem bindsSign_of_isAlphanum {c : Char} (h : c.isAlphanum = true) : bindsSign c = false := by
  have hne : ∀ d : Char, d.isAlphanum = false → (c == d) = false :=
    fun _ hd => beq_eq_false_of_class h hd
  rw [bindsSign, isOpening, hne '^' rfl, hne '*' rfl, hne '/' rfl, hne '(' rfl, hne '[' rfl,
    hne '{' rfl]
  rfl

theorem bindsSign_of_isDigit {c : Char} (h : c.isDigit = true) : bindsSign c = false := by
  apply bindsSign_of_isAlphanum
  rw [Char.isAlphanum, h, Bool.or_true]

theorem exists_last {cs : List Char} (h : cs ≠ []) : ∃ u c, cs = u ++ [c] ∧ c ∈ cs :=
  ⟨cs.dropLast, cs.getLast h, (List.dropLast_concat_getLast h).symm, List.getLast_mem h⟩

theorem plain_ends (hx : Unsigned (unpacked x)) :
    ∃ u c, plain x = u ++ [c] ∧ c.isDigit = true := by
  rw [plain_eq hx]
  split
  · obtain ⟨u, c, hu, hc⟩ := exists_last (whole_ne_nil x)
    refine ⟨u, c, ?_, isDigit_whole x c hc⟩
    rw [List.append_nil, ← hu]
  · rename_i hf
    obtain ⟨u, c, hu, hc⟩ := exists_last hf
    refine ⟨whole x ++ '.' :: u, c, ?_, isDigit_fraction x c hc⟩
    rw [List.append_assoc, List.cons_append, ← hu]

theorem termText_ends (hv : v.isAlpha = true) (hx : Unsigned (unpacked x)) (power : Nat) :
    ∃ u c, termText [v] power x = u ++ [c] ∧ bindsSign c = false := by
  cases power with
  | zero =>
    obtain ⟨u, c, hu, hc⟩ := plain_ends hx
    exact ⟨u, c, hu, bindsSign_of_isDigit hc⟩
  | succ power =>
    rw [termText_succ]
    generalize (if x == 1 then [] else plain x) = number
    unfold exponentText
    split
    · refine ⟨number, v, rfl, bindsSign_of_isAlphanum ?_⟩
      rw [Char.isAlphanum, hv, Bool.true_or]
    · obtain ⟨u, c, hu, hc⟩ := exists_last (Nat.toDigits_ne_nil (n := power + 1) (b := 10))
      refine ⟨number ++ v :: '^' :: u, c, ?_, bindsSign_of_isDigit (Digits.isDigit_toDigits hc)⟩
      rw [List.append_assoc, List.cons_append, List.cons_append, ← hu]

theorem chunk_term (hv : v.isAlpha = true) (hx : Unsigned (unpacked x)) (power : Nat)
    (first negative : Bool) : Chunk (signMark first negative ++ termText [v] power x) := by
  have hsmooth : ∀ c ∈ termText [v] power x, Smooth c :=
    fun c hc => (termChar_termText hx power c hc).smooth hv
  obtain ⟨u, c, hu, hc⟩ := termText_ends hv hx power
  constructor
  · unfold signMark
    split
    · exact ⟨'-', _, rfl, by decide, hsmooth⟩
    · split
      · cases hterm : termText [v] power x with
        | nil => exact absurd hterm (termText_ne_nil hx power)
        | cons d ds =>
          rw [hterm] at hsmooth
          exact ⟨d, ds, rfl, depthAfter_zero (hsmooth d List.mem_cons_self).2.1,
            fun c hc => hsmooth c (List.mem_cons_of_mem d hc)⟩
      · exact ⟨'+', _, rfl, by decide, hsmooth⟩
  · exact ⟨signMark first negative ++ u, c, by rw [hu, List.append_assoc], hc⟩

theorem startsWithSign_term (power : Nat) (negative : Bool) :
    StartsWithSign (signMark false negative ++ termText [v] power x) := by
  cases negative with
  | true => exact ⟨'-', _, rfl, rfl⟩
  | false => exact ⟨'+', _, rfl, rfl⟩

end Dense

namespace Term

open Univariate.Dense

variable {v : Char} {x : Float}

theorem numeral_plain (hx : Unsigned (unpacked x)) : Numeral (plain x) x := by
  have hback := decimal_whole_fraction hx
  rw [plain_eq hx]
  split
  · rename_i hf
    rw [hf] at hback
    have hwhole := Numeral.whole (whole_ne_nil x) (isDigit_whole x)
    rw [hback] at hwhole
    rw [List.append_nil]
    exact hwhole
  · have hpointed := Numeral.pointed (isDigit_whole x) (isDigit_fraction x)
      (List.append_ne_nil_of_left_ne_nil (whole_ne_nil x) _)
    rw [hback] at hpointed
    exact hpointed

theorem power_exponentText (hv : v.isAlpha = true) {power : Nat} (h : power + 1 ≤ maxPower) :
    Power v (v :: exponentText power) (power + 1) := by
  unfold exponentText
  split
  · rename_i hzero
    rw [hzero]
    exact .bare hv
  · have hraised := Power.raised hv (Nat.toDigits_ne_nil (n := power + 1) (b := 10))
      (fun c hc => Digits.isDigit_toDigits hc) (by rwa [Digits.value_toDigits])
    rw [Digits.value_toDigits] at hraised
    exact hraised

theorem body_termText (hv : v.isAlpha = true) {m : Nat} {e : Int} {h : 0 < m}
    (hx : unpacked x = .finite .positive m e h) {power : Nat} (hpower : power ≤ maxPower) :
    Body v (termText [v] power x) x power := by
  have hun : Unsigned (unpacked x) := by
    rw [hx]
    exact .finite m e h
  cases power with
  | zero => exact .number (numeral_plain hun)
  | succ power =>
    rw [termText_succ]
    split
    · rename_i hone
      obtain rfl : x = 1 := eq_of_beq_finite hx hone
      exact .power (power_exponentText hv hpower)
    · exact .product (numeral_plain hun) (power_exponentText hv hpower)

theorem written_signMark {w : List Char} {power : Nat} (h : Body v w x power)
    (first negative : Bool) : Written v (signMark first negative ++ w) ⟨negative, x, power⟩ := by
  cases negative with
  | true => exact .minus h
  | false =>
    cases first with
    | true => exact .unsigned h
    | false => exact .plus h

theorem ofText_term (hv : v.isAlpha = true) {m : Nat} {e : Int} {h : 0 < m}
    (hx : unpacked x = .finite .positive m e h) {power : Nat} (hpower : power ≤ maxPower)
    (first negative : Bool) :
    ofText v (signMark first negative ++ termText [v] power x) = .ok ⟨negative, x, power⟩ :=
  ofText_of_written (written_signMark (body_termText hv hx hpower) first negative)

end Term

end Univariate
