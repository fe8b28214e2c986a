import Mathlib
import Univariate.Text.Blank
import Univariate.Text.Brackets
import Univariate.Text.DecimalDigit
import Univariate.Text.Symbols

namespace Univariate.Text

variable {c : Char}

theorem isDigit_iff : c.isDigit = true ↔ 48 ≤ c.toNat ∧ c.toNat ≤ 57 := by
  simp only [Char.isDigit, ge_iff_le, Bool.and_eq_true, decide_eq_true_eq, UInt32.le_iff_toNat_le]
  exact Iff.rfl

theorem isAlpha_iff : c.isAlpha = true ↔
    65 ≤ c.toNat ∧ c.toNat ≤ 90 ∨ 97 ≤ c.toNat ∧ c.toNat ≤ 122 := by
  simp only [Char.isAlpha, Char.isUpper, Char.isLower, ge_iff_le, Bool.or_eq_true,
    Bool.and_eq_true, decide_eq_true_eq, UInt32.le_iff_toNat_le]
  exact Iff.rfl

theorem isDigit_eq_false_of_isAlpha (h : c.isAlpha = true) : c.isDigit = false := by
  rw [Bool.eq_false_iff]
  intro hd
  rw [isAlpha_iff] at h
  rw [isDigit_iff] at hd
  omega

theorem inRanges_eq_false {ranges : List (Nat × Nat)} (h : ∀ r ∈ ranges, c.toNat < r.1) :
    inRanges ranges c = false := by
  rw [inRanges, List.any_eq_false]
  intro r hr
  have hlt := h r hr
  simp only [Bool.and_eq_true, decide_eq_true_eq, not_and]
  omega

theorem isDecimalDigit_of_ascii (h : c.toNat < 128) : isDecimalDigit c = c.isDigit := by
  have hrest : inRanges decimalDigits.tail c = false := by
    apply inRanges_eq_false
    intro r hr
    have hlow : ∀ r ∈ decimalDigits.tail, 128 ≤ r.1 := by decide
    exact Nat.lt_of_lt_of_le h (hlow r hr)
  have hcons : isDecimalDigit c =
      ((decide (0x30 ≤ c.toNat) && decide (c.toNat ≤ 0x39)) || inRanges decimalDigits.tail c) :=
    rfl
  rw [hcons, hrest, Bool.or_false, Bool.eq_iff_iff, isDigit_iff, Bool.and_eq_true,
    decide_eq_true_eq, decide_eq_true_eq]

theorem isBlank_eq_false (h : 33 ≤ c.toNat) (h' : c.toNat < 128) : isBlank c = false := by
  rw [isBlank, inRanges, List.any_eq_false]
  intro r hr
  have houtside : ∀ r ∈ blanks, r.2 < 33 ∨ 128 ≤ r.1 := by decide
  have := houtside r hr
  simp only [Bool.and_eq_true, decide_eq_true_eq, not_and]
  omega

def unspaced (cs : List Char) : List Char := cs.filter fun c => !isBlank c

theorem plainSymbol_of_ascii (h : c.toNat < 128) : plainSymbol c = c := by
  have hne : ∀ d : Char, 128 ≤ d.toNat → c ≠ d := by
    intro d hd heq
    rw [heq] at h
    omega
  unfold plainSymbol
  rw [if_neg (hne _ (by decide)), if_neg, if_neg (hne _ (by decide))]
  simp only [Bool.or_eq_true, decide_eq_true_eq, not_or]
  exact ⟨⟨hne _ (by decide), hne _ (by decide)⟩, hne _ (by decide)⟩

theorem ne_of_class {p : Char → Bool} {c d : Char} (hc : p c = true) (hd : p d = false) :
    c ≠ d := by
  rintro rfl
  rw [hd] at hc
  cases hc

theorem beq_eq_false_of_class {p : Char → Bool} {c d : Char} (hc : p c = true)
    (hd : p d = false) : (c == d) = false :=
  beq_false_of_ne (ne_of_class hc hd)

theorem not_bracket_of_class {p : Char → Bool} (h : p c = true)
    (hopen : p '(' = false ∧ p '[' = false ∧ p '{' = false)
    (hclose : p ')' = false ∧ p ']' = false ∧ p '}' = false) :
    isOpening c = false ∧ isClosing c = false := by
  have hne (d : Char) (hd : p d = false) : (c == d) = false := beq_eq_false_of_class h hd
  obtain ⟨ho₁, ho₂, ho₃⟩ := hopen
  obtain ⟨hc₁, hc₂, hc₃⟩ := hclose
  simp only [isOpening, isClosing, hne _ ho₁, hne _ ho₂, hne _ ho₃, hne _ hc₁, hne _ hc₂,
    hne _ hc₃, Bool.or_false, and_self]

theorem takeWhile_append_stop {p : Char → Bool} {cs rest : List Char} (h : ∀ c ∈ cs, p c = true)
    (hrest : ∀ c ∈ rest.head?, p c = false) : (cs ++ rest).takeWhile p = cs := by
  rw [List.takeWhile_append_of_pos h]
  cases rest with
  | nil => rw [List.takeWhile_nil, List.append_nil]
  | cons c rest =>
    rw [List.takeWhile_cons_of_neg (by rw [hrest c rfl]; exact Bool.false_ne_true),
      List.append_nil]

theorem dropWhile_append_stop {p : Char → Bool} {cs rest : List Char} (h : ∀ c ∈ cs, p c = true)
    (hrest : ∀ c ∈ rest.head?, p c = false) : (cs ++ rest).dropWhile p = rest := by
  rw [List.dropWhile_append_of_pos h]
  cases rest with
  | nil => rfl
  | cons c rest =>
    rw [List.dropWhile_cons_of_neg (by rw [hrest c rfl]; exact Bool.false_ne_true)]

end Univariate.Text
