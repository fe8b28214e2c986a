import Univariate.Proofs.Polynomial.Acceptance
import Univariate.Proofs.Polynomial.Stripping

namespace Univariate

namespace Latex

theorem strip_append_equals (l r : List Char) :
    strip (l ++ '=' :: r) = strip l ++ '=' :: strip r := by
  have hbare : bare (l ++ '=' :: r) = bare l ++ '=' :: bare r :=
    bare_append (.inr (.inr (.inr rfl))) l r
  rw [strip_eq, strip_eq, strip_eq, hbare, joinStars_append (by decide), joinStars_cons (by decide)]

end Latex

namespace Equation

variable {v : Char} {l r text : List Char}

section Signs

theorem isEmpty_strip_of_count (h : 0 < (Latex.strip text).count '=') :
    (Latex.strip text).isEmpty = false :=
  List.isEmpty_eq_false_iff.mpr (List.ne_nil_of_mem (List.count_pos_iff.mp h))

theorem parse_of_count_eq_one (h : (Latex.strip text).count '=' = 1) :
    parse v text = readSum v (leftSide (Latex.strip text)) := by
  have hempty := isEmpty_strip_of_count (h.symm ▸ Nat.zero_lt_one)
  simp only [parse, hempty, h, Bool.false_eq_true, if_false, if_true]

theorem parse_of_one_lt_count (h : 1 < (Latex.strip text).count '=') :
    parse v text = .error .invalidEquationFormat := by
  have hempty := isEmpty_strip_of_count (Nat.zero_lt_of_lt h)
  simp only [parse, hempty, h.ne', Bool.false_eq_true, if_false]

theorem polynomial?_of_count_le_one (h : (Latex.strip text).count '=' ≤ 1) :
    polynomial? v text =
      (readSum v (leftSide (Latex.strip text))).toOption.map Parsed.coefficients := by
  simp only [polynomial?, parseSide?, not_lt.mpr h, if_false, Option.bind_some]

theorem polynomial?_of_one_lt_count (h : 1 < (Latex.strip text).count '=') :
    polynomial? v text = none := by
  simp only [polynomial?, parseSide?, h, if_true, Option.bind_none, Option.map_none]

end Signs

section Sides

theorem count_equals (hl : '=' ∉ Latex.strip l) (hr : '=' ∉ Latex.strip r) :
    (Latex.strip (l ++ '=' :: r)).count '=' = 1 := by
  rw [Latex.strip_append_equals, List.count_append, List.count_cons_self,
    List.count_eq_zero.mpr hl, List.count_eq_zero.mpr hr]

theorem leftSide_equation (hl : '=' ∉ Latex.strip l) (r : List Char) :
    leftSide (Latex.strip (l ++ '=' :: r)) = Latex.strip l := by
  rw [Latex.strip_append_equals, leftSide_append hl]
  exact List.append_nil _

theorem parse_equation (hl : '=' ∉ Latex.strip l) (hr : '=' ∉ Latex.strip r) :
    parse v (l ++ '=' :: r) = readSum v (Latex.strip l) := by
  rw [parse_of_count_eq_one (count_equals hl hr), leftSide_equation hl]

theorem polynomial?_equation (hl : '=' ∉ Latex.strip l) (hr : '=' ∉ Latex.strip r) :
    polynomial? v (l ++ '=' :: r) =
      (readSum v (Latex.strip l)).toOption.map Parsed.coefficients := by
  rw [polynomial?_of_count_le_one (count_equals hl hr).le, leftSide_equation hl]

theorem polynomial?_side (hl : '=' ∉ Latex.strip l) :
    polynomial? v l = (readSum v (Latex.strip l)).toOption.map Parsed.coefficients := by
  have hcount : (Latex.strip l).count '=' = 0 := List.count_eq_zero.mpr hl
  rw [polynomial?_of_count_le_one (by omega), leftSide_eq fun c hc => ne_of_mem_of_not_mem hc hl]

end Sides

/-- Every way to read an equation with one sign gives what its left side alone is read as, or
fails with it. With more signs every way fails. -/
theorem reads_left_side (v : Char) :
    (∀ l r, '=' ∉ Latex.strip l → '=' ∉ Latex.strip r →
      parse v (l ++ '=' :: r) = readSum v (Latex.strip l) ∧
      parse v (l ++ ['=', '0']) = readSum v (Latex.strip l) ∧
      polynomial? v (l ++ '=' :: r) =
        (readSum v (Latex.strip l)).toOption.map Parsed.coefficients ∧
      polynomial? v l = (readSum v (Latex.strip l)).toOption.map Parsed.coefficients) ∧
    ∀ text, 2 ≤ (Latex.strip text).count '=' →
      parse v text = .error .invalidEquationFormat ∧ polynomial? v text = none := by
  constructor
  · intro l r hl hr
    have hzero : '=' ∉ Latex.strip ['0'] := by decide
    exact ⟨parse_equation hl hr, parse_equation hl hzero, polynomial?_equation hl hr,
      polynomial?_side hl⟩
  · intro text h
    exact ⟨parse_of_one_lt_count h, polynomial?_of_one_lt_count h⟩

theorem reads_left_side_open_braces :
    '=' ∉ Latex.strip "x^\x7b2".toList ∧ '=' ∉ Latex.strip "\x7d - 1".toList ∧
    parse 'x' ("x^\x7b2".toList ++ '=' :: "\x7d - 1".toList) =
      .ok (.ofTerms [⟨false, 1, 2⟩]) ∧
    polynomial? 'x' "x^\x7b2".toList = some (Term.total [⟨false, 1, 2⟩]) := by
  have hl : '=' ∉ Latex.strip "x^\x7b2".toList := by decide
  have hr : '=' ∉ Latex.strip "\x7d - 1".toList := by decide
  have hleft : readSum 'x' (Latex.strip "x^\x7b2".toList) =
      .ok (.ofTerms [⟨false, 1, 2⟩]) := rfl
  obtain ⟨hparse, -, -, hside⟩ := (reads_left_side 'x').1 _ _ hl hr
  rw [hleft] at hparse hside
  exact ⟨hl, hr, hparse, hside⟩

end Equation

end Univariate
