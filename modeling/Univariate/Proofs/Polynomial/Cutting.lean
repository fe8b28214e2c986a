import Univariate.Proofs.Polynomial.Acceptance
import Univariate.Proofs.Text.Positions

namespace Univariate.Equation

open Text

theorem signs_cases (cs : List Char) :
    (positions '=' cs = [] ∧ cs.count '=' = 0 ∧ leftSide cs = cs) ∨
    (∃ p, positions '=' cs = [p] ∧ cs.count '=' = 1 ∧
      ∃ right, cut? p cs = some (leftSide cs, right)) ∨
    ∃ p q ps, positions '=' cs = p :: q :: ps ∧ 1 < cs.count '=' := by
  have hequals := lists_positions '=' cs
  have hcount := hequals.length_eq
  rcases hps : positions '=' cs with _ | ⟨p, _ | ⟨q, ps⟩⟩
  · rw [hps, List.length_nil] at hcount
    have hnone : '=' ∉ cs := List.count_eq_zero.mp hcount.symm
    exact .inl ⟨rfl, hcount.symm, leftSide_eq fun c hc heq => hnone (heq ▸ hc)⟩
  · rw [hps] at hequals hcount
    exact .inr (.inl ⟨p, rfl, hcount.symm, _, hequals.cut?_head⟩)
  · rw [hps, List.length_cons, List.length_cons] at hcount
    exact .inr (.inr ⟨p, q, ps, rfl, by omega⟩)

/-- An equation is cut at its only sign, which always succeeds, and what stands before it is read. -/
theorem parse_eq_cut (unknown : Char) (text : List Char) :
    (if (Latex.strip text).isEmpty then some (.error .emptyInput)
      else match positions '=' (Latex.strip text) with
        | [p] => (cut? p (Latex.strip text)).map fun (left, _) => readSum unknown left
        | _ => some (.error .invalidEquationFormat)) = some (parse unknown text) := by
  rw [parse]
  dsimp only
  generalize Latex.strip text = cs
  split
  · rfl
  · rcases signs_cases cs with ⟨hps, hcount, -⟩ | ⟨p, hps, hcount, right, hcut⟩ |
      ⟨p, q, ps, hps, hcount⟩
    · rw [hps, if_neg (by omega)]
    · rw [hps, if_pos hcount]
      dsimp only
      rw [hcut, Option.map_some]
    · rw [hps, if_neg (by omega)]

theorem parseSide?_eq_cut (unknown : Char) (text : List Char) :
    (match positions '=' (Latex.strip text) with
      | [] => some (some (readSum unknown (Latex.strip text)))
      | [p] => (cut? p (Latex.strip text)).map fun (left, _) => some (readSum unknown left)
      | _ => some none) = some (parseSide? unknown text) := by
  rw [parseSide?]
  dsimp only
  generalize Latex.strip text = cs
  rcases signs_cases cs with ⟨hps, hcount, hleft⟩ | ⟨p, hps, hcount, right, hcut⟩ |
    ⟨p, q, ps, hps, hcount⟩
  · rw [hps, if_neg (by omega), hleft]
  · rw [hps, if_neg (by omega)]
    dsimp only
    rw [hcut, Option.map_some]
  · rw [hps, if_pos hcount]

end Univariate.Equation
