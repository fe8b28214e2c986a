import Univariate.Polynomial.Equation
import Univariate.Proofs.Polynomial.Collecting
import Univariate.Proofs.Polynomial.Language

namespace Univariate

open Text

namespace Term

/-- The coefficients of a power added up from zero, in the order of the terms. -/
def sumOf (power : Nat) (terms : List Term) : Float :=
  ((terms.filter fun t => t.power = power).map coefficient).foldl (· + ·) 0

theorem totalOf_eq_sumOf (power : Nat) (terms : List Term) :
    Dense.totalOf power (terms.map fun t => (t.power, t.coefficient)) = sumOf power terms := by
  rw [Dense.totalOf, sumOf, List.filter_map, List.foldl_map, List.foldl_map]
  rfl

theorem degree_eq {terms : List Term} {t : Term} (ht : t ∈ terms)
    (hle : ∀ u ∈ terms, u.power ≤ t.power) : degree terms = t.power := by
  have hmax : (terms.map power).max? = some t.power :=
    List.max?_eq_some_iff.mpr ⟨List.mem_map_of_mem ht, List.forall_mem_map.mpr hle⟩
  rw [degree, hmax, Option.getD_some]

theorem total_spec {terms : List Term} (hne : terms ≠ []) :
    (∃ t ∈ terms, t.power = degree terms) ∧ (∀ t ∈ terms, t.power ≤ degree terms) ∧
      (total terms).length = degree terms + 1 ∧
      ∀ k ≤ degree terms, (total terms)[degree terms - k]? = some (sumOf k terms) := by
  have hmap : terms.map (fun t => (t.power, t.coefficient)) ≠ [] := by simpa using hne
  obtain ⟨largest, hmem, hle, hlength, htotal⟩ := Dense.ofTerms_spec hmap
  obtain ⟨t, ht, rfl⟩ : ∃ t ∈ terms, t.power = largest := by simpa using hmem
  have hle : ∀ u ∈ terms, u.power ≤ t.power := by simpa using hle
  rw [degree_eq ht hle]
  refine ⟨⟨t, ht, rfl⟩, hle, hlength, ?_⟩
  intro k hk
  rw [← totalOf_eq_sumOf]
  exact htotal k hk

theorem power_le_of_forall₂ {v : Char} {ws : List (List Char)} {terms : List Term}
    (h : List.Forall₂ (Written v) ws terms) : ∀ t ∈ terms, t.power ≤ maxPower := by
  induction h with
  | nil => simp
  | cons hw _ ih => exact List.forall_mem_cons.mpr ⟨hw.power_le, ih⟩

end Term

namespace Equation

variable {v : Char} {text sum : List Char} {parsed : Parsed} {cs : List Float}

theorem readSum_eq_ok_iff : readSum v sum = .ok parsed ↔
    ∃ terms, List.Forall₂ (Term.Written v) (signedTerms sum) terms ∧ terms ≠ [] ∧
      parsed = .ofTerms terms := by
  simp only [← Term.listOfText_eq_ok_iff]
  unfold readSum
  constructor
  · intro h
    split at h
    · cases h
    · cases h
    · rename_i terms hne hterms
      cases h
      exact ⟨terms, hterms, hne, rfl⟩
  · rintro ⟨terms, hterms, hne, rfl⟩
    rw [hterms]
    split
    · rename_i heq
      cases heq
    · rename_i heq
      cases heq
      exact absurd rfl hne
    · rename_i heq
      cases heq
      rfl

theorem parse_eq_ok_iff_readSum : parse v text = .ok parsed ↔
    (Latex.strip text).count '=' = 1 ∧ readSum v (leftSide (Latex.strip text)) = .ok parsed := by
  unfold parse
  dsimp only
  split
  · rename_i hempty
    rw [List.isEmpty_iff.mp hempty]
    exact ⟨nofun, fun h => absurd h.1 (by decide)⟩
  · split
    · rename_i hcount
      exact ⟨fun h => ⟨hcount, h⟩, And.right⟩
    · rename_i hcount
      exact ⟨nofun, fun h => absurd h.1 hcount⟩

theorem parse_of_strip {w : List Char} {terms : List Term} (hstrip : Latex.strip text = w)
    (hcount : w.count '=' = 1) (hterms : Term.listOfText v (leftSide w) = .ok terms)
    (hne : terms ≠ []) : parse v text = .ok (.ofTerms terms) := by
  rw [parse_eq_ok_iff_readSum, readSum_eq_ok_iff, hstrip]
  exact ⟨hcount, terms, Term.listOfText_eq_ok_iff.mp hterms, hne, rfl⟩

theorem leftSide_eq {w : List Char} (hequals : ∀ c ∈ w, c ≠ '=') : leftSide w = w :=
  List.takeWhile_eq_self_iff.mpr fun c hc => bne_iff_ne.mpr (hequals c hc)

theorem leftSide_append {cs : List Char} (h : '=' ∉ cs) (ds : List Char) :
    leftSide (cs ++ ds) = cs ++ leftSide ds := by
  unfold leftSide
  rw [List.takeWhile_append_of_pos]
  intro c hc
  rw [bne_iff_ne]
  rintro rfl
  exact h hc

theorem polynomial?_eq_some_iff : polynomial? v text = some cs ↔
    (Latex.strip text).count '=' ≤ 1 ∧
      ∃ parsed, readSum v (leftSide (Latex.strip text)) = .ok parsed ∧
        parsed.coefficients = cs := by
  unfold polynomial? parseSide?
  dsimp only
  split
  · rename_i hcount
    exact ⟨nofun, fun h => absurd h.1 (by omega)⟩
  · rename_i hcount
    rw [Option.bind_some]
    cases readSum v (leftSide (Latex.strip text)) with
    | error => simp [Except.toOption]
    | ok => simp [Except.toOption]; omega

theorem polynomial?_of_strip {w : List Char} {terms : List Term} (hstrip : Latex.strip text = w)
    (hequals : ∀ c ∈ w, c ≠ '=') (hne : terms ≠ []) (hterms : Term.listOfText v w = .ok terms) :
    polynomial? v text = some (Term.total terms) := by
  have hcount : w.count '=' = 0 := List.count_eq_zero.mpr fun hc => hequals '=' hc rfl
  rw [polynomial?_eq_some_iff, hstrip, leftSide_eq hequals, hcount]
  exact ⟨Nat.zero_le 1, .ofTerms terms,
    readSum_eq_ok_iff.mpr ⟨terms, Term.listOfText_eq_ok_iff.mp hterms, hne, rfl⟩, rfl⟩

theorem exists_forall₂_iff {α β : Type} {R : α → β → Prop} {xs : List α} :
    (∃ ys, List.Forall₂ R xs ys) ↔ ∀ x ∈ xs, ∃ y, R x y := by
  induction xs with
  | nil => simp
  | cons x xs ih =>
    rw [List.forall_mem_cons, ← ih]
    constructor
    · rintro ⟨_, h⟩
      cases h with
      | cons hx hxs => exact ⟨⟨_, hx⟩, _, hxs⟩
    · rintro ⟨⟨y, hx⟩, ys, hxs⟩
      exact ⟨y :: ys, .cons hx hxs⟩

/-- An equation is read exactly if it has one sign, something before it and only terms there. The
degree is then the largest power of a term, and each coefficient is the sum of its power. -/
theorem parse_accepts_terms (v : Char) (text : List Char) :
    ((∃ parsed, parse v text = .ok parsed) ↔
      (Latex.strip text).count '=' = 1 ∧ leftSide (Latex.strip text) ≠ [] ∧
        ∀ w ∈ signedTerms (leftSide (Latex.strip text)), ∃ t, Term.Written v w t) ∧
    ∀ parsed, parse v text = .ok parsed →
      ∃ terms, List.Forall₂ (Term.Written v) (signedTerms (leftSide (Latex.strip text))) terms ∧
        (∃ t ∈ terms, t.power = parsed.degree) ∧ (∀ t ∈ terms, t.power ≤ parsed.degree) ∧
        parsed.degree ≤ Term.maxPower ∧ parsed.coefficients.length = parsed.degree + 1 ∧
        ∀ k ≤ parsed.degree,
          parsed.coefficients[parsed.degree - k]? = some (Term.sumOf k terms) := by
  constructor
  · simp only [parse_eq_ok_iff_readSum, readSum_eq_ok_iff]
    constructor
    · rintro ⟨parsed, hcount, terms, hterms, hne, -⟩
      refine ⟨hcount, ?_, exists_forall₂_iff.mp ⟨terms, hterms⟩⟩
      intro hleft
      rw [hleft] at hterms
      exact hne (List.forall₂_nil_left_iff.mp hterms)
    · rintro ⟨hcount, hleft, hwritten⟩
      obtain ⟨terms, hterms⟩ := exists_forall₂_iff.mpr hwritten
      refine ⟨_, hcount, terms, hterms, ?_, rfl⟩
      rintro rfl
      exact hleft (signedTerms_eq_nil_iff.mp (List.forall₂_nil_right_iff.mp hterms))
  · intro parsed h
    rw [parse_eq_ok_iff_readSum, readSum_eq_ok_iff] at h
    obtain ⟨-, terms, hterms, hne, rfl⟩ := h
    obtain ⟨⟨t, ht, hdegree⟩, hle, hlength, hsum⟩ := Term.total_spec hne
    have hmax : Term.degree terms ≤ Term.maxPower := by
      rw [← hdegree]
      exact Term.power_le_of_forall₂ hterms t ht
    exact ⟨terms, hterms, ⟨t, ht, hdegree⟩, hle, hmax, hlength, hsum⟩

end Equation

end Univariate
