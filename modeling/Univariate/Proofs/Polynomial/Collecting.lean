import Mathlib.Data.List.Induction
import Univariate.Polynomial.Dense

namespace Univariate.Dense

variable {K : Type} [Zero K] [Add K]

def totalOf (power : Nat) (terms : List (Nat × K)) : K :=
  (terms.filter fun t => t.1 = power).foldl (fun sum t => sum + t.2) 0

def addTo (ascending : List K) (t : Nat × K) : List K := addAscending t.2 t.1 ascending

def collect (terms : List (Nat × K)) : List K := terms.foldl addTo []

theorem ofTerms_eq (terms : List (Nat × K)) : ofTerms terms = (collect terms).reverse := rfl

theorem length_addAscending (c : K) (power : Nat) (as : List K) :
    (addAscending c power as).length = max as.length (power + 1) := by
  induction power generalizing as with
  | zero => cases as <;> simp [addAscending]
  | succ power ih => cases as <;> simp [addAscending, ih, Nat.add_max_add_right]

theorem getD_addAscending (c : K) (power k : Nat) (as : List K) :
    (addAscending c power as).getD k 0 =
      if power = k then as.getD k 0 + c else as.getD k 0 := by
  induction power generalizing as k with
  | zero => cases as <;> cases k <;> simp [addAscending]
  | succ power ih =>
    cases as with
    | nil =>
      cases k with
      | zero => simp [addAscending]
      | succ k => simpa [addAscending] using ih k []
    | cons a as =>
      cases k with
      | zero => simp [addAscending]
      | succ k => simpa [addAscending] using ih k as

theorem collect_concat (terms : List (Nat × K)) (t : Nat × K) :
    collect (terms ++ [t]) = addTo (collect terms) t := by
  rw [collect, List.foldl_append]
  rfl

theorem totalOf_concat (power : Nat) (terms : List (Nat × K)) (t : Nat × K) :
    totalOf power (terms ++ [t]) =
      if t.1 = power then totalOf power terms + t.2 else totalOf power terms := by
  unfold totalOf
  rw [List.filter_append, List.foldl_append]
  split
  · rename_i h
    simp [h]
  · rename_i h
    simp [h]

theorem getD_collect (k : Nat) (terms : List (Nat × K)) :
    (collect terms).getD k 0 = totalOf k terms := by
  induction terms using List.reverseRecOn with
  | nil => rfl
  | append_singleton terms t ih =>
    rw [collect_concat, addTo, getD_addAscending, ih, totalOf_concat]

theorem lt_length_collect {terms : List (Nat × K)} : ∀ t ∈ terms, t.1 < (collect terms).length := by
  induction terms using List.reverseRecOn with
  | nil => simp
  | append_singleton terms t ih =>
    intro t' ht'
    rw [collect_concat, addTo, length_addAscending]
    rcases List.mem_append.mp ht' with ht' | ht'
    · have := ih t' ht'
      omega
    · cases List.mem_singleton.mp ht'
      omega

theorem exists_length_collect {terms : List (Nat × K)} (hne : terms ≠ []) :
    ∃ t ∈ terms, (collect terms).length = t.1 + 1 := by
  induction terms using List.reverseRecOn with
  | nil => exact absurd rfl hne
  | append_singleton terms t ih =>
    rw [collect_concat, addTo, length_addAscending]
    by_cases hlt : t.1 + 1 < (collect terms).length
    · have hterms : terms ≠ [] := by
        rintro rfl
        simp [collect] at hlt
      obtain ⟨t', ht', hlength⟩ := ih hterms
      exact ⟨t', List.mem_append_left _ ht', by omega⟩
    · exact ⟨t, by simp, by omega⟩

theorem ofTerms_spec {terms : List (Nat × K)} (hne : terms ≠ []) :
    ∃ degree, (∃ t ∈ terms, t.1 = degree) ∧ (∀ t ∈ terms, t.1 ≤ degree) ∧
      (ofTerms terms).length = degree + 1 ∧
      ∀ k ≤ degree, (ofTerms terms)[degree - k]? = some (totalOf k terms) := by
  obtain ⟨t, ht, hlength⟩ := exists_length_collect hne
  rw [ofTerms_eq, List.length_reverse, hlength]
  refine ⟨t.1, ⟨t, ht, rfl⟩, ?_, rfl, ?_⟩
  · intro t' ht'
    have := lt_length_collect t' ht'
    omega
  · intro k hk
    have hlt : k < (collect terms).length := by omega
    rw [List.getElem?_reverse (by omega), hlength, ← getD_collect k terms,
      show t.1 + 1 - 1 - (t.1 - k) = k by omega, List.getElem?_eq_getElem hlt,
      List.getD_eq_getElem?_getD, List.getElem?_eq_getElem hlt,
      Option.getD_some]

end Univariate.Dense
