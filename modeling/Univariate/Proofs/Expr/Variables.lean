import Mathlib.Data.List.Sort
import Mathlib.Data.String.Basic
import Univariate.Expr.Basic

namespace Univariate.Expr

variable {e : Expr} {names : List String} {n v w : String} {a b : Float}

section Lists

theorem mem_insertName : w ∈ insertName n names ↔ w = n ∨ w ∈ names := by
  induction names with
  | nil => rw [insertName, List.mem_singleton, List.mem_nil_iff, or_false]
  | cons m ms ih =>
    rw [insertName]
    split
    · rw [List.mem_cons]
    · split
      · rename_i heq
        rw [heq, List.mem_cons, or_self_left]
      · rw [List.mem_cons, ih, List.mem_cons]
        exact or_left_comm

theorem pairwise_insertName (h : names.Pairwise (· < ·)) :
    (insertName n names).Pairwise (· < ·) := by
  induction names with
  | nil => exact List.pairwise_singleton _ _
  | cons m ms ih =>
    obtain ⟨hm, hms⟩ := List.pairwise_cons.mp h
    rw [insertName]
    split
    · rename_i hlt
      refine List.pairwise_cons.mpr ⟨?_, h⟩
      rw [List.forall_mem_cons]
      exact ⟨hlt, fun name hname => hlt.trans (hm name hname)⟩
    · rename_i hnlt
      split
      · exact h
      · rename_i hne
        refine List.pairwise_cons.mpr ⟨?_, ih hms⟩
        intro name hname
        rcases mem_insertName.mp hname with rfl | hname
        · exact lt_of_le_of_ne (not_lt.mp hnlt) (Ne.symm hne)
        · exact hm name hname

theorem mem_collectNames : w ∈ e.collectNames names ↔ e.mentions w = true ∨ w ∈ names := by
  induction e generalizing names with
  | var n => rw [collectNames, mem_insertName, mentions, beq_iff_eq, eq_comm]
  | const c => rw [collectNames, mentions, Bool.false_eq_true, false_or]
  | binary op l r ihl ihr =>
    rw [collectNames, ihr, ihl, mentions, Bool.or_eq_true, or_assoc]
    exact or_left_comm
  | neg e ih | apply f e ih => exact ih

theorem pairwise_collectNames (h : names.Pairwise (· < ·)) :
    (e.collectNames names).Pairwise (· < ·) := by
  induction e generalizing names with
  | var n => exact pairwise_insertName h
  | const c => exact h
  | binary op l r ihl ihr => exact ihr (ihl h)
  | neg e ih | apply f e ih => exact ih h

theorem mem_variableNames : w ∈ e.variableNames ↔ e.mentions w = true := by
  rw [variableNames, mem_collectNames, List.mem_nil_iff, or_false]

theorem pairwise_variableNames (e : Expr) : e.variableNames.Pairwise (· < ·) :=
  pairwise_collectNames List.Pairwise.nil

end Lists

section Substitute

theorem mentions_substitute_iff :
    (e.substitute v a).mentions w = true ↔ w ≠ v ∧ e.mentions w = true := by
  induction e with
  | var n =>
    rw [substitute, mentions, beq_iff_eq]
    split
    · rename_i hn
      rw [mentions, hn]
      exact iff_of_false Bool.false_ne_true fun h => h.1 h.2.symm
    · rename_i hn
      rw [mentions, beq_iff_eq]
      exact ⟨fun h => ⟨h ▸ hn, h⟩, And.right⟩
  | const c => exact iff_of_false Bool.false_ne_true fun h => Bool.false_ne_true h.2
  | binary op l r ihl ihr =>
    rw [substitute, mentions, mentions, Bool.or_eq_true, Bool.or_eq_true, ihl, ihr, and_or_left]
  | neg e ih | apply f e ih => exact ih

theorem variableNames_substitute (e : Expr) (v : String) (a : Float) :
    (e.substitute v a).variableNames = e.variableNames.erase v := by
  have hascending := pairwise_variableNames e
  refine (pairwise_variableNames _).eq_of_mem_iff (hascending.erase v) fun w => ?_
  rw [mem_variableNames, hascending.nodup.mem_erase_iff, mem_variableNames, mentions_substitute_iff]

theorem substitute_of_not_mentions (h : e.mentions v = false) : e.substitute v a = e := by
  induction e with
  | var n =>
    rw [mentions, beq_eq_false_iff_ne] at h
    rw [substitute, if_neg h]
  | const c => rfl
  | binary op l r ihl ihr =>
    rw [mentions, Bool.or_eq_false_iff] at h
    rw [substitute, ihl h.1, ihr h.2]
  | neg e ih | apply f e ih => rw [substitute, ih h]

theorem substitute_comm (h : v ≠ w) :
    (e.substitute v a).substitute w b = (e.substitute w b).substitute v a := by
  induction e with
  | var n =>
    by_cases hv : n = v
    · have hw : n ≠ w := hv ▸ h
      rw [substitute, substitute, if_pos hv, if_neg hw, substitute, substitute, if_pos hv]
    · by_cases hw : n = w
      · rw [substitute, substitute, if_neg hv, if_pos hw, substitute, substitute, if_pos hw]
      · rw [substitute, substitute, if_neg hv, if_neg hw, substitute, substitute, if_neg hv,
          if_neg hw]
  | const c => rfl
  | binary op l r ihl ihr => simp only [substitute, ihl, ihr]
  | neg e ih | apply f e ih => simp only [substitute, ih]

end Substitute

/-- The list of the names agrees with the search for a name and with the substitution. What is put
in for a name that does not occur changes nothing, and different names do not disturb each other. -/
theorem variables_agree (e : Expr) (v w : String) (a b : Float) :
    e.variableNames.Pairwise (· < ·) ∧
    (w ∈ e.variableNames ↔ e.mentions w = true) ∧
    (e.substitute v a).variableNames = e.variableNames.erase v ∧
    (e.mentions v = false → e.substitute v a = e) ∧
    (v ≠ w → (e.substitute v a).substitute w b = (e.substitute w b).substitute v a) :=
  ⟨pairwise_variableNames e, mem_variableNames, variableNames_substitute e v a,
    substitute_of_not_mentions, substitute_comm⟩

theorem variables_agree_sum :
    (Expr.binary .add (.var "x") (.binary .mul (.var "t") (.var "x"))).mentions "y" = false ∧
    "y" ≠ "x" ∧
    "x" ∈ (Expr.binary .add (.var "x") (.binary .mul (.var "t") (.var "x"))).variableNames ∧
    (Expr.binary .add (.var "x") (.binary .mul (.var "t") (.var "x"))).substitute "y" 1 =
      .binary .add (.var "x") (.binary .mul (.var "t") (.var "x")) ∧
    ((Expr.binary .add (.var "x") (.binary .mul (.var "t") (.var "x"))).substitute "y"
        1).substitute "x" 2 =
      ((Expr.binary .add (.var "x") (.binary .mul (.var "t") (.var "x"))).substitute "x"
        2).substitute "y" 1 := by
  have hy : (Expr.binary .add (.var "x") (.binary .mul (.var "t") (.var "x"))).mentions "y" =
      false := by decide
  have hne : "y" ≠ "x" := by decide
  obtain ⟨-, hmem, -, hunchanged, hcomm⟩ := variables_agree
    (.binary .add (.var "x") (.binary .mul (.var "t") (.var "x"))) "y" "x" 1 2
  exact ⟨hy, hne, hmem.mpr (by decide), hunchanged hy, hcomm hne⟩

end Univariate.Expr
