import Mathlib.Logic.Function.Basic
import Univariate.Proofs.Expr.Substitution

namespace Univariate.Expr

variable {v : String} {x : Float} {e p r : Expr}

/-- Whether a power of the expression has the variable itself for its exponent. -/
def RaisesTo (v : String) (e : Expr) : Prop := ∃ base, Part (.binary .pow base (.var v)) e

theorem RaisesTo.of_part (hp : Part p e) (h : p.RaisesTo v) : e.RaisesTo v := by
  obtain ⟨base, hbase⟩ := h
  exact ⟨base, hbase.trans hp⟩

theorem integerExponent?_substitute_iff :
    (r.substitute v x).integerExponent? = r.integerExponent? ↔
      (r = .var v → (const x).integerExponent? = none) := by
  cases r with
  | var n =>
    rw [substitute]
    split
    · rename_i hn
      exact ⟨fun h _ => h, fun h => h (congrArg Expr.var hn)⟩
    · rename_i hn
      exact iff_of_true rfl fun h => absurd (Expr.var.inj h) hn
  | const c | binary op l r | neg e | apply f e =>
    refine iff_of_true rfl ?_
    intro h
    cases h

section Values

variable {K : Type} [One K] [Add K] [Sub K] [Mul K] [Div K] [Neg K] [Elementary K]
  {constant : Float → K} {value : String → K}

theorem eval_substitute (h : e.RaisesTo v → (const x).integerExponent? = none) :
    (e.substitute v x).eval constant value =
      e.eval constant (Function.update value v (constant x)) := by
  induction e with
  | var n =>
    rw [substitute]
    split
    · rename_i hn
      rw [hn, eval, eval, Function.update_self]
    · rename_i hn
      rw [eval, eval, Function.update_of_ne hn]
  | const c => rfl
  | binary op l r ihl ihr =>
    have hl := ihl fun hraises => h (hraises.of_part (.left (.whole l)))
    have hr := ihr fun hraises => h (hraises.of_part (.right (.whole r)))
    cases op with
    | add | sub | mul | div => rw [substitute, eval, eval, hl, hr]
    | pow =>
      have hexponent : (r.substitute v x).integerExponent? = r.integerExponent? := by
        rw [integerExponent?_substitute_iff]
        rintro rfl
        exact h ⟨l, .whole _⟩
      rw [substitute, eval, eval, hexponent, hl, hr]
  | neg e ih =>
    have he := ih fun hraises => h (hraises.of_part (.neg (.whole e)))
    rw [substitute, eval, eval, he]
  | apply f e ih =>
    have he := ih fun hraises => h (hraises.of_part (.argument (.whole e)))
    rw [substitute, eval, eval, he]

end Values

/-- The value with a number put in is the value at that number, if no power has the variable itself
for its exponent, and for any other number than an integer of less than 32 bits even then. -/
theorem valueAt_substitute (y : Float)
    (h : ¬ e.RaisesTo v ∨ (const x).integerExponent? = none) :
    (e.substitute v x).valueAt v y = e.valueAt v x := by
  have hvalue : Function.update (fun name => if name = v then y else undefined) v x =
      fun name => if name = v then x else undefined := by
    funext name
    by_cases hname : name = v
    · rw [hname, Function.update_self, if_pos rfl]
    · rw [Function.update_of_ne hname, if_neg hname, if_neg hname]
  have hcondition : e.RaisesTo v → (const x).integerExponent? = none :=
    fun hraises => h.resolve_left (not_not_intro hraises)
  rw [valueAt, eval_substitute hcondition, id_eq, hvalue, valueAt]

theorem valueAt_substitute_tower :
    ¬ RaisesTo "x" (.binary .pow (.binary .pow (.binary .add (.var "x") (.var "y"))
      (.binary .mul (.const 1) (.var "x"))) (.const 3)) ∧
    (substitute "x" 2 (.binary .pow (.binary .pow (.binary .add (.var "x") (.var "y"))
      (.binary .mul (.const 1) (.var "x"))) (.const 3))).valueAt "x" 5 =
    valueAt (.binary .pow (.binary .pow (.binary .add (.var "x") (.var "y"))
      (.binary .mul (.const 1) (.var "x"))) (.const 3)) "x" 2 := by
  have hraises : ¬ RaisesTo "x" (.binary .pow (.binary .pow (.binary .add (.var "x") (.var "y"))
      (.binary .mul (.const 1) (.var "x"))) (.const 3)) := by
    rintro ⟨base, hp⟩
    cases hp with
    | left hp =>
      cases hp with
      | left hp =>
        cases hp with
        | left hp | right hp => cases hp
      | right hp =>
        cases hp with
        | left hp | right hp => cases hp
    | right hp => cases hp
  exact ⟨hraises, valueAt_substitute 5 (.inl hraises)⟩

end Univariate.Expr
