import Univariate.Proofs.Double.Value

namespace Univariate.Double

open Float.Model (UnpackedFloat Format)
open Float.Model.UnpackedFloat

inductive Nonnegative : UnpackedFloat → Prop
  | zero (s : Sign) : Nonnegative (.zero s)
  | finite (m : Nat) (e : Int) (h : 0 < m) : Nonnegative (.finite .positive m e h)
  | infinity : Nonnegative (.infinity .positive)

variable {x y : Float} {u v : UnpackedFloat}

theorem compare_zero_isLE (s : Sign) :
    (UnpackedFloat.compare (.zero s) u).any Ordering.isLE = true ↔ Nonnegative u := by
  constructor
  · intro h
    cases u with
    | notANumber => cases h
    | zero s' => exact .zero s'
    | infinity s' =>
      cases s' with
      | positive => exact .infinity
      | negative => cases h
    | finite s' m e hm =>
      cases s' with
      | positive => exact .finite m e hm
      | negative => cases h
  · intro h
    cases h <;> rfl

theorem zero_le_iff : 0 ≤ x ↔ Nonnegative (unpacked x) := by
  rw [le_iff, unpacked_zero]
  exact compare_zero_isLE _

theorem le_of_unpacked_zero {s : Sign} (hx : unpacked x = .zero s) (hy : 0 ≤ y) : x ≤ y := by
  rw [le_iff, hx]
  exact (compare_zero_isLE s).mpr (zero_le_iff.mp hy)

theorem abs_le_of_unpacked_zero {s : Sign} (hx : unpacked x = .zero s) (hy : 0 ≤ y) :
    x.abs ≤ y := by
  apply le_of_unpacked_zero (s := .positive) _ hy
  rw [unpacked_abs, hx, UnpackedFloat.abs]

theorem nonnegative_packComponents (e : BitVec 11) (m : BitVec 52) (h : e = -1#11 → m = 0#52) :
    Nonnegative (unpack Format.binary64 (packComponents Format.binary64 .positive e m)) := by
  have hr := reading_unpack (packComponents Format.binary64 .positive e m)
  revert hr
  generalize unpack Format.binary64 (packComponents Format.binary64 .positive e m) = u
  intro hr
  have hs : Sign.ofBitVec (unpackSign (packComponents Format.binary64 .positive e m)) =
      .positive := by
    rw [unpackSign_packComponents, Sign.ofBitVec_toBitVec]
  cases hr with
  | infinity =>
    rw [hs]
    exact .infinity
  | notANumber hexp hman =>
    rw [unpackExponent_packComponents] at hexp
    rw [unpackMantissa_packComponents] at hman
    exact absurd (h hexp) hman
  | zero => exact .zero _
  | subnormal =>
    rw [hs]
    exact .finite _ _ _
  | normal =>
    rw [hs]
    exact .finite _ _ _

theorem Nonnegative.packed (h : Nonnegative u) : 0 ≤ packed u := by
  rw [zero_le_iff]
  cases h with
  | zero s =>
    rw [unpacked_packed (u := .zero s) trivial]
    exact .zero s
  | infinity =>
    rw [unpacked_packed (u := .infinity .positive) trivial]
    exact .infinity
  | finite m e hm =>
    change Nonnegative (unpack Format.binary64 (pack Format.binary64 (.finite .positive m e hm)))
    unfold pack
    dsimp only
    split
    · exact nonnegative_packComponents _ _ fun _ => rfl
    · rename_i hfit
      split
      · apply nonnegative_packComponents
        intro hexp
        have := congrArg BitVec.toNat hexp
        simp at this hfit
        omega
      · apply nonnegative_packComponents
        intro hexp
        cases hexp

theorem nonnegative_roundWithAccuracy (m : Nat) (e : Int) (a : Accuracy) :
    Nonnegative (roundWithAccuracy Format.binary64 .positive m e a) := by
  unfold roundWithAccuracy
  dsimp only
  split
  · exact .zero _
  · exact .finite _ _ _

theorem nonnegative_normalize {m : Int} (e : Int) (h : 0 ≤ m) :
    Nonnegative (UnpackedFloat.normalize Format.binary64 m e .positive) := by
  unfold UnpackedFloat.normalize
  split
  · rename_i hlt
    exact absurd (Int.compare_eq_lt.mp hlt) (by omega)
  · exact .zero _
  · exact nonnegative_roundWithAccuracy _ _ _

theorem zero_le_add (hx : 0 ≤ x) (hy : 0 ≤ y) : 0 ≤ x + y := by
  rw [zero_le_iff] at hx hy
  rw [add_eq]
  apply Nonnegative.packed
  revert hx hy
  generalize unpacked x = u
  generalize unpacked y = v
  intro hx hy
  cases hx with
  | zero s =>
    cases hy with
    | zero s' =>
      unfold UnpackedFloat.add
      dsimp only
      split
      · exact .zero _
      · exact .zero _
    | finite m e h => exact .finite m e h
    | infinity => exact .infinity
  | finite m e h =>
    cases hy with
    | zero s' => exact .finite m e h
    | finite m' e' h' =>
      apply nonnegative_normalize
      exact Int.add_nonneg (Int.natCast_nonneg _) (Int.natCast_nonneg _)
    | infinity => exact .infinity
  | infinity =>
    cases hy with
    | zero s' => exact .infinity
    | finite m' e' h' => exact .infinity
    | infinity => exact .infinity

theorem sign_mul_self (s : Sign) : s * s = .positive := by
  cases s <;> rfl

theorem zero_le_mul_self (hx : x.isFinite = true) : 0 ≤ x * x := by
  rw [isFinite_eq] at hx
  rw [mul_eq]
  apply Nonnegative.packed
  revert hx
  generalize unpacked x = u
  intro hx
  cases u with
  | notANumber => cases hx
  | infinity => cases hx
  | zero s => exact .zero _
  | finite s m e h =>
    simp only [UnpackedFloat.mul, sign_mul_self]
    exact nonnegative_roundWithAccuracy _ _ _

theorem zero_le_mul_of_pos {m : Nat} {e : Int} {h : 0 < m}
    (hx : unpacked x = .finite .positive m e h) (hy : 0 ≤ y) : 0 ≤ x * y := by
  rw [zero_le_iff] at hy
  rw [mul_eq, hx]
  apply Nonnegative.packed
  revert hy
  generalize unpacked y = v
  intro hy
  cases hy with
  | zero s => exact .zero _
  | finite m' e' h' => exact nonnegative_roundWithAccuracy _ _ _
  | infinity => exact .infinity

theorem zero_le_sqrt (hx : 0 ≤ x) : 0 ≤ x.sqrt := by
  rw [zero_le_iff] at hx
  rw [sqrt_eq]
  apply Nonnegative.packed
  revert hx
  generalize unpacked x = u
  intro hx
  cases hx with
  | zero s => exact .zero s
  | finite m e h => exact nonnegative_roundWithAccuracy _ _ _
  | infinity => exact .infinity

end Univariate.Double
