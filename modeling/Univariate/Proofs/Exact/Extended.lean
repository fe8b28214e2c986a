import Mathlib
import Univariate.Scalar

/-!
# Exact numbers with infinities

The numbers of an ordered field, two infinities, and one value for what is not a number. The operations
are those of floating-point arithmetic without rounding and with a single zero, which counts as positive
where a number is divided by it. What is not a number spoils every result, and no comparison with it
holds.
-/

namespace Univariate

inductive ExtendedNumber (R : Type) where
  | number (x : R)
  | infinite (negative : Bool)
  | notANumber
  deriving DecidableEq

namespace ExtendedNumber

variable {R : Type} {x y : R}

instance : Extended (ExtendedNumber R) where
  undefined := notANumber
  infinity := infinite false
  isFinite u := match u with | number _ => true | _ => false
  isInfinite u := match u with | infinite _ => true | _ => false

section Sums

variable [Field R]

def neg : ExtendedNumber R → ExtendedNumber R
  | number x => number (-x)
  | infinite negative => infinite !negative
  | notANumber => notANumber

def add : ExtendedNumber R → ExtendedNumber R → ExtendedNumber R
  | number x, number y => number (x + y)
  | infinite s, infinite t => if s = t then infinite s else notANumber
  | infinite s, number _ => infinite s
  | number _, infinite s => infinite s
  | _, _ => notANumber

instance : Zero (ExtendedNumber R) := ⟨number 0⟩
instance : One (ExtendedNumber R) := ⟨number 1⟩
instance : NatCast (ExtendedNumber R) := ⟨fun n => number (n : R)⟩
instance : Neg (ExtendedNumber R) := ⟨neg⟩
instance : Add (ExtendedNumber R) := ⟨add⟩
instance : Sub (ExtendedNumber R) := ⟨fun u v => add u (neg v)⟩

theorem one_eq : (1 : ExtendedNumber R) = number 1 := rfl

theorem number_add (x y : R) : number x + number y = number (x + y) := rfl

theorem number_sub (x y : R) : number x - number y = number (x - y) := by
  rw [sub_eq_add_neg]
  rfl

theorem notANumber_add (u : ExtendedNumber R) : notANumber + u = notANumber := by
  cases u <;> rfl

theorem add_notANumber (u : ExtendedNumber R) : u + notANumber = notANumber := by
  cases u <;> rfl

end Sums

section Comparisons

variable [LinearOrder R]

def equal : ExtendedNumber R → ExtendedNumber R → Bool
  | number x, number y => x == y
  | infinite s, infinite t => s == t
  | _, _ => false

def less : ExtendedNumber R → ExtendedNumber R → Bool
  | number x, number y => x < y
  | number _, infinite s => !s
  | infinite s, number _ => s
  | infinite s, infinite t => s && !t
  | _, _ => false

instance : BEq (ExtendedNumber R) := ⟨equal⟩
instance : LT (ExtendedNumber R) := ⟨fun u v => less u v = true⟩
instance : LE (ExtendedNumber R) := ⟨fun u v => (less u v || equal u v) = true⟩

instance : DecidableLT (ExtendedNumber R) :=
  fun u v => inferInstanceAs (Decidable (less u v = true))

instance : DecidableLE (ExtendedNumber R) :=
  fun u v => inferInstanceAs (Decidable ((less u v || equal u v) = true))

theorem number_le_iff : number x ≤ number y ↔ x ≤ y := by
  change (decide (x < y) || x == y) = true ↔ x ≤ y
  rw [Bool.or_eq_true, decide_eq_true_iff, beq_iff_eq, le_iff_lt_or_eq]

end Comparisons

section Products

variable [Field R] [LinearOrder R]

def scaledInfinity (negative : Bool) (x : R) : ExtendedNumber R :=
  if x = 0 then notANumber else infinite (negative ^^ decide (x < 0))

def mul : ExtendedNumber R → ExtendedNumber R → ExtendedNumber R
  | number x, number y => number (x * y)
  | infinite s, infinite t => infinite (s ^^ t)
  | infinite s, number x => scaledInfinity s x
  | number x, infinite s => scaledInfinity s x
  | _, _ => notANumber

def inv : ExtendedNumber R → ExtendedNumber R
  | number x => if x = 0 then infinite false else number x⁻¹
  | infinite _ => number 0
  | notANumber => notANumber

def abs : ExtendedNumber R → ExtendedNumber R
  | number x => number |x|
  | infinite _ => infinite false
  | notANumber => notANumber

instance : Mul (ExtendedNumber R) := ⟨mul⟩
instance : Div (ExtendedNumber R) := ⟨fun u v => mul u (inv v)⟩

theorem number_mul (x y : R) : number x * number y = number (x * y) := rfl

theorem number_div (x : R) (hy : y ≠ 0) : number x / number y = number (x / y) := by
  have hinv : inv (number y) = number y⁻¹ := if_neg hy
  change mul (number x) (inv (number y)) = _
  rw [hinv, div_eq_mul_inv]
  rfl

theorem one_div_natCast [CharZero R] {n : ℕ} (hn : n ≠ 0) :
    1 / (n : ExtendedNumber R) = number (1 / (n : R)) :=
  number_div 1 (Nat.cast_ne_zero.mpr hn)

theorem abs_number (x : R) : (number x).abs = number |x| := rfl

theorem mul_notANumber (u : ExtendedNumber R) : u * notANumber = notANumber := by
  cases u <;> rfl

end Products

end ExtendedNumber

end Univariate
