import Mathlib
import Univariate.Cartesian

namespace Univariate.Cartesian

@[ext]
theorem eq_of_parts {K : Type} {z w : Cartesian K} (hre : z.re = w.re) (him : z.im = w.im) :
    z = w := by
  cases z
  cases w
  cases hre
  cases him
  rfl

variable {K : Type} [CommRing K]

instance : Zero (Cartesian K) := ⟨⟨0, 0⟩⟩

instance : One (Cartesian K) := ⟨ofReal 1⟩

instance : Neg (Cartesian K) := ⟨fun z => ⟨-z.re, -z.im⟩⟩

section Parts

variable (z w : Cartesian K)

@[simp] theorem zero_re : (0 : Cartesian K).re = 0 := rfl

@[simp] theorem zero_im : (0 : Cartesian K).im = 0 := rfl

@[simp] theorem one_re : (1 : Cartesian K).re = 1 := rfl

@[simp] theorem one_im : (1 : Cartesian K).im = 0 := rfl

@[simp] theorem add_re : (z + w).re = z.re + w.re := rfl

@[simp] theorem add_im : (z + w).im = z.im + w.im := rfl

@[simp] theorem mul_re : (z * w).re = z.re * w.re - z.im * w.im := rfl

@[simp] theorem mul_im : (z * w).im = z.re * w.im + z.im * w.re := rfl

@[simp] theorem ofReal_re (x : K) : (ofReal x).re = x := rfl

@[simp] theorem ofReal_im (x : K) : (ofReal x).im = 0 := rfl

@[simp] theorem conjugate_re : z.conjugate.re = z.re := rfl

@[simp] theorem conjugate_im : z.conjugate.im = -z.im := rfl

@[simp] theorem scale_re (k : K) : (z.scale k).re = z.re * k := rfl

@[simp] theorem scale_im (k : K) : (z.scale k).im = z.im * k := rfl

end Parts

instance : CommRing (Cartesian K) where
  add_assoc z w u := eq_of_parts (add_assoc _ _ _) (add_assoc _ _ _)
  zero_add z := eq_of_parts (zero_add _) (zero_add _)
  add_zero z := eq_of_parts (add_zero _) (add_zero _)
  add_comm z w := eq_of_parts (add_comm _ _) (add_comm _ _)
  neg_add_cancel z := eq_of_parts (neg_add_cancel _) (neg_add_cancel _)
  sub_eq_add_neg z w := eq_of_parts (sub_eq_add_neg _ _) (sub_eq_add_neg _ _)
  zero_mul z := by ext <;> simp
  mul_zero z := by ext <;> simp
  one_mul z := by ext <;> simp
  mul_one z := by ext <;> simp
  left_distrib z w u := by ext <;> simp <;> ring
  right_distrib z w u := by ext <;> simp <;> ring
  mul_assoc z w u := by ext <;> simp <;> ring
  mul_comm z w := by ext <;> simp <;> ring
  nsmul := nsmulRec
  zsmul := zsmulRec

theorem pow_eq (z : Cartesian K) (n : Nat) : z.pow n = z ^ n := by
  induction n with
  | zero => rw [pow_zero]; rfl
  | succ n ih =>
    rw [pow_succ, ← ih]
    rfl

theorem scale_eq (z : Cartesian K) (k : K) : z.scale k = ofReal k * z := by
  ext <;> simp [mul_comm]

def ofRealHom : K →+* Cartesian K where
  toFun := ofReal
  map_zero' := rfl
  map_one' := rfl
  map_add' x y := by ext <;> simp
  map_mul' x y := by ext <;> simp

def conjugateHom : Cartesian K →+* Cartesian K where
  toFun := conjugate
  map_zero' := by ext <;> simp
  map_one' := by ext <;> simp
  map_add' z w := by ext <;> simp [add_comm]
  map_mul' z w := by ext <;> simp; ring

theorem conjugate_ofReal (x : K) : (ofReal x).conjugate = ofReal x := by
  ext <;> simp

end Univariate.Cartesian
