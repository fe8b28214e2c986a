import Univariate.Decimal.Shortest
import Univariate.Proofs.Double.Rounding

namespace Univariate.Decimal

open Univariate.Double

def Digits.rational (d : Digits) : ℚ := d.value * 10 ^ d.exponent

theorem zpow_mul_pow_neg {a : ℚ} (ha : a ≠ 0) (k : Int) :
    a ^ k * a ^ (-k).toNat = a ^ k.toNat := by
  rw [← zpow_natCast, ← zpow_natCast, ← zpow_add₀ ha]
  congr 1
  omega

theorem Digits.compareBinary_eq (d : Digits) (n : Nat) (e : Int) :
    d.compareBinary n e = compare d.rational (n * 2 ^ e) := by
  have hscale : (0 : ℚ) < 10 ^ (-d.exponent).toNat * 2 ^ (-e).toNat := by positivity
  have hten := zpow_mul_pow_neg (show (10 : ℚ) ≠ 0 by norm_num) d.exponent
  have htwo := zpow_mul_pow_neg (show (2 : ℚ) ≠ 0 by norm_num) e
  have hright := compare_mul_right (a := d.rational) (b := n * 2 ^ e) hscale
  rw [compareBinary, ← compare_natCast, ← hright]
  simp only [Nat.pow_eq, Nat.cast_mul, Nat.cast_pow, Nat.cast_ofNat, ← hten, ← htwo, rational]
  congr 1 <;> ring

theorem Digits.compareBinary_quarters (d : Digits) (n : Nat) (e : Int) :
    d.compareBinary n (e - 2) = compare (d.rational / 2 ^ e) (n / 4) := by
  have hpos : (0 : ℚ) < 2 ^ e := by positivity
  have hright := compare_mul_right (a := d.rational / 2 ^ e) (b := n / 4) hpos
  rw [compareBinary_eq, ← hright, div_mul_cancel₀ _ hpos.ne', zpow_sub₀ two_ne_zero]
  congr 1
  ring

theorem takeWhile_zeros_digitChar {k : Nat} (hk : k < 10) (cs : List Char) :
    (k.digitChar :: cs).takeWhile (· == '0') =
      if k = 0 then '0' :: cs.takeWhile (· == '0') else [] := by
  rw [List.takeWhile_cons]
  by_cases h : k = 0
  · subst h
    rfl
  · rw [if_neg (by simpa using h), if_neg h]

theorem pow_trailing_zeros_dvd (n : Nat) :
    10 ^ ((Nat.toDigits 10 n).reverse.takeWhile (· == '0')).length ∣ n := by
  induction n using Nat.strongRecOn with
  | ind n ih =>
    by_cases hn : n < 10
    · rw [Nat.toDigits_of_lt_base hn, List.reverse_singleton, takeWhile_zeros_digitChar hn]
      by_cases h : n = 0
      · rw [h]
        exact Nat.dvd_zero _
      · rw [if_neg h]
        exact Nat.one_dvd _
    · have hmod : n % 10 < 10 := Nat.mod_lt n (by decide)
      rw [Nat.toDigits_of_base_le (by decide) (by omega), List.reverse_append,
        List.reverse_singleton, List.singleton_append, takeWhile_zeros_digitChar hmod]
      by_cases h : n % 10 = 0
      · rw [if_pos h, List.length_cons, Nat.pow_succ]
        have hdvd := Nat.mul_dvd_mul_right (ih (n / 10) (by omega)) 10
        rwa [Nat.div_mul_cancel (Nat.dvd_of_mod_eq_zero h)] at hdvd
      · rw [if_neg h]
        exact Nat.one_dvd _

theorem Digits.stripped_rational (d : Digits) : d.stripped.rational = d.rational := by
  have hdvd := pow_trailing_zeros_dvd d.value
  unfold stripped
  generalize ((Nat.toDigits 10 d.value).reverse.takeWhile (· == '0')).length = k at hdvd
  obtain ⟨q, hq⟩ := hdvd
  have hpos : 0 < 10 ^ k := Nat.pow_pos (by decide)
  simp only [rational, Nat.pow_eq]
  rw [hq, Nat.mul_div_cancel_left q hpos, zpow_add₀ (by norm_num), zpow_natCast]
  push_cast
  ring

theorem Digits.exponent_le_stripped (d : Digits) : d.exponent ≤ d.stripped.exponent := by
  unfold stripped
  dsimp only
  omega

namespace Binary

variable {b : Binary} {d : Digits}

theorem gapBelow_eq (b : Binary) :
    gapBelow b.mantissa b.exponent = if b.narrowBelow then 1 / 4 else 1 / 2 := by
  simp only [gapBelow, narrowBelow, Nat.pow_eq, Bool.and_eq_true, beq_iff_eq, decide_eq_true_iff]

theorem low_eq (hb : 0 < b.mantissa) :
    ((4 * b.mantissa - (if b.narrowBelow then 1 else 2) : Nat) : ℚ) / 4 =
      b.mantissa - gapBelow b.mantissa b.exponent := by
  rw [gapBelow_eq]
  split
  · rw [Nat.cast_sub (by omega)]
    push_cast
    ring
  · rw [Nat.cast_sub (by omega)]
    push_cast
    ring

theorem high_eq (b : Binary) : ((4 * b.mantissa + 2 : Nat) : ℚ) / 4 = b.mantissa + 1 / 2 := by
  push_cast
  ring

theorem admits_iff (hb : 0 < b.mantissa) :
    b.admits d = true ↔ RoundsTo d.rational b.mantissa b.exponent := by
  have hgap := gapBelow_pos b.mantissa b.exponent
  have hlt : b.mantissa - gapBelow b.mantissa b.exponent < b.mantissa + 1 / 2 := by linarith
  unfold admits RoundsTo
  simp only [Digits.compareBinary_quarters, low_eq hb, high_eq]
  revert hlt
  generalize d.rational / 2 ^ b.exponent = q
  generalize (b.mantissa : ℚ) - gapBelow b.mantissa b.exponent = low
  generalize (b.mantissa : ℚ) + 1 / 2 = high
  intro hlt
  rcases lt_trichotomy q low with h | rfl | h
  · rw [compare_lt_iff_lt.mpr h]
    simp [h.not_gt, h.not_ge]
  · rw [compare_eq_iff_eq.mpr rfl, compare_lt_iff_lt.mpr hlt]
    simp [hlt.le]
  · rw [compare_gt_iff_gt.mpr h]
    rcases lt_trichotomy q high with h' | rfl | h'
    · rw [compare_lt_iff_lt.mpr h']
      simp [h, h']
    · rw [compare_eq_iff_eq.mpr rfl]
      simp [h.le]
    · rw [compare_gt_iff_gt.mpr h']
      simp [h'.not_gt, h'.not_ge]

theorem nearest?_eq_some {grid : Int} (h : b.nearest? grid = some d) :
    b.admits d = true ∧ d.exponent = grid := by
  unfold nearest? at h
  dsimp only at h
  split at h
  · rename_i hbelow habove
    split at h
    · cases h
      exact ⟨hbelow, rfl⟩
    · cases h
      exact ⟨habove, rfl⟩
  · rename_i hbelow habove
    cases h
    exact ⟨hbelow, rfl⟩
  · rename_i hbelow habove
    cases h
    exact ⟨habove, rfl⟩
  · cases h

theorem exact_rational (b : Binary) : b.exact.rational = b.mantissa * 2 ^ b.exponent := by
  unfold exact Digits.rational
  split
  · rename_i h
    obtain ⟨k, hk⟩ := Int.eq_ofNat_of_zero_le h
    simp only [hk, Int.toNat_natCast, Nat.pow_eq]
    push_cast
    rw [mul_one, zpow_natCast]
  · rename_i h
    obtain ⟨k, hk⟩ := Int.eq_ofNat_of_zero_le (show 0 ≤ -b.exponent by omega)
    have he : b.exponent = -(k : Int) := by omega
    have hten : (10 : ℚ) ^ k = 5 ^ k * 2 ^ k := by
      rw [← mul_pow]
      norm_num
    simp only [he, Int.neg_neg, Int.toNat_natCast, Nat.pow_eq]
    push_cast
    rw [zpow_neg, zpow_neg, zpow_natCast, zpow_natCast, hten]
    field_simp

def digits (b : Binary) : Digits :=
  ((List.range 17).findSome? fun (n : Nat) => b.nearest? (b.magnitude - n)).getD b.exact

theorem shortest_eq (hb : 0 < b.mantissa) : b.shortest = b.digits.stripped := by
  rw [shortest, if_neg hb.ne', digits]

theorem roundsTo_shortest (hb : 0 < b.mantissa) :
    RoundsTo b.shortest.rational b.mantissa b.exponent := by
  rw [shortest_eq hb, Digits.stripped_rational, digits]
  cases hfind : (List.range 17).findSome? fun (n : Nat) => b.nearest? (b.magnitude - n) with
  | none =>
    rw [Option.getD_none, exact_rational]
    exact roundsTo_self _ _
  | some d =>
    obtain ⟨n, -, hn⟩ := List.exists_of_findSome?_eq_some hfind
    exact (admits_iff hb).mp (nearest?_eq_some hn).1

theorem nearest?_zero_ne_none (hb : 0 < b.mantissa) {n : Nat}
    (hn : (b.mantissa : ℚ) * 2 ^ b.exponent = n) : b.nearest? 0 ≠ none := by
  have hpow := zpow_mul_pow_neg (show (2 : ℚ) ≠ 0 by norm_num) b.exponent
  have hnum : b.mantissa * 2 ^ b.exponent.toNat = n * 2 ^ (-b.exponent).toNat := by
    have heq : (b.mantissa : ℚ) * 2 ^ b.exponent.toNat = n * 2 ^ (-b.exponent).toNat := by
      rw [← hn, ← hpow, mul_assoc]
    exact_mod_cast heq
  have hquotient : (b.onGrid 0).1 / (b.onGrid 0).2 = n := by
    simp only [onGrid, Nat.pow_eq, Int.neg_zero, Int.toNat_zero, Nat.pow_zero, Nat.mul_one, hnum]
    exact Nat.mul_div_cancel n (Nat.two_pow_pos _)
  have hself : b.admits ⟨n, 0⟩ = true := by
    rw [admits_iff hb, Digits.rational, zpow_zero, mul_one]
    rw [← hn]
    exact roundsTo_self _ _
  unfold nearest?
  simp only [hquotient, hself]
  cases b.admits ⟨n + 1, 0⟩
  · exact Option.some_ne_none _
  · exact Option.some_ne_none _

theorem magnitude_bounds (b : Binary) :
    ((b.mantissa.log2 : Int) + b.exponent) * 30103 / 100000 ≤ b.magnitude ∧
      b.magnitude ≤ ((b.mantissa.log2 : Int) + b.exponent) * 30103 / 100000 + 1 := by
  unfold magnitude
  dsimp only
  split
  · omega
  · omega

theorem findSome?_range_minimal {α : Type} {f : Nat → Option α} {k n : Nat} (hk : k < n)
    (hf : f k ≠ none) : ∃ j ≤ k, ∃ a, f j = some a ∧ (List.range n).findSome? f = some a := by
  induction n with
  | zero => omega
  | succ n ih =>
    rw [List.range_succ, List.findSome?_append]
    by_cases hkn : k < n
    · obtain ⟨j, hj, a, hfj, hfind⟩ := ih hkn
      refine ⟨j, hj, a, hfj, ?_⟩
      rw [hfind, Option.some_or]
    · obtain rfl : k = n := by omega
      cases hfind : (List.range k).findSome? f with
      | none =>
        obtain ⟨a, ha⟩ := Option.ne_none_iff_exists'.mp hf
        refine ⟨k, Nat.le_refl k, a, ha, ?_⟩
        rw [Option.none_or, List.findSome?_singleton, ha]
      | some a =>
        obtain ⟨j, hj, hfj⟩ := List.exists_of_findSome?_eq_some hfind
        exact ⟨j, (List.mem_range.mp hj).le, a, hfj, Option.some_or⟩

theorem digits_exponent_nonneg (hb : 0 < b.mantissa) (hlt : b.mantissa < 2 ^ 53) {n : Nat}
    (hn : (b.mantissa : ℚ) * 2 ^ b.exponent = n) : 0 ≤ b.digits.exponent := by
  obtain ⟨hlow, hhigh⟩ := b.magnitude_bounds
  have hlog : b.mantissa.log2 < 53 := (Nat.log2_lt hb.ne').mpr hlt
  have hone : (2 : ℚ) ^ (0 : Int) ≤ b.mantissa * 2 ^ b.exponent := by
    have hm : (0 : ℚ) < b.mantissa * 2 ^ b.exponent := magnitude_pos b.exponent hb
    rw [hn] at hm ⊢
    rw [zpow_zero]
    exact_mod_cast hm
  have hupper := (log2_bounds (e := b.exponent) hb.ne' (le_refl (b.mantissa : ℚ))
    (lt_add_one (b.mantissa : ℚ)) rfl).2
  have hpos := zpow_lt_zpow_of hone hupper
  have hmag : 0 ≤ b.magnitude := by omega
  by_cases hsmall : b.magnitude ≤ 16
  · have hnone : b.nearest? (b.magnitude - (b.magnitude.toNat : Int)) ≠ none := by
      rw [Int.toNat_of_nonneg hmag, Int.sub_self]
      exact nearest?_zero_ne_none hb hn
    obtain ⟨j, hj, d, hd, hfind⟩ := findSome?_range_minimal (n := 17)
      (f := fun (n : Nat) => b.nearest? (b.magnitude - n)) (show b.magnitude.toNat < 17 by omega)
      hnone
    rw [digits, hfind, Option.getD_some, (nearest?_eq_some hd).2]
    omega
  · rw [digits]
    cases hfind : (List.range 17).findSome? fun (n : Nat) => b.nearest? (b.magnitude - n) with
    | some d =>
      obtain ⟨j, hj, hd⟩ := List.exists_of_findSome?_eq_some hfind
      have hj := List.mem_range.mp hj
      rw [Option.getD_some, (nearest?_eq_some hd).2]
      omega
    | none =>
      have he : 0 ≤ b.exponent := by omega
      rw [Option.getD_none, exact, if_pos he]

theorem eq_of_roundsTo_natCast {m n : Nat} {e : Int} (he : e < 0) (h : RoundsTo n m e) :
    (m : ℚ) * 2 ^ e = n := by
  obtain ⟨k, hk⟩ := Int.eq_ofNat_of_zero_le (show 0 ≤ -e by omega)
  obtain rfl : e = -(k : Int) := by omega
  obtain ⟨k, rfl⟩ : ∃ j, k = j + 1 := ⟨k - 1, by omega⟩
  have hscale : (n : ℚ) / 2 ^ (-((k + 1 : Nat) : Int)) = (n * 2 ^ (k + 1) : Nat) := by
    rw [zpow_neg, zpow_natCast, div_inv_eq_mul]
    push_cast
    rfl
  have hnearest := h.nearest.bounds
  rw [hscale] at hnearest
  have h1 : (m : ℚ) < (n * 2 ^ (k + 1) : Nat) + 1 := by linarith
  have h2 : ((n * 2 ^ (k + 1) : Nat) : ℚ) < m + 1 := by linarith
  norm_cast at h1 h2
  obtain rfl : m = n * 2 ^ (k + 1) := by omega
  rw [← hscale]
  exact div_mul_cancel₀ _ (by positivity)

theorem exists_natCast_of_nonneg {a k : Int} {n : Nat} (h : 0 ≤ k) (ha : 0 ≤ a) :
    ∃ j : Nat, (n : ℚ) * (a : ℚ) ^ k = j := by
  obtain ⟨i, rfl⟩ := Int.eq_ofNat_of_zero_le h
  obtain ⟨a, rfl⟩ := Int.eq_ofNat_of_zero_le ha
  refine ⟨n * a ^ i, ?_⟩
  push_cast
  rw [zpow_natCast]

theorem shortest_exponent_nonneg_iff (hb : 0 < b.mantissa) (hlt : b.mantissa < 2 ^ 53) :
    0 ≤ b.shortest.exponent ↔ ∃ n : Nat, (b.mantissa : ℚ) * 2 ^ b.exponent = n := by
  constructor
  · intro h
    rcases le_or_gt 0 b.exponent with he | he
    · exact exists_natCast_of_nonneg (a := 2) he (by decide)
    · obtain ⟨n, hn⟩ := exists_natCast_of_nonneg (a := 10) (n := b.shortest.value) h (by decide)
      have hround := roundsTo_shortest hb
      have hn : b.shortest.rational = n := hn
      rw [hn] at hround
      exact ⟨n, eq_of_roundsTo_natCast he hround⟩
  · intro h
    obtain ⟨n, hn⟩ := h
    rw [shortest_eq hb]
    exact (digits_exponent_nonneg hb hlt hn).trans b.digits.exponent_le_stripped

end Binary

end Univariate.Decimal
