import Univariate.Proofs.Polynomial.Coefficients

namespace Univariate.Dense

open Polynomial

section Ring

variable {K : Type} [CommRing K]

@[simp]
theorem toPolynomial_orZero (cs : List K) : toPolynomial (orZero cs) = toPolynomial cs := by
  cases cs with
  | nil => simp [orZero]
  | cons c cs => rfl

theorem length_subtractScaled (factor : K) (divisor ws : List K) :
    (subtractScaled factor divisor ws).length = ws.length := by
  induction divisor generalizing ws with
  | nil => rw [subtractScaled]; exact nofun
  | cons d ds ih =>
    cases ws with
    | nil => rfl
    | cons w ws => rw [subtractScaled, List.length_cons, ih, List.length_cons]

theorem toPolynomial_subtractScaled (factor : K) {divisor ws : List K}
    (h : divisor.length ≤ ws.length) :
    toPolynomial (subtractScaled factor divisor ws) = toPolynomial ws -
      C factor * toPolynomial divisor * X ^ (ws.length - divisor.length) := by
  induction divisor generalizing ws with
  | nil => simp [subtractScaled]
  | cons d ds ih =>
    cases ws with
    | nil => simp at h
    | cons w ws =>
      simp only [List.length_cons, Nat.add_le_add_iff_right] at h
      have hpow : (X : K[X]) ^ ws.length = X ^ ds.length * X ^ (ws.length - ds.length) := by
        rw [← pow_add, Nat.add_sub_cancel' h]
      rw [subtractScaled, toPolynomial_cons, length_subtractScaled, ih h, toPolynomial_cons,
        toPolynomial_cons, C_sub, C_mul, List.length_cons, List.length_cons, Nat.add_sub_add_right,
        hpow]
      ring

end Ring

variable {K : Type} [Field K]

structure LongDivision (lead : K) (tail work quotient rest : List K) : Prop where
  length_rest : rest.length = tail.length
  length_quotient : quotient.length + tail.length = work.length
  eq : toPolynomial work = toPolynomial quotient * toPolynomial (lead :: tail) + toPolynomial rest

theorem LongDivision.step {lead w : K} {tail ws quotient rest : List K} (hlead : lead ≠ 0)
    (h : LongDivision lead tail (subtractScaled (w / lead) tail ws) quotient rest) :
    LongDivision lead tail (w :: ws) (w / lead :: quotient) rest := by
  have hlength := h.length_quotient
  rw [length_subtractScaled] at hlength
  refine ⟨h.length_rest, by rw [List.length_cons, List.length_cons]; omega, ?_⟩
  have hw : (C w : K[X]) = C (w / lead) * C lead := by
    rw [← C_mul, div_mul_cancel₀ w hlead]
  have hpow : (X : K[X]) ^ ws.length = X ^ quotient.length * X ^ tail.length := by
    rw [← pow_add, hlength]
  have heq := h.eq
  rw [toPolynomial_subtractScaled _ (by omega), ← hlength, Nat.add_sub_cancel,
    sub_eq_iff_eq_add] at heq
  calc toPolynomial (w :: ws)
      = C w * X ^ ws.length + toPolynomial ws := toPolynomial_cons w ws
    _ = C (w / lead) * X ^ quotient.length * toPolynomial (lead :: tail) +
          (toPolynomial quotient * toPolynomial (lead :: tail) + toPolynomial rest) := by
        rw [heq, hw, hpow, toPolynomial_cons lead tail]
        ring
    _ = toPolynomial (w / lead :: quotient) * toPolynomial (lead :: tail) +
          toPolynomial rest := by
        rw [toPolynomial_cons (w / lead) quotient]
        ring

theorem longDivision_spec {lead : K} {tail work : List K} {steps : Nat} (hlead : lead ≠ 0)
    (h : steps + tail.length = work.length) :
    LongDivision lead tail work (longDivision lead tail steps work).1
      (longDivision lead tail steps work).2 := by
  induction steps generalizing work with
  | zero =>
    rw [longDivision]
    · exact ⟨by simpa using h.symm, by simpa using h, by simp⟩
    · exact nofun
  | succ steps ih =>
    cases work with
    | nil => simp at h
    | cons w ws =>
      rw [List.length_cons] at h
      exact (ih (by rw [length_subtractScaled]; omega)).step hlead

variable [DecidableEq K] {dividend divisor : List K} {r s : Division K}

/-- The result of a division with remainder: the remainder is zero, or starts with a coefficient
other than zero and is shorter than the divisor without leading zeros. -/
structure IsDivision (dividend divisor : List K) (r : Division K) : Prop where
  eq : toPolynomial dividend =
    toPolynomial r.quotient * toPolynomial divisor + toPolynomial r.remainder
  remainder : r.remainder = [0] ∨
    (∃ c ∈ r.remainder.head?, c ≠ 0) ∧ r.remainder.length < (trim divisor).length

section OrZero

variable {cs : List K}

theorem orZero_trim_cases (cs : List K) : orZero (trim cs) = [0] ∨
    (∃ c ∈ (orZero (trim cs)).head?, c ≠ 0) ∧ orZero (trim cs) = trim cs := by
  cases htrim : trim cs with
  | nil => exact .inl rfl
  | cons c rest => exact .inr ⟨⟨c, rfl, trimmed_trim cs c (by rw [htrim]; rfl)⟩, rfl⟩

theorem length_trim_le (cs : List K) : (trim cs).length ≤ cs.length :=
  (List.dropWhile_sublist _).length_le

theorem IsDivision.orZero_remainder (h : IsDivision dividend divisor r) :
    orZero (trim r.remainder) = r.remainder := by
  rcases h.remainder with heq | ⟨⟨c, hc, hne⟩, -⟩
  · rw [heq]
    simp [trim, orZero]
  · have htrimmed : Trimmed r.remainder := by
      intro d hd
      cases Option.mem_unique hc hd
      exact hne
    rw [trim_eq_self htrimmed, orZero, if_neg]
    rw [List.isEmpty_iff]
    rintro hnil
    rw [hnil] at hc
    cases hc

end OrZero

section Unique

theorem toPolynomial_ne_zero (h : ¬ ∀ c ∈ divisor, c = 0) : toPolynomial divisor ≠ 0 :=
  fun heq => h (toPolynomial_eq_zero_iff.mp heq)

theorem IsDivision.degree_lt (h : IsDivision dividend divisor r) (hd : ¬ ∀ c ∈ divisor, c = 0) :
    (toPolynomial r.remainder).degree < (toPolynomial divisor).degree := by
  rcases h.remainder with heq | ⟨-, hlength⟩
  · have hne := toPolynomial_ne_zero hd
    rw [heq, toPolynomial_zero_cons, toPolynomial_nil, degree_zero]
    exact bot_lt_iff_ne_bot.mpr (degree_eq_bot.not.mpr hne)
  · refine (degree_toPolynomial_lt r.remainder).trans_le ?_
    rw [← toPolynomial_trim divisor]
    cases htrim : trim divisor with
    | nil => simp [htrim] at hlength
    | cons lead tail =>
      have htrimmed : Trimmed (lead :: tail) := htrim ▸ trimmed_trim divisor
      rw [htrim, List.length_cons] at hlength
      rw [degree_of_trimmed htrimmed]
      exact_mod_cast Nat.lt_succ_iff.mp hlength

theorem IsDivision.unique (h : IsDivision dividend divisor r) (h' : IsDivision dividend divisor s)
    (hd : ¬ ∀ c ∈ divisor, c = 0) :
    trim s.quotient = trim r.quotient ∧ s.remainder = r.remainder := by
  have hsub : toPolynomial divisor * (toPolynomial s.quotient - toPolynomial r.quotient) =
      toPolynomial r.remainder - toPolynomial s.remainder := by
    linear_combination h.eq - h'.eq
  have hlt : (toPolynomial r.remainder - toPolynomial s.remainder).degree <
      (toPolynomial divisor).degree :=
    (degree_sub_le _ _).trans_lt (max_lt (h.degree_lt hd) (h'.degree_lt hd))
  have hremainder := eq_zero_of_dvd_of_degree_lt ⟨_, hsub.symm⟩ hlt
  rw [hremainder, mul_eq_zero, or_iff_right (toPolynomial_ne_zero hd), sub_eq_zero] at hsub
  refine ⟨trim_eq_trim_iff.mpr hsub, ?_⟩
  rw [← h.orZero_remainder, ← h'.orZero_remainder,
    trim_eq_trim_iff.mpr (sub_eq_zero.mp hremainder)]

end Unique

section Results

theorem trim_of_not_zero (h : ¬ ∀ c ∈ divisor, c = 0) :
    ∃ lead tail, trim divisor = lead :: tail ∧ lead ≠ 0 := by
  cases htrim : trim divisor with
  | nil => exact absurd (trim_eq_nil_iff.mp htrim) h
  | cons lead tail => exact ⟨lead, tail, rfl, trimmed_trim divisor lead (by rw [htrim]; rfl)⟩

theorem isDivision_short {lead : K} {tail : List K} (htrim : trim divisor = lead :: tail)
    (h : (orZero (trim dividend)).length ≤ tail.length) :
    IsDivision dividend divisor ⟨[0], orZero (trim dividend)⟩ := by
  constructor
  · simp
  · have hlength : tail.length < (trim divisor).length := by
      rw [htrim]
      exact Nat.lt_succ_self _
    exact (orZero_trim_cases dividend).imp_right fun hcases => ⟨hcases.1, h.trans_lt hlength⟩

theorem isDivision_long {lead : K} {tail quotient rest : List K}
    (htrim : trim divisor = lead :: tail)
    (h : LongDivision lead tail (orZero (trim dividend)) quotient rest) :
    IsDivision dividend divisor ⟨quotient, orZero (trim rest)⟩ := by
  constructor
  · have heq := h.eq
    rw [toPolynomial_orZero, toPolynomial_trim, ← htrim, toPolynomial_trim] at heq
    rw [heq, toPolynomial_orZero, toPolynomial_trim]
  · have hlength : (trim rest).length < (trim divisor).length := by
      rw [htrim, List.length_cons, ← h.length_rest]
      exact Nat.lt_succ_of_le (length_trim_le rest)
    refine (orZero_trim_cases rest).imp_right fun hcases => ⟨hcases.1, ?_⟩
    rw [← hcases.2] at hlength
    exact hlength

theorem exists_divide? (hn : dividend ≠ []) (hd : ¬ ∀ c ∈ divisor, c = 0) :
    ∃ r, divide? dividend divisor = some r ∧ IsDivision dividend divisor r := by
  obtain ⟨lead, tail, htrim, hlead⟩ := trim_of_not_zero hd
  have hempty : dividend.isEmpty = false := List.isEmpty_eq_false_iff.mpr hn
  unfold divide?
  simp only [hempty, htrim, Bool.false_eq_true, if_false]
  split
  · rename_i hshort
    exact ⟨_, rfl, isDivision_short htrim hshort⟩
  · rename_i hlong
    exact ⟨_, rfl, isDivision_long htrim (longDivision_spec hlead (by omega))⟩

theorem divide?_eq_none_iff :
    divide? dividend divisor = none ↔ dividend = [] ∨ divisor = [] ∨ ∀ c ∈ divisor, c = 0 := by
  constructor
  · intro h
    by_contra hne
    simp only [not_or] at hne
    obtain ⟨r, hr, -⟩ := exists_divide? hne.1 hne.2.2
    rw [h] at hr
    cases hr
  · rintro (rfl | rfl | hzero)
    · rfl
    · cases dividend <;> rfl
    · unfold divide?
      simp only [trim_eq_nil_iff.mpr hzero, ite_self]

/-- Lists of coefficients are divided as polynomials are: no result without a dividend or with a
divisor that is zero, and else the one quotient and remainder. Division undoes multiplication. -/
theorem divide?_euclidean (dividend divisor : List K) :
    (divide? dividend divisor = none ↔
      dividend = [] ∨ divisor = [] ∨ ∀ c ∈ divisor, c = 0) ∧
    (∀ r, divide? dividend divisor = some r → IsDivision dividend divisor r ∧
      ∀ s, IsDivision dividend divisor s →
        trim s.quotient = trim r.quotient ∧ s.remainder = r.remainder) ∧
    ∀ q, dividend ≠ [] → (¬ ∀ c ∈ divisor, c = 0) →
      toPolynomial dividend = toPolynomial q * toPolynomial divisor →
      ∃ r, divide? dividend divisor = some r ∧ trim r.quotient = trim q ∧ r.remainder = [0] := by
  refine ⟨divide?_eq_none_iff, ?_, ?_⟩
  · intro r hr
    have hsome : ¬ (dividend = [] ∨ divisor = [] ∨ ∀ c ∈ divisor, c = 0) := by
      rw [← divide?_eq_none_iff, hr]
      exact nofun
    simp only [not_or] at hsome
    obtain ⟨hn, -, hd⟩ := hsome
    obtain ⟨r', hr', hdivision⟩ := exists_divide? hn hd
    cases hr.symm.trans hr'
    exact ⟨hdivision, fun s hs => hdivision.unique hs hd⟩
  · intro q hn hd hproduct
    obtain ⟨r, hr, hdivision⟩ := exists_divide? hn hd
    have hq : IsDivision dividend divisor ⟨q, [0]⟩ := ⟨by simpa using hproduct, .inl rfl⟩
    obtain ⟨hquotient, hremainder⟩ := hdivision.unique hq hd
    exact ⟨r, hr, hquotient.symm, hremainder.symm⟩

theorem divide?_euclidean_rational :
    (divide? [2, 0, 3, 5] [0, 1, 0, (1 : ℚ)] = some ⟨[2, 0], [1, 5]⟩ ∧
      IsDivision [2, 0, 3, 5] [0, 1, 0, (1 : ℚ)] ⟨[2, 0], [1, 5]⟩) ∧
    ∃ r, divide? [1, -6, 11, -6] [1, (-1 : ℚ)] = some r ∧
      trim r.quotient = trim [1, -5, 6] ∧ r.remainder = [0] := by
  have hcubic : divide? [2, 0, 3, 5] [0, 1, 0, (1 : ℚ)] = some ⟨[2, 0], [1, 5]⟩ := by
    norm_num [divide?, trim, orZero, longDivision, subtractScaled]
  have hproduct : toPolynomial [1, -6, 11, (-6 : ℚ)] =
      toPolynomial [1, -5, 6] * toPolynomial [1, -1] := by
    simp only [toPolynomial_cons, toPolynomial_nil, List.length_cons, List.length_nil, map_neg,
      map_ofNat, map_one]
    ring
  exact ⟨⟨hcubic, ((divide?_euclidean _ _).2.1 _ hcubic).1⟩,
    (divide?_euclidean _ _).2.2 _ (by simp) (by simp) hproduct⟩

end Results

end Univariate.Dense
