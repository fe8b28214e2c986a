import Univariate.Text.Brackets

namespace Univariate.Text

variable {stack below cs u v w : List Char} {b c o : Char}

inductive Pair : Char → Char → Prop
  | round : Pair '(' ')'
  | square : Pair '[' ']'
  | curly : Pair '{' '}'

inductive Dyck : List Char → Prop
  | nil : Dyck []
  | pair {o c : Char} {u v : List Char} : Pair o c → Dyck u → Dyck v → Dyck (o :: u ++ c :: v)

/-- What is still owed to the brackets that are open, the innermost first. -/
inductive Owed : List Char → List Char → Prop
  | nil {w : List Char} : Dyck w → Owed [] w
  | cons (b : Char) {below u v : List Char} : Dyck u → Owed below v →
      Owed (b :: below) (u ++ closing b :: v)

def brackets (cs : List Char) : List Char := cs.filter fun c => isOpening c || isClosing c

section Pairs

theorem isOpening_iff : isOpening c = true ↔ c = '(' ∨ c = '[' ∨ c = '{' := by
  simp only [isOpening, Bool.or_eq_true, beq_iff_eq, or_assoc]

theorem pair_closing (h : isOpening b = true) : Pair b (closing b) := by
  rcases isOpening_iff.mp h with rfl | rfl | rfl
  · exact .round
  · exact .square
  · exact .curly

theorem Pair.opening (h : Pair o c) : isOpening o = true := by
  cases h <;> rfl

theorem Pair.closing (h : Pair o c) : isOpening c = false ∧ isClosing c = true ∧ closing o = c := by
  cases h <;> decide

end Pairs

section Steps

theorem closes_opening (h : isOpening c = true) : closes stack (c :: cs) = closes (c :: stack) cs := by
  rw [closes.eq_def]
  simp only [h, if_true]

theorem closes_closing (hopen : isOpening c = false) (hclose : isClosing c = true) :
    closes (b :: below) (c :: cs) = (closing b == c && closes below cs) := by
  rw [closes.eq_def]
  simp only [hopen, hclose, Bool.false_eq_true, if_false, if_true]

theorem closes_nil_closing (hopen : isOpening c = false) (hclose : isClosing c = true) :
    closes [] (c :: cs) = false := by
  rw [closes.eq_def]
  simp only [hopen, hclose, Bool.false_eq_true, if_false, if_true]

theorem closes_skip (hopen : isOpening c = false) (hclose : isClosing c = false) :
    closes stack (c :: cs) = closes stack cs := by
  rw [closes.eq_def]
  simp only [hopen, hclose, Bool.false_eq_true, if_false]

theorem closes_filter {p : Char → Bool}
    (hp : ∀ c, p c = false → isOpening c = false ∧ isClosing c = false) (stack cs : List Char) :
    closes stack (cs.filter p) = closes stack cs := by
  induction cs generalizing stack with
  | nil => rfl
  | cons c cs ih =>
    cases hc : p c with
    | true =>
      rw [List.filter_cons_of_pos hc, closes.eq_def stack (c :: cs.filter p),
        closes.eq_def stack (c :: cs)]
      simp only [ih]
    | false =>
      obtain ⟨hopen, hclose⟩ := hp c hc
      rw [List.filter_cons_of_neg (by rw [hc]; exact Bool.false_ne_true), ih,
        closes_skip hopen hclose]

theorem closes_brackets (stack cs : List Char) : closes stack (brackets cs) = closes stack cs := by
  refine closes_filter (fun c hc => ?_) stack cs
  simpa only [Bool.or_eq_false_iff] using hc

end Steps

section Words

theorem Dyck.append (hu : Dyck u) (hv : Dyck v) : Dyck (u ++ v) := by
  induction hu with
  | nil => exact hv
  | @pair o c u w hpair hu _ _ ih =>
    have hnest := Dyck.pair hpair hu ih
    rwa [← List.cons_append, ← List.append_assoc] at hnest

theorem Owed.prepend (hu : Dyck u) (h : Owed stack w) : Owed stack (u ++ w) := by
  cases h with
  | nil hw => exact .nil (hu.append hw)
  | cons b hv hbelow =>
    rw [← List.append_assoc]
    exact .cons b (hu.append hv) hbelow

theorem Owed.opening (hb : isOpening b = true) (h : Owed (b :: stack) w) : Owed stack (b :: w) := by
  cases h with
  | cons _ hu hbelow =>
    have hpair := Dyck.pair (pair_closing hb) hu .nil
    have howed := hbelow.prepend hpair
    rwa [List.append_assoc] at howed

theorem owed_of_closes (h : closes stack cs = true) : Owed stack (brackets cs) := by
  induction cs generalizing stack with
  | nil =>
    cases stack with
    | nil => exact .nil .nil
    | cons b below => cases h
  | cons c cs ih =>
    cases hopen : isOpening c with
    | true =>
      rw [closes_opening hopen] at h
      have hkeep : brackets (c :: cs) = c :: brackets cs :=
        List.filter_cons_of_pos (by rw [hopen, Bool.true_or])
      rw [hkeep]
      exact (ih h).opening hopen
    | false =>
      cases hclose : isClosing c with
      | true =>
        have hkeep : brackets (c :: cs) = c :: brackets cs :=
          List.filter_cons_of_pos (by rw [hclose, Bool.or_true])
        rw [hkeep]
        cases stack with
        | nil =>
          rw [closes_nil_closing hopen hclose] at h
          cases h
        | cons b below =>
          rw [closes_closing hopen hclose, Bool.and_eq_true, beq_iff_eq] at h
          obtain ⟨rfl, hbelow⟩ := h
          exact .cons b .nil (ih hbelow)
      | false =>
        rw [closes_skip hopen hclose] at h
        have hskip : brackets (c :: cs) = brackets cs :=
          List.filter_cons_of_neg (by rw [hopen, hclose]; exact Bool.false_ne_true)
        rw [hskip]
        exact ih h

theorem Dyck.closes_append (hu : Dyck u) (stack rest : List Char) :
    closes stack (u ++ rest) = closes stack rest := by
  induction hu generalizing stack rest with
  | nil => rfl
  | @pair o c u v hpair _ _ ihu ihv =>
    obtain ⟨hopen, hclose, hpartner⟩ := hpair.closing
    rw [List.append_assoc, List.cons_append, List.cons_append, closes_opening hpair.opening, ihu,
      closes_closing hopen hclose, hpartner, beq_self_eq_true, Bool.true_and, ihv]

theorem closes_of_owed (h : Owed stack w) (hstack : ∀ b ∈ stack, isOpening b = true) :
    closes stack w = true := by
  induction h with
  | nil hw =>
    have hclosed := hw.closes_append [] []
    rwa [List.append_nil] at hclosed
  | cons b hu _ ih =>
    obtain ⟨hb, hbelow⟩ := List.forall_mem_cons.mp hstack
    obtain ⟨hopen, hclose, -⟩ := (pair_closing hb).closing
    rw [hu.closes_append, closes_closing hopen hclose, beq_self_eq_true, Bool.true_and]
    exact ih hbelow

theorem balanced_iff_dyck (cs : List Char) : balanced cs = true ↔ Dyck (brackets cs) := by
  constructor
  · intro h
    cases owed_of_closes h with
    | nil hw => exact hw
  · intro h
    rw [balanced, ← closes_brackets]
    exact closes_of_owed (.nil h) (List.forall_mem_nil _)

end Words

end Univariate.Text
