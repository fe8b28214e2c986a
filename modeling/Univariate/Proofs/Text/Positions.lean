import Mathlib
import Univariate.Text.Positions

namespace Univariate.Text

variable {target : Char} {text before rest cs : List Char} {n p : Nat}

section Bytes

theorem byteCount_append (before rest : List Char) :
    byteCount (before ++ rest) = byteCount before + byteCount rest := by
  induction before with
  | nil => rw [List.nil_append, byteCount, Nat.zero_add]
  | cons c cs ih => rw [List.cons_append, byteCount, ih, byteCount, Nat.add_assoc]

theorem utf8ByteSize_ofList (cs : List Char) : (String.ofList cs).utf8ByteSize = byteCount cs := by
  rw [String.utf8ByteSize_ofList]
  induction cs with
  | nil => rfl
  | cons c cs ih => rw [String.utf8Len, ih, byteCount, Nat.add_comm]

theorem cut?_append (before rest : List Char) :
    cut? (byteCount before) (before ++ rest) = some (before, rest) := by
  induction before with
  | nil => cases rest <;> rfl
  | cons c cs ih =>
    obtain ⟨k, hk⟩ := Nat.exists_eq_add_one_of_ne_zero c.utf8Size_pos.ne'
    have hcount : byteCount (c :: cs) = k + byteCount cs + 1 := by
      rw [byteCount, hk]
      omega
    have hrest : k + byteCount cs + 1 - c.utf8Size = byteCount cs := by omega
    rw [hcount, List.cons_append, cut?, if_pos (by omega), hrest, ih, Option.map_some]

theorem cut?_eq_some_iff :
    cut? n text = some (before, rest) ↔ text = before ++ rest ∧ byteCount before = n := by
  constructor
  · intro h
    fun_induction cut? n text generalizing before with
    | case1 cs =>
      cases h
      exact ⟨rfl, rfl⟩
    | case2 n => cases h
    | case3 n c cs hc ih =>
      obtain ⟨⟨before', rest'⟩, hcut, heq⟩ := Option.map_eq_some_iff.mp h
      cases heq
      obtain ⟨rfl, hcount⟩ := ih hcut
      refine ⟨rfl, ?_⟩
      rw [byteCount]
      omega
    | case4 n c cs hc => cases h
  · rintro ⟨rfl, rfl⟩
    exact cut?_append before rest

theorem isValid_iff_cut? : (String.Pos.Raw.mk n).IsValid (String.ofList text) ↔
    ∃ before rest, cut? n text = some (before, rest) := by
  rw [String.Pos.Raw.isValid_iff_exists_append]
  constructor
  · rintro ⟨s, s', hs, hn⟩
    refine ⟨s.toList, s'.toList, cut?_eq_some_iff.mpr ⟨?_, ?_⟩⟩
    · rw [← String.toList_append, ← hs, String.toList_ofList]
    · rw [← utf8ByteSize_ofList, String.ofList_toList]
      exact (congrArg String.Pos.Raw.byteIdx hn).symm
  · rintro ⟨before, rest, hcut⟩
    obtain ⟨rfl, rfl⟩ := cut?_eq_some_iff.mp hcut
    refine ⟨String.ofList before, String.ofList rest, String.ofList_append, ?_⟩
    rw [← utf8ByteSize_ofList]
    rfl

end Bytes

section Places

def Stands (target : Char) (text : List Char) (p : Nat) : Prop :=
  ∃ before rest, text = before ++ target :: rest ∧ byteCount before = p

theorem not_stands_of_not_mem (h : target ∉ text) : ¬ Stands target text p := by
  rintro ⟨before, rest, rfl, -⟩
  exact h (List.mem_append_right _ List.mem_cons_self)

theorem Stands.lt (h : Stands target text p) : p < byteCount text := by
  obtain ⟨before, rest, rfl, rfl⟩ := h
  have hsize := target.utf8Size_pos
  rw [byteCount_append, byteCount]
  omega

theorem Stands.isValid (h : Stands target text p) :
    (String.Pos.Raw.mk p).IsValid (String.ofList text) := by
  obtain ⟨before, rest, rfl, rfl⟩ := h
  exact isValid_iff_cut?.mpr ⟨before, target :: rest, cut?_append _ _⟩

theorem stands_append_iff : Stands target (before ++ rest) p ↔
    Stands target before p ∨ ∃ q, Stands target rest q ∧ p = byteCount before + q := by
  constructor
  · rintro ⟨left, right, heq, rfl⟩
    rcases List.append_eq_append_iff.mp heq with ⟨mid, rfl, hrest⟩ | ⟨mid, hbefore, hright⟩
    · right
      exact ⟨byteCount mid, ⟨mid, right, hrest, rfl⟩, byteCount_append before mid⟩
    · cases mid with
      | nil =>
        right
        rw [List.append_nil] at hbefore
        exact ⟨0, ⟨[], right, hright.symm, rfl⟩, by rw [hbefore]; rfl⟩
      | cons c mid =>
        left
        obtain ⟨rfl, -⟩ := List.cons.inj hright
        exact ⟨left, mid, hbefore, rfl⟩
  · rintro (⟨left, right, rfl, rfl⟩ | ⟨q, ⟨left, right, rfl, rfl⟩, rfl⟩)
    · exact ⟨left, right ++ rest, by simp, rfl⟩
    · exact ⟨before ++ left, right, by simp, byteCount_append before left⟩

theorem stands_singleton_iff : Stands target [target] p ↔ p = 0 := by
  constructor
  · rintro ⟨left, right, heq, rfl⟩
    cases left with
    | nil => rfl
    | cons c left => simp at heq
  · rintro rfl
    exact ⟨[], [], rfl, rfl⟩

theorem firstPosition?_eq_none_iff : firstPosition? target text = none ↔ target ∉ text := by
  fun_induction firstPosition? target text with
  | case1 => simp
  | case2 cs => simp
  | case3 c cs hc ih => simp [ih, Ne.symm hc]

theorem exists_of_firstPosition? (h : firstPosition? target text = some p) :
    ∃ before rest, text = before ++ target :: rest ∧ target ∉ before ∧ byteCount before = p := by
  fun_induction firstPosition? target text generalizing p with
  | case1 => cases h
  | case2 cs =>
    cases h
    exact ⟨[], cs, rfl, List.not_mem_nil, rfl⟩
  | case3 c cs hc ih =>
    obtain ⟨q, hq, rfl⟩ := Option.map_eq_some_iff.mp h
    obtain ⟨before, rest, rfl, hbefore, rfl⟩ := ih hq
    refine ⟨c :: before, rest, rfl, ?_, rfl⟩
    rw [List.mem_cons, not_or]
    exact ⟨Ne.symm hc, hbefore⟩

end Places

section Lists

structure Lists (target : Char) (text : List Char) (ps : List Nat) : Prop where
  ascending : ps.Pairwise (· < ·)
  mem_iff : ∀ p, p ∈ ps ↔ Stands target text p
  length_eq : ps.length = text.count target

variable {ps : List Nat}

theorem lists_nil (target : Char) : Lists target [] [] where
  ascending := .nil
  mem_iff _ := iff_of_false List.not_mem_nil (not_stands_of_not_mem List.not_mem_nil)
  length_eq := rfl

theorem Lists.append (h : Lists target before ps) (hrest : target ∉ rest) :
    Lists target (before ++ rest) ps where
  ascending := h.ascending
  mem_iff p := by
    have hnone : ¬ ∃ q, Stands target rest q ∧ p = byteCount before + q :=
      fun ⟨_, hq, _⟩ => not_stands_of_not_mem hrest hq
    rw [h.mem_iff, stands_append_iff, or_iff_left hnone]
  length_eq := by
    rw [h.length_eq, List.count_append, List.count_eq_zero_of_not_mem hrest, Nat.add_zero]

theorem Lists.concat (h : Lists target before ps) :
    Lists target (before ++ [target]) (ps ++ [byteCount before]) where
  ascending := by
    refine List.pairwise_append.mpr ⟨h.ascending, List.pairwise_singleton _ _, ?_⟩
    intro p hp q hq
    rw [List.mem_singleton.mp hq]
    exact ((h.mem_iff p).mp hp).lt
  mem_iff p := by
    rw [List.mem_append, h.mem_iff, stands_append_iff, List.mem_singleton]
    simp only [stands_singleton_iff, exists_eq_left, Nat.add_zero]
  length_eq := by
    rw [List.length_append, h.length_eq, List.count_append, List.count_singleton_self,
      List.length_singleton]

theorem Lists.cut?_head (h : Lists target text (p :: ps)) :
    cut? p text = some (text.takeWhile (· != target), text.dropWhile (· != target)) := by
  obtain ⟨before, rest, rfl, rfl⟩ := (h.mem_iff p).mp List.mem_cons_self
  have hbefore : target ∉ before := by
    intro hmem
    obtain ⟨left, right, rfl⟩ := List.append_of_mem hmem
    have hstands : Stands target (left ++ target :: right) (byteCount left) :=
      ⟨left, right, rfl, rfl⟩
    have hlt : byteCount left < byteCount (left ++ target :: right) := hstands.lt
    have hfirst : Stands target ((left ++ target :: right) ++ target :: rest) (byteCount left) :=
      stands_append_iff.mpr (.inl hstands)
    rcases List.mem_cons.mp ((h.mem_iff _).mpr hfirst) with heq | htail
    · omega
    · have hge := (List.pairwise_cons.mp h.ascending).1 _ htail
      omega
  have hpass : ∀ c ∈ before, (c != target) = true :=
    fun c hc => bne_iff_ne.mpr fun heq => hbefore (heq ▸ hc)
  have hstop : ¬ (target != target) = true := by simp
  rw [cut?_append, List.takeWhile_append_of_pos hpass, List.dropWhile_append_of_pos hpass,
    List.takeWhile_cons_of_neg (p := (· != target)) hstop,
    List.dropWhile_cons_of_neg (p := (· != target)) hstop, List.append_nil]

end Lists

namespace Search

variable {s next : Search}

/-- The search has come through `before` and found the positions there. -/
structure Passed (target : Char) (before : List Char) (s : Search) : Prop where
  start_eq : s.start = byteCount before
  lists : Lists target before s.found

theorem passed_nil (target : Char) : Passed target [] ⟨0, []⟩ := ⟨rfl, lists_nil target⟩

theorem Passed.cut? (h : s.Passed target before) (rest : List Char) :
    Text.cut? s.start (before ++ rest) = some (before, rest) := by
  rw [h.start_eq, cut?_append]

theorem Passed.turn_cases (h : s.Passed target before) (rest : List Char) :
    (s.turn target (before ++ rest) = .finished ∧ target ∉ rest) ∨
    ∃ skipped rest' next, s.turn target (before ++ rest) = .onward next ∧
      rest = skipped ++ target :: rest' ∧ next.Passed target (before ++ skipped ++ [target]) := by
  rw [turn, h.cut? rest]
  dsimp only
  cases hposition : firstPosition? target rest with
  | none => exact .inl ⟨rfl, firstPosition?_eq_none_iff.mp hposition⟩
  | some p =>
    right
    obtain ⟨skipped, rest', rfl, hskipped, rfl⟩ := exists_of_firstPosition? hposition
    refine ⟨skipped, rest', _, rfl, rfl, ?_, ?_⟩
    · rw [byteCount_append, byteCount_append, h.start_eq]
      rfl
    · have hlists := (h.lists.append hskipped).concat
      rwa [byteCount_append, ← h.start_eq] at hlists

def Reached (target : Char) (text : List Char) : Search → Prop :=
  Relation.ReflTransGen (fun s next => s.turn target text = .onward next) ⟨0, []⟩

theorem Reached.passed (h : Reached target text s) :
    ∃ before rest, text = before ++ rest ∧ s.Passed target before := by
  induction h with
  | refl => exact ⟨[], text, rfl, passed_nil target⟩
  | tail _ hturn ih =>
    obtain ⟨before, rest, rfl, hpassed⟩ := ih
    rcases hpassed.turn_cases rest with ⟨hfinished, -⟩ | ⟨skipped, rest', next, honward, rfl, hnext⟩
    · rw [hfinished] at hturn
      cases hturn
    · rw [honward] at hturn
      cases hturn
      exact ⟨_, rest', by simp, hnext⟩

theorem Reached.run (h : Reached target text s) :
    ∃ last, Reached target text last ∧ last.turn target text = .finished ∧
      s.run target text = some last.found := by
  fun_induction Search.run target text s with
  | case1 s hturn =>
    obtain ⟨before, rest, rfl, hpassed⟩ := h.passed
    rcases hpassed.turn_cases rest with ⟨hfinished, -⟩ | ⟨-, -, next, honward, -⟩
    · rw [hfinished] at hturn
      cases hturn
    · rw [honward] at hturn
      cases hturn
  | case2 s hturn => exact ⟨s, h, hturn, rfl⟩
  | case3 s next hturn _ ih => exact ih (h.tail hturn)

theorem Reached.lists_of_finished (h : Reached target text s)
    (hfinished : s.turn target text = .finished) : Lists target text s.found := by
  obtain ⟨before, rest, rfl, hpassed⟩ := h.passed
  rcases hpassed.turn_cases rest with ⟨-, hrest⟩ | ⟨-, -, next, honward, -⟩
  · exact hpassed.lists.append hrest
  · rw [honward] at hfinished
    cases hfinished

end Search

section Positions

theorem exists_finished (target : Char) (text : List Char) :
    ∃ s, Search.Reached target text s ∧ s.turn target text = .finished ∧
      s.found = positions target text := by
  have hstart : Search.Reached target text ⟨0, []⟩ := .refl
  obtain ⟨last, hreached, hfinished, hrun⟩ := hstart.run
  exact ⟨last, hreached, hfinished, by rw [positions, hrun, Option.getD_some]⟩

theorem lists_positions (target : Char) (text : List Char) :
    Lists target text (positions target text) := by
  obtain ⟨s, hreached, hfinished, hfound⟩ := exists_finished target text
  exact hfound ▸ hreached.lists_of_finished hfinished

/-- The search for a character comes to an end, every text that it cuts off begins at a boundary
between characters, and it finds all positions of the character. These are boundaries too, and at
the first of them the text can be cut. -/
theorem positions_complete (target : Char) (text : List Char) :
    (∀ s, Search.Reached target text s →
      (String.Pos.Raw.mk s.start).IsValid (String.ofList text) ∧ s.turn target text ≠ .astray) ∧
    (∃ s, Search.Reached target text s ∧ s.turn target text = .finished ∧
      s.found = positions target text) ∧
    (positions target text).Pairwise (· < ·) ∧
    (∀ p, p ∈ positions target text ↔ Stands target text p) ∧
    (∀ p ∈ positions target text, (String.Pos.Raw.mk p).IsValid (String.ofList text)) ∧
    ∀ p ps, positions target text = p :: ps →
      cut? p text = some (text.takeWhile (· != target), text.dropWhile (· != target)) := by
  have hlists := lists_positions target text
  refine ⟨?_, exists_finished target text, hlists.ascending, hlists.mem_iff, ?_, ?_⟩
  · intro s hreached
    obtain ⟨before, rest, rfl, hpassed⟩ := hreached.passed
    refine ⟨isValid_iff_cut?.mpr ⟨before, rest, hpassed.cut? rest⟩, ?_⟩
    rcases hpassed.turn_cases rest with ⟨hfinished, -⟩ | ⟨-, -, next, honward, -⟩
    · exact fun hastray => nomatch hfinished.symm.trans hastray
    · exact fun hastray => nomatch honward.symm.trans hastray
  · exact fun p hp => ((hlists.mem_iff p).mp hp).isValid
  · intro p ps hpositions
    exact (hpositions ▸ hlists).cut?_head

example : positions '=' ['é', '=', '√', '='] = [2, 6] := by
  cbv

end Positions

end Univariate.Text
