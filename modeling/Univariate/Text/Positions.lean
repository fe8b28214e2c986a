namespace Univariate.Text

def byteCount : List Char → Nat
  | [] => 0
  | c :: cs => c.utf8Size + byteCount cs

/-- The text before a position and the text behind it, unless a character spans the position or
the text ends before it. -/
def cut? : Nat → List Char → Option (List Char × List Char)
  | 0, cs => some ([], cs)
  | _ + 1, [] => none
  | n + 1, c :: cs =>
    if c.utf8Size ≤ n + 1 then
      (cut? (n + 1 - c.utf8Size) cs).map fun (before, rest) => (c :: before, rest)
    else none

def firstPosition? (target : Char) : List Char → Option Nat
  | [] => none
  | c :: cs => if c = target then some 0 else (firstPosition? target cs).map (c.utf8Size + ·)

section

variable {target : Char} {text before rest : List Char} {n p : Nat}

theorem byteCount_of_cut? (h : cut? n text = some (before, rest)) :
    n + byteCount rest = byteCount text := by
  fun_induction cut? n text generalizing before with
  | case1 cs =>
    cases h
    exact Nat.zero_add _
  | case2 n => cases h
  | case3 n c cs hc ih =>
    obtain ⟨⟨before', rest'⟩, hcut, heq⟩ := Option.map_eq_some_iff.mp h
    cases heq
    have hcount := ih hcut
    rw [byteCount]
    omega
  | case4 n c cs hc => cases h

theorem byteCount_of_firstPosition? (h : firstPosition? target text = some p) :
    p + target.utf8Size ≤ byteCount text := by
  fun_induction firstPosition? target text generalizing p with
  | case1 => cases h
  | case2 cs =>
    cases h
    rw [byteCount]
    omega
  | case3 c cs hc ih =>
    obtain ⟨q, hq, rfl⟩ := Option.map_eq_some_iff.mp h
    have hcount := ih hq
    rw [byteCount]
    omega

end

structure Search where
  start : Nat
  found : List Nat

namespace Search

inductive Turn where
  | astray
  | finished
  | onward (next : Search)

def turn (target : Char) (text : List Char) (s : Search) : Turn :=
  match cut? s.start text with
  | none => .astray
  | some (_, rest) =>
    match firstPosition? target rest with
    | none => .finished
    | some p => .onward ⟨s.start + p + target.utf8Size, s.found ++ [s.start + p]⟩

theorem start_lt_of_turn {target : Char} {text : List Char} {s next : Search}
    (h : s.turn target text = .onward next) :
    s.start < next.start ∧ next.start ≤ byteCount text := by
  unfold turn at h
  split at h
  · cases h
  · rename_i hcut
    split at h
    · cases h
    · rename_i hposition
      cases h
      have hsize := target.utf8Size_pos
      have hcount := byteCount_of_cut? hcut
      have hle := byteCount_of_firstPosition? hposition
      exact ⟨by dsimp only; omega, by dsimp only; omega⟩

def run (target : Char) (text : List Char) (s : Search) : Option (List Nat) :=
  match h : s.turn target text with
  | .astray => none
  | .finished => some s.found
  | .onward next =>
    have := start_lt_of_turn h
    next.run target text
termination_by byteCount text - s.start

end Search

def positions (target : Char) (text : List Char) : List Nat :=
  (Search.run target text ⟨0, []⟩).getD []

end Univariate.Text
