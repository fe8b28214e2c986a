import Univariate.Proofs.Text.Ascii
import Univariate.Text.Lines

namespace Univariate.Text

variable {c : Char} {cs w : List Char}

section Trim

theorem trimStart_append (h : ∀ c ∈ w, isBlank c = true) (cs : List Char) :
    trimStart (w ++ cs) = trimStart cs :=
  List.dropWhile_append_of_pos h

theorem trimStart_cons (h : isBlank c = false) (cs : List Char) :
    trimStart (c :: cs) = c :: cs := by
  simp [trimStart, h]

theorem trimEnd_concat (h : isBlank c = true) (cs : List Char) :
    trimEnd (cs ++ [c]) = trimEnd cs := by
  simp [trimEnd, h]

theorem trimEnd_cons (h : isBlank c = false) (cs : List Char) :
    trimEnd (c :: cs) = c :: trimEnd cs := by
  induction cs using List.reverseRecOn with
  | nil => simp [trimEnd, h]
  | append_singleton cs d ih =>
    cases hd : isBlank d with
    | true => rw [← List.cons_append, trimEnd_concat hd, trimEnd_concat hd, ih]
    | false => simp [trimEnd, hd]

theorem trim_append (h : ∀ c ∈ w, isBlank c = true) (cs : List Char) :
    trim (w ++ cs) = trim cs := by
  simp only [trim, trimStart_append h]

theorem trim_cons (h : isBlank c = false) (cs : List Char) : trim (c :: cs) = c :: trimEnd cs := by
  rw [trim, trimStart_cons h, trimEnd_cons h]

theorem trim_concat (h : isBlank c = true) (cs : List Char) : trim (cs ++ [c]) = trim cs := by
  induction cs with
  | nil => simp [trim, trimStart, h]
  | cons d cs ih =>
    cases hd : isBlank d with
    | true => simpa [trim, trimStart, hd] using ih
    | false => simp [trim_cons hd, trimEnd_concat h]

end Trim

section Lines

theorem linesAfter_append (h : '\n' ∉ w) (before rest : List Char) :
    linesAfter before.reverse (w ++ rest) = linesAfter (before ++ w).reverse rest := by
  induction w generalizing before with
  | nil => simp
  | cons c w ih =>
    simp only [List.mem_cons, not_or] at h
    have hstep : linesAfter before.reverse (c :: w ++ rest) =
        linesAfter (before ++ [c]).reverse (w ++ rest) := by
      simp [linesAfter, Ne.symm h.1]
    rw [hstep, ih h.2, List.append_assoc, List.singleton_append]

theorem linesAfter_newline (line rest : List Char) :
    ∃ line', (line' = line ∨ line = line' ++ ['\r']) ∧
      linesAfter line.reverse ('\n' :: rest) = line' :: linesAfter [] rest := by
  cases line using List.reverseRecOn with
  | nil => exact ⟨[], .inl rfl, rfl⟩
  | append_singleton line c =>
    rw [List.reverse_concat]
    by_cases hc : c = '\r'
    · subst hc
      exact ⟨line, .inr rfl, by simp [linesAfter]⟩
    · refine ⟨line ++ [c], .inl rfl, ?_⟩
      simp [linesAfter, hc]

theorem joined_cons {separator part : List Char} {parts : List (List Char)} (h : parts ≠ []) :
    joined separator (part :: parts) = part ++ separator ++ joined separator parts := by
  obtain ⟨part', parts, rfl⟩ := List.exists_cons_of_ne_nil h
  simp [joined, List.intersperse]

end Lines

end Univariate.Text
