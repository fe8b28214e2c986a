import Univariate.Proofs.Document.Written
import Univariate.Proofs.Text.Lines

namespace Univariate.Document

open Text

variable {c : Char} {w s line cs indent : List Char} {header remarks pieces : List (List Char)}

theorem isBlank_of_start (h : isIdentifierStart c = true) : isBlank c = false := by
  simp only [isIdentifierStart, Bool.or_eq_true, isAlpha_iff, beq_iff_eq] at h
  rcases h with h | rfl
  · exact isBlank_eq_false (by omega) (by omega)
  · decide

theorem isComment_concat (h : isBlank c = true) (line : List Char) :
    isComment (line ++ [c]) = isComment line := by
  simp only [isComment, trim_concat h]

theorem isComment_append (h : ∀ c ∈ indent, isBlank c = true) (line : List Char) :
    isComment (indent ++ line) = isComment line := by
  simp only [isComment, trim_append h]

theorem isComment_start (h : isIdentifierStart c = true) (line : List Char) :
    isComment (c :: line) = false := by
  rw [isComment, trim_cons (isBlank_of_start h)]
  split
  case h_1 heq => cases heq
  case h_6 => rfl
  all_goals
    rename_i heq
    obtain ⟨rfl, -⟩ := List.cons.inj heq
    cases h

theorem Remark.isComment (h : Remark line) : isComment line = true := by
  obtain ⟨-, indent, rest, rfl, hindent, hrest⟩ := h
  rw [isComment_append hindent]
  rcases hrest with rfl | ⟨mark, hmark, text, rfl⟩
  · rfl
  · simp only [marks, List.mem_cons, List.not_mem_nil, or_false] at hmark
    rcases hmark with rfl | rfl | rfl | rfl
    · have hslash : isBlank '/' = false := by decide
      simp [Document.isComment, trim_cons hslash, trimEnd_cons hslash]
    · simp [Document.isComment, trim_cons (show isBlank '#' = false by decide)]
    · simp [Document.isComment, trim_cons (show isBlank '%' = false by decide)]
    · simp [Document.isComment, trim_cons (show isBlank ';' = false by decide)]

def counted (line cs : List Char) : List (List Char) :=
  (linesAfter line.reverse cs).filter fun line => !isComment line

theorem withoutComments_eq (cs : List Char) :
    withoutComments cs = joined ['\n'] (counted [] cs) := rfl

theorem counted_append (h : '\n' ∉ w) (line rest : List Char) :
    counted line (w ++ rest) = counted (line ++ w) rest := by
  simp only [counted, linesAfter_append h]

theorem counted_remark (h : Remark line) (rest : List Char) :
    counted [] (line ++ '\n' :: rest) = counted [] rest := by
  obtain ⟨line', hline', hlines⟩ := linesAfter_newline line rest
  have hcomment : isComment line' = true := by
    rcases hline' with rfl | rfl
    · exact h.isComment
    · exact (isComment_concat (by decide) line').symm.trans h.isComment
  rw [counted_append h.oneLine, List.nil_append, counted, hlines]
  simp [counted, hcomment]

theorem counted_ended (h : ∀ line ∈ remarks, Remark line) (rest : List Char) :
    counted [] (ended remarks ++ rest) = counted [] rest := by
  induction remarks with
  | nil => rfl
  | cons line remarks ih =>
    obtain ⟨hline, hrest⟩ := List.forall_mem_cons.mp h
    have hcons : ended (line :: remarks) ++ rest = line ++ '\n' :: (ended remarks ++ rest) := by
      simp [ended]
    rw [hcons, counted_remark hline, ih hrest]

theorem counted_last (h : Remark line) : counted [] line = [] := by
  have hline : counted [] line = counted line [] := by
    simpa using counted_append h.oneLine [] []
  rw [hline, counted, linesAfter]
  split
  · rfl
  · simp [h.isComment]

def Opens (line : List Char) : Prop :=
  ∀ w, Piece w → ∀ rest, isComment (line ++ (w ++ rest)) = false

theorem opens_of_spaces (h : Spaces s) : Opens s := by
  rintro w ⟨⟨c, u, rfl, hc⟩, -⟩ rest
  have hblank : ∀ c ∈ s, isBlank c = true := by
    intro c hc
    rcases h c hc with rfl | rfl <;> decide
  rw [isComment_append hblank]
  exact isComment_start hc _

theorem Opens.append (h : Opens line) (hw : Piece w) (rest : List Char) :
    Opens (line ++ (w ++ rest)) := by
  intro w' _ rest'
  simpa using h w hw (rest ++ (w' ++ rest'))

theorem counted_line (h : Opens line) (hw : Piece w) (hs : Spaces s) (rest : List Char) :
    counted line (w ++ (s ++ '\n' :: rest)) = (line ++ (w ++ s)) :: counted [] rest := by
  have hcr : '\r' ∉ w ++ s := by simp [hw.oneLine.2, not_mem_of_spaces hs]
  have hend : ∀ line', line ++ (w ++ s) ≠ line' ++ ['\r'] := by
    intro line' heq
    obtain ⟨c, u, rfl, -⟩ := hw.start
    rcases List.eq_nil_or_concat' (c :: u ++ s) with hnil | ⟨v, d, hv⟩
    · cases hnil
    · rw [hv, ← List.append_assoc] at heq
      cases List.append_inj_right' heq rfl
      simp [hv] at hcr
  obtain ⟨line', hline', hlines⟩ := linesAfter_newline (line ++ (w ++ s)) rest
  obtain rfl : line' = line ++ (w ++ s) := hline'.resolve_right (hend line')
  rw [counted_append hw.oneLine.1, counted_append (not_mem_of_spaces hs (by simp)),
    List.append_assoc, counted, hlines]
  simp [counted, h w hw s]

theorem counted_end (h : Opens line) (hw : Piece w) (hs : Spaces s) :
    counted line (w ++ s) = [line ++ (w ++ s)] := by
  have hstep : counted line (w ++ s) = counted (line ++ (w ++ s)) [] := by
    have hlf : '\n' ∉ w ++ s := by simp [hw.oneLine.1, not_mem_of_spaces hs]
    simpa using counted_append hlf line []
  have hne : line ++ (w ++ s) ≠ [] := by
    obtain ⟨c, u, rfl, -⟩ := hw.start
    simp
  rw [hstep, counted, linesAfter, List.reverse_reverse]
  simp only [List.isEmpty_reverse, List.isEmpty_eq_false_iff.mpr hne]
  simp [h w hw s]

theorem counted_spread (h : Spread Break Footer pieces cs) (hne : pieces ≠ [])
    (hpieces : ∀ w ∈ pieces, Piece w) (hline : Opens line) :
    ∃ cs', Spread Gap Spaces pieces cs' ∧ counted line cs ≠ [] ∧
      joined ['\n'] (counted line cs) = line ++ cs' := by
  -- The start of a line grows with every piece until a break ends it.
  induction h generalizing line with
  | nil => exact absurd rfl hne
  | last w hfooter =>
    have hw := hpieces w List.mem_cons_self
    cases hfooter with
    | spaces hs =>
      refine ⟨_, .last w hs, ?_⟩
      simp [counted_end hline hw hs, joined]
    | @lines s last remarks hs hremarks hlast =>
      refine ⟨w ++ s, .last w hs, ?_⟩
      have hrest : counted [] (ended remarks ++ last) = [] := by
        rw [counted_ended hremarks, counted_last hlast]
      simp [counted_line hline hw hs, hrest, joined]
  | @cons w w' b cs ws hbreak hrest ih =>
    obtain ⟨hw, hws⟩ := List.forall_mem_cons.mp hpieces
    cases hbreak with
    | @spaces s hne hs =>
      obtain ⟨cs', hcs', hlines, hjoined⟩ := ih (List.cons_ne_nil _ _) hws (hline.append hw b)
      have hlf : '\n' ∉ w ++ b := by simp [hw.oneLine.1, not_mem_of_spaces hs]
      have hstep : counted line (w ++ (b ++ cs)) = counted (line ++ (w ++ b)) cs := by
        rw [← List.append_assoc, counted_append hlf]
      refine ⟨w ++ (b ++ cs'), .cons w ⟨hne, fun c hc => (hs c hc).imp_right .inl⟩ hcs', ?_, ?_⟩
      · rwa [hstep]
      · rw [hstep, hjoined]
        simp
    | @lines s s' remarks hs hremarks hs' =>
      obtain ⟨cs', hcs', hlines, hjoined⟩ :=
        ih (List.cons_ne_nil _ _) hws (opens_of_spaces hs')
      have hstep : counted line (w ++ (s ++ '\n' :: (ended remarks ++ s') ++ cs)) =
          (line ++ (w ++ s)) :: counted s' cs := by
        have hindent : counted [] (s' ++ cs) = counted s' cs :=
          counted_append (not_mem_of_spaces hs' (by simp)) [] cs
        rw [← hindent, ← counted_ended hremarks, ← counted_line hline hw hs]
        simp
      refine ⟨w ++ (s ++ '\n' :: s' ++ cs'), .cons w (.of_line hs hs') hcs', ?_, ?_⟩
      · rw [hstep]
        exact List.cons_ne_nil _ _
      · rw [hstep, joined_cons hlines, hjoined]
        simp

theorem withoutComments_written (hheader : ∀ line ∈ header, Remark line) (hindent : Spaces indent)
    (h : Spread Break Footer pieces cs) (hne : pieces ≠ []) (hpieces : ∀ w ∈ pieces, Piece w) :
    ∃ cs', Spread Gap Spaces pieces cs' ∧
      withoutComments (ended header ++ (indent ++ cs)) = indent ++ cs' := by
  obtain ⟨cs', hcs', -, hjoined⟩ := counted_spread h hne hpieces (opens_of_spaces hindent)
  refine ⟨cs', hcs', ?_⟩
  have hindented : counted [] (indent ++ cs) = counted indent cs :=
    counted_append (not_mem_of_spaces hindent (by simp)) [] cs
  rw [withoutComments_eq, counted_ended hheader, hindented, hjoined]

end Univariate.Document
