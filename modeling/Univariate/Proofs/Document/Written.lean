import Mathlib.Data.List.Forall2
import Univariate.Document.Parser

namespace Univariate.Document

def IsIdentifier (name : String) : Prop :=
  ∃ c cs, name.toList = c :: cs ∧ isIdentifierStart c = true ∧ ∀ d ∈ cs, isIdentifierPart d = true

structure RawValue (w : String) : Prop where
  nonempty : w.toList ≠ []
  plain : ∀ c ∈ w.toList, c ∉ [' ', '\t', '\r', '\n', ',', ';']

abbrev RawPair := String × List String

abbrev RawSection := String × List RawPair

structure Writable (s : RawSection) : Prop where
  title : IsIdentifier s.1
  nonempty : s.2 ≠ []
  pairs : ∀ p ∈ s.2, IsIdentifier p.1 ∧ ∀ w ∈ p.2, RawValue w

def Spaces (cs : List Char) : Prop := ∀ c ∈ cs, c = ' ' ∨ c = '\t'

def Gap (cs : List Char) : Prop := cs ≠ [] ∧ ∀ c ∈ cs, c = ' ' ∨ c = '\t' ∨ c = '\n'

inductive ValuesText : List String → List Char → Prop
  | single (w : String) : ValuesText [w] w.toList
  | cons (w : String) {s s' cs : List Char} {ws : List String} : Spaces s → Spaces s' →
      ValuesText ws cs → ValuesText (w :: ws) (w.toList ++ (s ++ ',' :: (s' ++ cs)))

inductive PairText : RawPair → List Char → Prop
  | mk (key : String) {s s' cs : List Char} {ws : List String} : Spaces s → Spaces s' →
      ValuesText ws cs → PairText (key, ws) (key.toList ++ (s ++ ':' :: (s' ++ cs)))

inductive Pieces : List RawSection → List (List Char) → Prop
  | nil : Pieces [] []
  | cons (title : String) {pairs : List RawPair}
      {sections : List RawSection} {pieces rest : List (List Char)} :
      List.Forall₂ PairText pairs pieces → Pieces sections rest →
      Pieces ((title, pairs) :: sections) (title.toList :: (pieces ++ rest))

inductive Spread (Break End : List Char → Prop) : List (List Char) → List Char → Prop
  | nil : Spread Break End [] []
  | last (w : List Char) {b : List Char} : End b → Spread Break End [w] (w ++ b)
  | cons (w : List Char) {w' b cs : List Char} {ws : List (List Char)} : Break b →
      Spread Break End (w' :: ws) cs → Spread Break End (w :: w' :: ws) (w ++ (b ++ cs))

def marks : List (List Char) := [['/', '/'], ['#'], ['%'], [';']]

structure Remark (line : List Char) : Prop where
  oneLine : '\n' ∉ line
  content : ∃ indent rest, line = indent ++ rest ∧ (∀ c ∈ indent, Text.isBlank c = true) ∧
    (rest = [] ∨ ∃ mark ∈ marks, mark <+: rest)

def ended (lines : List (List Char)) : List Char := lines.flatMap (· ++ ['\n'])

/-- Spaces, or the end of a line with remarks after it. -/
inductive Break : List Char → Prop
  | spaces {s : List Char} : s ≠ [] → Spaces s → Break s
  | lines {s s' : List Char} {remarks : List (List Char)} : Spaces s →
      (∀ line ∈ remarks, Remark line) → Spaces s' → Break (s ++ '\n' :: (ended remarks ++ s'))

inductive Footer : List Char → Prop
  | spaces {s : List Char} : Spaces s → Footer s
  | lines {s last : List Char} {remarks : List (List Char)} : Spaces s →
      (∀ line ∈ remarks, Remark line) → Remark last → Footer (s ++ '\n' :: (ended remarks ++ last))

/-- A text for the sections. Remarks may also stand before them and after them. -/
inductive Written (sections : List RawSection) : List Char → Prop
  | mk {header pieces : List (List Char)} {indent body : List Char} :
      (∀ line ∈ header, Remark line) → Spaces indent → Pieces sections pieces →
      Spread Break Footer pieces body → Written sections (ended header ++ (indent ++ body))

/-- What a word stands for: the first of an integer, a number, a truth value and itself. -/
inductive Denotes (w : String) : Value → Prop
  | integer {n : Int} : Decimal.Literal.integer? w.toList = some n → Denotes w (.integer n)
  | float {x : Float} : Decimal.Literal.integer? w.toList = none →
      Decimal.Literal.float? w.toList = some x → Denotes w (.float x)
  | boolean {b : Bool} : Decimal.Literal.integer? w.toList = none →
      Decimal.Literal.float? w.toList = none → Decimal.Literal.boolean? w.toList = some b →
      Denotes w (.boolean b)
  | string : Decimal.Literal.integer? w.toList = none → Decimal.Literal.float? w.toList = none →
      Decimal.Literal.boolean? w.toList = none → Denotes w (.string w)

section Facts

variable {w cs b : List Char} {name : String} {ws pieces : List (List Char)}
  {sections : List RawSection} {v : Value}

theorem Spaces.nil : Spaces [] := by simp [Spaces]

theorem Spaces.isSpace (h : Spaces cs) : ∀ c ∈ cs, isSpace c = true := by
  intro c hc
  rcases h c hc with rfl | rfl <;> rfl

theorem not_mem_of_spaces (h : Spaces cs) {c : Char} (hc : c ∉ [' ', '\t']) : c ∉ cs := by
  intro hmem
  simpa using hc (by simpa using h c hmem)

theorem Gap.of_line {s s' : List Char} (hs : Spaces s) (hs' : Spaces s') :
    Gap (s ++ '\n' :: s') := by
  refine ⟨by simp, fun c hc => ?_⟩
  rcases List.mem_append.mp hc with hc | hc
  · exact (hs c hc).imp_right .inl
  · rcases List.mem_cons.mp hc with rfl | hc
    · exact .inr (.inr rfl)
    · exact (hs' c hc).imp_right .inl

structure Piece (w : List Char) : Prop where
  start : ∃ c u, w = c :: u ∧ isIdentifierStart c = true
  oneLine : '\n' ∉ w ∧ '\r' ∉ w

theorem isIdentifierPart_of_start {c : Char} (h : isIdentifierStart c = true) :
    isIdentifierPart c = true := by
  simp only [isIdentifierStart, isIdentifierPart, Char.isAlphanum, Bool.or_eq_true] at h ⊢
  exact h.imp_left .inl

theorem IsIdentifier.not_mem (h : IsIdentifier name) {c : Char} (hc : isIdentifierPart c = false) :
    c ∉ name.toList := by
  obtain ⟨d, cs, hname, hd, hcs⟩ := h
  rw [hname]
  intro hmem
  have hpart : isIdentifierPart c = true := by
    rcases List.mem_cons.mp hmem with rfl | hmem
    · exact isIdentifierPart_of_start hd
    · exact hcs c hmem
  rw [hc] at hpart
  cases hpart

theorem IsIdentifier.piece (h : IsIdentifier name) (hcs : '\n' ∉ cs ∧ '\r' ∉ cs) :
    Piece (name.toList ++ cs) := by
  have hlf := h.not_mem (c := '\n') rfl
  have hcr := h.not_mem (c := '\r') rfl
  obtain ⟨c, u, hname, hc, -⟩ := h
  exact ⟨⟨c, u ++ cs, by rw [hname, List.cons_append], hc⟩, by simp [hlf, hcs.1],
    by simp [hcr, hcs.2]⟩

theorem IsIdentifier.piece_toList (h : IsIdentifier name) : Piece name.toList := by
  have hpiece : Piece (name.toList ++ []) := h.piece (by simp)
  simpa using hpiece

theorem ValuesText.oneLine {ws : List String} (h : ValuesText ws cs) (hws : ∀ w ∈ ws, RawValue w) :
    '\n' ∉ cs ∧ '\r' ∉ cs := by
  have hword : ∀ {w : String}, RawValue w → '\n' ∉ w.toList ∧ '\r' ∉ w.toList := fun hw =>
    ⟨fun hmem => hw.plain _ hmem (by simp), fun hmem => hw.plain _ hmem (by simp)⟩
  induction h with
  | single w => exact hword (hws w List.mem_cons_self)
  | cons w hs hs' _ ih =>
    obtain ⟨hlf, hcr⟩ := ih fun w hw => hws w (List.mem_cons_of_mem _ hw)
    obtain ⟨hlf', hcr'⟩ := hword (hws w List.mem_cons_self)
    simp [hlf, hcr, hlf', hcr', not_mem_of_spaces hs, not_mem_of_spaces hs']

theorem PairText.piece {p : RawPair} (h : PairText p cs) (hkey : IsIdentifier p.1)
    (hws : ∀ w ∈ p.2, RawValue w) : Piece cs := by
  obtain ⟨key, hs, hs', hvalues⟩ := h
  obtain ⟨hlf, hcr⟩ := hvalues.oneLine hws
  exact hkey.piece (by simp [hlf, hcr, not_mem_of_spaces hs, not_mem_of_spaces hs'])

theorem forall_piece {pairs : List RawPair} (h : List.Forall₂ PairText pairs pieces)
    (hpairs : ∀ p ∈ pairs, IsIdentifier p.1 ∧ ∀ w ∈ p.2, RawValue w) : ∀ w ∈ pieces, Piece w := by
  induction h with
  | nil => simp
  | cons hpair _ ih =>
    obtain ⟨⟨hkey, hws⟩, hrest⟩ := List.forall_mem_cons.mp hpairs
    exact List.forall_mem_cons.mpr ⟨hpair.piece hkey hws, ih hrest⟩

theorem Pieces.piece (h : Pieces sections pieces) (hsections : ∀ s ∈ sections, Writable s) :
    ∀ w ∈ pieces, Piece w := by
  induction h with
  | nil => simp
  | cons title hpairs _ ih =>
    obtain ⟨hsection, hrest⟩ := List.forall_mem_cons.mp hsections
    exact List.forall_mem_cons.mpr ⟨hsection.title.piece_toList,
      List.forall_mem_append.mpr ⟨forall_piece hpairs hsection.pairs, ih hrest⟩⟩

theorem denotes_iff : Denotes name v ↔ v = .ofWord name.toList := by
  constructor
  · intro h
    cases h <;> simp [Value.ofWord, *]
  · rintro rfl
    unfold Value.ofWord
    split
    · exact .integer ‹_›
    · exact .float ‹_› ‹_›
    · exact .boolean ‹_› ‹_› ‹_›
    · rw [String.ofList_toList]
      exact .string ‹_› ‹_› ‹_›

end Facts

end Univariate.Document
