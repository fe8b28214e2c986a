import Univariate.Proofs.Document.Comments
import Univariate.Proofs.Document.Map

namespace Univariate.Document

open Text

variable {c : Char} {w b s next rest cs indent text : List Char} {name key title : String}
  {ws pieces : List (List Char)} {p : RawPair} {sections : List RawSection}

section Gaps

theorem isGap_of_start (h : isIdentifierStart c = true) : isGap c = false := by
  rw [Bool.eq_false_iff]
  intro hgap
  have hblank := isBlank_of_start h
  rw [isBlank_of_isGap hgap] at hblank
  cases hblank

theorem isSpace_of_isGap (h : isGap c = false) : isSpace c = false := by
  simp only [isGap, Bool.or_eq_false_iff] at h
  simp only [isSpace, h, Bool.or_false]

theorem isSpace_of_start (h : isIdentifierStart c = true) : isSpace c = false :=
  isSpace_of_isGap (isGap_of_start h)

structure Follows (b next : List Char) : Prop where
  gap : ∀ c ∈ b, c = ' ' ∨ c = '\t' ∨ c = '\n'
  separated : b = [] → next = []
  start : ∀ c ∈ next.head?, isIdentifierStart c = true

theorem Spread.start {B E : List Char → Prop} (h : Spread B E ws cs) (hws : ∀ w ∈ ws, Piece w) :
    ∀ c ∈ cs.head?, isIdentifierStart c = true := by
  cases h with
  | nil => simp
  | last w _ | cons w _ _ =>
    obtain ⟨c, u, rfl, hc⟩ := (hws w List.mem_cons_self).start
    simpa using hc

theorem Spread.read (h : Spread Gap Spaces (w :: ws) cs) (hws : ∀ w ∈ ws, Piece w) :
    ∃ b next, cs = w ++ (b ++ next) ∧ Follows b next ∧ Spread Gap Spaces ws next := by
  cases h with
  | last _ hs =>
    have hgap : ∀ c ∈ _, c = ' ' ∨ c = '\t' ∨ c = '\n' := fun c hc => (hs c hc).imp_right .inl
    exact ⟨_, [], by rw [List.append_nil], ⟨hgap, fun _ => rfl, by simp⟩, .nil⟩
  | cons _ hgap hrest =>
    exact ⟨_, _, rfl, ⟨hgap.2, fun hb => absurd hb hgap.1, hrest.start hws⟩, hrest⟩

theorem dropWhile_eq_self {q : Char → Bool} (h : ∀ c ∈ cs.head?, q c = false) :
    cs.dropWhile q = cs := by
  have hdrop : ([] ++ cs).dropWhile q = cs := dropWhile_append_stop (by simp) h
  exact hdrop

theorem dropSpaces_append (h : Spaces s) (hrest : ∀ c ∈ rest.head?, isSpace c = false) :
    dropSpaces (s ++ rest) = rest :=
  dropWhile_append_stop h.isSpace hrest

theorem stops_spaces {q : Char → Bool} (h : Spaces s) (hspace : q ' ' = false)
    (htab : q '\t' = false) (hc : q c = false) (rest : List Char) :
    ∀ d ∈ (s ++ c :: rest).head?, q d = false := by
  cases s with
  | nil => simpa
  | cons d s => rcases h d List.mem_cons_self with rfl | rfl <;> simpa

theorem dropGaps_append (h : Spaces s) (hrest : ∀ c ∈ rest.head?, isGap c = false) :
    dropGaps (s ++ rest) = rest := by
  refine dropWhile_append_stop (fun c hc => ?_) hrest
  rcases h c hc with rfl | rfl <;> rfl

namespace Follows

variable (h : Follows b next)
include h

theorem stops {q : Char → Bool} (hspace : q ' ' = false) (htab : q '\t' = false)
    (hnewline : q '\n' = false) : ∀ c ∈ (b ++ next).head?, q c = false := by
  cases b with
  | nil => simp [h.separated rfl]
  | cons c b =>
    rcases h.gap c List.mem_cons_self with rfl | rfl | rfl <;> simpa

theorem dropSpaces_next : dropSpaces next = next :=
  dropWhile_eq_self fun c hc => isSpace_of_start (h.start c hc)

theorem dropGaps_next : dropGaps next = next :=
  dropWhile_eq_self fun c hc => isGap_of_start (h.start c hc)

theorem trimStart : Text.trimStart (b ++ next) = next := by
  refine dropWhile_append_stop (fun c hc => ?_) fun c hc => isBlank_of_start (h.start c hc)
  rcases h.gap c hc with rfl | rfl | rfl <;> decide

theorem dropSpaces_ne (hgap : c ∉ [' ', '\t', '\n']) (hstart : isIdentifierStart c = false)
    (rest : List Char) : dropSpaces (b ++ next) ≠ c :: rest := by
  intro heq
  rw [dropSpaces, List.dropWhile_append] at heq
  split at heq
  · have hnext : next = c :: rest := h.dropSpaces_next.symm.trans heq
    have hc := h.start c (by simp [hnext])
    rw [hstart] at hc
    cases hc
  · cases hdrop : b.dropWhile isSpace with
    | nil => simp [hdrop] at *
    | cons d u =>
      rw [hdrop] at heq
      obtain ⟨rfl, -⟩ := List.cons.inj heq
      have hmem : d ∈ b := (List.dropWhile_sublist isSpace).subset (by simp [hdrop])
      exact hgap (by simpa using h.gap d hmem)

end Follows

end Gaps

section Members

theorem identifier_append (h : IsIdentifier name)
    (hrest : ∀ c ∈ rest.head?, isIdentifierPart c = false) :
    identifier (name.toList ++ rest) = .ok (name, rest) := by
  obtain ⟨c, cs, hname, hc, hcs⟩ := h
  have hback : String.ofList (c :: cs) = name := by rw [← hname, String.ofList_toList]
  rw [hname, List.cons_append, identifier, if_pos hc, takeWhile_append_stop hcs hrest,
    dropWhile_append_stop hcs hrest, hback]

theorem RawValue.isValuePart {w : String} (h : RawValue w) :
    ∀ c ∈ w.toList, isValuePart c = true := by
  intro c hc
  have hplain := h.plain c hc
  simp only [List.mem_cons, List.not_mem_nil, or_false, not_or] at hplain
  simp [Document.isValuePart, isGap, hplain]

theorem isGap_of_isValuePart (h : isValuePart c = true) : isGap c = false := by
  simp only [isValuePart, Bool.not_eq_true', Bool.or_eq_false_iff] at h
  exact h.1.1

def typed (u : String) : Value := .ofWord u.toList

theorem value?_append {u : String} (h : RawValue u)
    (hrest : ∀ c ∈ rest.head?, isValuePart c = false) :
    value? (u.toList ++ rest) = some (typed u, rest) := by
  simp [value?, takeWhile_append_stop h.isValuePart hrest,
    dropWhile_append_stop h.isValuePart hrest, h.nonempty, typed]

theorem moreValues_stop (h : ∀ after, dropSpaces cs ≠ ',' :: after) :
    moreValues cs = ([], cs) := by
  rw [moreValues]
  split
  · rename_i after heq
    exact absurd heq (h after)
  · rfl

theorem moreValues_comma {after : List Char} {v : Value} (h : dropSpaces cs = ',' :: after)
    (hv : value? (dropSpaces after) = some (v, rest)) :
    moreValues cs = (v :: (moreValues rest).1, (moreValues rest).2) := by
  rw [moreValues]
  split
  · rename_i after' heq
    cases h.symm.trans heq
    split
    · rename_i v' rest' hv'
      cases hv.symm.trans hv'
      rfl
    · rename_i hnone
      cases hv.symm.trans hnone
  · rename_i hne
    exact absurd h (hne after)

theorem ValuesText.start {us : List String} (h : ValuesText us cs) (hus : ∀ u ∈ us, RawValue u)
    (rest : List Char) : ∀ c ∈ (cs ++ rest).head?, isGap c = false := by
  have hword : ∀ {u : String}, RawValue u → ∀ rest,
      ∀ c ∈ (u.toList ++ rest).head?, isGap c = false := by
    intro u hu rest c hc
    obtain ⟨d, v, hd⟩ := List.exists_cons_of_ne_nil hu.nonempty
    obtain rfl : d = c := by simpa [hd] using hc
    exact isGap_of_isValuePart (hu.isValuePart d (by simp [hd]))
  cases h with
  | single u => exact hword (hus u List.mem_cons_self) rest
  | cons u _ _ _ =>
    rw [List.append_assoc]
    exact hword (hus u List.mem_cons_self) _

theorem ValuesText.read {us : List String} (h : ValuesText us cs) (hus : ∀ u ∈ us, RawValue u)
    (hfollows : Follows b next) : ∃ v vs rest, value? (cs ++ (b ++ next)) = some (v, rest) ∧
      moreValues rest = (vs, b ++ next) ∧ v :: vs = us.map typed := by
  induction h with
  | single u =>
    exact ⟨_, [], _, value?_append (hus u List.mem_cons_self) (hfollows.stops rfl rfl rfl),
      moreValues_stop fun after => hfollows.dropSpaces_ne (by simp) rfl after, rfl⟩
  | @cons u s s' cs us hs hs' htext ih =>
    obtain ⟨hu, hus⟩ := List.forall_mem_cons.mp hus
    obtain ⟨v, vs, rest, hv, hvs, heq⟩ := ih hus
    have hstart : ∀ c ∈ (cs ++ (b ++ next)).head?, isSpace c = false := fun c hc =>
      isSpace_of_isGap (htext.start hus (b ++ next) c hc)
    have hcomma : dropSpaces (s ++ ',' :: (s' ++ (cs ++ (b ++ next)))) =
        ',' :: (s' ++ (cs ++ (b ++ next))) :=
      dropSpaces_append hs (by simp [isSpace])
    have hmore : moreValues (s ++ ',' :: (s' ++ (cs ++ (b ++ next)))) = (v :: vs, b ++ next) := by
      rw [← dropSpaces_append hs' hstart] at hv
      rw [moreValues_comma hcomma hv, hvs]
    refine ⟨typed u, v :: vs, _, ?_, hmore, by rw [heq, List.map_cons]⟩
    simpa using value?_append hu (stops_spaces hs rfl rfl rfl _)

theorem ValuesText.values_append {us : List String} (h : ValuesText us cs)
    (hus : ∀ u ∈ us, RawValue u) (hfollows : Follows b next) :
    values (cs ++ (b ++ next)) = .ok (us.map typed, b ++ next) := by
  obtain ⟨v, vs, rest, hv, hvs, heq⟩ := h.read hus hfollows
  have hgap : dropGaps (cs ++ (b ++ next)) = cs ++ (b ++ next) :=
    dropWhile_eq_self (h.start hus (b ++ next))
  simp [values, hgap, hv, hvs, ← heq]

theorem PairText.read (h : PairText p cs) (hkey : IsIdentifier p.1) (hus : ∀ u ∈ p.2, RawValue u)
    (hfollows : Follows b next) :
    pair (cs ++ (b ++ next)) = .ok ((p.1, p.2.map typed), next) := by
  cases h with
  | @mk key s s' cs us hs hs' htext =>
    have hstop := stops_spaces (q := isIdentifierPart) hs rfl rfl (c := ':') rfl
      (s' ++ (cs ++ (b ++ next)))
    have hcolon : dropSpaces (s ++ ':' :: (s' ++ (cs ++ (b ++ next)))) =
        ':' :: (s' ++ (cs ++ (b ++ next))) :=
      dropSpaces_append hs (by simp [isSpace])
    have hvalues : values (dropSpaces (s' ++ (cs ++ (b ++ next)))) =
        .ok (us.map typed, b ++ next) := by
      rw [dropSpaces_append hs' fun c hc => isSpace_of_isGap (htext.start hus (b ++ next) c hc)]
      exact htext.values_append hus hfollows
    have hassoc : key.toList ++ (s ++ ':' :: (s' ++ cs)) ++ (b ++ next) =
        key.toList ++ (s ++ ':' :: (s' ++ (cs ++ (b ++ next)))) := by simp
    simp only [hassoc, pair, identifier_append hkey hstop, hcolon, hvalues, hfollows.trimStart,
      hfollows.dropSpaces_next]

theorem pair_title (h : IsIdentifier title) (hfollows : Follows b next) :
    ∃ f, pair (title.toList ++ (b ++ next)) = .error f := by
  -- The next piece starts with a letter or `_`, so no colon follows.
  unfold pair
  rw [identifier_append h (hfollows.stops rfl rfl rfl)]
  dsimp only
  split
  · rename_i rest heq
    exact absurd heq (hfollows.dropSpaces_ne (by simp) rfl rest)
  · exact ⟨_, rfl⟩

end Members

section Sections

theorem pairs_stop {f : Failure} (h : pair cs = .error f) : pairs cs = ([], cs) := by
  rw [pairs]
  split
  · rfl
  · rename_i heq
    cases h.symm.trans heq

theorem pairs_cons {q : String × List Value} (h : pair cs = .ok (q, rest)) :
    pairs cs = (q :: (pairs rest).1, (pairs rest).2) := by
  rw [pairs]
  split
  · rename_i heq
    cases h.symm.trans heq
  · rename_i heq
    cases h.symm.trans heq
    rfl

theorem blocks_stop {f : Failure} (h : block cs = .error f) : blocks cs = ([], cs) := by
  rw [blocks]
  split
  · rfl
  · rename_i heq
    cases h.symm.trans heq

theorem blocks_cons {q : String × List (String × List Value)} (h : block cs = .ok (q, rest)) :
    blocks cs = (q :: (blocks rest).1, (blocks rest).2) := by
  rw [blocks]
  split
  · rename_i heq
    cases h.symm.trans heq
  · rename_i heq
    cases h.symm.trans heq
    rfl

def typedPair (p : RawPair) : String × List Value := (p.1, p.2.map typed)

def typedSection (s : RawSection) : String × List (String × List Value) :=
  (s.1, s.2.map typedPair)

theorem pair_pieces (h : Pieces sections pieces) (hsections : ∀ s ∈ sections, Writable s)
    (htext : Spread Gap Spaces pieces cs) : ∃ f, pair cs = .error f := by
  have hpieces := h.piece hsections
  cases h with
  | nil =>
    cases htext
    exact ⟨_, rfl⟩
  | cons title hpairs hrest =>
    obtain ⟨b, next, rfl, hfollows, -⟩ := htext.read (List.forall_mem_cons.mp hpieces).2
    exact pair_title (hsections _ List.mem_cons_self).title hfollows

theorem pairs_read {ps : List RawPair} (h : List.Forall₂ PairText ps ws)
    (hps : ∀ p ∈ ps, IsIdentifier p.1 ∧ ∀ u ∈ p.2, RawValue u) (hrest : Pieces sections pieces)
    (hsections : ∀ s ∈ sections, Writable s) (htext : Spread Gap Spaces (ws ++ pieces) cs) :
    ∃ next, pairs cs = (ps.map typedPair, next) ∧ Spread Gap Spaces pieces next := by
  induction h generalizing cs with
  | nil =>
    obtain ⟨f, hf⟩ := pair_pieces hrest hsections htext
    exact ⟨cs, pairs_stop hf, htext⟩
  | @cons p w ps ws hpair hpairs ih =>
    obtain ⟨⟨hkey, hvalues⟩, hps⟩ := List.forall_mem_cons.mp hps
    have hpieces : ∀ w ∈ ws ++ pieces, Piece w :=
      List.forall_mem_append.mpr ⟨forall_piece hpairs hps, hrest.piece hsections⟩
    obtain ⟨b, next, rfl, hfollows, hnext⟩ := htext.read hpieces
    obtain ⟨next', hread, hnext'⟩ := ih hps hnext
    refine ⟨next', ?_, hnext'⟩
    rw [pairs_cons (hpair.read hkey hvalues hfollows), hread]
    rfl

theorem block_read {ps : List RawPair} (hps : List.Forall₂ PairText ps ws)
    (hsection : Writable (title, ps)) (hrest : Pieces sections pieces)
    (hsections : ∀ s ∈ sections, Writable s)
    (htext : Spread Gap Spaces (title.toList :: (ws ++ pieces)) cs) (hindent : Spaces indent) :
    ∃ next, block (indent ++ cs) = .ok (typedSection (title, ps), next) ∧
      Spread Gap Spaces pieces next := by
  have hpieces : ∀ w ∈ ws ++ pieces, Piece w :=
    List.forall_mem_append.mpr ⟨forall_piece hps hsection.pairs, hrest.piece hsections⟩
  have hstart := htext.start (List.forall_mem_cons.mpr ⟨hsection.title.piece_toList, hpieces⟩)
  cases hps with
  | nil => exact absurd rfl hsection.nonempty
  | @cons p w ps ws hpair hps =>
    obtain ⟨b, next, rfl, hfollows, hnext⟩ := htext.read hpieces
    obtain ⟨hw, hpieces'⟩ := List.forall_mem_cons.mp hpieces
    obtain ⟨b', next', rfl, hfollows', hnext'⟩ := hnext.read hpieces'
    obtain ⟨⟨hkey, hvalues⟩, hps'⟩ := List.forall_mem_cons.mp hsection.pairs
    obtain ⟨rest, hread, hspread⟩ := pairs_read hps hps' hrest hsections hnext'
    refine ⟨rest, ?_, hspread⟩
    have hindented : dropGaps (indent ++ (title.toList ++ (b ++ (w ++ (b' ++ next'))))) =
        title.toList ++ (b ++ (w ++ (b' ++ next'))) :=
      dropGaps_append hindent fun c hc => isGap_of_start (hstart c hc)
    have hstop := hfollows.stops (q := isIdentifierPart) rfl rfl rfl
    have hend : dropGaps rest = rest :=
      dropWhile_eq_self fun c hc => isGap_of_start (hspread.start (hrest.piece hsections) c hc)
    simp only [block, hindented, identifier_append hsection.title hstop, hfollows.trimStart,
      hfollows.dropGaps_next, hpair.read hkey hvalues hfollows', hread, hend]
    rfl

theorem blocks_read (h : Pieces sections pieces) (hsections : ∀ s ∈ sections, Writable s)
    (htext : Spread Gap Spaces pieces cs) : blocks cs = (sections.map typedSection, []) := by
  induction h generalizing cs with
  | nil =>
    cases htext
    exact blocks_stop rfl
  | cons title hpairs hrest ih =>
    obtain ⟨hsection, hsections⟩ := List.forall_mem_cons.mp hsections
    obtain ⟨next, hread, hspread⟩ := block_read hpairs hsection hrest hsections htext .nil
    rw [List.nil_append] at hread
    rw [blocks_cons hread, ih hsections hspread, List.map_cons]

end Sections

theorem parse_eq_ofSections (hne : sections ≠ []) (hsections : ∀ s ∈ sections, Writable s)
    (h : Written sections text) : parse text = .ok (ofSections (sections.map typedSection)) := by
  cases h with
  | @mk header pieces indent body hheader hindent hpieces hbody =>
    cases hpieces with
    | nil => exact absurd rfl hne
    | cons title hpairs hrest =>
      have hall := (Pieces.cons title hpairs hrest).piece hsections
      obtain ⟨cs, hspread, htext⟩ :=
        withoutComments_written hheader hindent hbody (List.cons_ne_nil _ _) hall
      obtain ⟨hsection, hsections⟩ := List.forall_mem_cons.mp hsections
      obtain ⟨next, hread, hnext⟩ := block_read hpairs hsection hrest hsections hspread hindent
      have hcounts : (indent ++ cs).all isBlank = false := by
        obtain ⟨⟨c, u, htitle, hc⟩, -⟩ := hsection.title.piece_toList
        obtain ⟨b, next, rfl, -, -⟩ := hspread.read (List.forall_mem_cons.mp hall).2
        exact List.all_eq_false.mpr ⟨c, by simp [htitle], by simp [isBlank_of_start hc]⟩
      simp only [parse, htext, hcounts, Bool.false_eq_true, if_false, read, hread,
        blocks_read hrest hsections hnext, List.map_cons]
      rfl

theorem forall₂_denotes_iff {us : List String} {values : List Value} :
    List.Forall₂ Denotes us values ↔ values = us.map typed := by
  constructor
  · intro h
    induction h with
    | nil => rfl
    | cons hv _ ih => rw [denotes_iff.mp hv, ih, List.map_cons, typed]
  · rintro rfl
    exact List.forall₂_map_right_iff.mpr (List.forall₂_same.mpr fun u _ => denotes_iff.mpr rfl)

/-- A written document is read: sections of one title as one, a key with the values that it was
last given, and these as what their words stand for. -/
theorem parse_written (hne : sections ≠ []) (hsections : ∀ s ∈ sections, Writable s)
    (h : Written sections text) : ∃ d, parse text = .ok d ∧ WellFormed d ∧
      (∀ title, (d.lookup title).isSome ↔ title ∈ sections.map Prod.fst) ∧
      ∀ title key values, d.find? title key = some values ↔
        ∃ us, (pairsOf title sections).reverse.lookup key = some us ∧
          List.Forall₂ Denotes us values := by
  have hparse := parse_eq_ofSections hne hsections h
  refine ⟨_, hparse, wellFormed_of_parse hparse, fun title => ?_, fun title key values => ?_⟩
  · rw [lookup_ofSections]
    simp [typedSection, Function.comp_def]
  · have hpairs : pairsOf title (sections.map typedSection) =
        (pairsOf title sections).map typedPair :=
      pairsOf_map (List.map typed) title sections
    have hlookup : ((pairsOf title sections).map typedPair).reverse.lookup key =
        ((pairsOf title sections).reverse.lookup key).map (List.map typed) := by
      rw [← List.map_reverse]
      exact lookup_map (List.map typed) key _
    simp only [find?_ofSections, hpairs, hlookup, forall₂_denotes_iff, Option.map_eq_some_iff]
    exact exists_congr fun us => and_congr_right fun _ => eq_comm

theorem parse_written_remarks :
    Written [("solver", [("k", ["7"])]), ("solver", [("k", ["8", "a:b"])])]
        "# run\nsolver k: 7\n\n  // again\nsolver k : 8, a:b\n".toList ∧
      ∃ d, parse "# run\nsolver k: 7\n\n  // again\nsolver k : 8, a:b\n".toList = .ok d ∧
        d.find? "solver" "k" = some [.integer 8, .string "a:b"] := by
  have hspace : Spaces [' '] := by simp [Spaces]
  have hwords : ∀ u ∈ ["7", "8", "a:b"], RawValue u := by
    intro u hu
    simp only [List.mem_cons, List.not_mem_nil, or_false] at hu
    rcases hu with rfl | rfl | rfl <;> exact ⟨by simp, by simp⟩
  have hkey : IsIdentifier "k" := ⟨'k', [], rfl, rfl, by simp⟩
  have hsolver : IsIdentifier "solver" :=
    ⟨'s', ['o', 'l', 'v', 'e', 'r'], rfl, rfl, by simp [isIdentifierPart]⟩
  have hsections : ∀ s ∈ [("solver", [("k", ["7"])]), ("solver", [("k", ["8", "a:b"])])],
      Writable s := by
    intro s hs
    simp only [List.mem_cons, List.not_mem_nil, or_false] at hs
    rcases hs with rfl | rfl
    · exact ⟨hsolver, by simp, by simpa using ⟨hkey, hwords "7" (by simp)⟩⟩
    · have hus : RawValue "8" ∧ RawValue "a:b" := ⟨hwords "8" (by simp), hwords "a:b" (by simp)⟩
      exact ⟨hsolver, by simp, by simpa using ⟨hkey, hus⟩⟩
  have hfirst : PairText ("k", ["7"]) "k: 7".toList := .mk "k" .nil hspace (.single "7")
  have hsecond : PairText ("k", ["8", "a:b"]) "k : 8, a:b".toList :=
    .mk "k" hspace hspace (.cons "8" .nil hspace (.single "a:b"))
  have hremarks : ∀ line ∈ ["".toList, "  // again".toList], Remark line := by
    intro line hline
    simp only [List.mem_cons, List.not_mem_nil, or_false] at hline
    rcases hline with rfl | rfl
    · exact ⟨by simp, [], [], rfl, by simp, .inl rfl⟩
    · exact ⟨by simp, [' ', ' '], _, rfl, by simp [isBlank_of_isGap, isGap],
        .inr ⟨['/', '/'], by simp [marks], _, rfl⟩⟩
  have hheader : ∀ line ∈ ["# run".toList], Remark line := by
    intro line hline
    obtain rfl := List.mem_singleton.mp hline
    exact ⟨by simp, [], _, rfl, by simp, .inr ⟨['#'], by simp [marks], _, rfl⟩⟩
  have hgap : Break [' '] := .spaces (by simp) hspace
  have hlines : Break ([] ++ '\n' :: (ended ["".toList, "  // again".toList] ++ [])) :=
    .lines .nil hremarks .nil
  have hfooter : Footer ([] ++ '\n' :: (ended [] ++ [])) :=
    .lines .nil (by simp) ⟨by simp, [], [], rfl, by simp, .inl rfl⟩
  have hpieces :=
    Pieces.cons "solver" (.cons hfirst .nil) (.cons "solver" (.cons hsecond .nil) .nil)
  have hbody := Spread.cons "solver".toList hgap (.cons "k: 7".toList hlines
    (.cons "solver".toList hgap (.last "k : 8, a:b".toList hfooter)))
  have hwritten : Written [("solver", [("k", ["7"])]), ("solver", [("k", ["8", "a:b"])])]
      "# run\nsolver k: 7\n\n  // again\nsolver k : 8, a:b\n".toList :=
    (Written.mk hheader .nil hpieces hbody :)
  obtain ⟨d, hd, -, -, hfind⟩ := parse_written (List.cons_ne_nil _ _) hsections hwritten
  refine ⟨hwritten, d, hd, (hfind _ _ _).mpr ⟨["8", "a:b"], by decide, ?_⟩⟩
  exact .cons (.integer rfl) (.cons (.string rfl rfl rfl) .nil)

end Univariate.Document
