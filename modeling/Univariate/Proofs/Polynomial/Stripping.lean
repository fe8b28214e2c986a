import Univariate.Polynomial.Latex
import Univariate.Proofs.Text.Ascii

namespace Univariate

open Text

namespace Latex

variable {cs ds : List Char} {commands : List (List Char)} {replacement : List Char}

section Commands

def Breaks (commands : List (List Char)) (c : Char) : Prop :=
  c ≠ '\\' ∧ ∀ name ∈ commands, c ∉ name

theorem isPrefixOf_append_of_not_mem {c : Char} {name : List Char} (h : c ∉ name)
    (cs ds : List Char) : name.isPrefixOf (cs ++ c :: ds) = name.isPrefixOf cs := by
  induction name generalizing cs with
  | nil => simp [List.isPrefixOf]
  | cons a name ih =>
    rw [List.mem_cons, not_or] at h
    cases cs with
    | nil => simp [List.isPrefixOf, beq_eq_false_iff_ne.mpr (Ne.symm h.1)]
    | cons b cs => simp [List.isPrefixOf, ih h.2]

theorem find?_command_append {c : Char} (h : Breaks commands c) (cs ds : List Char) :
    (commands.find? fun name => name.isPrefixOf (cs ++ c :: ds)) =
      commands.find? fun name => name.isPrefixOf cs :=
  List.find?_congr fun name hname => isPrefixOf_append_of_not_mem (h.2 name hname) cs ds

theorem length_le_of_find? {name : List Char}
    (h : (commands.find? fun name => name.isPrefixOf cs) = some name) :
    name.length ≤ cs.length := by
  have hprefix : name.isPrefixOf cs = true := by simpa using List.find?_some h
  exact (List.isPrefixOf_iff_prefix.mp hprefix).length_le

theorem replaceCommandsAfter_append {c : Char} (h : Breaks commands c) {skip : Nat}
    (hskip : skip ≤ cs.length) :
    replaceCommandsAfter commands replacement skip (cs ++ c :: ds) =
      replaceCommandsAfter commands replacement skip cs ++
        c :: replaceCommandsAfter commands replacement 0 ds := by
  induction cs generalizing skip with
  | nil =>
    obtain rfl : skip = 0 := Nat.le_zero.mp hskip
    simp [replaceCommandsAfter, h.1]
  | cons b cs ih =>
    cases skip with
    | succ skip => exact ih (Nat.le_of_succ_le_succ hskip)
    | zero =>
      rw [List.cons_append, replaceCommandsAfter, replaceCommandsAfter, find?_command_append h]
      cases hname : if b = '\\' then commands.find? (fun name => name.isPrefixOf cs) else none with
      | some name =>
        have hfind : (commands.find? fun name => name.isPrefixOf cs) = some name := by
          split at hname
          · exact hname
          · cases hname
        exact (congrArg _ (ih (length_le_of_find? hfind))).trans (List.append_assoc ..).symm
      | none => exact congrArg _ (ih (Nat.zero_le _))

theorem replaceCommands_append {c : Char} (h : Breaks commands c) (cs ds : List Char) :
    replaceCommands commands replacement (cs ++ c :: ds) =
      replaceCommands commands replacement cs ++ c :: replaceCommands commands replacement ds :=
  replaceCommandsAfter_append h (Nat.zero_le _)

theorem replaceCommands_cons {c : Char} (h : c ≠ '\\') (cs : List Char) :
    replaceCommands commands replacement (c :: cs) =
      c :: replaceCommands commands replacement cs := by
  rw [replaceCommands, replaceCommandsAfter, if_neg h]
  rfl

theorem replaceCommands_eq (commands : List (List Char)) (replacement : List Char)
    (h : ∀ c ∈ cs, c ≠ '\\') : replaceCommands commands replacement cs = cs := by
  induction cs with
  | nil => rfl
  | cons c cs ih =>
    rw [List.forall_mem_cons] at h
    rw [replaceCommands_cons h.1, ih h.2]

theorem mem_replaceCommandsAfter {c : Char} {skip : Nat}
    (h : c ∈ replaceCommandsAfter commands replacement skip cs) : c ∈ replacement ∨ c ∈ cs := by
  induction cs generalizing skip with
  | nil => cases skip <;> simp [replaceCommandsAfter] at h
  | cons b cs ih =>
    cases skip with
    | succ skip => exact (ih h).imp_right (List.mem_cons_of_mem b)
    | zero =>
      rw [replaceCommandsAfter] at h
      split at h
      · rcases List.mem_append.mp h with h | h
        · exact .inl h
        · exact (ih h).imp_right (List.mem_cons_of_mem b)
      · rcases List.mem_cons.mp h with rfl | h
        · exact .inr List.mem_cons_self
        · exact (ih h).imp_right (List.mem_cons_of_mem b)

end Commands

section Stars

theorem joinStars_eq (h : ∀ c ∈ cs, c ≠ '*') : joinStars cs = cs := by
  induction cs with
  | nil => rfl
  | cons c cs ih =>
    rw [List.forall_mem_cons] at h
    rw [joinStars_cons h.1, ih h.2]

theorem joinStars_append {c : Char} (h : c ≠ '*') (cs ds : List Char) :
    joinStars (cs ++ c :: ds) = joinStars cs ++ joinStars (c :: ds) := by
  induction cs using joinStars.induct with
  | case1 cs ih => simp [joinStars, ih]
  | case2 b cs hne ih =>
    rw [joinStars.eq_2 b cs hne, List.cons_append, joinStars.eq_2, ih, List.cons_append]
    rintro ds' rfl heq
    cases cs with
    | nil =>
      cases heq
      exact h rfl
    | cons b' cs =>
      cases heq
      exact hne _ rfl rfl
  | case3 => rfl

theorem joinStars_append_of_not_mem (h : '*' ∉ cs) (ds : List Char) :
    joinStars (cs ++ ds) = cs ++ joinStars ds := by
  induction cs with
  | nil => rfl
  | cons c cs ih =>
    rw [List.mem_cons, not_or] at h
    rw [List.cons_append, joinStars_cons (Ne.symm h.1), ih h.2, List.cons_append]

theorem mem_joinStars {c : Char} (h : c ∈ joinStars cs) : c = '^' ∨ c ∈ cs := by
  induction cs using joinStars.induct with
  | case1 cs ih =>
    rw [joinStars] at h
    rcases List.mem_cons.mp h with rfl | h
    · exact .inl rfl
    · exact (ih h).imp_right fun h => List.mem_cons_of_mem _ (List.mem_cons_of_mem _ h)
  | case2 b cs hne ih =>
    rw [joinStars.eq_2 b cs hne] at h
    rcases List.mem_cons.mp h with rfl | h
    · exact .inr List.mem_cons_self
    · exact (ih h).imp_right (List.mem_cons_of_mem b)
  | case3 => cases h

theorem mem_joinStars_of_mem {c : Char} (hc : c ≠ '*') (h : c ∈ cs) : c ∈ joinStars cs := by
  induction cs using joinStars.induct with
  | case1 cs ih =>
    rw [joinStars]
    simp only [List.mem_cons, hc, false_or] at h
    exact List.mem_cons_of_mem _ (ih h)
  | case2 b cs hne ih =>
    rw [joinStars.eq_2 b cs hne]
    rcases List.mem_cons.mp h with rfl | h
    · exact List.mem_cons_self
    · exact List.mem_cons_of_mem b (ih h)
  | case3 => cases h

end Stars

section Strip

def bare (cs : List Char) : List Char :=
  (replaceCommands spacingCommands [] (replaceCommands productCommands ['*'] (plainSymbols cs))).filter
    fun c => !isMarkup c

theorem filter_unbraceAfter (opened raised : Bool) (cs : List Char) :
    (unbraceAfter opened raised cs).filter (fun c => !isMarkup c) =
      cs.filter fun c => !isMarkup c := by
  induction cs generalizing opened raised with
  | nil => rfl
  | cons c cs ih =>
    rw [unbraceAfter]
    split
    · rename_i hopen
      simp only [Bool.and_eq_true, beq_iff_eq] at hopen
      obtain ⟨⟨-, rfl⟩, -⟩ := hopen
      exact ih true false
    · split
      · rename_i hclose
        simp only [Bool.and_eq_true, beq_iff_eq] at hclose
        obtain ⟨-, rfl⟩ := hclose
        exact ih false false
      · rw [List.filter_cons, List.filter_cons, ih]

theorem strip_eq (cs : List Char) : strip cs = joinStars (bare cs) :=
  congrArg joinStars (filter_unbraceAfter false false _)

theorem bare_cons {c : Char} (h : plainSymbol c ≠ '\\') (cs : List Char) :
    bare (c :: cs) = if isMarkup (plainSymbol c) then bare cs else plainSymbol c :: bare cs := by
  rw [bare, plainSymbols, List.map_cons, replaceCommands_cons h, replaceCommands_cons h,
    List.filter_cons]
  cases isMarkup (plainSymbol c) <;> rfl

theorem bare_append {c : Char} (h : c = '^' ∨ c = '{' ∨ c = '}' ∨ c = '=') (cs ds : List Char) :
    bare (cs ++ c :: ds) = bare cs ++ if isMarkup c then bare ds else c :: bare ds := by
  have hsymbol : plainSymbol c = c := by
    rcases h with rfl | rfl | rfl | rfl <;> rfl
  have hproduct : Breaks productCommands c := by
    rcases h with rfl | rfl | rfl | rfl <;> exact ⟨by decide, by decide⟩
  have hspacing : Breaks spacingCommands c := by
    rcases h with rfl | rfl | rfl | rfl <;> exact ⟨by decide, by decide⟩
  unfold bare
  rw [plainSymbols, List.map_append, List.map_cons, hsymbol, replaceCommands_append hproduct,
    replaceCommands_append hspacing, List.filter_append, List.filter_cons]
  cases isMarkup c <;> rfl

theorem strip_eq_filter (hascii : ∀ c ∈ cs, c.toNat < 128) (hcommand : ∀ c ∈ cs, c ≠ '\\')
    (hstar : ∀ c ∈ cs, c ≠ '*') : strip cs = cs.filter fun c => !isMarkup c := by
  have hplain : plainSymbols cs = cs := by
    rw [plainSymbols, List.map_congr_left fun c hc => plainSymbol_of_ascii (hascii c hc),
      List.map_id']
  rw [strip_eq, bare, hplain]
  rw [replaceCommands_eq _ _ hcommand, replaceCommands_eq _ _ hcommand, joinStars_eq]
  intro c hc
  exact hstar c (List.mem_of_mem_filter hc)

theorem eq_of_mem_strip {c : Char} (hstar : c ≠ '*') (hhat : c ≠ '^') (h : c ∈ strip cs) :
    c ∈ plainSymbols cs := by
  rw [strip_eq] at h
  have hbare := List.mem_of_mem_filter ((mem_joinStars h).resolve_left hhat)
  have hspacing := (mem_replaceCommandsAfter hbare).resolve_left List.not_mem_nil
  exact (mem_replaceCommandsAfter hspacing).resolve_left (by simpa using hstar)

theorem mem_of_mem_plainSymbols {d : Char} (hminus : d ≠ '-') (hstar : d ≠ '*') (hslash : d ≠ '/')
    (h : d ∈ plainSymbols cs) : d ∈ cs := by
  obtain ⟨c, hc, hsymbol⟩ := List.mem_map.mp h
  have heq : c = d := by
    unfold plainSymbol at hsymbol
    split at hsymbol
    · exact absurd hsymbol.symm hminus
    · split at hsymbol
      · exact absurd hsymbol.symm hstar
      · split at hsymbol
        · exact absurd hsymbol.symm hslash
        · exact hsymbol
  rwa [heq] at hc

theorem equals_mem_of_mem_strip (h : '=' ∈ strip cs) : '=' ∈ cs :=
  mem_of_mem_plainSymbols (by decide) (by decide) (by decide)
    (eq_of_mem_strip (by decide) (by decide) h)

end Strip

end Latex

end Univariate
