import Mathlib.Data.List.Nodup
import Univariate.Document.Parser

namespace Univariate.Document

section Entries

variable {α : Type} {key k : String} {v default : α} {change : α → α}
  {entries : List (String × α)}

def Distinct (entries : List (String × α)) : Prop := (entries.map Prod.fst).Nodup

theorem lookup_cons_eq (k key : String) (v : α) (entries : List (String × α)) :
    ((key, v) :: entries).lookup k = if k = key then some v else entries.lookup k := by
  by_cases h : k = key
  · simp [h]
  · have h' : (k == key) = false := by simpa using h
    simp [List.lookup_cons, h, h']

theorem lookup_map {β : Type} (f : α → β) (k : String) (entries : List (String × α)) :
    (entries.map fun p => (p.1, f p.2)).lookup k = (entries.lookup k).map f := by
  induction entries with
  | nil => rfl
  | cons entry entries ih =>
    obtain ⟨k', v⟩ := entry
    by_cases h : k = k' <;> simp [lookup_cons_eq, h, ih]

theorem lookup_update (key k : String) (default : α) (change : α → α)
    (entries : List (String × α)) : (update key default change entries).lookup k =
      if k = key then some (change ((entries.lookup key).getD default))
      else entries.lookup k := by
  induction entries with
  | nil =>
    rw [update, lookup_cons_eq]
    simp
  | cons entry entries ih =>
    obtain ⟨k', v⟩ := entry
    rw [update]
    split
    · rename_i h
      subst h
      by_cases hk : k = k' <;> simp [lookup_cons_eq, hk]
    · rename_i h
      by_cases hk : k = k'
      · subst hk
        simp [h]
      · simp [lookup_cons_eq, hk, Ne.symm h, ih]

theorem mem_update {entry : String × α} (h : entry ∈ update key default change entries) :
    entry ∈ entries ∨ entry = (key, change default) ∨
      ∃ v, (key, v) ∈ entries ∧ entry = (key, change v) := by
  induction entries with
  | nil => exact .inr (.inl (List.mem_singleton.mp h))
  | cons entry' entries ih =>
    obtain ⟨k', v⟩ := entry'
    rw [update] at h
    split at h
    · rename_i hk
      subst hk
      rcases List.mem_cons.mp h with rfl | h
      · exact .inr (.inr ⟨v, List.mem_cons_self, rfl⟩)
      · exact .inl (List.mem_cons_of_mem _ h)
    · rcases List.mem_cons.mp h with rfl | h
      · exact .inl List.mem_cons_self
      · refine (ih h).imp (List.mem_cons_of_mem _) (Or.imp_right ?_)
        rintro ⟨v', hv', rfl⟩
        exact ⟨v', List.mem_cons_of_mem _ hv', rfl⟩

theorem Distinct.update (h : Distinct entries) :
    Distinct (update key default change entries) := by
  induction entries with
  | nil => simp [Distinct, Document.update]
  | cons entry entries ih =>
    obtain ⟨k', v⟩ := entry
    obtain ⟨hfresh, hrest⟩ := List.nodup_cons.mp h
    rw [Document.update]
    split
    · exact h
    · rename_i hk
      refine List.nodup_cons.mpr ⟨fun hmem => ?_, ih hrest⟩
      obtain ⟨entry, hentry, hkey⟩ := List.mem_map.mp hmem
      rcases mem_update hentry with hold | rfl | ⟨v', hv', rfl⟩
      · exact hfresh (List.mem_map.mpr ⟨entry, hold, hkey⟩)
      · exact hk hkey.symm
      · exact hk hkey.symm

theorem Distinct.mem_iff (h : Distinct entries) :
    (k, v) ∈ entries ↔ entries.lookup k = some v := by
  induction entries with
  | nil => simp
  | cons entry entries ih =>
    obtain ⟨k', v'⟩ := entry
    obtain ⟨hfresh, hrest⟩ := List.nodup_cons.mp h
    by_cases hk : k = k'
    · subst hk
      have hnone : (k, v) ∉ entries := fun hmem => hfresh (List.mem_map.mpr ⟨_, hmem, rfl⟩)
      simp [hnone, eq_comm]
    · simp [lookup_cons_eq, hk, ih hrest]

end Entries

variable {pairs : List (String × List Value)} {s : Section} {d : Document}
  {sections : List (String × List (String × List Value))} {title key : String}

theorem setAll_append (pairs pairs' : List (String × List Value)) (s : Section) :
    setAll (pairs ++ pairs') s = setAll pairs' (setAll pairs s) :=
  List.foldl_append

theorem lookup_setAll (pairs : List (String × List Value)) (s : Section) (key : String) :
    (setAll pairs s).lookup key = (pairs.reverse.lookup key).or (s.lookup key) := by
  induction pairs generalizing s with
  | nil => simp [setAll]
  | cons pair pairs ih =>
    have hstep : setAll (pair :: pairs) s =
        setAll pairs (update pair.1 [] (fun _ => pair.2) s) := rfl
    rw [hstep, ih, lookup_update, List.reverse_cons, List.lookup_append, Option.or_assoc,
      lookup_cons_eq]
    by_cases h : key = pair.1 <;> simp [h]

theorem distinct_setAll (h : Distinct s) : Distinct (setAll pairs s) := by
  induction pairs generalizing s with
  | nil => exact h
  | cons pair pairs ih => exact ih h.update

theorem setAll_ne_nil (h : pairs ≠ []) : setAll pairs s ≠ [] := by
  intro hnil
  obtain ⟨pair, hpair⟩ := List.exists_mem_of_ne_nil pairs h
  have hnone : (pairs.reverse.lookup pair.1).or (s.lookup pair.1) = none := by
    rw [← lookup_setAll, hnil, List.lookup_nil]
  rw [Option.or_eq_none_iff, List.lookup_eq_none_iff] at hnone
  simpa using hnone.1 pair (List.mem_reverse.mpr hpair)

structure WellFormed (d : Document) : Prop where
  distinct : Distinct d
  sections : ∀ s ∈ d, Distinct s.2 ∧ s.2 ≠ []

theorem wellFormed_nil : WellFormed [] := ⟨List.nodup_nil, nofun⟩

theorem WellFormed.update (h : WellFormed d) (hpairs : pairs ≠ []) :
    WellFormed (update title [] (setAll pairs) d) := by
  refine ⟨h.distinct.update, fun s hs => ?_⟩
  rcases mem_update hs with hs | rfl | ⟨s', hs', rfl⟩
  · exact h.sections s hs
  · exact ⟨distinct_setAll List.nodup_nil, setAll_ne_nil hpairs⟩
  · exact ⟨distinct_setAll (h.sections _ hs').1, setAll_ne_nil hpairs⟩

theorem wellFormed_ofSections (h : ∀ s ∈ sections, s.2 ≠ []) :
    WellFormed (ofSections sections) := by
  have hfold : ∀ d, WellFormed d →
      WellFormed (sections.foldl (fun d s => Document.update s.1 [] (setAll s.2) d) d) := by
    induction sections with
    | nil => exact fun d hd => hd
    | cons s sections ih =>
      intro d hd
      exact ih (fun s hs => h s (List.mem_cons_of_mem _ hs)) _ (hd.update (h s List.mem_cons_self))
  exact hfold [] wellFormed_nil

def find? (d : Document) (title key : String) : Option (List Value) :=
  (d.lookup title).bind fun s => s.lookup key

theorem WellFormed.find?_eq_some_iff (h : WellFormed d) {values : List Value} :
    d.find? title key = some values ↔ ∃ s, (title, s) ∈ d ∧ (key, values) ∈ s := by
  rw [find?, Option.bind_eq_some_iff]
  refine exists_congr fun s => ?_
  rw [← h.distinct.mem_iff]
  exact and_congr_right fun hs => (h.sections _ hs).1.mem_iff.symm

def pairsOf {α : Type} (title : String) (sections : List (String × List (String × α))) :
    List (String × α) :=
  (sections.filter fun s => s.1 == title).flatMap Prod.snd

theorem pairsOf_eq_nil {α : Type} {sections : List (String × List (String × α))}
    (h : title ∉ sections.map Prod.fst) : pairsOf title sections = [] := by
  have hnone : sections.filter (fun s => s.1 == title) = [] := by
    rw [List.filter_eq_nil_iff]
    intro s hs heq
    exact h (List.mem_map.mpr ⟨s, hs, by simpa using heq⟩)
  rw [pairsOf, hnone, List.flatMap_nil]

theorem pairsOf_cons {α : Type} (title : String) (s : String × List (String × α))
    (sections : List (String × List (String × α))) : pairsOf title (s :: sections) =
      if s.1 = title then s.2 ++ pairsOf title sections else pairsOf title sections := by
  by_cases h : s.1 = title <;> simp [pairsOf, h]

theorem pairsOf_map {α β : Type} (f : α → β) (title : String)
    (sections : List (String × List (String × α))) :
    pairsOf title (sections.map fun s => (s.1, s.2.map fun p => (p.1, f p.2))) =
      (pairsOf title sections).map fun p => (p.1, f p.2) := by
  induction sections with
  | nil => rfl
  | cons s sections ih => by_cases h : s.1 = title <;> simp [pairsOf_cons, h, ih]

theorem lookup_ofSections (sections : List (String × List (String × List Value)))
    (title : String) : (ofSections sections).lookup title =
      if title ∈ sections.map Prod.fst then some (setAll (pairsOf title sections) [])
      else none := by
  have hfold : ∀ d : Document,
      (sections.foldl (fun d s => Document.update s.1 [] (setAll s.2) d) d).lookup title =
        if title ∈ sections.map Prod.fst then
          some (setAll (pairsOf title sections) ((d.lookup title).getD []))
        else d.lookup title := by
    induction sections with
    | nil => simp
    | cons s sections ih =>
      intro d
      simp only [List.foldl_cons, ih, lookup_update, pairsOf_cons, List.map_cons, List.mem_cons]
      by_cases h : s.1 = title
      · subst h
        by_cases hmem : s.1 ∈ sections.map Prod.fst
        · simp [hmem, setAll_append]
        · simp [hmem, pairsOf_eq_nil hmem]
      · have h' : ¬ title = s.1 := fun heq => h heq.symm
        simp only [h, h', if_false, false_or]
  exact hfold []

theorem find?_ofSections (sections : List (String × List (String × List Value)))
    (title key : String) : (ofSections sections).find? title key =
      (pairsOf title sections).reverse.lookup key := by
  rw [find?, lookup_ofSections]
  split
  · simp [lookup_setAll]
  · rename_i h
    simp [pairsOf_eq_nil h]

theorem ne_nil_of_block {cs rest : List Char} {b : String × List (String × List Value)}
    (h : block cs = .ok (b, rest)) : b.2 ≠ [] := by
  unfold block at h
  split at h
  · cases h
  · split at h
    · cases h
    · cases h
      exact List.cons_ne_nil _ _

theorem ne_nil_of_blocks (cs : List Char) : ∀ b ∈ (blocks cs).1, b.2 ≠ [] := by
  fun_induction blocks cs with
  | case1 => exact fun b hb => nomatch hb
  | case2 cs b rest h _ bs rest' heq ih =>
    rw [heq] at ih
    exact List.forall_mem_cons.mpr ⟨ne_nil_of_block h, ih⟩

theorem wellFormed_of_parse {text : List Char} (h : parse text = .ok d) : WellFormed d := by
  unfold parse at h
  dsimp only at h
  split at h
  · cases h
    exact wellFormed_nil
  · cases hread : read (withoutComments text) with
    | error f => simp [hread] at h
    | ok p =>
      simp only [hread] at h
      split at h
      · cases h
        unfold read at hread
        split at hread
        · cases hread
        · rename_i b rest hb
          cases hread
          exact wellFormed_ofSections
            (List.forall_mem_cons.mpr ⟨ne_nil_of_block hb, ne_nil_of_blocks rest⟩)
      · cases h

end Univariate.Document
