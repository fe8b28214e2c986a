import Univariate.Proofs.Expr.RoundTrip

namespace Univariate.FusedName

variable {names ps qs : List (List Char)} {word p q u v w : List Char} {free name : String}
  {ts : List Token}

structure Pieces (names : List (List Char)) (word : List Char) (ps : List (List Char)) : Prop where
  mem : ∀ p ∈ ps, p ∈ names
  flatten : ps.flatten = word

def byteLength (w : List Char) : Nat := (w.map Char.utf8Size).sum

section Lengths

theorem length_lt_append (p : List Char) (c : Char) (u : List Char) :
    p.length < (p ++ c :: u).length := by
  simp

theorem byteLength_lt_append (p : List Char) (c : Char) (u : List Char) :
    byteLength p < byteLength (p ++ c :: u) := by
  have := c.utf8Size_pos
  simp only [byteLength, List.map_append, List.map_cons, List.sum_append, List.sum_cons]
  omega

theorem exists_append_of_longer (heq : p ++ v = q ++ w) (hlt : q.length < p.length) :
    ∃ c u, p = q ++ c :: u := by
  obtain ⟨u, rfl⟩ := List.prefix_of_prefix_length_le ⟨w, heq.symm⟩ ⟨v, rfl⟩ hlt.le
  cases u with
  | nil => simp at hlt
  | cons c u => exact ⟨c, u, rfl⟩

theorem byteLength_lt_iff (heq : p ++ v = q ++ w) :
    byteLength p < byteLength q ↔ p.length < q.length := by
  rcases Nat.lt_trichotomy p.length q.length with hlt | hlength | hlt
  · obtain ⟨c, u, rfl⟩ := exists_append_of_longer heq.symm hlt
    exact iff_of_true (byteLength_lt_append p c u) hlt
  · obtain ⟨rfl, -⟩ := List.append_inj heq hlength
    exact iff_of_false (lt_irrefl _) (lt_irrefl _)
  · obtain ⟨c, u, rfl⟩ := exists_append_of_longer heq hlt
    exact iff_of_false (byteLength_lt_append q c u).asymm hlt.asymm

end Lengths

section First

variable {α β : Type} {f : α → Option β} {l : List α} {b : β}

theorem findSome?_falling (key : α → Nat) (hl : l.Pairwise fun a a' => key a' ≤ key a)
    (hkey : ∀ a ∈ l, ∀ a' ∈ l, key a = key a' → f a = f a') :
    l.findSome? f = some b ↔
      ∃ a ∈ l, f a = some b ∧ ∀ a' ∈ l, key a < key a' → f a' = none := by
  have hfirst {b : β} (h : l.findSome? f = some b) :
      ∃ a ∈ l, f a = some b ∧ ∀ a' ∈ l, key a < key a' → f a' = none := by
    obtain ⟨l₁, a, l₂, rfl, ha, hl₁⟩ := List.findSome?_eq_some_iff.mp h
    refine ⟨a, by simp, ha, fun a' ha' hlt => ?_⟩
    rcases List.mem_append.mp ha' with ha' | ha'
    · exact hl₁ a' ha'
    · have hle : key a' ≤ key a := by
        rcases List.mem_cons.mp ha' with rfl | ha'
        · exact le_rfl
        · exact (List.pairwise_cons.mp (List.pairwise_append.mp hl).2.1).1 a' ha'
      omega
  refine ⟨hfirst, ?_⟩
  rintro ⟨a, hmem, ha, hlonger⟩
  cases hfind : l.findSome? f with
  | none =>
    rw [List.findSome?_eq_none_iff.mp hfind a hmem] at ha
    cases ha
  | some b' =>
    obtain ⟨a', hmem', ha', hlonger'⟩ := hfirst hfind
    rcases lt_trichotomy (key a) (key a') with hlt | heq | hlt
    · rw [hlonger a' hmem' hlt] at ha'
      cases ha'
    · rw [← ha, ← ha', hkey a hmem a' hmem' heq]
    · rw [hlonger' a hmem hlt] at ha
      cases ha

end First

section Table

theorem length_le_longest (h : p ∈ names) : p.length ≤ longest names := by
  have hfold (l : List (List Char)) (n : Nat) :
      n ≤ l.foldl (fun n p => max n p.length) n ∧
        ∀ p ∈ l, p.length ≤ l.foldl (fun n p => max n p.length) n := by
    induction l generalizing n with
    | nil => exact ⟨le_rfl, List.forall_mem_nil _⟩
    | cons q l ih =>
      obtain ⟨hle, hl⟩ := ih (max n q.length)
      exact ⟨(le_max_left _ _).trans hle, List.forall_mem_cons.mpr ⟨(le_max_right _ _).trans hle, hl⟩⟩
  exact (hfold names 0).2 p h

theorem mem_lengths {n : Nat} : n ∈ lengths names word ↔
    ∃ d u v, d :: u ∈ names ∧ word = d :: u ++ v ∧ u.length = n := by
  simp only [lengths, List.mem_filter, List.mem_reverse, List.mem_range, List.contains_iff_mem,
    lt_min_iff]
  constructor
  · rintro ⟨⟨hlt, -⟩, hmem⟩
    obtain ⟨d, u, htake⟩ := List.exists_cons_of_length_eq_add_one (List.length_take_of_le hlt)
    have hsplit := List.take_append_drop (n + 1) word
    have hlength := congrArg List.length htake
    rw [List.length_take_of_le hlt, List.length_cons, Nat.succ_inj] at hlength
    rw [htake] at hmem hsplit
    exact ⟨d, u, _, hmem, hsplit.symm, hlength.symm⟩
  · rintro ⟨d, u, v, hmem, rfl, rfl⟩
    have hle := length_le_longest hmem
    rw [List.length_cons] at hle
    rw [List.take_left' (List.length_cons), List.length_append, List.length_cons]
    exact ⟨by omega, hmem⟩

theorem pairwise_lengths (names : List (List Char)) (word : List Char) :
    (lengths names word).Pairwise fun n m => m ≤ n := by
  refine List.Pairwise.filter _ (List.pairwise_reverse.mpr ?_)
  exact List.pairwise_lt_range.imp Nat.le_of_lt

theorem getElem?_cuts (names : List (List Char)) (u v : List Char) :
    (cuts names (u ++ v))[u.length]? = some (split? names v) := by
  induction u with
  | nil => cases v <;> rfl
  | cons c u ih => exact ih

theorem entry_eq {c d : Char} {cs : List Char} (hword : c :: cs = d :: u ++ v) :
    (cuts names cs)[u.length]?.join.map ((c :: cs).take (u.length + 1) :: ·) =
      (split? names v).map ((d :: u) :: ·) := by
  rw [List.cons_append, List.cons.injEq] at hword
  obtain ⟨rfl, rfl⟩ := hword
  rw [getElem?_cuts, List.take_succ_cons, List.take_left]
  rfl

end Table

section Choice

/-- One of the names stands at the front, what is behind it is cut, and behind no longer name. -/
structure Chosen (names : List (List Char)) (cut : List Char → Option (List (List Char)))
    (word p v : List Char) (rest : List (List Char)) : Prop where
  mem : p ∈ names
  ne_nil : p ≠ []
  word_eq : word = p ++ v
  cut_eq : cut v = some rest
  longer : ∀ q u, q ∈ names → word = q ++ u → p.length < q.length → cut u = none

theorem split?_eq_some_iff (hword : word ≠ []) : split? names word = some ps ↔
    ∃ p v rest, ps = p :: rest ∧ Chosen names (split? names) word p v rest := by
  obtain ⟨c, cs, rfl⟩ := List.exists_cons_of_ne_nil hword
  have hfind := findSome?_falling (f := fun n =>
    (cuts names cs)[n]?.join.map ((c :: cs).take (n + 1) :: ·)) (b := ps) id
    (pairwise_lengths names (c :: cs)) (fun n _ m _ heq => by rw [show n = m from heq])
  refine hfind.trans ?_
  constructor
  · rintro ⟨n, hn, hentry, hlonger⟩
    obtain ⟨d, u, v, hmem, hsplit, rfl⟩ := mem_lengths.mp hn
    rw [entry_eq hsplit] at hentry
    obtain ⟨rest, hrest, rfl⟩ := Option.map_eq_some_iff.mp hentry
    refine ⟨d :: u, v, rest, rfl, hmem, List.cons_ne_nil d u, hsplit, hrest, fun q w hq hsplit' hlt => ?_⟩
    obtain ⟨d', u', rfl⟩ := List.exists_cons_of_length_pos (Nat.zero_lt_of_lt hlt)
    have hentry' := hlonger _ (mem_lengths.mpr ⟨d', u', w, hq, hsplit', rfl⟩)
      (Nat.lt_of_succ_lt_succ hlt)
    rwa [entry_eq hsplit', Option.map_eq_none_iff] at hentry'
  · rintro ⟨p, v, rest, rfl, hmem, hne, hsplit, hrest, hlonger⟩
    obtain ⟨d, u, rfl⟩ := List.exists_cons_of_ne_nil hne
    refine ⟨u.length, mem_lengths.mpr ⟨d, u, v, hmem, hsplit, rfl⟩, ?_, fun m hm hlt => ?_⟩
    · rw [entry_eq hsplit, hrest]
      rfl
    · obtain ⟨d', u', w, hq, hsplit', rfl⟩ := mem_lengths.mp hm
      rw [entry_eq hsplit', hlonger _ w hq hsplit' (Nat.succ_lt_succ hlt)]
      rfl

theorem split?_eq_none_iff (hword : word ≠ []) : split? names word = none ↔
    ∀ p v, p ∈ names → p ≠ [] → word = p ++ v → split? names v = none := by
  obtain ⟨c, cs, rfl⟩ := List.exists_cons_of_ne_nil hword
  refine List.findSome?_eq_none_iff.trans ?_
  constructor
  · intro hnone p v hmem hne hsplit
    obtain ⟨d, u, rfl⟩ := List.exists_cons_of_ne_nil hne
    have hentry := hnone _ (mem_lengths.mpr ⟨d, u, v, hmem, hsplit, rfl⟩)
    rwa [entry_eq hsplit, Option.map_eq_none_iff] at hentry
  · intro hnone n hn
    obtain ⟨d, u, v, hmem, hsplit, rfl⟩ := mem_lengths.mp hn
    rw [entry_eq hsplit, hnone _ v hmem (List.cons_ne_nil d u) hsplit]
    rfl

theorem length_lt_of_append (hword : word = p ++ v) (hp : p ≠ []) : v.length < word.length := by
  have := List.length_pos_iff.mpr hp
  rw [hword, List.length_append]
  omega

theorem Chosen.congr {names' rest : List (List Char)} {cut cut' : List Char → Option (List (List Char))}
    (hmem : ∀ q, q ≠ [] → (q ∈ names ↔ q ∈ names')) (hcut : ∀ u, u.length < word.length → cut u = cut' u)
    (h : Chosen names cut word p v rest) : Chosen names' cut' word p v rest := by
  refine ⟨(hmem p h.ne_nil).mp h.mem, h.ne_nil, h.word_eq, ?_, fun q u hq hsplit hlt => ?_⟩
  · rw [← hcut v (length_lt_of_append h.word_eq h.ne_nil), h.cut_eq]
  · have hne : q ≠ [] := List.ne_nil_of_length_pos (Nat.zero_lt_of_lt hlt)
    rw [← hcut u (length_lt_of_append hsplit hne)]
    exact h.longer q u ((hmem q hne).mpr hq) hsplit hlt

theorem eq_split?_of_chosen {names' : List (List Char)} {cut : List Char → Option (List (List Char))}
    (hmem : ∀ q, q ≠ [] → (q ∈ names ↔ q ∈ names')) (hnil : cut [] = some [])
    (hchosen : ∀ word ps, word ≠ [] → (cut word = some ps ↔
      ∃ p v rest, ps = p :: rest ∧ Chosen names cut word p v rest)) (word : List Char) :
    cut word = split? names' word := by
  induction hn : word.length using Nat.strong_induction_on generalizing word with
  | h n ih =>
    by_cases hword : word = []
    · rw [hword, hnil]
      rfl
    · have hshorter : ∀ u : List Char, u.length < word.length → cut u = split? names' u :=
        fun u hu => ih _ (hn ▸ hu) u rfl
      ext ps
      rw [hchosen word ps hword, split?_eq_some_iff hword]
      exact ⟨fun ⟨p, v, rest, hps, h⟩ => ⟨p, v, rest, hps, h.congr hmem hshorter⟩,
        fun ⟨p, v, rest, hps, h⟩ => ⟨p, v, rest, hps,
          h.congr (fun q hq => (hmem q hq).symm) fun u hu => (hshorter u hu).symm⟩⟩

end Choice

section Search

def candidates (names : List (List Char)) (word : List Char) : List (List Char) :=
  (names.filter (·.isPrefixOf word)).mergeSort fun p q => byteLength q ≤ byteLength p

theorem mem_candidates : p ∈ candidates names word ↔ p ∈ names ∧ ∃ v, word = p ++ v := by
  rw [candidates, List.mem_mergeSort, List.mem_filter, List.isPrefixOf_iff_prefix]
  exact and_congr_right fun _ => ⟨fun ⟨v, hv⟩ => ⟨v, hv.symm⟩, fun ⟨v, hv⟩ => ⟨v, hv.symm⟩⟩

theorem pairwise_candidates (names : List (List Char)) (word : List Char) :
    (candidates names word).Pairwise fun p q => byteLength q ≤ byteLength p := by
  have hsorted := @List.pairwise_mergeSort _ (fun p q : List Char => byteLength q ≤ byteLength p)
    (fun p q r hpq hqr => by simp only [decide_eq_true_eq] at hpq hqr ⊢; omega)
    (fun p q => by simp only [Bool.or_eq_true, decide_eq_true_eq]; omega)
    (names.filter (·.isPrefixOf word))
  exact hsorted.imp fun h => of_decide_eq_true h

def search (names : List (List Char)) (hnames : ∀ p ∈ names, p ≠ []) (word : List Char) :
    Option (List (List Char)) :=
  if word = [] then some []
  else (candidates names word).attach.findSome? fun ⟨p, _⟩ =>
    (search names hnames (word.drop p.length)).map (p :: ·)
termination_by word.length
decreasing_by
  rename_i hp
  obtain ⟨hmem, v, hword⟩ := mem_candidates.mp hp
  have hshorter := length_lt_of_append hword (hnames p hmem)
  rwa [hword, List.drop_left, ← hword]

variable {hnames : ∀ p ∈ names, p ≠ []}

theorem search_of_ne_nil (hword : word ≠ []) : search names hnames word =
    (candidates names word).findSome? fun p =>
      (search names hnames (word.drop p.length)).map (p :: ·) := by
  rw [search, if_neg hword]
  simp only [List.findSome?_subtype, List.unattach_attach]

theorem search_eq_some_iff (hword : word ≠ []) : search names hnames word = some ps ↔
    ∃ p v rest, ps = p :: rest ∧ Chosen names (search names hnames) word p v rest := by
  have hsame : ∀ p ∈ candidates names word, ∀ q ∈ candidates names word,
      byteLength p = byteLength q → p = q := by
    intro p hp q hq hlength
    obtain ⟨-, u, rfl⟩ := mem_candidates.mp hp
    obtain ⟨-, v, hsplit⟩ := mem_candidates.mp hq
    have hle := (byteLength_lt_iff hsplit).not.mp hlength.not_lt
    have hge := (byteLength_lt_iff hsplit.symm).not.mp hlength.not_gt
    exact (List.append_inj hsplit (by omega)).1
  have hfind := findSome?_falling (b := ps)
    (f := fun p => (search names hnames (word.drop p.length)).map (p :: ·)) byteLength
    (pairwise_candidates names word) (fun p hp q hq h => by rw [hsame p hp q hq h])
  rw [search_of_ne_nil hword, hfind]
  constructor
  · rintro ⟨p, hp, hentry, hlonger⟩
    obtain ⟨rest, hrest, rfl⟩ := Option.map_eq_some_iff.mp hentry
    obtain ⟨hmem, v, hsplit⟩ := mem_candidates.mp hp
    rw [hsplit, List.drop_left] at hrest
    refine ⟨p, v, rest, rfl, hmem, hnames p hmem, hsplit, hrest, fun q u hq hsplit' hlt => ?_⟩
    have hbytes := (byteLength_lt_iff (hsplit.symm.trans hsplit')).mpr hlt
    have hentry' := hlonger q (mem_candidates.mpr ⟨hq, u, hsplit'⟩) hbytes
    rwa [hsplit', List.drop_left, Option.map_eq_none_iff] at hentry'
  · rintro ⟨p, v, rest, rfl, hmem, hne, hsplit, hrest, hlonger⟩
    refine ⟨p, mem_candidates.mpr ⟨hmem, v, hsplit⟩, ?_, fun q hq hbytes => ?_⟩
    · rw [hsplit, List.drop_left, hrest]
      rfl
    · obtain ⟨hmem', u, hsplit'⟩ := mem_candidates.mp hq
      have hlt := (byteLength_lt_iff (hsplit.symm.trans hsplit')).mp hbytes
      rw [hsplit', List.drop_left, hlonger q u hmem' hsplit' hlt]
      rfl

theorem search_eq_split? (names : List (List Char)) (hnames : ∀ p ∈ names, p ≠ [])
    (word : List Char) : search names hnames word = split? names word := by
  refine eq_split?_of_chosen (fun _ _ => Iff.rfl) ?_ (fun _ _ => search_eq_some_iff) word
  rw [search, if_pos rfl]

end Search

section Pieces

theorem pieces_of_split? (h : split? names word = some ps) : Pieces names word ps := by
  induction ps generalizing word with
  | nil =>
    by_cases hword : word = []
    · exact ⟨List.forall_mem_nil _, hword.symm⟩
    · obtain ⟨p, v, rest, hps, -⟩ := (split?_eq_some_iff hword).mp h
      cases hps
  | cons p ps ih =>
    have hword : word ≠ [] := by
      rintro rfl
      cases h
    obtain ⟨p, v, rest, hps, hchosen⟩ := (split?_eq_some_iff hword).mp h
    cases hps
    obtain ⟨hmem, hflatten⟩ := ih hchosen.cut_eq
    refine ⟨List.forall_mem_cons.mpr ⟨hchosen.mem, hmem⟩, ?_⟩
    rw [List.flatten_cons, hflatten, hchosen.word_eq]

theorem Pieces.tail (h : Pieces names word (q :: qs)) : Pieces names qs.flatten qs :=
  ⟨fun p hp => h.mem p (List.mem_cons_of_mem q hp), rfl⟩

theorem split?_ne_none (hnames : ∀ p ∈ names, p ≠ []) (h : Pieces names word qs) :
    split? names word ≠ none := by
  induction qs generalizing word with
  | nil =>
    rw [← h.flatten]
    exact Option.some_ne_none _
  | cons q qs ih =>
    have hq := h.mem q List.mem_cons_self
    have hsplit : word = q ++ qs.flatten := h.flatten.symm
    have hword : word ≠ [] := by
      rw [hsplit]
      exact List.append_ne_nil_of_left_ne_nil (hnames q hq) _
    rw [Ne, split?_eq_none_iff hword]
    exact fun hnone => ih h.tail (hnone q _ hq (hnames q hq) hsplit)

theorem longest_of_split? {size : List Char → Nat} (hsize : ∀ p c u, size p < size (p ++ c :: u))
    (hnames : ∀ p ∈ names, p ≠ []) (h : split? names word = some ps) (hqs : Pieces names word qs)
    (hne : qs ≠ ps) : qs.map size < ps.map size := by
  induction qs generalizing word ps with
  | nil =>
    rw [← hqs.flatten] at h
    cases h
    exact absurd rfl hne
  | cons q qs ih =>
    have hq := hqs.mem q List.mem_cons_self
    have hsplit : word = q ++ qs.flatten := hqs.flatten.symm
    have hword : word ≠ [] := by
      rw [hsplit]
      exact List.append_ne_nil_of_left_ne_nil (hnames q hq) _
    obtain ⟨p, v, rest, rfl, hchosen⟩ := (split?_eq_some_iff hword).mp h
    rw [List.map_cons, List.map_cons, List.cons_lt_cons_iff]
    have heq := hchosen.word_eq.symm.trans hsplit
    rcases Nat.lt_trichotomy p.length q.length with hlt | hlength | hlt
    · exact absurd (hchosen.longer q _ hq hsplit hlt) (split?_ne_none hnames hqs.tail)
    · obtain ⟨rfl, rfl⟩ := List.append_inj heq hlength
      exact .inr ⟨rfl, ih hchosen.cut_eq hqs.tail fun hrest => hne (by rw [hrest])⟩
    · obtain ⟨c, u, rfl⟩ := exists_append_of_longer heq hlt
      exact .inl (hsize q c u)

theorem split?_eq_none_iff_pieces (hnames : ∀ p ∈ names, p ≠ []) :
    split? names word = none ↔ ¬ ∃ ps, Pieces names word ps := by
  constructor
  · rintro hnone ⟨ps, hps⟩
    exact split?_ne_none hnames hps hnone
  · intro hno
    rw [Option.eq_none_iff_forall_ne_some]
    exact fun ps hps => hno ⟨ps, pieces_of_split? hps⟩

end Pieces

section Tokens

theorem isMeaningful_iff : isMeaningful free name = true ↔ name ∈ known free := by
  have hconstant : (namedConstant? name).isSome = true ↔ name = "pi" ∨ name = "e" := by
    unfold namedConstant?
    split
    · simp [*]
    · split <;> simp [*]
  have hfunction : (Callable.ofName? name).isSome = true ↔ ∃ f ∈ Callable.all, f.name = name := by
    simp only [Callable.ofName?, List.find?_isSome, beq_iff_eq]
  simp only [isMeaningful, Bool.or_eq_true, beq_iff_eq, hconstant, hfunction, known, List.mem_append,
    List.mem_map, List.mem_cons, List.not_mem_nil, or_false]
  rw [or_comm, @or_comm (name = free), or_assoc]

def vocabulary (free : String) : List (List Char) :=
  ((known free).map String.toList).filter (· ≠ [])

theorem ne_nil_of_mem_vocabulary (h : p ∈ vocabulary free) : p ≠ [] := by
  simpa using (List.mem_filter.mp h).2

theorem known_of_mem_vocabulary (h : p ∈ vocabulary free) : String.ofList p ∈ known free := by
  obtain ⟨name, hname, rfl⟩ := List.mem_map.mp (List.mem_filter.mp h).1
  rwa [String.ofList_toList]

theorem split?_vocabulary (free : String) (word : List Char) :
    split? (vocabulary free) word = split? ((known free).map String.toList) word := by
  refine eq_split?_of_chosen (fun q hq => ?_) rfl (fun _ _ => split?_eq_some_iff) word
  rw [vocabulary, List.mem_filter]
  exact and_iff_left (decide_eq_true hq)

inductive Respelled (free : String) : Token → List Token → Prop
  | kept {t : Token} : (∀ name, t = .ident name →
      name ∈ known free ∨ ¬ ∃ ps, Pieces (vocabulary free) name.toList ps) → Respelled free t [t]
  | cut {name : String} {ps : List (List Char)} : name ∉ known free →
      Pieces (vocabulary free) name.toList ps →
      Respelled free (.ident name) (ps.map fun p => .ident (String.ofList p))

theorem respelled_expand (free name : String) :
    Respelled free (.ident name) (expand free name) := by
  unfold expand
  split
  · rename_i hmeaningful
    refine .kept fun n hn => .inl ?_
    cases hn
    exact isMeaningful_iff.mp hmeaningful
  · rename_i hmeaningful
    rw [isMeaningful_iff] at hmeaningful
    rw [← split?_vocabulary]
    split
    · rename_i ps hps
      exact .cut hmeaningful (pieces_of_split? hps)
    · rename_i hnone
      refine .kept fun n hn => .inr ?_
      cases hn
      exact (split?_eq_none_iff_pieces fun p => ne_nil_of_mem_vocabulary).mp hnone

theorem respelled_splitAll (free : String) (t : Token) : Respelled free t (splitAll free [t]) := by
  cases t with
  | ident name =>
    rw [splitAll_ident]
    exact respelled_expand free name
  | number _ | op _ | lparen | rparen | comma => exact .kept nofun

theorem splitAll_eq_flatten (free : String) (ts : List Token) :
    splitAll free ts = (ts.map fun t => splitAll free [t]).flatten := by
  induction ts with
  | nil => rfl
  | cons t ts ih => rw [List.map_cons, List.flatten_cons, ← ih, ← splitAll_append, List.singleton_append]

theorem splitAll_splitAll_singleton (free : String) (t : Token) :
    splitAll free (splitAll free [t]) = splitAll free [t] := by
  have hrespelled := respelled_splitAll free t
  generalize hus : splitAll free [t] = us at hrespelled
  cases hrespelled with
  | kept _ => exact hus
  | cut _ hps =>
    refine splitAll_eq fun name hname => ?_
    obtain ⟨p, hp, heq⟩ := List.mem_map.mp hname
    cases heq
    exact isMeaningful_iff.mpr (known_of_mem_vocabulary (hps.mem p hp))

theorem splitAll_splitAll (free : String) (ts : List Token) :
    splitAll free (splitAll free ts) = splitAll free ts := by
  induction ts with
  | nil => rfl
  | cons t ts ih =>
    rw [← List.singleton_append, splitAll_append, splitAll_append, splitAll_splitAll_singleton, ih]

/-- A word is cut into names whenever that is possible, the longest possible name first, and a search
that tries the longest names first comes to an end with that cut. So the names of a list of tokens are
respelled without loss, those with a meaning stay, and there is nothing to cut in what comes out. -/
theorem longest_names :
    (∀ (names : List (List Char)) (hnames : ∀ p ∈ names, p ≠ []) (word : List Char),
      search names hnames word = split? names word ∧
      (split? names word = none ↔ ¬ ∃ ps, Pieces names word ps) ∧
      ∀ ps, split? names word = some ps → Pieces names word ps ∧
        ∀ qs, Pieces names word qs → qs ≠ ps →
          qs.map List.length < ps.map List.length ∧ qs.map byteLength < ps.map byteLength) ∧
    ∀ (free : String) (ts : List Token),
      (∃ groups, splitAll free ts = groups.flatten ∧ List.Forall₂ (Respelled free) ts groups) ∧
      splitAll free (splitAll free ts) = splitAll free ts := by
  constructor
  · intro names hnames word
    refine ⟨search_eq_split? names hnames word, split?_eq_none_iff_pieces hnames, fun ps hps => ?_⟩
    refine ⟨pieces_of_split? hps, fun qs hqs hne => ⟨?_, ?_⟩⟩
    · exact longest_of_split? length_lt_append hnames hps hqs hne
    · exact longest_of_split? byteLength_lt_append hnames hps hqs hne
  · intro free ts
    refine ⟨⟨ts.map fun t => splitAll free [t], splitAll_eq_flatten free ts, ?_⟩,
      splitAll_splitAll free ts⟩
    rw [List.forall₂_map_right_iff, List.forall₂_same]
    exact fun t _ => respelled_splitAll free t

theorem longest_names_asin :
    split? ["asi".toList, "as".toList, "sin".toList, "in".toList, "a".toList] "asin".toList =
      some ["as".toList, "in".toList] ∧
    ["a".toList, "sin".toList].map List.length < ["as".toList, "in".toList].map List.length ∧
    splitAll "x" [.ident "xsin", .lparen, .ident "xy"] =
      [.ident "x", .ident "sin", .lparen, .ident "xy"] ∧
    splitAll "x" [.ident "x", .ident "sin", .lparen, .ident "xy"] =
      [.ident "x", .ident "sin", .lparen, .ident "xy"] := by
  have hnames : ∀ p ∈ ["asi".toList, "as".toList, "sin".toList, "in".toList, "a".toList], p ≠ [] := by
    decide
  have hcut : split? ["asi".toList, "as".toList, "sin".toList, "in".toList, "a".toList]
      "asin".toList = some ["as".toList, "in".toList] := by decide
  have hother : Pieces ["asi".toList, "as".toList, "sin".toList, "in".toList, "a".toList]
      "asin".toList ["a".toList, "sin".toList] := ⟨by decide, rfl⟩
  obtain ⟨hwords, htokens⟩ := longest_names
  have hlonger := (((hwords _ hnames _).2.2 _ hcut).2 _ hother (by decide)).1
  have hsplit : splitAll "x" [.ident "xsin", .lparen, .ident "xy"] =
      [.ident "x", .ident "sin", .lparen, .ident "xy"] := by rfl
  have hagain := (htokens "x" [.ident "xsin", .lparen, .ident "xy"]).2
  rw [hsplit] at hagain
  exact ⟨hcut, hlonger, hsplit, hagain⟩

end Tokens

end Univariate.FusedName
