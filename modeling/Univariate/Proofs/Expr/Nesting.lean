import Univariate.Proofs.Expr.Neighbours
import Univariate.Proofs.Expr.Vocabulary

namespace Univariate

variable {text cs : List Char} {c : Char} {t : Token} {ts us : List Token} {stack : List Char}
  {ended : Prop}

namespace Text

theorem not_bracket_of_isBlank (h : isBlank c = true) :
    isOpening c = false ∧ isClosing c = false :=
  not_bracket_of_class h ⟨rfl, rfl, rfl⟩ ⟨rfl, rfl, rfl⟩

theorem closes_unspaced (stack cs : List Char) : closes stack (unspaced cs) = closes stack cs := by
  refine closes_filter (fun c hc => not_bracket_of_isBlank ?_) stack cs
  simpa only [Bool.not_eq_false'] using hc

end Text

namespace Token

open Text

/-- Whether the tokens close `depth` parentheses that are open, and their own. -/
def nested : (depth : Nat) → List Token → Bool
  | depth, [] => depth == 0
  | depth, .lparen :: ts => nested (depth + 1) ts
  | 0, .rparen :: _ => false
  | depth + 1, .rparen :: ts => nested depth ts
  | depth, _ :: ts => nested depth ts

theorem nested_cons_congr (t : Token) (h : ∀ depth, nested depth ts = nested depth us)
    (depth : Nat) : nested depth (t :: ts) = nested depth (t :: us) := by
  cases t with
  | number _ | ident _ | op _ | comma => exact h depth
  | lparen => exact h (depth + 1)
  | rparen =>
    cases depth with
    | zero => rfl
    | succ depth => exact h depth

theorem nested_explicit (ts : List Token) (depth : Nat) :
    nested depth (Juxtaposition.explicit ts) = nested depth ts := by
  fun_induction Juxtaposition.explicit ts generalizing depth with
  | case1 a b ts hproduct ih =>
    have hsign : ∀ depth, nested depth (.op .mul :: Juxtaposition.explicit (b :: ts)) =
      nested depth (b :: ts) := ih
    exact nested_cons_congr a hsign depth
  | case2 a b ts hproduct ih => exact nested_cons_congr a ih depth
  | case3 ts => rfl

theorem nested_names (h : ∀ t ∈ ts, ∃ n, t = .ident n) (us : List Token) (depth : Nat) :
    nested depth (ts ++ us) = nested depth us := by
  induction ts with
  | nil => rfl
  | cons t ts ih =>
    obtain ⟨n, rfl⟩ := h t List.mem_cons_self
    exact ih fun t ht => h t (List.mem_cons_of_mem _ ht)

theorem nested_splitAll (v : String) (ts : List Token) (depth : Nat) :
    nested depth (FusedName.splitAll v ts) = nested depth ts := by
  induction ts generalizing depth with
  | nil => rfl
  | cons t ts ih =>
    cases t with
    | ident name =>
      have hname : ∀ t ∈ FusedName.expand v name, ∃ n, t = .ident n :=
        fun t => exists_ident_of_mem_expand
      exact (nested_names hname _ depth).trans (ih depth)
    | number _ | op _ | lparen | rparen | comma =>
      rw [splitAll_cons (by simp)]
      exact nested_cons_congr _ ih depth

theorem nested_prepare (declared : Option String) (ts : List Token) (depth : Nat) :
    nested depth (prepare declared ts) = nested depth ts := by
  cases declared with
  | none => exact nested_explicit ts depth
  | some v => exact (nested_explicit _ depth).trans (nested_splitAll v ts depth)

theorem symbol_cases (h : ofSymbol? c = some t) : c = '(' ∧ t = .lparen ∨ c = ')' ∧ t = .rparen ∨
    isOpening c = false ∧ isClosing c = false ∧
      ∀ depth ts, nested depth (t :: ts) = nested depth ts := by
  unfold ofSymbol? at h
  split at h
  case h_6 => exact .inl ⟨rfl, Option.some.inj h.symm⟩
  case h_7 => exact .inr (.inl ⟨rfl, Option.some.inj h.symm⟩)
  case h_9 => cases h
  all_goals
    cases h
    exact .inr (.inr ⟨rfl, rfl, fun _ _ => rfl⟩)

theorem closes_of_spells (h : Spells ended ts cs) (depth : Nat) :
    closes (List.replicate depth '(') cs = nested depth ts := by
  induction h generalizing depth with
  | nil => cases depth <;> rfl
  | number hw _ _ ih => exact (closes_words (isWordChar_of_numeral hw) _ _).trans (ih depth)
  | @name c w cs ts hstart hpart _ ih =>
    have hword : ∀ d ∈ c :: w, isWordChar d = true :=
      List.forall_mem_cons.mpr ⟨isWordChar_of_isNamePart (isNamePart_of_isNameStart hstart),
        fun d hd => isWordChar_of_isNamePart (hpart d hd)⟩
    exact (closes_words hword _ _).trans (ih depth)
  | symbol ht _ ih =>
    rcases symbol_cases ht with ⟨rfl, rfl⟩ | ⟨rfl, rfl⟩ | ⟨hopen, hclose, hnested⟩
    · rw [closes.eq_def]
      exact ih (depth + 1)
    · cases depth with
      | zero => rfl
      | succ depth => exact ih depth
    · rw [closes_skip hopen hclose, hnested]
      exact ih depth

theorem ne_nil_of_ofText (h : ofText text = .ok ts) : ts ≠ [] := by
  rintro rfl
  have hspells := spells_of_ofText h
  generalize hunspaced : unspaced (rounded text) = cs at hspells
  cases hspells
  have hblank := List.all_eq_true.mpr (unspaced_eq_nil_iff.mp hunspaced)
  rw [(checks_of_ofText h).1] at hblank
  cases hblank

theorem nested_of_ofText (h : ofText text = .ok ts) : nested 0 ts = true := by
  have hcloses := closes_of_spells (spells_of_ofText h) 0
  rw [closes_unspaced] at hcloses
  exact hcloses.symm.trans (checks_of_ofText h).2

theorem ofText_of_nested {left : List Char} (hrun : run (rounded text) = (ts, left))
    (hleft : ∀ c ∈ left, isBlank c = true) (hne : ts ≠ []) (hnested : nested 0 ts = true) :
    ofText text = .ok ts := by
  have hspells : Spells (Ended (rounded text)) ts (unspaced (rounded text)) := by
    have hrest : ∀ c ∈ (run (rounded text)).2, isBlank c = true := by rwa [hrun]
    have hspells := spells_run hrest
    rwa [hrun] at hspells
  refine ofText_of_run rfl hrun ?_ ?_ (List.dropWhile_eq_nil_iff.mpr hleft)
  · rw [Bool.eq_false_iff]
    intro hblank
    rw [unspaced_eq_nil_iff.mpr (List.all_eq_true.mp hblank)] at hspells
    exact hne (eq_nil_of_spells_nil hspells)
  · have hcloses := closes_of_spells hspells 0
    rw [closes_unspaced, hnested] at hcloses
    exact hcloses

section Counts

def isLparen : Token → Bool
  | .lparen => true
  | _ => false

def isRparen : Token → Bool
  | .rparen => true
  | _ => false

theorem exists_depth_of_nested {depth : Nat} (h : nested depth (us ++ ts) = true) :
    ∃ depth', depth' + us.countP isRparen = depth + us.countP isLparen ∧ nested depth' ts = true := by
  induction us generalizing depth with
  | nil => exact ⟨depth, rfl, h⟩
  | cons u us ih =>
    cases u with
    | lparen =>
      obtain ⟨depth', hcount, hrest⟩ := @ih (depth + 1) h
      refine ⟨depth', ?_, hrest⟩
      simp only [List.countP_cons, isLparen, isRparen, Bool.false_eq_true, if_false, if_true]
      omega
    | rparen =>
      cases depth with
      | zero => cases h
      | succ depth =>
        obtain ⟨depth', hcount, hrest⟩ := @ih depth h
        refine ⟨depth', ?_, hrest⟩
        simp only [List.countP_cons, isLparen, isRparen, Bool.false_eq_true, if_false, if_true]
        omega
    | number _ | ident _ | op _ | comma =>
      obtain ⟨depth', hcount, hrest⟩ := @ih depth h
      exact ⟨depth', hcount, hrest⟩

/-- Brackets are balanced if they are a word of the grammar, and the parentheses of the tokens of a text
are open before they close. -/
theorem brackets_match (text : List Char) :
    (balanced text = true ↔ Dyck (brackets text)) ∧
    ∀ ts, ofText text = .ok ts →
      (∀ us, us <+: ts → us.countP isRparen ≤ us.countP isLparen) ∧
      ts.countP isRparen = ts.countP isLparen := by
  refine ⟨balanced_iff_dyck text, fun ts hts => ?_⟩
  have hnested := nested_of_ofText hts
  constructor
  · rintro us ⟨vs, rfl⟩
    obtain ⟨depth, hcount, -⟩ := exists_depth_of_nested hnested
    omega
  · rw [← List.append_nil ts] at hnested
    obtain ⟨depth, hcount, hclosed⟩ := exists_depth_of_nested hnested
    have hzero : depth = 0 := by simpa [nested] using hclosed
    omega

theorem brackets_match_square :
    Dyck ['[', '(', ')', ']'] ∧
    ofText ['[', '(', 'x', ')', '+', 'y', ']'] =
      .ok [.lparen, .lparen, .ident "x", .rparen, .op .add, .ident "y", .rparen] ∧
    [lparen, .lparen, .ident "x"].countP isRparen ≤ [lparen, .lparen, .ident "x"].countP isLparen := by
  have hrun : run ['(', '(', 'x', ')', '+', 'y', ')'] =
      ([.lparen, .lparen, .ident "x", .rparen, .op .add, .ident "y", .rparen], []) :=
    run_eq_cons rfl rfl <| run_eq_cons rfl rfl <| run_eq_cons rfl rfl <| run_eq_cons rfl rfl <|
      run_eq_cons rfl rfl <| run_eq_cons rfl rfl <| run_eq_cons rfl rfl run_nil
  have hrounded : rounded ['[', '(', 'x', ')', '+', 'y', ']'] = ['(', '(', 'x', ')', '+', 'y', ')'] := by
    decide +kernel
  have hts := ofText_of_run hrounded hrun rfl rfl rfl
  obtain ⟨hdyck, htokens⟩ := brackets_match ['[', '(', 'x', ')', '+', 'y', ']']
  exact ⟨hdyck.mp rfl, hts, (htokens _ hts).1 _ ⟨[.rparen, .op .add, .ident "y", .rparen], rfl⟩⟩

end Counts

end Token

end Univariate
