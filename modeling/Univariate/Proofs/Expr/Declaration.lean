import Univariate.Proofs.Expr.RoundTrip
import Univariate.Proofs.Expr.Vocabulary

namespace Univariate

variable {declared declared' : Option String} {c : Category} {ts : List Token} {t : Token}
  {e : Expr} {name v : String}

theorem Callable.mentions_apply_of_mem {f : Callable} {args : List Expr} {arg : Expr}
    (harity : args.length = f.arity) (harg : arg ∈ args) (h : arg.mentions name = true) :
    (f.apply args).mentions name = true := by
  rcases apply_of_arity harity with ⟨g, a, rfl, heq⟩ | ⟨base, exponent, rfl, heq⟩
  · cases List.mem_singleton.mp harg
    rwa [heq]
  · rw [heq, Expr.mentions, Bool.or_eq_true]
    rcases List.mem_pair.mp harg with rfl | rfl
    · exact .inl h
    · exact .inr h

namespace Resolves

theorem eq_of_mentions (h : Resolves (some v) name e) {n : String} (hn : e.mentions n = true) :
    n = v := by
  cases h with
  | free heq =>
    cases heq
    exact (beq_iff_eq.mp hn).symm
  | constant => cases hn
  | undeclared hnone => cases hnone

theorem declared_iff (hv : namedConstant? v = none) : Resolves (some v) name e ↔
    Resolves none name e ∧ ∀ n, e.mentions n = true → n = v := by
  constructor
  · intro h
    refine ⟨?_, fun n => h.eq_of_mentions⟩
    cases h with
    | free heq =>
      cases heq
      exact .undeclared rfl hv
    | constant _ hc => exact .constant nofun hc
    | undeclared hnone => cases hnone
  · rintro ⟨h, honly⟩
    cases h with
    | free hnone => cases hnone
    | constant _ hc =>
      refine .constant ?_ hc
      intro heq
      cases heq
      rw [hv] at hc
      cases hc
    | undeclared _ hc =>
      obtain rfl : name = v := honly name (by simp [Expr.mentions])
      exact .free rfl

end Resolves

namespace Derives

theorem redeclare (h : Derives declared c ts e)
    (hnames : ∀ name leaf, Resolves declared name leaf →
      (∀ n, leaf.mentions n = true → e.mentions n = true) → Resolves declared' name leaf) :
    Derives declared' c ts e := by
  induction h with
  | number v => exact .number v
  | name h => exact .name (hnames _ _ h fun n hn => hn)
  | call hf harity _ ih =>
    refine .call hf harity fun arg harg => ih arg harg fun name leaf hleaf hsub => ?_
    refine hnames name leaf hleaf fun n hn => ?_
    exact Callable.mentions_apply_of_mem (by simpa using harity) (List.mem_map_of_mem harg)
      (hsub n hn)
  | binary _ _ ihl ihr =>
    simp only [Expr.mentions, Bool.or_eq_true] at hnames
    refine .binary (ihl fun name leaf hleaf hsub => ?_) (ihr fun name leaf hleaf hsub => ?_)
    · exact hnames name leaf hleaf fun n hn => .inl (hsub n hn)
    · exact hnames name leaf hleaf fun n hn => .inr (hsub n hn)
  | group _ ih => exact (ih hnames).group
  | minus _ ih => exact (ih hnames).minus
  | plus _ ih => exact (ih hnames).plus
  | ofPrimary _ ih => exact (ih hnames).ofPrimary
  | ofPower _ ih => exact (ih hnames).ofPower
  | ofSigned _ ih => exact (ih hnames).ofSigned
  | ofProduct _ ih => exact (ih hnames).ofProduct

theorem declared_iff (hv : namedConstant? v = none) : Derives (some v) c ts e ↔
    Derives none c ts e ∧ ∀ n, e.mentions n = true → n = v := by
  constructor
  · intro h
    refine ⟨h.redeclare fun name leaf hleaf _ => ((Resolves.declared_iff hv).mp hleaf).1, ?_⟩
    intro n hn
    exact (h.resolves_of_mentions hn).eq_of_mentions (by simp [Expr.mentions])
  · rintro ⟨h, honly⟩
    refine h.redeclare fun name leaf hleaf hsub => (Resolves.declared_iff hv).mpr ⟨hleaf, ?_⟩
    exact fun n hn => honly n (hsub n hn)

theorem mem_of_mem_intercalate {tss : List (List Token)}
    (h : t ∈ [Token.comma].intercalate tss) : t = .comma ∨ ∃ ts ∈ tss, t ∈ ts := by
  induction tss with
  | nil => simp [List.intercalate] at h
  | cons us tss ih =>
    cases tss with
    | nil => exact .inr ⟨us, List.mem_cons_self, by simpa [List.intercalate] using h⟩
    | cons us' tss =>
      rw [List.intercalate_cons_cons, List.mem_append, List.mem_append, List.mem_singleton] at h
      rcases h with (h | h) | h
      · exact .inr ⟨us, List.mem_cons_self, h⟩
      · exact .inl h
      · exact (ih h).imp_right fun ⟨ts, hts, ht⟩ => ⟨ts, List.mem_cons_of_mem us hts, ht⟩

theorem meaning_of_ident (h : Derives declared c ts e) (hname : .ident name ∈ ts) :
    (Callable.ofName? name).isSome = true ∨ (namedConstant? name).isSome = true ∨
      e.mentions name = true := by
  induction h with
  | number v => simp at hname
  | name h =>
    cases List.mem_singleton.mp hname
    cases h with
    | free | undeclared => simp [Expr.mentions]
    | constant _ hc => simp [hc]
  | @call name' f args hf harity _ ih =>
    simp only [List.mem_append, List.mem_cons, reduceCtorEq, Token.ident.injEq, false_or, or_false,
      List.not_mem_nil] at hname
    rcases hname with rfl | hname
    · simp [hf]
    · obtain ⟨us, hus, hname⟩ := (mem_of_mem_intercalate hname).resolve_left (by simp)
      obtain ⟨arg, harg, rfl⟩ := List.mem_map.mp hus
      refine (ih arg harg hname).imp_right (Or.imp_right fun hmentions => ?_)
      exact Callable.mentions_apply_of_mem (by simpa using harity) (List.mem_map_of_mem harg)
        hmentions
  | binary _ _ ihl ihr =>
    simp only [List.mem_append, List.mem_cons, reduceCtorEq, false_or] at hname
    simp only [Expr.mentions, Bool.or_eq_true]
    rcases hname with hname | hname
    · exact (ihl hname).imp_right (Or.imp_right .inl)
    · exact (ihr hname).imp_right (Or.imp_right .inr)
  | group _ ih | minus _ ih | plus _ ih => exact ih (by simpa using hname)
  | ofPrimary _ ih | ofPower _ ih | ofSigned _ ih | ofProduct _ ih => exact ih hname

end Derives

namespace Juxtaposition

theorem mem_explicit (h : t ∈ ts) : t ∈ explicit ts := by
  fun_induction explicit ts with
  | case1 a b ts hproduct ih =>
    simpa using (List.mem_cons.mp h).imp_right fun h => .inr (ih h)
  | case2 a b ts hproduct ih => exact List.mem_cons.mpr ((List.mem_cons.mp h).imp_right ih)
  | case3 ts => exact h

end Juxtaposition

theorem FusedName.splitAll_of_derives
    (h : Derives declared c (Juxtaposition.explicit ts) e)
    (honly : ∀ n, e.mentions n = true → n = v) : splitAll v ts = ts := by
  refine splitAll_eq fun name hname => ?_
  rcases h.meaning_of_ident (Juxtaposition.mem_explicit hname) with hf | hc | hmentions
  · simp [isMeaningful, hf]
  · simp [isMeaningful, hc]
  · simp [isMeaningful, honly name hmentions]

namespace Expr

variable {text : List Char}

theorem parse_eq_ok_iff : parse declared text = .ok e ↔ ∃ ts, Token.ofText text = .ok ts ∧
    Derives declared .sum (Token.prepare declared ts) e := by
  constructor
  · exact exists_derives_of_parse
  · rintro ⟨ts, hts, h⟩
    rw [parse, hts]
    exact Parser.ofTokens_of_derives h

/-- An expression in one variable is read alike with the variable declared and without, as long as
the declaration cuts no word of the text. -/
theorem parse_declared_iff (hpi : v ≠ "pi") (he : v ≠ "e") :
    (parse none text = .ok e ∧ ∀ name, e.mentions name = true → name = v) ↔
      parse (some v) text = .ok e ∧
        ∀ ts, Token.ofText text = .ok ts → FusedName.splitAll v ts = ts := by
  have hv : namedConstant? v = none := by rw [namedConstant?, if_neg hpi, if_neg he]
  simp only [parse_eq_ok_iff, Token.prepare]
  constructor
  · rintro ⟨⟨ts, hts, h⟩, honly⟩
    have hsplit := FusedName.splitAll_of_derives h honly
    refine ⟨⟨ts, hts, ?_⟩, ?_⟩
    · rw [hsplit]
      exact (Derives.declared_iff hv).mpr ⟨h, honly⟩
    · intro ts' hts'
      cases hts.symm.trans hts'
      exact hsplit
  · rintro ⟨⟨ts, hts, h⟩, hsplit⟩
    rw [hsplit ts hts] at h
    obtain ⟨h, honly⟩ := (Derives.declared_iff hv).mp h
    exact ⟨⟨ts, hts, h⟩, honly⟩

theorem parse_declared_sine :
    ("sin" ≠ "pi" ∧ "sin" ≠ "e") ∧
    (parse none ['s', 'i', 'n', '(', 's', 'i', 'n', ')'] = .ok (.apply .sin (.var "sin")) ∧
      ∀ name, (apply .sin (.var "sin")).mentions name = true → name = "sin") ∧
    parse (some "sin") ['s', 'i', 'n', '(', 's', 'i', 'n', ')'] =
      .ok (.apply .sin (.var "sin")) := by
  have hrun : Token.run ['s', 'i', 'n', '(', 's', 'i', 'n', ')'] =
      ([.ident "sin", .lparen, .ident "sin", .rparen], []) :=
    Token.run_eq_cons rfl rfl <| Token.run_eq_cons rfl rfl <| Token.run_eq_cons rfl rfl <|
      Token.run_eq_cons rfl rfl Token.run_nil
  have hrounded : Token.rounded ['s', 'i', 'n', '(', 's', 'i', 'n', ')'] =
      ['s', 'i', 'n', '(', 's', 'i', 'n', ')'] := by decide +kernel
  have hts := Token.ofText_of_run hrounded hrun rfl rfl rfl
  have hundeclared : parse none ['s', 'i', 'n', '(', 's', 'i', 'n', ')'] =
      .ok (.apply .sin (.var "sin")) := by
    rw [parse, hts]
    rfl
  have hneither : "sin" ≠ "pi" ∧ "sin" ≠ "e" := by decide
  have honly : ∀ name, (apply .sin (.var "sin")).mentions name = true → name = "sin" :=
    fun name h => (beq_iff_eq.mp h).symm
  have hdeclared := (parse_declared_iff hneither.1 hneither.2).mp ⟨hundeclared, honly⟩
  exact ⟨hneither, ⟨hundeclared, honly⟩, hdeclared.1⟩

end Expr

end Univariate
