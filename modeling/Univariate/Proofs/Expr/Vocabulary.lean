import Univariate.Proofs.Decimal.Sign
import Univariate.Proofs.Expr.Lexemes
import Univariate.Proofs.Expr.Soundness

namespace Univariate

open Decimal

variable {declared : Option String} {e : Expr} {x : Float} {name : String} {ts : List Token}

namespace Callable

variable {f : Callable} {args : List Expr}

theorem apply_of_arity (h : args.length = f.arity) :
    (∃ g arg, args = [arg] ∧ f.apply args = .apply g arg) ∨
      ∃ base exponent, args = [base, exponent] ∧ f.apply args = .binary .pow base exponent := by
  by_cases hpow : f = .pow
  · subst hpow
    obtain ⟨base, exponent, rfl⟩ := List.length_eq_two.mp h
    exact .inr ⟨base, exponent, rfl, rfl⟩
  · have hone : f.arity = 1 := by cases f <;> first | rfl | exact absurd rfl hpow
    obtain ⟨arg, rfl⟩ := List.length_eq_one_iff.mp (h.trans hone)
    have hfunction : ∃ g, f.function? = some g := by
      cases f <;> first | exact ⟨_, rfl⟩ | exact absurd rfl hpow
    obtain ⟨g, hg⟩ := hfunction
    refine .inl ⟨g, arg, rfl, ?_⟩
    simp [apply, applyReversed, hg]

theorem mentions_apply (h : args.length = f.arity)
    (hname : (f.apply args).mentions name = true) : ∃ arg ∈ args, arg.mentions name = true := by
  rcases apply_of_arity h with ⟨g, arg, rfl, heq⟩ | ⟨base, exponent, rfl, heq⟩
  · rw [heq] at hname
    exact ⟨arg, List.mem_cons_self, hname⟩
  · rw [heq, Expr.mentions, Bool.or_eq_true] at hname
    rcases hname with hname | hname
    · exact ⟨base, List.mem_cons_self, hname⟩
    · exact ⟨exponent, List.mem_cons_of_mem _ List.mem_cons_self, hname⟩

theorem constants_apply (h : args.length = f.arity) (hx : x ∈ (f.apply args).constants) :
    ∃ arg ∈ args, x ∈ arg.constants := by
  rcases apply_of_arity h with ⟨g, arg, rfl, heq⟩ | ⟨base, exponent, rfl, heq⟩
  · rw [heq] at hx
    exact ⟨arg, List.mem_cons_self, hx⟩
  · rw [heq, Expr.constants, List.mem_append] at hx
    rcases hx with hx | hx
    · exact ⟨base, List.mem_cons_self, hx⟩
    · exact ⟨exponent, List.mem_cons_of_mem _ List.mem_cons_self, hx⟩

end Callable

namespace Derives

variable {c : Category}

theorem resolves_of_mentions (h : Derives declared c ts e) (hname : e.mentions name = true) :
    Resolves declared name (.var name) := by
  induction h with
  | number v => cases hname
  | @name n e h =>
    cases h with
    | free hn =>
      cases beq_iff_eq.mp hname
      exact .free hn
    | constant => cases hname
    | undeclared hnone hn =>
      cases beq_iff_eq.mp hname
      exact .undeclared hnone hn
  | call _ harity _ ih =>
    obtain ⟨arg, harg, hname⟩ := Callable.mentions_apply (by simpa using harity) hname
    obtain ⟨p, hp, rfl⟩ := List.mem_map.mp harg
    exact ih p hp hname
  | binary _ _ ihl ihr =>
    rw [Expr.mentions, Bool.or_eq_true] at hname
    exact hname.elim ihl ihr
  | group _ ih | minus _ ih | plus _ ih | ofPrimary _ ih | ofPower _ ih | ofSigned _ ih
  | ofProduct _ ih => exact ih hname

theorem mem_intercalate {tss : List (List Token)} {t : Token} (h : ts ∈ tss) (ht : t ∈ ts) :
    t ∈ [Token.comma].intercalate tss := by
  induction tss with
  | nil => cases h
  | cons us tss ih =>
    cases tss with
    | nil =>
      cases List.mem_singleton.mp h
      simpa [List.intercalate] using ht
    | cons us' tss =>
      rw [List.intercalate_cons_cons, List.mem_append, List.mem_append]
      rcases List.mem_cons.mp h with rfl | h
      · exact .inl (.inl ht)
      · exact .inr (ih h)

theorem number_of_constant (h : Derives declared c ts e) (hx : x ∈ e.constants) :
    .number x ∈ ts ∨ ∃ name, namedConstant? name = some x := by
  induction h with
  | number v =>
    cases List.mem_singleton.mp hx
    exact .inl List.mem_cons_self
  | name h =>
    cases h with
    | free | undeclared => cases hx
    | constant _ hn =>
      cases List.mem_singleton.mp hx
      exact .inr ⟨_, hn⟩
  | call _ harity _ ih =>
    obtain ⟨arg, harg, hx⟩ := Callable.constants_apply (by simpa using harity) hx
    obtain ⟨p, hp, rfl⟩ := List.mem_map.mp harg
    refine (ih p hp hx).imp_left fun hmem => ?_
    have := mem_intercalate (List.mem_map_of_mem hp) hmem
    simp [this]
  | binary _ _ ihl ihr =>
    rcases List.mem_append.mp hx with hx | hx
    · exact (ihl hx).imp_left fun hmem => by simp [hmem]
    · exact (ihr hx).imp_left fun hmem => by simp [hmem]
  | group _ ih | minus _ ih | plus _ ih => exact (ih hx).imp_left fun hmem => by simp [hmem]
  | ofPrimary _ ih | ofPower _ ih | ofSigned _ ih | ofProduct _ ih => exact ih hx

theorem ident_of_mentions (h : Derives declared c ts e) (hname : e.mentions name = true) :
    .ident name ∈ ts := by
  induction h with
  | number v => cases hname
  | name h =>
    cases h with
    | free | undeclared =>
      cases beq_iff_eq.mp hname
      exact List.mem_cons_self
    | constant => cases hname
  | call _ harity _ ih =>
    obtain ⟨arg, harg, hname⟩ := Callable.mentions_apply (by simpa using harity) hname
    obtain ⟨p, hp, rfl⟩ := List.mem_map.mp harg
    have := mem_intercalate (List.mem_map_of_mem hp) (ih p hp hname)
    simp [this]
  | binary _ _ ihl ihr =>
    rw [Expr.mentions, Bool.or_eq_true] at hname
    rcases hname with hname | hname
    · simp [ihl hname]
    · simp [ihr hname]
  | group _ ih | minus _ ih | plus _ ih => simp [ih hname]
  | ofPrimary _ ih | ofPower _ ih | ofSigned _ ih | ofProduct _ ih => exact ih hname

end Derives

namespace Token

variable {ended : Prop} {cs text : List Char} {t : Token} {v : String}

theorem exists_decimal_of_spells (h : Spells ended ts cs) (hx : .number x ∈ ts) :
    ∃ ds fs, x = Literal.decimal ds fs := by
  induction h with
  | nil => cases hx
  | number hw hlexed _ ih =>
    rcases List.mem_cons.mp hx with heq | hx
    · cases heq
      cases hlexed with
      | full => exact ⟨_, _, numeral_eq_decimal hw⟩
      | cut => exact ⟨_, _, rfl⟩
    · exact ih hx
  | name _ _ _ ih => exact ih (by simpa using hx)
  | symbol ht _ ih =>
    rcases List.mem_cons.mp hx with rfl | hx
    · unfold ofSymbol? at ht
      split at ht <;> cases ht
    · exact ih hx

theorem isIdentifier_of_spells (h : Spells ended ts cs) (hname : .ident name ∈ ts) :
    isIdentifier name = true := by
  induction h with
  | nil => cases hname
  | number _ _ _ ih => exact ih (by simpa using hname)
  | name hstart hpart _ ih =>
    rcases List.mem_cons.mp hname with heq | hname
    · cases heq
      exact isIdentifier_iff.mpr ⟨_, _, String.toList_ofList, hstart, hpart⟩
    · exact ih hname
  | symbol ht _ ih =>
    rcases List.mem_cons.mp hname with rfl | hname
    · unfold ofSymbol? at ht
      split at ht <;> cases ht
    · exact ih hname

theorem mem_of_mem_explicit (h : t ∈ Juxtaposition.explicit ts) : t = .op .mul ∨ t ∈ ts := by
  induction ts with
  | nil => exact .inr h
  | cons a ts ih =>
    cases ts with
    | nil => exact .inr h
    | cons b ts =>
      have hcons : t = a ∨ t = .op .mul ∨ t ∈ Juxtaposition.explicit (b :: ts) := by
        rw [Juxtaposition.explicit] at h
        split at h
        · simpa using h
        · exact (List.mem_cons.mp h).imp_right .inr
      rcases hcons with rfl | hsign | h
      · exact .inr List.mem_cons_self
      · exact .inl hsign
      · exact (ih h).imp_right (List.mem_cons_of_mem a)

theorem exists_ident_of_mem_expand (h : t ∈ FusedName.expand v name) : ∃ n, t = .ident n := by
  unfold FusedName.expand at h
  split at h
  · exact ⟨name, List.mem_singleton.mp h⟩
  · split at h
    · obtain ⟨part, -, rfl⟩ := List.mem_map.mp h
      exact ⟨_, rfl⟩
    · exact ⟨name, List.mem_singleton.mp h⟩

theorem number_mem_splitAll (hx : .number x ∈ FusedName.splitAll v ts) : .number x ∈ ts := by
  obtain ⟨t, ht, hx⟩ := List.mem_flatMap.mp hx
  cases t with
  | ident name =>
    obtain ⟨n, hn⟩ := exists_ident_of_mem_expand hx
    cases hn
  | number y =>
    cases List.mem_singleton.mp hx
    exact ht
  | op _ | lparen | rparen | comma => simp at hx

theorem number_mem_prepare (hx : .number x ∈ prepare declared ts) : .number x ∈ ts := by
  have hx := (mem_of_mem_explicit hx).resolve_left (by simp)
  cases declared with
  | none => exact hx
  | some v => exact number_mem_splitAll hx

end Token

namespace Expr

variable {text : List Char}

theorem exists_derives_of_parse (h : parse declared text = .ok e) :
    ∃ ts, Token.ofText text = .ok ts ∧
      Derives declared .sum (Token.prepare declared ts) e := by
  obtain ⟨ts, hts, h⟩ := Parser.bind_eq_ok h
  exact ⟨ts, hts, Parser.ofTokens_eq_ok_iff.mp h⟩

theorem resolves_of_parse (h : parse declared text = .ok e) (hname : e.mentions name = true) :
    Resolves declared name (.var name) := by
  obtain ⟨ts, -, hderives⟩ := exists_derives_of_parse h
  exact hderives.resolves_of_mentions hname

theorem exists_scientific_of_namedConstant (h : namedConstant? name = some x) :
    ∃ n k, x = Float.ofScientific n true k := by
  unfold namedConstant? at h
  split at h
  · cases h
    exact ⟨_, _, rfl⟩
  · split at h
    · cases h
      exact ⟨_, _, rfl⟩
    · cases h

theorem exists_scientific_of_parse (h : parse declared text = .ok e) (hx : x ∈ e.constants) :
    ∃ n k, x = Float.ofScientific n true k := by
  obtain ⟨ts, hts, hderives⟩ := exists_derives_of_parse h
  rcases hderives.number_of_constant hx with hmem | ⟨name, hname⟩
  · have hspells := Token.spells_of_ofText hts
    obtain ⟨ds, fs, rfl⟩ := Token.exists_decimal_of_spells hspells (Token.number_mem_prepare hmem)
    exact ⟨_, _, rfl⟩
  · exact exists_scientific_of_namedConstant hname

theorem signBit_of_parse (h : parse declared text = .ok e) (hx : x ∈ e.constants) :
    signBit x = false := by
  obtain ⟨n, k, rfl⟩ := exists_scientific_of_parse h hx
  exact signBit_ofScientific n k

theorem isIdentifier_of_parse (h : parse none text = .ok e) (hname : e.mentions name = true) :
    Token.isIdentifier name = true := by
  obtain ⟨ts, hts, hderives⟩ := exists_derives_of_parse h
  have hmem := Token.mem_of_mem_explicit (hderives.ident_of_mentions hname)
  exact Token.isIdentifier_of_spells (Token.spells_of_ofText hts) (hmem.resolve_left (by simp))

end Expr

end Univariate
