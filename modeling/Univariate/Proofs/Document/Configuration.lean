import Mathlib.Data.List.Forall2
import Mathlib.Data.List.Nodup
import Mathlib.Data.List.Perm.Basic
import Mathlib.Data.Prod.Basic
import Univariate.Document.Configuration
import Univariate.Proofs.Document.Map

namespace Univariate

namespace Document

variable {d order : Document}

def entries (d : Document) : List (String × String × List Value) :=
  d.flatMap fun s => s.2.map fun p => (s.1, p.1, p.2)

def Arranges (d order : Document) : Prop :=
  ∃ middle : Document, List.Forall₂ (fun s t => s.1 = t.1 ∧ s.2.Perm t.2) d middle ∧
    middle.Perm order

theorem Arranges.refl (d : Document) : d.Arranges d :=
  ⟨d, List.forall₂_same.mpr fun _ _ => ⟨rfl, .refl _⟩, .refl _⟩

theorem mem_entries {title key : String} {values : List Value} :
    (title, key, values) ∈ d.entries ↔ ∃ s, (title, s) ∈ d ∧ (key, values) ∈ s := by
  simp [entries, List.mem_flatMap]

theorem Arranges.perm_entries (h : d.Arranges order) : d.entries.Perm order.entries := by
  obtain ⟨middle, hsections, hperm⟩ := h
  have hmiddle : d.entries.Perm middle.entries := by
    clear hperm
    induction hsections with
    | nil => exact .refl _
    | @cons s t d middle hst _ ih =>
      obtain ⟨htitle, hpairs⟩ := hst
      have hsection : (s.2.map fun p => (s.1, p.1, p.2)).Perm
          (t.2.map fun p => (t.1, p.1, p.2)) := by
        rw [htitle]
        exact hpairs.map _
      exact hsection.append ih
  exact hmiddle.trans (hperm.flatMap_right _)

def DistinctKeys (entries : List (String × String × List Value)) : Prop :=
  (entries.map fun e => (e.1, e.2.1)).Nodup

theorem WellFormed.distinctKeys (h : WellFormed d) : DistinctKeys d.entries := by
  rw [DistinctKeys, entries, List.map_flatMap, List.nodup_flatMap]
  constructor
  · intro s hs
    have hkeys := (h.sections s hs).1.map (Prod.mk_right_injective s.1)
    simpa [Function.comp_def] using hkeys
  · have htitles := List.pairwise_map.mp h.distinct
    refine htitles.imp fun {s t} hne => ?_
    intro key hs ht
    simp only [List.map_map, List.mem_map, Function.comp_apply] at hs ht
    obtain ⟨p, -, rfl⟩ := hs
    obtain ⟨q, -, heq⟩ := ht
    exact hne (congrArg Prod.fst heq).symm

end Document

namespace Settings

variable {s s' c : Settings} {title key : String} {v : Value} {values : List Value}
  {entries : List (String × String × List Value)}

inductive Documented : String → String → Value → Prop
  | tolerance {v : Value} {x : Float} : v.float? = some x → Documented "solver" "tolerance" v
  | maxIterations (n : Nat) : Documented "solver" "max_iterations" (.integer n)
  | epsilon {v : Value} {x : Float} : v.float? = some x → Documented "solver" "epsilon" v
  | logLevel (v : Value) : Documented "logging" "loglevel" v
  | logToFile (b : Bool) : Documented "logging" "log_to_file" (.boolean b)

def overwrite (s : Settings) (value? : String → String → Option Value) : Settings where
  tolerance := ((value? "solver" "tolerance").bind Value.float?).getD s.tolerance
  maxIterations := ((value? "solver" "max_iterations").bind count?).getD s.maxIterations
  epsilon := ((value? "solver" "epsilon").bind Value.float?).getD s.epsilon
  logLevel := ((value? "logging" "loglevel").map Value.text).or s.logLevel
  logToFile := ((value? "logging" "log_to_file").bind Value.boolean?).getD s.logToFile

def only (title key : String) (v : Value) (title' key' : String) : Option Value :=
  if title = title' ∧ key = key' then some v else none

theorem overwrite_overwrite {f g : String → String → Option Value}
    (h : ∀ title key, f title key = none ∨ g title key = none) :
    (s.overwrite f).overwrite g = s.overwrite fun title key => (f title key).or (g title key) := by
  have hbind : ∀ {α : Type} (read : Value → Option α) (a : α) (title key : String),
      ((g title key).bind read).getD (((f title key).bind read).getD a) =
        (((f title key).or (g title key)).bind read).getD a := by
    intro α read a title key
    rcases h title key with hnone | hnone <;> simp [hnone]
  have hmap : ((g "logging" "loglevel").map Value.text).or
      (((f "logging" "loglevel").map Value.text).or s.logLevel) =
        (((f "logging" "loglevel").or (g "logging" "loglevel")).map Value.text).or s.logLevel := by
    rcases h "logging" "loglevel" with hnone | hnone <;> simp [hnone]
  simp only [overwrite, hbind, hmap]

theorem single_eq_ok_iff : single key values = .ok v ↔ values = [v] := by
  unfold single
  split
  · simp
  · rename_i hne
    simpa [invalid] using hne v

theorem expect_eq_ok_iff {α : Type} {kind : String} {accept : Value → Option α} {a : α} :
    expect kind key accept values = .ok a ↔ ∃ v, values = [v] ∧ accept v = some a := by
  unfold expect
  cases h : single key values with
  | error e =>
    have hne : ∀ v, values ≠ [v] := by
      intro v hv
      cases h.symm.trans (single_eq_ok_iff.mpr hv)
    simp [bind, Except.bind, hne]
  | ok v =>
    obtain rfl := single_eq_ok_iff.mp h
    cases hv : accept v <;> simp [bind, Except.bind, invalid, hv]

theorem count?_eq_some_iff {n : Nat} : count? v = some n ↔ v = .integer n := by
  cases v with
  | integer m => cases m <;> simp [count?, Value.integer?, ← Int.ofNat_eq_natCast]
  | string | float | boolean => simp [count?, Value.integer?]

theorem map_eq_ok_iff {ε α β : Type} {x : Except ε α} {f : α → β} {b : β} :
    x.map f = .ok b ↔ ∃ a, x = .ok a ∧ f a = b := by
  cases x <;> simp [Except.map]

theorem set_eq_ok_iff : s.set title key values = .ok s' ↔
    ∃ v, values = [v] ∧ Documented title key v ∧ s' = s.overwrite (only title key v) := by
  constructor
  · intro h
    unfold set at h
    repeat' split at h
    all_goals subst_vars
    · obtain ⟨x, hx, rfl⟩ := map_eq_ok_iff.mp h
      obtain ⟨v, rfl, hv⟩ := expect_eq_ok_iff.mp hx
      exact ⟨v, rfl, .tolerance hv, by simp [overwrite, only, hv]⟩
    · obtain ⟨n, hn, rfl⟩ := map_eq_ok_iff.mp h
      obtain ⟨v, rfl, hv⟩ := expect_eq_ok_iff.mp hn
      cases count?_eq_some_iff.mp hv
      exact ⟨_, rfl, .maxIterations n, by simp [overwrite, only, hv]⟩
    · obtain ⟨x, hx, rfl⟩ := map_eq_ok_iff.mp h
      obtain ⟨v, rfl, hv⟩ := expect_eq_ok_iff.mp hx
      exact ⟨v, rfl, .epsilon hv, by simp [overwrite, only, hv]⟩
    · simp [set.unknownKey, invalid] at h
    · obtain ⟨v, hv, rfl⟩ := map_eq_ok_iff.mp h
      obtain rfl := single_eq_ok_iff.mp hv
      exact ⟨v, rfl, .logLevel v, by simp [overwrite, only]⟩
    · obtain ⟨b, hb, rfl⟩ := map_eq_ok_iff.mp h
      obtain ⟨v, rfl, hv⟩ := expect_eq_ok_iff.mp hb
      cases v with
      | boolean b' =>
        cases hv
        exact ⟨_, rfl, .logToFile b, by simp [overwrite, only, Value.boolean?]⟩
      | string | float | integer => cases hv
    · simp [set.unknownKey, invalid] at h
    · simp [invalid] at h
  · rintro ⟨v, rfl, hdocumented, rfl⟩
    cases hdocumented with
    | tolerance hv =>
      simp [set, expect, single, bind, Except.bind, hv, Except.map, overwrite, only]
    | maxIterations n =>
      have hn : count? (.integer n) = some n := count?_eq_some_iff.mpr rfl
      simp [set, expect, single, bind, Except.bind, hn, Except.map, overwrite, only]
    | epsilon hv => simp [set, expect, single, bind, Except.bind, hv, Except.map, overwrite, only]
    | logLevel v => simp [set, single, Except.map, overwrite, only]
    | logToFile b =>
      simp [set, expect, single, bind, Except.bind, Value.boolean?, Except.map, overwrite, only]

def valueAt : List (String × String × List Value) → String → String → Option Value
  | [], _, _ => none
  | (title, key, values) :: entries, title', key' =>
    if title = title' ∧ key = key' then values.head? else valueAt entries title' key'

theorem valueAt_eq_none (h : ∀ values, (title, key, values) ∉ entries) :
    valueAt entries title key = none := by
  induction entries with
  | nil => rfl
  | cons e entries ih =>
    obtain ⟨title', key', values⟩ := e
    have hne : ¬ (title' = title ∧ key' = key) := by
      rintro ⟨rfl, rfl⟩
      exact h values List.mem_cons_self
    rw [valueAt, if_neg hne]
    exact ih fun values hmem => h values (List.mem_cons_of_mem _ hmem)

theorem valueAt_of_mem (hdistinct : Document.DistinctKeys entries)
    (h : (title, key, values) ∈ entries) : valueAt entries title key = values.head? := by
  induction entries with
  | nil => cases h
  | cons e entries ih =>
    obtain ⟨hfresh, hrest⟩ := List.nodup_cons.mp hdistinct
    rcases List.mem_cons.mp h with rfl | h
    · simp [valueAt]
    · have hne : ¬ (e.1 = title ∧ e.2.1 = key) := by
        rintro ⟨rfl, rfl⟩
        exact hfresh (List.mem_map.mpr ⟨_, h, rfl⟩)
      rw [valueAt, if_neg hne]
      exact ih hrest h

theorem foldlM_set_eq_ok_iff (hdistinct : Document.DistinctKeys entries) (s c : Settings) :
    entries.foldlM (fun s e => s.set e.1 e.2.1 e.2.2) s = .ok c ↔
      (∀ e ∈ entries, ∃ v, e.2.2 = [v] ∧ Documented e.1 e.2.1 v) ∧
        c = s.overwrite (valueAt entries) := by
  induction entries generalizing s with
  | nil => simp [valueAt, overwrite, pure, Except.pure, eq_comm]
  | cons e entries ih =>
    obtain ⟨title, key, values⟩ := e
    obtain ⟨hfresh, hrest⟩ := List.nodup_cons.mp hdistinct
    have hnone : valueAt entries title key = none :=
      valueAt_eq_none fun values' hmem => hfresh (List.mem_map.mpr ⟨_, hmem, rfl⟩)
    -- No key stands twice, so what is set first stays.
    have hcombine : ∀ v, values = [v] → (s.overwrite (only title key v)).overwrite
        (valueAt entries) = s.overwrite (valueAt ((title, key, values) :: entries)) := by
      rintro v rfl
      rw [overwrite_overwrite]
      · congr
        funext title' key'
        by_cases hkey : title = title' ∧ key = key' <;> simp [only, valueAt, hkey]
      · intro title' key'
        by_cases hkey : title = title' ∧ key = key'
        · obtain ⟨rfl, rfl⟩ := hkey
          exact .inr hnone
        · exact .inl (if_neg hkey)
    rw [List.foldlM_cons, List.forall_mem_cons]
    constructor
    · intro h
      cases hset : s.set title key values with
      | error e => simp [hset, bind, Except.bind] at h
      | ok s' =>
        simp only [hset, bind, Except.bind] at h
        obtain ⟨v, hv, hdocumented, rfl⟩ := set_eq_ok_iff.mp hset
        obtain ⟨hall, rfl⟩ := (ih hrest _).mp h
        exact ⟨⟨⟨v, hv, hdocumented⟩, hall⟩, hcombine v hv⟩
    · rintro ⟨⟨⟨v, hv, hdocumented⟩, hall⟩, rfl⟩
      have hset : s.set title key values = .ok (s.overwrite (only title key v)) :=
        set_eq_ok_iff.mpr ⟨v, hv, hdocumented, rfl⟩
      simp only [hset, bind, Except.bind]
      exact (ih hrest _).mpr ⟨hall, (hcombine v hv).symm⟩

theorem ofDocument_eq_ok_iff {d : Document} (hdistinct : Document.DistinctKeys d.entries) :
    ofDocument d = .ok c ↔
      (∀ e ∈ d.entries, ∃ v, e.2.2 = [v] ∧ Documented e.1 e.2.1 v) ∧
        c = overwrite {} (valueAt d.entries) ∧ c.validate = .ok () := by
  have hdocument : ofDocument d =
      (d.entries.foldlM (fun s e => s.set e.1 e.2.1 e.2.2) {} >>= fun s =>
        s.validate >>= fun _ => .ok s) := rfl
  rw [hdocument, ← and_assoc, ← foldlM_set_eq_ok_iff hdistinct]
  cases d.entries.foldlM (fun s e => s.set e.1 e.2.1 e.2.2) ({} : Settings) with
  | error e => simp [bind, Except.bind]
  | ok s =>
    cases hvalid : s.validate with
    | error e =>
      simp only [bind, Except.bind, hvalid, reduceCtorEq, Except.ok.injEq, false_iff, not_and]
      rintro rfl
      simp [hvalid]
    | ok =>
      simp only [bind, Except.bind, hvalid, Except.ok.injEq, iff_self_and]
      rintro rfl
      exact hvalid

end Settings

section Order

variable {d order : Document} {c : Settings}

def Document.given? (d : Document) (title key : String) : Option Value :=
  (d.find? title key).bind List.head?

/-- Every section is one of the two, and every key is one of its section with one value that it
accepts. -/
def Settings.Accepts (d : Document) : Prop :=
  ∀ title s, (title, s) ∈ d → (title = "solver" ∨ title = "logging") ∧
    ∀ key values, (key, values) ∈ s → ∃ v, values = [v] ∧ Documented title key v

namespace Settings

theorem accepts_iff (h : d.WellFormed) : Accepts d ↔
    ∀ e ∈ d.entries, ∃ v, e.2.2 = [v] ∧ Documented e.1 e.2.1 v := by
  constructor
  · rintro haccepts ⟨title, key, values⟩ he
    obtain ⟨s, hs, hpair⟩ := Document.mem_entries.mp he
    exact (haccepts title s hs).2 key values hpair
  · intro hall title s hs
    have hkeys : ∀ key values, (key, values) ∈ s →
        ∃ v, values = [v] ∧ Documented title key v :=
      fun key values hpair => hall _ (Document.mem_entries.mpr ⟨s, hs, hpair⟩)
    refine ⟨?_, hkeys⟩
    -- A section that was read has a key, and that is known in one of the two sections only.
    obtain ⟨⟨key, values⟩, hpair⟩ := List.exists_mem_of_ne_nil s (h.sections _ hs).2
    obtain ⟨v, -, hdocumented⟩ := hkeys key values hpair
    cases hdocumented <;> simp

theorem valueAt_entries (h : d.WellFormed) (harranges : d.Arranges order) :
    valueAt order.entries = d.given? := by
  have hperm := harranges.perm_entries
  have hdistinct : Document.DistinctKeys order.entries :=
    (hperm.map _).nodup_iff.mp h.distinctKeys
  funext title key
  have hmem : ∀ values, d.find? title key = some values ↔
      (title, key, values) ∈ order.entries := fun values => by
    rw [h.find?_eq_some_iff, ← Document.mem_entries, hperm.mem_iff]
  rw [Document.given?]
  cases hfind : d.find? title key with
  | none => exact valueAt_eq_none fun values hvalues => by simp [(hmem values).mpr hvalues] at hfind
  | some values => exact valueAt_of_mem hdistinct ((hmem values).mp hfind)

theorem ofDocument_arranged (h : d.WellFormed) (harranges : d.Arranges order) :
    ofDocument order = .ok c ↔
      Accepts d ∧ c = overwrite {} d.given? ∧ c.validate = .ok () := by
  have hperm := harranges.perm_entries
  rw [ofDocument_eq_ok_iff ((hperm.map _).nodup_iff.mp h.distinctKeys), accepts_iff h,
    valueAt_entries h harranges]
  refine and_congr_left fun _ => ?_
  simp only [hperm.mem_iff]

/-- A document that was read gives settings in every order of its titles and keys or in none, and
these are then the usual ones overwritten by the values of the document. -/
theorem ofDocument_any_order {text : List Char} {order' : Document}
    (hparse : Document.parse text = .ok d) (h : d.Arranges order) (h' : d.Arranges order') :
    (∀ c, ofDocument order = .ok c ↔
      Accepts d ∧ c = overwrite {} d.given? ∧ c.validate = .ok ()) ∧
    (∀ c, ofDocument order = .ok c ↔ ofDocument order' = .ok c) ∧
    ((∃ e, ofDocument order = .error e) ↔ ∃ e, ofDocument order' = .error e) := by
  have hd := Document.wellFormed_of_parse hparse
  have hok : ∀ c, ofDocument order = .ok c ↔ ofDocument order' = .ok c := fun c =>
    (ofDocument_arranged hd h).trans (ofDocument_arranged hd h').symm
  refine ⟨fun c => ofDocument_arranged hd h, hok, ?_⟩
  cases horder : ofDocument order with
  | ok c => simp [(hok c).mp horder]
  | error e =>
    cases horder' : ofDocument order' with
    | ok c => cases horder.symm.trans ((hok c).mpr horder')
    | error e' => simp

theorem ofDocument_sections_swapped : ∃ (d : Document) (c : Settings),
    Document.parse "solver max_iterations: 7\nlogging log_to_file: true".toList = .ok d ∧
      d.reverse.map Prod.fst = ["logging", "solver"] ∧ d.Arranges d.reverse ∧
      ofDocument d = .ok c ∧ ofDocument d.reverse = .ok c ∧ c.maxIterations = 7 := by
  have hread : ((Document.parse
      "solver max_iterations: 7\nlogging log_to_file: true".toList).toOption.bind fun d =>
        (ofDocument d).toOption.map fun c => (d.reverse.map Prod.fst, c.maxIterations)) =
      some (["logging", "solver"], 7) := by
    decide +kernel
  cases hparse : Document.parse
      "solver max_iterations: 7\nlogging log_to_file: true".toList with
  | error e =>
    rw [hparse] at hread
    cases hread
  | ok d =>
    rw [hparse] at hread
    change ((ofDocument d).toOption.map _) = _ at hread
    cases hc : ofDocument d with
    | error e =>
      rw [hc] at hread
      cases hread
    | ok c =>
      rw [hc] at hread
      obtain ⟨htitles, hmax⟩ := Prod.mk.inj (Option.some.inj hread)
      have hswapped : d.Arranges d.reverse :=
        ⟨d, List.forall₂_same.mpr fun _ _ => ⟨rfl, .refl _⟩, (List.reverse_perm d).symm⟩
      obtain ⟨-, horder, -⟩ := ofDocument_any_order hparse (.refl d) hswapped
      exact ⟨d, c, rfl, htitles, hswapped, hc, (horder c).mp hc, hmax⟩

end Settings

end Order

end Univariate
