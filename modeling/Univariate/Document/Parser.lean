import Univariate.Document.Basic
import Univariate.Text.Blank
import Univariate.Text.Lines
import Univariate.Text.Quoted

/-!
# Reading task documents

    document := section+
    section  := title pair+
    pair     := key ':' value (',' value)*

A repetition ends where its next member cannot be read. Only the first section and its first
pair have to be there.
-/

namespace Univariate.Document

inductive Missing where
  | tag
  | value
  deriving DecidableEq, Repr

structure Failure where
  missing : Missing
  rest : List Char
  deriving DecidableEq, Repr

def Failure.message (f : Failure) : String :=
  let code := match f.missing with
    | .tag => "Tag"
    | .value => "TakeWhile1"
  "Error(Error \x7b input: " ++ String.ofList (Text.quoted f.rest) ++ ", code: " ++ code ++ " \x7d)"

def isIdentifierStart (c : Char) : Bool := c.isAlpha || c == '_'

def isIdentifierPart (c : Char) : Bool := c.isAlphanum || c == '_'

def identifier : List Char → Except Failure (String × List Char)
  | c :: cs =>
    if isIdentifierStart c then
      .ok (String.ofList (c :: cs.takeWhile isIdentifierPart), cs.dropWhile isIdentifierPart)
    else .error ⟨.tag, c :: cs⟩
  | [] => .error ⟨.tag, []⟩

def isSpace (c : Char) : Bool := c == ' ' || c == '\t'

def dropSpaces (cs : List Char) : List Char := cs.dropWhile isSpace

def dropGaps (cs : List Char) : List Char := cs.dropWhile Text.isGap

def isValuePart (c : Char) : Bool := !(Text.isGap c || c == ',' || c == ';')

def value? (cs : List Char) : Option (Value × List Char) :=
  let word := cs.takeWhile isValuePart
  if word.isEmpty then none else some (.ofWord word, cs.dropWhile isValuePart)

theorem length_le_of_value? {cs rest : List Char} {v : Value} (h : value? cs = some (v, rest)) :
    rest.length ≤ cs.length := by
  simp only [value?] at h
  split at h
  · simp at h
  · simp only [Option.some.injEq, Prod.mk.injEq] at h
    rw [← h.2]
    exact Text.length_dropWhile_le isValuePart cs

theorem length_lt_of_identifier {cs rest : List Char} {s : String}
    (h : identifier cs = .ok (s, rest)) : rest.length < cs.length := by
  cases cs with
  | nil => simp [identifier] at h
  | cons c cs =>
    have hle := Text.length_dropWhile_le isIdentifierPart cs
    simp only [identifier] at h
    split at h
    · simp only [Except.ok.injEq, Prod.mk.injEq] at h
      rw [← h.2, List.length_cons]
      omega
    · simp at h

theorem length_lt_of_comma {cs after rest : List Char} {v : Value}
    (h : dropSpaces cs = ',' :: after) (hv : value? (dropSpaces after) = some (v, rest)) :
    rest.length < cs.length := by
  have h1 := length_le_of_value? hv
  have h2 := Text.length_dropWhile_le isSpace after
  have h3 := Text.length_dropWhile_le isSpace cs
  have h4 := congrArg List.length h
  simp only [dropSpaces, List.length_cons] at *
  omega

def moreValues (cs : List Char) : List Value × List Char :=
  match h : dropSpaces cs with
  | ',' :: after =>
    match hv : value? (dropSpaces after) with
    | some (v, rest) =>
      have : rest.length < cs.length := length_lt_of_comma h hv
      let (vs, rest) := moreValues rest
      (v :: vs, rest)
    | none => ([], cs)
  | _ => ([], cs)
termination_by cs.length

theorem length_moreValues_le (cs : List Char) : (moreValues cs).2.length ≤ cs.length := by
  fun_induction moreValues cs with
  | case1 =>
    simp_all
    omega
  | case2 => simp
  | case3 => simp

def values (cs : List Char) : Except Failure (List Value × List Char) :=
  let cs := dropGaps cs
  match value? cs with
  | none => .error ⟨.value, cs⟩
  | some (v, rest) =>
    let (vs, rest) := moreValues rest
    .ok (v :: vs, rest)

def pair (cs : List Char) : Except Failure ((String × List Value) × List Char) :=
  match identifier cs with
  | .error f => .error f
  | .ok (key, rest) =>
    match dropSpaces rest with
    | ':' :: rest =>
      match values (dropSpaces rest) with
      | .error f => .error f
      | .ok (vs, rest) => .ok ((key, vs), dropSpaces (Text.trimStart rest))
    | rest => .error ⟨.tag, rest⟩

theorem length_le_of_values {cs rest : List Char} {vs : List Value}
    (h : values cs = .ok (vs, rest)) : rest.length ≤ cs.length := by
  have h0 := Text.length_dropWhile_le Text.isGap cs
  simp only [values, dropGaps] at h
  split at h
  · simp at h
  · rename_i v r hv
    have h1 := length_le_of_value? hv
    have h2 := length_moreValues_le r
    simp only [Except.ok.injEq, Prod.mk.injEq] at h
    rw [← h.2]
    omega

theorem length_lt_of_pair {cs rest : List Char} {p : String × List Value}
    (h : pair cs = .ok (p, rest)) : rest.length < cs.length := by
  simp only [pair] at h
  split at h
  · simp at h
  · rename_i key r hi
    have h1 := length_lt_of_identifier hi
    have h2 := Text.length_dropWhile_le isSpace r
    split at h
    · rename_i r' hr
      have h3 := congrArg List.length hr
      have h4 := Text.length_dropWhile_le isSpace r'
      split at h
      · simp at h
      · rename_i vs r'' hv
        have h5 := length_le_of_values hv
        have h6 := Text.length_dropWhile_le Text.isBlank r''
        have h7 := Text.length_dropWhile_le isSpace (Text.trimStart r'')
        simp only [Except.ok.injEq, Prod.mk.injEq] at h
        rw [← h.2]
        simp only [dropSpaces, Text.trimStart, List.length_cons] at *
        omega
    · simp at h

def pairs (cs : List Char) : List (String × List Value) × List Char :=
  match h : pair cs with
  | .error _ => ([], cs)
  | .ok (p, rest) =>
    have := length_lt_of_pair h
    let (ps, rest) := pairs rest
    (p :: ps, rest)
termination_by cs.length

theorem length_pairs_le (cs : List Char) : (pairs cs).2.length ≤ cs.length := by
  fun_induction pairs cs with
  | case1 => simp
  | case2 cs p rest h _ _ ih1 ih2 =>
    have := length_lt_of_pair h
    simp_all
    omega

def block (cs : List Char) :
    Except Failure ((String × List (String × List Value)) × List Char) :=
  match identifier (dropGaps cs) with
  | .error f => .error f
  | .ok (title, rest) =>
    match pair (dropGaps (Text.trimStart rest)) with
    | .error f => .error f
    | .ok (p, rest) =>
      let (ps, rest) := pairs rest
      .ok ((title, p :: ps), dropGaps rest)

theorem length_lt_of_block {cs rest : List Char} {b : String × List (String × List Value)}
    (h : block cs = .ok (b, rest)) : rest.length < cs.length := by
  have h0 := Text.length_dropWhile_le Text.isGap cs
  simp only [block] at h
  split at h
  · simp at h
  · rename_i title r hi
    have h1 := length_lt_of_identifier hi
    have h2 := Text.length_dropWhile_le Text.isBlank r
    have h3 := Text.length_dropWhile_le Text.isGap (Text.trimStart r)
    split at h
    · simp at h
    · rename_i p r' hp
      have h4 := length_lt_of_pair hp
      have h5 := length_pairs_le r'
      have h6 := Text.length_dropWhile_le Text.isGap (pairs r').2
      simp only [Except.ok.injEq, Prod.mk.injEq] at h
      rw [← h.2]
      simp only [dropGaps, Text.trimStart] at *
      omega

def blocks (cs : List Char) : List (String × List (String × List Value)) × List Char :=
  match h : block cs with
  | .error _ => ([], cs)
  | .ok (b, rest) =>
    have := length_lt_of_block h
    let (bs, rest) := blocks rest
    (b :: bs, rest)
termination_by cs.length

def read (cs : List Char) : Except Failure (Document × List Char) :=
  match block cs with
  | .error f => .error f
  | .ok (b, rest) =>
    let (bs, rest) := blocks rest
    .ok (ofSections (b :: bs), rest)

def isComment (line : List Char) : Bool :=
  match Text.trim line with
  | [] | '#' :: _ | '%' :: _ | ';' :: _ | '/' :: '/' :: _ => true
  | _ => false

def withoutComments (cs : List Char) : List Char :=
  Text.joined ['\n'] ((Text.lines cs).filter fun line => !isComment line)

inductive Error where
  | failure (f : Failure)
  | remaining (rest : List Char)
  deriving DecidableEq, Repr

def Error.message : Error → String
  | .failure f => "parsing error: " ++ f.message
  | .remaining rest =>
    "failed to parse entire document, remaining: '" ++ String.ofList rest ++ "'"

def parse (text : List Char) : Except Error Document :=
  let cs := withoutComments text
  if cs.all Text.isBlank then .ok []
  else
    match read cs with
    | .error f => .error (.failure f)
    | .ok (document, rest) =>
      if rest.all Text.isBlank then .ok document else .error (.remaining (Text.trim rest))

end Univariate.Document
