import Univariate.Document.Parser
import Univariate.Settings

namespace Univariate.Settings

def invalid {α : Type} (reason : String) : Except SolverError α := .error (.invalidConfig reason)

def single (key : String) : List Value → Except SolverError Value
  | [v] => .ok v
  | vs => invalid ("'" ++ key ++ "' takes exactly one value, got " ++ toString vs.length)

def expect {α : Type} (kind key : String) (accept : Value → Option α) (values : List Value) :
    Except SolverError α := do
  let v ← single key values
  match accept v with
  | some a => .ok a
  | none => invalid ("'" ++ key ++ "' must be " ++ kind ++ ", got '" ++ v.text ++ "'")

def count? (v : Value) : Option Nat :=
  match v.integer? with
  | some (.ofNat n) => some n
  | _ => none

def set (s : Settings) (title key : String) (values : List Value) :
    Except SolverError Settings :=
  if title = "solver" then
    if key = "tolerance" then
      (expect "a number" key Value.float? values).map fun x => { s with tolerance := x }
    else if key = "max_iterations" then
      (expect "a non-negative integer" key count? values).map fun n => { s with maxIterations := n }
    else if key = "epsilon" then
      (expect "a number" key Value.float? values).map fun x => { s with epsilon := x }
    else unknownKey
  else if title = "logging" then
    if key = "loglevel" then
      (single key values).map fun v => { s with logLevel := some v.text }
    else if key = "log_to_file" then
      (expect "true or false" key Value.boolean? values).map fun b => { s with logToFile := b }
    else unknownKey
  else invalid ("unknown section '" ++ title ++ "'")
where
  unknownKey : Except SolverError Settings :=
    invalid ("unknown key '" ++ key ++ "' in section '" ++ title ++ "'")

def ofDocument (document : Document) : Except SolverError Settings := do
  let entries := document.flatMap fun (title, pairs) => pairs.map fun (key, vs) => (title, key, vs)
  let s ← entries.foldlM (fun s (title, key, vs) => Settings.set s title key vs) {}
  s.validate
  return s

def parse (text : List Char) : Except SolverError Settings :=
  match Document.parse text with
  | .error e => .error (.invalidConfig e.message)
  | .ok document => ofDocument document

end Univariate.Settings
