import Univariate.Document.Value

namespace Univariate

abbrev Section := List (String × List Value)

abbrev Document := List (String × Section)

namespace Document

def update {α : Type} (key : String) (default : α) (change : α → α) :
    List (String × α) → List (String × α)
  | [] => [(key, change default)]
  | (k, v) :: entries =>
    if k = key then (k, change v) :: entries else (k, v) :: update key default change entries

def setAll (pairs : List (String × List Value)) (s : Section) : Section :=
  pairs.foldl (fun s (key, values) => update key [] (fun _ => values) s) s

/-- The document with these sections; those of one title are one section. -/
def ofSections (sections : List (String × List (String × List Value))) : Document :=
  sections.foldl (fun d (title, pairs) => update title [] (setAll pairs) d) []

end Document

end Univariate
