/-! # Paths of documents

The last name in a path is that of the document. Slashes after it ask for a folder. A document has a
sibling in its folder, which differs from it in the extension of the name.
-/

namespace Engagement

namespace Path

/-- A path that is read backwards, from its last name on. What follows the name are slashes, and dots
between them that stand for the folder itself. -/
def trim : List Char → List Char
  | '/' :: rest => trim rest
  | '.' :: '/' :: rest => trim rest
  | path => path

/-- A path without what follows its last name, read backwards. -/
def backwards (path : String) : List Char := trim path.toList.reverse

/-- The last name of a path, read backwards. -/
def name (path : String) : List Char := (backwards path).takeWhile (· ≠ '/')

/-- The path without what follows its last name. -/
def place (path : String) : String := String.ofList (backwards path).reverse

/-- Whether the last name can be that of a file. -/
def isNamed (path : String) : Bool := !([[], ['.'], ['.', '.']].contains (name path))

/-- Whether the last name can be that of a file, and nothing follows it. -/
def namesFile (path : String) : Bool := isNamed path && place path = path

/-- A name without its extension, both read backwards. A dot in front is part of the name. -/
def stem (name : List Char) : List Char :=
  match name.dropWhile (· ≠ '.') with
  | [] | ['.'] => name
  | _ :: rest => rest

/-- The path with another extension, for what is written before it takes the place of a document. A
path without a last name is its own sibling. -/
def sibling (path : String) : String :=
  if isNamed path then
    let folder := (backwards path).drop (name path).length
    String.ofList (['p', 'm', 't', '.'] ++ stem (name path) ++ folder).reverse
  else path

theorem place_of_namesFile {path : String} (h : namesFile path = true) : place path = path := by
  simp only [namesFile, Bool.and_eq_true, decide_eq_true_eq] at h
  exact h.2

theorem namesFile_ofList (rest : List Char) :
    namesFile (String.ofList ('p' :: rest).reverse) = true := by
  have same : backwards (String.ofList ('p' :: rest).reverse) = 'p' :: rest := by
    simp [backwards, trim]
  unfold namesFile isNamed name place
  rw [same]
  simp

theorem namesFile_sibling {path : String} (h : isNamed path = true) :
    namesFile (sibling path) = true := by
  rw [sibling, if_pos h]
  exact namesFile_ofList _

example : sibling "state/journeys.json" = "state/journeys.tmp" := by decide +kernel

end Path

end Engagement
