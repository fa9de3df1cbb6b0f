import Engagement.Json.Reader
import Engagement.Settings.Basic
import Engagement.Settings.Entry

/-! # Loading settings

Settings come from a document and from named variables, which count more. The name of a variable
spells out the path of its field, and its value is plain text whose kind is guessed: a flag, a
whole number, any other number, or else a list with commas.
-/

namespace Engagement

namespace Settings

open Entry (lowered)

/-! ## Plain text -/

/-- Splits a list of characters at the first for which `p` holds. -/
def splitAtFirst (p : Char → Bool) (cs : List Char) : List Char × Option (List Char) :=
  match cs.dropWhile (!p ·) with
  | [] => (cs, none)
  | _ :: rest => (cs.takeWhile (!p ·), some rest)

/-- A decimal with a large exponent is zero or infinite; otherwise it is rounded to nearest. -/
def realOfDecimal (negative : Bool) (digits : List Char) (exponent : Int) : Quantity :=
  let n : Nat := digits.foldl (fun n c => n * 10 + (c.toNat - '0'.toNat)) 0
  let size : Int := (Nat.toDigits 10 n).length + exponent
  if n = 0 ∨ size < -400 then .finite (.zero negative)
  else if 400 < size then .infinite negative
  else
    let (num, den) := if 0 ≤ exponent then (n * tenTo exponent.toNat, 1)
      else (n, tenTo (-exponent).toNat)
    ((Binary64.ofRatio? negative (num * Binary64.one) den).map Quantity.finite).getD
      (.infinite negative)

/-- Digits with at most one point and at most one exponent. -/
def unsignedReal? (negative : Bool) (cs : List Char) : Option Quantity := do
  let (mantissa, exponent) := splitAtFirst (fun c => c = 'e' || c = 'E') cs
  let (whole, fraction) := splitAtFirst (· = '.') mantissa
  let fraction := fraction.getD []
  let digits := whole ++ fraction
  if digits.isEmpty || digits.any (fun c => !c.isDigit) then none
  else
    let shift ← match exponent with
      | none => some 0
      | some e => Entry.wholeOf? ['+', '-'] e
    some (realOfDecimal negative digits (shift - fraction.length))

def realOf? (cs : List Char) : Option Quantity :=
  let (negative, rest) := match cs with
    | '-' :: rest => (true, rest)
    | '+' :: rest => (false, rest)
    | _ => (false, cs)
  let word := lowered (String.ofList rest)
  if word = "inf" ∨ word = "infinity" then some (.infinite negative)
  else if word = "nan" then some .undefined
  else unsignedReal? negative rest

/-- Guesses what a plain text stands for. -/
def ofPlain (s : String) : Entry :=
  let word := lowered s
  if word = "true" then .flag true
  else if word = "false" then .flag false
  else match (Entry.wholeOf? ['+', '-'] s.toList).filter
      (fun n => decide (-(twoTo 63 : Int) ≤ n ∧ n < twoTo 63)) with
    | some n => .whole n
    | none =>
      match realOf? s.toList with
      | some x => .real x
      | none => .list ((s.splitOn ",").map .text)

/-! ## Names -/

/-- What the names of variables start with. -/
def leadingName : String := "journey_engine__"

def isNameChar (c : Char) : Bool := c.isAlphanum || c = '_' || c = '-'

/-- The path that a dotted name spells out, or the name itself where it spells out none. -/
def pathOf (name : String) : List String :=
  let parts := name.splitOn "."
  if parts.all fun part => !part.isEmpty && part.toList.all isNameChar then parts else [name]

/-- The path of the field that a variable sets. -/
def variablePath? (name : String) : Option (List String) :=
  let name := lowered name
  if leadingName.toList.isPrefixOf name.toList then
    let rest := String.ofList (name.toList.drop leadingName.length)
    some (pathOf (".".intercalate (rest.splitOn "__")))
  else none

/-- The variables that set a field, as they are usually written. -/
def variableNames : List String :=
  let upper (s : String) := String.ofList (s.toList.map Char.toUpper)
  (["node_id", "store__path"] ++ EngineSettings.fieldNames.map ("journey__" ++ ·)).map
    fun name => upper (leadingName ++ name)

/-! ## Sources -/

/-- The fields that a document sets. It has to be an object. -/
def ofDocument? (text : String) : Option (List (String × Entry)) :=
  match (Json.read? text).map Json.canonical with
  | some (.object fields) =>
    some ((Entry.ofFields fields).foldl (fun all (name, value) =>
      Entry.overlayAt value (pathOf name) all) [])
  | _ => none

/-- Lays variables over the fields set before. -/
def overlayVariables (bindings : List (String × String)) (fields : List (String × Entry)) :
    List (String × Entry) :=
  bindings.foldl (fun fields (name, value) =>
    match variablePath? name with
    | some path => Entry.overlayAt (ofPlain value) path fields
    | none => fields) fields

/-! ## Records -/

/-- Reads a field, or takes the default if it is left out. -/
def read? {α : Type} (member : String → Option Entry) (decode : Entry → Option α) (name : String)
    (default : α) : Option α :=
  match member name with
  | some entry => decode entry
  | none => some default

def engineOf? (entry : Entry) : Option EngineSettings := do
  let member ← entry.member? EngineSettings.fieldNames
  EngineSettings.build? (read? member Entry.asFlag?)
    (fun bound => read? member fun e => e.asWord?.filter (decide <| · < bound))

def storePathOf? (entry : Entry) : Option String := do
  let member ← entry.member? ["path"]
  read? member Entry.asText? "path" default.storePath

def ofEntry? (entry : Entry) : Option Settings := do
  let member ← entry.member? ["node_id", "journey", "store"]
  some ⟨← read? member Entry.asText? "node_id" default.nodeId,
    ← read? member engineOf? "journey" default.engine,
    ← read? member storePathOf? "store" default.storePath⟩

/-- The settings of a document, if there is one, and of variables. -/
def load? (document : Option String) (bindings : List (String × String)) : Option Settings := do
  let fields ← match document with
    | some text => ofDocument? text
    | none => some []
  ofEntry? (.table (overlayVariables bindings fields))

end Settings

end Engagement
