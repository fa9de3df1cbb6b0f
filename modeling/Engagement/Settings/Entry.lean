import Engagement.Decimal
import Engagement.Json.Record

/-! # Entries

The values that settings are read from, whether they were written in a document or as plain text.
Scalars convert into each other: a flag may be written as a number or a word, a number as a text,
a text as any scalar.
-/

namespace Engagement

/-- A floating-point value, which plain text may also give as infinite or undefined. -/
inductive Quantity where
  | finite (value : Binary64)
  | infinite (negative : Bool)
  | undefined

namespace Quantity

def isZero : Quantity → Bool
  | .finite x => x.magnitude = 0
  | _ => false

/-- The nearest whole number, a half going up, cut off at the ends of 64-bit words. -/
def toWord : Quantity → Nat
  | .finite x =>
    if x.negative then 0
    else min ((2 * x.magnitude + Binary64.one) / (2 * Binary64.one)) (twoTo 64 - 1)
  | .infinite negative => if negative then 0 else twoTo 64 - 1
  | .undefined => 0

def text : Quantity → String
  | .finite x => x.message
  | .infinite negative => if negative then "-inf" else "inf"
  | .undefined => "NaN"

end Quantity

inductive Entry where
  | nothing
  | flag (value : Bool)
  | whole (value : Int)
  | real (value : Quantity)
  | text (value : String)
  | list (items : List Entry)
  | table (fields : List (String × Entry))

namespace Entry

instance : Inhabited Entry := ⟨.nothing⟩

/-- A number of a document; one beyond 64-bit integers is floating-point. -/
def ofNumber : Number → Entry
  | .int n =>
    if -(twoTo 63 : Int) ≤ n ∧ n < twoTo 63 then .whole n
    else .real (((Binary64.ofInt? n).map Quantity.finite).getD (.infinite (n < 0)))
  | .float x => .real (.finite x)

mutual

def ofJson : Json → Entry
  | .null => .nothing
  | .bool b => .flag b
  | .number n => ofNumber n
  | .string s => .text s
  | .array items => .list (ofItems items)
  | .object fields => .table (ofFields fields)

def ofItems : List Json → List Entry
  | [] => []
  | j :: rest => ofJson j :: ofItems rest

def ofFields : List (String × Json) → List (String × Entry)
  | [] => []
  | (name, j) :: rest => (name, ofJson j) :: ofFields rest

end

/-! ## Reading scalars -/

def lowered (s : String) : String := String.ofList (s.toList.map Char.toLower)

/-- Words for a flag. -/
def trueWords : List String := ["true", "on", "yes"]
def falseWords : List String := ["false", "off", "no"]

/-- A whole number in digits, after a sign if `signs` has it. -/
def wholeOf? (signs : List Char) (cs : List Char) : Option Int :=
  let (negative, digits) := match cs with
    | c :: rest => if signs.contains c then (c == '-', rest) else (false, cs)
    | [] => (false, [])
  if digits.isEmpty || digits.any (fun c => !c.isDigit) then none
  else
    let n : Nat := digits.foldl (fun n c => n * 10 + (c.toNat - '0'.toNat)) 0
    some (if negative then -(n : Int) else n)

def asFlag? : Entry → Option Bool
  | .flag b => some b
  | .whole n => some (n ≠ 0)
  | .real x => some (!x.isZero)
  | .text s =>
    let word := lowered s
    if (("1" :: trueWords).contains word) then some true
    else if (("0" :: falseWords).contains word) then some false
    else none
  | _ => none

/-- A 64-bit word. -/
def asWord? : Entry → Option Nat
  | .flag b => some (if b then 1 else 0)
  | .whole n => if 0 ≤ n then some n.toNat else none
  | .real x => some x.toWord
  | .text s =>
    if trueWords.contains (lowered s) then some 1
    else if falseWords.contains (lowered s) then some 0
    else do
      let n ← wholeOf? ['+'] s.toList
      if n < twoTo 64 then some n.toNat else none
  | _ => none

def asText? : Entry → Option String
  | .flag b => some (if b then "true" else "false")
  | .whole n => some (toString n)
  | .real x => some x.text
  | .text s => some s
  | _ => none

/-! ## Reading records -/

/-- Looks fields up in a table by name, or in a list by their place among `names`. -/
def member? (names : List String) : Entry → Option (String → Option Entry)
  | .table fields => some fun name => (fields.find? (·.1 = name)).map (·.2)
  | .list items => some fun name => items[names.idxOf name]?
  | _ => none

/-! ## Laying entries over each other -/

/-- The fields of a table, none of another entry. -/
def fieldsOf : Entry → List (String × Entry)
  | .table fields => fields
  | _ => []

def setField (name : String) (value : Entry) : List (String × Entry) → List (String × Entry)
  | [] => [(name, value)]
  | (known, old) :: rest =>
    if known = name then (known, value) :: rest else (known, old) :: setField name value rest

def fieldIn (fields : List (String × Entry)) (name : String) : Option Entry :=
  (fields.find? (·.1 = name)).map (·.2)

mutual

/-- What becomes of `base` when `top` is laid over it: tables are joined field by field, and
another entry takes the place of what was there. -/
def overlay (base : Option Entry) : Entry → Entry
  | .table [] => base.getD (.table [])
  | .table (field :: rest) => .table (overlayFields ((base.map fieldsOf).getD []) (field :: rest))
  | .nothing => .nothing
  | .flag b => .flag b
  | .whole n => .whole n
  | .real x => .real x
  | .text s => .text s
  | .list items => .list items

def overlayFields (base : List (String × Entry)) : List (String × Entry) → List (String × Entry)
  | [] => base
  | (name, value) :: rest =>
    overlayFields (setField name (overlay (fieldIn base name) value) base) rest

end

/-- Lays an entry over the field at the end of a path. What stands in the way becomes a table. -/
def overlayAt (value : Entry) : List String → List (String × Entry) → List (String × Entry)
  | [], fields => fields
  | [name], fields => setField name (overlay (fieldIn fields name) value) fields
  | name :: path, fields =>
    let inner := ((fieldIn fields name).map fieldsOf).getD []
    setField name (.table (overlayAt value path inner)) fields

end Entry

end Engagement
