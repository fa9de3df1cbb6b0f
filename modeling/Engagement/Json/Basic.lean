import Engagement.Binary64

/-! # Data values

A number keeps the kind it was written in, so `1` and `1.0` are different values. An object is a
list of fields; in canonical form the names are distinct and ascending.
-/

namespace Engagement

inductive Number where
  | int (value : Int)
  | float (value : Binary64)
  deriving DecidableEq

namespace Number

/-- The number's value after conversion to binary64, in units. -/
def units : Number → Int
  | .int n => Binary64.unitsOfInt n
  | .float x => x.units

/-- Equality within a kind, where the two zeros agree. -/
def same : Number → Number → Bool
  | .int m, .int n => m == n
  | .float x, .float y => x.units == y.units
  | _, _ => false

end Number

inductive Json where
  | null
  | bool (value : Bool)
  | number (value : Number)
  | string (text : String)
  | array (items : List Json)
  | object (fields : List (String × Json))

namespace Json

instance : Inhabited Json := ⟨.null⟩

abbrev Fields := List (String × Json)

def int (n : Int) : Json := .number (.int n)
def nat (n : Nat) : Json := .number (.int n)
def float (x : Binary64) : Json := .number (.float x)

def ofOption {α : Type} (encode : α → Json) : Option α → Json
  | none => .null
  | some a => encode a

mutual

/-- Strict equality: numbers of different kinds differ. -/
def same : Json → Json → Bool
  | .null, .null => true
  | .bool a, .bool b => a == b
  | .number a, .number b => a.same b
  | .string a, .string b => a == b
  | .array xs, .array ys => sameItems xs ys
  | .object xs, .object ys => sameFields xs ys
  | _, _ => false

def sameItems : List Json → List Json → Bool
  | [], [] => true
  | x :: xs, y :: ys => same x y && sameItems xs ys
  | _, _ => false

def sameFields : List (String × Json) → List (String × Json) → Bool
  | [], [] => true
  | (k, x) :: xs, (l, y) :: ys => k == l && same x y && sameFields xs ys
  | _, _ => false

end

namespace Fields

def get? (fields : Fields) (name : String) : Option Json :=
  (fields.find? (·.1 == name)).map (·.2)

/-- Sets a field of a canonical list, which stays canonical. -/
def insert : Fields → String → Json → Fields
  | [], name, value => [(name, value)]
  | (k, v) :: rest, name, value =>
    if name < k then (name, value) :: (k, v) :: rest
    else if name = k then (name, value) :: rest
    else (k, v) :: insert rest name value

/-- The canonical list of the same fields, where the last of a repeated name counts. -/
def canonical (fields : Fields) : Fields :=
  fields.foldl (fun acc f => insert acc f.1 f.2) []

end Fields

mutual

/-- The value with every object in canonical form. -/
def canonical : Json → Json
  | .array items => .array (canonicalItems items)
  | .object fields => .object (Fields.canonical (canonicalFields fields))
  | .null => .null
  | .bool b => .bool b
  | .number n => .number n
  | .string s => .string s

def canonicalItems : List Json → List Json
  | [] => []
  | x :: xs => canonical x :: canonicalItems xs

def canonicalFields : List (String × Json) → List (String × Json)
  | [] => []
  | (k, x) :: xs => (k, canonical x) :: canonicalFields xs

end

mutual

/-- How deeply containers are nested. -/
def depth : Json → Nat
  | .array items => depthOfItems items + 1
  | .object fields => depthOfFields fields + 1
  | _ => 0

def depthOfItems : List Json → Nat
  | [] => 0
  | x :: xs => max (depth x) (depthOfItems xs)

def depthOfFields : List (String × Json) → Nat
  | [] => 0
  | (_, x) :: xs => max (depth x) (depthOfFields xs)

end

/-- An object of the given fields, in canonical order. -/
def record (fields : List (String × Json)) : Json := .object (Fields.canonical fields)

end Json

end Engagement
