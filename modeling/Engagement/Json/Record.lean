import Engagement.Json.Basic

/-! # Decoding records and unions

A record is written as an object or as the array of its fields in declaration order. Fields that
are not declared are ignored; a declared field that is written twice spoils the record. A union is
an object with a tag field, or an array that starts with the tag.
-/

namespace Engagement

namespace Json

def asBool? : Json → Option Bool
  | .bool b => some b
  | _ => none

def asString? : Json → Option String
  | .string s => some s
  | _ => none

def asInt? : Json → Option Int
  | .number (.int n) => some n
  | _ => none

/-- A whole number below `bound`. -/
def asNat? (bound : Nat) (j : Json) : Option Nat := do
  let n ← j.asInt?
  if 0 ≤ n ∧ n < bound then some n.toNat else none

def asWord32? : Json → Option Nat := asNat? (twoTo 32)
def asWord64? : Json → Option Nat := asNat? (twoTo 64)

/-- A signed sixty-four-bit integer. -/
def asInteger? (j : Json) : Option Int := do
  let n ← j.asInt?
  if -(twoTo 63 : Int) ≤ n ∧ n < twoTo 63 then some n else none

/-- Any number, as binary64. -/
def asBinary64? : Json → Option Binary64
  | .number (.int n) => Binary64.ofInt? n
  | .number (.float x) => some x
  | _ => none

def asFields? : Json → Option Fields
  | .object fields => some fields
  | _ => none

def asItems? : Json → Option (List Json)
  | .array items => some items
  | _ => none

def asList? {α : Type} (decode : Json → Option α) (j : Json) : Option (List α) :=
  j.asItems?.bind (·.mapM decode)

/-- Null is none. -/
def asOption? {α : Type} (decode : Json → Option α) : Json → Option (Option α)
  | .null => some none
  | j => (decode j).map some

/-- The name of a choice: a text, or an object of that one name with a null. -/
def asName? : Json → Option String
  | .string s => some s
  | .object [(s, .null)] => some s
  | _ => none

namespace Fields

variable {α : Type} (fields : Fields) (name : String)

/-- The text of a field, empty if there is none. -/
def textOf : String := ((get? fields name).bind asString?).getD ""

/-- The items of a list, none if the field is no list. -/
def itemsOf : List Json := ((get? fields name).bind asItems?).getD []

/-- The fields of an object, none if the field is no object. -/
def entriesOf : Fields := ((get? fields name).bind asFields?).getD []

/-- A field that has to be there, or the name of the field that cannot be read. -/
def fieldOf (decode : Json → Option α) : Except String α :=
  (decode ((get? fields name).getD .null)).elim (.error name) .ok

/-- A field or its default, or the name of the field that cannot be read. -/
def fieldOr (default : α) (decode : Json → Option α) : Except String α :=
  match get? fields name with
  | none => .ok default
  | some j => (decode j).elim (.error name) .ok

end Fields

/-- One field of a record: written, left out of an object, or beyond the end of an array. -/
inductive Slot where
  | given (value : Json)
  | absent
  | beyond

/-- A decoded record: its slots by name. -/
abbrev Slots := List (String × Slot)

/-- The slots of a record whose declared fields are `names`. -/
def slots? (names : List String) : Json → Option Slots
  | .object fields =>
    names.mapM fun name =>
      match fields.filter (·.1 == name) with
      | [] => some (name, .absent)
      | [(_, value)] => some (name, .given value)
      | _ => none
  | .array items =>
    if items.length ≤ names.length then
      some (names.zipIdx.map fun (name, i) =>
        (name, match items[i]? with
          | some value => .given value
          | none => .beyond))
    else none
  | _ => none

namespace Slots

variable {α : Type} (slots : Slots) (name : String) (decode : Json → Option α)

def get (slots : Slots) (name : String) : Slot :=
  ((slots.find? (·.1 == name)).map (·.2)).getD .absent

/-- A field that has to be written. -/
def required : Option α :=
  match slots.get name with
  | .given value => decode value
  | _ => none

/-- A field that may be left out. -/
def withDefault (default : α) : Option α :=
  match slots.get name with
  | .given value => decode value
  | _ => some default

/-- An optional field, which an object may leave out and an array may not. -/
def optional : Option (Option α) :=
  match slots.get name with
  | .given value => value.asOption? decode
  | .absent => some none
  | .beyond => none

/-- An optional field that may be left out in both forms. -/
def nullable : Option (Option α) := slots.withDefault name (asOption? decode) none

end Slots

/-- The tag of a union and what is left for its variant. -/
def tagged? (tag : String) : Json → Option (String × Json)
  | .object fields =>
    match fields.filter (·.1 == tag) with
    | [(_, .string s)] => some (s, .object (fields.filter (·.1 != tag)))
    | _ => none
  | .array (.string s :: rest) => some (s, .array rest)
  | _ => none

/-- Whether a variant without fields may have this rest. -/
def isUnit : Json → Bool
  | .object _ => true
  | .array [] => true
  | _ => false

/-- A variant without fields. -/
def unit? {α : Type} (value : α) (rest : Json) : Option α :=
  if rest.isUnit then some value else none

end Json

end Engagement
