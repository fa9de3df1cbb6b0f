import Engagement.Condition.Basic

/-! # Comparing values

Two numbers compare by their binary64 values, whatever their kinds; any other two values are equal
when they are strictly the same. Order exists between numbers only.
-/

namespace Engagement

namespace Json

/-- The truth of a value: empty, zero and null are false. -/
def truthy : Json → Bool
  | .null => false
  | .bool b => b
  | .number n => n.units ≠ 0
  | .string s => !s.isEmpty
  | .array items => !items.isEmpty
  | .object fields => !fields.isEmpty

def asNumber? : Json → Option Number
  | .number n => some n
  | _ => none

def isNull : Json → Bool
  | .null => true
  | _ => false

/-- How two numbers compare. -/
def numericOrdering? (a b : Json) : Option Ordering := do
  let m ← a.asNumber?
  let n ← b.asNumber?
  some (compare m.units n.units)

/-- Equality as conditions see it: `1` equals `1.0`. -/
def looseEq (a b : Json) : Bool :=
  match numericOrdering? a b with
  | some ordering => ordering == .eq
  | none => a.same b

/-- Whether `part` occurs in a text without a gap. -/
def occursIn (part : List Char) : List Char → Bool
  | [] => part.isEmpty
  | c :: cs => part.isPrefixOf (c :: cs) || occursIn part cs

def memberOf (a list : Json) : Bool :=
  match list with
  | .array items => items.any (looseEq a)
  | _ => false

end Json

namespace Operator

open Json

def numeric (accept : Ordering → Bool) (actual expected : Json) : Bool :=
  match numericOrdering? actual expected with
  | some ordering => accept ordering
  | none => false

/-- A test on two texts. -/
def textual (accept : List Char → List Char → Bool) : Json → Json → Bool
  | .string a, .string b => accept a.toList b.toList
  | _, _ => false

def holds (operator : Operator) (actual expected : Json) : Bool :=
  match operator with
  | .equals => looseEq actual expected
  | .notEquals => !looseEq actual expected
  | .greaterThan => numeric (· == .gt) actual expected
  | .greaterThanOrEqual => numeric (· != .lt) actual expected
  | .lessThan => numeric (· == .lt) actual expected
  | .lessThanOrEqual => numeric (· != .gt) actual expected
  | .contains =>
    match actual with
    | .array items => items.any (same · expected)
    | _ => textual (fun whole part => occursIn part whole) actual expected
  | .startsWith => textual (fun whole part => part.isPrefixOf whole) actual expected
  | .endsWith => textual (fun whole part => part.isSuffixOf whole) actual expected
  | .isSet => !actual.isNull
  | .isNotSet => actual.isNull
  | .inList => memberOf actual expected
  | .notInList => !memberOf actual expected

end Operator

end Engagement
