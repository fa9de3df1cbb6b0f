import Engagement.Condition.Basic
import Engagement.Json.Record

/-! # Conditions as data

An expression is a union with the tag `op`. An unknown tag is an unsupported operator, whose other
fields are not looked at.
-/

namespace Engagement

open Json (Slots)

namespace FeatureField

def name : FeatureField → String
  | .allowed => "allowed"
  | .unlimited => "unlimited"
  | .balance => "balance"

def all : List FeatureField := [.allowed, .unlimited, .balance]

def decode? (j : Json) : Option FeatureField := do
  let name ← j.asName?
  all.find? (·.name == name)

end FeatureField

namespace Operator

def name : Operator → String
  | .equals => "equals"
  | .notEquals => "not_equals"
  | .greaterThan => "greater_than"
  | .greaterThanOrEqual => "greater_than_or_equal"
  | .lessThan => "less_than"
  | .lessThanOrEqual => "less_than_or_equal"
  | .contains => "contains"
  | .startsWith => "starts_with"
  | .endsWith => "ends_with"
  | .isSet => "is_set"
  | .isNotSet => "is_not_set"
  | .inList => "in_list"
  | .notInList => "not_in_list"

def all : List Operator :=
  [.equals, .notEquals, .greaterThan, .greaterThanOrEqual, .lessThan, .lessThanOrEqual, .contains,
   .startsWith, .endsWith, .isSet, .isNotSet, .inList, .notInList]

def decode? (j : Json) : Option Operator := do
  let name ← j.asName?
  all.find? (·.name == name)

end Operator

namespace Expr

def tagged (op : String) (fields : List (String × Json)) : Json :=
  Json.record (("op", .string op) :: fields)

def windowed (op name : String) (window : Option Nat) : Json :=
  tagged op [("name", .string name), ("within_secs", Json.ofOption .nat window)]

mutual

def encode : Expr → Json
  | .literal value => tagged "literal" [("value", value)]
  | .userProperty key => tagged "user_property" [("key", .string key)]
  | .eventCount name window => windowed "event_count" name window
  | .eventLastTime name window => windowed "event_last_time" name window
  | .eventOccurred name window => windowed "event_occurred" name window
  | .inSegment segment => tagged "in_segment" [("segment_id", .string segment)]
  | .feature id entity field =>
    tagged "feature" [("feature_id", .string id),
      ("entity_id", Json.ofOption .string entity), ("field", .string field.name)]
  | .now => tagged "now" []
  | .compare operator left right =>
    tagged "compare" [("operator", .string operator.name), ("left", encode left),
      ("right", encode right)]
  | .and args => tagged "and" [("args", .array (encodeAll args))]
  | .or args => tagged "or" [("args", .array (encodeAll args))]
  | .not arg => tagged "not" [("arg", encode arg)]
  | .unsupported => tagged "unsupported" []

def encodeAll : List Expr → List Json
  | [] => []
  | e :: es => encode e :: encodeAll es

end

def decodeWindowed? (build : String → Option Nat → Expr) (rest : Json) : Option Expr := do
  let slots ← rest.slots? ["name", "within_secs"]
  some (build (← slots.required "name" Json.asString?)
    (← slots.nullable "within_secs" Json.asWord64?))

/-- Decodes an expression nested at most `depth` deep. -/
def decodeWithin? : Nat → Json → Option Expr
  | 0, _ => none
  | depth + 1, j => do
    let (op, rest) ← j.tagged? "op"
    match op with
    | "literal" => do
      let slots ← rest.slots? ["value"]
      some (.literal (← slots.required "value" some))
    | "user_property" => do
      let slots ← rest.slots? ["key"]
      some (.userProperty (← slots.required "key" Json.asString?))
    | "event_count" => decodeWindowed? .eventCount rest
    | "event_last_time" => decodeWindowed? .eventLastTime rest
    | "event_occurred" => decodeWindowed? .eventOccurred rest
    | "in_segment" => do
      let slots ← rest.slots? ["segment_id"]
      some (.inSegment (← slots.required "segment_id" Json.asString?))
    | "feature" => do
      let slots ← rest.slots? ["feature_id", "entity_id", "field"]
      some (.feature (← slots.required "feature_id" Json.asString?)
        (← slots.nullable "entity_id" Json.asString?)
        (← slots.required "field" FeatureField.decode?))
    | "now" => Json.unit? .now rest
    | "compare" => do
      let slots ← rest.slots? ["operator", "left", "right"]
      some (.compare (← slots.required "operator" Operator.decode?)
        (← slots.required "left" (decodeWithin? depth))
        (← slots.required "right" (decodeWithin? depth)))
    | "and" => do
      let slots ← rest.slots? ["args"]
      some (.and (← slots.required "args" (Json.asList? (decodeWithin? depth))))
    | "or" => do
      let slots ← rest.slots? ["args"]
      some (.or (← slots.required "args" (Json.asList? (decodeWithin? depth))))
    | "not" => do
      let slots ← rest.slots? ["arg"]
      some (.not (← slots.required "arg" (decodeWithin? depth)))
    | _ => Json.unit? .unsupported rest

def decode? (j : Json) : Option Expr := decodeWithin? (j.depth + 1) j

end Expr

namespace Envelope

def encode (env : Envelope) : Json :=
  Json.record [("version", .nat env.version), ("expr", env.expr.encode)]

def decode? (j : Json) : Option Envelope := do
  let slots ← j.slots? ["version", "expr"]
  some ⟨← slots.required "version" Json.asWord32?, ← slots.required "expr" Expr.decode?⟩

/-- Reads an envelope from its data form. -/
def ofJson (j : Json) : Except Misconfiguration Envelope :=
  match decode? j with
  | some env => .ok env
  | none => .error .malformedExpression

end Envelope

end Engagement
