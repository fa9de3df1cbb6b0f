import Engagement.Campaign.Basic
import Engagement.Condition.Codec

/-! # Campaigns as data

Unions carry the tag `type`. A node is always an object: its id, its successors and the fields of
its action stand side by side.
-/

namespace Engagement

open Json (Slots)

def typed (tag : String) (fields : List (String × Json)) : List (String × Json) :=
  ("type", .string tag) :: fields

def encodeTexts (texts : List String) : Json := .array (texts.map .string)

/-- Picks the choice of a name. -/
def choose? {α : Type} (choices : List (String × α)) (j : Json) : Option α := do
  let name ← j.asName?
  (choices.find? (·.1 == name)).map (·.2)

namespace Trigger

def encode : Trigger → Json
  | .event name condition =>
    Json.record (typed "event" [("event_name", .string name),
      ("condition", Json.ofOption Envelope.encode condition)])
  | .segment condition => Json.record (typed "segment" [("condition", condition.encode)])

def decode? (j : Json) : Option Trigger := do
  let (tag, rest) ← j.tagged? "type"
  match tag with
  | "event" => do
    let slots ← rest.slots? ["event_name", "condition"]
    some (.event (← slots.required "event_name" Json.asString?)
      (← slots.nullable "condition" Envelope.decode?))
  | "segment" => do
    let slots ← rest.slots? ["condition"]
    some (.segment (← slots.required "condition" Envelope.decode?))
  | _ => none

end Trigger

namespace WaitPath

def encode (path : WaitPath) : Json :=
  Json.record [("condition", Json.ofOption Envelope.encode path.condition),
    ("max_time_secs", Json.ofOption .nat path.limit), ("next", .string path.next)]

def decode? (j : Json) : Option WaitPath := do
  let slots ← j.slots? ["condition", "max_time_secs", "next"]
  some ⟨← slots.nullable "condition" Envelope.decode?,
    ← slots.nullable "max_time_secs" Json.asWord64?,
    ← slots.required "next" Json.asString?⟩

end WaitPath

namespace Arm

def encode (arm : Arm) : Json :=
  Json.record [("weight", .float arm.weight), ("next", .string arm.next)]

def decode? (j : Json) : Option Arm := do
  let slots ← j.slots? ["weight", "next"]
  some ⟨← slots.required "weight" Json.asBinary64?, ← slots.required "next" Json.asString?⟩

end Arm

namespace Action

/-- The fields of an action, its tag among them. -/
def fields : Action → List (String × Json)
  | .branch condition => typed "branch" [("condition", condition.encode)]
  | .showContent flow => typed "show_content" [("flow_id", .string flow)]
  | .waitUntil paths => typed "wait_until" [("paths", .array (paths.map WaitPath.encode))]
  | .randomBranch arms => typed "random_branch" [("branches", .array (arms.map Arm.encode))]
  | .callHost name payload => typed "call_host" [("name", .string name), ("payload", payload)]
  | .setAttribute key value => typed "set_attribute" [("key", .string key), ("value", value)]
  | .sendEvent name properties =>
    typed "send_event" [("name", .string name), ("properties", .object properties)]
  | .exit reason => typed "exit" [("reason", Json.ofOption .string reason)]

def decode? (j : Json) : Option Action := do
  let (tag, rest) ← j.tagged? "type"
  match tag with
  | "branch" => do
    let slots ← rest.slots? ["condition"]
    some (.branch (← slots.required "condition" Envelope.decode?))
  | "show_content" => do
    let slots ← rest.slots? ["flow_id"]
    some (.showContent (← slots.required "flow_id" Json.asString?))
  | "wait_until" => do
    let slots ← rest.slots? ["paths"]
    some (.waitUntil (← slots.required "paths" (Json.asList? WaitPath.decode?)))
  | "random_branch" => do
    let slots ← rest.slots? ["branches"]
    some (.randomBranch (← slots.required "branches" (Json.asList? Arm.decode?)))
  | "call_host" => do
    let slots ← rest.slots? ["name", "payload"]
    some (.callHost (← slots.required "name" Json.asString?)
      (← slots.withDefault "payload" some .null))
  | "set_attribute" => do
    let slots ← rest.slots? ["key", "value"]
    some (.setAttribute (← slots.required "key" Json.asString?) (← slots.required "value" some))
  | "send_event" => do
    let slots ← rest.slots? ["name", "properties"]
    some (.sendEvent (← slots.required "name" Json.asString?)
      (← slots.withDefault "properties" Json.asFields? []))
  | "exit" => do
    let slots ← rest.slots? ["reason"]
    some (.exit (← slots.nullable "reason" Json.asString?))
  | _ => none

end Action

namespace Node

def encode (node : Node) : Json :=
  Json.record ([("id", .string node.id), ("next", encodeTexts node.next)] ++ node.action.fields)

def decode? : Json → Option Node
  | .object fields => do
    let slots ← (Json.object fields).slots? ["id", "next"]
    some ⟨← slots.required "id" Json.asString?,
      ← slots.withDefault "next" (Json.asList? Json.asString?) [],
      ← Action.decode? (.object (fields.filter fun f => f.1 != "id" && f.1 != "next"))⟩
  | _ => none

end Node

namespace GoalKind

def name : GoalKind → String
  | .event => "event"
  | .segmentEnter => "segment_enter"
  | .segmentLeave => "segment_leave"
  | .attribute => "attribute"

def decode? : Json → Option GoalKind :=
  choose? ([.event, .segmentEnter, .segmentLeave, .attribute].map fun k => (name k, k))

end GoalKind

namespace Goal

def encode (goal : Goal) : Json :=
  Json.record [("kind", .string goal.kind.name),
    ("event_name", Json.ofOption .string goal.eventName),
    ("segment_id", Json.ofOption .string goal.segment),
    ("expression", Json.ofOption Envelope.encode goal.expression),
    ("window_secs", Json.ofOption .int goal.window)]

def decode? (j : Json) : Option Goal := do
  let slots ← j.slots? ["kind", "event_name", "segment_id", "expression", "window_secs"]
  some ⟨← slots.required "kind" GoalKind.decode?,
    ← slots.nullable "event_name" Json.asString?,
    ← slots.nullable "segment_id" Json.asString?,
    ← slots.nullable "expression" Envelope.decode?,
    ← slots.nullable "window_secs" Json.asInteger?⟩

end Goal

namespace ExitPolicy

def name : ExitPolicy → String
  | .onGoalMet => "on_goal_met"
  | .never => "never"

def decode? : Json → Option ExitPolicy :=
  choose? ([.onGoalMet, .never].map fun p => (name p, p))

end ExitPolicy

namespace Anchor

def name : Anchor → String
  | .journeyStart => "journey_start"
  | .triggerEvent => "trigger_event"

def decode? : Json → Option Anchor :=
  choose? ([.journeyStart, .triggerEvent].map fun a => (name a, a))

end Anchor

namespace Reentry

def encode : Reentry → Json
  | .once => Json.record (typed "once" [])
  | .everyRematch => Json.record (typed "every_rematch" [])
  | .cooldown seconds => Json.record (typed "cooldown" [("seconds", .nat seconds)])
  | .concurrent => Json.record (typed "concurrent" [])

def decode? (j : Json) : Option Reentry := do
  let (tag, rest) ← j.tagged? "type"
  match tag with
  | "once" => Json.unit? .once rest
  | "every_rematch" => Json.unit? .everyRematch rest
  | "cooldown" => do
    let slots ← rest.slots? ["seconds"]
    some (.cooldown (← slots.required "seconds" Json.asWord64?))
  | "concurrent" => Json.unit? .concurrent rest
  | _ => none

end Reentry

namespace Campaign

def encode (campaign : Campaign) : Json :=
  Json.record [("id", .string campaign.id), ("name", .string campaign.name),
    ("version", .nat campaign.version), ("trigger", campaign.trigger.encode),
    ("entry_node_id", .string campaign.entry), ("nodes", .array (campaign.nodes.map Node.encode)),
    ("goal", Json.ofOption Goal.encode campaign.goal),
    ("exit_policy", .string campaign.exitPolicy.name),
    ("conversion_anchor", .string campaign.anchor.name),
    ("reentry", campaign.reentry.encode)]

def decode? (j : Json) : Option Campaign := do
  let slots ← j.slots? ["id", "name", "version", "trigger", "entry_node_id", "nodes", "goal",
    "exit_policy", "conversion_anchor", "reentry"]
  some {
    id := ← slots.required "id" Json.asString?
    name := ← slots.required "name" Json.asString?
    version := ← slots.required "version" Json.asWord32?
    trigger := ← slots.required "trigger" Trigger.decode?
    entry := ← slots.required "entry_node_id" Json.asString?
    nodes := ← slots.required "nodes" (Json.asList? Node.decode?)
    goal := ← slots.nullable "goal" Goal.decode?
    exitPolicy := ← slots.withDefault "exit_policy" ExitPolicy.decode? .onGoalMet
    anchor := ← slots.withDefault "conversion_anchor" Anchor.decode? .journeyStart
    reentry := ← slots.withDefault "reentry" Reentry.decode? .once }

/-- The id a raw definition gives itself, for messages about it. -/
def rawId (j : Json) : String :=
  match j with
  | .object fields => ((Json.Fields.get? fields "id").bind Json.asString?).getD "<unknown>"
  | _ => "<unknown>"

/-- Decodes and validates one raw definition. -/
def ofRaw (j : Json) : Except Misconfiguration Campaign :=
  match decode? j with
  | none => .error (.malformedCampaign (rawId j))
  | some campaign => campaign.validate.map fun _ => campaign

/-- The usable definitions of a list, and what is wrong with the others. -/
def ofRawList (raws : List Json) : List Campaign × List Misconfiguration :=
  let results := raws.map ofRaw
  (results.filterMap Except.toOption, results.filterMap fun
    | .error m => some m
    | .ok _ => none)

end Campaign

end Engagement
