import Engagement.Condition.Basic

/-! # Campaigns

A campaign is a graph of nodes with a trigger, an optional goal and a policy for entering again.
Validation covers the graph, every condition in it and every configured span.
-/

namespace Engagement

/-- What starts a journey. -/
inductive Trigger where
  | event (name : String) (condition : Option Envelope)
  | segment (condition : Envelope)

/-- One way out of a wait. With a condition it is open until its limit; without one it is a timeout,
taken once the limit has passed. -/
structure WaitPath where
  condition : Option Envelope
  limit : Option Nat
  next : String

/-- One arm of a random branch; the weight is a percentage. -/
structure Arm where
  weight : Binary64
  next : String

inductive Action where
  /-- The first successor if the condition holds, the second otherwise. -/
  | branch (condition : Envelope)
  | showContent (flow : String)
  | waitUntil (paths : List WaitPath)
  | randomBranch (arms : List Arm)
  | callHost (name : String) (payload : Json)
  | setAttribute (key : String) (value : Json)
  | sendEvent (name : String) (properties : Json.Fields)
  | exit (reason : Option String)

structure Node where
  id : String
  next : List String
  action : Action

inductive GoalKind where
  | event | segmentEnter | segmentLeave | attribute
  deriving DecidableEq

/-- What counts as a conversion. The window is in seconds after the anchor. -/
structure Goal where
  kind : GoalKind
  eventName : Option String
  segment : Option String
  expression : Option Envelope
  window : Option Int

inductive ExitPolicy where
  | onGoalMet | never
  deriving DecidableEq

/-- Where a goal's window begins. -/
inductive Anchor where
  | journeyStart | triggerEvent
  deriving DecidableEq

/-- When a user may enter a campaign again. -/
inductive Reentry where
  | once
  | everyRematch
  | cooldown (seconds : Nat)
  | concurrent
  deriving DecidableEq

structure Campaign where
  id : String
  name : String
  version : Nat
  trigger : Trigger
  entry : String
  nodes : List Node
  goal : Option Goal
  exitPolicy : ExitPolicy
  anchor : Anchor
  reentry : Reentry

namespace Action

def label : Action → String
  | .branch _ => "branch"
  | .showContent _ => "show_content"
  | .waitUntil _ => "wait_until"
  | .randomBranch _ => "random_branch"
  | .callHost _ _ => "call_host"
  | .setAttribute _ _ => "set_attribute"
  | .sendEvent _ _ => "send_event"
  | .exit _ => "exit"

def isShowContent : Action → Bool
  | .showContent _ => true
  | _ => false

def isWaitUntil : Action → Bool
  | .waitUntil _ => true
  | _ => false

/-- Targets that the action itself names. -/
def targets : Action → List String
  | .waitUntil paths => paths.map (·.next)
  | .randomBranch arms => arms.map (·.next)
  | _ => []

end Action

/-- Refuses a span longer than a campaign may configure. -/
def checkSpan (what : String) (seconds : Nat) : Except Misconfiguration Unit :=
  if Span.configurable < seconds then .error (.spanTooLong what seconds) else .ok ()

def checkOptional {α : Type} (check : α → Except Misconfiguration Unit) :
    Option α → Except Misconfiguration Unit
  | none => .ok ()
  | some a => check a

namespace Node

/-- Every node this one may lead to. -/
def successors (node : Node) : List String := node.next ++ node.action.targets

def checkPath (id : String) (path : WaitPath) : Except Misconfiguration Unit := do
  checkOptional Envelope.validate path.condition
  checkOptional (checkSpan s!"wait node {id} max_time_secs") path.limit

/-- One hundred and two units in its last place, above which weights sum to too much. -/
def weightLimit : Int := 100 * twoTo 1074 + 2 * twoTo 1028

def checkArms (id : String) (arms : List Arm) : Except Misconfiguration Unit :=
  if arms.any fun arm => arm.weight.units < 0 then .error (.negativeWeight id)
  else
    let total := Total.sum (arms.map (·.weight))
    if total.exceeds weightLimit then .error (.weightsTooLarge id total) else .ok ()

def validate (node : Node) : Except Misconfiguration Unit :=
  match node.action with
  | .branch condition => condition.validate
  | .waitUntil paths =>
    if paths.isEmpty then .error (.noPaths node.id) else paths.forM (checkPath node.id)
  | .randomBranch arms => checkArms node.id arms
  | .showContent flow => if flow.isEmpty then .error (.noFlow node.id) else .ok ()
  | _ => .ok ()

end Node

namespace GoalKind

/-- The name as it stands in a message. -/
def title : GoalKind → String
  | .event => "Event"
  | .segmentEnter => "SegmentEnter"
  | .segmentLeave => "SegmentLeave"
  | .attribute => "Attribute"

end GoalKind

namespace Goal

/-- Refuses a goal that lacks what its kind needs. -/
def checkKind (goal : Goal) : Except Misconfiguration Unit :=
  let lacks (field : String) := Except.error (Misconfiguration.goalLacks goal.kind.title field)
  match goal.kind with
  | .event => if goal.eventName.isNone then lacks "event_name" else .ok ()
  | .segmentEnter | .segmentLeave => if goal.segment.isNone then lacks "segment_id" else .ok ()
  | .attribute =>
    match goal.expression with
    | some expression => expression.validate
    | none => lacks "expression"

def validate (goal : Goal) : Except Misconfiguration Unit := do
  checkOptional (fun w => if 0 ≤ w then checkSpan "goal window_secs" w.toNat else .ok ())
    goal.window
  goal.checkKind

/-- The length of the window in seconds, unless it is absent or not positive. -/
def windowLength? (goal : Goal) : Option Nat :=
  goal.window.bind fun seconds => if 0 < seconds then some seconds.toNat else none

/-- The window as a span. There is none for a window that is too long. -/
def span? (goal : Goal) : Option Int := goal.windowLength?.bind Span.ofSeconds?

/-- The end of the window, if there is one. -/
def windowEnd? (goal : Goal) (anchor : Instant) : Option Instant :=
  goal.windowLength?.bind (Span.after? anchor)

end Goal

namespace Campaign

variable (campaign : Campaign)

def node? (id : String) : Option Node := campaign.nodes.find? (·.id == id)

def triggerEvent? : Option String :=
  match campaign.trigger with
  | .event name _ => some name
  | .segment _ => none

/-- The first id that an earlier node has too. -/
def duplicate? : List String → Option String
  | [] => none
  | ids => go [] ids
where
  go (seen : List String) : List String → Option String
    | [] => none
    | id :: rest => if seen.contains id then some id else go (id :: seen) rest

/-- Reports a fault of something within the campaign. -/
def reporting (result : Except Misconfiguration Unit) : Except Misconfiguration Unit :=
  result.mapError (.within campaign.id)

def checkTrigger : Except Misconfiguration Unit :=
  match campaign.trigger with
  | .event name condition =>
    if name.isEmpty then .error (.inGraph campaign.id .unnamedTrigger)
    else campaign.reporting (checkOptional Envelope.validate condition)
  | .segment condition => campaign.reporting condition.validate

def checkNode (node : Node) : Except Misconfiguration Unit :=
  match node.successors.find? fun s => !(campaign.nodes.map (·.id)).contains s with
  | some s => .error (.inGraph campaign.id (.unknownSuccessor node.id s))
  | none => campaign.reporting node.validate

def checkReentry : Except Misconfiguration Unit :=
  match campaign.reentry with
  | .cooldown seconds => campaign.reporting (checkSpan "cooldown" seconds)
  | _ => .ok ()

def checkIds : Except Misconfiguration Unit :=
  let ids := campaign.nodes.map (·.id)
  match duplicate? ids with
  | some id => .error (.inGraph campaign.id (.duplicateNode id))
  | none =>
    if ids.contains campaign.entry then .ok ()
    else .error (.inGraph campaign.id (.noEntry campaign.entry))

/-- Accepts a campaign whose graph is closed and whose every part is valid. -/
def validate : Except Misconfiguration Unit := do
  campaign.checkIds
  campaign.checkTrigger
  campaign.nodes.forM campaign.checkNode
  campaign.reporting (checkOptional Goal.validate campaign.goal)
  campaign.checkReentry

end Campaign

end Engagement
