import Engagement.Host.Basic
import Engagement.Journey.Basic
import Engagement.Roll
import Engagement.Time.Text

/-! # Executing a node

What a node does to the host, and what becomes of the journey: it goes on, waits, or ends. A service
that fails ends the journey as errored; showing content may take its time.
-/

namespace Engagement

/-- Why a node is executed. -/
inductive ResumeReason where
  | start
  /-- The node before continued into this one. -/
  | advance
  | event (name : String)
  | segmentChange
  | timer
  | foreground
  /-- Taken up again after a restart. -/
  | restore
  deriving DecidableEq

namespace ResumeReason

def decode? (j : Json) : Option ResumeReason := do
  let (tag, rest) ← j.tagged? "type"
  match tag with
  | "start" => Json.unit? .start rest
  | "advance" => Json.unit? .advance rest
  | "event" => do
    let slots ← rest.slots? ["name"]
    some (.event (← slots.required "name" Json.asString?))
  | "segment_change" => Json.unit? .segmentChange rest
  | "timer" => Json.unit? .timer rest
  | "foreground" => Json.unit? .foreground rest
  | "restore" => Json.unit? .restore rest
  | _ => none

end ResumeReason

inductive StepResult where
  | proceed (next : String)
  /-- Wait for the deadline, an event from outside or another attempt. -/
  | suspend (deadline : Option Instant)
  | skip (next : Option String)
  | complete (reason : ExitReason)
  deriving DecidableEq

/-- What a step may assume about the device. -/
structure StepContext where
  now : Instant
  /-- False in the background and shortly after it. -/
  canPresent : Bool
  deriving DecidableEq

/-- A step has its result, or its content is on screen until a gate is released. -/
inductive Progress where
  | finished (result : StepResult)
  | showing (gate : String) (result : Showing)

namespace StepResult

def encode : StepResult → Json
  | .proceed next => Json.record (typed "continue" [("next", encodeTexts [next])])
  | .suspend deadline =>
    Json.record (typed "async" [("deadline", Json.ofOption Instant.encode deadline)])
  | .skip next => Json.record (typed "skip" [("next", Json.ofOption .string next)])
  | .complete reason => Json.record (typed "complete" [("reason", reason.encode)])

/-- On to the next node, or off the end of the graph. -/
def proceedOrEnd : Option String → StepResult
  | some next => .proceed next
  | none => .complete .completed

def ofFault (service : String) (fault : HostFault) : StepResult :=
  .complete (.errored (Fault.service service fault).message)

def isSuspend : StepResult → Bool
  | .suspend _ => true
  | _ => false

end StepResult

namespace WaitPath

variable (path : WaitPath)

/-- When the path's limit passes. A limit too far away never does. -/
def deadline? (enteredAt : Instant) : Option Instant :=
  path.limit.bind (Span.after? enteredAt)

def hasElapsed (enteredAt now : Instant) : Bool := (path.deadline? enteredAt).any (· ≤ now)

/-- Whether the path is taken now. -/
def isReady (reader : Reader) (enteredAt now : Instant) : Bool :=
  match path.condition with
  | some condition => !path.hasElapsed enteredAt now && condition.holds reader
  | none => path.limit.isNone || path.hasElapsed enteredAt now

/-- Whether the path can still be taken later. -/
def isOpen (enteredAt now : Instant) : Bool :=
  path.condition.isNone || !path.hasElapsed enteredAt now

end WaitPath

/-- The earlier of two deadlines, where none is the latest. -/
def sooner : Option Instant → Option Instant → Option Instant
  | none, t => t
  | t, none => t
  | some t, some u => some (min t u)

/-- Takes the first path that is ready. Otherwise the wait goes on until the first deadline of an
open path, and ends when no path is open. -/
def waitUntil (reader : Reader) (enteredAt now : Instant) (paths : List WaitPath) : StepResult :=
  match paths.find? (·.isReady reader enteredAt now) with
  | some path => .proceed path.next
  | none =>
    let remaining := paths.filter (·.isOpen enteredAt now)
    if remaining.isEmpty then .complete .waitExpired
    else .suspend (remaining.foldl (fun t path => sooner t (path.deadline? enteredAt)) none)

/-- The seed of a node's roll in a journey. -/
def branchSeed (seed : UInt64) (node : String) : UInt64 :=
  seed ^^^ Digest.first64 node.toUTF8.toList

/-- The first arm whose running total of weights is greater than the roll. -/
def chooseArm (roll : Nat) : Total → List Arm → Option Arm
  | _, [] => none
  | total, arm :: arms =>
    let total := total.add arm.weight
    if total.exceeds roll then some arm else chooseArm roll total arms

def randomBranch (node : String) (arms : List Arm) (journey : Journey) : StepResult :=
  match chooseArm (Roll.units (branchSeed journey.randomSeed node)) .zero arms with
  | some arm => .proceed arm.next
  | none => .complete .noMatch

namespace Step

variable (host : Host) (node : Node) (journey : Journey)

/-- Marks an event's properties with the journey they come from. -/
def annotate (properties : Json.Fields) : Json.Fields :=
  Json.Fields.insert
    (Json.Fields.insert properties "journey_id" journey.id.encode)
    "campaign_id" (.string journey.campaignId)

/-- The name of the event that is tracked for a purchase. -/
def purchaseEvent : String := "journey_purchase"

/-- Tracks a purchase; a failure to do so is of no consequence. -/
def trackPurchase (flow product : String) (transaction : Option String) : Host :=
  let receipt := (transaction.map fun t => ("transaction_id", Json.string t)).toList
  let properties := Json.Fields.canonical
    ([("product_id", Json.string product), ("flow_id", Json.string flow)] ++ receipt)
  match host.track journey.id purchaseEvent (annotate journey properties) with
  | .ok host => host
  | .error _ => host

/-- What the end of a presentation means for the journey. -/
def conclude (flow : String) (result : Showing) : Host × StepResult :=
  match result with
  | .error .noSurface => (host, .suspend none)
  | .error (.contentUnavailable _) => (host, .skip node.next.head?)
  | .error fault => (host, .ofFault "presentation" fault)
  | .ok outcome =>
    let host := { host with presenter := host.presenter.noteShown flow result }.note journey.id
      (.presented flow)
    match outcome with
    | .dismissed | .timedOut => (host, .proceedOrEnd node.next.head?)
    | .purchased product transaction =>
      (trackPurchase host journey flow product transaction,
        .complete (.purchased product transaction))
    | .restored => (host, .complete .restored)
    | .errored message => (host, .complete (.errored message))

/-- Shows a flow, unless nothing may be shown or something is. -/
def showContent (flow : String) (ctx : StepContext) : Host × Progress :=
  if !ctx.canPresent || host.presenter.presenting then (host, .finished (.suspend none))
  else
    let (cue, stays, presenter) := host.presenter.present flow
    let shown := { host with presenter := presenter }
    let shown := if cue.gate.isSome then shown.note journey.id (.showing flow) else shown
    match cue.gate, stays with
    | some gate, true => (shown, .showing gate cue.result)
    | _, _ =>
      let (host, result) := conclude shown node journey flow cue.result
      (host, .finished result)

/-- Takes the content off the screen and concludes. -/
def closeContent (flow : String) (result : Showing) : Host × StepResult :=
  conclude { host with presenter := host.presenter.close } node journey flow result

/-- The result of a change to the host, or the end of the journey if it was refused. -/
def change (service : String) (changed : Except HostFault Host) : Host × Progress :=
  match changed with
  | .ok host => (host, .finished (.proceedOrEnd node.next.head?))
  | .error fault => (host, .finished (.ofFault service fault))

/-- Executes a node for a journey. -/
def execute (ctx : StepContext) : Host × Progress :=
  match node.action with
  | .branch condition =>
    let index := if condition.holds (host.reader journey.distinctId ctx.now none) then 0 else 1
    (host, .finished (match node.next[index]? with
      | some next => .proceed next
      | none => .skip none))
  | .showContent flow => showContent host node journey flow ctx
  | .waitUntil paths =>
    (host, .finished (waitUntil (host.reader journey.distinctId ctx.now none) journey.enteredAt
      ctx.now paths))
  | .randomBranch arms => (host, .finished (randomBranch node.id arms journey))
  | .callHost name payload =>
    match host.fault? .host with
    | some _ => (host, .finished (.complete (.errored "node execution aborted")))
    | none => change host node "host" (.ok (host.note journey.id (.notified name payload)))
  | .setAttribute key value => change host node "identity" (host.setAttribute key value)
  | .sendEvent name properties =>
    if name.isEmpty then (host, .finished (.skip node.next.head?))
    else change host node "events" (host.track journey.id name (annotate journey properties))
  | .exit reason => (host, .finished (.complete (.exitNode reason)))

end Step

end Engagement
