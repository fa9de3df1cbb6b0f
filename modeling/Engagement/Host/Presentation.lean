import Engagement.Campaign.Codec

/-! # Presentations

How a presented flow ends, and a presenter that answers from a script. A scripted answer may stand
behind a gate: it is given once the gate is released.
-/

namespace Engagement

inductive Presentation where
  | dismissed
  | purchased (product : String) (transaction : Option String)
  | restored
  | timedOut
  | errored (message : String)
  deriving DecidableEq

namespace Presentation

def encode : Presentation → Json
  | .dismissed => Json.record (typed "dismissed" [])
  | .purchased product transaction =>
    Json.record (typed "purchased" [("product_id", .string product),
      ("transaction_id", Json.ofOption .string transaction)])
  | .restored => Json.record (typed "restored" [])
  | .timedOut => Json.record (typed "timed_out" [])
  | .errored message => Json.record (typed "errored" [("message", .string message)])

def decode? (j : Json) : Option Presentation := do
  let (tag, rest) ← j.tagged? "type"
  match tag with
  | "dismissed" => Json.unit? .dismissed rest
  | "purchased" => do
    let slots ← rest.slots? ["product_id", "transaction_id"]
    some (.purchased (← slots.required "product_id" Json.asString?)
      (← slots.nullable "transaction_id" Json.asString?))
  | "restored" => Json.unit? .restored rest
  | "timed_out" => Json.unit? .timedOut rest
  | "errored" => do
    let slots ← rest.slots? ["message"]
    some (.errored (← slots.required "message" Json.asString?))
  | _ => none

end Presentation

/-- The end of a presentation, or why there was none. -/
abbrev Showing := Except HostFault Presentation

/-- An answer that a presenter will give for a flow. -/
structure Cue where
  flow : String
  result : Showing
  gate : Option String

structure Presenter where
  /-- Answers still to be given, each to the next presentation of its flow. -/
  cues : List Cue
  presenting : Bool
  /-- Gates that were released while nothing waited at them. -/
  released : List String
  dismissals : Nat
  /-- Flows whose presentation ended with an outcome. -/
  presented : List String

namespace Presenter

variable (presenter : Presenter)

def empty : Presenter := ⟨[], false, [], 0, []⟩

def cue (c : Cue) : Presenter := { presenter with cues := presenter.cues ++ [c] }

/-- Takes the next answer for a flow; without one the flow is dismissed. -/
def take (flow : String) : Cue × Presenter :=
  match presenter.cues.find? (·.flow == flow) with
  | some c => (c, { presenter with cues := presenter.cues.eraseP (·.flow == flow) })
  | none => (⟨flow, .ok .dismissed, none⟩, presenter)

/-- Whether a cue keeps its flow on the screen: its gate has not been released yet. -/
def waitsFor (c : Cue) : Bool := c.gate.any fun gate => !presenter.released.contains gate

/-- Starts to show a flow: the cue it follows, and whether it stays on the screen. -/
def present (flow : String) : Cue × Bool × Presenter :=
  let (c, p) := presenter.take flow
  if p.waitsFor c then (c, true, { p with presenting := true })
  else (c, false, { p with released := p.released.filter fun gate => some gate != c.gate })

/-- Takes a flow off the screen. -/
def close : Presenter := { presenter with presenting := false }

/-- Notes a flow whose presentation ended with an outcome. -/
def noteShown (flow : String) (result : Showing) : Presenter :=
  match result with
  | .ok _ => { presenter with presented := presenter.presented ++ [flow] }
  | .error _ => presenter

/-- Remembers one release of a gate at which nothing waits. -/
def release (gate : String) : Presenter :=
  if presenter.released.contains gate then presenter
  else { presenter with released := gate :: presenter.released }

def dismiss : Presenter := { presenter with dismissals := presenter.dismissals + 1 }

end Presenter

end Engagement
