import Engagement.Campaign.Codec
import Engagement.Journey.Status

/-! # Why journeys end -/

namespace Engagement

inductive ExitReason where
  /-- Ran off the end of the graph. -/
  | completed
  | exitNode (reason : Option String)
  | goalMet
  | purchased (product : String) (transaction : Option String)
  | restored
  /-- A roll outside of every arm. -/
  | noMatch
  /-- Every path of a wait closed and none was a timeout. -/
  | waitExpired
  | campaignUnavailable
  | errored (message : String)
  deriving DecidableEq

namespace ExitReason

/-- The status a journey ends in. -/
def status : ExitReason → Status
  | .completed | .goalMet | .purchased _ _ | .restored => .completed
  | .exitNode _ | .noMatch | .waitExpired | .campaignUnavailable => .exited
  | .errored _ => .errored

def label : ExitReason → String
  | .completed => "completed"
  | .exitNode _ => "exit_node"
  | .goalMet => "goal_met"
  | .purchased _ _ => "purchased"
  | .restored => "restored"
  | .noMatch => "no_match"
  | .waitExpired => "wait_expired"
  | .campaignUnavailable => "campaign_unavailable"
  | .errored _ => "errored"

theorem status_isTerminal (reason : ExitReason) : reason.status.isTerminal = true := by
  cases reason <;> rfl

def encode (reason : ExitReason) : Json :=
  Json.record (typed reason.label (match reason with
    | .exitNode reason => [("reason", Json.ofOption .string reason)]
    | .purchased product transaction =>
      [("product_id", .string product), ("transaction_id", Json.ofOption .string transaction)]
    | .errored message => [("message", .string message)]
    | _ => []))

def decode? (j : Json) : Option ExitReason := do
  let (tag, rest) ← j.tagged? "type"
  match tag with
  | "completed" => Json.unit? .completed rest
  | "exit_node" => do
    let slots ← rest.slots? ["reason"]
    some (.exitNode (← slots.nullable "reason" Json.asString?))
  | "goal_met" => Json.unit? .goalMet rest
  | "purchased" => do
    let slots ← rest.slots? ["product_id", "transaction_id"]
    some (.purchased (← slots.required "product_id" Json.asString?)
      (← slots.nullable "transaction_id" Json.asString?))
  | "restored" => Json.unit? .restored rest
  | "no_match" => Json.unit? .noMatch rest
  | "wait_expired" => Json.unit? .waitExpired rest
  | "campaign_unavailable" => Json.unit? .campaignUnavailable rest
  | "errored" => do
    let slots ← rest.slots? ["message"]
    some (.errored (← slots.required "message" Json.asString?))
  | _ => none

end ExitReason

namespace Status

def decode? : Json → Option Status := choose? (all.map fun s => (s.name, s))

end Status

end Engagement
