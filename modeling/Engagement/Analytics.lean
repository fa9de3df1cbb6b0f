import Engagement.Journey.Basic

/-! # Analytics

What the engine reports about journeys, in the order in which it happens.
-/

namespace Engagement

namespace Analytics

inductive Kind where
  | entered | stepCompleted | stepSkipped | parked | goalMet | completed | exited | error | rejected
  deriving DecidableEq

namespace Kind

def all : List Kind :=
  [.entered, .stepCompleted, .stepSkipped, .parked, .goalMet, .completed, .exited, .error,
   .rejected]

def label : Kind → String
  | .entered => "journey_entered"
  | .stepCompleted => "journey_step_completed"
  | .stepSkipped => "journey_step_skipped"
  | .parked => "journey_parked"
  | .goalMet => "journey_goal_met"
  | .completed => "journey_completed"
  | .exited => "journey_exited"
  | .error => "journey_error"
  | .rejected => "journey_rejected"

def decode? : Json → Option Kind := choose? (all.map fun k => (k.label, k))

/-- How the end of a journey is reported. -/
def ofStatus : Status → Kind
  | .errored => .error
  | .exited => .exited
  | _ => .completed

end Kind

/-- A report. A rejected start has no journey. -/
structure Event where
  kind : Kind
  /-- When it was reported, by the engine's own time. -/
  time : Nat
  journey : Option JourneyId
  campaignId : String
  distinctId : String
  node : Option String
  detail : Option String
  deriving DecidableEq

namespace Event

def ofJourney (kind : Kind) (time : Nat) (journey : Journey) (node : String)
    (detail : Option String) : Event where
  kind := kind
  time := time
  journey := some journey.id
  campaignId := journey.campaignId
  distinctId := journey.distinctId
  node := some node
  detail := detail

def rejection (time : Nat) (campaign distinctId reason : String) : Event where
  kind := .rejected
  time := time
  journey := none
  campaignId := campaign
  distinctId := distinctId
  node := none
  detail := some reason

end Event

end Analytics

end Engagement
