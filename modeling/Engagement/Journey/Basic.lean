import Engagement.Campaign.Basic
import Engagement.Digest
import Engagement.Journey.ExitReason
import Engagement.Journey.Id

/-! # Journeys

A journey is one user's walk through one campaign. What the campaign says about the goal is frozen
when it starts. A transition changes the status as the table of changes allows, and only then the
fields that go with it; otherwise it fails. A conversion only ever moves to an earlier time.
-/

namespace Engagement

structure Journey where
  id : JourneyId
  campaignId : String
  campaignVersion : Nat
  distinctId : String
  status : Status
  node : String
  /-- When the journey arrived at its node. -/
  enteredAt : Instant
  goal : Option Goal
  exitPolicy : ExitPolicy
  anchorAt : Instant
  convertedAt : Option Instant
  resumeAt : Option Instant
  context : Json.Fields
  originEvent : Option String
  startedAt : Instant
  updatedAt : Instant
  completedAt : Option Instant
  exitReason : Option ExitReason

/-- The event that made a journey start. -/
structure Origin where
  eventId : String
  time : Instant

namespace JourneyId

/-- The seed an id stands for. -/
def seed (id : JourneyId) : UInt64 := Digest.first64 id.bytes

end JourneyId

namespace Status

/-- The status after a change of status is tried. One that the table does not list is refused. -/
def change (source target : Status) : Status × Except Fault Unit :=
  if source.canBecome target then (target, .ok ())
  else (source, .error (.invalidTransition source target))

end Status

namespace Journey

variable (journey : Journey)

def seedKey : String := "random_seed"

/-- A journey at the entry of its campaign. -/
def start (id : JourneyId) (campaign : Campaign) (distinctId : String) (origin : Option Origin)
    (now : Instant) : Journey where
  id := id
  campaignId := campaign.id
  campaignVersion := campaign.version
  distinctId := distinctId
  status := .active
  node := campaign.entry
  enteredAt := now
  goal := campaign.goal
  exitPolicy := campaign.exitPolicy
  anchorAt :=
    match campaign.anchor, origin with
    | .triggerEvent, some origin => origin.time
    | _, _ => now
  convertedAt := none
  resumeAt := none
  context := [(seedKey, .nat id.seed.toNat)]
  originEvent := origin.map (·.eventId)
  startedAt := now
  updatedAt := now
  completedAt := none
  exitReason := none

def isTerminal : Bool := journey.status.isTerminal

/-- Records a conversion at `t`, unless one no later is known already. Answers whether it did. -/
def recordConversion (t : Instant) : Journey × Bool :=
  match journey.convertedAt with
  | some known =>
    if known ≤ t then (journey, false) else ({ journey with convertedAt := some t }, true)
  | none => ({ journey with convertedAt := some t }, true)

/-- The seed of random branches, the same for the whole walk. -/
def randomSeed : UInt64 :=
  match (Json.Fields.get? journey.context seedKey).bind Json.asWord64? with
  | some n => UInt64.ofNat n
  | none => journey.id.seed

def changeStatus (target : Status) : Journey × Except Fault Unit :=
  let (status, result) := journey.status.change target
  ({ journey with status := status }, result)

/-- Enters a node; entering the present node again is a new entry. -/
def advanceTo (node : String) (now : Instant) : Journey × Except Fault Unit :=
  match journey.changeStatus .active with
  | (j, .error fault) => (j, .error fault)
  | (j, .ok ()) =>
    ({ j with node := node, enteredAt := now, resumeAt := none, updatedAt := now }, .ok ())

/-- Waits at the present node. -/
def park (resumeAt : Option Instant) (now : Instant) : Journey × Except Fault Unit :=
  match journey.changeStatus .paused with
  | (j, .error fault) => (j, .error fault)
  | (j, .ok ()) => ({ j with resumeAt := resumeAt, updatedAt := now }, .ok ())

def finish (reason : ExitReason) (now : Instant) : Journey × Except Fault Unit :=
  match journey.changeStatus reason.status with
  | (j, .error fault) => (j, .error fault)
  | (j, .ok ()) =>
    ({ j with
        resumeAt := none, completedAt := some now, updatedAt := now, exitReason := some reason },
      .ok ())

end Journey

end Engagement
