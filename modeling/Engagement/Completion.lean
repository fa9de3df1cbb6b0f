import Engagement.Journey.Codec

/-! # Completion records

What remains of a finished journey. The ledger of a user and a campaign decides on entering
again.
-/

namespace Engagement

structure Completion where
  distinctId : String
  campaignId : String
  journeyId : JourneyId
  completedAt : Instant
  exitReason : ExitReason
  deriving DecidableEq

namespace Completion

/-- The record of a journey; one that was never finished counts as completed when last changed. -/
def ofJourney (journey : Journey) : Completion where
  distinctId := journey.distinctId
  campaignId := journey.campaignId
  journeyId := journey.id
  completedAt := journey.completedAt.getD journey.updatedAt
  exitReason := journey.exitReason.getD .completed

def encode (record : Completion) : Json :=
  Json.record [("distinct_id", .string record.distinctId),
    ("campaign_id", .string record.campaignId), ("journey_id", record.journeyId.encode),
    ("completed_at", record.completedAt.encode), ("exit_reason", record.exitReason.encode)]

def decode? (j : Json) : Option Completion := do
  let slots ← j.slots? ["distinct_id", "campaign_id", "journey_id", "completed_at", "exit_reason"]
  some ⟨← slots.required "distinct_id" Json.asString?,
    ← slots.required "campaign_id" Json.asString?,
    ← slots.required "journey_id" JourneyId.decode?,
    ← slots.required "completed_at" Instant.decode?,
    ← slots.required "exit_reason" ExitReason.decode?⟩

end Completion

end Engagement
