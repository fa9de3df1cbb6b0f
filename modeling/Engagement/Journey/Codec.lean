import Engagement.Journey.Basic
import Engagement.Time.Text

/-! # Journeys as data -/

namespace Engagement

namespace Journey

def encode (journey : Journey) : Json :=
  Json.record [("id", journey.id.encode), ("campaign_id", .string journey.campaignId),
    ("campaign_version", .nat journey.campaignVersion), ("distinct_id", .string journey.distinctId),
    ("status", .string journey.status.name), ("current_node_id", .string journey.node),
    ("node_entered_at", journey.enteredAt.encode),
    ("goal_snapshot", Json.ofOption Goal.encode journey.goal),
    ("exit_policy", .string journey.exitPolicy.name),
    ("conversion_anchor_at", journey.anchorAt.encode),
    ("converted_at", Json.ofOption Instant.encode journey.convertedAt),
    ("resume_at", Json.ofOption Instant.encode journey.resumeAt),
    ("context", .object journey.context),
    ("origin_event_id", Json.ofOption .string journey.originEvent),
    ("started_at", journey.startedAt.encode), ("updated_at", journey.updatedAt.encode),
    ("completed_at", Json.ofOption Instant.encode journey.completedAt),
    ("exit_reason", Json.ofOption ExitReason.encode journey.exitReason)]

/-- The fields in declaration order. -/
def fieldNames : List String :=
  ["id", "campaign_id", "campaign_version", "distinct_id", "status", "current_node_id",
   "node_entered_at", "goal_snapshot", "exit_policy", "conversion_anchor_at", "converted_at",
   "resume_at", "context", "origin_event_id", "started_at", "updated_at", "completed_at",
   "exit_reason"]

def decode? (j : Json) : Option Journey := do
  let slots ← j.slots? fieldNames
  some {
    id := ← slots.required "id" JourneyId.decode?
    campaignId := ← slots.required "campaign_id" Json.asString?
    campaignVersion := ← slots.required "campaign_version" Json.asWord32?
    distinctId := ← slots.required "distinct_id" Json.asString?
    status := ← slots.required "status" Status.decode?
    node := ← slots.required "current_node_id" Json.asString?
    enteredAt := ← slots.required "node_entered_at" Instant.decode?
    goal := ← slots.optional "goal_snapshot" Goal.decode?
    exitPolicy := ← slots.required "exit_policy" ExitPolicy.decode?
    anchorAt := ← slots.required "conversion_anchor_at" Instant.decode?
    convertedAt := ← slots.optional "converted_at" Instant.decode?
    resumeAt := ← slots.optional "resume_at" Instant.decode?
    context := ← slots.withDefault "context" Json.asFields? []
    originEvent := ← slots.nullable "origin_event_id" Json.asString?
    startedAt := ← slots.required "started_at" Instant.decode?
    updatedAt := ← slots.required "updated_at" Instant.decode?
    completedAt := ← slots.nullable "completed_at" Instant.decode?
    exitReason := ← slots.nullable "exit_reason" ExitReason.decode? }

end Journey

end Engagement
