import Engagement.Host.Basic
import Engagement.Time.Text

/-! # Hosts as data

What a host saw is written as a record per effect. A scenario is a record that describes a host
before anything has happened: its clock, its user and profile, events of the past, services that are
out of order and the answers of the presenter.
-/

namespace Engagement

open Json.Fields (textOf fieldOr fieldOf itemsOf entriesOf)

namespace Query

/-- The source, and what it is asked. -/
def encode : Query → Json
  | .now => encodeTexts ["now"]
  | .userProperty key => encodeTexts ["user_property", key]
  | .lastTime name since =>
    .array [.string "event_last_time", .string name, Json.ofOption Instant.encode since, .null]
  | .count name since =>
    .array [.string "event_count", .string name, Json.ofOption Instant.encode since, .null]
  | .inSegment segment => encodeTexts ["in_segment", segment]
  | .access id entity =>
    .array [.string "feature_access", .string id, Json.ofOption .string entity]

end Query

namespace HostFault

def kind : HostFault → String
  | .unavailable _ => "unavailable"
  | .noSurface => "no_surface"
  | .contentUnavailable _ => "content_unavailable"
  | .failed _ => "failed"

/-- Reads a kind and a message. Every other kind is a failure. -/
def decode (j : Json) : HostFault :=
  let fields := j.asFields?.getD []
  let message := textOf fields "message"
  match textOf fields "kind" with
  | "unavailable" => .unavailable message
  | "no_surface" => .noSurface
  | "content_unavailable" => .contentUnavailable message
  | _ => .failed message

end HostFault

namespace Service

def names : List (String × Service) :=
  [("track", .track), ("last", .last), ("first", .first), ("count", .count),
   ("segments", .segments), ("identity_get", .identityGet), ("identity_set", .identitySet),
   ("features", .features), ("profile", .profile), ("host", .host)]

def ofName? (name : String) : Option Service := (names.find? (·.1 == name)).map (·.2)

end Service

namespace Occurrence

def fields (o : Occurrence) : Json.Fields :=
  [("name", .string o.name), ("distinct_id", .string o.distinctId),
   ("properties", .object o.properties), ("at", o.time.encode)]

end Occurrence

namespace Effect

def encode : Effect → Json
  | .notified name payload =>
    Json.record [("kind", .string "host"), ("name", .string name), ("payload", payload)]
  | .tracked o => Json.record (("kind", .string "tracked") :: o.fields)
  | .attribute key value =>
    Json.record [("kind", .string "attribute"), ("key", .string key), ("value", value)]
  | .presented flow => Json.record [("kind", .string "presented"), ("flow", .string flow)]
  | .showing flow => Json.record [("kind", .string "showing"), ("flow", .string flow)]

end Effect

/-- Whether a field holds something that counts as true. -/
def isSet (fields : Json.Fields) (name : String) : Bool :=
  ((Json.Fields.get? fields name).map Json.truthy).getD false

namespace Cue

/-- An answer to a presentation: under `ok` how it ends, or under `err` why there is none. -/
def decode (flow : String) (fields : Json.Fields) : Except String Cue := do
  let gate := (Json.Fields.get? fields "gate").bind Json.asString?
  if (Json.Fields.get? fields "ok").isSome then
    return ⟨flow, .ok (← fieldOf fields "ok" Presentation.decode?), gate⟩
  else
    return ⟨flow, .error (HostFault.decode ((Json.Fields.get? fields "err").getD .null)), gate⟩

end Cue

namespace Host

/-- The clock of a scenario that does not set it. -/
def scenarioStart : Instant := (Timestamp.parse? "2024-01-01T00:00:00Z").getD .epoch

/-- Records an event that a scenario describes; it is the device user's unless it says otherwise. -/
def recordScripted (host : Host) (fields : Json.Fields) : Except String Host := do
  let name ← fieldOf fields "name" Json.asString?
  let time ← fieldOf fields "at" Instant.decode?
  let user := ((Json.Fields.get? fields "distinct_id").bind Json.asString?).getD host.distinctId
  return host.recordEvent name user time

def cued (host : Host) (flow : String) (item : Json) : Except String Host := do
  return { host with presenter := host.presenter.cue (← Cue.decode flow (item.asFields?.getD [])) }

def setOffline (host : Host) (offline : Bool) : Host :=
  { host with log := { host.log with offline := offline } }

def setPresenting (host : Host) (presenting : Bool) : Host :=
  { host with presenter := { host.presenter with presenting := presenting } }

/-- The host that a scenario describes. -/
def ofScenario (fields : Json.Fields) : Except String Host := do
  let now ← fieldOr fields "now" scenarioStart Instant.decode?
  let user ← fieldOr fields "distinct_id" "user-1" Json.asString?
  let profile ← fieldOr fields "profile" Profile.empty Profile.decode?
  let host := Host.new now user profile
  let host ← (itemsOf fields "events").foldlM
    (fun host j => host.recordScripted (j.asFields?.getD [])) host
  let host := (host.setOffline (isSet fields "offline")).setPresenting (isSet fields "presenting")
  let host := (entriesOf fields "fail").foldl (fun host (name, j) =>
    match Service.ofName? name with
    | some service => host.setFault service (some (.decode j))
    | none => host) host
  (entriesOf fields "script").foldlM (fun host (flow, items) =>
    (items.asItems?.getD []).foldlM (fun host item => host.cued flow item) host) host

end Host

end Engagement
