import Engagement.Engine.Session

/-! # Replays

A script of events is replayed on its own timeline: the clock stands at the event that is handled,
and before each event the journeys whose deadline has passed are taken up.
-/

namespace Engagement

structure Script where
  /-- Raw definitions of campaigns. -/
  campaigns : List Json
  /-- Segments the user belongs to. -/
  segments : List String
  /-- The user of events that name none. -/
  user : String
  events : List HostEvent

namespace Script

variable (script : Script)

/-- The events in the order of their times; those of one time keep their order. -/
def timeline : List HostEvent :=
  (script.events.map (·.ownedBy script.user)).mergeSort
    fun a b => decide (a.occurrence.time ≤ b.occurrence.time)

/-- When a replay begins: with the first event, or at `now` if there is none. -/
def start (now : Instant) : Instant :=
  (script.timeline.head?.map (·.occurrence.time)).getD now

/-- The host of a replay. Nothing is scripted for its presenter, so content is dismissed. -/
def host (now : Instant) : Host :=
  .new (script.start now) script.user
    { Profile.empty with campaigns := script.campaigns, segments := script.segments }

end Script

namespace Session

variable (s : Session)

/-- Changes the host. -/
def onHost (change : Host → Host) : Session :=
  { s with engine := { s.engine with host := change s.engine.host } }

/-- Sets the wall clock. -/
def setClock (t : Instant) : Session := s.onHost fun host => { host with now := t }

def recordEvent (o : Occurrence) : Session :=
  s.onHost fun host => host.recordEvent o.name o.distinctId o.time

/-- Takes up the journeys whose deadline has passed. -/
def resumeDue : Session := (s.send .resumeDue).1

/-- Plays one event at its time. -/
def play (event : HostEvent) : Session :=
  let s := ((s.setClock event.occurrence.time).recordEvent event.occurrence).resumeDue
  (s.send (.event event)).1.settle

end Session

/-- What a replay shows in the end. -/
structure Replay where
  /-- The user's journeys under way. -/
  active : List Journey
  ledger : List Completion
  presented : List String
  notifications : List (String × Json)

namespace Replay

/-- A replay of a script in front of durable storage, unless the journeys stored there cannot be
read. -/
def run (settings : EngineSettings) (script : Script) (backend : Backend)
    (ids : Nat → JourneyId) (now : Instant) : Session × Except Fault Unit :=
  let engine := Engine.new settings (script.host now) backend ids
  match (Session.new engine).boot with
  | (s, .error fault) => (s, .error fault)
  | (s, .ok ()) => ((script.timeline.foldl Session.play s).resumeDue.settle, .ok ())

/-- What is to be said about a session for a user. -/
def ofSession (user : String) (s : Session) : Replay where
  active := s.engine.store.activeFor user
  ledger := s.engine.store.ledger
  presented := s.engine.host.presenter.presented
  notifications := s.engine.host.notifications

def encode (replay : Replay) : Json :=
  Json.record [("active_journeys", .array (replay.active.map Journey.encode)),
    ("ledger", .array (replay.ledger.map Completion.encode)),
    ("presented", encodeTexts replay.presented),
    ("host_calls", .array (replay.notifications.map fun (name, payload) =>
      .array [.string name, payload]))]

end Replay

end Engagement
