import Engagement.Step

/-! # Messages

The engine handles one message after the other: commands of the host, and reports of the work it
has set off. A report names the task it comes from, so that one of abandoned work is recognised.
-/

namespace Engagement

/-- An event that the host reports. -/
structure HostEvent where
  id : String
  occurrence : Occurrence

namespace HostEvent

/-- What a journey remembers of the event it started from. -/
def origin (event : HostEvent) : Origin := ⟨event.id, event.occurrence.time⟩

/-- Reads an event. One without an id gets `fresh`. -/
def decode? (fresh : String) (j : Json) : Option HostEvent := do
  let slots ← j.slots? ["id", "name", "distinct_id", "properties", "timestamp"]
  let id ← slots.withDefault "id" Json.asString? fresh
  let name ← slots.required "name" Json.asString?
  let user ← slots.withDefault "distinct_id" Json.asString? ""
  let properties ← slots.withDefault "properties" Json.asFields? []
  some ⟨id, ⟨name, user, properties, ← slots.required "timestamp" Instant.decode?⟩⟩

/-- An event of nobody becomes one of `user`. -/
def ownedBy (user : String) (event : HostEvent) : HostEvent :=
  if event.occurrence.distinctId.isEmpty then
    { event with occurrence := { event.occurrence with distinctId := user } }
  else event

end HostEvent

/-- What the host tells about the app. -/
inductive Lifecycle where
  | enteredBackground
  | entersForeground
  | becameActive
  deriving DecidableEq

inductive Command where
  | boot
  | start (campaign : Campaign) (user : String) (origin : Option Origin)
  | event (event : HostEvent)
  | segmentsChanged
  | refreshProfile
  | contentInvalidated (flow : String)
  /-- Take up paused journeys whose deadline has passed. -/
  | resumeDue
  | lifecycle (signal : Lifecycle)

/-- What a task found out. -/
inductive Report where
  | profile (task : Nat) (fetched : Except HostFault Profile) (requested : Bool)
  | grace (task : Nat)
  | timer (journey : JourneyId) (node : String)
  | step (task : Nat) (journey : JourneyId) (node : String) (result : StepResult)
  | goal (task : Nat) (journey : JourneyId) (metAt : Option Instant)
  | trigger (task : Nat) (campaign user : String) (origin : Option Origin) (holds : Bool)

inductive Message where
  | command (command : Command)
  | report (report : Report)

/-- The engine's answer to a command that asks for one. -/
inductive Answer where
  | done (result : Except Fault Unit)
  | started (result : Except Fault (Option Journey))

end Engagement
