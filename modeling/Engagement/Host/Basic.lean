import Engagement.Host.EventLog
import Engagement.Host.Presentation
import Engagement.Host.Profile
import Engagement.Journey.Id

/-! # The host

The engine's collaborators as one value: clock, event history, segments, identity, features,
profile and presenter. A service that is out of order answers with a fault. What the engine does to
the host is kept as a list of effects.
-/

namespace Engagement

inductive Service where
  | track | last | first | count | segments | identityGet | identitySet | features | profile | host
  deriving DecidableEq

/-- Something the host saw. -/
inductive Effect where
  | notified (name : String) (payload : Json)
  | tracked (occurrence : Occurrence)
  | attribute (key : String) (value : Json)
  | presented (flow : String)
  | showing (flow : String)

structure Host where
  /-- The wall clock. -/
  now : Instant
  /-- The device's user. -/
  distinctId : String
  log : EventLog
  segments : List String
  properties : Json.Fields
  features : List (String × Access)
  profile : Profile
  presenter : Presenter
  /-- Services that are out of order. -/
  faults : List (Service × HostFault)
  /-- Effects in order, with the journey they come from. -/
  effects : List (Option JourneyId × Effect)

namespace Host

variable (host : Host)

/-- A host for one user, with what the profile says about them. -/
def new (now : Instant) (distinctId : String) (profile : Profile) : Host where
  now := now
  distinctId := distinctId
  log := .empty
  segments := profile.segments
  properties := profile.userProperties
  features := profile.features
  profile := profile
  presenter := .empty
  faults := []
  effects := []

def fault? (service : Service) : Option HostFault := (host.faults.find? (·.1 == service)).map (·.2)

/-- An answer, unless the service is out of order. -/
def guarded {α : Type} (service : Service) (answer : Except HostFault α) : Except HostFault α :=
  match host.fault? service with
  | some fault => .error fault
  | none => answer

def lastTime (name user : String) (since before : Option Instant) :
    Except HostFault (Option Instant) :=
  host.guarded .last (host.log.last name user since before)

def firstTime (name user : String) (since before : Option Instant) :
    Except HostFault (Option Instant) :=
  host.guarded .first (host.log.first name user since before)

def countEvents (name user : String) (since before : Option Instant) : Except HostFault Nat :=
  host.guarded .count (host.log.count name user since before)

def inSegment (segment : String) : Except HostFault Bool :=
  host.guarded .segments (.ok (host.segments.contains segment))

def userProperty (key : String) : Except HostFault (Option Json) :=
  host.guarded .identityGet (.ok (Json.Fields.get? host.properties key))

def access (feature : String) : Except HostFault Access :=
  host.guarded .features
    (.ok (((host.features.find? (·.1 == feature)).map (·.2)).getD Access.none))

def fetchProfile : Except HostFault Profile := host.guarded .profile (.ok host.profile)

/-- The key of an event property, which conditions address as `event.` and the key. -/
def eventKey? (key : String) : Option String :=
  if "event.".toList.isPrefixOf key.toList then some (String.ofList (key.toList.drop 6)) else none

def propertyOf (event : Option Json.Fields) (key : String) : Option Json :=
  match event, eventKey? key with
  | some properties, some k => Json.Fields.get? properties k
  | _, _ => (host.userProperty key).toOption.join

/-- The sources of conditions for a user at an instant, with the properties of an event if one is
at hand. A service that is out of order has no data. -/
def reader (user : String) (now : Instant) (event : Option Json.Fields) : Reader where
  now := now
  userProperty := host.propertyOf event
  lastTime name since := (host.lastTime name user since none).toOption.join
  count name since := (host.countEvents name user since none).toOption.getD 0
  inSegment segment := (host.inSegment segment).toOption.getD false
  access feature _ := (host.access feature).toOption.getD Access.none

def note (journey : Option JourneyId) (effect : Effect) : Host :=
  { host with effects := host.effects ++ [(journey, effect)] }

/-- Tracks an event of the device's user now. -/
def track (journey : JourneyId) (name : String) (properties : Json.Fields) :
    Except HostFault Host :=
  let occurrence : Occurrence := ⟨name, host.distinctId, properties, host.now⟩
  host.guarded .track
    (.ok ({ host with log := host.log.record occurrence }.note journey (.tracked occurrence)))

def setProperty (key : String) (value : Json) : Host :=
  { host with properties := Json.Fields.insert host.properties key value }

def setAttribute (key : String) (value : Json) : Except HostFault Host :=
  host.guarded .identitySet (.ok ((host.setProperty key value).note none (.attribute key value)))

def join (segment : String) : Host :=
  if host.segments.contains segment then host
  else { host with segments := segment :: host.segments }

def leave (segment : String) : Host :=
  { host with segments := host.segments.filter (· != segment) }

def setFeature (id : String) (access : Access) : Host :=
  { host with features := (id, access) :: host.features.filter (·.1 != id) }

/-- Puts a service out of order, or in order again. -/
def setFault (service : Service) (fault : Option HostFault) : Host :=
  let others := host.faults.filter (·.1 != service)
  { host with faults := match fault with
    | some fault => (service, fault) :: others
    | none => others }

def recordEvent (name user : String) (time : Instant) : Host :=
  { host with log := host.log.record ⟨name, user, [], time⟩ }

/-- The notifications that the host received. -/
def notifications : List (String × Json) :=
  host.effects.filterMap fun
    | (_, .notified name payload) => some (name, payload)
    | _ => none

end Host

end Engagement
