import Engagement.Analytics
import Engagement.Conversion
import Engagement.Engine.Message
import Engagement.Settings.Basic
import Engagement.Table

/-! # The engine's state

The store and the host, the campaigns installed, and the work under way: at most one step per
journey, checks and other jobs, timers. Work carries what was known when it was set off.
-/

namespace Engagement

/-- How far a step has come. -/
inductive Phase where
  | ready
  /-- Content is on screen until a gate is released. -/
  | showing (gate : String) (result : Showing)
  /-- The gate has been released. -/
  | closing (result : Showing)
  | finished (result : StepResult)
  | reported

/-- The execution of a node for a journey. -/
structure Flight where
  task : Nat
  journey : Journey
  node : Node
  context : StepContext
  phase : Phase
  /-- When it was set off, by the engine's own time. -/
  since : Nat

/-- Work other than steps. -/
inductive Job where
  | goal (journey : Journey) (now : Instant)
  | trigger (campaign : String) (condition : Envelope) (user : String) (properties : Json.Fields)
      (origin : Option Origin) (now : Instant)
  | profile (requested : Bool)
  /-- Waits for the time before content is shown to pass. -/
  | grace (due : Nat)

structure Task where
  id : Nat
  job : Job
  reported : Bool
  /-- When it was set off, by the engine's own time. -/
  since : Nat

/-- Wakes a journey at its deadline. A timer that is not held can no longer be cancelled. -/
structure Timer where
  journey : JourneyId
  node : String
  due : Nat
  held : Bool
  deriving DecidableEq

structure Engine where
  settings : EngineSettings
  host : Host
  store : Store
  /-- Ids for new journeys. -/
  ids : Nat → JourneyId
  issued : Nat
  /-- Analytics so far. -/
  events : List Analytics.Event
  /-- Answers so far. -/
  answers : List Answer
  /-- The device's user. -/
  user : String
  campaigns : Table String Campaign
  /-- Whether a profile was installed since the engine came up. -/
  profileLoaded : Bool
  flights : List Flight
  /-- Why a journey in flight is to be driven again once it parks. -/
  pending : Table JourneyId ResumeReason
  tasks : List Task
  timers : List Timer
  /-- The task of the present grace period. -/
  grace : Option Nat
  /-- Nodes gone through since a journey was last driven from outside. -/
  steps : Table JourneyId Nat
  foreground : Bool
  presentationReady : Bool
  /-- The last task number given. -/
  lastTask : Nat
  /-- Milliseconds that have passed apart from pauses between writes. -/
  elapsed : Nat

namespace Engine

/-- An engine that has not come up yet. -/
def new (settings : EngineSettings) (host : Host) (backend : Backend) (ids : Nat → JourneyId) :
    Engine where
  settings := settings
  host := host
  store := .new backend settings.retry
  ids := ids
  issued := 0
  events := []
  answers := []
  user := ""
  campaigns := []
  profileLoaded := false
  flights := []
  pending := []
  tasks := []
  timers := []
  grace := none
  steps := []
  foreground := true
  presentationReady := true
  lastTask := 0
  elapsed := 0

variable (e : Engine)

/-- The time by the wall clock. -/
def now : Instant := e.host.now

/-- The engine's own time, in which timers and grace periods sleep. Pauses between writes count as
soon as they are sure to come. -/
def uptime : Nat := e.elapsed + e.store.waited

def canPresent : Bool := e.foreground && e.presentationReady

/-- No step and no other work is outstanding. Timers do not count. To ask to be told of this is no
message here: handling it would change nothing but who is told, after the first message that leaves
the engine idle. -/
def isIdle : Bool := e.flights.isEmpty && e.tasks.isEmpty

def node? (journey : Journey) : Option Node := do
  (← e.campaigns.get? journey.campaignId).node? journey.node

/-- Whether a journey is at a node that shows content. -/
def atContent (journey : Journey) : Bool := (e.node? journey).any (·.action.isShowContent)

/-- Whether a journey is at a node that waits. -/
def atWait (journey : Journey) : Bool := (e.node? journey).any (·.action.isWaitUntil)

def flight? (id : JourneyId) : Option Flight := e.flights.find? (·.journey.id = id)

def isFlying (id : JourneyId) : Bool := (e.flight? id).isSome

def note (event : Analytics.Event) : Engine := { e with events := e.events ++ [event] }

def report (kind : Analytics.Kind) (journey : Journey) (node : String) (detail : Option String) :
    Engine :=
  e.note (.ofJourney kind e.uptime journey node detail)

def answer (a : Answer) : Engine := { e with answers := e.answers ++ [a] }

/-! ## Setting off work -/

/-- Starts a job under the next task number. -/
def spawn (job : Job) : Engine :=
  { e with lastTask := e.lastTask + 1, tasks := e.tasks ++ [⟨e.lastTask + 1, job, false, e.uptime⟩] }

def dropTask (id : Nat) : Engine := { e with tasks := e.tasks.filter (·.id ≠ id) }

def dropGrace : Engine :=
  match e.grace with
  | some task => { e.dropTask task with grace := none }
  | none => e

/-- Checks a journey's goal, if it has one and has not converted. -/
def checkGoal (journey : Journey) : Engine :=
  if journey.goal.isSome && journey.convertedAt.isNone then e.spawn (.goal journey e.now) else e

/-- Starts the execution of a journey's node. The host is taken to hold on to the engine until it is
shut down: one that was dropped before would set off no more work, steps or jobs, for the messages
still queued. -/
def launch (journey : Journey) (node : Node) : Engine :=
  { e with
    lastTask := e.lastTask + 1
    flights := e.flights ++
      [⟨e.lastTask + 1, journey, node, ⟨e.now, e.canPresent⟩, .ready, e.uptime⟩] }

/-! ## Timers -/

def cancelTimer (id : JourneyId) : Engine :=
  { e with timers := e.timers.filter fun t => !(t.held && t.journey = id) }

/-- Lets go of a journey's timer without cancelling it. -/
def releaseTimer (id : JourneyId) : Engine :=
  { e with timers := e.timers.map fun t => if t.journey = id then { t with held := false } else t }

/-- Milliseconds from `t` to `deadline`, rounded up. -/
def millisUntil (deadline t : Instant) : Nat := ((deadline.nanosSince t).toNat + 999999) / 1000000

/-- Sets a timer for a journey's deadline. In the background none is set. The host is taken to hold
on to the engine, as for `launch`: the timers of one that was dropped wake nobody. -/
def setTimer (journey : Journey) : Engine :=
  match journey.resumeAt with
  | some deadline =>
    if e.foreground then
      let e := e.cancelTimer journey.id
      { e with timers := e.timers ++
        [⟨journey.id, journey.node, e.uptime + millisUntil deadline e.now, true⟩] }
    else e
  | none => e

end Engine

end Engagement
