import Engagement.Engine.Drive

/-! # Handling messages

What the engine does on each command of the host and on each report of its own work. Reports of
abandoned steps and grace periods are dropped.
-/

namespace Engagement

namespace Engine

variable (e : Engine)

/-! ## Starting journeys -/

/-- The end of a cooldown after the last of some completions. One beyond all instants never
comes. -/
def cooldownOver (seconds : Nat) (records : List Completion) (now : Instant) : Bool :=
  match (records.map (·.completedAt)).max? with
  | none => true
  | some last => (Span.after? last seconds).any (· ≤ now)

/-- Why a user may not enter a campaign now. -/
def refusal? (campaign : Campaign) (user : String) : Option String :=
  let active := e.store.activeFor user
  let records := e.store.ledgerFor user campaign.id
  let inside := active.any (·.campaignId = campaign.id)
  if !e.settings.enabled then some "journeys_disabled"
  else if e.settings.maxActive ≤ active.length then some "active_limit"
  else match campaign.reentry with
    | .concurrent => none
    | .everyRematch => if inside then some "already_active" else none
    | .once =>
      if inside then some "already_active"
      else if records.isEmpty then none else some "already_completed"
    | .cooldown seconds =>
      if inside then some "already_active"
      else if cooldownOver seconds records e.now then none else some "cooldown"

/-- Starts a journey unless the campaign may not be entered. -/
def enter (campaign : Campaign) (user : String) (origin : Option Origin) :
    Engine × Except Fault (Option Journey) :=
  match e.refusal? campaign user with
  | some reason => (e.note (.rejection e.uptime campaign.id user reason), .ok none)
  | none =>
    let journey := Journey.start (e.ids e.issued) campaign user origin e.now
    match e.store.save journey with
    | (store, .error fault) =>
      ({ e with issued := e.issued + 1, store := store }.giveUp journey fault, .error fault)
    | (store, .ok ()) =>
      let e := { e with issued := e.issued + 1, store := store }
      (((e.checkGoal journey).report .entered journey journey.node none).drive journey.id .start,
        .ok (some journey))

/-- Makes a campaign known and starts a journey in it. -/
def onStart (campaign : Campaign) (user : String) (origin : Option Origin) :
    Engine × Except Fault (Option Journey) :=
  match campaign.validate with
  | .error cause => (e, .error (.configuration cause))
  | .ok () =>
    { e with campaigns := e.campaigns.insert campaign.id campaign }.enter campaign user origin

/-! ## Coming up -/

/-- Replaces all campaigns by those of a profile. -/
def install (profile : Profile) : Engine :=
  { e with
    campaigns := profile.parseCampaigns.1.foldl (fun table c => table.insert c.id c) []
    profileLoaded := true }

/-- Takes a stored journey up again. -/
def restore (now : Instant) (journey : Journey) : Engine :=
  if journey.status = .paused ∧ journey.resumeAt.any (now < ·) then e.setTimer journey
  else e.drive journey.id .restore

/-- Takes over what storage holds. -/
def recover : Engine × Except Fault Unit :=
  match e.store.load with
  | (store, .error fault) => ({ e with store := store }, .error fault)
  | (store, .ok stranded) =>
    let e := { e with store := stranded.foldl (fun store j => (store.complete j).1) store }
    let restored := e.store.active
    let now := e.now
    let e := restored.foldl (fun e j => e.restore now j) e
    (restored.foldl checkGoal e, .ok ())

def onBoot : Engine × Except Fault Unit :=
  let e := { e with user := e.host.distinctId }
  match e.host.fetchProfile with
  | .ok profile => (e.install profile).recover
  | .error _ => e.recover

/-! ## Profiles -/

/-- Installs a profile and ends the journeys whose campaign it lacks. -/
def onProfile : Except HostFault Profile → Engine × Except Fault Unit
  | .error fault => (e, .error (.service "profile" fault))
  | .ok profile =>
    let e := e.install profile
    (e.store.active.foldl (fun e j =>
      if (e.campaigns.get? j.campaignId).isSome then e else e.finish j .campaignUnavailable) e,
      .ok ())

/-- Whether some campaign shows a flow. -/
def shows (flow : String) : Bool :=
  e.campaigns.any fun (_, c) => c.nodes.any fun n =>
    match n.action with
    | .showContent f => f = flow
    | _ => false

/-! ## Events and segments -/

/-- Installed campaigns by id, as chosen by `choose`. -/
def chosen {α : Type} (choose : Campaign → Option α) : List (Campaign × α) :=
  ((e.campaigns.filterMap fun (_, c) => (choose c).map fun a => (c, a)).mergeSort
    fun a b => decide (a.1.id ≤ b.1.id))

/-- Checks the goals of a user's journeys, and drives those that wait. -/
def recheck (user : String) (reason : ResumeReason) : Engine :=
  (e.store.activeFor user).foldl (fun e journey =>
    let waiting := e.atWait journey
    let e := e.checkGoal journey
    if waiting then e.drive journey.id reason else e) e

def checkTrigger (campaign : String) (condition : Envelope) (user : String)
    (properties : Json.Fields) (origin : Option Origin) : Engine :=
  e.spawn (.trigger campaign condition user properties origin e.now)

/-- The condition of a campaign that an event triggers. -/
def triggeredBy (event : String) (campaign : Campaign) : Option (Option Envelope) :=
  match campaign.trigger with
  | .event name condition => if name = event then some condition else none
  | .segment _ => none

def segmentCondition (campaign : Campaign) : Option Envelope :=
  match campaign.trigger with
  | .event .. => none
  | .segment condition => some condition

def onEvent (event : HostEvent) : Engine :=
  let occurrence := event.occurrence
  let user := occurrence.distinctId
  let e := e.recheck user (.event occurrence.name)
  (e.chosen (triggeredBy occurrence.name)).foldl (fun e (campaign, condition) =>
    match condition with
    | some condition =>
      e.checkTrigger campaign.id condition user occurrence.properties (some event.origin)
    | none => (e.enter campaign user (some event.origin)).1) e

def onSegmentsChanged : Engine :=
  let user := e.user
  let e := e.recheck user .segmentChange
  (e.chosen segmentCondition).foldl (fun e (campaign, condition) =>
    e.checkTrigger campaign.id condition user [] none) e

/-- Starts the campaign of that id as it is installed now. -/
def onTrigger (campaign user : String) (origin : Option Origin) (holds : Bool) : Engine :=
  match e.campaigns.get? campaign with
  | some campaign => if holds then (e.enter campaign user origin).1 else e
  | none => e

/-! ## Goals and steps -/

/-- Records a conversion that was found. With it the journey ends or goes on, as its policy
says. -/
def onGoal (id : JourneyId) (metAt : Option Instant) : Engine :=
  match metAt, e.store.get? id with
  | some t, some journey =>
    if journey.isTerminal then e
    else match journey.recordConversion t with
      | (_, false) => e
      | (converted, true) =>
        let e := e.report .goalMet converted converted.node none
        match converted.exitPolicy with
        | .onGoalMet => e.finish converted .goalMet
        | .never => e.saving { converted with updatedAt := e.now } fun e => e
  | _, _ => e

/-- Applies the result of a journey's present step. When a step leaves the screen free, other
journeys that wait for it are driven. -/
def onStep (task : Nat) (id : JourneyId) (node : String) (result : StepResult) : Engine :=
  match e.flight? id with
  | none => e
  | some flight =>
    if flight.task ≠ task then e
    else
      let e := { e with flights := e.flights.filter (·.journey.id ≠ id) }
      match e.store.get? id with
      | none => e
      | some journey =>
        if journey.isTerminal ∨ journey.node ≠ node then e
        else
          let frees := !result.isSuspend && e.atContent journey
          let e := e.apply journey result
          if frees && e.canPresent then e.retryPresentations (some id) else e

/-! ## Deadlines and the life of the app -/

def onResumeDue : Engine :=
  let now := e.now
  let canPresent := e.canPresent
  e.store.active.foldl (fun e journey =>
    if journey.status ≠ .paused then e
    else if journey.resumeAt.any (· ≤ now) then e.drive journey.id .timer
    else if canPresent ∧ journey.resumeAt.isNone ∧ e.atContent journey then
      e.drive journey.id .foreground
    else e) e

/-- Drives a journey whose deadline has passed by the wall clock; otherwise its timer is set
again. -/
def onTimer (id : JourneyId) (node : String) : Engine :=
  let e := e.releaseTimer id
  match e.store.get? id with
  | none => e
  | some journey =>
    if journey.status ≠ .paused ∨ journey.node ≠ node then e
    else match journey.resumeAt with
      | none => e
      | some deadline => if deadline ≤ e.now then e.drive id .timer else e.setTimer journey

/-- After the grace period content may be shown again. -/
def onGrace (task : Nat) : Engine :=
  let e := e.dropTask task
  if e.grace = some task then
    let e := { e with grace := none }
    if e.foreground then { e with presentationReady := true }.retryPresentations none else e
  else e

def onLifecycle : Lifecycle → Engine
  | .enteredBackground =>
    let e := { e with foreground := false, presentationReady := false }.dropGrace
    { e with timers := e.timers.filter (!·.held) }
  | .entersForeground =>
    let e := { e with foreground := true }
    let now := e.now
    let active := e.store.active
    let e := active.foldl (fun e j =>
      if j.status = .paused ∧ j.resumeAt.any (now < ·) then e.setTimer j else e) e
    active.foldl checkGoal e.onResumeDue
  | .becameActive =>
    let e := { e with foreground := true }.dropGrace
    let e := e.spawn (.grace (e.uptime + e.settings.grace))
    { e with grace := some e.lastTask }

/-! ## All messages -/

def onCommand : Command → Engine
  | .boot => let (e, result) := e.onBoot; e.answer (.done result)
  | .start campaign user origin =>
    let (e, result) := e.onStart campaign user origin
    e.answer (.started result)
  | .event event => e.onEvent event
  | .segmentsChanged => e.onSegmentsChanged
  | .refreshProfile => e.spawn (.profile true)
  | .contentInvalidated flow => if e.shows flow then e.spawn (.profile false) else e
  | .resumeDue => e.onResumeDue
  | .lifecycle signal => e.onLifecycle signal

def onReport : Report → Engine
  | .profile task fetched requested =>
    let (e, result) := (e.dropTask task).onProfile fetched
    if requested then e.answer (.done result) else e
  | .grace task => e.onGrace task
  | .timer journey node => e.onTimer journey node
  | .step task journey node result => e.onStep task journey node result
  | .goal task journey metAt => (e.dropTask task).onGoal journey metAt
  | .trigger task campaign user origin holds =>
    (e.dropTask task).onTrigger campaign user origin holds

def handle : Message → Engine
  | .command c => e.onCommand c
  | .report r => e.onReport r

/-- Stops all work. Journeys keep the state last saved. -/
def halt : Engine :=
  let showing := e.flights.any fun f => match f.phase with
    | .showing .. | .closing _ => true
    | _ => false
  let host := if showing then { e.host with presenter := e.host.presenter.close } else e.host
  { e with
    host := host, flights := [], pending := [], tasks := [], timers := [], grace := none
    steps := [], campaigns := [], profileLoaded := false
    foreground := true, presentationReady := true }

end Engine

end Engagement
