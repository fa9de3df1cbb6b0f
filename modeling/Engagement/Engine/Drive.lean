import Engagement.Engine.Basic

/-! # Driving journeys

A journey is driven by executing its node. The result makes it enter the next node, where it is
driven on, wait, or end. Every change is saved before it is reported; a change that cannot be saved
ends the journey as errored.
-/

namespace Engagement

namespace Engine

variable (e : Engine)

/-- Abandons a journey's step. Content that it shows is dismissed. -/
def abandon (journey : Journey) : Engine :=
  match e.flight? journey.id with
  | none => e
  | some flight =>
    let presenter := match flight.phase with
      | .showing .. | .closing _ => e.host.presenter.close
      | _ => e.host.presenter
    let presenter := if e.atContent journey then presenter.dismiss else presenter
    { e with
      flights := e.flights.filter (·.journey.id ≠ journey.id)
      host := { e.host with presenter := presenter } }

/-- Forgets what is planned for a journey. -/
def forget (id : JourneyId) : Engine :=
  let e := e.cancelTimer id
  { e with pending := e.pending.erase id, steps := e.steps.erase id }

/-- Ends a journey and moves it to the ledger. -/
def finish (journey : Journey) (reason : ExitReason) : Engine :=
  let e := (e.abandon journey).forget journey.id
  match journey.finish reason e.now with
  | (_, .error _) => e
  | (ended, .ok ()) =>
    { e with store := (e.store.complete ended).1 }.report (.ofStatus ended.status) ended ended.node
      (some reason.label)

/-- Ends a journey whose state could not be saved. -/
def giveUp (journey : Journey) (fault : Fault) : Engine :=
  e.finish journey (.errored fault.message)

/-- Saves a journey and goes on, or gives the journey up. -/
def saving (journey : Journey) (next : Engine → Engine) : Engine :=
  match e.store.save journey with
  | (store, .ok ()) => next { e with store := store }
  | (store, .error fault) => { e with store := store }.giveUp journey fault

/-- Drives a journey at its node. -/
def driveAt (journey : Journey) (reason : ResumeReason) : Engine :=
  match e.campaigns.get? journey.campaignId with
  | none => if e.profileLoaded then e.finish journey .campaignUnavailable else e
  | some campaign =>
    match campaign.node? journey.node with
    | none =>
      e.finish journey (.errored s!"node {journey.node} not found in campaign {campaign.id}")
    | some node =>
      let steps := if reason = .advance then e.steps else e.steps.erase journey.id
      ({ e with steps := steps }.cancelTimer journey.id).launch journey node

/-- Drives a journey, or remembers to once its present step parks. -/
def drive (id : JourneyId) (reason : ResumeReason) : Engine :=
  if e.isFlying id then { e with pending := e.pending.insert id reason }
  else match e.store.get? id with
    | some journey => if journey.isTerminal then e else e.driveAt journey reason
    | none => e

/-- Makes a journey enter its next node, unless it has gone too far without a pause. -/
def advance (journey : Journey) (next : String) (kind : Analytics.Kind) : Engine :=
  let steps := (e.steps.get? journey.id).getD 0 + 1
  let e := { e with steps := e.steps.insert journey.id steps }
  if e.settings.maxSteps < steps then
    e.finish journey (.errored s!"exceeded {e.settings.maxSteps} steps without suspending")
  else match journey.advanceTo next e.now with
    | (_, .error _) => e
    | (moved, .ok ()) =>
      e.saving moved fun e => (e.report kind moved journey.node (some next)).drive moved.id .advance

/-- Drives a parked journey again if that was asked for while its step ran. -/
def drivePending (id : JourneyId) : Engine :=
  match e.pending.get? id with
  | some reason => { e with pending := e.pending.erase id }.drive id reason
  | none => e

/-- Makes a journey wait. One that waits for the same deadline already is not saved again. -/
def park (journey : Journey) (deadline : Option Instant) : Engine :=
  let e := { e with steps := e.steps.erase journey.id }
  match journey.park deadline e.now with
  | (_, .error _) => e
  | (parked, .ok ()) =>
    if journey.status = .paused ∧ journey.resumeAt = deadline then
      (e.setTimer parked).drivePending parked.id
    else
      e.saving parked fun e =>
        ((e.report .parked parked parked.node none).setTimer parked).drivePending parked.id

/-- What a step's result does to its journey. -/
def apply (journey : Journey) : StepResult → Engine
  | .proceed next => e.advance journey next .stepCompleted
  | .skip (some next) => e.advance journey next .stepSkipped
  | .skip none => e.finish journey .completed
  | .suspend deadline => e.park journey deadline
  | .complete reason => e.finish journey reason

/-- Drives the journeys that wait for the screen, but for one. -/
def retryPresentations (except : Option JourneyId) : Engine :=
  e.store.active.foldl (fun e journey =>
    if some journey.id ≠ except ∧ journey.status = .paused ∧ e.atContent journey then
      e.drive journey.id .foreground
    else e) e

end Engine

end Engagement
