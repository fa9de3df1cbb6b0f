import Engagement.Host.Basic
import Engagement.Journey.Basic

/-! # Conversions

Whether a journey's frozen goal is met, and when it was. For an event goal that is the time of the
earliest occurrence in the window, whenever it is discovered; the other goals are met at the time
of the check. A goal whose look-up fails is not met.
-/

namespace Engagement

namespace Goal

variable (goal : Goal) (host : Host) (user : String) (anchor now : Instant)

def eventMetAt : Option Instant := do
  let name ← goal.eventName
  (host.firstTime name user (some anchor) (goal.windowEnd? anchor)).toOption.join

/-- Whether a goal other than an event holds now. -/
def holdsNow : Bool :=
  match goal.kind with
  | .event => false
  | .segmentEnter =>
    (goal.segment.map fun s => (host.inSegment s).toOption.any (· == true)).getD false
  | .segmentLeave =>
    (goal.segment.map fun s => (host.inSegment s).toOption.any (· == false)).getD false
  | .attribute => goal.expression.any fun e => e.holds (host.reader user now none)

def metAt : Option Instant :=
  match goal.kind with
  | .event => goal.eventMetAt host user anchor
  | _ =>
    if (goal.windowEnd? anchor).any (· ≤ now) then none
    else if goal.holdsNow host user now then some now
    else none

end Goal

namespace Journey

/-- When the journey converted, as far as it is known at `now`. -/
def goalMetAt (journey : Journey) (host : Host) (now : Instant) : Option Instant :=
  match journey.convertedAt with
  | some t => some t
  | none => journey.goal.bind fun goal =>
    goal.metAt host journey.distinctId journey.anchorAt now

end Journey

end Engagement
