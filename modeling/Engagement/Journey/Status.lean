/-! # Journey status

A journey is active while a node of it is due, paused while it waits, and then ends in one of
three ways. The table lists the changes of status; an unfinished journey may also keep the one
it has.
-/

namespace Engagement

inductive Status where
  | active | paused | completed | errored | exited
  deriving DecidableEq

structure StatusChange where
  source : Status
  target : Status
  trigger : String

namespace Status

def name : Status → String
  | .active => "active"
  | .paused => "paused"
  | .completed => "completed"
  | .errored => "errored"
  | .exited => "exited"

/-- The name as it stands in a message. -/
def title : Status → String
  | .active => "Active"
  | .paused => "Paused"
  | .completed => "Completed"
  | .errored => "Errored"
  | .exited => "Exited"

def all : List Status := [.active, .paused, .completed, .errored, .exited]

def ofName? (name : String) : Option Status := all.find? (·.name == name)

def isTerminal : Status → Bool
  | .active | .paused => false
  | .completed | .errored | .exited => true

def changes : List StatusChange :=
  [⟨.active, .paused, "suspend"⟩,
   ⟨.active, .completed, "journey_complete"⟩,
   ⟨.active, .exited, "exit"⟩,
   ⟨.active, .errored, "processing_error"⟩,
   ⟨.paused, .active, "resume"⟩,
   ⟨.paused, .completed, "goal_met_while_paused"⟩,
   ⟨.paused, .exited, "exit_while_paused"⟩,
   ⟨.paused, .errored, "resume_error"⟩]

def canBecome (source target : Status) : Bool :=
  (source == target && !source.isTerminal) ||
    changes.any fun c => c.source == source && c.target == target

theorem canBecome_iff (source target : Status) :
    source.canBecome target = true ↔ source.isTerminal = false := by
  cases source <;> cases target <;> decide

end Status

end Engagement
