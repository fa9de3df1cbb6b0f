import Engagement.Fault
import Engagement.Json.Basic

/-! # Event history

Occurrences of events in the order in which they were recorded. Look-ups take a window that holds
its start and not its end; while the log is offline they all fail.
-/

namespace Engagement

structure Occurrence where
  name : String
  distinctId : String
  properties : Json.Fields
  time : Instant

structure EventLog where
  occurrences : List Occurrence
  offline : Bool

namespace EventLog

variable (log : EventLog)

def empty : EventLog := ⟨[], false⟩

def record (occurrence : Occurrence) : EventLog :=
  { log with occurrences := log.occurrences ++ [occurrence] }

def named (name : String) : List Occurrence := log.occurrences.filter (·.name == name)

/-- Whether a time lies in the window. -/
def inWindow (since before : Option Instant) (t : Instant) : Bool :=
  since.all (· ≤ t) && before.all (t < ·)

/-- The times of a user's occurrences of an event within a window. -/
def times (name user : String) (since before : Option Instant) :
    Except HostFault (List Instant) :=
  if log.offline then .error (.unavailable "event store offline")
  else
    .ok ((log.occurrences.filter fun o =>
      o.name == name && o.distinctId == user && inWindow since before o.time).map (·.time))

def last (name user : String) (since before : Option Instant) :
    Except HostFault (Option Instant) :=
  (log.times name user since before).map (·.max?)

def first (name user : String) (since before : Option Instant) :
    Except HostFault (Option Instant) :=
  (log.times name user since before).map (·.min?)

def count (name user : String) (since before : Option Instant) : Except HostFault Nat :=
  (log.times name user since before).map (·.length)

def has (name user : String) (since before : Option Instant) : Except HostFault Bool :=
  (log.last name user since before).map (·.isSome)

end EventLog

end Engagement
