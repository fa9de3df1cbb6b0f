import Engagement.Json.Record
import Engagement.Store.Basic

/-! # Settings

What can be set, and the value of each setting that is left out. How the value of a field is read
depends on where it comes from, so decoding takes the readers as arguments.
-/

namespace Engagement

/-- How the engine behaves. Times are in milliseconds. -/
structure EngineSettings where
  /-- Whether journeys start at all. -/
  enabled : Bool
  /-- The most journeys one user has under way. -/
  maxActive : Nat
  /-- The most nodes a journey goes through without a pause. -/
  maxSteps : Nat
  /-- The time after becoming active before content is shown. -/
  grace : Nat
  retry : RetryPolicy
  /-- Room for commands that wait to be handled. -/
  commandBuffer : Nat
  deriving DecidableEq

structure Settings where
  nodeId : String
  engine : EngineSettings
  storePath : String
  deriving DecidableEq

namespace EngineSettings

def default : EngineSettings := ⟨true, 100, 64, 500, ⟨3, 50⟩, 256⟩

/-- The fields in declaration order. -/
def fieldNames : List String :=
  ["enabled", "max_active_journeys", "max_steps_per_drive", "foreground_grace_ms",
   "persist_retries", "persist_retry_backoff_ms", "command_buffer"]

/-- Reads all fields. `flag` and `number` take the name of a field and its default, a number also
the bound that it stays below. -/
def build? (flag : String → Bool → Option Bool) (number : Nat → String → Nat → Option Nat) :
    Option EngineSettings := do
  let word := number (twoTo 64)
  some ⟨← flag "enabled" default.enabled,
    ← word "max_active_journeys" default.maxActive,
    ← word "max_steps_per_drive" default.maxSteps,
    ← word "foreground_grace_ms" default.grace,
    ⟨← number (twoTo 32) "persist_retries" default.retry.attempts,
      ← word "persist_retry_backoff_ms" default.retry.backoff⟩,
    ← word "command_buffer" default.commandBuffer⟩

def decode? (j : Json) : Option EngineSettings := do
  let slots ← j.slots? fieldNames
  build? (fun name => slots.withDefault name Json.asBool?)
    (fun bound name => slots.withDefault name (Json.asNat? bound))

end EngineSettings

namespace Settings

def default : Settings := ⟨"device-01", .default, "journeys.json"⟩

/-- All settings on one level. -/
def encode (settings : Settings) : Json :=
  let engine := settings.engine
  Json.record [("node_id", .string settings.nodeId), ("store_path", .string settings.storePath),
    ("enabled", .bool engine.enabled), ("max_active_journeys", .nat engine.maxActive),
    ("max_steps_per_drive", .nat engine.maxSteps), ("foreground_grace_ms", .nat engine.grace),
    ("persist_retries", .nat engine.retry.attempts),
    ("persist_retry_backoff_ms", .nat engine.retry.backoff),
    ("command_buffer", .nat engine.commandBuffer)]

end Settings

end Engagement
