import Engagement.CommandLine.Outcome
import Std.Time.DateTime.Timestamp

/-! # The program

Reads the arguments, the variables and the documents that a command may need, and writes what comes
of it.
-/

namespace Engagement

namespace Program

/-- What stands at a place. What cannot be read as a text counts as no document. -/
def readDisk (place : String) : IO Disk := do
  try
    return .text (← IO.FS.readFile place)
  catch
    | .noFileOrDirectory .. => return .absent
    | _ => return .directory

/-- Puts a document in its place in one move, unless it is its own sibling. -/
def writeDisk (place : String) (disk : Disk) : IO Unit := do
  if let .text content := disk then
    let folder := "/".intercalate (place.splitOn "/").dropLast
    unless folder.isEmpty do IO.FS.createDirAll folder
    IO.FS.writeFile (Path.sibling place) content
    IO.FS.rename (Path.sibling place) place

/-- The variables that the program looks at, as far as they are set. -/
def readVariables : IO (List (String × String)) := do
  let names := CommandLine.configVariable :: CommandLine.userVariable :: Settings.variableNames
  let found ← names.mapM fun name => do
    return (← IO.getEnv name).map fun value => (name, value)
  return found.filterMap id

/-- The time by the system's clock. -/
def readClock : IO Instant := do
  let t ← Std.Time.Timestamp.now
  let nanos := t.toNanosecondsSinceUnixEpoch.val
  return (Instant.make? (nanos / Instant.nanos) (nanos % Instant.nanos).toNat).getD .epoch

/-- Looks documents up that were read before. -/
def lookUp (known : List (String × Disk)) (place : String) : Disk :=
  ((known.find? (·.1 = place)).map (·.2)).getD .absent

/-- Reads what stands at the places of documents and of their siblings. -/
def readAll (paths : List String) : IO (List (String × Disk)) :=
  (paths ++ paths.map Path.sibling).mapM fun path =>
    return (Path.place path, ← readDisk (Path.place path))

end Program

end Engagement

open Engagement in
def main (arguments : List String) : IO UInt32 := do
  let bindings ← Program.readVariables
  let request := CommandLine.parse bindings arguments
  let base := JourneyId.baseOf (← IO.getRandomBytes 16).toList
  let events := JourneyId.baseOf (← IO.getRandomBytes 16).toList
  let now ← Program.readClock
  let config ← Program.readAll request.config?.toList
  let world (known : List (String × Disk)) : Surroundings :=
    ⟨Program.lookUp known, base.plus, fun n => (events.plus n).text, now⟩
  let settings := (world config).settings request.config? bindings
  let inputs ← Program.readAll (request.inputPaths settings)
  let outcome := (world (config ++ inputs)).answer bindings request
  if let some (place, disk) := outcome.written then Program.writeDisk place disk
  IO.print outcome.output
  if let some failure := outcome.failure then IO.eprintln s!"Error: {failure.message}"
  if outcome.misused then IO.eprintln "error: see --help"
  return outcome.exitCode.toUInt32
