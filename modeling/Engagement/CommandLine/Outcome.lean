import Engagement.CommandLine.Help
import Engagement.Replay
import Engagement.Settings.Loader

/-! # What a command does

A command works on documents by path. It answers with a text, a failure to report and an exit code,
and with the store's document as it is left.
-/

namespace Engagement

/-- Why a command fails. -/
inductive Failure where
  | unread (path : String)
  | unparsed (path : String)
  | unusableStore
  | unreadStore (path : String)
  | invalidCampaigns (bad total : Nat)
  deriving DecidableEq

namespace Failure

def message : Failure → String
  | .unread path => s!"failed to read {path}"
  | .unparsed path => s!"failed to parse {path}"
  | .unusableStore => "failed to initialize journey orchestrator"
  | .unreadStore path => s!"failed to read journey store {path}"
  | .invalidCampaigns bad total => s!"{bad} of {total} campaigns are invalid"

end Failure

structure Outcome where
  output : String
  failure : Option Failure
  /-- Whether the command line itself was at fault. -/
  misused : Bool
  /-- The document that the command left behind, by its place. -/
  written : Option (String × Disk)

namespace Outcome

def exitCode (outcome : Outcome) : Nat :=
  if outcome.misused then 2 else if outcome.failure.isSome then 1 else 0

def ofText (text : String) : Outcome := ⟨text, none, false, none⟩

def failed (text : String) (failure : Failure) : Outcome := ⟨text, some failure, false, none⟩

end Outcome

namespace CommandLine

/-- The document with settings that a command line names. -/
def config? : CommandLine → Option String
  | .perform config _ => config
  | _ => none

/-- The documents that a command reads. -/
def inputPaths (settings : Settings) : CommandLine → List String
  | .perform _ (.run campaigns events _ _ store) =>
    [campaigns, events, store.getD settings.storePath]
  | .perform _ (.validate campaigns) => [campaigns]
  | .perform _ (.inspect store) => [store.getD settings.storePath]
  | _ => []

end CommandLine

/-- What a command needs from outside: documents, fresh ids and the time. -/
structure Surroundings where
  files : Files
  ids : Nat → JourneyId
  /-- Ids for events that have none. -/
  eventIds : Nat → String
  now : Instant

namespace Surroundings

variable (world : Surroundings)

/-- The settings of a document, or the built-in ones if they cannot be loaded. -/
def settings (config : Option String) (bindings : List (String × String)) : Settings :=
  let document := config.bind world.files.text?
  (Settings.load? document bindings).getD .default

/-- Reads a document. -/
def read {α : Type} (path : String) (decode : String → Option α) : Except Failure α :=
  match world.files.text? path with
  | some content => (decode content).elim (.error (.unparsed path)) .ok
  | none => .error (.unread path)

def readCampaigns (path : String) : Except Failure (List Json) :=
  world.read path (Json.readAs? fun j => j.asItems?)

def readEvents (path : String) : Except Failure (List HostEvent) :=
  world.read path (Json.readAs? fun j => do
    (← j.asItems?).zipIdx.mapM fun (item, i) => HostEvent.decode? (world.eventIds i) item)

/-- A text on lines of their own. -/
def asLines (lines : List String) : String := String.join (lines.map (· ++ "\n"))

def validate (campaigns : String) : Outcome :=
  match world.readCampaigns campaigns with
  | .error failure => .failed "" failure
  | .ok raws =>
    let (valid, faults) := Campaign.ofRawList raws
    let text := asLines
      (valid.map (fun c => s!"ok       {c.id} (v{c.version}, {c.nodes.length} nodes)") ++
        faults.map fun m => s!"invalid  {(Fault.configuration m).message}")
    if faults.isEmpty then .ofText text
    else .failed text (.invalidCampaigns faults.length raws.length)

def inspect (path : String) : Outcome :=
  match world.files.read path with
  | .error _ => .failed "" (.unreadStore path)
  | .ok snapshot => .ofText (snapshot.text ++ "\n")

def run (settings : EngineSettings) (script : Script) (path : String) : Outcome :=
  match Replay.run settings script (.file ⟨path, world.files, none⟩) world.ids
    world.now with
  | (_, .error _) => .failed "" .unusableStore
  | (s, .ok ()) =>
    let text := (Replay.ofSession script.user s).encode.pretty 0 ++ "\n"
    let left := match s.engine.store.backend with
      | .file document => some (Path.place path, document.contents)
      | .memory .. => none
    ⟨text, none, false, left⟩

def perform (settings : Settings) : Invocation → Outcome
  | .validate campaigns => world.validate campaigns
  | .inspect store => world.inspect (store.getD settings.storePath)
  | .run campaigns events user segments store =>
    let inputs : Except Failure (List Json × List HostEvent) := do
      let raws ← world.readCampaigns campaigns
      return (raws, ← world.readEvents events)
    match inputs with
    | .error failure => .failed "" failure
    | .ok (raws, events) =>
      world.run settings.engine ⟨raws, segments, user, events⟩ (store.getD settings.storePath)

/-- What becomes of a command line. -/
def answer (bindings : List (String × String)) : CommandLine → Outcome
  | .perform config invocation => world.perform (world.settings config bindings) invocation
  | .explain topic => .ofText topic.text
  | .version => .ofText "journey-runner 0.1.0\n"
  | .misuse => ⟨"", none, true, none⟩

end Surroundings

end Engagement
