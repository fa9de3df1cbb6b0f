/-! # Command lines

A command line names a command and its options; an option before the command names a document with
settings. Some options may also be set by variables. What is wrong with a command line is not told
apart.
-/

namespace Engagement

inductive Invocation where
  /-- Replay a script of events. -/
  | run (campaigns events user : String) (segments : List String) (store : Option String)
  /-- Check definitions of campaigns. -/
  | validate (campaigns : String)
  /-- Show what a store holds. -/
  | inspect (store : Option String)
  deriving DecidableEq

/-- What help is about. -/
inductive Topic where
  | program | run | validate | inspect | help
  deriving DecidableEq

inductive CommandLine where
  | perform (config : Option String) (invocation : Invocation)
  | explain (topic : Topic)
  | version
  | misuse
  deriving DecidableEq

namespace CommandLine

/-- An option that takes a value. -/
structure Flag where
  name : String
  /-- Whether it may be given more than once. -/
  isRepeated : Bool
  /-- Whether its value may be empty. -/
  mayBeEmpty : Bool

/-- Options given, in order. -/
abbrev Given := List (String × String)

inductive Scan where
  | done (given : Given)
  | help
  | misuse

/-- Splits `--name=value`. -/
def splitOption (argument : String) : String × Option String :=
  let cs := argument.toList.drop 2
  match cs.dropWhile (· != '=') with
  | [] => (String.ofList cs, none)
  | _ :: value => (String.ofList (cs.takeWhile (· != '=')), some (String.ofList value))

def isOption (argument : String) : Bool := argument.startsWith "--"

/-- Whether an argument can be the value of the option before it. -/
def isValue (argument : String) : Bool := !argument.startsWith "-" || argument = "-"

def accept? (flags : List Flag) (given : Given) (name value : String) : Option Given := do
  let flag ← flags.find? (·.name = name)
  if (!flag.isRepeated && given.any (·.1 = name)) || (!flag.mayBeEmpty && value.isEmpty) then none
  else some (given ++ [(name, value)])

/-- Reads the options of a command. -/
def scan (flags : List Flag) : Given → List String → Scan
  | given, [] => .done given
  | given, argument :: rest =>
    if argument = "--help" ∨ argument = "-h" then .help
    else if argument = "--" then if rest.isEmpty then .done given else .misuse
    else if !isOption argument then .misuse
    else match splitOption argument, rest with
      | (name, some value), rest =>
        match accept? flags given name value with
        | some given => scan flags given rest
        | none => .misuse
      | (_, none), [] => .misuse
      | (name, none), value :: rest =>
        if isValue value then
          match accept? flags given name value with
          | some given => scan flags given rest
          | none => .misuse
        else .misuse

def one? (given : Given) (name : String) : Option String :=
  (given.find? (·.1 = name)).map (·.2)

def campaignsFlag : Flag := ⟨"campaigns", false, false⟩
def storeFlag : Flag := ⟨"store", false, true⟩

def runFlags : List Flag :=
  [campaignsFlag, ⟨"events", false, false⟩, ⟨"distinct-id", false, true⟩,
   ⟨"segments", true, true⟩, storeFlag]

/-- The variable that names the document with settings. -/
def configVariable : String := "JOURNEY_RUNNER_CONFIG"

/-- The variable that names the user of events that name none. -/
def userVariable : String := "JOURNEY_RUNNER_DISTINCT_ID"

def setting? (bindings : List (String × String)) (name : String) : Option String :=
  (bindings.find? (·.1 = name)).map (·.2)

/-- The invocation of a command, given its options. -/
def ofOptions (topic : Topic) (scanned : Scan) (invocation : Given → Option Invocation) :
    Option Invocation ⊕ Topic :=
  match scanned with
  | .help => .inr topic
  | .misuse => .inl none
  | .done given => .inl (invocation given)

def parseRun (user : String) (arguments : List String) : Option Invocation ⊕ Topic :=
  ofOptions .run (scan runFlags [] arguments) fun given => do
    let segments := given.filter (·.1 = "segments") |>.flatMap (·.2.splitOn ",")
    some (.run (← one? given "campaigns") (← one? given "events")
      ((one? given "distinct-id").getD user) segments (one? given "store"))

def parseValidate (arguments : List String) : Option Invocation ⊕ Topic :=
  ofOptions .validate (scan [campaignsFlag] [] arguments) fun given => do
    some (.validate (← one? given "campaigns"))

def parseInspect (arguments : List String) : Option Invocation ⊕ Topic :=
  ofOptions .inspect (scan [storeFlag] [] arguments) fun given =>
    some (.inspect (one? given "store"))

/-- What help is asked about. -/
def parseHelp : List String → CommandLine
  | [] => .explain .program
  | ["run"] => .explain .run
  | ["validate"] => .explain .validate
  | ["inspect"] => .explain .inspect
  | ["help"] => .explain .help
  | _ => .misuse

def finish (config : Option String) : Option Invocation ⊕ Topic → CommandLine
  | .inr topic => .explain topic
  | .inl (some invocation) => .perform config invocation
  | .inl none => .misuse

/-- Reads a command and its options. -/
def parseCommand (bindings : List (String × String)) (config : Option String) :
    List String → CommandLine
  | "run" :: rest =>
    finish config (parseRun ((setting? bindings userVariable).getD "user-1") rest)
  | "validate" :: rest => finish config (parseValidate rest)
  | "inspect" :: rest => finish config (parseInspect rest)
  | "help" :: rest => parseHelp rest
  | _ => .misuse

/-- Reads a whole command line. -/
def parse (bindings : List (String × String)) (arguments : List String) : CommandLine :=
  let fromVariable := setting? bindings configVariable
  match arguments with
  | [] => .misuse
  | argument :: rest =>
    if argument = "--help" ∨ argument = "-h" then .explain .program
    else if argument = "--version" ∨ argument = "-V" then .version
    else match splitOption argument, isOption argument, rest with
      | ("config", some value), true, rest => afterConfig value rest
      | ("config", none), true, value :: rest =>
        if isValue value then afterConfig value rest else .misuse
      | _, true, _ => .misuse
      | _, false, _ => parseCommand bindings fromVariable arguments
where
  /-- What follows the option that names a document with settings. -/
  afterConfig (value : String) : List String → CommandLine
    | "--help" :: _ | "-h" :: _ => .explain .program
    | "--version" :: _ | "-V" :: _ => .version
    | arguments => parseCommand bindings (some value) arguments

end CommandLine

end Engagement
