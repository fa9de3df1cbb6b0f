import Engagement.Decimal
import Engagement.Journey.Status
import Engagement.Time.Instant

/-! # What can go wrong

Each fault is a cause; its wording stands in one function. A configuration fault says what a
campaign or condition lacks, a host fault what a collaborator reports, and a fault of the engine
wraps either or concerns storage and the engine's own state.
-/

namespace Engagement

/-- What is wrong with a campaign or one of its conditions. -/
inductive Misconfiguration where
  | malformedExpression
  | malformedCampaign (campaign : String)
  | unsupportedVersion (version : Nat)
  | unsupportedOperator
  | windowTooLong (seconds : Nat)
  | spanTooLong (what : String) (seconds : Nat)
  | noPaths (node : String)
  | negativeWeight (node : String)
  | weightsTooLarge (node : String) (total : Total)
  | noFlow (node : String)
  | goalLacks (kind field : String)
  | duplicateNode (node : String)
  | noEntry (node : String)
  | unnamedTrigger
  | unknownSuccessor (node successor : String)
  /-- A fault of the campaign's graph. -/
  | inGraph (campaign : String) (fault : Misconfiguration)
  /-- A fault of something within the campaign, reported with its own text. -/
  | within (campaign : String) (fault : Misconfiguration)

namespace Misconfiguration

/-- The text after `Configuration error: `. -/
def detail : Misconfiguration → String
  | .malformedExpression => "malformed expression"
  | .malformedCampaign campaign => s!"malformed campaign {campaign}"
  | .unsupportedVersion version => s!"unsupported expression version {version}"
  | .unsupportedOperator => "expression contains an unsupported operator"
  | .windowTooLong seconds => s!"expression window of {seconds}s exceeds {Span.configurable}s"
  | .spanTooLong what seconds => s!"{what} of {seconds}s exceeds {Span.configurable}s"
  | .noPaths node => s!"wait node {node} has no paths"
  | .negativeWeight node => s!"random branch {node} has a negative weight"
  | .weightsTooLarge node total => s!"random branch {node} weights sum to {total.message}"
  | .noFlow node => s!"show content {node} has no flow"
  | .goalLacks kind field => s!"{kind} goal requires {field}"
  | .duplicateNode node => s!"duplicate node id {node}"
  | .noEntry node => s!"entry node {node} missing"
  | .unnamedTrigger => "trigger event name is empty"
  | .unknownSuccessor node successor => s!"node {node} references unknown node {successor}"
  | .inGraph campaign fault => s!"campaign {campaign}: {fault.detail}"
  | .within campaign fault => s!"campaign {campaign}: Configuration error: {fault.detail}"

end Misconfiguration

/-- What a collaborator of the engine reports instead of an answer. -/
inductive HostFault where
  | unavailable (message : String)
  | noSurface
  | contentUnavailable (message : String)
  | failed (message : String)
  deriving DecidableEq

namespace HostFault

def message : HostFault → String
  | .unavailable message => s!"unavailable: {message}"
  | .noSurface => "no eligible presentation surface"
  | .contentUnavailable message => s!"content unavailable: {message}"
  | .failed message => message

end HostFault

inductive Fault where
  | configuration (cause : Misconfiguration)
  | service (name : String) (cause : HostFault)
  /-- A write that was refused. -/
  | writeRefused
  /-- A write that failed in every attempt, with the last failure. -/
  | writeFailed (operation : String) (attempts : Nat) (last : Fault)
  | cancelled
  | notRunning
  | invalidTransition (source target : Status)
  /-- Stored text that is no snapshot. -/
  | serialization
  | io

namespace Fault

def message : Fault → String
  | .configuration cause => s!"Configuration error: {cause.detail}"
  | .service name cause => s!"{name} port failure: {cause.message}"
  | .writeRefused => "Persistence error: injected write failure"
  | .writeFailed operation attempts last =>
    s!"Persistence error: {operation} failed after {attempts} attempts: {last.message}"
  | .cancelled => "Operation cancelled"
  | .notRunning => "Journey orchestrator is not running"
  | .invalidTransition source target =>
    s!"Invalid state transition: from {source.title} to {target.title}"
  | .serialization => "Serialization error"
  | .io => "IO error"

end Fault

end Engagement
