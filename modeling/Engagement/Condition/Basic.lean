import Engagement.Fault
import Engagement.Json.Basic

/-! # Conditions

An expression reads user properties, event history, segments, features and the time. An envelope
adds the version of the language; it is valid when every operator in it is known and no window is
longer than a campaign may configure.
-/

namespace Engagement

inductive FeatureField where
  | allowed | unlimited | balance
  deriving DecidableEq

inductive Operator where
  | equals | notEquals
  | greaterThan | greaterThanOrEqual | lessThan | lessThanOrEqual
  | contains | startsWith | endsWith
  | isSet | isNotSet
  | inList | notInList
  deriving DecidableEq

/-- Windows are in seconds before now; without one all history counts. -/
inductive Expr where
  | literal (value : Json)
  | userProperty (key : String)
  | eventCount (name : String) (window : Option Nat)
  /-- Epoch second of the last occurrence. -/
  | eventLastTime (name : String) (window : Option Nat)
  | eventOccurred (name : String) (window : Option Nat)
  | inSegment (segment : String)
  | feature (id : String) (entity : Option String) (field : FeatureField)
  /-- Epoch second of now. -/
  | now
  | compare (operator : Operator) (left right : Expr)
  | and (args : List Expr)
  | or (args : List Expr)
  | not (arg : Expr)
  /-- An operator that is not known. -/
  | unsupported

structure Envelope where
  version : Nat
  expr : Expr

namespace Expr

/-- The larger of two windows, where none is the smallest. -/
def longer : Option Nat → Option Nat → Option Nat
  | none, w => w
  | w, none => w
  | some m, some n => some (max m n)

mutual

def hasUnsupported : Expr → Bool
  | .unsupported => true
  | .compare _ left right => hasUnsupported left || hasUnsupported right
  | .and args => anyUnsupported args
  | .or args => anyUnsupported args
  | .not arg => hasUnsupported arg
  | _ => false

def anyUnsupported : List Expr → Bool
  | [] => false
  | e :: es => hasUnsupported e || anyUnsupported es

end

mutual

def longestWindow : Expr → Option Nat
  | .eventCount _ window => window
  | .eventLastTime _ window => window
  | .eventOccurred _ window => window
  | .compare _ left right => longer (longestWindow left) (longestWindow right)
  | .and args => longestOf args
  | .or args => longestOf args
  | .not arg => longestWindow arg
  | _ => none

def longestOf : List Expr → Option Nat
  | [] => none
  | e :: es => longer (longestWindow e) (longestOf es)

end

end Expr

namespace Envelope

/-- The highest version of the language that can be evaluated. -/
def supportedVersion : Nat := 1

def validate (env : Envelope) : Except Misconfiguration Unit :=
  if env.version = 0 ∨ supportedVersion < env.version then
    .error (.unsupportedVersion env.version)
  else if env.expr.hasUnsupported then
    .error .unsupportedOperator
  else match env.expr.longestWindow with
    | some seconds =>
      if Span.configurable < seconds then .error (.windowTooLong seconds) else .ok ()
    | none => .ok ()

end Envelope

end Engagement
