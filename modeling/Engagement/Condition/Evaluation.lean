import Engagement.Condition.Comparison

/-! # Evaluating conditions

Evaluation asks a reader and never fails: what is missing has the default of its operator. The
calls made are part of the result, in their order.
-/

namespace Engagement

/-- What a user may do with a feature. -/
structure Access where
  allowed : Bool
  unlimited : Bool
  balance : Int
  deriving DecidableEq

namespace Access

def none : Access := ⟨false, false, 0⟩

end Access

/-- The sources of one evaluation: one user at one instant. -/
structure Reader where
  now : Instant
  userProperty : String → Option Json
  /-- Last occurrence of an event since an instant. -/
  lastTime : String → Option Instant → Option Instant
  /-- Occurrences of an event since an instant. -/
  count : String → Option Instant → Nat
  inSegment : String → Bool
  access : String → Option String → Access

/-- A call made to a reader. -/
inductive Query where
  /-- A look at the clock, which goes before every question about events. -/
  | now
  | userProperty (key : String)
  | lastTime (name : String) (since : Option Instant)
  | count (name : String) (since : Option Instant)
  | inSegment (segment : String)
  | access (feature : String) (entity : Option String)
  deriving DecidableEq

structure Evaluation where
  value : Json
  calls : List Query

namespace Evaluation

def pure (value : Json) : Evaluation := ⟨value, []⟩

def truth (e : Evaluation) : Bool := e.value.truthy

/-- The same value, after other calls. -/
def after (e : Evaluation) (calls : List Query) : Evaluation := ⟨e.value, calls ++ e.calls⟩

/-- The questions about the user, without the looks at the clock. -/
def queries (e : Evaluation) : List Query := e.calls.filter (· != .now)

end Evaluation

namespace Expr

/-- The start of a window. One that reaches back too far covers all history. -/
def windowStart (now : Instant) (window : Option Nat) : Option Instant :=
  window.bind (Span.before? now)

def featureValue (access : Access) : FeatureField → Json
  | .allowed => .bool access.allowed
  | .unlimited => .bool access.unlimited
  | .balance => .int access.balance

mutual

def eval (r : Reader) : Expr → Evaluation
  | .literal value => .pure value
  | .userProperty key => ⟨(r.userProperty key).getD .null, [.userProperty key]⟩
  | .eventCount name window =>
    let since := windowStart r.now window
    ⟨.nat (r.count name since), [.now, .count name since]⟩
  | .eventLastTime name window =>
    let since := windowStart r.now window
    ⟨Json.ofOption (fun t => .int t.second) (r.lastTime name since), [.now, .lastTime name since]⟩
  | .eventOccurred name window =>
    let since := windowStart r.now window
    ⟨.bool (r.lastTime name since).isSome, [.now, .lastTime name since]⟩
  | .inSegment segment => ⟨.bool (r.inSegment segment), [.inSegment segment]⟩
  | .feature id entity field => ⟨featureValue (r.access id entity) field, [.access id entity]⟩
  | .now => ⟨.int r.now.second, [.now]⟩
  | .compare operator left right =>
    let a := eval r left
    let b := eval r right
    ⟨.bool (operator.holds a.value b.value), a.calls ++ b.calls⟩
  | .and args => evalAll r args
  | .or args => evalAny r args
  | .not arg =>
    let a := eval r arg
    ⟨.bool !a.truth, a.calls⟩
  | .unsupported => .pure .null

/-- Stops at the first false argument. -/
def evalAll (r : Reader) : List Expr → Evaluation
  | [] => .pure (.bool true)
  | e :: es =>
    let a := eval r e
    if a.truth then (evalAll r es).after a.calls else ⟨.bool false, a.calls⟩

/-- Stops at the first true argument. -/
def evalAny (r : Reader) : List Expr → Evaluation
  | [] => .pure (.bool false)
  | e :: es =>
    let a := eval r e
    if a.truth then ⟨.bool true, a.calls⟩ else (evalAny r es).after a.calls

end

end Expr

namespace Envelope

/-- The value of a valid envelope; any other is false and asks nothing. -/
def evaluate (env : Envelope) (r : Reader) : Evaluation :=
  match env.validate with
  | .ok _ => env.expr.eval r
  | .error _ => .pure (.bool false)

def holds (env : Envelope) (r : Reader) : Bool := (env.evaluate r).truth

end Envelope

end Engagement
