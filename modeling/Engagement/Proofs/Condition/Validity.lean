import Engagement.Condition.Evaluation

/-! # Valid conditions

Validation walks twice over an expression: for operators that are not known, and for the longest
window. Both walks see every subexpression. Evaluation reaches nothing else, so a valid condition is
never refused, and no operator without a meaning is evaluated.
-/

namespace Engagement

namespace Expr

/-- The expressions right below this one. -/
def parts : Expr → List Expr
  | .compare _ left right => [left, right]
  | .and args | .or args => args
  | .not arg => [arg]
  | _ => []

/-- The first expression occurs in the second, at any depth. -/
inductive Within : Expr → Expr → Prop
  | refl (e : Expr) : Within e e
  | part {sub arg e : Expr} (mem : arg ∈ e.parts) (h : Within sub arg) : Within sub e

/-- The window of a question about events. -/
def window? : Expr → Option Nat
  | .eventCount _ window | .eventLastTime _ window | .eventOccurred _ window => window
  | _ => none

theorem forall_within_iff {P : Expr → Prop} {e : Expr} : (∀ sub, Within sub e → P sub) ↔
    P e ∧ ∀ arg ∈ e.parts, ∀ sub, Within sub arg → P sub := by
  constructor
  · exact fun h => ⟨h e (.refl e), fun arg mem sub hs => h sub (.part mem hs)⟩
  · rintro ⟨here, below⟩ sub hs
    cases hs with
    | refl => exact here
    | part mem hs => exact below _ mem sub hs

/-! ## The two walks -/

mutual

theorem hasUnsupported_eq_false_iff : (e : Expr) →
    (e.hasUnsupported = false ↔ ∀ sub, Within sub e → sub ≠ .unsupported)
  | .compare _ left right => by
    rw [forall_within_iff]
    simp [hasUnsupported, parts, hasUnsupported_eq_false_iff left,
      hasUnsupported_eq_false_iff right]
  | .and args | .or args => by
    rw [forall_within_iff]
    simp [hasUnsupported, parts, anyUnsupported_eq_false_iff args]
  | .not arg => by
    rw [forall_within_iff]
    simp [hasUnsupported, parts, hasUnsupported_eq_false_iff arg]
  | .literal _ | .userProperty _ | .eventCount _ _ | .eventLastTime _ _ | .eventOccurred _ _
  | .inSegment _ | .feature _ _ _ | .now | .unsupported => by
    rw [forall_within_iff]
    simp [hasUnsupported, parts]

theorem anyUnsupported_eq_false_iff : (es : List Expr) →
    (anyUnsupported es = false ↔ ∀ e ∈ es, ∀ sub, Within sub e → sub ≠ .unsupported)
  | [] => by simp [anyUnsupported]
  | e :: es => by
    rw [List.forall_mem_cons, ← hasUnsupported_eq_false_iff e, ← anyUnsupported_eq_false_iff es]
    simp [anyUnsupported]

end

/-- No window is longer than `limit` seconds. -/
def Fits (limit : Nat) (window : Option Nat) : Prop := ∀ seconds ∈ window, seconds ≤ limit

theorem fits_none (limit : Nat) : Fits limit none := by simp [Fits]

theorem fits_longer_iff {limit : Nat} {v w : Option Nat} :
    Fits limit (longer v w) ↔ Fits limit v ∧ Fits limit w := by
  cases v <;> cases w <;> simp only [Fits, longer, Option.mem_def] <;> grind

mutual

theorem fits_longestWindow_iff (limit : Nat) : (e : Expr) →
    (Fits limit e.longestWindow ↔ ∀ sub, Within sub e → Fits limit sub.window?)
  | .compare _ left right => by
    rw [forall_within_iff, longestWindow, fits_longer_iff]
    simp [parts, window?, fits_none, fits_longestWindow_iff limit left,
      fits_longestWindow_iff limit right]
  | .and args | .or args => by
    rw [forall_within_iff, longestWindow, fits_longestOf_iff limit args]
    simp [parts, window?, fits_none]
  | .not arg => by
    rw [forall_within_iff, longestWindow, fits_longestWindow_iff limit arg]
    simp [parts, window?, fits_none]
  | .literal _ | .userProperty _ | .eventCount _ _ | .eventLastTime _ _ | .eventOccurred _ _
  | .inSegment _ | .feature _ _ _ | .now | .unsupported => by
    rw [forall_within_iff]
    simp [longestWindow, window?, parts]

theorem fits_longestOf_iff (limit : Nat) : (es : List Expr) →
    (Fits limit (longestOf es) ↔ ∀ e ∈ es, ∀ sub, Within sub e → Fits limit sub.window?)
  | [] => by simp [longestOf, fits_none]
  | e :: es => by
    rw [List.forall_mem_cons, ← fits_longestWindow_iff limit e, ← fits_longestOf_iff limit es,
      longestOf, fits_longer_iff]

end

/-! ## Evaluation without unknown operators -/

mutual

/-- The evaluation, unless it comes to an operator that is not known. -/
def eval? (r : Reader) : Expr → Option Evaluation
  | .compare operator left right => do
    let a ← eval? r left
    let b ← eval? r right
    some ⟨.bool (operator.holds a.value b.value), a.calls ++ b.calls⟩
  | .and args => evalAll? r args
  | .or args => evalAny? r args
  | .not arg => do
    let a ← eval? r arg
    some ⟨.bool !a.truth, a.calls⟩
  | .unsupported => none
  | e => some (eval r e)

def evalAll? (r : Reader) : List Expr → Option Evaluation
  | [] => some (.pure (.bool true))
  | e :: es => do
    let a ← eval? r e
    if a.truth then return (← evalAll? r es).after a.calls else some ⟨.bool false, a.calls⟩

def evalAny? (r : Reader) : List Expr → Option Evaluation
  | [] => some (.pure (.bool false))
  | e :: es => do
    let a ← eval? r e
    if a.truth then some ⟨.bool true, a.calls⟩ else return (← evalAny? r es).after a.calls

end

section

variable (r : Reader)

mutual

theorem eval?_eq : (e : Expr) → e.hasUnsupported = false → e.eval? r = some (e.eval r)
  | .compare _ left right, h => by
    obtain ⟨hl, hr⟩ := Bool.or_eq_false_iff.mp h
    simp [eval?, eval, eval?_eq left hl, eval?_eq right hr]
  | .and args, h => evalAll?_eq args h
  | .or args, h => evalAny?_eq args h
  | .not arg, h => by simp [eval?, eval, eval?_eq arg h]
  | .literal _, _ | .userProperty _, _ | .eventCount _ _, _ | .eventLastTime _ _, _
  | .eventOccurred _ _, _ | .inSegment _, _ | .feature _ _ _, _ | .now, _ => rfl

theorem evalAll?_eq : (es : List Expr) → anyUnsupported es = false →
    evalAll? r es = some (evalAll r es)
  | [], _ => rfl
  | e :: es, h => by
    obtain ⟨he, hes⟩ := Bool.or_eq_false_iff.mp h
    simp only [evalAll?, evalAll, eval?_eq e he, evalAll?_eq es hes, Option.bind_eq_bind,
      Option.bind_some]
    split <;> rfl

theorem evalAny?_eq : (es : List Expr) → anyUnsupported es = false →
    evalAny? r es = some (evalAny r es)
  | [], _ => rfl
  | e :: es, h => by
    obtain ⟨he, hes⟩ := Bool.or_eq_false_iff.mp h
    simp only [evalAny?, evalAny, eval?_eq e he, evalAny?_eq es hes, Option.bind_eq_bind,
      Option.bind_some]
    split <;> rfl

end

end

end Expr

namespace Envelope

variable {env : Envelope}

/-- The condition can be evaluated: its language is supported, it has no unknown operator, and it
does not look back further than a campaign may configure. -/
structure Evaluable (env : Envelope) : Prop where
  version_pos : 1 ≤ env.version
  version_le : env.version ≤ supportedVersion
  known : ∀ sub : Expr, sub.Within env.expr → sub ≠ .unsupported
  windows : ∀ sub : Expr, sub.Within env.expr → ∀ seconds, sub.window? = some seconds →
    seconds ≤ Span.configurable

/-- Validation accepts exactly what can be evaluated. -/
theorem validate_eq_ok_iff : env.validate = .ok () ↔ env.Evaluable := by
  have walks : env.validate = .ok () ↔ (1 ≤ env.version ∧ env.version ≤ supportedVersion) ∧
      env.expr.hasUnsupported = false ∧ Expr.Fits Span.configurable env.expr.longestWindow := by
    unfold validate
    split
    · simp; omega
    · rename_i supported
      have supported : 1 ≤ env.version ∧ env.version ≤ supportedVersion := by omega
      rcases hu : env.expr.hasUnsupported with _ | _
      · rcases hw : env.expr.longestWindow with _ | seconds
        · simp [supported, Expr.fits_none]
        · simp [supported, Expr.Fits]
      · simp
  rw [walks, Expr.hasUnsupported_eq_false_iff, Expr.fits_longestWindow_iff]
  exact ⟨fun ⟨⟨pos, le⟩, known, windows⟩ => ⟨pos, le, known, windows⟩,
    fun h => ⟨⟨h.version_pos, h.version_le⟩, h.known, h.windows⟩⟩

/-- The evaluation, unless it is refused or comes to an operator that is not known. -/
def evaluate? (env : Envelope) (r : Reader) : Option Evaluation :=
  match env.validate with
  | .ok _ => env.expr.eval? r
  | .error _ => none

def holds? (env : Envelope) (r : Reader) : Option Bool := (env.evaluate? r).map (·.truth)

/-- A valid condition is evaluated, whatever the answers. -/
theorem evaluate?_eq (valid : env.validate = .ok ()) (r : Reader) :
    env.evaluate? r = some (env.evaluate r) := by
  have known := Expr.hasUnsupported_eq_false_iff env.expr |>.mpr (validate_eq_ok_iff.mp valid).known
  simp only [evaluate?, evaluate, valid]
  exact Expr.eval?_eq r env.expr known

theorem holds?_eq (valid : env.validate = .ok ()) (r : Reader) :
    env.holds? r = some (env.holds r) := by
  simp [holds?, holds, evaluate?_eq valid]

end Envelope

end Engagement
