import Engagement.Condition.Evaluation

/-! # Short-circuit evaluation

Evaluation stops inside a conjunction or a disjunction at the first argument that decides it. A
strict evaluation, which looks at every argument and combines the truth values afterwards, gets the
same value. It makes more calls: each one carries a mark that says whether it was made for an
argument after a deciding one, and evaluation makes exactly the calls without the mark.
-/

namespace Engagement

/-- A call of a strict evaluation. It is needless when an earlier argument of a combination around
it has decided the combination. -/
structure StrictCall where
  query : Query
  needless : Bool

namespace StrictCall

def needed (query : Query) : StrictCall := ⟨query, false⟩

def waste (call : StrictCall) : StrictCall := { call with needless := true }

end StrictCall

structure StrictEvaluation where
  value : Json
  calls : List StrictCall

namespace StrictEvaluation

def pure (value : Json) : StrictEvaluation := ⟨value, []⟩

def truth (e : StrictEvaluation) : Bool := e.value.truthy

/-- The calls of all arguments in order. Those after the first argument whose truth is `deciding`
are needless. -/
def marked (deciding : Bool) : List StrictEvaluation → List StrictCall
  | [] => []
  | a :: as =>
    a.calls ++
      if a.truth = deciding then (as.flatMap (·.calls)).map StrictCall.waste
      else marked deciding as

def conjunction (args : List StrictEvaluation) : StrictEvaluation :=
  ⟨.bool (args.all truth), marked false args⟩

def disjunction (args : List StrictEvaluation) : StrictEvaluation :=
  ⟨.bool (args.any truth), marked true args⟩

/-- The calls without the needless ones. -/
def shortened (e : StrictEvaluation) : List Query :=
  (e.calls.filter (!·.needless)).map (·.query)

end StrictEvaluation

namespace Expr

mutual

/-- Evaluates every argument, and combines their truth values afterwards. -/
def evalStrict (r : Reader) : Expr → StrictEvaluation
  | .literal value => .pure value
  | .userProperty key => ⟨(r.userProperty key).getD .null, [.needed (.userProperty key)]⟩
  | .eventCount name window =>
    let since := windowStart r.now window
    ⟨.nat (r.count name since), [.needed .now, .needed (.count name since)]⟩
  | .eventLastTime name window =>
    let since := windowStart r.now window
    ⟨Json.ofOption (fun t => .int t.second) (r.lastTime name since),
      [.needed .now, .needed (.lastTime name since)]⟩
  | .eventOccurred name window =>
    let since := windowStart r.now window
    ⟨.bool (r.lastTime name since).isSome, [.needed .now, .needed (.lastTime name since)]⟩
  | .inSegment segment => ⟨.bool (r.inSegment segment), [.needed (.inSegment segment)]⟩
  | .feature id entity field =>
    ⟨featureValue (r.access id entity) field, [.needed (.access id entity)]⟩
  | .now => ⟨.int r.now.second, [.needed .now]⟩
  | .compare operator left right =>
    let a := evalStrict r left
    let b := evalStrict r right
    ⟨.bool (operator.holds a.value b.value), a.calls ++ b.calls⟩
  | .and args => .conjunction (evalEach r args)
  | .or args => .disjunction (evalEach r args)
  | .not arg =>
    let a := evalStrict r arg
    ⟨.bool !a.truth, a.calls⟩
  | .unsupported => .pure .null

def evalEach (r : Reader) : List Expr → List StrictEvaluation
  | [] => []
  | e :: es => evalStrict r e :: evalEach r es

end

mutual

/-- The calls that an expression mentions, from left to right. -/
def mentioned (now : Instant) : Expr → List Query
  | .userProperty key => [.userProperty key]
  | .eventCount name window => [.now, .count name (windowStart now window)]
  | .eventLastTime name window | .eventOccurred name window =>
    [.now, .lastTime name (windowStart now window)]
  | .inSegment segment => [.inSegment segment]
  | .feature id entity _ => [.access id entity]
  | .now => [.now]
  | .compare _ left right => mentioned now left ++ mentioned now right
  | .and args | .or args => mentionedIn now args
  | .not arg => mentioned now arg
  | .literal _ | .unsupported => []

def mentionedIn (now : Instant) : List Expr → List Query
  | [] => []
  | e :: es => mentioned now e ++ mentionedIn now es

end

end Expr

namespace StrictEvaluation

/-! ## Marking -/

theorem shortened_needed (value : Json) (queries : List Query) :
    shortened ⟨value, queries.map .needed⟩ = queries := by
  simp [shortened, StrictCall.needed, List.filter_map, Function.comp_def]

theorem shortened_append (value : Json) (a b : List StrictCall) :
    shortened ⟨value, a ++ b⟩ = shortened ⟨value, a⟩ ++ shortened ⟨value, b⟩ := by
  simp [shortened]

theorem shortened_waste (value : Json) (calls : List StrictCall) :
    shortened ⟨value, calls.map .waste⟩ = [] := by
  simp [shortened, StrictCall.waste]

/-- Marking neither adds nor drops a call, and keeps the order. -/
theorem marked_queries (deciding : Bool) (args : List StrictEvaluation) :
    (marked deciding args).map (·.query) = args.flatMap (·.calls.map (·.query)) := by
  induction args with
  | nil => rfl
  | cons a as ih =>
    simp only [marked, List.map_append, List.flatMap_cons, List.append_cancel_left_eq]
    split
    · simp [StrictCall.waste, List.map_flatMap, Function.comp_def]
    · exact ih

/-! ## Shortening -/

/-- What a strict evaluation comes to without its needless calls. -/
structure Shortens (a : Evaluation) (b : StrictEvaluation) : Prop where
  value : a.value = b.value
  calls : a.calls = b.shortened

variable {a : Evaluation} {b : StrictEvaluation}

theorem Shortens.leaf (value : Json) (queries : List Query) :
    Shortens ⟨value, queries⟩ ⟨value, queries.map .needed⟩ :=
  ⟨rfl, (shortened_needed value queries).symm⟩

theorem Shortens.truth_eq (h : Shortens a b) : a.truth = b.truth := by
  simp only [Evaluation.truth, truth, h.value]

/-- The first argument decides: what comes after it is needless. -/
theorem Shortens.decided (h : Shortens a b) {deciding : Bool} (value : Json)
    (rest : List StrictEvaluation) (hd : b.truth = deciding) :
    Shortens ⟨value, a.calls⟩ ⟨value, marked deciding (b :: rest)⟩ := by
  refine ⟨rfl, ?_⟩
  simp only [marked, hd, ↓reduceIte, shortened_append, shortened_waste, List.append_nil]
  exact h.calls

/-- The first argument leaves the matter open: the others decide. -/
theorem Shortens.open (h : Shortens a b) {c : Evaluation} {value : Json} {deciding : Bool}
    {rest : List StrictEvaluation} (hc : Shortens c ⟨value, marked deciding rest⟩)
    (hd : b.truth ≠ deciding) :
    Shortens (c.after a.calls) ⟨value, marked deciding (b :: rest)⟩ := by
  refine ⟨hc.value, ?_⟩
  simp only [marked, hd, ↓reduceIte, shortened_append, Evaluation.after, hc.calls, h.calls]
  rfl

end StrictEvaluation

namespace Expr

open StrictEvaluation

variable (r : Reader)

mutual

theorem eval_shortens : (e : Expr) → Shortens (e.eval r) (e.evalStrict r)
  | .literal _ | .unsupported => .leaf _ []
  | .userProperty key => .leaf _ [.userProperty key]
  | .eventCount name window => .leaf _ [.now, .count name (windowStart r.now window)]
  | .eventLastTime name window | .eventOccurred name window =>
    .leaf _ [.now, .lastTime name (windowStart r.now window)]
  | .inSegment segment => .leaf _ [.inSegment segment]
  | .feature id entity _ => .leaf _ [.access id entity]
  | .now => .leaf _ [.now]
  | .compare operator left right => by
    have hl := eval_shortens left
    have hr := eval_shortens right
    constructor
    · simp only [eval, evalStrict, hl.value, hr.value]
    · simp only [eval, evalStrict, shortened_append, hl.calls, hr.calls]
      rfl
  | .not arg => by
    have h := eval_shortens arg
    constructor
    · simp only [eval, evalStrict, h.truth_eq]
    · exact h.calls
  | .and args => evalAll_shortens args
  | .or args => evalAny_shortens args

theorem evalAll_shortens : (args : List Expr) →
    Shortens (evalAll r args) (.conjunction (evalEach r args))
  | [] => .leaf _ []
  | e :: es => by
    have h := eval_shortens e
    simp only [evalAll, evalEach, StrictEvaluation.conjunction, List.all_cons, h.truth_eq]
    cases ht : (e.evalStrict r).truth with
    | false => exact h.decided _ _ ht
    | true => exact h.open (evalAll_shortens es) (by simp [ht])

theorem evalAny_shortens : (args : List Expr) →
    Shortens (evalAny r args) (.disjunction (evalEach r args))
  | [] => .leaf _ []
  | e :: es => by
    have h := eval_shortens e
    simp only [evalAny, evalEach, StrictEvaluation.disjunction, List.any_cons, h.truth_eq]
    cases ht : (e.evalStrict r).truth with
    | false => exact h.open (evalAny_shortens es) (by simp [ht])
    | true => exact h.decided _ _ ht

end

mutual

/-- A strict evaluation makes every call that the expression mentions, in the order of the text. -/
theorem evalStrict_queries : (e : Expr) →
    (e.evalStrict r).calls.map (·.query) = e.mentioned r.now
  | .literal _ | .unsupported | .userProperty _ | .eventCount _ _ | .eventLastTime _ _
  | .eventOccurred _ _ | .inSegment _ | .feature _ _ _ | .now => rfl
  | .compare _ left right => by
    simp only [evalStrict, mentioned, List.map_append, evalStrict_queries left,
      evalStrict_queries right]
  | .not arg => evalStrict_queries arg
  | .and args | .or args => by
    simp only [evalStrict, StrictEvaluation.conjunction, StrictEvaluation.disjunction,
      marked_queries, mentioned]
    exact evalEach_queries args

theorem evalEach_queries : (args : List Expr) →
    (evalEach r args).flatMap (·.calls.map (·.query)) = mentionedIn r.now args
  | [] => rfl
  | e :: es => by
    simp only [evalEach, mentionedIn, List.flatMap_cons, evalStrict_queries e,
      evalEach_queries es]

end

/-- Evaluation has the value of the strict evaluation, which looks at every argument, and makes its
calls in the same order without those for arguments after a deciding one. -/
theorem eval_agrees_strict (e : Expr) :
    (e.eval r).value = (e.evalStrict r).value ∧
      (e.eval r).calls = (e.evalStrict r).shortened ∧
      (e.evalStrict r).calls.map (·.query) = e.mentioned r.now :=
  ⟨(eval_shortens r e).value, (eval_shortens r e).calls, evalStrict_queries r e⟩

example (segment : String) :
    let e : Expr := .and [.literal (.bool false), .inSegment segment]
    e.eval r = ⟨.bool false, []⟩ ∧ e.mentioned r.now = [.inSegment segment] :=
  ⟨rfl, rfl⟩

end Expr

end Engagement
