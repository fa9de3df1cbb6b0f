import Engagement.Conversion
import Engagement.Proofs.Campaign.Graphs
import Engagement.Proofs.Condition.Validity

/-! # Conditions in accepted campaigns

A condition is evaluated for a trigger, at a branch, on a path out of a wait, or for a goal.
Accepting a campaign covers all of these. So if steps and checks were to stop at a condition that is
refused or has an operator that is not known, they would come to the same for an accepted campaign.
-/

namespace Engagement

theorem bind_eq_ok {ε α β : Type} {x : Except ε α} {f : α → Except ε β} {b : β} :
    (x >>= f) = .ok b ↔ ∃ a, x = .ok a ∧ f a = .ok b := by
  cases x <;> simp [bind, Except.bind]

theorem checkOptional_eq_ok {α : Type} {check : α → Except Misconfiguration Unit} {o : Option α} :
    checkOptional check o = .ok () ↔ ∀ a ∈ o, check a = .ok () := by
  cases o <;> simp [checkOptional]

/-! ## Where conditions stand -/

def Trigger.conditions : Trigger → List Envelope
  | .event _ condition => condition.toList
  | .segment condition => [condition]

/-- The conditions that a node's execution may look at. -/
def Action.conditions : Action → List Envelope
  | .branch condition => [condition]
  | .waitUntil paths => paths.filterMap (·.condition)
  | _ => []

/-- The condition that a check of the goal looks at. An expression of a goal of another kind is not
looked at. -/
def Goal.conditions (goal : Goal) : List Envelope :=
  match goal.kind with
  | .attribute => goal.expression.toList
  | _ => []

namespace Campaign

/-- Every condition that is evaluated on behalf of the campaign. -/
def conditions (campaign : Campaign) : List Envelope :=
  campaign.trigger.conditions ++ campaign.nodes.flatMap (·.action.conditions) ++
    campaign.goal.toList.flatMap (·.conditions)

end Campaign

section

variable {campaign : Campaign} {node : Node} {goal : Goal} {env : Envelope}

theorem Node.valid_of_conditions (accepted : node.validate = .ok ())
    (mem : env ∈ node.action.conditions) : env.validate = .ok () := by
  unfold Node.validate at accepted
  split at accepted
  · rename_i condition branches
    rw [branches, Action.conditions, List.mem_singleton] at mem
    exact mem ▸ accepted
  · rename_i paths waits
    rw [waits, Action.conditions, List.mem_filterMap] at mem
    obtain ⟨path, hp, conditional⟩ := mem
    split at accepted
    · cases accepted
    · have checked := forM_eq_ok accepted path hp
      obtain ⟨⟨⟩, condition, -⟩ := bind_eq_ok.mp checked
      exact checkOptional_eq_ok.mp condition env conditional
  all_goals simp_all [Action.conditions]

theorem Goal.valid_of_conditions (accepted : goal.validate = .ok ())
    (mem : env ∈ goal.conditions) : env.validate = .ok () := by
  obtain ⟨⟨⟩, -, kind⟩ := bind_eq_ok.mp accepted
  unfold Goal.conditions at mem
  split at mem
  · rename_i of_value
    simpa only [checkKind, of_value, Option.mem_toList.mp mem] using kind
  · cases mem

namespace Campaign

theorem reporting_eq_ok {result : Except Misconfiguration Unit} :
    campaign.reporting result = .ok () ↔ result = .ok () := by
  cases result with
  | error _ => exact ⟨nofun, nofun⟩
  | ok _ => exact .rfl

/-- What acceptance says about the parts of a campaign in which conditions stand. -/
structure Covered (campaign : Campaign) : Prop where
  trigger : ∀ condition ∈ campaign.trigger.conditions, condition.validate = .ok ()
  nodes : ∀ node ∈ campaign.nodes, node.validate = .ok ()
  goal : ∀ goal ∈ campaign.goal, goal.validate = .ok ()

theorem valid_of_checkTrigger (h : campaign.checkTrigger = .ok ()) :
    ∀ condition ∈ campaign.trigger.conditions, condition.validate = .ok () := by
  unfold checkTrigger at h
  intro condition mem
  split at h
  · rename_i name given fires
    split at h
    · cases h
    · rw [fires, Trigger.conditions, Option.mem_toList] at mem
      exact checkOptional_eq_ok.mp (reporting_eq_ok.mp h) condition mem
  · rename_i given fires
    rw [fires, Trigger.conditions, List.mem_singleton] at mem
    exact mem ▸ reporting_eq_ok.mp h

theorem validate_of_checkNode (h : campaign.checkNode node = .ok ()) : node.validate = .ok () := by
  unfold checkNode at h
  split at h
  · cases h
  · exact reporting_eq_ok.mp h

theorem covered_of_validate (accepted : campaign.validate = .ok ()) : campaign.Covered := by
  simp only [validate, bind_eq_ok] at accepted
  obtain ⟨⟨⟩, -, ⟨⟩, trigger, ⟨⟩, nodes, ⟨⟩, goal, -⟩ := accepted
  exact ⟨valid_of_checkTrigger trigger,
    fun node hn => validate_of_checkNode (forM_eq_ok nodes node hn),
    checkOptional_eq_ok.mp (reporting_eq_ok.mp goal)⟩

/-- All conditions of an accepted campaign are valid. -/
theorem valid_of_conditions (accepted : campaign.validate = .ok ())
    (mem : env ∈ campaign.conditions) : env.validate = .ok () := by
  have covered := covered_of_validate accepted
  simp only [conditions, List.mem_append, List.mem_flatMap, Option.mem_toList] at mem
  rcases mem with (mem | ⟨node, hn, mem⟩) | ⟨goal, hg, mem⟩
  · exact covered.trigger env mem
  · exact Node.valid_of_conditions (covered.nodes node hn) mem
  · exact Goal.valid_of_conditions (covered.goal goal hg) mem

end Campaign

end

/-! ## Execution without refusals

The functions that look at conditions, with an outcome only if no condition that they look at is
refused or comes to an operator that is not known. -/

namespace WaitPath

def isReady? (path : WaitPath) (reader : Reader) (enteredAt now : Instant) : Option Bool :=
  match path.condition with
  | some condition =>
    if path.hasElapsed enteredAt now then some false else condition.holds? reader
  | none => some (path.limit.isNone || path.hasElapsed enteredAt now)

end WaitPath

/-- The paths are looked at up to the first that is ready. -/
def waitUntil? (reader : Reader) (enteredAt now : Instant) (paths : List WaitPath) :
    Option StepResult := do
  match ← paths.findM? (·.isReady? reader enteredAt now) with
  | some path => some (.proceed path.next)
  | none =>
    let remaining := paths.filter (·.isOpen enteredAt now)
    if remaining.isEmpty then some (.complete .waitExpired)
    else some (.suspend (remaining.foldl (fun t path => sooner t (path.deadline? enteredAt)) none))

namespace Step

def execute? (host : Host) (node : Node) (journey : Journey) (ctx : StepContext) :
    Option (Host × Progress) :=
  match node.action with
  | .branch condition => do
    let holds ← condition.holds? (host.reader journey.distinctId ctx.now none)
    some (host, .finished (match node.next[if holds then 0 else 1]? with
      | some next => .proceed next
      | none => .skip none))
  | .waitUntil paths => do
    let result ← waitUntil? (host.reader journey.distinctId ctx.now none) journey.enteredAt ctx.now
      paths
    some (host, .finished result)
  | _ => some (execute host node journey ctx)

end Step

namespace Goal

def metAt? (goal : Goal) (host : Host) (user : String) (anchor now : Instant) :
    Option (Option Instant) :=
  match goal.kind, goal.expression with
  | .attribute, some expression =>
    if (goal.windowEnd? anchor).any (· ≤ now) then some none
    else do
      let holds ← expression.holds? (host.reader user now none)
      some (if holds then some now else none)
  | _, _ => some (goal.metAt host user anchor now)

end Goal

section

variable {reader : Reader} {enteredAt now : Instant} {paths : List WaitPath} {path : WaitPath}

theorem WaitPath.isReady?_eq (valid : ∀ condition ∈ path.condition, condition.validate = .ok ()) :
    path.isReady? reader enteredAt now = some (path.isReady reader enteredAt now) := by
  unfold isReady? isReady
  rcases conditional : path.condition with _ | condition
  · rfl
  · dsimp only
    rw [Envelope.holds?_eq (valid condition conditional)]
    cases path.hasElapsed enteredAt now <;> rfl

theorem findM?_eq {α : Type} {p? : α → Option Bool} {p : α → Bool} {l : List α}
    (h : ∀ a ∈ l, p? a = some (p a)) : l.findM? p? = some (l.find? p) := by
  induction l with
  | nil => rfl
  | cons a l ih =>
    have first := h a (List.mem_cons_self ..)
    have rest := ih fun b hb => h b (List.mem_cons_of_mem _ hb)
    cases hp : p a <;> simp [List.findM?, first, rest, hp]

theorem waitUntil?_eq
    (valid : ∀ condition ∈ paths.filterMap (·.condition), condition.validate = .ok ()) :
    waitUntil? reader enteredAt now paths = some (waitUntil reader enteredAt now paths) := by
  have looked : paths.findM? (·.isReady? reader enteredAt now) =
      some (paths.find? (·.isReady reader enteredAt now)) :=
    findM?_eq fun path hp => WaitPath.isReady?_eq fun condition conditional =>
      valid condition (List.mem_filterMap.mpr ⟨path, hp, conditional⟩)
  unfold waitUntil? waitUntil
  rw [looked]
  rcases hf : paths.find? (·.isReady reader enteredAt now) with _ | path
  · simp only [hf, Option.bind_eq_bind, Option.bind_some]
    split <;> rfl
  · simp only [hf, Option.bind_eq_bind, Option.bind_some]

/-- The execution of an accepted node refuses no condition. -/
theorem Step.execute?_eq {node : Node} (accepted : node.validate = .ok ()) (host : Host)
    (journey : Journey) (ctx : StepContext) :
    execute? host node journey ctx = some (execute host node journey ctx) := by
  have valid : ∀ env ∈ node.action.conditions, env.validate = .ok () :=
    fun _ => Node.valid_of_conditions accepted
  unfold execute?
  split
  · rename_i condition branches
    rw [branches, Action.conditions] at valid
    rw [Envelope.holds?_eq (valid condition (List.mem_singleton_self _))]
    simp only [execute, branches]
    rfl
  · rename_i paths waits
    rw [waits, Action.conditions] at valid
    rw [waitUntil?_eq valid]
    simp only [execute, waits]
    rfl
  · rfl

/-- A check of an accepted goal refuses no condition. -/
theorem Goal.metAt?_eq {goal : Goal} (accepted : goal.validate = .ok ()) (host : Host)
    (user : String) (anchor now : Instant) :
    goal.metAt? host user anchor now = some (goal.metAt host user anchor now) := by
  have valid : ∀ env ∈ goal.conditions, env.validate = .ok () :=
    fun _ => Goal.valid_of_conditions accepted
  unfold metAt?
  split
  · rename_i expression of_value given
    simp only [conditions, of_value, given, Option.toList_some, List.mem_singleton] at valid
    rw [Envelope.holds?_eq (valid expression rfl)]
    simp only [metAt, of_value, holdsNow, given]
    split <;> rfl
  · rfl

end

end Engagement
