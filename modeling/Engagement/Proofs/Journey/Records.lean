import Engagement.Proofs.Journey.Transitions
import Engagement.Proofs.Time.Spans

/-! # The record of a journey

A journey is changed by transitions and by conversions. Whatever is asked of it, and whether that is
granted or refused, its fields agree: it is recorded as completed, with a reason, exactly when it has
ended, it has a deadline only while it waits, and it converted at the earliest time reported.
-/

namespace Engagement

namespace Journey

/-- What may be asked of a journey. -/
inductive Change where
  | advanceTo (node : String) (now : Instant)
  | park (resumeAt : Option Instant) (now : Instant)
  | finish (reason : ExitReason) (now : Instant)
  | convert (t : Instant)

/-- A transition changes the journey whenever it does not fail. -/
def answered : Journey × Except Fault Unit → Journey × Except Fault Bool
  | (journey, result) => (journey, result.map fun _ => true)

/-- The journey after something was asked of it. The answer is a fault or says whether the journey
has changed. -/
def perform (journey : Journey) : Change → Journey × Except Fault Bool
  | .advanceTo node now => answered (journey.advanceTo node now)
  | .park resumeAt now => answered (journey.park resumeAt now)
  | .finish reason now => answered (journey.finish reason now)
  | .convert t =>
    let (journey, recorded) := journey.recordConversion t
    (journey, .ok recorded)

/-- The journey after some changes were asked of it, one after the other. -/
def after (journey : Journey) (changes : List Change) : Journey :=
  changes.foldl (fun j change => (j.perform change).1) journey

/-- The times of the conversions reported. -/
def conversions (changes : List Change) : List Instant :=
  changes.filterMap fun
    | .convert t => some t
    | _ => none

variable {j k : Journey} {change : Change} {reason : ExitReason} {now : Instant}

theorem after_append (j : Journey) (earlier later : List Change) :
    j.after (earlier ++ later) = (j.after earlier).after later := List.foldl_append

/-! ## Refusals -/

theorem changeStatus_of_terminal (h : j.isTerminal = true) (status : Status) :
    j.changeStatus status = (j, .error (.invalidTransition j.status status)) := by
  have refused : ¬ j.status.canBecome status = true := by
    rw [Status.canBecome_iff]
    exact fun alive => Bool.false_ne_true (alive.symm.trans h)
  simp [changeStatus, Status.change, refused]

theorem advanceTo_of_terminal (h : j.isTerminal = true) (node : String) (now : Instant) :
    j.advanceTo node now = (j, .error (.invalidTransition j.status .active)) := by
  simp [advanceTo, changeStatus_of_terminal h]

theorem park_of_terminal (h : j.isTerminal = true) (resumeAt : Option Instant) (now : Instant) :
    j.park resumeAt now = (j, .error (.invalidTransition j.status .paused)) := by
  simp [park, changeStatus_of_terminal h]

theorem finish_of_terminal (h : j.isTerminal = true) (reason : ExitReason) (now : Instant) :
    j.finish reason now = (j, .error (.invalidTransition j.status reason.status)) := by
  simp [finish, changeStatus_of_terminal h]

theorem recordConversion_eq_self {t : Instant} (h : (j.recordConversion t).2 = false) :
    (j.recordConversion t).1 = j := by
  unfold recordConversion at h ⊢
  cases known : j.convertedAt with
  | none => simp [known] at h
  | some s => by_cases le : s ≤ t <;> simp_all

/-- What is refused changes nothing: the status is tried first, and a journey whose status may
change admits the whole transition. -/
theorem perform_eq_self (h : (j.perform change).2 ≠ .ok true) : (j.perform change).1 = j := by
  have of_alive {result : Journey × Except Fault Unit} (accepted : result.2 = .ok ())
      (h : (answered result).2 ≠ .ok true) : (answered result).1 = j :=
    (h (congrArg (Except.map fun _ => true) accepted)).elim
  cases change with
  | advanceTo node now =>
    cases ht : j.isTerminal with
    | true => exact congrArg Prod.fst (advanceTo_of_terminal ht node now)
    | false => exact of_alive (congrArg Prod.snd (advanceTo_of_alive ht node now)) h
  | park resumeAt now =>
    cases ht : j.isTerminal with
    | true => exact congrArg Prod.fst (park_of_terminal ht resumeAt now)
    | false => exact of_alive (congrArg Prod.snd (park_of_alive ht resumeAt now)) h
  | finish reason now =>
    cases ht : j.isTerminal with
    | true => exact congrArg Prod.fst (finish_of_terminal ht reason now)
    | false => exact of_alive (congrArg Prod.snd (finish_of_alive ht reason now)) h
  | convert t =>
    refine recordConversion_eq_self (Bool.eq_false_iff.mpr fun recorded => h ?_)
    exact congrArg Except.ok recorded

/-- A conversion is kept at the earlier one of the time known and the time reported. -/
theorem perform_convert (j : Journey) (t : Instant) :
    (j.perform (.convert t)).1 = { j with convertedAt := some (j.convertedAt.elim t (min · t)) } := by
  unfold perform recordConversion
  rcases known : j.convertedAt with _ | s
  · simp
  · have same : { j with convertedAt := some s } = j := by rw [← known]
    by_cases le : s ≤ t <;> simp [le, Instant.min_eq, same]

/-- What a journey becomes when something is asked of it. -/
inductive Becomes (j : Journey) : Change → Journey → Prop
  | entered (alive : j.isTerminal = false) (node : String) (now : Instant) :
    j.Becomes (.advanceTo node now) { j with
      status := .active, node := node, enteredAt := now, resumeAt := none, updatedAt := now }
  | parked (alive : j.isTerminal = false) (resumeAt : Option Instant) (now : Instant) :
    j.Becomes (.park resumeAt now)
      { j with status := .paused, resumeAt := resumeAt, updatedAt := now }
  | finished (alive : j.isTerminal = false) (reason : ExitReason) (now : Instant) :
    j.Becomes (.finish reason now) (j.ended reason now)
  | refused {change : Change} (terminal : j.isTerminal = true) (silent : conversions [change] = []) :
    j.Becomes change j
  | converted (t : Instant) :
    j.Becomes (.convert t) { j with convertedAt := some (j.convertedAt.elim t (min · t)) }

theorem becomes_perform (j : Journey) (change : Change) : j.Becomes change (j.perform change).1 := by
  cases change with
  | advanceTo node now =>
    cases ht : j.isTerminal with
    | true =>
      rw [perform, advanceTo_of_terminal ht]
      exact .refused ht rfl
    | false =>
      rw [perform, advanceTo_of_alive ht]
      exact .entered ht node now
  | park resumeAt now =>
    cases ht : j.isTerminal with
    | true =>
      rw [perform, park_of_terminal ht]
      exact .refused ht rfl
    | false =>
      rw [perform, park_of_alive ht]
      exact .parked ht resumeAt now
  | finish reason now =>
    cases ht : j.isTerminal with
    | true =>
      rw [perform, finish_of_terminal ht]
      exact .refused ht rfl
    | false =>
      rw [perform, finish_of_alive ht]
      exact .finished ht reason now
  | convert t =>
    rw [perform_convert]
    exact .converted t

/-! ## Fields that agree -/

/-- The fields of a record agree on whether the journey is under way. -/
inductive Coherent (j : Journey) : Prop
  | under_way (alive : j.isTerminal = false) (waits : j.resumeAt.isSome → j.status = .paused)
      (open_yet : j.completedAt = none) (no_reason : j.exitReason = none)
  | ended {reason : ExitReason} {now : Instant} (status : j.status = reason.status)
      (no_deadline : j.resumeAt = none) (completed : j.completedAt = some now)
      (recorded : j.exitReason = some reason)

namespace Coherent

theorem start (id : JourneyId) (campaign : Campaign) (user : String) (origin : Option Origin)
    (now : Instant) : (Journey.start id campaign user origin now).Coherent :=
  .under_way rfl (fun h => nomatch h) rfl rfl

theorem of_alive (coherent : j.Coherent) (h : j.isTerminal = false) :
    j.completedAt = none ∧ j.exitReason = none := by
  cases coherent with
  | under_way _ _ open_yet no_reason => exact ⟨open_yet, no_reason⟩
  | @ended reason _ status =>
    rw [isTerminal, status, reason.status_isTerminal] at h
    cases h

theorem completed_iff (coherent : j.Coherent) : j.isTerminal = true ↔ j.completedAt.isSome := by
  cases coherent with
  | under_way alive _ open_yet => simp [alive, open_yet]
  | @ended reason _ status _ completed =>
    simp [isTerminal, status, reason.status_isTerminal, completed]

theorem reason_iff (coherent : j.Coherent) : j.completedAt.isSome ↔ j.exitReason.isSome := by
  cases coherent with
  | under_way _ _ open_yet no_reason => simp [open_yet, no_reason]
  | ended _ _ completed recorded => simp [completed, recorded]

theorem of_terminal (coherent : j.Coherent) (h : j.isTerminal = true) :
    ∃ reason, j.exitReason = some reason ∧ j.status = reason.status ∧ j.resumeAt = none := by
  cases coherent with
  | under_way alive => exact (Bool.false_ne_true (alive.symm.trans h)).elim
  | ended status no_deadline _ recorded => exact ⟨_, recorded, status, no_deadline⟩

theorem paused (coherent : j.Coherent) (h : j.resumeAt.isSome) : j.status = .paused := by
  cases coherent with
  | under_way _ waits => exact waits h
  | ended _ no_deadline =>
    rw [no_deadline] at h
    cases h

/-- A transition sets every field that goes with the status it leads to. -/
theorem becomes (coherent : j.Coherent) (h : j.Becomes change k) : k.Coherent := by
  cases h with
  | entered alive =>
    obtain ⟨open_yet, no_reason⟩ := coherent.of_alive alive
    exact .under_way rfl (fun h => nomatch h) open_yet no_reason
  | parked alive =>
    obtain ⟨open_yet, no_reason⟩ := coherent.of_alive alive
    exact .under_way rfl (fun _ => rfl) open_yet no_reason
  | finished => exact .ended rfl rfl rfl rfl
  | refused => exact coherent
  | converted t =>
    cases coherent with
    | under_way alive waits open_yet no_reason => exact .under_way alive waits open_yet no_reason
    | ended status no_deadline completed recorded =>
      exact .ended status no_deadline completed recorded

theorem after (coherent : j.Coherent) (changes : List Change) : (j.after changes).Coherent := by
  induction changes generalizing j with
  | nil => exact coherent
  | cons change changes ih => exact ih (coherent.becomes (j.becomes_perform change))

end Coherent

/-! ## Conversions -/

theorem min?_toList (t : Option Instant) : t.toList.min? = t := by cases t <;> rfl

theorem min?_append_min? (times later : List Instant) :
    (times.min?.toList ++ later).min? = (times ++ later).min? := by
  cases times with
  | nil => rfl
  | cons t times =>
    simp only [List.min?_cons', Option.toList_some, List.cons_append, List.nil_append,
      List.foldl_append]

theorem Becomes.convertedAt (h : j.Becomes change k) :
    k.convertedAt = (j.convertedAt.toList ++ conversions [change]).min? := by
  have kept : j.convertedAt = (j.convertedAt.toList ++ []).min? := by
    rw [List.append_nil, min?_toList]
  cases h with
  | entered | parked | finished => exact kept
  | refused _ silent => rwa [silent]
  | converted t => cases j.convertedAt <;> rfl

/-- The journey converted at the earliest of the time known before and those reported. -/
theorem convertedAt_after (j : Journey) (changes : List Change) :
    (j.after changes).convertedAt = (j.convertedAt.toList ++ conversions changes).min? := by
  induction changes generalizing j with
  | nil =>
    rw [conversions, List.filterMap_nil, List.append_nil, min?_toList]
    rfl
  | cons change changes ih =>
    have split : conversions (change :: changes) = conversions [change] ++ conversions changes :=
      List.filterMap_append (l := [change])
    rw [split, ← List.append_assoc, ← min?_append_min?, ← (j.becomes_perform change).convertedAt]
    exact ih _

/-! ## The end -/

/-- A journey that has ended admits conversions only. -/
theorem Becomes.of_terminal (h : j.Becomes change k) (terminal : j.isTerminal = true) :
    ∃ t, k = { j with convertedAt := t } := by
  cases h with
  | entered alive | parked alive | finished alive =>
    exact (Bool.false_ne_true (alive.symm.trans terminal)).elim
  | refused => exact ⟨_, rfl⟩
  | converted => exact ⟨_, rfl⟩

theorem after_of_terminal (h : j.isTerminal = true) (changes : List Change) :
    ∃ t, j.after changes = { j with convertedAt := t } := by
  induction changes generalizing j with
  | nil => exact ⟨_, rfl⟩
  | cons change changes ih =>
    obtain ⟨t, he⟩ := (j.becomes_perform change).of_terminal h
    have still : (j.perform change).1.isTerminal = true := by rwa [he]
    obtain ⟨u, hu⟩ := ih still
    exact ⟨u, by rw [after, List.foldl_cons, ← after, hu, he]⟩

/-- Once a journey is finished it keeps the status of its reason. -/
theorem status_after_finish (accepted : (j.perform (.finish reason now)).2 = .ok true)
    (later : List Change) : (j.after (.finish reason now :: later)).status = reason.status := by
  cases ht : j.isTerminal with
  | true =>
    rw [perform, finish_of_terminal ht] at accepted
    cases accepted
  | false =>
    have finished : (j.perform (.finish reason now)).1 = j.ended reason now := by
      rw [perform, finish_of_alive ht, answered]
    obtain ⟨t, he⟩ := after_of_terminal (j.ended_isTerminal reason now) later
    rw [after, List.foldl_cons, finished, ← after, he, ended]

/-- Whatever was asked of a journey since it started, its fields agree. It has ended exactly when it
has a time of completion, and that when it has a reason. The status is then that of the reason, and
there is no deadline; before, only a journey that waits has one. It converted at the earliest time
reported. What is refused leaves the record as it is, and once the journey is finished every
transition is refused. -/
theorem record_coherent (id : JourneyId) (campaign : Campaign) (user : String)
    (origin : Option Origin) (begun : Instant) (changes : List Change) :
    let started := start id campaign user origin begun
    let j := started.after changes
    (j.isTerminal = true ↔ j.completedAt.isSome) ∧ (j.completedAt.isSome ↔ j.exitReason.isSome) ∧
    (j.isTerminal = true → ∃ reason, j.exitReason = some reason ∧ j.status = reason.status ∧
      j.resumeAt = none) ∧
    (j.resumeAt.isSome → j.status = .paused) ∧
    j.convertedAt = (conversions changes).min? ∧
    (∀ change, (j.perform change).2 ≠ .ok true → (j.perform change).1 = j) ∧
    ∀ earlier reason t later, changes = earlier ++ .finish reason t :: later →
      ((started.after earlier).perform (.finish reason t)).2 = .ok true →
      (∀ node now, j.advanceTo node now = (j, .error (.invalidTransition reason.status .active))) ∧
      (∀ resumeAt now, j.park resumeAt now =
        (j, .error (.invalidTransition reason.status .paused))) ∧
      ∀ another now,
        j.finish another now = (j, .error (.invalidTransition reason.status another.status)) := by
  intro started j
  have coherent : j.Coherent := (Coherent.start id campaign user origin begun).after changes
  refine ⟨coherent.completed_iff, coherent.reason_iff, coherent.of_terminal, coherent.paused,
    convertedAt_after started changes, fun _ => perform_eq_self, ?_⟩
  rintro earlier reason t later rfl accepted
  have status : j.status = reason.status := by
    rw [← status_after_finish accepted later, ← after_append]
  have ended : j.isTerminal = true := by rw [isTerminal, status, reason.status_isTerminal]
  rw [← status]
  exact ⟨advanceTo_of_terminal ended, park_of_terminal ended, finish_of_terminal ended⟩

end Journey

end Engagement
