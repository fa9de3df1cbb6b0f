import Mathlib.Data.List.Basic
import Engagement.Conversion
import Engagement.Proofs.Journey.Transitions
import Engagement.Proofs.Time.Spans

/-! # Goals of an event

As long as look-ups succeed, a goal of an event is met at the earliest occurrence that counts,
whenever that is asked. Once it is known when a goal was met, nothing is looked up any more.
-/

namespace Engagement

/-- `t` is there if `u` is, and is no later. -/
def NoLater (t u : Option Instant) : Prop := ∀ v, u = some v → ∃ v', t = some v' ∧ v' ≤ v

namespace NoLater

variable {t u v : Option Instant}

theorem refl (t : Option Instant) : NoLater t t := fun v h => ⟨v, h, Int.le_refl _⟩

theorem none (t : Option Instant) : NoLater t .none := fun _ h => nomatch h

theorem trans (h : NoLater t u) (h' : NoLater u v) : NoLater t v := by
  intro x hx
  obtain ⟨y, hy, le⟩ := h' x hx
  obtain ⟨z, hz, le'⟩ := h y hy
  exact ⟨z, hz, Int.le_trans le' le⟩

theorem antisymm (h : NoLater t u) (h' : NoLater u t) : t = u := by
  cases u with
  | none =>
    cases t with
    | none => rfl
    | some x =>
      obtain ⟨y, hy, -⟩ := h' x rfl
      cases hy
  | some y =>
    obtain ⟨x, rfl, le⟩ := h y rfl
    obtain ⟨z, hz, le'⟩ := h' x rfl
    obtain rfl := Option.some.inj hz
    exact congrArg some (Std.le_antisymm le le')

end NoLater

namespace Journey

/-- Whether an occurrence is one of the event of the journey's goal, by the journey's user and within
the window of the goal. -/
def qualifies (k : Journey) (o : Occurrence) : Bool :=
  k.goal.any fun goal => goal.eventName == some o.name && o.distinctId == k.distinctId &&
    EventLog.inWindow (some k.anchorAt) (goal.windowEnd? k.anchorAt) o.time

/-- The time of the earliest occurrence that qualifies. -/
def earliest (k : Journey) (occurrences : List Occurrence) : Option Instant :=
  ((occurrences.filter k.qualifies).map (·.time)).min?

/-- With more occurrences there may be an earlier one. -/
theorem noLater_earliest (k : Journey) {occurrences more : List Occurrence}
    (sub : occurrences ⊆ more) : NoLater (k.earliest more) (k.earliest occurrences) := by
  intro v hv
  obtain ⟨o, ho, rfl⟩ := List.mem_map.mp (List.min?_mem hv)
  rw [List.mem_filter] at ho
  have found : o.time ∈ (more.filter k.qualifies).map (·.time) :=
    List.mem_map_of_mem (List.mem_filter.mpr ⟨sub ho.1, ho.2⟩)
  rcases least : k.earliest more with _ | u
  · rw [List.min?_eq_none_iff.mp least] at found
    cases found
  · exact ⟨u, rfl, (List.min?_eq_some_iff.mp least).2 _ found⟩

end Journey

/-- Look-ups of the first occurrence of an event succeed. -/
structure Host.LooksUp (host : Host) : Prop where
  online : host.log.offline = false
  first : host.fault? .first = none

namespace Journey

variable {j k : Journey} {goal : Goal} {name : String} {host more : Host} {t now later : Instant}
  {o : Occurrence}

/-- A check of an event goal finds the earliest occurrence that qualifies. -/
theorem goalMetAt_eq_earliest (looksUp : host.LooksUp) (unmet : j.convertedAt = none)
    (goal_eq : j.goal = some goal) (event : goal.kind = .event) (now : Instant) :
    j.goalMetAt host now = j.earliest host.log.occurrences := by
  unfold goalMetAt
  simp only [unmet, goal_eq, Option.bind_some, Goal.metAt, event]
  unfold Goal.eventMetAt earliest qualifies
  rcases hn : goal.eventName with _ | name
  · simp [goal_eq, hn]
  · simp [goal_eq, hn, Host.firstTime, Host.guarded, looksUp.first, EventLog.first,
      EventLog.times, looksUp.online, Except.map, Except.toOption, Bool.beq_comm]

/-- An occurrence of an event by the journey's user, not before the anchor of the goal, and before the
end of its window, unless there is no window or its end cannot be represented. -/
structure Counts (journey : Journey) (goal : Goal) (name : String) (o : Occurrence) : Prop where
  named : o.name = name
  own : o.distinctId = journey.distinctId
  started : journey.anchorAt ≤ o.time
  inWindow : ∀ seconds : Nat, 0 < seconds → goal.window = some seconds →
    ∀ ending, Span.after? journey.anchorAt seconds = some ending → o.time < ending

theorem windowEnd?_eq_some {anchor ending : Instant} : goal.windowEnd? anchor = some ending ↔
    ∃ seconds : Nat, 0 < seconds ∧ goal.window = some seconds ∧
      Span.after? anchor seconds = some ending := by
  unfold Goal.windowEnd? Goal.windowLength?
  simp only [Option.bind_eq_some_iff]
  constructor
  · rintro ⟨length, ⟨seconds, window, positive⟩, rest⟩
    split at positive
    · obtain rfl := Option.some.inj positive
      exact ⟨seconds.toNat, by omega, by rw [window]; congr 1; omega, rest⟩
    · cases positive
  · rintro ⟨seconds, positive, window, rest⟩
    exact ⟨seconds, ⟨seconds, window, by simp [positive]⟩, rest⟩

theorem qualifies_iff (goal_eq : j.goal = some goal) (named : goal.eventName = some name) :
    j.qualifies o = true ↔ j.Counts goal name o := by
  have window : (goal.windowEnd? j.anchorAt).all (o.time < ·) = true ↔ ∀ seconds : Nat,
      0 < seconds → goal.window = some seconds → ∀ ending,
      Span.after? j.anchorAt seconds = some ending → o.time < ending := by
    rw [Option.all_eq_true]
    simp only [windowEnd?_eq_some, decide_eq_true_eq]
    grind
  simp only [qualifies, goal_eq, Option.any_some, named, EventLog.inWindow, Option.all_some,
    Bool.and_eq_true, window, beq_iff_eq, decide_eq_true_eq, Option.some.injEq]
  constructor
  · rintro ⟨⟨rfl, own⟩, started, inWindow⟩
    exact ⟨rfl, own, started, inWindow⟩
  · rintro ⟨rfl, own, started, inWindow⟩
    exact ⟨⟨rfl, own⟩, started, inWindow⟩

theorem earliest_eq_some (goal_eq : j.goal = some goal) (named : goal.eventName = some name)
    {occurrences : List Occurrence} : j.earliest occurrences = some t ↔
      (∃ o ∈ occurrences, j.Counts goal name o ∧ o.time = t) ∧
        ∀ o ∈ occurrences, j.Counts goal name o → t ≤ o.time := by
  unfold earliest
  rw [List.min?_eq_some_iff]
  simp only [List.mem_map, List.mem_filter, qualifies_iff goal_eq named]
  grind

theorem earliest_eq_none (goal_eq : j.goal = some goal) (named : goal.eventName = some name)
    {occurrences : List Occurrence} : j.earliest occurrences = none ↔
      ∀ o ∈ occurrences, ¬ j.Counts goal name o := by
  unfold earliest
  rw [List.min?_eq_none_iff, List.map_eq_nil_iff, List.filter_eq_nil_iff]
  simp only [qualifies_iff goal_eq named]

/-- A conversion that is recorded is the answer from then on. -/
theorem goalMetAt_of_recorded (h : j.recordConversion t = (k, true)) (host : Host) (now : Instant) :
    k.goalMetAt host now = some t := by
  obtain rfl := of_recordConversion h
  rfl

/-- The goal of an event is met at the earliest occurrence that counts, whenever that is discovered.
It stays met, and no later, with more occurrences on record; once the conversion is recorded, it
stays as it is. -/
theorem event_goal_exact (goal_eq : j.goal = some goal) (event : goal.kind = .event)
    (named : goal.eventName = some name) (unconverted : j.convertedAt = none)
    (looksUp : host.LooksUp) (now : Instant) :
    (∀ t, j.goalMetAt host now = some t ↔
      (∃ o ∈ host.log.occurrences, j.Counts goal name o ∧ o.time = t) ∧
        ∀ o ∈ host.log.occurrences, j.Counts goal name o → t ≤ o.time) ∧
    (j.goalMetAt host now = none ↔ ∀ o ∈ host.log.occurrences, ¬ j.Counts goal name o) ∧
    (∀ later, j.goalMetAt host later = j.goalMetAt host now) ∧
    ∀ t, j.goalMetAt host now = some t →
      (∃ k, j.recordConversion t = (k, true) ∧
        ∀ (other : Host) later, k.goalMetAt other later = some t) ∧
      ∀ more : Host, more.LooksUp → host.log.occurrences ⊆ more.log.occurrences → ∀ later,
        ∃ u, j.goalMetAt more later = some u ∧ u ≤ t := by
  have found := goalMetAt_eq_earliest looksUp unconverted goal_eq event
  refine ⟨fun t => ?_, ?_, fun later => by rw [found, found], fun t met => ⟨?_, ?_⟩⟩
  · rw [found, earliest_eq_some goal_eq named]
  · rw [found, earliest_eq_none goal_eq named]
  · have recorded : j.recordConversion t = ({ j with convertedAt := some t }, true) := by
      rw [recordConversion, unconverted]
    exact ⟨_, recorded, goalMetAt_of_recorded recorded⟩
  · intro more looksUp' sub later
    rw [goalMetAt_eq_earliest looksUp' unconverted goal_eq event]
    exact j.noLater_earliest sub t (found now ▸ met)

/-- A purchase within ten seconds of the start. -/
def sale : Goal := ⟨.event, some "buy", none, none, some 10⟩

def saleCampaign : Campaign where
  id := "x"
  name := "x"
  version := 1
  trigger := .event "open" none
  entry := "e"
  nodes := [⟨"e", [], .exit none⟩]
  goal := some sale
  exitPolicy := .onGoalMet
  anchor := .journeyStart
  reentry := .once

def third : Instant := (Instant.make? 3 0).getD .epoch

def seventh : Instant := (Instant.make? 7 0).getD .epoch

def tenth : Instant := (Instant.make? 10 0).getD .epoch

/-- Another user buys too, and the window is over at once after ten seconds. -/
def sales : List Occurrence :=
  [⟨"buy", "ann", [], tenth⟩, ⟨"buy", "bob", [], third⟩, ⟨"buy", "ann", [], seventh⟩]

theorem sale_met :
    let j := Journey.start ⟨BitVec.ofNat 128 1⟩ saleCampaign "ann" none .epoch
    let host (more : List Occurrence) := { Host.new .epoch "ann" .empty with
      log := ⟨sales ++ more, false⟩ }
    (∀ now, j.goalMetAt (host []) now = some seventh) ∧
      ∀ more now, ∃ u, j.goalMetAt (host more) now = some u ∧ u ≤ seventh := by
  intro j host
  have looksUp : (host []).LooksUp := ⟨rfl, rfl⟩
  have exact := event_goal_exact (show j.goal = some sale from rfl) rfl
    (show sale.eventName = some "buy" from rfl) rfl looksUp .epoch
  have met : j.goalMetAt (host []) .epoch = some seventh := by decide +kernel
  obtain ⟨-, -, any_time, later⟩ := exact
  refine ⟨fun now => (any_time now).trans met, fun more now => ?_⟩
  exact (later seventh met).2 (host more) ⟨rfl, rfl⟩ (List.subset_append_left sales more) now

end Journey

end Engagement
