import Mathlib.Logic.Relation
import Engagement.Analytics
import Engagement.Completion

/-! # Trails of journeys

The trail of a journey is what is reported of it. A faithful one begins with the entry of the
journey, if this could be saved, goes on with steps of which each begins where the one before it
led, and ends with the end of the journey, as it is recorded.
-/

namespace Engagement

namespace Analytics

/-- The journey has gone on from one node to another. -/
def Kind.isStep : Kind → Bool
  | .stepCompleted | .stepSkipped => true
  | _ => false

/-- Something is told of the journey at the node where it stays. -/
def Kind.isRemark : Kind → Bool
  | .parked | .goalMet => true
  | _ => false

/-- The steps among some reports. -/
def steps (events : List Event) : List Event := events.filter (·.kind.isStep)

/-- The node where a journey starts, and those to which it was reported to go on. -/
def stops (start : String) (events : List Event) : List (Option String) :=
  some start :: (steps events).map (·.detail)

/-- Reports of a journey on its way from one node to another: each step begins where the one before
it led. -/
structure Way (start : String) (events : List Event) (here : String) : Prop where
  on_way : ∀ event ∈ events, event.kind.isStep = true ∨ event.kind.isRemark = true
  chains : (steps events).map (·.node) = (stops start events).dropLast
  leads : (stops start events).getLast? = some (some here)

namespace Way

variable {start here next : String} {events : List Event} {event : Event}

theorem nil (start : String) : Way start [] start := ⟨by simp, rfl, rfl⟩

theorem remark (way : Way start events here) (remarks : event.kind.isRemark = true) :
    Way start (events ++ [event]) here := by
  have stays : event.kind.isStep = false := by
    cases hk : event.kind <;> simp_all [Kind.isRemark, Kind.isStep]
  have same : steps (events ++ [event]) = steps events := by simp [steps, stays]
  constructor
  · simpa [or_imp, forall_and, remarks] using way.on_way
  · simpa only [stops, same] using way.chains
  · simpa only [stops, same] using way.leads

theorem step (way : Way start events here) (steps_on : event.kind.isStep = true)
    (begins : event.node = some here) (leads : event.detail = some next) :
    Way start (events ++ [event]) next := by
  have more : steps (events ++ [event]) = steps events ++ [event] := by simp [steps, steps_on]
  have on : stops start (events ++ [event]) = stops start events ++ [some next] := by
    simp [stops, more, leads]
  constructor
  · simpa [or_imp, forall_and, steps_on] using way.on_way
  · rw [on, List.dropLast_concat, more, List.map_append, way.chains, List.map_singleton, begins]
    obtain ⟨rest, he⟩ := List.getLast?_eq_some_iff.mp way.leads
    rw [he, List.dropLast_concat]
  · simp [on]

theorem kinds (way : Way start events here) :
    ∀ event ∈ events, event.kind ∈ [Kind.stepCompleted, .stepSkipped, .parked, .goalMet] := by
  intro event he
  have := way.on_way event he
  cases hk : event.kind <;> simp_all [Kind.isStep, Kind.isRemark]

end Way

end Analytics

open Analytics

/-- What is to be seen of a journey: the reports and the records of it, and the node at which it
stands while it is under way. -/
structure View where
  events : List Event
  records : List Completion
  place : Option String

namespace View

/-- The journey has entered at a node. -/
def Opens (entry : String) (event : Event) : Prop :=
  event.kind = .entered ∧ event.node = some entry

/-- The end of the journey is reported as the record has it. -/
structure Closes (event : Event) (record : Completion) : Prop where
  kind : event.kind = .ofStatus record.exitReason.status
  label : event.detail = some record.exitReason.label

/-- What may come to be seen of a journey that is under way. -/
inductive Goes : View → View → Prop
  | remark {events : List Event} {records : List Completion} {here : String} {event : Event}
      (remarks : event.kind.isRemark = true) :
    Goes ⟨events, records, some here⟩ ⟨events ++ [event], records, some here⟩
  | step {events : List Event} {records : List Completion} {here next : String} {event : Event}
      (steps : event.kind.isStep = true) (begins : event.node = some here)
      (leads : event.detail = some next) :
    Goes ⟨events, records, some here⟩ ⟨events ++ [event], records, some next⟩
  | ends {events : List Event} {records : List Completion} {here : String} {event : Event}
      {record : Completion} (closes : Closes event record) :
    Goes ⟨events, records, some here⟩ ⟨events ++ [event], records ++ [record], none⟩

abbrev GoesOn : View → View → Prop := Relation.ReflTransGen Goes

variable {v v' : View} {earlier : List Event} {entry : String} {saved : Prop}

/-- What was reported from `earlier` on is faithful to a journey that has started at a node, and
that could be saved then or not. -/
inductive Faithful (earlier : List Event) (entry : String) (saved : Prop) : View → Prop
  | under_way {opening : Event} {way : List Event} {here : String} (known : saved)
      (opens : Opens entry opening) (on_way : Way entry way here) :
    Faithful earlier entry saved ⟨earlier ++ ([opening] ++ way), [], some here⟩
  | ended {opening ending : Event} {way : List Event} {here : String}
      {record : Completion} (known : saved) (opens : Opens entry opening)
      (on_way : Way entry way here) (closes : Closes ending record) :
    Faithful earlier entry saved ⟨earlier ++ ([opening] ++ way ++ [ending]), [record], none⟩
  | unsaved {ending : Event} {record : Completion} (unknown : ¬ saved)
      (closes : Closes ending record) :
    Faithful earlier entry saved ⟨earlier ++ [ending], [record], none⟩

theorem Faithful.goes (faithful : Faithful earlier entry saved v) (h : Goes v v') :
    Faithful earlier entry saved v' := by
  cases faithful with
  | under_way known opens on_way =>
    cases h with
    | remark remarks =>
      rw [List.append_assoc, List.append_assoc]
      exact .under_way known opens (on_way.remark remarks)
    | step steps begins leads =>
      rw [List.append_assoc, List.append_assoc]
      exact .under_way known opens (on_way.step steps begins leads)
    | ends closes =>
      rw [List.append_assoc]
      exact .ended known opens on_way closes
  | ended => cases h
  | unsaved => cases h

theorem Faithful.goesOn (faithful : Faithful earlier entry saved v) (h : GoesOn v v') :
    Faithful earlier entry saved v' := by
  induction h with
  | refl => exact faithful
  | tail _ h ih => exact ih.goes h

/-- What is faithful to a journey has three parts: its entry, its way and its end. -/
theorem Faithful.parts (faithful : Faithful earlier entry saved v) :
    ∃ opening way ending : List Event, v.events = earlier ++ (opening ++ way ++ ending) ∧
      (saved → opening.map (fun event => (event.kind, event.node)) = [(.entered, some entry)]) ∧
      (¬ saved → opening = [] ∧ way = []) ∧
      (∀ event ∈ way, event.kind ∈ [.stepCompleted, .stepSkipped, .parked, .goalMet]) ∧
      (steps way).map (·.node) = (stops entry way).dropLast ∧
      (∀ here ∈ v.place, (stops entry way).getLast? = some (some here)) ∧
      v.records.length ≤ 1 ∧
      ending.map (fun event => (event.kind, event.detail)) =
        v.records.map fun r => (.ofStatus r.exitReason.status, some r.exitReason.label) := by
  cases faithful with
  | @under_way opening way here known opens on_way =>
    refine ⟨[opening], way, [], by simp, fun _ => by simp [opens.1, opens.2],
      fun unknown => (unknown known).elim, on_way.kinds, on_way.chains, ?_, by simp, rfl⟩
    rintro _ ⟨⟩
    exact on_way.leads
  | @ended opening ending way here record known opens on_way closes =>
    exact ⟨[opening], way, [ending], rfl, fun _ => by simp [opens.1, opens.2],
      fun unknown => (unknown known).elim, on_way.kinds, on_way.chains, by simp, by simp,
      by simp [closes.kind, closes.label]⟩
  | @unsaved ending record unknown closes =>
    exact ⟨[], [], [ending], rfl, fun known => (unknown known).elim, fun _ => ⟨rfl, rfl⟩,
      by simp, rfl, by simp, by simp, by simp [closes.kind, closes.label]⟩

/-- Nothing comes to be seen of a journey that is not under way. -/
theorem GoesOn.eq_of_away (h : GoesOn v v') (away : v.place = none) : v' = v := by
  induction h with
  | refl => rfl
  | tail _ h ih =>
    subst ih
    cases h <;> cases away

end View

end Engagement
