import Engagement.Proofs.Campaign.Conditions
import Engagement.Proofs.Engine.Checks
import Engagement.Proofs.Engine.GoalChecks
import Engagement.Proofs.Engine.Places

/-! # Conditions of work under way

Only accepted campaigns are installed, steps execute their nodes, triggers are checked for them, and
journeys that start have their goals, which they keep. So whatever the engine sets off looks at
conditions that have been accepted.
-/

namespace Engagement

namespace Journey

/-- When the journey converted, unless a condition is refused or has an operator that is not known.
-/
def goalMetAt? (journey : Journey) (host : Host) (now : Instant) : Option (Option Instant) :=
  match journey.convertedAt, journey.goal with
  | none, some goal => goal.metAt? host journey.distinctId journey.anchorAt now
  | _, _ => some (journey.goalMetAt host now)

/-- What counts as the journey's conversion has been accepted. -/
def GoalAccepted (journey : Journey) : Prop := ∀ goal ∈ journey.goal, goal.validate = .ok ()

variable {j k : Journey}

theorem GoalAccepted.continues (accepted : j.GoalAccepted) (h : j.Continues k) :
    k.GoalAccepted := by
  unfold GoalAccepted
  rwa [h.goal]

theorem goalMetAt?_eq (accepted : j.GoalAccepted) (host : Host) (now : Instant) :
    j.goalMetAt? host now = some (j.goalMetAt host now) := by
  unfold goalMetAt?
  split
  · rename_i goal open_yet given
    rw [Goal.metAt?_eq (accepted goal given)]
    simp [goalMetAt, open_yet, given]
  · rfl

end Journey

/-- The conditions that the job looks at have been accepted. -/
def Job.Accepted : Job → Prop
  | .goal journey _ => journey.GoalAccepted
  | .trigger _ condition .. => condition.validate = .ok ()
  | _ => True

namespace Engine

variable {e e' : Engine} {j : Journey} {m : Message} {l : List Admission} {t : Task}

/-! ## Steps -/

/-- Steps under way execute accepted nodes. -/
def StepsAccepted (e : Engine) : Prop := ∀ f ∈ e.flights, f.node.validate = .ok ()

theorem StepsAccepted.of_subset (steps : e.StepsAccepted) (sub : ∀ f ∈ e'.flights, f ∈ e.flights) :
    e'.StepsAccepted := fun f hf => steps f (sub f hf)

theorem StepsAccepted.finish (steps : e.StepsAccepted) (alive : j.isTerminal = false)
    (reason : ExitReason) : (e.finish j reason).StepsAccepted := by
  rw [finish_eq _ alive]
  exact steps.of_subset fun _ hf => (List.mem_filter.mp hf).1

theorem Accepted.node (accepted : e.Accepted) {node : Node} (here : e.node? j = some node) :
    node.validate = .ok () := by
  obtain ⟨campaign, installed, found⟩ := Option.bind_eq_some_iff.mp here
  obtain ⟨entry, hm, rfl⟩ := Option.map_eq_some_iff.mp installed
  have covered := Campaign.covered_of_validate (accepted entry (List.mem_of_find?_eq_some hm))
  exact covered.nodes node (List.mem_of_find?_eq_some found)

theorem Calm.stepsAccepted (h : Calm e e') (accepted : e.Accepted) (steps : e.StepsAccepted) :
    e'.StepsAccepted := by
  cases h with
  | setTimer => exact steps.of_subset fun _ hf => by rwa [setTimer_flights] at hf
  | launch _ _ _ here =>
    intro f hf
    rcases List.mem_append.mp hf with hf | hf
    · exact steps f hf
    · obtain rfl := List.mem_singleton.mp hf
      exact accepted.node here
  | park => exact steps.of_subset fun _ hf => by rwa [setTimer_flights] at hf
  | @finish _ _ store _ _ alive =>
    exact StepsAccepted.finish (e := { e with store := store }) steps alive _
  | _ => exact steps

theorem Calms.stepsAccepted (h : Calms e e') (accepted : e.Accepted) (steps : e.StepsAccepted) :
    e'.StepsAccepted := by
  induction h with
  | refl => exact steps
  | tail hs h ih => exact h.stepsAccepted (accepted.of_campaigns (Calms.changes hs).campaigns_eq) ih

theorem Deed.stepsAccepted (h : Deed m e l e') (accepted : e.Accepted) (steps : e.StepsAccepted) :
    e'.StepsAccepted := by
  cases h with
  | calm h => exact h.stepsAccepted accepted steps
  | @advance j next kind _ alive =>
    rcases e.advance_cases alive next kind with
      ⟨k, store, reason, -, alive', -, -, he⟩ | ⟨store, -, he⟩
    · rw [he]
      exact StepsAccepted.finish (by exact steps) alive' _
    · rw [he]
      exact (calms_drive _ _ _).stepsAccepted (by exact accepted) (by exact steps)
  | conclude _ alive => exact steps.finish alive _
  | enter known =>
    rcases enter_cases known with ⟨-, reason, he⟩ | ⟨-, start, store, fault, -, he⟩ |
      ⟨-, store, -, -, he⟩
    · rw [he]
      exact steps
    · rw [he]
      exact StepsAccepted.finish (by exact steps) (by exact start.store_cases.1) _
    · rw [he]
      refine (calms_drive _ _ _).stepsAccepted ?_ ?_ <;> rw [entered_eq]
      exacts [accepted, steps]
  | _ => exact steps

theorem Deeds.stepsAccepted (h : Deeds m e l e') (accepted : e.Accepted) (steps : e.StepsAccepted) :
    e'.StepsAccepted := by
  induction h with
  | refl => exact steps
  | tail hs h ih => exact h.stepsAccepted (accepted.of_campaigns hs.changes.campaigns_eq) ih

/-! ## Triggers and goals -/

/-- The condition that is checked for an installed campaign has been accepted. -/
theorem Accepted.checkOn? (accepted : e.Accepted) {entry : String × Campaign} {job : Job}
    (installed : entry ∈ e.campaigns) (asked : e.checkOn? m entry.2 = some job) : job.Accepted := by
  have covered := Campaign.covered_of_validate (accepted entry installed)
  unfold Engine.checkOn? at asked
  split at asked
  · split at asked
    · rename_i condition fires
      obtain rfl := Option.some.inj asked
      refine covered.trigger condition ?_
      unfold triggeredBy at fires
      split at fires
      · rename_i trigger
        split at fires
        · simp [trigger, Trigger.conditions, Option.some.inj fires]
        · cases fires
      · cases fires
    · cases asked
  · obtain ⟨condition, fires, rfl⟩ := Option.map_eq_some_iff.mp asked
    refine covered.trigger condition ?_
    unfold segmentCondition at fires
    split at fires
    · cases fires
    · rename_i trigger
      simp [trigger, Trigger.conditions, Option.some.inj fires]
  · cases asked

/-- A journey that starts has the goal of an installed campaign. -/
theorem Start.goal_eq (h : Start e j e') : ∃ entry ∈ e.campaigns, j.goal = entry.2.goal := by
  cases h with
  | enter known _ new => exact ⟨_, known, congrArg Journey.goal new⟩
  | fail known _ new => exact ⟨_, known, congrArg Journey.goal new⟩

theorem Accepted.admitted (accepted : e.Accepted) (sound : e.Sound) (hm : m ≠ .command .boot)
    {a : Admission} (ha : a ∈ e.admissions m) : a.journey.GoalAccepted := by
  obtain ⟨e₁, e₂, first, start, -, -⟩ := (traces_handle sound hm).exists_start ha
  obtain ⟨entry, installed, same⟩ := start.goal_eq
  have accepted := (accepted.takeIn m).of_campaigns first.campaigns_eq
  intro goal given
  rw [same] at given
  exact (Campaign.covered_of_validate (accepted entry installed)).goal goal given

/-- Everything that is evaluated now or on behalf of what is under way has been accepted. -/
structure Vetted (e : Engine) : Prop where
  campaigns : e.Accepted
  goals : ∀ j ∈ e.store.active, j.GoalAccepted
  steps : e.StepsAccepted
  jobs : ∀ t ∈ e.tasks, t.job.Accepted

/-- A job that is neither a check of a goal nor one of a trigger looks at no condition. -/
theorem Job.accepted_of_plain {job : Job} (goal : ∀ j now, job ≠ .goal j now)
    (plain : job.checksTrigger = false) : job.Accepted := by
  cases job with
  | goal j now => exact (goal j now rfl).elim
  | trigger => cases plain
  | _ => trivial

theorem Vetted.handle (vetted : e.Vetted) (sound : e.Sound) (minded : e.Minded)
    (hm : m ≠ .command .boot) : (e.handle m).Vetted := by
  have deeds := deeds_handle sound (fun _ _ _ _ _ => minded) hm
  have taken := vetted.campaigns.takeIn m
  have admitted := fun a (ha : a ∈ e.admissions m) => vetted.campaigns.admitted sound hm ha
  constructor
  · exact taken.of_campaigns deeds.changes.campaigns_eq
  · intro k hk
    rcases latches_handle sound hm hk with ⟨j, hj, latches⟩ | ⟨a, ha, latches⟩
    · exact (vetted.goals j hj).continues latches.toContinues
    · exact (admitted a ha).continues latches.toContinues
  · exact deeds.stepsAccepted taken
      (vetted.steps.of_subset fun _ hf => (e.takeIn_flights m).subset hf)
  · intro t ht
    rcases deeds.tasks_cases ht with ht' | plain | ⟨key, campaign, installed, asked⟩
    · exact vetted.jobs t (takeIn_tasks e m ht')
    · by_cases goal : ∃ j now, t.job = .goal j now
      · obtain ⟨j, now, hjob⟩ := goal
        rcases (looks_handle e hm).checks t ht j now hjob with ht | ⟨hj, -⟩
        · exact vetted.jobs t ht
        · rw [hjob]
          rcases List.mem_append.mp hj with hj | hj
          · exact vetted.goals j hj
          · obtain ⟨a, ha, rfl⟩ := List.mem_map.mp hj
            exact admitted a ha
      · exact Job.accepted_of_plain (fun j now h => goal ⟨j, now, h⟩) plain
    · exact taken.checkOn? installed asked

end Engine

end Engagement
