import Engagement.Proofs.Engine.Change

/-! # Calm changes

What the engine does besides letting journeys start, move on and convert and having triggers checked,
in pieces small enough to look at one by one and large enough to leave nothing half done: a step is
set off where the timer is cancelled, and a deadline is noted where the timer is set. By a calm
change no journey arrives anywhere, and whether the app is in the foreground stays.
-/

namespace Engagement

/-- Whether a journey may start on what the job finds out. -/
def Job.checksTrigger : Job → Bool
  | .trigger .. => true
  | _ => false

namespace Engine

variable {e e' e'' : Engine} {j k : Journey} {id : JourneyId}

/-- A journey that waits from now on. -/
def parkedUntil (e : Engine) (j : Journey) (deadline : Option Instant) : Journey :=
  { j with status := .paused, resumeAt := deadline, updatedAt := e.now }

/-- Why a journey ends, unless its step or the host says so. -/
inductive Cause (e : Engine) (j : Journey) : ExitReason → Prop
  | goalMet : Cause e j .goalMet
  | unavailable : Cause e j .campaignUnavailable
  /-- A save of some journey was refused. -/
  | unsaved {k : Journey} {store : Store} {fault : Fault}
      (refused : e.store.save k = (store, .error fault)) : Cause e j (.errored fault.message)
  | endless : Cause e j (.errored s!"exceeded {e.settings.maxSteps} steps without suspending")
  /-- The journey stands at no node of its campaign. -/
  | astray {campaign : Campaign} (known : e.campaigns.get? j.campaignId = some campaign)
      (missing : campaign.node? j.node = none) :
    Cause e j (.errored s!"node {j.node} not found in campaign {campaign.id}")

inductive Calm : Engine → Engine → Prop
  | answer (e : Engine) (a : Answer) : Calm e (e.answer a)
  | spawn (e : Engine) {job : Job} (plain : job.checksTrigger = false) : Calm e (e.spawn job)
  | dropTask (e : Engine) (task : Nat) : Calm e (e.dropTask task)
  | grace (e : Engine) (task : Option Nat) : Calm e { e with grace := task }
  | ready (e : Engine) (ready : Bool) : Calm e { e with presentationReady := ready }
  /-- The nodes gone through are forgotten of a journey without a step. -/
  | forgetSteps {e : Engine} {id : JourneyId} (free : e.isFlying id = false) :
    Calm e { e with steps := e.steps.erase id }
  | releaseTimer (e : Engine) (id : JourneyId) : Calm e (e.releaseTimer id)
  /-- A timer is set for the place of a journey in the mirror. -/
  | setTimer {e : Engine} {j k : Journey} (under_way : j ∈ e.store.active) (same : k.id = j.id)
      (here : k.node = j.node) : Calm e (e.setTimer k)
  | remember {e : Engine} {id : JourneyId} (flying : e.isFlying id = true)
      (reason : ResumeReason) : Calm e { e with pending := e.pending.insert id reason }
  | forget {e : Engine} {id : JourneyId} (free : e.isFlying id = false) :
    Calm e { e with pending := e.pending.erase id }
  | launch {e : Engine} {j : Journey} {node : Node} (under_way : j ∈ e.store.active)
      (alive : j.isTerminal = false) (free : e.isFlying j.id = false)
      (here : e.node? j = some node) : Calm e ((e.cancelTimer j.id).launch j node)
  | park {e : Engine} {j : Journey} {deadline : Option Instant} {store : Store}
      (under_way : j ∈ e.store.active) (alive : j.isTerminal = false)
      (saved : e.store.save (e.parkedUntil j deadline) = (store, .ok ()))
      (free : e.isFlying j.id = false) :
    Calm e (({ e with store := store }.report .parked (e.parkedUntil j deadline) j.node
      none).setTimer (e.parkedUntil j deadline))
  | finish {e : Engine} {j k : Journey} {store : Store} {reason : ExitReason}
      (under_way : j ∈ e.store.active) (alive : k.isTerminal = false) (continues : j.Continues k)
      (store_eq : store = e.store ∨ ∃ fault, e.store.save k = (store, .error fault))
      (placed : k.node = j.node ∨ e.isFlying j.id = false) (cause : e.Cause j reason) :
    Calm e ({ e with store := store }.finish k reason)

abbrev Calms : Engine → Engine → Prop := Relation.ReflTransGen Calm

/-- The node at which a journey stands has the name that the journey knows. -/
theorem node?_id {node : Node} (h : e.node? j = some node) : node.id = j.node := by
  unfold node? at h
  rcases hc : e.campaigns.get? j.campaignId with _ | campaign
  · simp [hc] at h
  · have hn : campaign.node? j.node = some node := by simpa [hc] using h
    simpa using List.find?_some hn

/-- A calm change is made of changes by which no journey starts. -/
theorem Calm.quiets (h : Calm e e') : Quiets e e' := by
  cases h with
  | answer a => exact .single (.aside (.answer e a))
  | spawn => exact .single (.aside (.spawn e _))
  | dropTask task => exact .single (.aside (.dropTask e task))
  | grace task => exact .single (.aside (.grace e task))
  | ready ready => exact .single (.aside (.signal e e.foreground ready))
  | forgetSteps => exact .single (.aside (.steps e _))
  | releaseTimer id => exact .single (.aside (.releaseTimer e id))
  | setTimer => exact .single (.aside (.setTimer e _))
  | @remember id _ reason => exact .single (.aside (.remember e id reason))
  | forget free => exact .single (.aside (.forget e free))
  | launch under_way alive free here =>
    exact .head (.aside (.cancelTimer e _))
      (.single (.launch under_way alive free (node?_id here)))
  | park under_way alive saved free =>
    apply Relation.ReflTransGen.head
      (.amend under_way alive (.park _ _) saved fun flying => by cases free.symm.trans flying)
    exact .head (.aside (.note _ rfl)) (.single (.aside (.setTimer _ _)))
  | finish under_way alive continues store_eq placed cause =>
    exact .single (.finish under_way alive continues store_eq placed)

theorem Calms.quiets (h : Calms e e') : Quiets e e' := by
  induction h with
  | refl => exact .refl
  | tail _ h ih => exact ih.trans h.quiets

theorem Calms.changes (h : Calms e e') : Changes e e' := h.quiets.changes

theorem Calm.foreground_eq (h : Calm e e') : e'.foreground = e.foreground := by
  cases h with
  | setTimer => exact setTimer_foreground _ _
  | park => exact setTimer_foreground _ _
  | finish under_way alive => rw [finish_eq _ alive]
  | _ => rfl

theorem Calms.foreground_eq (h : Calms e e') : e'.foreground = e.foreground := by
  induction h with
  | refl => rfl
  | tail _ h ih => exact h.foreground_eq.trans ih

theorem Calms.foldl {α : Type} {f : Engine → α → Engine} (h : ∀ e a, Calms e (f e a))
    (l : List α) (e : Engine) : Calms e (l.foldl f e) :=
  List.foldlRecOn l f .refl fun e' so_far a _ => so_far.trans (h e' a)

end Engine

end Engagement
