import Engagement.Proofs.Engine.Calm

/-! # Driving as changes

Driving a journey, making it wait and ending it are sequences of calm changes. Applying the result
of a step may besides make its journey move on; no journey starts by it.
-/

namespace Engagement

namespace Engine

variable {e e' e'' : Engine} {j k : Journey}

theorem Quiets.of_aside (h : Aside e e') : Quiets e e' := .single (.aside h)

theorem Quiets.after (h : Aside e e') (h' : Quiets e' e'') : Quiets e e'' := .head (.aside h) h'

theorem Aside.report (e : Engine) (kind : Analytics.Kind) (j : Journey) (node : String)
    (detail : Option String) (quiet : kind.isArrival = false) :
    Aside e (e.report kind j node detail) := .note e quiet

theorem calms_finish {reason : ExitReason} (under_way : j ∈ e.store.active)
    (alive : j.isTerminal = false) (cause : e.Cause j reason) : Calms e (e.finish j reason) :=
  .single (.finish under_way alive (.refl j) (.inl rfl) (.inl rfl) cause)

theorem quiets_finish (under_way : j ∈ e.store.active) (alive : j.isTerminal = false)
    (reason : ExitReason) : Quiets e (e.finish j reason) :=
  .single (.finish under_way alive (.refl j) (.inl rfl) (.inl rfl))

theorem calms_giveUp {store : Store} {fault : Fault} (under_way : j ∈ e.store.active)
    (alive : k.isTerminal = false) (continues : j.Continues k)
    (refused : e.store.save k = (store, .error fault))
    (placed : k.node = j.node ∨ e.isFlying j.id = false) :
    Calms e ({ e with store := store }.giveUp k fault) :=
  .single (.finish under_way alive continues (.inr ⟨fault, refused⟩) placed (.unsaved refused))

/-! ## Steps -/

theorem calms_driveAt (under_way : j ∈ e.store.active) (alive : j.isTerminal = false)
    (free : e.isFlying j.id = false) (reason : ResumeReason) :
    Calms e (e.driveAt j reason) := by
  unfold driveAt
  split
  · split
    · exact calms_finish under_way alive .unavailable
    · exact .refl
  · rename_i campaign hc
    split
    · rename_i hn
      exact calms_finish under_way alive (.astray hc hn)
    · rename_i node hn
      have here : e.node? j = some node := by simp [node?, hc, hn]
      split
      · exact .single (.launch under_way alive free here)
      · exact .head (.forgetSteps free) (.single (.launch under_way alive free here))

theorem calms_drive (e : Engine) (id : JourneyId) (reason : ResumeReason) :
    Calms e (e.drive id reason) := by
  unfold drive
  split
  · rename_i flying
    exact .single (.remember flying reason)
  · rename_i hf
    split
    · rename_i j hj
      obtain ⟨hm, rfl⟩ := mem_of_get? hj
      split
      · exact .refl
      · rename_i ha
        exact calms_driveAt hm (by simpa using ha) (by simpa using hf) reason
    · exact .refl

theorem quiets_drive (e : Engine) (id : JourneyId) (reason : ResumeReason) :
    Quiets e (e.drive id reason) := (calms_drive e id reason).quiets

theorem calms_drivePending {id : JourneyId} (free : e.isFlying id = false) :
    Calms e (e.drivePending id) := by
  unfold drivePending
  split
  · exact .head (.forget free) (calms_drive _ _ _)
  · exact .refl

/-- The engine once a journey has moved on and is saved, before it is driven. -/
def moved (e : Engine) (store : Store) (j : Journey) (next : String) (kind : Analytics.Kind) :
    Engine :=
  { e with
    steps := e.steps.insert j.id ((e.steps.get? j.id).getD 0 + 1)
    store := store }.report kind (e.movedTo j next) j.node (some next)

/-- A journey that goes on goes too far and ends, or cannot be saved and ends, or enters its next
node and is driven there. -/
theorem advance_cases (e : Engine) (alive : j.isTerminal = false) (next : String)
    (kind : Analytics.Kind) :
    (∃ k store reason, j.Continues k ∧ k.isTerminal = false ∧
      (store = e.store ∨ ∃ fault, e.store.save k = (store, .error fault)) ∧
      e.Cause j reason ∧ e.advance j next kind = { e with
        steps := e.steps.insert j.id ((e.steps.get? j.id).getD 0 + 1)
        store := store }.finish k reason) ∨
    ∃ store, e.store.save (e.movedTo j next) = (store, .ok ()) ∧
      e.advance j next kind = (e.moved store j next kind).drive j.id .advance := by
  unfold advance
  dsimp only
  split
  · exact .inl ⟨j, e.store, _, .refl j, alive, .inl rfl, .endless, rfl⟩
  · rw [Journey.advanceTo_of_alive alive]
    dsimp only
    unfold saving
    split
    · rename_i store hs
      exact .inr ⟨store, hs, rfl⟩
    · rename_i store fault hs
      exact .inl ⟨e.movedTo j next, store, _,
        ⟨rfl, rfl, rfl, rfl, rfl, rfl, rfl, rfl, rfl, rfl⟩, rfl, .inr ⟨fault, hs⟩, .unsaved hs, rfl⟩

theorem quiets_moved {next : String} {kind : Analytics.Kind} {store : Store}
    (under_way : j ∈ e.store.active) (alive : j.isTerminal = false)
    (free : e.isFlying j.id = false) (arrival : kind.isArrival = true) (on_way : kind ≠ .entered)
    (saved : e.store.save (e.movedTo j next) = (store, .ok ())) :
    Quiets e (e.moved store j next kind) :=
  .after (.steps e (e.steps.insert j.id ((e.steps.get? j.id).getD 0 + 1)))
    (.single (.advance under_way alive free arrival on_way saved))

theorem quiets_advance (under_way : j ∈ e.store.active) (alive : j.isTerminal = false)
    (free : e.isFlying j.id = false) (next : String) {kind : Analytics.Kind}
    (arrival : kind.isArrival = true) (on_way : kind ≠ .entered) :
    Quiets e (e.advance j next kind) := by
  rcases e.advance_cases alive next kind with
    ⟨k, store, reason, continues, alive', store_eq, -, he⟩ | ⟨store, saved, he⟩
  · rw [he]
    apply Quiets.after (.steps e (e.steps.insert j.id ((e.steps.get? j.id).getD 0 + 1)))
    exact .single (.finish (by exact under_way) alive' continues store_eq (.inr free))
  · rw [he]
    exact (quiets_moved under_way alive free arrival on_way saved).trans (quiets_drive _ _ _)

/-- The engine once a wait is saved, before the timer is set for it. -/
def parked (e : Engine) (store : Store) (j : Journey) (deadline : Option Instant) : Engine :=
  { e with steps := e.steps.erase j.id, store := store }.report .parked (e.parkedUntil j deadline)
    j.node none

/-- A journey that parks cannot be saved and ends, or it waits and its timer is set: one that waits
for the same deadline already is not saved again. -/
theorem park_cases (e : Engine) (alive : j.isTerminal = false) (deadline : Option Instant) :
    (∃ store fault, e.store.save (e.parkedUntil j deadline) = (store, .error fault) ∧
      e.park j deadline = { e with steps := e.steps.erase j.id, store := store }.giveUp
        (e.parkedUntil j deadline) fault) ∨
    ∃ e', e.park j deadline = (e'.setTimer (e.parkedUntil j deadline)).drivePending j.id ∧
      ((j.status = .paused ∧ j.resumeAt = deadline ∧ e' = { e with steps := e.steps.erase j.id }) ∨
        ∃ store, e.store.save (e.parkedUntil j deadline) = (store, .ok ()) ∧
          e' = e.parked store j deadline) := by
  unfold park
  dsimp only
  rw [Journey.park_of_alive alive]
  dsimp only
  split
  · rename_i same
    exact .inr ⟨_, rfl, .inl ⟨same.1, same.2, rfl⟩⟩
  · unfold saving
    split
    · rename_i store saved
      exact .inr ⟨_, rfl, .inr ⟨store, saved, rfl⟩⟩
    · rename_i store fault refused
      exact .inl ⟨store, fault, refused, rfl⟩

theorem quiets_parked {deadline : Option Instant} {store : Store} (under_way : j ∈ e.store.active)
    (alive : j.isTerminal = false) (free : e.isFlying j.id = false)
    (saved : e.store.save (e.parkedUntil j deadline) = (store, .ok ())) :
    Quiets e (e.parked store j deadline) := by
  apply Quiets.after (.steps e (e.steps.erase j.id))
  apply Relation.ReflTransGen.head (.amend under_way alive (.park j deadline) saved
    fun flying => by cases free.symm.trans flying)
  exact Quiets.of_aside (.report _ .parked _ _ _ rfl)

theorem calms_park (under_way : j ∈ e.store.active) (alive : j.isTerminal = false)
    (free : e.isFlying j.id = false) (deadline : Option Instant) :
    Calms e (e.park j deadline) := by
  let unstepped := { e with steps := e.steps.erase j.id }
  have first : Calm e unstepped := .forgetSteps free
  rcases e.park_cases alive deadline with ⟨store, fault, refused, he⟩ |
    ⟨e', he, ⟨-, -, rfl⟩ | ⟨store, saved, rfl⟩⟩ <;> rw [he]
  · exact .head first
      (calms_giveUp (e := unstepped) under_way rfl (Amends.park j deadline).continues refused
        (.inl rfl))
  · have timed : Calm unstepped (unstepped.setTimer (e.parkedUntil j deadline)) :=
      .setTimer under_way rfl rfl
    exact .head first (.head timed (calms_drivePending ((setTimer_isFlying ..).trans free)))
  · have waits : Calm unstepped ((e.parked store j deadline).setTimer (e.parkedUntil j deadline)) :=
      .park (e := unstepped) under_way alive saved free
    exact .head first (.head waits (calms_drivePending ((setTimer_isFlying ..).trans free)))

theorem quiets_apply (under_way : j ∈ e.store.active) (alive : j.isTerminal = false)
    (free : e.isFlying j.id = false) (result : StepResult) : Quiets e (e.apply j result) := by
  match result with
  | .proceed next => exact quiets_advance under_way alive free next rfl (by decide)
  | .skip (some next) => exact quiets_advance under_way alive free next rfl (by decide)
  | .skip none => exact quiets_finish under_way alive _
  | .suspend deadline => exact (calms_park under_way alive free deadline).quiets
  | .complete reason => exact quiets_finish under_way alive reason

theorem Quiets.foldl {α : Type} {f : Engine → α → Engine} (h : ∀ e a, Quiets e (f e a))
    (l : List α) (e : Engine) : Quiets e (l.foldl f e) :=
  List.foldlRecOn l f .refl fun e' so_far a _ => so_far.trans (h e' a)

/-- Drives a journey that is parked at content, if it is not left out. -/
def retry (except : Option JourneyId) (e : Engine) (j : Journey) : Engine :=
  if some j.id ≠ except ∧ j.status = .paused ∧ e.atContent j then e.drive j.id .foreground else e

theorem retryPresentations_eq (e : Engine) (except : Option JourneyId) :
    e.retryPresentations except = e.store.active.foldl (retry except) e := rfl

theorem calms_retry (except : Option JourneyId) (e : Engine) (j : Journey) :
    Calms e (retry except e j) := by
  unfold retry
  split
  · exact calms_drive _ _ _
  · exact .refl

theorem calms_retryPresentations (e : Engine) (except : Option JourneyId) :
    Calms e (e.retryPresentations except) :=
  retryPresentations_eq e except ▸ Calms.foldl (calms_retry except) _ e

theorem quiets_retryPresentations (e : Engine) (except : Option JourneyId) :
    Quiets e (e.retryPresentations except) := (calms_retryPresentations e except).quiets

end Engine

end Engagement
