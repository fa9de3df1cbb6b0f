import Engagement.Proofs.Engine.Handling

/-! # Going around

On most messages the engine goes around its journeys: it drives those that are due, checks goals, sets
timers and sets off jobs. What holds across each of these holds across the whole round.
-/

namespace Engagement

/-- Whether the engine does no more on the message than to go around its journeys and to set off jobs. -/
def Message.isRound : Message → Bool
  | .command .segmentsChanged | .command .refreshProfile | .command (.contentInvalidated _)
  | .command .resumeDue | .command (.lifecycle _) | .report (.profile _ (.error _) _)
  | .report (.grace _) | .report (.timer ..) => true
  | _ => false

namespace Engine

variable {e e' : Engine} {l : List Journey} {R : Engine → Engine → Prop} {m : Message}

/-- What is reported, answered and remembered, timers and signals may differ. -/
def Touches (e e' : Engine) : Prop := e' = { e with
  events := e'.events, answers := e'.answers, pending := e'.pending, timers := e'.timers
  grace := e'.grace, steps := e'.steps, foreground := e'.foreground
  presentationReady := e'.presentationReady }

namespace Touches

theorem frame (h : e.Touches e') : e' = { e with
    events := e'.events, answers := e'.answers, pending := e'.pending, timers := e'.timers
    grace := e'.grace, steps := e'.steps, foreground := e'.foreground
    presentationReady := e'.presentationReady } := h

theorem now_eq (h : e.Touches e') : e'.now = e.now := by rw [h.frame]; rfl
theorem store_eq (h : e.Touches e') : e'.store = e.store := by rw [h.frame]
theorem campaigns_eq (h : e.Touches e') : e'.campaigns = e.campaigns := by rw [h.frame]
theorem flights_eq (h : e.Touches e') : e'.flights = e.flights := by rw [h.frame]
theorem tasks_eq (h : e.Touches e') : e'.tasks = e.tasks := by rw [h.frame]

end Touches

/-- A relation that holds across everything that the engine does on a round, as far as it checks the
goals of the journeys `l`. -/
structure Abides (l : List Journey) (R : Engine → Engine → Prop) : Prop where
  trans : ∀ {e e' e'' : Engine}, R e e' → R e' e'' → R e e''
  touch : ∀ {e e' : Engine}, e.Touches e' → R e e'
  dropTask : ∀ (e : Engine) (task : Nat), R e (e.dropTask task)
  spawn : ∀ (e : Engine) {job : Job}, (∀ j now, job ≠ .goal j now) → R e (e.spawn job)
  checkGoal : ∀ (e : Engine) {j : Journey}, j ∈ l → R e (e.checkGoal j)
  drive : ∀ (e : Engine) (id : JourneyId) (reason : ResumeReason), R e (e.drive id reason)

namespace Abides

variable (abides : Abides l R)

include abides

theorem refl (e : Engine) : R e e := abides.touch rfl

theorem foldl {α : Type} {f : Engine → α → Engine} {as : List α}
    (h : ∀ e, ∀ a ∈ as, R e (f e a)) (e : Engine) : R e (as.foldl f e) :=
  List.foldlRecOn as f (abides.refl e) fun e' so_far a ha => abides.trans so_far (h e' a ha)

theorem setTimer (e : Engine) (j : Journey) : R e (e.setTimer j) := by
  apply abides.touch
  obtain ⟨timers, he⟩ := e.setTimer_eq j
  rw [he]
  rfl

theorem drivePending (e : Engine) (id : JourneyId) : R e (e.drivePending id) := by
  unfold Engine.drivePending
  split
  · have forgotten : R e { e with pending := e.pending.erase id } := abides.touch rfl
    exact abides.trans forgotten (abides.drive ..)
  · exact abides.refl e

theorem retryPresentations (e : Engine) (except : Option JourneyId) :
    R e (e.retryPresentations except) := by
  rw [retryPresentations_eq]
  refine abides.foldl (fun e j _ => ?_) e
  unfold retry
  split
  · exact abides.drive ..
  · exact abides.refl e

theorem restore (now : Instant) (e : Engine) (j : Journey) : R e (e.restore now j) := by
  unfold Engine.restore
  split
  · exact abides.setTimer e j
  · exact abides.drive ..

theorem recheck (user : String) (reason : ResumeReason) (h : e.store.active ⊆ l) :
    R e (e.recheck user reason) := by
  rw [recheck_eq]
  refine abides.foldl (fun e j hj => ?_) e
  have checked : R e (e.checkGoal j) :=
    abides.checkGoal e (h (List.mem_filter.mp (List.mem_mergeSort.mp hj)).1)
  unfold look
  split
  · exact abides.trans checked (abides.drive ..)
  · exact checked

theorem onSegmentsChanged (h : e.store.active ⊆ l) : R e e.onSegmentsChanged := by
  apply abides.trans (abides.recheck e.user .segmentChange h)
  exact abides.foldl (fun e c _ => abides.spawn e (by simp)) _

theorem onResumeDue (e : Engine) : R e e.onResumeDue := by
  rw [onResumeDue_eq]
  refine abides.foldl (fun e j _ => ?_) e
  unfold takeUp
  split
  · exact abides.refl e
  · split
    · exact abides.drive ..
    · split
      · exact abides.drive ..
      · exact abides.refl e

theorem dropGrace (e : Engine) : R e e.dropGrace := by
  unfold Engine.dropGrace
  split
  · exact abides.trans (abides.dropTask e _) (abides.touch rfl)
  · exact abides.refl e

theorem onGrace (e : Engine) (task : Nat) : R e (e.onGrace task) := by
  unfold Engine.onGrace
  apply abides.trans (abides.dropTask e task)
  dsimp only
  split
  · split
    · have ready : R (e.dropTask task)
          { e.dropTask task with grace := none, presentationReady := true } := abides.touch rfl
      exact abides.trans ready (abides.retryPresentations ..)
    · exact abides.touch rfl
  · exact abides.refl _

theorem onTimer (e : Engine) (id : JourneyId) (node : String) : R e (e.onTimer id node) := by
  unfold Engine.onTimer
  have released : R e (e.releaseTimer id) := abides.touch rfl
  dsimp only
  split
  · exact released
  · split
    · exact released
    · split
      · exact released
      · split
        · exact abides.trans released (abides.drive ..)
        · exact abides.trans released (abides.setTimer ..)

theorem onLifecycle (signal : Lifecycle) (h : e.store.active ⊆ l) :
    R e (e.onLifecycle signal) := by
  cases signal with
  | enteredBackground =>
    have behind : R e { e with foreground := false, presentationReady := false } := abides.touch rfl
    exact abides.trans (abides.trans behind (abides.dropGrace _)) (abides.touch rfl)
  | entersForeground =>
    have front : R e { e with foreground := true } := abides.touch rfl
    rw [onLifecycle_entersForeground]
    have rearmed : R { e with foreground := true }
        (e.store.active.foldl (rearm e.now) { e with foreground := true }) := by
      refine abides.foldl (fun e j _ => ?_) _
      unfold rearm
      split
      · exact abides.setTimer e j
      · exact abides.refl e
    have resumed := abides.trans (abides.trans front rearmed) (abides.onResumeDue _)
    exact abides.trans resumed (abides.foldl (fun e j hj => abides.checkGoal e (h hj)) _)
  | becameActive =>
    have front : R e { e with foreground := true } := abides.touch rfl
    have dropped := abides.trans front (abides.dropGrace _)
    exact abides.trans (abides.trans dropped (abides.spawn _ (by simp))) (abides.touch rfl)

/-- What holds across each of its pieces holds across the handling of a message that makes the engine
go around. -/
theorem handle (h : e.store.active ⊆ l) (round : m.isRound = true) : R e (e.handle m) := by
  match m with
  | .command .segmentsChanged => exact abides.onSegmentsChanged h
  | .command .refreshProfile => exact abides.spawn e (by simp)
  | .command (.contentInvalidated flow) =>
    unfold Engine.handle onCommand
    dsimp only
    split
    · exact abides.spawn e (by simp)
    · exact abides.refl e
  | .command .resumeDue => exact abides.onResumeDue e
  | .command (.lifecycle signal) => exact abides.onLifecycle signal h
  | .report (.profile task (.error fault) requested) =>
    apply abides.trans (abides.dropTask e task)
    unfold Engine.handle onReport
    dsimp only
    split
    · exact abides.touch rfl
    · exact abides.refl _
  | .report (.grace task) => exact abides.onGrace e task
  | .report (.timer id node) => exact abides.onTimer e id node
  | .command .boot | .command (.start ..) | .command (.event _) | .report (.profile _ (.ok _) _)
  | .report (.step ..) | .report (.goal ..) | .report (.trigger ..) => cases round

/-- It also holds across coming up, if the goals of the recovered journeys may be checked. -/
theorem boot {snapshot : Snapshot} (held : e.store.backend.load.2 = .ok snapshot)
    (h : e.greeted.store.active ⊆ l) : R e.greeted (e.handle (.command .boot)) := by
  have up : R e.greeted e.onBoot.1 := by
    rw [onBoot_eq held]
    apply abides.trans (abides.foldl (fun e' j _ => abides.restore e.now e' j) _)
    exact abides.foldl (fun e' j hj => abides.checkGoal e' (h hj)) _
  exact abides.trans up (abides.touch rfl)

end Abides

end Engine

end Engagement
