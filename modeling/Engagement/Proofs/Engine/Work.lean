import Engagement.Proofs.Engine.Handling

/-! # Work

Steps and jobs are set off under task numbers in their order. Steps are abandoned with their journeys;
jobs are dropped when they report, and a grace period when it is cut short. Only that, signals about
the app and the end of a grace period bear on whether content may be shown: whatever else the engine
does leaves it alone, and a step that is set off meanwhile is told how matters stand.
-/

namespace Engagement

/-- Task numbers in their order, after `first` and up to `last`. -/
structure Numbered (first last : Nat) (numbers : List Nat) : Prop where
  ordered : numbers.Pairwise (· < ·)
  within : ∀ n ∈ numbers, first < n ∧ n ≤ last

namespace Numbered

variable {first mid last : Nat} {numbers more : List Nat}

theorem nil : Numbered first last [] := ⟨.nil, by simp⟩

theorem next (first : Nat) : Numbered first (first + 1) [first + 1] :=
  ⟨List.pairwise_singleton _ _, by simp⟩

theorem append (h : Numbered first mid numbers) (h' : Numbered mid last more)
    (le : first ≤ mid) (le' : mid ≤ last) : Numbered first last (numbers ++ more) := by
  constructor
  · refine List.pairwise_append.mpr ⟨h.ordered, h'.ordered, fun n hn k hk => ?_⟩
    exact Nat.lt_of_le_of_lt (h.within n hn).2 (h'.within k hk).1
  · rintro n hn
    rcases List.mem_append.mp hn with hn | hn
    · have := h.within n hn
      omega
    · have := h'.within n hn
      omega

theorem sublist (h : Numbered first last numbers) (sub : more.Sublist numbers) :
    Numbered first last more :=
  ⟨h.ordered.sublist sub, fun n hn => h.within n (sub.subset hn)⟩

end Numbered

namespace Engine

variable {e e' e'' : Engine}

/-- The work under way and what bears on it. -/
def work (e : Engine) : Bool × Bool × Option Nat × Nat × List Flight × List Task :=
  (e.foreground, e.presentationReady, e.grace, e.lastTask, e.flights, e.tasks)

/-- Steps may be abandoned, and steps and jobs are set off. The rest of the work goes on, and whether
content may be shown stays. -/
structure Works (e e' : Engine) : Prop where
  foreground : e'.foreground = e.foreground
  ready : e'.presentationReady = e.presentationReady
  grace : e'.grace = e.grace
  lastTask : e.lastTask ≤ e'.lastTask
  flights : ∃ fresh, Numbered e.lastTask e'.lastTask (fresh.map (·.task)) ∧
    (∀ f ∈ fresh, f.phase = .ready ∧ f.context.canPresent = e.canPresent) ∧
    e'.flights.Sublist (e.flights ++ fresh)
  tasks : ∃ fresh, Numbered e.lastTask e'.lastTask (fresh.map (·.id)) ∧
    (∀ t ∈ fresh, t.reported = false) ∧ e'.tasks = e.tasks ++ fresh

namespace Works

theorem canPresent_eq (h : Works e e') : e'.canPresent = e.canPresent := by
  unfold canPresent
  rw [h.foreground, h.ready]

/-- Steps may be abandoned, and the engine may change elsewhere. -/
theorem of_sublist (same : e'.work = { e with flights := e'.flights }.work)
    (flights : e'.flights.Sublist e.flights) : Works e e' := by
  simp only [work, Prod.mk.injEq] at same
  obtain ⟨foreground, ready, grace, lastTask, -, tasks⟩ := same
  refine ⟨foreground, ready, grace, Nat.le_of_eq lastTask.symm, ⟨[], .nil, by simp, ?_⟩,
    ⟨[], .nil, by simp, ?_⟩⟩
  · rwa [List.append_nil]
  · rw [List.append_nil, tasks]

/-- The engine may change elsewhere. -/
theorem of_eq (same : e'.work = e.work) : Works e e' := by
  have flights : e'.flights = e.flights := congrArg (·.2.2.2.2.1) same
  refine of_sublist ?_ (flights ▸ List.Sublist.refl _)
  rw [same]
  simp [work, flights]

theorem refl (e : Engine) : Works e e := .of_eq rfl

theorem trans (h : Works e e') (h' : Works e' e'') : Works e e'' := by
  refine ⟨h'.foreground.trans h.foreground, h'.ready.trans h.ready, h'.grace.trans h.grace,
    Nat.le_trans h.lastTask h'.lastTask, ?_, ?_⟩
  · obtain ⟨fresh, numbered, told, hs⟩ := h.flights
    obtain ⟨more, numbered', told', hs'⟩ := h'.flights
    refine ⟨fresh ++ more, ?_, ?_, ?_⟩
    · rw [List.map_append]
      exact numbered.append numbered' h.lastTask h'.lastTask
    · rw [h.canPresent_eq] at told'
      exact fun f hf => (List.mem_append.mp hf).elim (told f) (told' f)
    · rw [← List.append_assoc]
      exact hs'.trans (hs.append (List.Sublist.refl more))
  · obtain ⟨fresh, numbered, open_yet, he⟩ := h.tasks
    obtain ⟨more, numbered', open_yet', he'⟩ := h'.tasks
    refine ⟨fresh ++ more, ?_, ?_, ?_⟩
    · rw [List.map_append]
      exact numbered.append numbered' h.lastTask h'.lastTask
    · exact fun t ht => (List.mem_append.mp ht).elim (open_yet t) (open_yet' t)
    · rw [he', he, List.append_assoc]

/-- The same after changes elsewhere. -/
theorem beside (h : Works e' e'') (same : e'.work = e.work) : Works e e'' := (of_eq same).trans h

theorem foldl {α : Type} {f : Engine → α → Engine} (h : ∀ e a, Works e (f e a))
    (l : List α) (e : Engine) : Works e (l.foldl f e) :=
  List.foldlRecOn l f (.refl e) fun e' so_far a _ => so_far.trans (h e' a)

end Works

variable (e)

theorem works_finish (j : Journey) (reason : ExitReason) :
    Works e (e.finish j reason) := by
  unfold finish
  rw [abandon_eq]
  dsimp only
  split <;> exact .of_sublist rfl List.filter_sublist

theorem works_launch (j : Journey) (node : Node) : Works e (e.launch j node) := by
  refine ⟨rfl, rfl, rfl, Nat.le_succ _, ⟨_, ?_, ?_, List.Sublist.refl _⟩,
    ⟨[], .nil, by simp, (List.append_nil _).symm⟩⟩
  · exact .next e.lastTask
  · simp

theorem works_drive (id : JourneyId) (reason : ResumeReason) :
    Works e (e.drive id reason) := by
  unfold drive
  split
  · exact .of_eq rfl
  · split
    · split
      · exact .refl e
      · rename_i j _ _
        unfold driveAt
        split
        · split
          · exact works_finish e _ _
          · exact .refl e
        · split
          · exact works_finish e _ _
          · dsimp only
            exact (works_launch _ j _).beside rfl
    · exact .refl e

theorem works_drivePending (id : JourneyId) : Works e (e.drivePending id) := by
  unfold drivePending
  split
  · exact (works_drive _ id _).beside rfl
  · exact .refl e

theorem works_saving (j : Journey) {next : Engine → Engine}
    (h : ∀ e, Works e (next e)) : Works e (e.saving j next) := by
  unfold saving
  split
  · exact (h _).beside rfl
  · exact (works_finish _ _ _).beside rfl

theorem works_setTimer (j : Journey) : Works e (e.setTimer j) := by
  obtain ⟨timers, h⟩ := e.setTimer_eq j
  rw [h]
  exact .of_eq rfl

theorem works_spawn (job : Job) : Works e (e.spawn job) := by
  refine ⟨rfl, rfl, rfl, Nat.le_succ _, ⟨[], .nil, by simp, by simp [spawn]⟩,
    ⟨_, ?_, ?_, rfl⟩⟩
  · exact .next e.lastTask
  · simp

theorem works_checkGoal (j : Journey) : Works e (e.checkGoal j) := by
  unfold checkGoal
  split
  · exact works_spawn e _
  · exact .refl e

theorem works_advance (j : Journey) (next : String) (kind : Analytics.Kind) :
    Works e (e.advance j next kind) := by
  unfold advance
  dsimp only
  split
  · exact (works_finish _ _ _).beside rfl
  · split
    · exact .of_eq rfl
    · refine (works_saving _ _ fun e => ?_).beside rfl
      exact (works_drive (e.report ..) _ _).beside rfl

theorem works_park (j : Journey) (deadline : Option Instant) :
    Works e (e.park j deadline) := by
  have unstepped : Works e { e with steps := e.steps.erase j.id } :=
    .of_eq rfl
  unfold park
  dsimp only
  split
  · exact unstepped
  · rename_i parked _
    split
    · exact unstepped.trans
        ((works_setTimer _ parked).trans (works_drivePending _ _))
    · refine unstepped.trans (works_saving _ parked fun e => ?_)
      have reported : Works e (e.report .parked parked parked.node none) :=
        .of_eq rfl
      exact reported.trans ((works_setTimer _ parked).trans (works_drivePending _ _))

theorem works_apply (j : Journey) (result : StepResult) :
    Works e (e.apply j result) := by
  match result with
  | .proceed next => exact works_advance ..
  | .skip (some next) => exact works_advance ..
  | .skip none => exact works_finish ..
  | .suspend deadline => exact works_park ..
  | .complete reason => exact works_finish ..

theorem works_retryPresentations (except : Option JourneyId) :
    Works e (e.retryPresentations except) := by
  rw [retryPresentations_eq]
  refine .foldl (fun e j => ?_) _ e
  unfold retry
  split
  · exact works_drive e _ _
  · exact .refl e

theorem works_enter (campaign : Campaign) (user : String) (origin : Option Origin) :
    Works e (e.enter campaign user origin).1 := by
  unfold enter
  split
  · exact .of_eq rfl
  · dsimp only
    split
    · dsimp only [giveUp]
      exact (works_finish _ _ _).beside rfl
    · rename_i store _
      let j := Journey.start (e.ids e.issued) campaign user origin e.now
      have checked := works_checkGoal { e with issued := e.issued + 1, store := store } j
      have driven (e : Engine) :
          Works e ((e.report .entered j j.node none).drive j.id .start) :=
        (works_drive (e.report ..) _ _).beside rfl
      exact (checked.trans (driven _)).beside rfl

theorem works_onStart (campaign : Campaign) (user : String) (origin : Option Origin) :
    Works e (e.onStart campaign user origin).1 := by
  unfold onStart
  split
  · exact .refl e
  · exact (works_enter _ ..).beside rfl

theorem works_look (reason : ResumeReason) (j : Journey) : Works e (look reason e j) := by
  unfold look
  split
  · exact (works_checkGoal e j).trans (works_drive _ _ _)
  · exact works_checkGoal e j

theorem works_recheck (user : String) (reason : ResumeReason) :
    Works e (e.recheck user reason) := by
  rw [recheck_eq]
  exact .foldl (fun e => works_look e reason) _ e

theorem works_onEvent (event : HostEvent) : Works e (e.onEvent event) := by
  apply (works_recheck e _ _).trans
  refine .foldl (fun e (campaign, condition) => ?_) _ _
  cases condition with
  | none => exact works_enter ..
  | some condition => exact works_spawn ..

theorem works_onSegmentsChanged : Works e e.onSegmentsChanged := by
  apply (works_recheck e _ _).trans
  exact .foldl (fun e c => works_spawn e _) _ _

theorem works_onTrigger (campaign user : String) (origin : Option Origin) (holds : Bool) :
    Works e (e.onTrigger campaign user origin holds) := by
  unfold onTrigger
  split
  · split
    · exact works_enter ..
    · exact .refl e
  · exact .refl e

theorem works_onGoal (id : JourneyId) (metAt : Option Instant) :
    Works e (e.onGoal id metAt) := by
  rcases e.onGoal_cases id metAt with he | ⟨t, j, k, -, -, -, -, he⟩ <;> rw [he]
  · exact .refl e
  · unfold convert
    split
    · exact (works_finish _ _ _).beside rfl
    · exact (works_saving _ _ .refl).beside rfl

theorem works_onStep (task : Nat) (id : JourneyId) (node : String) (result : StepResult) :
    Works e (e.onStep task id node result) := by
  have landed : Works e { e with flights := e.flights.filter (·.journey.id ≠ id) } :=
    .of_sublist rfl List.filter_sublist
  unfold onStep
  split
  · exact .refl e
  · split
    · exact .refl e
    · dsimp only
      split
      · exact landed
      · split
        · exact landed
        · rename_i j _ _
          have applied := landed.trans (works_apply _ j result)
          split
          · exact applied.trans (works_retryPresentations _ _)
          · exact applied

theorem works_onResumeDue : Works e e.onResumeDue := by
  rw [onResumeDue_eq]
  refine .foldl (fun e j => ?_) _ e
  unfold takeUp
  split
  · exact .refl e
  · split
    · exact works_drive e _ _
    · split
      · exact works_drive e _ _
      · exact .refl e

theorem works_onTimer (id : JourneyId) (node : String) :
    Works e (e.onTimer id node) := by
  have released : Works e (e.releaseTimer id) :=
    .of_eq rfl
  unfold onTimer
  dsimp only
  split
  · exact released
  · split
    · exact released
    · split
      · exact released
      · split
        · exact released.trans (works_drive _ _ _)
        · exact released.trans (works_setTimer _ _)

theorem works_onProfile (fetched : Except HostFault Profile) :
    Works e (e.onProfile fetched).1 := by
  cases fetched with
  | error fault => exact .refl e
  | ok profile =>
    have installed : Works e (e.install profile) :=
      .of_eq rfl
    refine installed.trans (.foldl (fun e j => ?_) _ _)
    split
    · exact .refl e
    · exact works_finish e _ _

theorem works_recover : Works e e.recover.1 := by
  unfold recover
  split
  · exact .of_eq rfl
  · have restored (now : Instant) (e : Engine) (j : Journey) :
        Works e (e.restore now j) := by
      unfold restore
      split
      · exact works_setTimer e j
      · exact works_drive e _ _
    exact ((Works.foldl (restored _) _ _).trans
      (.foldl works_checkGoal _ _)).beside rfl

theorem works_onBoot : Works e e.onBoot.1 := by
  unfold onBoot
  dsimp only
  split
  · exact (works_recover _).beside rfl
  · exact (works_recover _).beside rfl

/-! ## All messages -/

/-- What a message tells about the screen and about jobs. A job that reports is dropped. In the
background nothing is shown, and the grace period is cut short; when the app becomes active, one
begins under the next task number and has to pass first. -/
def heed : Message → Engine
  | .command (.lifecycle .enteredBackground) =>
    { e.dropGrace with foreground := false, presentationReady := false }
  | .command (.lifecycle .entersForeground) => { e with foreground := true }
  | .command (.lifecycle .becameActive) => e.onLifecycle .becameActive
  | .report (.grace task) =>
    if e.grace = some task then
      { e.dropTask task with
        grace := none, presentationReady := e.presentationReady || e.foreground }
    else e.dropTask task
  | .report (.profile task ..) | .report (.goal task ..) | .report (.trigger task ..) =>
    e.dropTask task
  | _ => e

theorem dropGrace_eq : e.dropGrace =
    { e with tasks := e.tasks.filter fun t => decide (e.grace ≠ some t.id), grace := none } := by
  unfold dropGrace
  rcases present : e.grace with _ | task
  · have kept : (e.tasks.filter fun t => decide (none ≠ some t.id)) = e.tasks := by simp
    change e = _
    rw [kept, ← present]
  · simp [dropTask, eq_comm]

/-- When the app becomes active, a grace period takes the place of any before. -/
theorem becameActive_eq : e.onLifecycle .becameActive = { e with
    foreground := true, grace := some (e.lastTask + 1), lastTask := e.lastTask + 1
    tasks := (e.tasks.filter fun t => decide (e.grace ≠ some t.id)) ++
      [⟨e.lastTask + 1, .grace (e.uptime + e.settings.grace), false, e.uptime⟩] } := by
  simp only [onLifecycle, dropGrace_eq, spawn]
  rfl

theorem heed_flights (m : Message) : (e.heed m).flights = e.flights := by
  unfold heed
  split
  · rw [dropGrace_eq]
  · rfl
  · rw [becameActive_eq]
  · split <;> rfl
  all_goals rfl

theorem lastTask_le_heed (m : Message) : e.lastTask ≤ (e.heed m).lastTask := by
  unfold heed
  split
  · refine Nat.le_of_eq ?_
    rw [dropGrace_eq]
  · exact Nat.le_refl _
  · rw [becameActive_eq]
    exact Nat.le_succ _
  · split <;> exact Nat.le_refl _
  all_goals exact Nat.le_refl _

theorem works_onGrace (task : Nat) :
    Works (e.heed (.report (.grace task))) (e.onGrace task) := by
  unfold onGrace heed
  change Works (if e.grace = some task then _ else _) (if e.grace = some task then
    if e.foreground then _ else _ else e.dropTask task)
  split
  · cases front : e.foreground with
    | true =>
      rw [Bool.or_true, if_pos rfl]
      exact (works_retryPresentations _ _).beside (by simp [work, dropTask, front])
    | false => exact .of_eq (by simp [work, dropTask, front])
  · exact .refl _

theorem works_onLifecycle (signal : Lifecycle) :
    Works (e.heed (.command (.lifecycle signal))) (e.onLifecycle signal) := by
  cases signal with
  | enteredBackground =>
    unfold onLifecycle heed
    dsimp only
    rw [dropGrace_eq, dropGrace_eq]
    exact .of_eq rfl
  | entersForeground =>
    have rearmed (now : Instant) (e : Engine) (j : Journey) : Works e (rearm now e j) := by
      unfold rearm
      split
      · exact works_setTimer e j
      · exact .refl e
    rw [onLifecycle_entersForeground]
    exact ((Works.foldl (rearmed _) _ _).trans (works_onResumeDue _)).trans
      (.foldl works_checkGoal _ _)
  | becameActive => exact .refl _

/-- Apart from what a message tells about the screen and about jobs, its handling lets the work go
on. -/
theorem works_handle (m : Message) : Works (e.heed m) (e.handle m) := by
  match m with
  | .command .boot => exact (works_onBoot e).trans (.of_eq rfl)
  | .command (.start ..) => exact (works_onStart e ..).trans (.of_eq rfl)
  | .command (.event event) => exact works_onEvent e event
  | .command .segmentsChanged => exact works_onSegmentsChanged e
  | .command .refreshProfile => exact works_spawn e _
  | .command (.contentInvalidated flow) =>
    unfold handle onCommand
    dsimp only
    split
    · exact works_spawn e _
    · exact .refl e
  | .command .resumeDue => exact works_onResumeDue e
  | .command (.lifecycle signal) => exact works_onLifecycle e signal
  | .report (.profile task fetched requested) =>
    have installed := works_onProfile (e.dropTask task) fetched
    unfold handle onReport
    dsimp only
    split
    · exact installed.trans (.of_eq rfl)
    · exact installed
  | .report (.grace task) => exact works_onGrace e task
  | .report (.timer id node) => exact works_onTimer e id node
  | .report (.step task id node result) => exact works_onStep e task id node result
  | .report (.goal task id metAt) => exact works_onGoal (e.dropTask task) id metAt
  | .report (.trigger task campaign user origin holds) =>
    exact works_onTrigger (e.dropTask task) campaign user origin holds

end Engine

end Engagement
