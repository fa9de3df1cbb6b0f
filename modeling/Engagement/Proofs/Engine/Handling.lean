import Engagement.Proofs.Engine.Driving
import Engagement.Proofs.Store.Recovery

/-! # Handling as changes

Before it acts on a message, the engine takes in what the message brings: a campaign, a profile,
the end of a step. The rest of the handling is a sequence of changes; only few messages let journeys
start.
-/

namespace Engagement

/-- Whether a journey may start when a message is handled. -/
def Message.mayStart : Message → Bool
  | .command (.start ..) | .command (.event _) | .report (.trigger ..) => true
  | _ => false

namespace Engine

variable {e e' : Engine} {j k : Journey}

/-- Takes in what a message brings. -/
def takeIn (e : Engine) : Message → Engine
  | .command (.start campaign _ _) =>
    match campaign.validate with
    | .ok () => { e with campaigns := e.campaigns.insert campaign.id campaign }
    | .error _ => e
  | .report (.profile task (.ok profile) _) => (e.dropTask task).install profile
  | .report (.step task id _ _) =>
    if (e.flight? id).any (·.task = task) then
      { e with flights := e.flights.filter (·.journey.id ≠ id) }
    else e
  | _ => e

theorem calms_checkGoal (e : Engine) (j : Journey) : Calms e (e.checkGoal j) := by
  unfold checkGoal
  split
  · exact .single (.spawn e rfl)
  · exact .refl

theorem quiets_checkGoal (e : Engine) (j : Journey) : Quiets e (e.checkGoal j) :=
  (calms_checkGoal e j).quiets

/-! ## Profiles, events and segments -/

theorem mem_chosen {α : Type} {choose : Campaign → Option α} {campaign : Campaign} {a : α}
    (h : (campaign, a) ∈ e.chosen choose) :
    (∃ key, (key, campaign) ∈ e.campaigns) ∧ choose campaign = some a := by
  rw [chosen, List.mem_mergeSort, List.mem_filterMap] at h
  obtain ⟨⟨key, c⟩, hc, ha⟩ := h
  obtain ⟨b, hb, he⟩ := Option.map_eq_some_iff.mp ha
  obtain ⟨rfl, rfl⟩ := Prod.mk.inj he
  exact ⟨⟨key, hc⟩, hb⟩

/-- Ending journeys one after the other leaves the others as they are. -/
theorem calms_foldl_withdraw (p : Engine → Journey → Bool) (l : List Journey) (e : Engine)
    (sound : e.Sound) (distinct : DistinctIds l) (under_way : ∀ j ∈ l, j ∈ e.store.active) :
    Calms e (l.foldl (fun e j => if p e j then e else e.finish j .campaignUnavailable) e) := by
  induction l generalizing e with
  | nil => exact .refl
  | cons j l ih =>
    have hj := under_way j (by simp)
    have alive := sound.alive j hj
    rw [List.foldl_cons]
    split
    · exact ih e sound distinct.tail fun k hk => under_way k (by simp [hk])
    · have hc := calms_finish hj alive .unavailable
      refine hc.trans (ih _ (sound.changes hc.changes) distinct.tail ?_)
      intro k hk
      rw [(completes_finish alive _ (.inl rfl)).active, mem_without]
      exact ⟨under_way k (by simp [hk]), distinct.head_ne hk⟩

/-- Once a profile is installed, the journeys are ended whose campaign it lacks. -/
theorem calms_onProfile (sound : e.Sound) (profile : Profile) :
    Calms (e.install profile) (e.onProfile (.ok profile)).1 :=
  calms_foldl_withdraw (fun e j => (e.campaigns.get? j.campaignId).isSome) _ _
    ⟨sound.distinct, sound.alive⟩ sound.distinct fun _ hj => hj

/-- Checks a journey's goal, and drives the journey if it waits. -/
def look (reason : ResumeReason) (e : Engine) (j : Journey) : Engine :=
  if e.atWait j then (e.checkGoal j).drive j.id reason else e.checkGoal j

theorem recheck_eq (e : Engine) (user : String) (reason : ResumeReason) :
    e.recheck user reason = (e.store.activeFor user).foldl (look reason) e := rfl

theorem calms_look (reason : ResumeReason) (e : Engine) (j : Journey) :
    Calms e (look reason e j) := by
  unfold look
  split
  · exact (calms_checkGoal e j).trans (calms_drive _ _ _)
  · exact calms_checkGoal e j

theorem quiets_look (reason : ResumeReason) (e : Engine) (j : Journey) :
    Quiets e (look reason e j) := (calms_look reason e j).quiets

theorem calms_recheck (e : Engine) (user : String) (reason : ResumeReason) :
    Calms e (e.recheck user reason) :=
  recheck_eq e user reason ▸ Calms.foldl (calms_look reason) _ e

theorem quiets_recheck (e : Engine) (user : String) (reason : ResumeReason) :
    Quiets e (e.recheck user reason) := (calms_recheck e user reason).quiets

theorem quiets_onSegmentsChanged (e : Engine) : Quiets e e.onSegmentsChanged := by
  unfold onSegmentsChanged
  dsimp only
  apply (quiets_recheck e e.user .segmentChange).trans
  exact Quiets.foldl (fun e c => .of_aside (.spawn e _)) _ _

/-! ## Goals, steps, deadlines and the life of the app -/

/-- What follows when a conversion has been announced, as the policy of its journey says. -/
def convert (e : Engine) (converted : Journey) : Engine :=
  match converted.exitPolicy with
  | .onGoalMet => e.finish converted .goalMet
  | .never => e.saving { converted with updatedAt := e.now } fun e => e

/-- An outcome is dropped, or it is recorded for a journey under way and announced. -/
theorem onGoal_cases (e : Engine) (id : JourneyId) (metAt : Option Instant) :
    e.onGoal id metAt = e ∨ ∃ t j k, metAt = some t ∧ e.store.get? id = some j ∧
      j.isTerminal = false ∧ j.recordConversion t = (k, true) ∧
      e.onGoal id metAt = (e.report .goalMet k k.node none).convert k := by
  unfold onGoal
  split
  · rename_i t j hj
    split
    · exact .inl rfl
    · rename_i ha
      split
      · exact .inl rfl
      · rename_i k recorded
        exact .inr ⟨t, j, k, rfl, hj, by simpa using ha, recorded, rfl⟩
  · exact .inl rfl

theorem onGoal_of_recorded {id : JourneyId} {t : Instant} (hj : e.store.get? id = some j)
    (alive : j.isTerminal = false) (recorded : j.recordConversion t = (k, true)) :
    e.onGoal id (some t) = (e.report .goalMet k k.node none).convert k := by
  simp only [onGoal, hj, alive, recorded, Bool.false_eq_true, if_false]
  rfl

theorem quiets_convert (under_way : j ∈ e.store.active) (alive : j.isTerminal = false)
    (t : Instant) : Quiets e (e.convert { j with convertedAt := some t }) := by
  have continues : j.Continues { j with convertedAt := some t } :=
    ⟨rfl, rfl, rfl, rfl, rfl, rfl, rfl, rfl, rfl, rfl⟩
  have amends : Amends e.now j { j with convertedAt := some t, updatedAt := e.now } := .convert j t
  unfold convert
  split
  · exact .single (.finish under_way alive continues (.inl rfl) (.inl rfl))
  · unfold saving
    split
    · rename_i store saved
      exact .single (.amend under_way alive amends saved fun _ => j.agrees_convert _ _)
    · rename_i store fault refused
      exact Calms.quiets (calms_giveUp under_way alive amends.continues refused (.inl rfl))

theorem quiets_onGoal (e : Engine) (id : JourneyId) (metAt : Option Instant) :
    Quiets e (e.onGoal id metAt) := by
  rcases e.onGoal_cases id metAt with he | ⟨t, j, k, -, hj, alive, recorded, he⟩
  · rw [he]
  · obtain rfl := Journey.of_recordConversion recorded
    rw [he]
    apply Quiets.after (.report e .goalMet _ _ none rfl)
    exact quiets_convert (e := e.report .goalMet _ _ none) (mem_of_get? hj).1 alive t

/-- A report of a step that is not under way has no effect. -/
theorem onStep_of_stale {task : Nat} {id : JourneyId}
    (stale : (e.flight? id).any (·.task = task) = false) (node : String) (result : StepResult) :
    e.onStep task id node result = e := by
  unfold onStep
  split
  · rfl
  · rename_i flight hf
    rw [if_pos (by simpa [hf] using stale)]

/-- Once its step has been taken in, the result is applied to the journey as it stands. -/
theorem onStep_of_taken {task : Nat} {id : JourneyId}
    (taken : (e.flight? id).any (·.task = task) = true) (node : String) (result : StepResult) :
    let e₁ := { e with flights := e.flights.filter (·.journey.id ≠ id) }
    e.onStep task id node result = match e.store.get? id with
      | none => e₁
      | some j =>
        if j.isTerminal ∨ j.node ≠ node then e₁
        else if !result.isSuspend && e.atContent j && (e₁.apply j result).canPresent then
          (e₁.apply j result).retryPresentations (some id)
        else e₁.apply j result := by
  unfold onStep
  split
  · rename_i hf
    simp [hf] at taken
  · rename_i flight hf
    rw [if_neg (by simpa [hf] using taken)]
    rfl

theorem quiets_onStep (sound : e.Sound) (task : Nat) (id : JourneyId) (node : String)
    (result : StepResult) :
    Quiets (e.takeIn (.report (.step task id node result))) (e.onStep task id node result) := by
  unfold takeIn
  dsimp only
  split
  · rename_i taken
    rw [onStep_of_taken taken]
    split
    · exact .refl
    · rename_i j hj
      obtain ⟨hm, rfl⟩ := mem_of_get? hj
      split
      · exact .refl
      · have free : isFlying { e with flights := e.flights.filter (·.journey.id ≠ j.id) } j.id =
            false := by simp [isFlying_eq_false]
        have happly := quiets_apply (by exact hm) (sound.alive j hm) free result
        split
        · exact happly.trans (quiets_retryPresentations _ _)
        · exact happly
  · rename_i stale
    rw [onStep_of_stale (by simpa using stale)]

/-- Drives a journey that is due, or that waits for the screen. -/
def takeUp (now : Instant) (canPresent : Bool) (e : Engine) (j : Journey) : Engine :=
  if j.status ≠ .paused then e
  else if j.resumeAt.any (· ≤ now) then e.drive j.id .timer
  else if canPresent ∧ j.resumeAt.isNone ∧ e.atContent j then e.drive j.id .foreground
  else e

theorem onResumeDue_eq (e : Engine) :
    e.onResumeDue = e.store.active.foldl (takeUp e.now e.canPresent) e := rfl

theorem calms_takeUp (now : Instant) (canPresent : Bool) (e : Engine) (j : Journey) :
    Calms e (takeUp now canPresent e j) := by
  unfold takeUp
  split
  · exact .refl
  · split
    · exact calms_drive _ _ _
    · split
      · exact calms_drive _ _ _
      · exact .refl

theorem calms_onResumeDue (e : Engine) : Calms e e.onResumeDue :=
  onResumeDue_eq e ▸ Calms.foldl (calms_takeUp e.now e.canPresent) _ e

theorem calms_onTimer (e : Engine) (id : JourneyId) (node : String) :
    Calms e (e.onTimer id node) := by
  unfold onTimer
  apply Relation.ReflTransGen.head (.releaseTimer e id)
  dsimp only
  split
  · exact .refl
  · rename_i j hj
    split
    · exact .refl
    · split
      · exact .refl
      · split
        · exact calms_drive _ _ _
        · exact .single (.setTimer (mem_of_get? hj).1 rfl rfl)

theorem calms_onGrace (e : Engine) (task : Nat) : Calms e (e.onGrace task) := by
  unfold onGrace
  apply Relation.ReflTransGen.head (.dropTask e task)
  dsimp only
  split
  · apply Relation.ReflTransGen.head (.grace _ none)
    split
    · exact .head (.ready _ true) (calms_retryPresentations _ _)
    · exact .refl
  · exact .refl

theorem calms_dropGrace (e : Engine) : Calms e e.dropGrace := by
  unfold dropGrace
  split
  · exact .head (.dropTask e _) (.single (.grace _ none))
  · exact .refl

/-- Sets the timer of a journey whose deadline is still to come. -/
def rearm (now : Instant) (e : Engine) (j : Journey) : Engine :=
  if j.status = .paused ∧ j.resumeAt.any (now < ·) then e.setTimer j else e

theorem rearm_store (now : Instant) (e : Engine) (j : Journey) :
    (rearm now e j).store = e.store := by
  unfold rearm
  split
  · exact setTimer_store e j
  · rfl

theorem rearms_store (now : Instant) (l : List Journey) (e : Engine) :
    (l.foldl (rearm now) e).store = e.store := by
  induction l generalizing e with
  | nil => rfl
  | cons j l ih => exact (ih _).trans (rearm_store now e j)

theorem calms_rearm (now : Instant) {e : Engine} {j : Journey} (under_way : j ∈ e.store.active) :
    Calms e (rearm now e j) := by
  unfold rearm
  split
  · exact .single (.setTimer under_way rfl rfl)
  · exact .refl

theorem calms_rearms (now : Instant) (l : List Journey) (e : Engine)
    (under_way : ∀ j ∈ l, j ∈ e.store.active) : Calms e (l.foldl (rearm now) e) := by
  induction l generalizing e with
  | nil => exact .refl
  | cons j l ih =>
    apply (calms_rearm now (under_way j (by simp))).trans
    exact ih _ fun k hk => rearm_store now e j ▸ under_way k (by simp [hk])

/-- Coming back to the foreground sets the timers again, takes up what is due and checks goals. -/
theorem onLifecycle_entersForeground (e : Engine) :
    let front := { e with foreground := true }
    e.onLifecycle .entersForeground =
      e.store.active.foldl checkGoal (e.store.active.foldl (rearm e.now) front).onResumeDue := rfl

theorem quiets_onLifecycle (e : Engine) (signal : Lifecycle) :
    Quiets e (e.onLifecycle signal) := by
  cases signal with
  | enteredBackground =>
    apply Quiets.after (.signal e false false)
    exact (calms_dropGrace _).quiets.tail (.aside (.cancelTimers _))
  | entersForeground =>
    apply Quiets.after (.signal e true e.presentationReady)
    rw [onLifecycle_entersForeground]
    apply Relation.ReflTransGen.trans ?_ (Calms.foldl calms_checkGoal _ _).quiets
    exact Calms.quiets ((calms_rearms _ _ _ fun _ hj => hj).trans (calms_onResumeDue _))
  | becameActive =>
    apply Quiets.after (.signal e true e.presentationReady)
    apply (calms_dropGrace _).quiets.trans
    exact Quiets.after (.spawn _ _) (.of_aside (.grace _ _))

/-! ## All messages -/

/-- No journey starts but on a start, an event or a checked trigger. -/
theorem quiets_handle (sound : e.Sound) {m : Message} (h : m ≠ .command .boot)
    (quiet : m.mayStart = false) : Quiets (e.takeIn m) (e.handle m) := by
  match m with
  | .command .boot => exact (h rfl).elim
  | .command (.start campaign user origin) => cases quiet
  | .command (.event event) => cases quiet
  | .command .segmentsChanged => exact quiets_onSegmentsChanged e
  | .command .refreshProfile => exact .of_aside (.spawn e _)
  | .command (.contentInvalidated flow) =>
    unfold handle onCommand
    dsimp only
    split
    · exact .of_aside (.spawn e _)
    · exact .refl
  | .command .resumeDue => exact (calms_onResumeDue e).quiets
  | .command (.lifecycle signal) => exact quiets_onLifecycle e signal
  | .report (.profile task (.error fault) requested) =>
    apply Quiets.after (.dropTask e task)
    unfold handle onReport
    dsimp only
    split
    · exact .of_aside (.answer _ _)
    · exact .refl
  | .report (.profile task (.ok profile) requested) =>
    have hf := (calms_onProfile ⟨sound.distinct, sound.alive⟩ (e := e.dropTask task) profile).quiets
    unfold handle onReport
    dsimp only
    split
    · exact hf.tail (.aside (.answer _ _))
    · exact hf
  | .report (.grace task) => exact (calms_onGrace e task).quiets
  | .report (.timer id node) => exact (calms_onTimer e id node).quiets
  | .report (.step task id node result) => exact quiets_onStep sound task id node result
  | .report (.goal task id metAt) =>
    exact Quiets.after (.dropTask e task) (quiets_onGoal _ _ _)
  | .report (.trigger task campaign user origin holds) => cases quiet

section

variable (e : Engine) (m : Message)

theorem takeIn_eq : ∃ campaigns loaded flights tasks, flights.Sublist e.flights ∧
    e.takeIn m = { e with
      campaigns := campaigns, profileLoaded := loaded, flights := flights, tasks := tasks } := by
  unfold takeIn
  split
  · split
    · exact ⟨_, _, _, _, .refl _, rfl⟩
    · exact ⟨_, _, _, _, .refl _, rfl⟩
  · exact ⟨_, _, _, _, .refl _, rfl⟩
  · split
    · exact ⟨_, _, _, _, List.filter_sublist, rfl⟩
    · exact ⟨_, _, _, _, .refl _, rfl⟩
  · exact ⟨_, _, _, _, .refl _, rfl⟩

@[simp] theorem takeIn_store : (e.takeIn m).store = e.store := by
  obtain ⟨_, _, _, _, -, h⟩ := e.takeIn_eq m
  rw [h]

@[simp] theorem takeIn_settings : (e.takeIn m).settings = e.settings := by
  obtain ⟨_, _, _, _, -, h⟩ := e.takeIn_eq m
  rw [h]

@[simp] theorem takeIn_ids : (e.takeIn m).ids = e.ids := by
  obtain ⟨_, _, _, _, -, h⟩ := e.takeIn_eq m
  rw [h]

@[simp] theorem takeIn_issued : (e.takeIn m).issued = e.issued := by
  obtain ⟨_, _, _, _, -, h⟩ := e.takeIn_eq m
  rw [h]

@[simp] theorem takeIn_events : (e.takeIn m).events = e.events := by
  obtain ⟨_, _, _, _, -, h⟩ := e.takeIn_eq m
  rw [h]

@[simp] theorem takeIn_host : (e.takeIn m).host = e.host := by
  obtain ⟨_, _, _, _, -, h⟩ := e.takeIn_eq m
  rw [h]

@[simp] theorem takeIn_pending : (e.takeIn m).pending = e.pending := by
  obtain ⟨_, _, _, _, -, h⟩ := e.takeIn_eq m
  rw [h]

@[simp] theorem takeIn_timers : (e.takeIn m).timers = e.timers := by
  obtain ⟨_, _, _, _, -, h⟩ := e.takeIn_eq m
  rw [h]

@[simp] theorem takeIn_foreground : (e.takeIn m).foreground = e.foreground := by
  obtain ⟨_, _, _, _, -, h⟩ := e.takeIn_eq m
  rw [h]

@[simp] theorem takeIn_lastTask : (e.takeIn m).lastTask = e.lastTask := by
  obtain ⟨_, _, _, _, -, h⟩ := e.takeIn_eq m
  rw [h]

theorem takeIn_flights : (e.takeIn m).flights.Sublist e.flights := by
  obtain ⟨_, _, _, _, sublist, h⟩ := e.takeIn_eq m
  rw [h]
  exact sublist

end

/-! ## Coming up -/

/-- Driving a journey at most takes it out of the mirror. -/
theorem drive_active (e : Engine) (id : JourneyId) (reason : ResumeReason) :
    (e.drive id reason).store.active = e.store.active ∨
      (e.drive id reason).store.active = without id e.store.active := by
  have ended : ∀ {k : Journey} (exit : ExitReason), k.id = id → k.isTerminal = false →
      (e.finish k exit).store.active = without id e.store.active := by
    rintro k exit rfl alive
    exact (completes_finish alive exit (.inl rfl)).active
  unfold drive
  split
  · exact .inl rfl
  · split
    · rename_i k hk
      split
      · exact .inl rfl
      · rename_i ha
        have alive : k.isTerminal = false := by simpa using ha
        unfold driveAt
        split
        · split
          · exact .inr (ended _ (mem_of_get? hk).2 alive)
          · exact .inl rfl
        · split
          · exact .inr (ended _ (mem_of_get? hk).2 alive)
          · exact .inl rfl
    · exact .inl rfl

theorem mem_restore {now : Instant} (hk : k ∈ e.store.active) (hne : k.id ≠ j.id) :
    k ∈ (e.restore now j).store.active := by
  unfold restore
  split
  · rwa [setTimer_store]
  · rcases e.drive_active j.id .restore with h | h
    · exact h ▸ hk
    · exact h ▸ mem_without.mpr ⟨hk, hne⟩

theorem calms_restore {now : Instant} (under_way : j ∈ e.store.active) :
    Calms e (e.restore now j) := by
  unfold restore
  split
  · exact .single (.setTimer under_way rfl rfl)
  · exact calms_drive _ _ _

theorem calms_restores (now : Instant) (l : List Journey) (e : Engine) (distinct : DistinctIds l)
    (under_way : ∀ j ∈ l, j ∈ e.store.active) : Calms e (l.foldl (·.restore now) e) := by
  induction l generalizing e with
  | nil => exact .refl
  | cons j l ih =>
    apply (calms_restore (under_way j (by simp))).trans
    exact ih _ distinct.tail fun k hk => mem_restore (under_way k (by simp [hk]))
      (distinct.head_ne hk)

/-- An engine in front of readable storage takes up the journeys that it recovers, and checks their
goals. -/
theorem recover_eq {snapshot : Snapshot} (h : e.store.backend.load.2 = .ok snapshot) :
    let loaded := { e with store := e.store.recovered }
    e.recover = (loaded.store.active.foldl checkGoal
      (loaded.store.active.foldl (·.restore e.now) loaded), .ok ()) := by
  unfold recover
  rw [Store.recovered, Store.load_of_ok h]
  rfl

/-- The engine once it has its user, what storage holds, and campaigns if it can get them. -/
def greeted (e : Engine) : Engine :=
  let e := { e with user := e.host.distinctId, store := e.store.recovered }
  match e.host.fetchProfile with
  | .ok profile => e.install profile
  | .error _ => e

theorem onBoot_eq {snapshot : Snapshot} (h : e.store.backend.load.2 = .ok snapshot) :
    e.onBoot = (e.greeted.store.active.foldl checkGoal
      (e.greeted.store.active.foldl (·.restore e.now) e.greeted), .ok ()) := by
  unfold onBoot greeted
  dsimp only
  rcases e.host.fetchProfile with fault | profile
  · exact recover_eq (e := { e with user := e.host.distinctId }) h
  · exact recover_eq (e := install { e with user := e.host.distinctId } profile) h

theorem greeted_eq (e : Engine) : ∃ campaigns loaded, e.greeted = { e with
    user := e.host.distinctId, campaigns := campaigns, profileLoaded := loaded
    store := e.store.recovered } := by
  unfold greeted
  dsimp only
  split
  · exact ⟨_, _, rfl⟩
  · exact ⟨_, _, rfl⟩

theorem sound_greeted {snapshot : Snapshot} (h : e.store.backend.load.2 = .ok snapshot) :
    e.greeted.Sound := by
  obtain ⟨campaigns, loaded, hg⟩ := e.greeted_eq
  rw [hg]
  exact ⟨Store.recovered_distinct h, fun _ hj => (Store.mem_of_mem_recovered h hj).2⟩

theorem calms_onBoot {snapshot : Snapshot} (h : e.store.backend.load.2 = .ok snapshot) :
    Calms e.greeted e.onBoot.1 := by
  rw [onBoot_eq h]
  have distinct := (sound_greeted h).distinct
  exact (calms_restores e.now _ _ distinct fun _ hj => hj).trans (Calms.foldl calms_checkGoal _ _)

theorem calms_boot {snapshot : Snapshot} (h : e.store.backend.load.2 = .ok snapshot) :
    Calms e.greeted (e.handle (.command .boot)) := (calms_onBoot h).tail (.answer _ _)

/-- When the engine is told to come up it installs a profile, or leaves the campaigns as they are. -/
theorem boot_campaigns (e : Engine) : (e.handle (.command .boot)).campaigns = e.campaigns ∨
    ∃ profile, (e.handle (.command .boot)).campaigns = (e.install profile).campaigns := by
  rcases h : e.store.backend.load.2 with fault | snapshot
  · have kept : ∀ e' : Engine, e'.store = e.store → e'.recover.1.campaigns = e'.campaigns := by
      intro e' same
      unfold recover
      rw [same, Store.load]
      rcases hl : e.store.backend.load with ⟨backend, result⟩
      obtain rfl : result = .error fault := by simpa [hl] using h
      rfl
    unfold handle onCommand
    dsimp only
    unfold onBoot
    dsimp only
    split
    · rename_i profile _
      exact .inr ⟨profile, kept _ rfl⟩
    · exact .inl (kept _ rfl)
  · rw [(calms_boot h).quiets.changes.campaigns_eq]
    unfold greeted
    dsimp only
    split
    · exact .inr ⟨_, rfl⟩
    · exact .inl rfl

/-- An engine in front of readable storage comes up. It goes on from the store that it has
recovered. -/
theorem onBoot_of_load {snapshot : Snapshot} (h : e.store.backend.load.2 = .ok snapshot) :
    e.onBoot.2 = .ok () ∧ ∃ campaigns loaded,
      Quiets { e with
        user := e.host.distinctId, campaigns := campaigns, profileLoaded := loaded
        store := e.store.recovered } e.onBoot.1 := by
  obtain ⟨campaigns, loaded, hg⟩ := e.greeted_eq
  exact ⟨by rw [onBoot_eq h], campaigns, loaded, hg ▸ (calms_onBoot h).quiets⟩

end Engine

end Engagement
