import Engagement.Proofs.Engine.Conversions
import Engagement.Proofs.Engine.Identity
import Engagement.Proofs.Engine.Rounds

/-! # Checks of goals

Goals are checked when journeys start, when the engine comes up, on events and changes of segments, and
when the app comes back to the foreground. Each check is of a journey that is in the mirror as the
handling of the message begins, or of one that is admitted by it. What it finds depends on the kind of
the goal: an event counts by its own time, any other goal by the time of the check.
-/

namespace Engagement

namespace Goal

variable {goal : Goal} {host : Host} {user : String} {anchor now t : Instant}

/-- A time at which the goal may be found to be met from `anchor` on. Only for an event is the time
compared with the beginning of the window. -/
structure Admits (goal : Goal) (anchor t : Instant) : Prop where
  before_end : ∀ limit, goal.windowEnd? anchor = some limit → t < limit
  from_anchor : goal.kind = .event → anchor ≤ t

theorem inWindow_of_first {log : EventLog} {name : String} {since before : Option Instant}
    (found : log.first name user since before = .ok (some t)) :
    EventLog.inWindow since before t = true := by
  unfold EventLog.first EventLog.times at found
  split at found
  · cases found
  · have least := List.min?_mem (Except.ok.inj found)
    obtain ⟨o, ho, rfl⟩ := List.mem_map.mp least
    have here := (List.mem_filter.mp ho).2
    simp only [Bool.and_eq_true] at here
    exact here.2

theorem inWindow_of_firstTime {name : String} {since before : Option Instant}
    (found : host.firstTime name user since before = .ok (some t)) :
    EventLog.inWindow since before t = true := by
  unfold Host.firstTime Host.guarded at found
  split at found
  · cases found
  · exact inWindow_of_first found

/-- What a check finds lies before the window's end. For an event it lies in the window, otherwise it
is the time of the check. -/
theorem admits_of_metAt (found : goal.metAt host user anchor now = some t) :
    goal.Admits anchor t ∧ (goal.kind ≠ .event → t = now) := by
  unfold metAt at found
  split at found
  · rename_i event
    unfold eventMetAt at found
    obtain ⟨name, -, found⟩ := Option.bind_eq_some_iff.mp found
    rcases hf : host.firstTime name user (some anchor) (goal.windowEnd? anchor) with fault | first
    · simp [hf, Except.toOption] at found
    · obtain rfl : first = some t := by simpa [hf, Except.toOption] using found
      have here := inWindow_of_firstTime hf
      simp only [EventLog.inWindow, Bool.and_eq_true, Option.all_some, decide_eq_true_iff] at here
      refine ⟨⟨fun limit h => ?_, fun _ => here.1⟩, fun h => (h event).elim⟩
      simpa [h] using here.2
  · rename_i other
    split at found
    · cases found
    · rename_i still
      split at found
      · obtain rfl := Option.some.inj found
        refine ⟨⟨fun limit h => ?_, fun event => (other event).elim⟩, fun _ => rfl⟩
        exact Int.not_le.mp (show ¬ limit ≤ now by simpa [h] using still)
      · cases found

end Goal

namespace Engine

variable {e e' e'' : Engine} {j k : Journey} {l l' : List Journey} {m : Message}

/-! ## Setting off checks -/

/-- The checks of goals under way are from before, or have been set off now for some of the
journeys. -/
structure Looks (l : List Journey) (e e' : Engine) : Prop where
  now_eq : e'.now = e.now
  checks : ∀ t ∈ e'.tasks, ∀ j now, t.job = .goal j now →
    t ∈ e.tasks ∨ j ∈ l ∧ j.convertedAt = none ∧ now = e.now

namespace Looks

theorem of_tasks (now_eq : e'.now = e.now) (tasks : e'.tasks = e.tasks) : Looks l e e' :=
  ⟨now_eq, fun _ ht _ _ _ => .inl (tasks ▸ ht)⟩

theorem refl (e : Engine) : Looks l e e := of_tasks rfl rfl

theorem trans (h : Looks l e e') (h' : Looks l e' e'') : Looks l e e'' := by
  refine ⟨h'.now_eq.trans h.now_eq, fun t ht j now job => ?_⟩
  rcases h'.checks t ht j now job with ht | ⟨hj, unmet, same⟩
  · exact h.checks t ht j now job
  · exact .inr ⟨hj, unmet, same.trans h.now_eq⟩

/-- What is the same before checks are set off does not matter. -/
theorem after {d : Engine} (now_eq : d.now = e.now) (tasks : d.tasks = e.tasks)
    (h : Looks l d e') : Looks l e e' := (of_tasks now_eq tasks).trans h

theorem mono (h : Looks l e e') (sub : l ⊆ l') : Looks l' e e' :=
  ⟨h.now_eq, fun t ht j now job =>
    (h.checks t ht j now job).imp_right fun ⟨hj, rest⟩ => ⟨sub hj, rest⟩⟩

theorem spawn (e : Engine) {job : Job} (other : ∀ j now, job ≠ .goal j now) :
    Looks l e (e.spawn job) := by
  refine ⟨rfl, fun t ht j now hjob => ?_⟩
  rcases List.mem_append.mp ht with ht | ht
  · exact .inl ht
  · obtain rfl := List.mem_singleton.mp ht
    exact (other j now hjob).elim

end Looks

theorem looks_checkGoal (e : Engine) (hj : j ∈ l) : Looks l e (e.checkGoal j) := by
  unfold checkGoal
  split
  · rename_i unmet
    rw [Bool.and_eq_true] at unmet
    refine ⟨rfl, fun t ht i now job => ?_⟩
    rcases List.mem_append.mp ht with ht | ht
    · exact .inl ht
    · obtain rfl := List.mem_singleton.mp ht
      obtain ⟨rfl, rfl⟩ := Job.goal.inj job
      exact .inr ⟨hj, by simpa using unmet.2, rfl⟩
  · exact .refl e

theorem looks_finish (e : Engine) (j : Journey) (reason : ExitReason) :
    Looks l e (e.finish j reason) := by
  have same : (e.finish j reason).now = e.now ∧ (e.finish j reason).tasks = e.tasks := by
    unfold finish
    rw [abandon_eq]
    dsimp only
    split <;> exact ⟨rfl, rfl⟩
  exact .of_tasks same.1 same.2

theorem looks_drive (e : Engine) (id : JourneyId) (reason : ResumeReason) :
    Looks l e (e.drive id reason) := by
  unfold drive
  split
  · exact .of_tasks rfl rfl
  · split
    · split
      · exact .refl e
      · unfold driveAt
        split
        · split
          · exact looks_finish ..
          · exact .refl e
        · split
          · exact looks_finish ..
          · exact .of_tasks rfl rfl
    · exact .refl e

theorem looks_dropTask (e : Engine) (task : Nat) : Looks l e (e.dropTask task) :=
  ⟨rfl, fun _ ht _ _ _ => .inl (List.mem_filter.mp ht).1⟩

theorem abides_looks (l : List Journey) : Abides l (Looks l) where
  trans := .trans
  touch touches := .of_tasks touches.now_eq touches.tasks_eq
  dropTask := looks_dropTask
  spawn e _ other := .spawn e other
  checkGoal e _ hj := looks_checkGoal e hj
  drive := looks_drive

theorem looks_saving {next : Engine → Engine} (h : ∀ e, Looks l e (next e)) (e : Engine)
    (j : Journey) : Looks l e (e.saving j next) := by
  unfold saving
  split
  · rename_i store _
    exact Looks.after (d := { e with store := store }) rfl rfl (h _)
  · rename_i store _ _
    exact Looks.after (d := { e with store := store }) rfl rfl (looks_finish ..)

theorem looks_advance (e : Engine) (j : Journey) (next : String) (kind : Analytics.Kind) :
    Looks l e (e.advance j next kind) := by
  unfold advance
  dsimp only
  refine Looks.after (d := { e with
    steps := e.steps.insert j.id ((e.steps.get? j.id).getD 0 + 1) }) rfl rfl ?_
  split
  · exact looks_finish ..
  · split
    · exact .refl _
    · refine looks_saving (fun e => ?_) _ _
      exact Looks.after (d := e.report kind _ j.node (some next)) rfl rfl (looks_drive ..)

theorem looks_park (e : Engine) (j : Journey) (deadline : Option Instant) :
    Looks l e (e.park j deadline) := by
  unfold park
  dsimp only
  refine Looks.after (d := { e with steps := e.steps.erase j.id }) rfl rfl ?_
  split
  · exact .refl _
  · rename_i parked _
    split
    · exact ((abides_looks l).setTimer ..).trans ((abides_looks l).drivePending ..)
    · refine looks_saving (fun e => ?_) _ _
      exact Looks.after (d := e.report .parked parked parked.node none) rfl rfl
        (((abides_looks l).setTimer ..).trans ((abides_looks l).drivePending ..))

theorem looks_apply (e : Engine) (j : Journey) (result : StepResult) :
    Looks l e (e.apply j result) := by
  unfold apply
  split
  · exact looks_advance ..
  · exact looks_advance ..
  · exact looks_finish ..
  · exact looks_park ..
  · exact looks_finish ..

theorem looks_onStep (e : Engine) (task : Nat) (id : JourneyId) (node : String)
    (result : StepResult) : Looks l e (e.onStep task id node result) := by
  unfold onStep
  split
  · exact .refl e
  · split
    · exact .refl e
    · dsimp only
      refine Looks.after (d := { e with flights := e.flights.filter (·.journey.id ≠ id) })
        rfl rfl ?_
      split
      · exact .refl _
      · split
        · exact .refl _
        · split
          · exact (looks_apply ..).trans ((abides_looks l).retryPresentations ..)
          · exact looks_apply ..

/-! ## Handling -/

theorem looks_onGoal (e : Engine) (id : JourneyId) (metAt : Option Instant) :
    Looks l e (e.onGoal id metAt) := by
  rcases e.onGoal_cases id metAt with he | ⟨t, j, k, -, -, -, -, he⟩
  · rw [he]
    exact .refl e
  · rw [he]
    refine Looks.after (d := e.report .goalMet k k.node none) rfl rfl ?_
    unfold convert
    split
    · exact looks_finish ..
    · exact looks_saving (fun e => .refl e) _ _

theorem looks_onProfile (e : Engine) (fetched : Except HostFault Profile) :
    Looks l e (e.onProfile fetched).1 := by
  unfold onProfile
  split
  · exact .refl e
  · rename_i profile
    refine Looks.after (d := e.install profile) rfl rfl ((abides_looks l).foldl (fun e j _ => ?_) _)
    split
    · exact .refl e
    · exact looks_finish ..

/-- The journey that starts is checked, if it does. -/
theorem looks_enter (e : Engine) (campaign : Campaign) (user : String) (origin : Option Origin)
    (h : ∀ a ∈ e.admission campaign user origin, a.journey ∈ l) :
    Looks l e (e.enter campaign user origin).1 := by
  unfold admission at h
  unfold enter
  split
  · exact .of_tasks rfl rfl
  · rename_i admitted
    rw [admitted] at h
    have hj : e.newcomer campaign user origin ∈ l := h _ (List.mem_singleton_self _)
    dsimp only
    split
    · rename_i store fault _
      dsimp only [giveUp]
      exact Looks.after (d := { e with issued := e.issued + 1, store := store })
        rfl rfl (looks_finish ..)
    · rename_i store _
      have given : Looks l e { e with issued := e.issued + 1, store := store } := .of_tasks rfl rfl
      have entered : Looks l e (e.entered store (e.newcomer campaign user origin)) :=
        (given.trans (looks_checkGoal _ hj)).trans (.of_tasks rfl rfl)
      exact entered.trans (looks_drive ..)

theorem looks_along (event : HostEvent) (rest : List (Campaign × Option Envelope)) (e : Engine)
    (h : ∀ a ∈ e.admissionsAlong event rest, a.journey ∈ l) :
    Looks l e (rest.foldl (fun e (campaign, condition) =>
      match condition with
      | some condition =>
        e.checkTrigger campaign.id condition event.occurrence.distinctId
          event.occurrence.properties (some event.origin)
      | none => (e.enter campaign event.occurrence.distinctId (some event.origin)).1) e) := by
  induction rest generalizing e with
  | nil => exact .refl e
  | cons c rest ih =>
    obtain ⟨campaign, condition⟩ := c
    cases condition with
    | some condition => exact (Looks.spawn e (by simp)).trans (ih _ h)
    | none =>
      have first := looks_enter e campaign event.occurrence.distinctId (some event.origin)
        fun a ha => h a (List.mem_append_left _ ha)
      exact first.trans (ih _ fun a ha => h a (List.mem_append_right _ ha))

/-- The journeys in the mirror and those that are admitted on a message. -/
def concerned (e : Engine) (m : Message) : List Journey :=
  e.store.active ++ (e.admissions m).map (·.journey)

theorem looks_handle (e : Engine) (hm : m ≠ .command .boot) :
    Looks (e.concerned m) e (e.handle m) := by
  have here : e.store.active ⊆ e.concerned m := List.subset_append_left _ _
  have admitted : ∀ a ∈ e.admissions m, a.journey ∈ e.concerned m := fun a ha =>
    List.mem_append_right _ (List.mem_map_of_mem ha)
  match m with
  | .command .boot => exact (hm rfl).elim
  | .command (.start campaign user origin) =>
    suffices hs : Looks _ e (e.onStart campaign user origin).1 from hs.trans (.of_tasks rfl rfl)
    rcases hv : campaign.validate with _ | _
    · simp only [onStart, hv]
      exact .refl e
    · simp only [admissions, hv] at admitted
      simp only [onStart, hv]
      exact Looks.after (d := { e with campaigns := e.campaigns.insert campaign.id campaign })
        rfl rfl (looks_enter _ campaign user origin admitted)
  | .command (.event event) =>
    exact ((abides_looks _).recheck _ _ here).trans (looks_along event _ _ admitted)
  | .report (.profile task fetched requested) =>
    have installed : Looks (e.concerned (.report (.profile task fetched requested))) e
        ((e.dropTask task).onProfile fetched).1 := (looks_dropTask e task).trans (looks_onProfile ..)
    unfold handle onReport
    dsimp only
    split
    · exact installed.trans (.of_tasks rfl rfl)
    · exact installed
  | .report (.step task id node result) => exact looks_onStep e task id node result
  | .report (.goal task id metAt) => exact (looks_dropTask e task).trans (looks_onGoal ..)
  | .report (.trigger task campaign user origin holds) =>
    refine (looks_dropTask e task).trans ?_
    unfold handle onReport
    dsimp only
    rcases hc : (e.dropTask task).campaigns.get? campaign with _ | c
    · simp only [onTrigger, hc]
      exact .refl _
    · cases holds
      · simp only [onTrigger, hc, Bool.false_eq_true, if_false]
        exact .refl _
      · simp only [admissions, hc, if_true] at admitted
        simp only [onTrigger, hc, if_true]
        exact looks_enter _ c user origin admitted
  | .command .segmentsChanged | .command .refreshProfile | .command (.contentInvalidated _)
  | .command .resumeDue | .command (.lifecycle _) | .report (.grace _) | .report (.timer ..) =>
    exact (abides_looks _).handle here rfl

theorem looks_boot {snapshot : Snapshot} (h : e.store.backend.load.2 = .ok snapshot) :
    Looks e.greeted.store.active e.greeted (e.handle (.command .boot)) :=
  (abides_looks _).boot h (List.Subset.refl _)

/-! ## Whose checks they are -/

section

variable {origin : Engine} {snapshot : Snapshot} {n : Nat}

theorem idsUpTo_sublist_of_le (le : origin.issued ≤ e.issued) (ids : e.ids = origin.ids) :
    (e.idsUpTo n).Sublist (origin.idsUpTo n) := by
  unfold idsUpTo
  rw [ids]
  apply List.Sublist.map _
  by_cases h : e.issued ≤ n
  · have split : List.range' origin.issued (n - origin.issued) =
        List.range' origin.issued (e.issued - origin.issued) ++
          List.range' e.issued (n - e.issued) := by
      have start : e.issued = origin.issued + (e.issued - origin.issued) := by omega
      have length : n - origin.issued = e.issued - origin.issued + (n - e.issued) := by omega
      rw [length, ← List.range'_append_1, ← start]
    rw [split]
    exact List.sublist_append_right _ _
  · have none : n - e.issued = 0 := by omega
    rw [none]
    exact List.nil_sublist _

theorem admitted_ids (sound : e.Sound) (hm : m ≠ .command .boot) :
    (e.admissions m).map (·.journey.id) = e.idsUpTo (e.handle m).issued := by
  obtain ⟨issued, ids⟩ := (traces_handle sound hm).ids_eq
  rw [takeIn_issued] at issued ids
  rw [ids, takeIn_ids, idsUpTo, issued, Nat.add_sub_cancel_left]

/-- No two journeys that are admitted on a message have one id. -/
theorem Known.admitted_distinct (known : Known origin snapshot e) (sound : e.Sound)
    (hm : m ≠ .command .boot) (fresh : origin.FreshIds snapshot (e.handle m).issued) :
    ((e.admissions m).map (·.journey.id)).Nodup := by
  rw [admitted_ids sound hm]
  exact fresh.distinct.sublist (idsUpTo_sublist_of_le known.issued_le known.ids_eq)

/-- The ids of journeys that are checked are known. -/
theorem Known.concerned_within (known : Known origin snapshot e) (sound : e.Sound)
    (hm : m ≠ .command .boot) (hj : j ∈ e.concerned m) :
    j.id ∈ snapshot.ids ++ origin.idsUpTo (e.handle m).issued := by
  rcases List.mem_append.mp hj with hj | hj
  · have le : e.issued ≤ (e.handle m).issued :=
      takeIn_issued e m ▸ (changes_handle sound hm).issued_le
    exact mem_known_of_le le (known.within.active j hj)
  · obtain ⟨a, ha, rfl⟩ := List.mem_map.mp hj
    have given : a.journey.id ∈ e.idsUpTo (e.handle m).issued :=
      admitted_ids sound hm ▸ List.mem_map_of_mem ha
    exact List.mem_append_right _ ((idsUpTo_sublist_of_le known.issued_le known.ids_eq).subset given)

/-- A journey that is checked when a message is handled goes on as the same one, if the handling
leaves it in the mirror. -/
theorem Known.concerned_continues (known : Known origin snapshot e) (sound : e.Sound)
    (hm : m ≠ .command .boot) (fresh : origin.FreshIds snapshot (e.handle m).issued)
    (hj : j ∈ e.concerned m) (hk : k ∈ (e.handle m).store.active) (hid : k.id = j.id) :
    j.Continues k := by
  have new : ∀ a ∈ e.admissions m, ∀ i ∈ e.store.active, a.journey.id ≠ i.id :=
    fun a ha i hi same => known.admitted_new sound hm fresh ha (same ▸ known.within.active i hi)
  rcases latches_handle sound hm hk with ⟨i, hi, latches⟩ | ⟨a, ha, latches⟩
  · rcases List.mem_append.mp hj with hj | hj
    · obtain rfl := sound.distinct.eq_of_id hi hj (latches.id.symm.trans hid)
      exact latches.toContinues
    · obtain ⟨a, ha, rfl⟩ := List.mem_map.mp hj
      exact (new a ha i hi (hid.symm.trans latches.id)).elim
  · rcases List.mem_append.mp hj with hj | hj
    · exact (new a ha j hj (latches.id.symm.trans hid)).elim
    · obtain ⟨b, hb, rfl⟩ := List.mem_map.mp hj
      obtain rfl := List.inj_on_of_nodup_map (known.admitted_distinct sound hm fresh) ha hb
        (latches.id.symm.trans hid)
      exact latches.toContinues

end

end Engine

end Engagement
