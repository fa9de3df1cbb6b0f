import Engagement.Proofs.Engine.Attention
import Engagement.Proofs.Engine.Conversions
import Engagement.Proofs.Engine.Work

/-! # Whose goals are checked

The goal of a journey is checked when the journey comes in, on every event of its user and when the
engine comes up, as long as the journey has not converted. The check stays under way until it
reports.
-/

namespace Engagement

namespace Engine

variable {e e' e'' : Engine} {j : Journey} {id : JourneyId} {m : Message}

/-- A check of the journey's goal is under way and has not reported. -/
def IsChecking (e : Engine) (id : JourneyId) : Prop :=
  ∃ t ∈ e.tasks, t.reported = false ∧ ∃ j now, t.job = .goal j now ∧ j.id = id

theorem IsChecking.of_subset (h : e.IsChecking id) (sub : e.tasks ⊆ e'.tasks) :
    e'.IsChecking id := by
  obtain ⟨t, ht, rest⟩ := h
  exact ⟨t, sub ht, rest⟩

theorem IsChecking.works (h : e.IsChecking id) (works : Works e e') : e'.IsChecking id := by
  obtain ⟨fresh, -, -, tasks⟩ := works.tasks
  exact h.of_subset (tasks ▸ List.subset_append_left _ _)

theorem isChecking_checkGoal (e : Engine) (goal : j.goal.isSome = true)
    (unmet : j.convertedAt = none) : (e.checkGoal j).IsChecking j.id := by
  unfold checkGoal
  rw [if_pos (by simp [goal, unmet])]
  exact ⟨_, List.mem_append_right _ (List.mem_singleton_self _), rfl, j, e.now, rfl, rfl⟩

/-- Who is looked at in a round is checked at its end. -/
theorem isChecking_foldl {f : Engine → Journey → Engine} {l : List Journey}
    (works : ∀ e a, Works e (f e a)) (checks : ∀ e, (f e j).IsChecking j.id) (hj : j ∈ l)
    (e : Engine) : (l.foldl f e).IsChecking j.id := by
  obtain ⟨before, after, rfl⟩ := List.append_of_mem hj
  rw [List.foldl_append, List.foldl_cons]
  exact (checks _).works (.foldl works _ _)

theorem isChecking_recheck (reason : ResumeReason) (hj : j ∈ e.store.active)
    (goal : j.goal.isSome = true) (unmet : j.convertedAt = none) :
    (e.recheck j.distinctId reason).IsChecking j.id := by
  rw [recheck_eq]
  refine isChecking_foldl (fun e => works_look e reason) (fun e => ?_) (mem_activeFor.mpr ⟨hj, rfl⟩) e
  unfold look
  split
  · exact (isChecking_checkGoal e goal unmet).works (works_drive _ _ _)
  · exact isChecking_checkGoal e goal unmet

/-- On an event the goals of the user's journeys are checked. -/
theorem isChecking_onEvent {event : HostEvent} (hj : j ∈ e.store.active)
    (user : event.occurrence.distinctId = j.distinctId) (goal : j.goal.isSome = true)
    (unmet : j.convertedAt = none) : (e.onEvent event).IsChecking j.id := by
  unfold onEvent
  dsimp only
  rw [user]
  refine (isChecking_recheck _ hj goal unmet).works (.foldl (fun e (campaign, condition) => ?_) _ _)
  cases condition with
  | none => exact works_enter ..
  | some condition => exact works_spawn ..

/-! ## Journeys that come in -/

/-- The work goes on, and the goal of each journey that comes in is checked. -/
structure Receives (e e' : Engine) : Prop extends Works e e' where
  checked : ∀ k ∈ e'.store.active, k.goal.isSome = true →
    (∃ j ∈ e.store.active, j.id = k.id ∧ j.goal = k.goal) ∨ e'.IsChecking k.id

namespace Receives

/-- Nobody comes in. -/
theorem of_continues (works : Works e e')
    (old : ∀ k ∈ e'.store.active, ∃ j ∈ e.store.active, j.Continues k) : Receives e e' := by
  refine ⟨works, fun k hk _ => .inl ?_⟩
  obtain ⟨j, hj, continues⟩ := old k hk
  exact ⟨j, hj, continues.id.symm, continues.goal.symm⟩

theorem of_subset (works : Works e e') (active : e'.store.active ⊆ e.store.active) :
    Receives e e' := .of_continues works fun k hk => ⟨k, active hk, .refl k⟩

theorem of_quiets (works : Works e e') (quiets : Quiets e e') : Receives e e' :=
  .of_continues works fun _ hk => quiets.continues hk

theorem refl (e : Engine) : Receives e e := .of_subset (.refl e) (List.Subset.refl _)

theorem trans (h : Receives e e') (h' : Receives e' e'') : Receives e e'' := by
  refine ⟨h.toWorks.trans h'.toWorks, fun k hk goal => ?_⟩
  rcases h'.checked k hk goal with ⟨j, hj, id, same⟩ | checking
  · rcases h.checked j hj (same ▸ goal) with ⟨i, hi, id', same'⟩ | checking
    · exact .inl ⟨i, hi, id'.trans id, same'.trans same⟩
    · exact .inr (id ▸ checking.works h'.toWorks)
  · exact .inr checking

theorem foldl {α : Type} {f : Engine → α → Engine} (h : ∀ e a, Receives e (f e a))
    (l : List α) (e : Engine) : Receives e (l.foldl f e) :=
  List.foldlRecOn l f (.refl e) fun e' so_far a _ => so_far.trans (h e' a)

end Receives

theorem receives_enter (e : Engine) (campaign : Campaign) (user : String)
    (origin : Option Origin) : Receives e (e.enter campaign user origin).1 := by
  let j := e.newcomer campaign user origin
  unfold enter
  split
  · exact .of_subset (.of_eq rfl) (List.Subset.refl _)
  · dsimp only
    split
    · rename_i store fault refused
      let known : Engine := { e with issued := e.issued + 1, store := store }
      have finished : Works e (known.giveUp j fault) :=
        (works_finish known j (.errored fault.message)).beside rfl
      have completes : e.store.Completes (j.ended (.errored fault.message) known.now)
          (known.giveUp j fault).store := completes_finish rfl _ (.inr ⟨fault, refused⟩)
      exact .of_subset finished fun k hk => (mem_without.mp (completes.active ▸ hk)).1
    · rename_i store saved
      let known : Engine := { e with issued := e.issued + 1, store := store }
      have first : Receives e (e.entered store j) := by
        have checked : Works e (known.checkGoal j) := (works_checkGoal known j).beside rfl
        refine ⟨checked.trans (.of_eq rfl), fun k hk goal => ?_⟩
        have active : (e.entered store j).store.active = upsert j e.store.active := by
          rw [entered_eq]
          exact (Store.puts_of_save saved).active
        rcases mem_of_mem_upsert (active ▸ hk) with rfl | hk
        · exact .inr ((isChecking_checkGoal known goal rfl).works (.of_eq rfl))
        · exact .inl ⟨k, hk, rfl, rfl⟩
      exact first.trans (.of_quiets (works_drive ..) (calms_drive ..).quiets)

theorem receives_onStart (e : Engine) (campaign : Campaign) (user : String)
    (origin : Option Origin) : Receives e (e.onStart campaign user origin).1 := by
  unfold onStart
  split
  · exact .refl e
  · have known : Receives e { e with campaigns := e.campaigns.insert campaign.id campaign } :=
      .of_subset (.of_eq rfl) (List.Subset.refl _)
    exact known.trans (receives_enter ..)

theorem receives_onTrigger (e : Engine) (campaign user : String) (origin : Option Origin)
    (holds : Bool) : Receives e (e.onTrigger campaign user origin holds) := by
  unfold onTrigger
  split
  · split
    · exact receives_enter ..
    · exact .refl _
  · exact .refl _

theorem receives_onEvent (e : Engine) (event : HostEvent) : Receives e (e.onEvent event) := by
  have rechecked := Receives.of_quiets (works_recheck e event.occurrence.distinctId _)
    (quiets_recheck _ _ (.event event.occurrence.name))
  refine rechecked.trans (.foldl (fun e (campaign, condition) => ?_) _ _)
  cases condition with
  | none => exact receives_enter ..
  | some condition => exact .of_subset (works_spawn ..) (List.Subset.refl _)

theorem heed_active (e : Engine) (m : Message) : (e.heed m).store.active = e.store.active := by
  unfold heed
  split
  · rw [dropGrace_eq]
  · rfl
  · rw [becameActive_eq]
  · split <;> rfl
  all_goals rfl

/-- A journey that is there when a message has been handled was there before, or its goal is
checked. -/
theorem receives_handle (sound : e.Sound) (hm : m ≠ .command .boot) :
    Receives (e.heed m) (e.handle m) := by
  by_cases quiet : m.mayStart = false
  · refine .of_continues (works_handle e m) fun k hk => ?_
    rw [heed_active]
    have continues := (quiets_handle sound hm quiet).continues hk
    rwa [takeIn_store] at continues
  · match m with
    | .command (.start campaign user origin) =>
      exact (receives_onStart e campaign user origin).trans
        (.of_subset (.of_eq rfl) (List.Subset.refl _))
    | .command (.event event) => exact receives_onEvent e event
    | .report (.trigger task campaign user origin holds) =>
      exact receives_onTrigger (e.dropTask task) campaign user origin holds
    | .command .boot | .command .segmentsChanged | .command .refreshProfile
    | .command (.contentInvalidated _) | .command .resumeDue | .command (.lifecycle _)
    | .report (.profile ..) | .report (.grace _) | .report (.timer ..) | .report (.step ..)
    | .report (.goal ..) => exact (quiet rfl).elim

/-! ## Coming up -/

/-- When the engine comes up, the goals of the journeys it has recovered are checked. -/
theorem isChecking_raise {snapshot : Snapshot} (boots : e.BootsFrom snapshot)
    (hj : j ∈ (Session.raise e).engine.store.active) (goal : j.goal.isSome = true)
    (unmet : j.convertedAt = none) : (Session.raise e).engine.IsChecking j.id := by
  obtain ⟨i, hi, latches⟩ := Calms.carries boots.calms_raise j hj
  rw [List.map_nil, List.append_nil] at hi
  rw [boots.raise_eq, latches.id]
  refine IsChecking.works (isChecking_foldl works_checkGoal (fun e => ?_) hi _) (.of_eq rfl)
  exact isChecking_checkGoal e (latches.goal ▸ goal) (latches.unmet unmet)

end Engine

end Engagement
