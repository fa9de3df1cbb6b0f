import Engagement.Proofs.Engine.Work
import Engagement.Proofs.Engine.Wakes

/-! # Waiting for the screen

A journey that finds the screen taken parks at its content. When a presentation has come to its end,
and when a grace period has, each journey that is parked so is driven again.
-/

namespace Engagement

namespace Engine

variable {e e' : Engine} {j : Journey} {id : JourneyId} {n : Nat}
  {except : Option JourneyId}

/-! ## Driving what is parked -/

theorem Changes.atContent_eq (h : Changes e e') : e'.atContent j = e.atContent j := by
  unfold atContent node?
  rw [h.campaigns_eq]

theorem mem_of_mem_drive {reason : ResumeReason} (hj : j ∈ (e.drive id reason).store.active) :
    j ∈ e.store.active := by
  rcases e.drive_active id reason with h | h
  · exact h ▸ hj
  · exact (mem_without.mp (h ▸ hj)).1

/-- Where no journey starts, a journey that is roused stays so until it ends. -/
theorem Roused.quiets (roused : e.Roused n id) (h : Quiets e e') : e'.Gone id ∨ e'.Roused n id := by
  induction h with
  | refl => exact .inr roused
  | tail _ h ih =>
    rcases ih with gone | roused
    · refine .inl fun k hk hid => ?_
      obtain ⟨j, hj, continues⟩ := h.continues hk
      exact gone j hj (continues.id.symm.trans hid)
    · exact roused.change (.quiet h)

theorem quiets_retry (except : Option JourneyId) (e : Engine) (j : Journey) :
    Quiets e (retry except e j) := (calms_retry except e j).quiets

theorem mem_of_mem_retries (l : List Journey)
    (hj : j ∈ (l.foldl (retry except) e).store.active) : j ∈ e.store.active := by
  induction l generalizing e with
  | nil => exact hj
  | cons k l ih =>
    have hk := ih hj
    unfold retry at hk
    split at hk
    · exact mem_of_mem_drive hk
    · exact hk

/-- Once the screen is free, each journey that waited for it is roused. -/
theorem roused_of_retry (sound : e.Sound) (hn : n ≤ e.lastTask)
    (hj : j ∈ (e.retryPresentations except).store.active) (others : some j.id ≠ except)
    (paused : j.status = .paused) (content : e.atContent j = true) :
    (e.retryPresentations except).Roused n j.id := by
  have hm : j ∈ e.store.active := mem_of_mem_retries _ hj
  obtain ⟨before, after, hl⟩ := List.append_of_mem hm
  rw [retryPresentations_eq, hl, List.foldl_append, List.foldl_cons] at hj ⊢
  have first : Quiets e (before.foldl (retry except) e) :=
    Quiets.foldl (quiets_retry except) before e
  generalize before.foldl (retry except) e = e₁ at first hj ⊢
  have content₁ : e₁.atContent j = true := first.changes.atContent_eq.trans content
  have later : Quiets (retry except e₁ j) (after.foldl (retry except) (retry except e₁ j)) :=
    Quiets.foldl (quiets_retry except) after _
  have here : j ∈ (retry except e₁ j).store.active :=
    mem_of_mem_retries after hj
  have driven : (retry except e₁ j).Roused n j.id := by
    rw [retry, if_pos ⟨others, paused, content₁⟩] at here ⊢
    have resolved := (resolved_of_node? sound hm content).quiets first
    rcases roused_drive (sound.changes first.changes) resolved
      (Nat.le_trans hn first.changes.lastTask_le) .foreground with gone | roused
    · exact (gone j here rfl).elim
    · exact roused
  exact (driven.quiets later).resolve_left fun gone => gone j hj rfl

/-! ## Messages that free the screen -/

/-- Whether a report brings the presentation of a journey to its end while content may be shown. -/
def concludes (e : Engine) (task : Nat) (id : JourneyId) (node : String) (result : StepResult) :
    Bool :=
  (e.flight? id).any (·.task = task) && !result.isSuspend && e.canPresent &&
    (e.store.get? id).any fun j => j.node = node && e.atContent j

/-- Whether content may be shown once more after a message: a presentation, of the journey answered,
or a grace period has come to its end. -/
def frees? (e : Engine) : Message → Option (Option JourneyId)
  | .report (.step task id node result) =>
    if e.concludes task id node result then some (some id) else none
  | .report (.grace task) => if e.grace = some task ∧ e.foreground then some none else none
  | _ => none

theorem onStep_of_concludes (sound : e.Sound) {task : Nat} {node : String} {result : StepResult}
    (h : e.concludes task id node result = true) : ∃ e₁ : Engine, e₁.Sound ∧
      e.lastTask ≤ e₁.lastTask ∧
      e.onStep task id node result = e₁.retryPresentations (some id) := by
  simp only [concludes, Bool.and_eq_true] at h
  obtain ⟨⟨⟨taken, goes_on⟩, ready⟩, hj⟩ := h
  obtain ⟨j, hg⟩ : ∃ j, e.store.get? id = some j := by
    rw [← Option.isSome_iff_exists]
    exact Option.isSome_of_any hj
  obtain ⟨hn, content⟩ : j.node = node ∧ e.atContent j = true := by simpa [hg] using hj
  have hs := onStep_of_taken taken node result
  obtain ⟨hm, rfl⟩ := mem_of_get? hg
  have alive := sound.alive j hm
  let landed : Engine := { e with flights := e.flights.filter (·.journey.id ≠ j.id) }
  have free : landed.isFlying j.id = false := by simp [landed, isFlying_eq_false]
  have landed_sound : landed.Sound := ⟨sound.distinct, sound.alive⟩
  have applies := (quiets_apply (e := landed) hm alive free result).changes
  refine ⟨landed.apply j result, landed_sound.changes applies, applies.lastTask_le, ?_⟩
  have may_show : (landed.apply j result).canPresent = true :=
    (works_apply landed j result).canPresent_eq.trans ready
  dsimp only at hs
  rw [hg] at hs
  dsimp only at hs
  rw [if_neg (by simp [alive, hn]), if_pos] at hs
  · exact hs
  · simp only [Bool.and_eq_true]
    exact ⟨⟨goes_on, content⟩, may_show⟩

theorem onGrace_of_current (sound : e.Sound) {task : Nat} (current : e.grace = some task)
    (foreground : e.foreground = true) : ∃ e₁ : Engine, e₁.Sound ∧ e.lastTask ≤ e₁.lastTask ∧
      e.onGrace task = e₁.retryPresentations none := by
  have hg : (e.dropTask task).grace = some task := current
  have hf : (e.dropTask task).foreground = true := foreground
  refine ⟨{ e.dropTask task with grace := none, presentationReady := true },
    ⟨sound.distinct, sound.alive⟩, Nat.le_refl _, ?_⟩
  unfold onGrace
  dsimp only
  rw [if_pos hg, if_pos hf]

/-- The last thing done on a message that frees the screen is to drive those that wait for it. -/
theorem handle_of_frees? (sound : e.Sound) {m : Message} (frees : e.frees? m = some except) :
    ∃ e₁ : Engine, e₁.Sound ∧ e.lastTask ≤ e₁.lastTask ∧
      e.handle m = e₁.retryPresentations except := by
  match m with
  | .report (.step task id node result) =>
    obtain ⟨h, rfl⟩ : e.concludes task id node result = true ∧ some id = except := by
      simpa [frees?] using frees
    exact onStep_of_concludes sound h
  | .report (.grace task) =>
    obtain ⟨⟨current, foreground⟩, rfl⟩ :
        (e.grace = some task ∧ e.foreground = true) ∧ none = except := by
      simpa [frees?] using frees
    exact onGrace_of_current sound current foreground
  | .command _ | .report (.profile ..) | .report (.timer ..) | .report (.goal ..)
  | .report (.trigger ..) => cases frees

/-- When a message frees the screen, each journey that is parked at content is roused: a step that
is set off on the message drives it, or it is remembered. -/
theorem roused_of_frees? (sound : e.Sound) {m : Message} (frees : e.frees? m = some except)
    (hj : j ∈ (e.handle m).store.active) (others : some j.id ≠ except)
    (paused : j.status = .paused) (content : (e.handle m).atContent j = true) :
    (e.handle m).Roused e.lastTask j.id := by
  obtain ⟨e₁, sound₁, hn, he⟩ := handle_of_frees? sound frees
  rw [he] at hj content ⊢
  have quiets := quiets_retryPresentations e₁ except
  exact roused_of_retry sound₁ hn hj others paused (quiets.changes.atContent_eq.symm.trans content)

end Engine

end Engagement
