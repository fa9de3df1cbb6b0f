import Engagement.Proofs.Engine.Attention

/-! # What is kept of journeys

Timers and counts of nodes are kept by the ids of journeys. A journey that leaves the mirror takes
its own along, so that none is kept of a journey that is not in it.
-/

namespace Engagement

namespace Engine

variable {e e' : Engine} {j k : Journey} {id : JourneyId} {m : Message} {l : List Admission}

/-- Timers that can be cancelled and counts of nodes gone through are of journeys in the mirror. -/
structure Tidy (e : Engine) : Prop where
  timers : ∀ t ∈ e.timers, t.held = true → ∃ j ∈ e.store.active, j.id = t.journey
  steps : ∀ id, (e.steps.get? id).isSome → ∃ j ∈ e.store.active, j.id = id

namespace Tidy

theorem of_active (tidy : e.Tidy) (active : e'.store.active = e.store.active)
    (timers : ∀ t ∈ e'.timers, t.held = true → t ∈ e.timers)
    (steps : ∀ id, (e'.steps.get? id).isSome → (e.steps.get? id).isSome) : e'.Tidy := by
  constructor
  · rw [active]
    exact fun t ht held => tidy.timers t (timers t ht held) held
  · rw [active]
    exact fun id hs => tidy.steps id (steps id hs)

/-- What is new may be of the journey that is put into the mirror. -/
theorem of_upsert (tidy : e.Tidy) (active : e'.store.active = upsert k e.store.active)
    (timers : ∀ t ∈ e'.timers, t.held = true → t.journey = k.id ∨ t ∈ e.timers)
    (steps : ∀ id, (e'.steps.get? id).isSome → id = k.id ∨ (e.steps.get? id).isSome) :
    e'.Tidy := by
  have stays : ∀ id, id = k.id ∨ (∃ j ∈ e.store.active, j.id = id) →
      ∃ j ∈ e'.store.active, j.id = id := by
    rw [active]
    rintro id (rfl | ⟨j, hj, rfl⟩)
    · exact ⟨k, mem_upsert_self k _, rfl⟩
    · exact id_mem_upsert hj
  constructor
  · exact fun t ht held => stays _ ((timers t ht held).imp_right (tidy.timers t · held))
  · exact fun id hs => stays _ ((steps id hs).imp_right (tidy.steps id))

/-- A journey that ends takes along what is kept of it. -/
theorem finish {reason : ExitReason} (tidy : e.Tidy) (alive : k.isTerminal = false)
    (timers : e'.timers = e.timers)
    (steps : ∀ id, (e'.steps.get? id).isSome → id = k.id ∨ (e.steps.get? id).isSome)
    (store_eq : e'.store = e.store ∨ ∃ fault, e.store.save k = (e'.store, .error fault)) :
    (e'.finish k reason).Tidy := by
  have active := (completes_finish alive reason store_eq).active
  have stays : ∀ id, id ≠ k.id → (∃ j ∈ e.store.active, j.id = id) →
      ∃ j ∈ (e'.finish k reason).store.active, j.id = id := by
    rw [active]
    rintro id hne ⟨j, hj, rfl⟩
    exact ⟨j, mem_without.mpr ⟨hj, hne⟩, rfl⟩
  rw [finish_eq _ alive] at stays ⊢
  constructor
  · intro t ht held
    obtain ⟨ht, hne⟩ := List.mem_filter.mp ht
    exact stays _ (by simpa [held] using hne) (tidy.timers t (timers ▸ ht) held)
  · intro id hs
    obtain ⟨hne, hs⟩ := Table.isSome_of_get?_erase _ hs
    exact stays _ hne (tidy.steps id ((steps id hs).resolve_left hne))

end Tidy

theorem mem_setTimer {t : Timer} (h : t ∈ (e.setTimer k).timers) :
    t.journey = k.id ∨ t ∈ e.timers := by
  unfold setTimer at h
  split at h
  · split at h
    · rcases List.mem_append.mp h with h | h
      · exact .inr (List.mem_filter.mp h).1
      · obtain rfl := List.mem_singleton.mp h
        exact .inl rfl
    · exact .inr h
  · exact .inr h

theorem tidy_setTimer (tidy : e.Tidy) (under_way : j ∈ e.store.active) (same : k.id = j.id) :
    (e.setTimer k).Tidy := by
  have hm : ∀ t ∈ (e.setTimer k).timers, t.journey = k.id ∨ t ∈ e.timers := fun _ => mem_setTimer
  obtain ⟨timers, he⟩ := e.setTimer_eq k
  rw [he] at hm ⊢
  refine ⟨fun t ht held => ?_, tidy.steps⟩
  rcases hm t ht with hid | ht
  · exact ⟨j, under_way, same.symm.trans hid.symm⟩
  · exact tidy.timers t ht held

theorem Calm.tidy (h : Calm e e') (tidy : e.Tidy) : e'.Tidy := by
  cases h with
  | forgetSteps =>
    exact tidy.of_active rfl (fun _ ht _ => ht) fun _ hs => (Table.isSome_of_get?_erase _ hs).2
  | releaseTimer id =>
    refine tidy.of_active rfl (fun t ht held => ?_) fun _ hs => hs
    obtain ⟨t', hm, rfl⟩ := List.mem_map.mp ht
    by_cases hid : t'.journey = id
    · simp [hid] at held
    · simpa [hid] using hm
  | setTimer under_way same => exact tidy_setTimer tidy under_way same
  | launch => exact tidy.of_active rfl (fun t ht _ => (List.mem_filter.mp ht).1) fun _ hs => hs
  | @park j deadline store under_way alive saved =>
    have put : ({ e with store := store }.report .parked (e.parkedUntil j deadline) j.node
        none).Tidy :=
      tidy.of_upsert (Store.puts_of_save saved).active (fun _ ht _ => .inr ht) fun _ hs => .inr hs
    refine tidy_setTimer put (j := e.parkedUntil j deadline) ?_ rfl
    exact (Store.puts_of_save saved).active ▸ mem_upsert_self _ _
  | finish _ alive _ store_eq => exact tidy.finish alive rfl (fun _ hs => .inr hs) store_eq
  | _ => exact tidy.of_active rfl (fun _ ht _ => ht) fun _ hs => hs

theorem Calms.tidy (h : Calms e e') (tidy : e.Tidy) : e'.Tidy := by
  induction h with
  | refl => exact tidy
  | tail _ h ih => exact h.tidy ih

theorem Deed.tidy (h : Deed m e l e') (tidy : e.Tidy) : e'.Tidy := by
  cases h with
  | calm h => exact h.tidy tidy
  | @advance j next kind _ alive =>
    rcases e.advance_cases alive next kind with
      ⟨k, store, reason, continues, alive', store_eq, -, he⟩ | ⟨store, saved, he⟩
    · rw [he]
      refine tidy.finish alive' rfl (fun id hs => ?_) store_eq
      exact continues.id ▸ Table.eq_or_isSome_of_get?_insert _ hs
    · rw [he]
      refine (calms_drive _ _ _).tidy (tidy.of_upsert (Store.puts_of_save saved).active ?_ ?_)
      · exact fun _ ht _ => .inr ht
      · exact fun id hs => Table.eq_or_isSome_of_get?_insert _ hs
  | conclude _ alive => exact tidy.finish alive rfl (fun _ hs => .inr hs) (.inl rfl)
  | @enter key user campaign origin known =>
    rcases enter_cases known with ⟨-, reason, he⟩ | ⟨-, start, store, fault, refused, he⟩ |
      ⟨-, store, saved, -, he⟩
    · rw [he]
      exact tidy.of_active rfl (fun _ ht _ => ht) fun _ hs => hs
    · rw [he]
      exact tidy.finish start.store_cases.1 rfl (fun _ hs => .inr hs) (.inr ⟨fault, refused⟩)
    · rw [he]
      refine (calms_drive _ _ _).tidy ?_
      rw [entered_eq]
      exact tidy.of_upsert (Store.puts_of_save saved).active (fun _ ht _ => .inr ht)
        fun _ hs => .inr hs
  | convert _ _ _ saved =>
    exact tidy.of_upsert (Store.puts_of_save saved).active (fun _ ht _ => .inr ht)
      fun _ hs => .inr hs
  | cancelTimers =>
    exact tidy.of_active rfl (fun t ht _ => (List.mem_filter.mp ht).1) fun _ hs => hs
  | _ => exact tidy.of_active rfl (fun _ ht _ => ht) fun _ hs => hs

theorem Deeds.tidy (h : Deeds m e l e') (tidy : e.Tidy) : e'.Tidy := by
  induction h with
  | refl => exact tidy
  | tail _ h ih => exact h.tidy ih

/-- Handling a message leaves nothing behind of a journey that leaves the mirror. -/
theorem Hears.tidy (hears : e.Hears m) (tidy : e.Tidy) : (e.handle m).Tidy := by
  obtain ⟨campaigns, loaded, flights, tasks, -, he⟩ := e.takeIn_eq m
  refine hears.deeds.tidy ?_
  rw [he]
  exact ⟨tidy.timers, tidy.steps⟩

theorem BootsFrom.tidy_raise {snapshot : Snapshot} (boots : e.BootsFrom snapshot) :
    (Session.raise e).engine.Tidy := by
  refine boots.calms_raise.tidy ?_
  obtain ⟨campaigns, loaded, hg⟩ := e.greeted_eq
  have timers : e.timers = [] := (congrArg Engine.timers boots.down).symm
  have steps : e.steps = [] := (congrArg Engine.steps boots.down).symm
  rw [hg]
  constructor <;> simp [timers, steps, Table.get?]

end Engine

end Engagement
