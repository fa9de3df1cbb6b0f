import Engagement.Proofs.Engine.Deeds
import Engagement.Proofs.Time.Spans

/-! # Conversions

A journey is converted at the earliest of the times at which it was found to be. What else happens
to it keeps its conversion, and what was fixed when it started.
-/

namespace Engagement

namespace Instant

variable {l l' : List Instant}

theorem min?_toList_append (l l' : List Instant) :
    (l.min?.toList ++ l').min? = (l ++ l').min? := by
  cases l with
  | nil => rfl
  | cons t l =>
    change (List.min? (l.foldl min t :: l')) = (List.min? (t :: (l ++ l')))
    rw [List.min?_cons', List.min?_cons', List.foldl_append]

theorem min?_eq_of_perm (h : l.Perm l') : l.min? = l'.min? := by
  ext t
  simp [List.min?_eq_some_iff, h.mem_iff]

end Instant

namespace Journey

variable {i j k : Journey} {t : Instant} {outcomes later : List Instant}

/-- `k` is the journey `j` at a later point, converted at the earliest of the times found since then
and the one known before. -/
structure Latches (outcomes : List Instant) (j k : Journey) : Prop extends j.Continues k where
  earliest : k.convertedAt = (j.convertedAt.toList ++ outcomes).min?

theorem Continues.latches (h : j.Continues k) (same : k.convertedAt = j.convertedAt) :
    j.Latches [] k where
  toContinues := h
  earliest := by
    rw [same]
    cases j.convertedAt <;> rfl

theorem Latches.refl (j : Journey) : j.Latches [] j := (Continues.refl j).latches rfl

theorem Latches.trans (h : i.Latches outcomes j) (h' : j.Latches later k) :
    i.Latches (outcomes ++ later) k where
  toContinues := h.toContinues.trans h'.toContinues
  earliest := by
    rw [h'.earliest, h.earliest, Instant.min?_toList_append, List.append_assoc]

/-- A journey that has not converted had not converted before. -/
theorem Latches.unmet (h : j.Latches outcomes k) (unmet : k.convertedAt = none) :
    j.convertedAt = none := by
  have least := h.earliest.symm.trans unmet
  simpa using (List.append_eq_nil_iff.mp (List.min?_eq_none_iff.mp least)).1

/-- A journey has converted at the time known before, or at one that was found since. -/
theorem Latches.before_or_found (h : j.Latches outcomes k) (met : k.convertedAt = some t) :
    j.convertedAt = some t ∨ t ∈ outcomes := by
  have least := List.min?_mem (h.earliest.symm.trans met)
  rwa [List.mem_append, Option.mem_toList] at least

theorem latches_of_recorded (h : j.recordConversion t = (k, true)) :
    j.Latches [t] k := by
  obtain rfl := of_recordConversion h
  refine ⟨⟨rfl, rfl, rfl, rfl, rfl, rfl, rfl, rfl, rfl, rfl⟩, ?_⟩
  unfold recordConversion at h
  rcases hc : j.convertedAt with _ | known
  · rfl
  · rw [hc] at h
    have later : ¬ known ≤ t := fun hle => by simp [hle] at h
    simp [Instant.min_eq, later]

theorem latches_of_unrecorded (h : (j.recordConversion t).2 = false) :
    j.Latches [t] j := by
  refine ⟨.refl j, ?_⟩
  unfold recordConversion at h
  rcases hc : j.convertedAt with _ | known
  · simp [hc] at h
  · rw [hc] at h
    have earlier : known ≤ t := by
      by_contra hle
      simp [hle] at h
    simp [Instant.min_eq, earlier]

end Journey

namespace Engine

variable {e e' e'' : Engine} {j k : Journey} {m : Message} {l l' : List Admission}

/-! ## Without an outcome -/

/-- Every journey was in the mirror or has been admitted, and has the conversion that it had. -/
def Carries (l : List Admission) (e e' : Engine) : Prop :=
  ∀ k ∈ e'.store.active, ∃ j ∈ e.store.active ++ l.map (·.journey), j.Latches [] k

namespace Carries

theorem of_subset (h : ∀ k ∈ e'.store.active, k ∈ e.store.active) : Carries l e e' :=
  fun k hk => ⟨k, List.mem_append_left _ (h k hk), .refl k⟩

theorem of_upsert (active : e'.store.active = upsert k e.store.active)
    (from_one : ∃ j ∈ e.store.active ++ l.map (·.journey), j.Latches [] k) : Carries l e e' := by
  intro i hi
  rcases mem_of_mem_upsert (active ▸ hi) with rfl | hi
  · exact from_one
  · exact ⟨i, List.mem_append_left _ hi, .refl i⟩

theorem trans (h : Carries l e e') (h' : Carries l' e' e'') : Carries (l ++ l') e e'' := by
  intro k hk
  rw [List.map_append]
  obtain ⟨j, hj, latches⟩ := h' k hk
  rcases List.mem_append.mp hj with hj | hj
  · obtain ⟨i, hi, first⟩ := h j hj
    exact ⟨i, by rw [← List.append_assoc]; exact List.mem_append_left _ hi, first.trans latches⟩
  · exact ⟨j, by simp [List.mem_map.mp hj], latches⟩

end Carries

theorem carries_finish {store : Store} (alive : k.isTerminal = false)
    (store_eq : store = e.store ∨ ∃ fault, e.store.save k = (store, .error fault))
    (he : e'.store = store) (reason : ExitReason) : Carries l e (e'.finish k reason) := by
  have hc := completes_finish alive reason (he ▸ store_eq)
  exact .of_subset fun i hi => (mem_without.mp (hc.active ▸ hi)).1

theorem Calm.carries (h : Calm e e') : Carries [] e e' := by
  cases h with
  | setTimer => exact .of_subset fun i hi => by rwa [setTimer_store] at hi
  | @park j deadline store under_way alive saved =>
    have parks : Amends e.now j (e.parkedUntil j deadline) := .park j deadline
    refine .of_upsert (k := e.parkedUntil j deadline) ?_ ⟨j, by simpa using under_way,
      parks.continues.latches rfl⟩
    rw [setTimer_store]
    exact (Store.puts_of_save saved).active
  | finish under_way alive continues store_eq => exact carries_finish alive store_eq rfl _
  | _ => exact .of_subset fun _ hi => hi

theorem Calms.carries (h : Calms e e') : Carries [] e e' := by
  induction h with
  | refl => exact .of_subset fun _ hi => hi
  | tail _ h ih => exact ih.trans h.carries

theorem carries_advance (under_way : j ∈ e.store.active) (alive : j.isTerminal = false)
    (next : String) (kind : Analytics.Kind) : Carries [] e (e.advance j next kind) := by
  rcases e.advance_cases alive next kind with
    ⟨k, store, reason, -, alive', store_eq, -, he⟩ | ⟨store, saved, he⟩
  · rw [he]
    exact carries_finish alive' store_eq rfl _
  · rw [he]
    have moved : Carries [] e (e.moved store j next kind) :=
      .of_upsert (Store.puts_of_save saved).active ⟨j, by simpa using under_way,
        Journey.Continues.latches ⟨rfl, rfl, rfl, rfl, rfl, rfl, rfl, rfl, rfl, rfl⟩ rfl⟩
    exact moved.trans (Calms.carries (calms_drive _ _ _))

theorem Deed.carries (h : Deed m e l e') (quiet : ∀ id, m.metAt? id = none) :
    Carries l e e' := by
  cases h with
  | calm h => exact h.carries
  | advance under_way alive => exact carries_advance under_way alive _ _
  | conclude _ alive => exact carries_finish alive (.inl rfl) rfl _
  | @enter key user campaign origin known =>
    rcases enter_cases known with ⟨none, reason, he⟩ | ⟨one, start, store, fault, refused, he⟩ |
      ⟨one, store, saved, start, he⟩
    · rw [none, he]
      exact .of_subset fun _ hi => hi
    · rw [he]
      exact carries_finish start.store_cases.1 (.inr ⟨fault, refused⟩) rfl _
    · rw [one, he]
      have first : Carries [⟨e.newcomer campaign user origin, e.store⟩] e
          (e.entered store (e.newcomer campaign user origin)) := by
        refine .of_upsert (k := e.newcomer campaign user origin) ?_ ⟨_, by simp, .refl _⟩
        rw [entered_eq]
        exact (Store.puts_of_save saved).active
      exact first.trans (Calms.carries (calms_drive _ _ _))
  | convert under_way alive found => simp [quiet] at found
  | _ => exact .of_subset fun _ hi => hi

theorem Deeds.carries (h : Deeds m e l e') (quiet : ∀ id, m.metAt? id = none) :
    Carries l e e' := by
  induction h with
  | refl => exact .of_subset fun _ hi => hi
  | tail _ h ih => exact ih.trans (h.carries quiet)

theorem carries_apply (under_way : j ∈ e.store.active) (alive : j.isTerminal = false)
    (free : e.isFlying j.id = false) (result : StepResult) : Carries [] e (e.apply j result) := by
  match result with
  | .proceed next => exact carries_advance under_way alive _ _
  | .skip (some next) => exact carries_advance under_way alive _ _
  | .skip none => exact carries_finish alive (.inl rfl) rfl _
  | .suspend deadline => exact Calms.carries (calms_park under_way alive free deadline)
  | .complete reason => exact carries_finish alive (.inl rfl) rfl reason

/-- A step that lands loses no conversion that was found while it ran. -/
theorem carries_onStep (sound : e.Sound) (task : Nat) (id : JourneyId) (node : String)
    (result : StepResult) : Carries [] e (e.onStep task id node result) := by
  by_cases taken : (e.flight? id).any (·.task = task) = true
  · rw [onStep_of_taken taken]
    split
    · exact .of_subset fun _ hi => hi
    · rename_i j hj
      obtain ⟨hm, rfl⟩ := mem_of_get? hj
      split
      · exact .of_subset fun _ hi => hi
      · let landed : Engine := { e with flights := e.flights.filter (·.journey.id ≠ j.id) }
        have applied : Carries [] landed (landed.apply j result) :=
          carries_apply (e := landed) hm (sound.alive j hm)
            (by simp [landed, isFlying_eq_false]) result
        split
        · exact applied.trans (Calms.carries (calms_retryPresentations _ _))
        · exact applied
  · rw [onStep_of_stale (by simpa using taken)]
    exact .of_subset fun _ hi => hi

/-- A message that reports no conversion leaves the conversions as they are. -/
theorem carries_handle (sound : e.Sound) (hm : m ≠ .command .boot)
    (quiet : ∀ id, m.metAt? id = none) : Carries (e.admissions m) e (e.handle m) := by
  by_cases step : ∃ task id node result, m = .report (.step task id node result)
  · obtain ⟨task, id, node, result, rfl⟩ := step
    exact carries_onStep sound task id node result
  · have deeds := deeds_handle sound (fun _ _ _ _ h => (step ⟨_, _, _, _, h⟩).elim) hm
    intro k hk
    obtain ⟨j, hj, latches⟩ := deeds.carries quiet k hk
    exact ⟨j, by simpa using hj, latches⟩

/-! ## With an outcome -/

/-- A conversion that was announced ends its journey or is saved with it. -/
theorem convert_cases (alive : k.isTerminal = false) :
    e.store.Puts { k with updatedAt := e.now } (e.convert k).store ∨
      ∃ ended : Journey, ended.id = k.id ∧ e.store.Completes ended (e.convert k).store := by
  unfold convert
  split
  · exact .inr ⟨k.ended .goalMet e.now, rfl, completes_finish alive .goalMet (.inl rfl)⟩
  · unfold saving
    split
    · rename_i store saved
      exact .inl (Store.puts_of_save saved)
    · rename_i store fault refused
      have completes := completes_finish (e := { e with store := store })
        (j := { k with updatedAt := e.now }) alive (.errored fault.message) (.inr ⟨fault, refused⟩)
      exact .inr ⟨Journey.ended { k with updatedAt := e.now } _ e.now, rfl, completes⟩

/-- A conversion that is found is latched by its journey, and by no other. -/
theorem latches_onGoal (sound : e.Sound) (task : Nat) (id : JourneyId) (t : Instant)
    (hk : k ∈ (e.onGoal id (some t)).store.active) : ∃ j ∈ e.store.active,
      j.Latches ((Message.metAt? j.id (.report (.goal task id (some t)))).toList) k := by
  have other : ∀ i ∈ e.store.active, i.id ≠ id → ∃ j ∈ e.store.active,
      j.Latches ((Message.metAt? j.id (.report (.goal task id (some t)))).toList) i := by
    intro i hi hne
    have untold : Message.metAt? i.id (.report (.goal task id (some t))) = none :=
      if_neg fun h => hne h.symm
    exact ⟨i, hi, by rw [untold]; exact .refl i⟩
  rcases hj : e.store.get? id with _ | j
  · have same : e.onGoal id (some t) = e := by simp [onGoal, hj]
    rw [same] at hk
    refine other k hk ?_
    rintro rfl
    simp [sound.get?_eq hk] at hj
  · obtain ⟨hm, rfl⟩ := mem_of_get? hj
    have told : Message.metAt? j.id (.report (.goal task j.id (some t))) = some t := if_pos rfl
    have alive := sound.alive j hm
    rcases hr : j.recordConversion t with ⟨converted, _ | _⟩
    · have same : e.onGoal j.id (some t) = e := by simp [onGoal, hj, hr]
      rw [same] at hk
      by_cases hid : k.id = j.id
      · obtain rfl := sound.distinct.eq_of_id hk hm hid
        exact ⟨k, hm, by rw [told]; exact Journey.latches_of_unrecorded (congrArg Prod.snd hr)⟩
      · exact other k hk hid
    · have latches := Journey.latches_of_recorded hr
      have alive' : converted.isTerminal = false := by
        rw [Journey.of_recordConversion hr]
        exact alive
      rw [onGoal_of_recorded hj alive hr] at hk
      rcases convert_cases (e := e.report .goalMet converted converted.node none) alive' with
        puts | ⟨ended, hid, completes⟩
      · rcases (mem_upsert_iff sound.distinct).mp (puts.active ▸ hk) with rfl | ⟨hk, hne⟩
        · refine ⟨j, hm, ?_⟩
          rw [told]
          exact ⟨⟨latches.id, latches.campaignId, latches.campaignVersion, latches.distinctId,
            latches.goal, latches.exitPolicy, latches.anchorAt, latches.context,
            latches.originEvent, latches.startedAt⟩, latches.earliest⟩
        · exact other k hk fun h => hne (h.trans latches.id.symm)
      · obtain ⟨hk, hne⟩ := mem_without.mp (completes.active ▸ hk)
        exact other k hk fun h => hne (h.trans (hid.trans latches.id).symm)

/-- When a message is handled, each journey latches what the message has found about it. A journey
that starts has been admitted. -/
theorem latches_handle (sound : e.Sound) (hm : m ≠ .command .boot)
    (hk : k ∈ (e.handle m).store.active) :
    (∃ j ∈ e.store.active, j.Latches (m.metAt? j.id).toList k) ∨
      ∃ a ∈ e.admissions m, a.journey.Latches [] k := by
  by_cases found : ∃ id, (m.metAt? id).isSome
  · obtain ⟨id, found⟩ := found
    obtain ⟨t, found⟩ := Option.isSome_iff_exists.mp found
    obtain ⟨task, rfl⟩ := Message.metAt?_eq_some.mp found
    exact .inl (latches_onGoal (e := e.dropTask task) ⟨sound.distinct, sound.alive⟩ task id t hk)
  · have quiet : ∀ id, m.metAt? id = none := by simpa using found
    obtain ⟨j, hj, latches⟩ := carries_handle sound hm quiet k hk
    rcases List.mem_append.mp hj with hj | hj
    · exact .inl ⟨j, hj, by rw [quiet]; exact latches⟩
    · obtain ⟨a, ha, rfl⟩ := List.mem_map.mp hj
      exact .inr ⟨a, ha, latches⟩

/-- A journey that has converted had done so before, or the message reports it. -/
theorem converted_handle {t : Instant} (sound : e.Sound) (hm : m ≠ .command .boot)
    (hk : k ∈ (e.handle m).store.active) (met : k.convertedAt = some t) :
    ∃ j ∈ e.store.active, j.Continues k ∧
      (j.convertedAt = some t ∨ ∃ task, m = .report (.goal task j.id (some t))) := by
  rcases latches_handle sound hm hk with ⟨j, hj, latches⟩ | ⟨a, ha, latches⟩
  · refine ⟨j, hj, latches.toContinues, (latches.before_or_found met).imp_right fun found => ?_⟩
    exact Message.metAt?_eq_some.mp (Option.mem_toList.mp found)
  · obtain ⟨e₁, e₂, -, start, -, -⟩ := (traces_handle sound hm).exists_start ha
    rcases latches.before_or_found met with before | found
    · rw [start.convertedAt_eq] at before
      cases before
    · cases found

end Engine

end Engagement
