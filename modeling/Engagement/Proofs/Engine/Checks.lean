import Engagement.Proofs.Engine.Deeds

/-! # Checks of triggers

A trigger is checked when a message matches it, for a campaign that is installed then. Under an id
another campaign is installed only when a message brings it.
-/

namespace Engagement

/-- The message brings the campaign along. -/
def Message.Brings (campaign : Campaign) : Message → Prop
  | .command (.start c _ _) => c = campaign
  | .report (.profile _ (.ok profile) _) => campaign ∈ profile.parseCampaigns.1
  | _ => False

namespace Engine

variable {e e' : Engine} {j : Journey} {m : Message} {l : List Admission} {t : Task}
  {campaign : Campaign} {job : Job}

/-! ## Installed campaigns -/

theorem unique_foldl_insert (l : List Campaign) {table : Table String Campaign}
    (unique : table.Unique) : (l.foldl (fun table c => table.insert c.id c) table).Unique := by
  induction l generalizing table with
  | nil => exact unique
  | cons c l ih => exact ih (unique.insert c.id c)

theorem unique_install (profile : Profile) : (e.install profile).campaigns.Unique :=
  unique_foldl_insert _ List.nodup_nil

theorem unique_takeIn (unique : e.campaigns.Unique) (m : Message) :
    (e.takeIn m).campaigns.Unique := by
  unfold takeIn
  split
  · split
    · exact unique.insert _ _
    · exact unique
  · exact unique_install (e := e.dropTask _) _
  · split <;> exact unique
  · exact unique

/-- What is installed under an id was so before, or has come with the message. -/
theorem installed_or_brings {id : String} (h : (e.takeIn m).campaigns.get? id = some campaign) :
    e.campaigns.get? id = some campaign ∨ m.Brings campaign := by
  unfold takeIn at h
  split at h
  · rename_i c user origin
    split at h
    · by_cases hid : id = c.id
      · subst hid
        rw [Table.get?_insert_self] at h
        exact .inr (Option.some.inj h)
      · rw [Table.get?_insert_of_ne _ hid] at h
        exact .inl h
    · exact .inl h
  · obtain ⟨entry, hm, rfl⟩ := Option.map_eq_some_iff.mp h
    rcases mem_foldl_insert _ (List.mem_of_find?_eq_some hm) with hm | ⟨c, hc, rfl⟩
    · cases hm
    · exact .inr hc
  · split at h <;> exact .inl h
  · exact .inl h

/-! ## Setting off checks -/

/-- A message on which triggers are checked brings nothing with it. -/
theorem takeIn_of_checkOn? (asked : e'.checkOn? m campaign = some job) (e : Engine) :
    e.takeIn m = e := by
  unfold checkOn? at asked
  split at asked
  · rfl
  · rfl
  · cases asked

theorem Changes.checkOn?_eq (h : Changes e e') (m : Message) (campaign : Campaign) :
    e'.checkOn? m campaign = e.checkOn? m campaign := by
  rw [h.frame]
  rfl

theorem checkOn?_campaign {id user : String} {condition : Envelope} {properties : Json.Fields}
    {origin : Option Origin} {now : Instant} (asked : e.checkOn? m campaign =
      some (.trigger id condition user properties origin now)) : campaign.id = id := by
  unfold checkOn? at asked
  split at asked
  · split at asked
    · exact (Job.trigger.inj (Option.some.inj asked)).1
    · cases asked
  · obtain ⟨c, -, he⟩ := Option.map_eq_some_iff.mp asked
    exact (Job.trigger.inj he).1
  · cases asked

theorem Calm.tasks_cases (h : Calm e e') (ht : t ∈ e'.tasks) :
    t ∈ e.tasks ∨ t.job.checksTrigger = false := by
  cases h with
  | spawn plain =>
    rcases List.mem_append.mp ht with ht | ht
    · exact .inl ht
    · obtain rfl := List.mem_singleton.mp ht
      exact .inr plain
  | dropTask task => exact .inl (List.mem_filter.mp ht).1
  | setTimer => exact .inl (by rwa [setTimer_tasks] at ht)
  | park => exact .inl (by rwa [setTimer_tasks] at ht)
  | finish _ alive =>
    rw [finish_eq _ alive] at ht
    exact .inl ht
  | _ => exact .inl ht

theorem Calms.tasks_cases (h : Calms e e') (ht : t ∈ e'.tasks) :
    t ∈ e.tasks ∨ t.job.checksTrigger = false := by
  induction h with
  | refl => exact .inl ht
  | tail _ h ih => exact (h.tasks_cases ht).elim ih .inr

/-- On a message a trigger is checked only if it matches. -/
theorem Deed.tasks_cases (h : Deed m e l e') (ht : t ∈ e'.tasks) :
    t ∈ e.tasks ∨ t.job.checksTrigger = false ∨
      ∃ key campaign, (key, campaign) ∈ e.campaigns ∧ e.checkOn? m campaign = some t.job := by
  cases h with
  | calm h => exact (h.tasks_cases ht).imp_right .inl
  | @advance j next kind _ alive =>
    rcases e.advance_cases alive next kind with
      ⟨k, store, reason, -, alive', -, -, he⟩ | ⟨store, -, he⟩
    · rw [he, finish_eq _ alive'] at ht
      exact .inl ht
    · rw [he] at ht
      exact ((calms_drive _ _ _).tasks_cases ht).imp_right .inl
  | conclude _ alive =>
    rw [finish_eq _ alive] at ht
    exact .inl ht
  | enter known =>
    rcases enter_cases known with ⟨-, reason, he⟩ | ⟨-, start, store, fault, -, he⟩ |
      ⟨-, store, -, -, he⟩
    · rw [he] at ht
      exact .inl ht
    · rw [he, giveUp, finish_eq _ start.store_cases.1] at ht
      exact .inl ht
    · rw [he] at ht
      rcases (calms_drive _ _ _).tasks_cases ht with ht | plain
      · exact ((calms_checkGoal _ _).tasks_cases ht).imp_right .inl
      · exact .inr (.inl plain)
  | check known asked =>
    rcases List.mem_append.mp ht with ht | ht
    · exact .inl ht
    · obtain rfl := List.mem_singleton.mp ht
      exact .inr (.inr ⟨_, _, known, asked⟩)
  | _ => exact .inl ht

theorem Deeds.tasks_cases (h : Deeds m e l e') (ht : t ∈ e'.tasks) :
    t ∈ e.tasks ∨ t.job.checksTrigger = false ∨
      ∃ key campaign, (key, campaign) ∈ e.campaigns ∧ e.checkOn? m campaign = some t.job := by
  induction h with
  | refl => exact .inl ht
  | tail hs h ih =>
    rcases h.tasks_cases ht with ht | plain | ⟨key, campaign, known, asked⟩
    · exact ih ht
    · exact .inr (.inl plain)
    · rw [hs.changes.campaigns_eq] at known
      rw [hs.changes.checkOn?_eq] at asked
      exact .inr (.inr ⟨key, campaign, known, asked⟩)

theorem takeIn_tasks (e : Engine) (m : Message) : (e.takeIn m).tasks ⊆ e.tasks := by
  unfold takeIn
  split
  · split <;> exact List.Subset.refl _
  · exact List.filter_subset_self _
  · split <;> exact List.Subset.refl _
  · exact List.Subset.refl _

/-- When a message is handled, a trigger is checked only if it is that of an installed campaign and
the message matches it. -/
theorem tasks_handle (sound : e.Sound) (keyed : e.Keyed) (minded : e.Minded)
    (unique : e.campaigns.Unique) (hm : m ≠ .command .boot) (ht : t ∈ (e.handle m).tasks)
    (checks : t.job.checksTrigger = true) : t ∈ e.tasks ∨ ∃ campaign,
      e.campaigns.get? campaign.id = some campaign ∧ e.checkOn? m campaign = some t.job := by
  have deeds := deeds_handle sound (fun _ _ _ _ _ => minded) hm
  rcases deeds.tasks_cases ht with ht | plain | ⟨key, campaign, known, asked⟩
  · exact .inl (takeIn_tasks e m ht)
  · simp [checks] at plain
  · rw [takeIn_of_checkOn? asked e] at known asked
    obtain rfl : key = campaign.id := keyed _ known
    exact .inr ⟨campaign, unique.get?_eq known, asked⟩

/-! ## Starts -/

/-- A check lets a journey start only if its condition holds, in the campaign that is installed. -/
theorem admitted_on_trigger {task : Nat} {id user : String} {origin : Option Origin} {holds : Bool}
    {a : Admission} (h : a ∈ e.admissions (.report (.trigger task id user origin holds))) :
    holds = true ∧ ∃ present, e.campaigns.get? id = some present ∧
      a.journey = e.newcomer present user origin := by
  unfold admissions at h
  dsimp only at h
  split at h
  · rename_i present installed
    split at h
    · rename_i holds
      refine ⟨holds, present, installed, ?_⟩
      unfold admission at h
      split at h
      · rw [List.mem_singleton.mp h]
        rfl
      · cases h
    · cases h
  · cases h

end Engine

end Engagement
