import Engagement.Proofs.Engine.Change
import Engagement.Proofs.Store.Tally
import Engagement.Proofs.Time.Spans

/-! # The gate

Who may enter a campaign is decided on what the mirror and the ledger hold of the user.
-/

namespace Engagement

namespace Engine

variable {e e' : Engine} {campaign : Campaign} {user : String} {j : Journey} {seconds : Nat}
  {records : List Completion} {now : Instant}

/-- What a user found who may enter a campaign. -/
structure Admits (e : Engine) (campaign : Campaign) (user : String) : Prop where
  room : e.store.under (Store.ofUser user) < e.settings.maxActive
  alone : campaign.reentry ≠ .concurrent → e.store.under (Store.ofPair campaign.id user) = 0
  first : campaign.reentry = .once → e.store.past (Store.ofPair campaign.id user) = 0
  rested : ∀ seconds, campaign.reentry = .cooldown seconds →
    cooldownOver seconds (e.store.ledgerFor user campaign.id) e.now = true

theorem admits_of_refusal?_eq_none (h : e.refusal? campaign user = none) :
    e.Admits campaign user := by
  have outside : (e.store.activeFor user).any (·.campaignId = campaign.id) = false →
      e.store.under (Store.ofPair campaign.id user) = 0 := by
    intro hn
    rw [Store.under_ofPair, List.length_eq_zero_iff, List.filter_eq_nil_iff]
    simpa using hn
  unfold refusal? at h
  dsimp only at h
  split at h
  · cases h
  split at h
  · cases h
  rename_i hroom
  have room : e.store.under (Store.ofUser user) < e.settings.maxActive := by
    rw [Store.under_ofUser]
    omega
  split at h
  case h_1 hp => exact ⟨room, by simp [hp], by simp [hp], by simp [hp]⟩
  all_goals
    rename_i hp
    split at h
    · cases h
    rename_i hinside
    have alone := outside (by simpa using hinside)
  · exact ⟨room, fun _ => alone, by simp [hp], by simp [hp]⟩
  · split at h
    · rename_i hrecords
      refine ⟨room, fun _ => alone, fun _ => ?_, by simp [hp]⟩
      rw [Store.past_ofPair, List.length_eq_zero_iff]
      simpa using hrecords
    · cases h
  · split at h
    · rename_i hover
      refine ⟨room, fun _ => alone, by simp [hp], ?_⟩
      intro seconds hs
      rw [hp, Reentry.cooldown.injEq] at hs
      exact hs ▸ hover
    · cases h

/-- A cooldown that is over is over for each of the records but those whose second was extended by
the leap second in which another one lies. -/
theorem rested_of_cooldownOver (h : cooldownOver seconds records now = true) {r : Completion}
    (hr : r ∈ records) (plain : ∀ later ∈ records, ¬ later.completedAt.Overruns r.completedAt) :
    ∃ t, Span.after? r.completedAt seconds = some t ∧ t ≤ now := by
  unfold cooldownOver at h
  split at h
  · rename_i hm
    rw [List.max?_eq_none_iff, List.map_eq_nil_iff] at hm
    simp [hm] at hr
  · rename_i last hm
    have hle : r.completedAt ≤ last :=
      (List.max?_le_iff hm).mp (Std.le_refl last) _ (List.mem_map_of_mem hr)
    have hlast : ∃ later ∈ records, later.completedAt = last :=
      List.mem_map.mp (List.max?_mem hm)
    obtain ⟨later, hl, rfl⟩ := hlast
    rcases hu : Span.after? later.completedAt seconds with _ | u
    · simp [hu] at h
    · obtain ⟨t, ht, hw⟩ := Span.after?_mono hle (plain later hl) hu
      have hn : u ≤ now := by simpa [hu] using h
      exact ⟨t, ht, Std.le_trans hw hn⟩

/-- A journey that starts was admitted to an installed campaign. -/
theorem Start.admits (h : Start e j e') : ∃ key campaign, (key, campaign) ∈ e.campaigns ∧
    j.campaignId = campaign.id ∧ j.startedAt = e.now ∧ e.Admits campaign j.distinctId := by
  cases h with
  | enter known admitted new =>
    rw [new]
    exact ⟨_, _, known, rfl, rfl, admits_of_refusal?_eq_none admitted⟩
  | fail known admitted new =>
    rw [new]
    exact ⟨_, _, known, rfl, rfl, admits_of_refusal?_eq_none admitted⟩

/-! ## Counting along changes -/

variable {p : String → String → Bool}

/-- Without a start the chosen journeys become no more, and none is lost. -/
theorem Quiet.tally (sound : e.Sound) (h : Quiet e e') :
    e'.store.under p ≤ e.store.under p ∧
      e'.store.under p + e'.store.past p = e.store.under p + e.store.past p := by
  rcases h.store_cases with he | ⟨j, k, hj, continues, ⟨-, puts⟩ | ⟨reason, completes⟩⟩
  · rw [he]
    exact ⟨Nat.le_refl _, rfl⟩
  · rw [puts.under_eq sound.distinct hj continues, puts.past_eq]
    exact ⟨Nat.le_refl _, rfl⟩
  · have hu := completes.under_eq (p := p) sound.distinct hj continues
    have hp := completes.past_eq (p := p)
    omega

theorem Start.tally (new : ∀ k ∈ e.store.active, k.id ≠ e.ids e.issued) (h : Start e j e') :
    e'.store.under p ≤ e.store.under p + (j.fits p).toNat ∧
      e'.store.under p + e'.store.past p =
        e.store.under p + e.store.past p + (j.fits p).toNat := by
  rw [← h.id_eq] at new
  obtain ⟨-, puts | ⟨reason, completes⟩⟩ := h.store_cases
  · have hu := puts.under_new (p := p) new
    have hp := puts.past_eq (p := p)
    omega
  · have hu := completes.under_new (p := p) new
    have hp := completes.past_eq (p := p)
    omega

end Engine

end Engagement
