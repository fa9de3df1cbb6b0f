import Engagement.Proofs.Engine.Withdrawals
import Engagement.Proofs.Session.Progress

/-! # Withdrawn campaigns

Once a profile has come in, every journey is in a campaign that is installed, and whatever was under
way in a campaign that the profile lacks is on record as ended for that reason. There is one
exception: an engine that comes up with a profile lets journeys wait whose deadline is still to come,
and does not look whether their campaign is gone. Such a journey lies where it lay until it is driven
or another profile comes in.
-/

namespace Engagement

namespace Engine

variable {e e' : Engine} {k : Journey}

theorem Lacks.drift (lacks : e'.Lacks k) (d : Drift e e') : e.Lacks k := by
  rwa [Lacks, ← d.campaigns]

theorem Equipped.drift (equipped : e.Equipped) (d : Drift e e') : e'.Equipped := by
  intro f hf lacks
  obtain ⟨g, hg, -, same, -⟩ := d.exists_flight hf
  exact equipped g hg (same ▸ lacks.drift d)

end Engine

namespace Session

open Engine

variable {e : Engine} {snapshot : Snapshot} {profile : Profile} {j k : Journey}

/-- A profile comes in next. -/
def Brings (s : Session) (profile : Profile) : Prop :=
  s.mailbox.head?.bind Message.profile? = some profile

/-- A profile came in during the moves. -/
def Refreshed (e : Engine) (ms : List Move) : Prop :=
  ∃ prior profile, prior ++ [.deliver] <+: ms ∧ (after e prior).Brings profile

theorem Refreshed.mono {ms ms' : List Move} (h : Refreshed e ms) (hp : ms <+: ms') :
    Refreshed e ms' := by
  obtain ⟨prior, profile, within, brings⟩ := h
  exact ⟨prior, profile, within.trans hp, brings⟩

/-- A profile that is installed was fetched at the start or came in during the moves. -/
theorem fetched_or_refreshed (boots : e.BootsFrom snapshot) (ms : List Move)
    (loaded : (after e ms).engine.profileLoaded = true) :
    (∃ profile, e.host.fetchProfile = .ok profile) ∨ Refreshed e ms := by
  induction ms using List.reverseRecOn with
  | nil =>
    rcases fetched : e.host.fetchProfile with fault | profile
    · have unloaded : e.profileLoaded = false := (congrArg Engine.profileLoaded boots.down).symm
      have down : e.greeted.profileLoaded = false := by simpa [greeted, fetched] using unloaded
      have same : (after e []).engine.profileLoaded = e.greeted.profileLoaded :=
        (Calms.changes boots.calms_raise).profileLoaded_eq
      rw [same, down] at loaded
      cases loaded
    · exact .inl ⟨profile, rfl⟩
  | append_singleton ms m ih =>
    have earlier : (after e ms).engine.profileLoaded = true →
        (∃ profile, e.host.fetchProfile = .ok profile) ∨ Refreshed e (ms ++ [m]) := fun before =>
      (ih before).imp_right fun refreshed => refreshed.mono (List.prefix_append _ _)
    rw [after_snoc] at loaded
    rcases (boots.up ms).move_cases m with d | ⟨message, rest, hm, changes, rfl, he, -⟩
    · exact earlier (d.profileLoaded ▸ loaded)
    · rcases brought : message.profile? with _ | profile
      · rw [he, changes.profileLoaded_eq, (takeIn_keeps brought).1] at loaded
        exact earlier loaded
      · exact .inr ⟨ms, profile, List.prefix_refl _, by simp [Brings, hm, brought]⟩

theorem equipped (boots : e.BootsFrom snapshot) (ms : List Move)
    (fresh : e.FreshIds snapshot (after e ms).engine.issued) : (after e ms).engine.Equipped := by
  induction ms using List.reverseRecOn with
  | nil => exact boots.equipped_raise
  | append_singleton ms m ih =>
    have prior := fresh.mono (boots.evolves_append ms [m]).issued_le
    have orderly := (tracked boots (ms ++ [m]) fresh).orderly
    rw [after_snoc] at orderly ⊢
    rcases (boots.up ms).move_cases m with d | ⟨message, rest, hm, -, -, he, -⟩
    · exact (ih prior).drift d
    · rw [he] at orderly ⊢
      exact (ih prior).handle (hears boots ms prior hm) orderly

/-- A journey that lacks its campaign lacked it before the last move, and lay where it lies; with
that move no profile came in. -/
theorem lacking_before (boots : e.BootsFrom snapshot) (ms : List Move) (m : Move)
    (fresh : e.FreshIds snapshot (after e (ms ++ [m])).engine.issued)
    (hk : k ∈ (after e (ms ++ [m])).engine.store.active)
    (lacks : (after e (ms ++ [m])).engine.Lacks k) :
    (m = .deliver → ∀ profile, ¬ (after e ms).Brings profile) ∧
      ∃ j ∈ (after e ms).engine.store.active, (after e ms).engine.Lacks j ∧ j.Remains k := by
  have prior := fresh.mono (boots.evolves_append ms [m]).issued_le
  rw [after_snoc] at hk lacks
  by_cases hd : m = .deliver
  · subst hd
    rcases hm : (after e ms).mailbox with _ | ⟨message, rest⟩
    · rw [move_deliver_of_empty hm] at hk lacks
      exact ⟨fun _ profile => by simp [Brings, hm], k, hk, lacks, .refl k⟩
    · rw [move, deliver_engine hm] at hk lacks
      obtain ⟨brought, before⟩ := lacks.before hk (hears boots ms prior hm) (equipped boots ms prior)
      exact ⟨fun _ profile => by simp [Brings, hm, brought], before⟩
  · have d := (after e ms).move_drift hd
    exact ⟨fun h => (hd h).elim, k, d.active ▸ hk, lacks.drift d, .refl k⟩

/-- A journey that lacks its campaign has lain where it lies since the engine came up, and no profile
has come in since. -/
theorem lacking_earlier (boots : e.BootsFrom snapshot) (ms : List Move)
    (fresh : e.FreshIds snapshot (after e ms).engine.issued)
    (hk : k ∈ (after e ms).engine.store.active) (lacks : (after e ms).engine.Lacks k) :
    ¬ Refreshed e ms ∧
      ∃ j ∈ (raise e).engine.store.active, (raise e).engine.Lacks j ∧ j.Remains k := by
  induction ms using List.reverseRecOn generalizing k with
  | nil =>
    refine ⟨?_, k, hk, lacks, .refl k⟩
    rintro ⟨prior, profile, hp, -⟩
    simp at hp
  | append_singleton ms m ih =>
    obtain ⟨quiet, j, hj, lacked, remains⟩ := lacking_before boots ms m fresh hk lacks
    obtain ⟨none, i, hi, lacked', remains'⟩ :=
      ih (fresh.mono (boots.evolves_append ms [m]).issued_le) hj lacked
    refine ⟨?_, i, hi, lacked', remains'.trans remains⟩
    rintro ⟨prior, profile, hp, brings⟩
    rcases List.prefix_concat_iff.mp hp with he | hp
    · obtain ⟨rfl, hm⟩ := List.append_inj' he rfl
      exact quiet (List.cons.inj hm).1.symm profile brings
    · exact none ⟨prior, profile, hp, brings⟩

/-- Whatever a profile that came in did not offer is on record as withdrawn. -/
theorem recorded_of_refreshed (boots : e.BootsFrom snapshot) (prior later : List Move)
    (brings : (after e prior).Brings profile) (hj : j ∈ (after e prior).engine.store.active)
    (absent : ¬ profile.Offers j.campaignId) :
    (after e prior).engine.withdrawal j ∈
      (after e (prior ++ .deliver :: later)).engine.store.ledger := by
  obtain ⟨message, waiting, brought⟩ := Option.bind_eq_some_iff.mp brings
  have recorded := (withdrawn_of_profile? (boots.up prior).sound brought hj absent).2
  rw [← after_deliver waiting] at recorded
  have grows := (boots.evolves_append (prior ++ [.deliver]) later).ledger_grows
  rw [List.append_assoc, List.singleton_append] at grows
  exact grows.subset recorded

/-- Once a profile has come in, at the start or later, the campaign of each journey in the mirror is
installed, and each journey whose campaign the profile lacks has ended for that reason when it came
in. Only a journey that was taken up at the start to wait for a deadline still to come may be in a
campaign that the first profile lacks; it lies where it lay then, without a step, and no profile has
come in since. -/
theorem withdrawn_journeys_end (boots : e.BootsFrom snapshot) (ms : List Move)
    (fresh : e.FreshIds snapshot (after e ms).engine.issued) :
    let engine := (after e ms).engine
    ((∃ profile, e.host.fetchProfile = .ok profile) ∨ Refreshed e ms →
      ∀ k ∈ engine.store.active, (engine.campaigns.get? k.campaignId).isSome ∨
        ¬ Refreshed e ms ∧ engine.isFlying k.id = false ∧
          ∃ profile, e.host.fetchProfile = .ok profile ∧ ∃ j ∈ e.store.recovered.active,
            ¬ profile.Offers j.campaignId ∧ j.Awaits e.now ∧ j.Remains k) ∧
    (∀ profile, e.host.fetchProfile = .ok profile → ∀ j ∈ e.store.recovered.active,
      ¬ profile.Offers j.campaignId → ¬ j.Awaits e.now → e.withdrawal j ∈ engine.store.ledger) ∧
    ∀ prior later profile, ms = prior ++ .deliver :: later → (after e prior).Brings profile →
      ∀ j ∈ (after e prior).engine.store.active, ¬ profile.Offers j.campaignId →
        (after e prior).engine.withdrawal j ∈ engine.store.ledger := by
  intro engine
  refine ⟨fun fetched k hk => ?_, fun profile fetched j hj absent hw => ?_, ?_⟩
  · by_cases lacks : engine.Lacks k
    · obtain ⟨none, i, hi, lacked, remains⟩ := lacking_earlier boots ms fresh hk lacks
      obtain ⟨profile, fetched⟩ := fetched.resolve_right none
      obtain ⟨j, hj, absent, waits, remains'⟩ := boots.awaits_of_lacks fetched hi lacked
      refine .inr ⟨none, ?_, profile, fetched, j, hj, absent, waits, remains'.trans remains⟩
      by_contra flying
      obtain ⟨f, hf, hid⟩ := isFlying_iff.mp (by simpa using flying)
      obtain ⟨l, hl, of_l⟩ := (tracked boots ms fresh).orderly.anchored f hf
      obtain rfl := (boots.up ms).sound.distinct.eq_of_id hl hk (of_l.id.symm.trans hid)
      refine equipped boots ms fresh f hf ?_
      rwa [Lacks, of_l.campaignId]
    · exact .inl (lacks_iff_isSome.mp lacks)
  · have grows := (boots.evolves_append [] ms).ledger_grows
    exact grows.subset (boots.withdrawn fetched hj absent hw).2
  · rintro prior later profile rfl brings j hj absent
    exact recorded_of_refreshed boots prior later brings hj absent

/-- A journey waits for a minute to pass, in a campaign that is not on offer any more. -/
def deserted : Engine :=
  inMemory {
    journeys := [{ Journey.start ⟨7⟩ .pausing "ann" none .epoch with
      status := .paused, resumeAt := Span.after? .epoch 60 }]
    ledger := [] } .epoch

/-- The host asks for the profile again. -/
def asksAgain : List Move := [.send .refreshProfile, .deliver, .work 1]

/-- The next profile ends what was let wait. -/
theorem deserted_until_refresh :
    (∃ j ∈ (after deserted asksAgain).engine.store.active,
      (after deserted asksAgain).engine.withdrawal j ∈
        (after deserted (asksAgain ++ [.deliver])).engine.store.ledger) ∧
    ∀ k ∈ (after deserted (asksAgain ++ [.deliver])).engine.store.active,
      ((after deserted (asksAgain ++ [.deliver])).engine.campaigns.get? k.campaignId).isSome := by
  have boots : deserted.BootsFrom _ := bootsFrom_inMemory _ _
  obtain ⟨installed, -, recorded⟩ := withdrawn_journeys_end boots (asksAgain ++ [.deliver])
    ⟨by decide +kernel, by decide +kernel⟩
  have brings : (after deserted asksAgain).Brings .empty := rfl
  have refreshed : Refreshed deserted (asksAgain ++ [.deliver]) :=
    ⟨asksAgain, .empty, List.prefix_refl _, brings⟩
  constructor
  · have held : 0 < (after deserted asksAgain).engine.store.active.length := by decide +kernel
    obtain ⟨j, hj⟩ := List.exists_mem_of_length_pos held
    refine ⟨j, hj, recorded asksAgain [] .empty rfl brings j hj ?_⟩
    rintro ⟨c, hc, -⟩
    cases hc
  · intro k hk
    exact (installed (.inr refreshed) k hk).resolve_right fun h => h.1 refreshed

/-- A profile that is there when the engine comes up does not take every journey out of the mirror
whose campaign it lacks. -/
theorem waits_without_campaign :
    ¬ ∀ (e : Engine) (snapshot : Snapshot) (ms : List Move), e.BootsFrom snapshot →
      e.FreshIds snapshot (after e ms).engine.issued →
      ((∃ profile, e.host.fetchProfile = .ok profile) ∨ Refreshed e ms) →
      (after e ms).engine.isIdle = true → ∀ k ∈ (after e ms).engine.store.active,
        ((after e ms).engine.campaigns.get? k.campaignId).isSome := by
  intro h
  have installed := h deserted _ [] (bootsFrom_inMemory _ _) ⟨by decide +kernel, by decide +kernel⟩
    (.inl ⟨_, rfl⟩) (by decide +kernel)
  exact absurd installed (by decide +kernel)

end Session

end Engagement
