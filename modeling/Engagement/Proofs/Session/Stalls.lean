import Engagement.Proofs.Session.Withdrawals

/-! # Journeys left behind

An engine that comes up without a profile cannot execute the journeys that were stored as active.
A journey that is active without a step is one of these and has been left so ever since: the profile
that is fetched later ends it if its campaign is gone, but does not drive it.
-/

namespace Engagement

namespace Engine

variable {e e' : Engine} {k : Journey}

/-- The journey is active and has no step. -/
structure Stalled (e : Engine) (j : Journey) : Prop where
  under_way : j ∈ e.store.active
  active : j.status = .active
  free : e.isFlying j.id = false

/-- A journey that is stalled was so before, in the same stay at its node. -/
theorem Stalled.attends {timely : Prop} (stalled : e'.Stalled k) (h : Attends timely e e') :
    ∃ j, e.Stalled j ∧ j.Remains k := by
  rcases h k stalled.under_way stalled.free with ⟨j, hj, remains, free, -⟩ | tended
  · exact ⟨j, ⟨hj, remains.status.symm.trans stalled.active, free⟩, remains⟩
  · have paused := tended.paused
    simp [stalled.active] at paused

theorem Stalled.drift (stalled : e'.Stalled k) (d : Drift e e') : e.Stalled k :=
  ⟨d.active ▸ stalled.under_way, stalled.active, d.isFlying_eq k.id ▸ stalled.free⟩

end Engine

namespace Session

open Engine

variable {e : Engine} {snapshot : Snapshot} {k : Journey}

/-- A journey that is stalled was so before the last move. -/
theorem stalled_before (boots : e.BootsFrom snapshot) (ms : List Move) (m : Move)
    (fresh : e.FreshIds snapshot (after e (ms ++ [m])).engine.issued)
    (stalled : (after e (ms ++ [m])).engine.Stalled k) :
    ∃ j, (after e ms).engine.Stalled j ∧ j.Remains k := by
  have prior := fresh.mono (boots.evolves_append ms [m]).issued_le
  rw [after_snoc] at stalled
  rcases (boots.up ms).move_cases m with d | ⟨message, rest, hm, -, -, he, -⟩
  · exact ⟨k, stalled.drift d, .refl k⟩
  · rw [he] at stalled
    exact stalled.attends ((hears boots ms prior hm).attends False.elim)

/-- A journey that is stalled has been so at all times. -/
theorem stalled_earlier (boots : e.BootsFrom snapshot) (ms ms' : List Move)
    (fresh : e.FreshIds snapshot (after e (ms ++ ms')).engine.issued)
    (stalled : (after e (ms ++ ms')).engine.Stalled k) :
    ∃ j, (after e ms).engine.Stalled j ∧ j.Remains k := by
  induction ms' using List.reverseRecOn generalizing k with
  | nil => exact ⟨k, by simpa using stalled, .refl k⟩
  | append_singleton ms' m ih =>
    rw [← List.append_assoc] at fresh stalled
    obtain ⟨j, before, remains⟩ := stalled_before boots (ms ++ ms') m fresh stalled
    have hle := (boots.evolves_append (ms ++ ms') [m]).issued_le
    obtain ⟨i, hi, remains'⟩ := ih (fresh.mono hle) before
    exact ⟨i, hi, remains'.trans remains⟩

/-- Once a profile has come in, the campaign of each stalled journey is installed. -/
theorem supplied (boots : e.BootsFrom snapshot) (ms : List Move)
    (fresh : e.FreshIds snapshot (after e ms).engine.issued)
    (loaded : (after e ms).engine.profileLoaded = true)
    (stalled : (after e ms).engine.Stalled k) :
    ((after e ms).engine.campaigns.get? k.campaignId).isSome := by
  rw [← lacks_iff_isSome]
  intro lacks
  obtain ⟨none, i, hi, lacked, remains⟩ := lacking_earlier boots ms fresh stalled.under_way lacks
  obtain ⟨profile, fetched⟩ := (fetched_or_refreshed boots ms loaded).resolve_right none
  obtain ⟨j, -, -, ⟨paused, -⟩, remains'⟩ := boots.awaits_of_lacks fetched hi lacked
  have active := (remains'.trans remains).status.symm.trans stalled.active
  simp [paused] at active

/-- When no work is outstanding, every journey waits, or it was stored as active, came up without a
profile and has been left where it was ever since. In that case its campaign is installed if a
profile has come in. -/
theorem waits_or_left_behind (boots : e.BootsFrom snapshot) (ms : List Move)
    (fresh : e.FreshIds snapshot (after e ms).engine.issued)
    (idle : (after e ms).engine.isIdle = true) (hk : k ∈ (after e ms).engine.store.active) :
    k.status = .paused ∨ (k.status = .active ∧ (∃ fault, e.host.fetchProfile = .error fault) ∧
      (∃ j ∈ e.store.recovered.active, j.Remains k) ∧
      (∀ prior, prior <+: ms → ∃ j, (after e prior).engine.Stalled j ∧ j.Remains k) ∧
      ((after e ms).engine.profileLoaded = true →
        ((after e ms).engine.campaigns.get? k.campaignId).isSome)) := by
  by_cases paused : k.status = .paused
  · exact .inl paused
  · right
    have active : k.status = .active := by
      have alive := (boots.up ms).sound.alive k hk
      unfold Journey.isTerminal at alive
      cases hs : k.status <;> simp_all [Status.isTerminal]
    have stalled : (after e ms).engine.Stalled k := by
      refine ⟨hk, active, isFlying_eq_false.mpr ?_⟩
      simp [isIdle] at idle
      simp [idle.1]
    refine ⟨active, ?_, ?_, ?_, fun loaded => supplied boots ms fresh loaded stalled⟩
    · rcases fetched : e.host.fetchProfile with fault | profile
      · exact ⟨fault, rfl⟩
      · have attended := attended boots fetched ms fresh k.id
        exact (paused (attended k hk rfl stalled.free).paused).elim
    · obtain ⟨i, first, remains⟩ := stalled_earlier boots [] ms fresh stalled
      have attends : Attends False e.greeted (raise e).engine :=
        Calms.attends boots.calms_raise (sound_greeted boots.held) False.elim
      obtain ⟨j, loaded, remains'⟩ := first.attends attends
      obtain ⟨campaigns, installed, hg⟩ := e.greeted_eq
      refine ⟨j, ?_, remains'.trans remains⟩
      have here := loaded.under_way
      rwa [hg] at here
    · rintro prior ⟨later, rfl⟩
      exact stalled_earlier boots prior later fresh stalled

/-- A greeting was under way when the engine went down. -/
def greetingUnderWay : Holdings where
  journeys := [.start ⟨7⟩ (.greeting .once) "ann" none .epoch]
  ledger := []

/-- Coming up again the engine cannot get its profile. -/
def interrupted : Engine :=
  let profile : Profile := { Profile.empty with campaigns := [(Campaign.greeting .once).encode] }
  let host := (Host.new .epoch "ann" profile).setFault .profile (some (.unavailable "off"))
  .new .default host (.memory greetingUnderWay []) fun n => ⟨BitVec.ofNat 128 n⟩

/-- The profile is to be had again, and the host asks for it. -/
def refreshes : List Move :=
  [.host (interrupted.host.setFault .profile none), .send .refreshProfile, .deliver, .work 1,
    .deliver]

theorem bootsFrom_interrupted : interrupted.BootsFrom greetingUnderWay :=
  bootsFrom_new _ _ _ rfl

/-- The greeting is left behind though its campaign is installed again. -/
theorem greeting_left_behind :
    (after interrupted refreshes).engine.store.active.length = 1 ∧
      ∀ k ∈ (after interrupted refreshes).engine.store.active, k.status = .active ∧
        (∃ j ∈ interrupted.store.recovered.active, j.Remains k) ∧
        ((after interrupted refreshes).engine.campaigns.get? k.campaignId).isSome := by
  have idle : (after interrupted refreshes).engine.isIdle = true := by decide +kernel
  have loaded : (after interrupted refreshes).engine.profileLoaded = true := by decide +kernel
  have active : ∀ k ∈ (after interrupted refreshes).engine.store.active, k.status = .active := by
    decide +kernel
  refine ⟨by decide +kernel, fun k hk => ?_⟩
  rcases waits_or_left_behind bootsFrom_interrupted refreshes
    ⟨by decide +kernel, by decide +kernel⟩ idle hk with paused | ⟨-, -, stored, -, installed⟩
  · simp [active k hk] at paused
  · exact ⟨active k hk, stored, installed loaded⟩

/-- A profile that comes in later does not get every journey going. -/
theorem active_after_refresh :
    ¬ ∀ (e : Engine) (snapshot : Snapshot) (fault : HostFault) (ms : List Move),
      e.BootsFrom snapshot → e.host.fetchProfile = .error fault →
      e.FreshIds snapshot (after e ms).engine.issued →
      (after e ms).engine.profileLoaded = true → (after e ms).engine.isIdle = true →
      ∀ j ∈ (after e ms).engine.store.active, j.status ≠ .active := by
  intro h
  have idle := h interrupted _ (.unavailable "off") refreshes bootsFrom_interrupted rfl
    ⟨by decide +kernel, by decide +kernel⟩ (by decide +kernel) (by decide +kernel)
  exact absurd idle (by decide +kernel)

end Session

end Engagement
