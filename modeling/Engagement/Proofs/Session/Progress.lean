import Mathlib.Data.List.Induction
import Engagement.Proofs.Engine.Attention
import Engagement.Proofs.Session.Wakes

/-! # No active journey is idle

An engine that comes up with a profile executes every journey that does not wait: between two
messages each of them has one step under way. So when no work is outstanding, all journeys wait.
-/

namespace Engagement

namespace Engine

variable {e e' : Engine} {snapshot : Snapshot} {profile : Profile} {id : JourneyId} {m : Message}

theorem Drift.isFlying_eq (d : Drift e e') (id : JourneyId) : e'.isFlying id = e.isFlying id := by
  have planned : ∀ e : Engine, e.isFlying id = true ↔
      id ∈ (e.flights.map Flight.plan).map (·.journey.id) := by
    intro e
    rw [isFlying_iff, List.map_map, List.mem_map]
    rfl
  rw [Bool.eq_iff_iff, planned, planned, d.flights]

namespace Orderly

variable {f : Flight} {j : Journey}

theorem countP_eq_one (orderly : e.Orderly) (flying : e.isFlying id = true) :
    e.flights.countP (·.journey.id = id) = 1 := by
  obtain ⟨f, hf, rfl⟩ := isFlying_iff.mp flying
  have one := List.count_eq_one_of_mem orderly.single (List.mem_map_of_mem hf)
  rw [List.count, List.countP_map] at one
  rw [← one]
  exact List.countP_congr (by simp)

/-- The step of a journey stands where the journey does. -/
theorem standsAt (orderly : e.Orderly) (sound : e.Sound) (hf : f ∈ e.flights)
    (hj : j ∈ e.store.active) (hid : f.journey.id = j.id) : f.StandsAt j := by
  obtain ⟨k, hk, at_k⟩ := orderly.anchored f hf
  exact sound.distinct.eq_of_id hk hj (at_k.id.symm.trans hid) ▸ at_k.standsAt

end Orderly

theorem Keyed.drift (keyed : e.Keyed) (d : Drift e e') : e'.Keyed := by
  unfold Keyed
  rw [d.campaigns]
  exact keyed

theorem Minded.drift (minded : e.Minded) (d : Drift e e') : e'.Minded :=
  fun id flying => (minded id (d.isFlying_eq id ▸ flying)).drift d

theorem Noted.drift (noted : e.Noted id) (d : Drift e e') : e'.Noted id :=
  fun hp => d.isFlying_eq id ▸ noted (d.pending ▸ hp)

namespace BootsFrom

theorem keyed_raise (boots : e.BootsFrom snapshot) : (Session.raise e).engine.Keyed := by
  rcases boots.campaigns_raise with none | ⟨profile, same⟩
  · simp [Keyed, none]
  · exact fun _ h => (admissible_install (same ▸ h)).1

theorem minded_raise (boots : e.BootsFrom snapshot) : (Session.raise e).engine.Minded := by
  refine Calms.minded boots.calms_raise (sound_greeted boots.held) fun id flying => ?_
  obtain ⟨campaigns, installed, hg⟩ := e.greeted_eq
  simp [hg, isFlying, flight?, boots.flights_eq] at flying

theorem noted_raise (boots : e.BootsFrom snapshot) (id : JourneyId) :
    (Session.raise e).engine.Noted id := by
  refine Calms.noted boots.calms_raise fun hp => ?_
  obtain ⟨campaigns, installed, hg⟩ := e.greeted_eq
  have none : e.pending = [] := (congrArg Engine.pending boots.down).symm
  simp [hg, none, Table.get?] at hp

end BootsFrom

end Engine

namespace Session

open Engine

variable {s : Session} {e : Engine} {snapshot : Snapshot} {profile : Profile}

theorem Up.first_ne {message : Message} {rest : List Message} (up : s.Up)
    (hm : s.mailbox = message :: rest) : message ≠ .command .boot :=
  fun he => up.once (by simp [hm, he])

/-- The engine always knows the campaigns of the journeys that have a step. -/
theorem mindful (boots : e.BootsFrom snapshot) (ms : List Move) :
    (after e ms).engine.Keyed ∧ (after e ms).engine.Minded := by
  induction ms using List.reverseRecOn with
  | nil => exact ⟨boots.keyed_raise, boots.minded_raise⟩
  | append_singleton ms m ih =>
    obtain ⟨keyed, minded⟩ := ih
    have up := boots.up ms
    rw [after_snoc]
    rcases up.move_cases m with d | ⟨message, rest, hm, changes, -, he, -⟩
    · exact ⟨keyed.drift d, minded.drift d⟩
    · rw [he]
      exact ⟨(keyed.takeIn message).changes changes,
        minded_handle up.sound keyed minded (up.first_ne hm)⟩

/-- The engine may be handed the message that has waited longest. -/
theorem hears (boots : e.BootsFrom snapshot) (ms : List Move)
    (fresh : e.FreshIds snapshot (after e ms).engine.issued) {message : Message}
    {rest : List Message} (hm : (after e ms).mailbox = message :: rest) :
    (after e ms).engine.Hears message where
  sound := (boots.up ms).sound
  orderly := (tracked boots ms fresh).orderly
  keyed := (mindful boots ms).1
  minded := (mindful boots ms).2
  not_boot := (boots.up ms).first_ne hm
  named task id node result he f hf ht :=
    (((tracked boots ms fresh).mail task id node result (by simp [hm, he])).2 f hf ht).2

/-- What holds when an engine has come up and is kept by every move holds after any moves. -/
theorem run_induction {I : List Move → Session → Prop} (boots : e.BootsFrom snapshot)
    (ms : List Move) (fresh : e.FreshIds snapshot (after e ms).engine.issued)
    (base : I [] (raise e))
    (drift : ∀ ms m, e.FreshIds snapshot (after e ms).engine.issued → I ms (after e ms) →
      m ≠ .deliver → I (ms ++ [m]) ((after e ms).move m))
    (pass : ∀ ms, (after e ms).mailbox = [] → I ms (after e ms) →
      I (ms ++ [.deliver]) (after e ms))
    (deliver : ∀ ms message rest, e.FreshIds snapshot (after e ms).engine.issued →
      e.FreshIds snapshot (after e ms).deliver.engine.issued → I ms (after e ms) →
      (after e ms).mailbox = message :: rest → (after e ms).engine.Hears message →
      I (ms ++ [.deliver]) (after e ms).deliver) :
    I ms (after e ms) := by
  induction ms using List.reverseRecOn with
  | nil => exact base
  | append_singleton ms m ih =>
    have prior := fresh.mono (boots.evolves_append ms [m]).issued_le
    rw [after_snoc] at fresh ⊢
    by_cases hd : m = .deliver
    · subst hd
      rcases hm : (after e ms).mailbox with _ | ⟨message, rest⟩
      · rw [move_deliver_of_empty hm]
        exact pass ms hm (ih prior)
      · exact deliver ms message rest prior fresh (ih prior) hm (hears boots ms prior hm)
    · exact drift ms m prior (ih prior) hd

theorem noted (boots : e.BootsFrom snapshot) (ms : List Move)
    (fresh : e.FreshIds snapshot (after e ms).engine.issued) (id : JourneyId) :
    (after e ms).engine.Noted id := by
  refine run_induction (I := fun _ s => s.engine.Noted id) boots ms fresh (boots.noted_raise id)
    (fun _ _ _ noted hm => noted.drift (move_drift _ hm)) (fun _ _ noted => noted) ?_
  intro _ message rest _ _ noted hm hears
  rw [deliver_engine hm]
  exact hears.noted noted

/-- When the engine has come up with a profile, it looks after all journeys at all times. -/
theorem attended (boots : e.BootsFrom snapshot) (fetched : e.host.fetchProfile = .ok profile)
    (ms : List Move) (fresh : e.FreshIds snapshot (after e ms).engine.issued) (id : JourneyId) :
    (after e ms).engine.Attended False id := by
  refine run_induction (I := fun _ s => s.engine.Attended False id) boots ms fresh
    (boots.attended_raise fetched id) ?_ (fun _ _ h => h) ?_
  · intro ms m _ attended hm k hk hid free
    have d := (after e ms).move_drift hm
    exact ⟨(attended k (d.active ▸ hk) hid (d.isFlying_eq id ▸ free)).paused, False.elim⟩
  · intro _ message rest _ _ attended hm hears
    rw [deliver_engine hm]
    exact attended.attends (hears.attends False.elim)

/-- Once the engine has come up with a profile, each active journey has one step under way, at the
node where it stands. When no work is outstanding, none is remembered either and all journeys
wait. -/
theorem active_journeys_have_step (boots : e.BootsFrom snapshot)
    (fetched : e.host.fetchProfile = .ok profile) (ms : List Move)
    (fresh : e.FreshIds snapshot (after e ms).engine.issued) :
    let engine := (after e ms).engine
    (∀ j ∈ engine.store.active, j.status = .active →
      engine.flights.countP (·.journey.id = j.id) = 1 ∧
        ∀ f ∈ engine.flights, f.journey.id = j.id → f.StandsAt j) ∧
    (engine.isIdle = true → engine.flights = [] ∧ engine.tasks = [] ∧ engine.pending = [] ∧
      ∀ j ∈ engine.store.active, j.status = .paused) := by
  intro engine
  have orderly : engine.Orderly := (tracked boots ms fresh).orderly
  have attended : ∀ id, engine.Attended False id := Session.attended boots fetched ms fresh
  constructor
  · intro j hj active
    have flying : engine.isFlying j.id = true := by
      by_contra free
      have paused := (attended j.id j hj rfl (by simpa using free)).paused
      simp [active] at paused
    exact ⟨orderly.countP_eq_one flying,
      fun f hf hid => orderly.standsAt (boots.up ms).sound hf hj hid⟩
  · intro idle
    obtain ⟨flights, tasks⟩ : engine.flights = [] ∧ engine.tasks = [] := by
      simpa [isIdle] using idle
    have free : ∀ id, engine.isFlying id = false := fun id => by simp [isFlying_eq_false, flights]
    refine ⟨flights, tasks, ?_, fun j hj => (attended j.id j hj rfl (free j.id)).paused⟩
    rcases hp : engine.pending with _ | ⟨⟨id, reason⟩, rest⟩
    · rfl
    · have flying := noted boots ms fresh id
        (Table.get?_isSome_of_mem _ (hp ▸ List.mem_cons_self ..))
      exact absurd flying (by simp [engine, free])

/-- A journey has its step while it pauses for the first time, and waits when all is done. -/
theorem pausing_has_step :
    let start := inMemory .empty .epoch
    ((after start taps).engine.store.active.map (·.status) = [.active] ∧
      ∀ j ∈ (after start taps).engine.store.active,
        (after start taps).engine.flights.countP (·.journey.id = j.id) = 1) ∧
    (after start (taps ++ .deliver :: looksAgain)).engine.isIdle = true ∧
      (after start (taps ++ .deliver :: looksAgain)).engine.pending = [] ∧
      ∀ j ∈ (after start (taps ++ .deliver :: looksAgain)).engine.store.active,
        j.status = .paused := by
  intro start
  have boots : start.BootsFrom .empty := bootsFrom_inMemory .empty .epoch
  have active : (after start taps).engine.store.active.map (·.status) = [.active] := by
    decide +kernel
  have first := (active_journeys_have_step boots rfl taps ⟨by decide +kernel, by decide +kernel⟩).1
  have idle : (after start (taps ++ .deliver :: looksAgain)).engine.isIdle = true := by
    decide +kernel
  obtain ⟨-, -, pending, paused⟩ := (active_journeys_have_step boots rfl
    (taps ++ .deliver :: looksAgain) ⟨by decide +kernel, by decide +kernel⟩).2 idle
  refine ⟨⟨active, fun j hj => (first j hj ?_).1⟩, idle, pending, paused⟩
  have hs : j.status ∈ (after start taps).engine.store.active.map (·.status) :=
    List.mem_map_of_mem hj
  simpa [active] using hs

end Session

end Engagement
