import Mathlib.Data.List.Infix
import Engagement.Proofs.Engine.GoalChecks
import Engagement.Proofs.Session.Checks
import Engagement.Proofs.Session.GoalReports

/-! # When journeys convert

A check of a goal is of a journey whose goal and window never change, and what it finds is reported
after further messages. Every conversion lies before the end of its journey's window, and that of an
event goal not before the beginning. A goal of another kind converts its journey at the time of a
check, be that before the window begins.
-/

namespace Engagement

open Engine

namespace Session

variable {e : Engine} {snapshot : Snapshot} {ms : List Move} {k : Journey} {t : Instant} {s : Session}

/-- At some point of a run the clock showed the time. -/
def Shown (e : Engine) (ms : List Move) (t : Instant) : Prop :=
  ∃ prior, prior <+: ms ∧ (after e prior).engine.now = t

theorem Shown.mono {ms' : List Move} (h : Shown e ms t) (hp : ms <+: ms') : Shown e ms' t := by
  obtain ⟨prior, within, now⟩ := h
  exact ⟨prior, within.trans hp, now⟩

/-- A time at which a check may have found the journey's goal to be met. -/
def MayConvert (e : Engine) (ms : List Move) (k : Journey) (t : Instant) : Prop :=
  ∃ goal, k.goal = some goal ∧ goal.Admits k.anchorAt t ∧ (goal.kind ≠ .event → Shown e ms t)

theorem MayConvert.mono {ms' : List Move} (h : MayConvert e ms k t) (hp : ms <+: ms') :
    MayConvert e ms' k t := by
  obtain ⟨goal, goal_eq, admits, shown⟩ := h
  exact ⟨goal, goal_eq, admits, fun other => (shown other).mono hp⟩

theorem MayConvert.of_goal {i : Journey} (h : MayConvert e ms i t) (goal : k.goal = i.goal)
    (anchor : k.anchorAt = i.anchorAt) : MayConvert e ms k t := by
  unfold MayConvert
  rw [goal, anchor]
  exact h

/-- What is under way to find conversions, what waits to report them and what has been found: checks
are of known journeys, as they were when they came in. -/
structure Dated (e : Engine) (snapshot : Snapshot) (ms : List Move) (s : Session) : Prop where
  checks : ∀ task ∈ s.engine.tasks, ∀ j now, task.job = .goal j now →
    j.convertedAt = none ∧ Shown e ms now ∧ j.id ∈ snapshot.ids ++ e.idsUpTo s.engine.issued ∧
      ∀ k ∈ s.engine.store.active, k.id = j.id → j.Continues k
  mail : ∀ task id t, .report (.goal task id (some t)) ∈ s.mailbox →
    id ∈ snapshot.ids ++ e.idsUpTo s.engine.issued ∧
      ∀ k ∈ s.engine.store.active, k.id = id → MayConvert e ms k t
  found : ∀ k ∈ s.engine.store.active, ∀ t, k.convertedAt = some t →
    (∃ i ∈ snapshot.journeys, i.id = k.id ∧ i.convertedAt = some t) ∨ MayConvert e ms k t

theorem Dated.mono {ms' : List Move} (dated : Dated e snapshot ms s) (hp : ms <+: ms') :
    Dated e snapshot ms' s where
  checks task ht j now job := by
    obtain ⟨unmet, shown, rest⟩ := dated.checks task ht j now job
    exact ⟨unmet, shown.mono hp, rest⟩
  mail task id t hm := by
    obtain ⟨known, may⟩ := dated.mail task id t hm
    exact ⟨known, fun k hk hid => (may k hk hid).mono hp⟩
  found k hk t ht := (dated.found k hk t ht).imp_right fun may => may.mono hp

theorem dated_raise (boots : e.BootsFrom snapshot) : Dated e snapshot [] (raise e) := by
  have looks : Looks e.greeted.store.active e.greeted ((raise e).engine) := looks_boot boots.held
  obtain ⟨campaigns, loaded, hg⟩ := e.greeted_eq
  have sound : e.greeted.Sound := sound_greeted boots.held
  have restored : ∀ k ∈ (raise e).engine.store.active, ∃ i ∈ e.greeted.store.active,
      i.Latches [] k := by simpa [Carries] using boots.calms_raise.carries
  have held : ∀ i ∈ e.greeted.store.active, i ∈ snapshot.journeys := fun i hi =>
    (Store.mem_of_mem_recovered boots.held (by rwa [hg] at hi)).1
  constructor
  · intro task ht j now job
    rcases looks.checks task ht j now job with ht | ⟨hj, unmet, rfl⟩
    · have none : e.tasks = [] := (congrArg Engine.tasks boots.down).symm
      simp [hg, none] at ht
    · refine ⟨unmet, ⟨[], List.prefix_refl _, looks.now_eq⟩, ?_, fun k hk hid => ?_⟩
      · exact List.mem_append_left _ (List.mem_append_left _ (List.mem_map_of_mem (held j hj)))
      · obtain ⟨i, hi, latches⟩ := restored k hk
        obtain rfl := sound.distinct.eq_of_id hi hj (latches.id.symm.trans hid)
        exact latches.toContinues
  · intro task id t hm
    cases hm
  · intro k hk t ht
    obtain ⟨i, hi, latches⟩ := restored k hk
    refine .inl ⟨i, held i hi, latches.id.symm, ?_⟩
    rw [← ht, latches.earliest]
    cases i.convertedAt <;> rfl

theorem outcome?_eq_goal {e : Engine} {check : Task} {task : Nat} {id : JourneyId}
    {r : Option Instant} (h : outcome? e check = some (.goal task id r)) :
    ∃ j now, check.job = .goal j now ∧ j.id = id ∧ j.goalMetAt e.host now = r := by
  unfold outcome? at h
  split at h
  · rename_i j now job
    obtain ⟨-, id, met⟩ := Report.goal.inj (Option.some.inj h)
    exact ⟨j, now, job, id, met⟩
  · cases h
  · cases h
  · split at h <;> cases h

/-- What a check finds for its journey is a time at which the journey may convert. -/
theorem Dated.outcome {task : Task} {n : Nat} {id : JourneyId} (dated : Dated e snapshot ms s)
    (ht : task ∈ s.engine.tasks) (found : outcome? s.engine task = some (.goal n id (some t))) :
    id ∈ snapshot.ids ++ e.idsUpTo s.engine.issued ∧
      ∀ k ∈ s.engine.store.active, k.id = id → MayConvert e ms k t := by
  obtain ⟨j, now, job, rfl, met⟩ := outcome?_eq_goal found
  obtain ⟨unmet, shown, known, continues⟩ := dated.checks task ht j now job
  refine ⟨known, fun k hk hid => ?_⟩
  have same := continues k hk hid
  unfold Journey.goalMetAt at met
  rw [unmet] at met
  obtain ⟨goal, goal_eq, met⟩ := Option.bind_eq_some_iff.mp met
  obtain ⟨admits, live⟩ := Goal.admits_of_metAt met
  exact ⟨goal, same.goal.trans goal_eq, same.anchorAt ▸ admits, fun other => live other ▸ shown⟩

theorem Dated.drift {m : Move} (dated : Dated e snapshot ms s) (hm : m ≠ .deliver) :
    Dated e snapshot ms (s.move m) := by
  have d := s.move_drift hm
  obtain ⟨jobs, reports⟩ := s.move_jobs hm
  constructor
  · intro task ht j now job
    obtain ⟨task', ht', same⟩ := jobs task ht
    rw [d.active, d.issued]
    exact dated.checks task' ht' j now (same.trans job)
  · intro task id t hm
    rw [d.active, d.issued]
    rcases reports _ hm rfl with hm | ⟨check, hc, -, report, found, h⟩
    · exact dated.mail task id t hm
    · obtain rfl := Message.report.inj h
      exact dated.outcome hc found
  · rw [d.active]
    exact dated.found

/-- A message converts a journey only at a time at which it may convert. -/
theorem Dated.deliver {message : Message} {rest : List Message} (dated : Dated e snapshot ms s)
    (shown : Shown e ms s.engine.now) (known : Known e snapshot s.engine)
    (hm : s.mailbox = message :: rest) (hears : s.engine.Hears message)
    (fresh : e.FreshIds snapshot s.deliver.engine.issued) : Dated e snapshot ms s.deliver := by
  have he := deliver_engine hm
  rw [he] at fresh
  have le := hears.issued_le
  -- A journey with a known id was in the mirror before, and has latched what the message reports.
  have latched := fun (id : JourneyId) (held : id ∈ snapshot.ids ++ e.idsUpTo s.engine.issued) =>
    Reported.latched_of_known known hears fresh held
  constructor
  · intro task ht j now job
    rw [he] at ht ⊢
    rcases (looks_handle _ hears.not_boot).checks task ht j now job with ht | ⟨hj, unmet, rfl⟩
    · obtain ⟨unmet, shown, held, continues⟩ := dated.checks task ht j now job
      refine ⟨unmet, shown, mem_known_of_le le held, fun k hk hid => ?_⟩
      obtain ⟨i, hi, same, latches⟩ := latched j.id held k hk hid
      exact (continues i hi same).trans latches.toContinues
    · exact ⟨unmet, shown, known.concerned_within hears.sound hears.not_boot hj,
        fun k hk hid => known.concerned_continues hears.sound hears.not_boot fresh hj hk hid⟩
  · intro task id t waits
    rw [deliver_mailbox hm] at waits
    rw [he]
    obtain ⟨held, may⟩ := dated.mail task id t (hm ▸ List.mem_cons_of_mem _ waits)
    refine ⟨mem_known_of_le le held, fun k hk hid => ?_⟩
    obtain ⟨i, hi, same, latches⟩ := latched id held k hk hid
    exact (may i hi same).of_goal latches.goal latches.anchorAt
  · intro k hk t ht
    rw [he] at hk
    obtain ⟨i, hi, same, before | ⟨task, rfl⟩⟩ :=
      converted_handle hears.sound hears.not_boot hk ht
    · rcases dated.found i hi t before with ⟨i', hi', hid, met⟩ | may
      · exact .inl ⟨i', hi', hid.trans same.id.symm, met⟩
      · exact .inr (may.of_goal same.goal same.anchorAt)
    · have may := (dated.mail task i.id t (by simp [hm])).2 i hi rfl
      exact .inr (may.of_goal same.goal same.anchorAt)

theorem dated (boots : e.BootsFrom snapshot) (ms : List Move)
    (fresh : e.FreshIds snapshot (after e ms).engine.issued) : Dated e snapshot ms (after e ms) := by
  refine run_induction (I := Dated e snapshot) boots ms fresh (dated_raise boots) ?_
    (fun _ _ dated => dated.mono (List.prefix_append _ _)) ?_
  · intro ms m _ dated hm
    exact (dated.drift hm).mono (List.prefix_append _ _)
  · intro ms message rest prior fresh dated hm hears
    refine Dated.mono ?_ (List.prefix_append _ _)
    exact dated.deliver ⟨ms, List.prefix_refl _, rfl⟩ (boots.known ms prior) hm hears fresh

/-- A journey converts before the end of its window, by the time of an event not before the window
begins, and otherwise by the time that the clock showed at a check. -/
theorem conversions_before_end (boots : e.BootsFrom snapshot) (ms : List Move)
    (fresh : e.FreshIds snapshot (after e ms).engine.issued) :
    ∀ k ∈ (after e ms).engine.store.active, ∀ t, k.convertedAt = some t →
      (∃ i ∈ snapshot.journeys, i.id = k.id ∧ i.convertedAt = some t) ∨
      ∃ goal, k.goal = some goal ∧
        (∀ limit, goal.windowEnd? k.anchorAt = some limit → t < limit) ∧
        (goal.kind = .event → k.anchorAt ≤ t) ∧
        (goal.kind ≠ .event → ∃ prior, prior <+: ms ∧ (after e prior).engine.now = t) := by
  intro k hk t ht
  refine ((dated boots ms fresh).found k hk t ht).imp_right ?_
  rintro ⟨goal, goal_eq, admits, shown⟩
  exact ⟨goal, goal_eq, admits.before_end, admits.from_anchor, shown⟩

/-- Who leaves the members within a minute after an event converts. -/
def leavingAfter : Campaign := { leaving with
  goal := some ⟨.segmentLeave, none, some "members", none, some 60⟩
  anchor := .triggerEvent }

/-- The journey starts on an event that is dated later than the clock shows, and is checked at once. -/
def countsEarly : List Move :=
  [.send (.start leavingAfter "ann" (some ⟨"event", afterwards⟩)), .deliver, .work 1, .deliver]

theorem counted_early :
    let engine := (after (inMemory .empty .epoch) countsEarly).engine
    engine.store.active.map (fun j => (j.anchorAt, j.convertedAt)) =
      [(afterwards, some .epoch)] ∧
    ∀ k ∈ engine.store.active, ∃ goal, k.goal = some goal ∧
      (∀ limit, goal.windowEnd? k.anchorAt = some limit → .epoch < limit) ∧
      (goal.kind ≠ .event → ∃ prior, prior <+: countsEarly ∧
        (after (inMemory .empty .epoch) prior).engine.now = .epoch) := by
  intro engine
  have times : engine.store.active.map (fun j => (j.anchorAt, j.convertedAt)) =
      [(afterwards, some .epoch)] := by decide +kernel
  refine ⟨times, fun k hk => ?_⟩
  have found : k.convertedAt = some .epoch := by
    have hm : (k.anchorAt, k.convertedAt) ∈ [(afterwards, some Instant.epoch)] :=
      times ▸ List.mem_map_of_mem hk
    exact (Prod.mk.inj (List.mem_singleton.mp hm)).2
  rcases conversions_before_end (bootsFrom_inMemory .empty .epoch) countsEarly
    ⟨by decide +kernel, by decide +kernel⟩ k hk .epoch found with
    ⟨i, hi, -⟩ | ⟨goal, goal_eq, before_end, -, shown⟩
  · cases hi
  · exact ⟨goal, goal_eq, before_end, shown⟩

/-- Not every conversion lies in its window: a goal that is not an event is met before the window
begins. -/
theorem converted_before_window :
    ¬ ∀ (e : Engine) (snapshot : Snapshot) (ms : List Move), e.BootsFrom snapshot →
      e.FreshIds snapshot (after e ms).engine.issued →
      ∀ k ∈ (after e ms).engine.store.active, ∀ t, k.convertedAt = some t →
        (∃ i ∈ snapshot.journeys, i.id = k.id ∧ i.convertedAt = some t) ∨
        k.anchorAt ≤ t ∧ ∀ goal limit, k.goal = some goal →
          goal.windowEnd? k.anchorAt = some limit → t < limit := by
  intro in_window
  have early : ∃ k ∈ (after (inMemory .empty .epoch) countsEarly).engine.store.active,
      k.convertedAt = some .epoch ∧ ¬ k.anchorAt ≤ .epoch := by decide +kernel
  obtain ⟨k, hk, found, early⟩ := early
  rcases in_window (inMemory .empty .epoch) .empty countsEarly (bootsFrom_inMemory .empty .epoch)
    ⟨by decide +kernel, by decide +kernel⟩ k hk .epoch found with ⟨i, hi, -⟩ | ⟨from_anchor, -⟩
  · cases hi
  · exact early from_anchor

end Session

end Engagement
