import Engagement.Proofs.Session.ConversionTimes
import Engagement.Proofs.Session.Jobs
import Engagement.Proofs.Session.Occurrences

/-! # The earliest occurrence wins

The goal of a journey that has not converted is checked when the journey comes in and whenever an
event of its user is handled. A check finds the earliest occurrence that is on record when it is run,
and the earliest that some check has found is the journey's conversion, in whatever order the checks
are run and report. So when all is done, the conversion is the earliest occurrence on record at some
point of the run that lies after the last of these checks was asked for. What is recorded later, once
the journey has converted, is no longer looked for.
-/

namespace Engagement

open Engine

namespace Journey

/-- The goal of the journey is an event. -/
def HasEventGoal (k : Journey) : Prop := ∃ goal, k.goal = some goal ∧ goal.kind = .event

theorem Continues.hasEventGoal {j k : Journey} (h : j.Continues k) (event : k.HasEventGoal) :
    j.HasEventGoal := by
  obtain ⟨goal, goal_eq, kind⟩ := event
  exact ⟨goal, h.goal.symm.trans goal_eq, kind⟩

theorem HasEventGoal.isSome {k : Journey} (event : k.HasEventGoal) : k.goal.isSome = true := by
  obtain ⟨goal, goal_eq, -⟩ := event
  rw [goal_eq]
  rfl

end Journey

namespace Session

variable {e : Engine} {snapshot : Snapshot} {ms prior : List Move} {m : Move} {j k : Journey}
  {message : Message} {rest : List Message}

/-- The journey is in the mirror and has not converted. -/
def IsOpen (e : Engine) (ms : List Move) (k : Journey) : Prop :=
  ∃ j ∈ (after e ms).engine.store.active, j.id = k.id ∧ j.convertedAt = none

/-- The goal of a journey that has not converted has to be checked. -/
inductive Prompted (e : Engine) (k : Journey) : List Move → Prop
  /-- The engine has come up. -/
  | up (is_open : IsOpen e [] k) : Prompted e k []
  /-- The journey has come in. -/
  | comesIn {before : List Move} {m : Move}
      (new : ∀ j ∈ (after e before).engine.store.active, j.id ≠ k.id)
      (is_open : IsOpen e (before ++ [m]) k) : Prompted e k (before ++ [m])
  /-- An event of the journey's user has been handled. -/
  | event {before : List Move} {event : HostEvent}
      (waited : (after e before).mailbox.head? = some (.command (.event event)))
      (user : event.occurrence.distinctId = k.distinctId)
      (is_open : IsOpen e (before ++ [.deliver]) k) : Prompted e k (before ++ [.deliver])

theorem Prompted.is_open (h : Prompted e k prior) : IsOpen e prior k := by
  cases h with
  | up is_open => exact is_open
  | comesIn _ is_open => exact is_open
  | event _ _ is_open => exact is_open

theorem Prompted.of_same (h : Prompted e j prior) (id : k.id = j.id)
    (user : k.distinctId = j.distinctId) : Prompted e k prior := by
  have same {ms : List Move} (is_open : IsOpen e ms j) : IsOpen e ms k := by
    unfold IsOpen
    rw [id]
    exact is_open
  cases h with
  | up is_open => exact .up (same is_open)
  | comesIn new is_open => exact .comesIn (id ▸ new) (same is_open)
  | event waited here is_open => exact .event waited (here.trans user.symm) (same is_open)

/-- The last move lets the journey come in, or an event of its user is handled. -/
theorem Prompted.snoc_cases (h : Prompted e k (ms ++ [m])) :
    (∀ j ∈ (after e ms).engine.store.active, j.id ≠ k.id) ∨
      m = .deliver ∧ ∃ event : HostEvent, event.occurrence.distinctId = k.distinctId ∧
        (after e ms).mailbox.head? = some (.command (.event event)) := by
  generalize hq : ms ++ [m] = whole at h
  cases h with
  | up => simp at hq
  | comesIn new =>
    obtain ⟨rfl, -⟩ := List.append_inj' hq rfl
    exact .inl new
  | event waited user =>
    obtain ⟨rfl, last⟩ := List.append_inj' hq rfl
    exact .inr ⟨(List.cons.inj last).1, _, user, waited⟩

/-! ## What checks find -/

/-- A check that is run finds the earliest occurrence on record. -/
theorem finds_earliest (boots : e.BootsFrom snapshot)
    (fresh : e.FreshIds snapshot (after e ms).engine.issued) (recorded : Recorded e ms)
    {check : Task} {now : Instant} (hc : check ∈ (after e ms).engine.tasks)
    (job : check.job = .goal j now) (hk : k ∈ (after e ms).engine.store.active)
    (hid : k.id = j.id) (event : k.HasEventGoal) :
    j.goalMetAt (after e ms).engine.host now = k.earliest (record e ms) := by
  obtain ⟨unmet, -, -, continues⟩ := (dated boots ms fresh).checks check hc j now job
  have same := continues k hk hid
  obtain ⟨goal, goal_eq, kind⟩ := same.hasEventGoal event
  rw [same.earliest_eq]
  exact Journey.goalMetAt_eq_earliest (recorded.looksUp boots) unmet goal_eq kind now

/-- At some point of a run the time was that of the earliest occurrence on record. -/
def WasEarliest (e : Engine) (ms : List Move) (k : Journey) (t : Instant) : Prop :=
  ∃ mid, mid <+: ms ∧ k.earliest (record e mid) = some t

theorem WasEarliest.mono {ms' : List Move} {t : Instant} (h : WasEarliest e ms k t)
    (hp : ms <+: ms') : WasEarliest e ms' k t := by
  obtain ⟨mid, within, earliest⟩ := h
  exact ⟨mid, within.trans hp, earliest⟩

theorem WasEarliest.continues {t : Instant} (h : WasEarliest e ms j t) (same : j.Continues k) :
    WasEarliest e ms k t := by
  unfold WasEarliest
  rw [same.earliest_eq]
  exact h

/-- The engine had the journey converted as it is when it came up. -/
def WasConverted (e : Engine) (k : Journey) : Prop :=
  ∃ i ∈ (raise e).engine.store.active, i.id = k.id ∧ i.convertedAt.isSome = true ∧
    i.convertedAt = k.convertedAt

/-- Journeys convert at times that were those of the earliest occurrence on record. -/
structure Founded (e : Engine) (ms : List Move) (s : Session) : Prop where
  mail : ∀ task id t, .report (.goal task id (some t)) ∈ s.mailbox →
    ∀ k ∈ s.engine.store.active, k.id = id → k.HasEventGoal → WasEarliest e ms k t
  found : ∀ k ∈ s.engine.store.active, k.HasEventGoal → WasConverted e k ∨
    ∀ t, k.convertedAt = some t → WasEarliest e ms k t

theorem Founded.mono {ms' : List Move} {s : Session} (founded : Founded e ms s)
    (hp : ms <+: ms') : Founded e ms' s where
  mail task id t waits k hk hid event := (founded.mail task id t waits k hk hid event).mono hp
  found k hk event := (founded.found k hk event).imp_right fun was t ht => (was t ht).mono hp

theorem founded_raise : Founded e [] (raise e) where
  mail _ _ _ waits := nomatch waits
  found k hk _ := by
    rcases hc : k.convertedAt with _ | t
    · exact .inr (by simp)
    · exact .inl ⟨k, hk, rfl, by simp [hc], rfl⟩

theorem Founded.drift (founded : Founded e ms (after e ms)) (boots : e.BootsFrom snapshot)
    (fresh : e.FreshIds snapshot (after e ms).engine.issued) (recorded : Recorded e ms)
    (hm : m ≠ .deliver) : Founded e ms ((after e ms).move m) := by
  have d := (after e ms).move_drift hm
  constructor
  · rw [d.active]
    intro task id t waits k hk hid event
    rcases ((after e ms).move_jobs hm).2 _ waits rfl with waits | ⟨check, hc, -, report, found, h⟩
    · exact founded.mail task id t waits k hk hid event
    · obtain rfl := Message.report.inj h
      obtain ⟨j, now, job, rfl, met⟩ := outcome?_eq_goal found
      have finds := finds_earliest boots fresh recorded hc job hk hid event
      exact ⟨ms, List.prefix_refl _, finds.symm.trans met⟩
  · rw [d.active]
    exact founded.found

theorem Founded.deliver (founded : Founded e ms (after e ms)) (boots : e.BootsFrom snapshot)
    (prior : e.FreshIds snapshot (after e ms).engine.issued)
    (fresh : e.FreshIds snapshot (after e ms).deliver.engine.issued)
    (hm : (after e ms).mailbox = message :: rest) (hears : (after e ms).engine.Hears message) :
    Founded e ms (after e ms).deliver := by
  have known := boots.known ms prior
  have he := deliver_engine hm
  rw [he] at fresh
  constructor
  · intro task id t waits k hk hid event
    rw [deliver_mailbox hm] at waits
    rw [he] at hk
    have waited : .report (.goal task id (some t)) ∈ (after e ms).mailbox :=
      hm ▸ List.mem_cons_of_mem _ waits
    have held := ((dated boots ms prior).mail task id t waited).1
    obtain ⟨i, hi, same, latches⟩ := Reported.latched_of_known known hears fresh held k hk hid
    have was := founded.mail task id t waited i hi same (latches.hasEventGoal event)
    exact was.continues latches.toContinues
  · intro k hk event
    rw [he] at hk
    rcases hc : k.convertedAt with _ | t
    · exact .inr (by simp)
    obtain ⟨j, hj, same, before | ⟨task, rfl⟩⟩ :=
      converted_handle hears.sound hears.not_boot hk hc
    · rcases founded.found j hj (same.hasEventGoal event) with ⟨i, hi, hid, converted, met⟩ | was
      · exact .inl ⟨i, hi, hid.trans same.id.symm, converted, (met.trans before).trans hc.symm⟩
      · exact .inr fun u hu => Option.some.inj hu ▸ (was t before).continues same
    · have was := founded.mail task j.id t (by simp [hm]) j hj rfl (same.hasEventGoal event)
      exact .inr fun u hu => Option.some.inj hu ▸ was.continues same

/-! ## No check is lost -/

/-- The journey's goal is being checked, or a time is about to be or has been taken over that is no
later than that of the earliest occurrence on record at a point of the run. -/
def Heeds (e : Engine) (s : Session) (k : Journey) (prior : List Move) : Prop :=
  s.engine.IsChecking k.id ∨
    ∃ t, NoLater t (k.earliest (record e prior)) ∧
      (k.convertedAt = t ∨ ∃ task, .report (.goal task k.id t) ∈ s.mailbox)

/-- Whenever a check is asked for, what it has to find is taken into account. -/
structure Heeded (e : Engine) (ms : List Move) (s : Session) : Prop where
  heeds : ∀ k ∈ s.engine.store.active, k.HasEventGoal → ∀ prior, prior <+: ms →
    Prompted e k prior → Heeds e s k prior
  prompted : ∀ k ∈ s.engine.store.active, k.convertedAt = none →
    ∃ prior, prior <+: ms ∧ Prompted e k prior

theorem heeded_raise (boots : e.BootsFrom snapshot) : Heeded e [] (raise e) := by
  have sound : (raise e).engine.Sound := (boots.up []).sound
  constructor
  · intro k hk event prior hp prompted
    obtain rfl := List.prefix_nil.mp hp
    obtain ⟨j, hj, hid, unmet⟩ := prompted.is_open
    obtain rfl := sound.distinct.eq_of_id hj hk hid
    exact .inl (isChecking_raise boots hk event.isSome unmet)
  · intro k hk unmet
    exact ⟨[], List.prefix_refl _, .up ⟨k, hk, rfl, unmet⟩⟩

theorem Heeded.drift (heeded : Heeded e ms (after e ms)) (boots : e.BootsFrom snapshot)
    (fresh : e.FreshIds snapshot (after e ms).engine.issued) (recorded : Recorded e ms)
    (hm : m ≠ .deliver) : Heeded e (ms ++ [m]) ((after e ms).move m) := by
  have d := (after e ms).move_drift hm
  constructor
  · rw [d.active]
    intro k hk event prior hp prompted
    rcases List.prefix_concat_iff.mp hp with rfl | hp
    · rcases prompted.snoc_cases with new | ⟨delivers, -⟩
      · exact (new k hk rfl).elim
      · exact (hm delivers).elim
    · rcases heeded.heeds k hk event prior hp prompted with checking | ⟨t, early, taken⟩
      · rcases isChecking_move checking (booked boots.down ms) hm with
          checking | ⟨check, hc, j, now, job, hid, waits⟩
        · exact .inl checking
        · have finds := finds_earliest boots fresh recorded hc job hk hid.symm event
          rw [finds] at waits
          exact .inr ⟨_, recorded.noLater boots hp k, .inr ⟨_, waits⟩⟩
      · refine .inr ⟨t, early, taken.imp_right ?_⟩
        rintro ⟨task, waits⟩
        obtain ⟨news, mailbox, -⟩ := (after e ms).move_posts hm
        exact ⟨task, mailbox ▸ List.mem_append_left _ waits⟩
  · rw [d.active]
    intro k hk unmet
    obtain ⟨prior, hp, prompted⟩ := heeded.prompted k hk unmet
    exact ⟨prior, hp.trans (List.prefix_append _ _), prompted⟩

/-- A journey that has a check asked for is known from then on. -/
theorem Prompted.known (prompted : Prompted e k prior) (boots : e.BootsFrom snapshot)
    (hp : prior <+: ms) (fresh : e.FreshIds snapshot (after e ms).engine.issued) :
    k.id ∈ snapshot.ids ++ e.idsUpTo (after e ms).engine.issued := by
  obtain ⟨later, rfl⟩ := hp
  have le := (boots.evolves_append prior later).issued_le
  obtain ⟨j, hj, hid, -⟩ := prompted.is_open
  exact hid ▸ mem_known_of_le le ((boots.known prior (fresh.mono le)).within.active j hj)

/-- The goals are checked of a journey that comes in, and of all journeys of the user whose event is
handled. -/
theorem Prompted.isChecking (prompted : Prompted e k (ms ++ [.deliver]))
    (boots : e.BootsFrom snapshot) (prior : e.FreshIds snapshot (after e ms).engine.issued)
    (fresh : e.FreshIds snapshot (after e ms).deliver.engine.issued)
    (hm : (after e ms).mailbox = message :: rest) (hears : (after e ms).engine.Hears message)
    (hk : k ∈ (after e ms).deliver.engine.store.active) (event : k.HasEventGoal) :
    (after e ms).deliver.engine.IsChecking k.id := by
  have he := deliver_engine hm
  rw [he] at fresh hk ⊢
  have received := (receives_handle hears.sound hears.not_boot).checked k hk event.isSome
  rw [heed_active] at received
  rcases received with ⟨j, hj, hid, -⟩ | checking
  · -- A journey that was there before is checked on an event.
    rcases prompted.snoc_cases with new | ⟨-, told, user, waited⟩
    · exact (new j hj hid).elim
    · obtain rfl : message = .command (.event told) := by simpa [hm] using waited
      have known := boots.known ms prior
      obtain ⟨i, hi, same, latches⟩ :=
        Reported.latched_of_known known hears fresh (known.within.active j hj) k hk hid.symm
      have sound : ((after e ms).engine.handle (.command (.event told))).Sound :=
        he ▸ ((boots.up ms).move .deliver).sound
      obtain ⟨i', hi', hid', unmet⟩ := prompted.is_open
      rw [after_snoc, move, he] at hi'
      obtain rfl := sound.distinct.eq_of_id hi' hk hid'
      rw [latches.id]
      exact isChecking_onEvent hi (user.trans latches.distinctId)
        (latches.hasEventGoal event).isSome (latches.unmet unmet)
  · exact checking

theorem Heeded.deliver (heeded : Heeded e ms (after e ms)) (boots : e.BootsFrom snapshot)
    (prior : e.FreshIds snapshot (after e ms).engine.issued)
    (fresh : e.FreshIds snapshot (after e ms).deliver.engine.issued)
    (hm : (after e ms).mailbox = message :: rest) (hears : (after e ms).engine.Hears message) :
    Heeded e (ms ++ [.deliver]) (after e ms).deliver := by
  have known := boots.known ms prior
  have he := deliver_engine hm
  have latched := fun (id : JourneyId)
      (held : id ∈ snapshot.ids ++ e.idsUpTo (after e ms).engine.issued) =>
    Reported.latched_of_known known hears (he ▸ fresh) held
  constructor
  · intro k hk event point hp prompted
    rcases List.prefix_concat_iff.mp hp with rfl | hp
    · exact .inl (prompted.isChecking boots prior fresh hm hears hk event)
    · rw [he] at hk
      obtain ⟨j, hj, hid, latches⟩ := latched k.id (prompted.known boots hp prior) k hk rfl
      have same : k.earliest = j.earliest := latches.toContinues.earliest_eq
      have before := heeded.heeds j hj (latches.hasEventGoal event) point hp
        (prompted.of_same hid latches.distinctId.symm)
      rcases before with checking | ⟨t, early, taken | ⟨task, waited⟩⟩
      · exact .inl (hid ▸ isChecking_deliver checking (booked boots.down ms) hm)
      · refine .inr ⟨_, ?_, .inl rfl⟩
        rw [same]
        exact latches.noLater.trans (taken ▸ early)
      · rw [hm, List.mem_cons] at waited
        rcases waited with rfl | waits
        · have found : Message.metAt? k.id (.report (.goal task j.id t)) = t := if_pos hid
          rw [found] at latches
          refine .inr ⟨_, ?_, .inl rfl⟩
          rw [same]
          exact latches.noLater_found.trans early
        · refine .inr ⟨t, same ▸ early, .inr ⟨task, ?_⟩⟩
          rw [deliver_mailbox hm]
          exact hid ▸ waits
  · intro k hk unmet
    rw [he] at hk
    by_cases old : ∃ j ∈ (after e ms).engine.store.active, j.id = k.id
    · obtain ⟨i, hi, hid⟩ := old
      obtain ⟨j, hj, hid, latches⟩ := latched k.id (hid ▸ known.within.active i hi) k hk rfl
      obtain ⟨point, hp, prompted⟩ := heeded.prompted j hj (latches.unmet unmet)
      exact ⟨point, hp.trans (List.prefix_append _ _),
        prompted.of_same hid.symm latches.distinctId⟩
    · refine ⟨_, List.prefix_refl _, .comesIn (by simpa using old) ⟨k, ?_, rfl, unmet⟩⟩
      rw [after_snoc, move, he]
      exact hk

theorem Heeded.pass (heeded : Heeded e ms (after e ms)) (hm : (after e ms).mailbox = []) :
    Heeded e (ms ++ [.deliver]) (after e ms) := by
  constructor
  · intro k hk event point hp prompted
    rcases List.prefix_concat_iff.mp hp with rfl | hp
    · rcases prompted.snoc_cases with new | ⟨-, told, -, waited⟩
      · exact (new k hk rfl).elim
      · simp [hm] at waited
    · exact heeded.heeds k hk event point hp prompted
  · intro k hk unmet
    obtain ⟨point, hp, prompted⟩ := heeded.prompted k hk unmet
    exact ⟨point, hp.trans (List.prefix_append _ _), prompted⟩

/-! ## Runs -/

/-- What holds of the checks holds in every run. -/
theorem founded_heeded (boots : e.BootsFrom snapshot) (ms : List Move)
    (fresh : e.FreshIds snapshot (after e ms).engine.issued) (recorded : Recorded e ms) :
    Founded e ms (after e ms) ∧ Heeded e ms (after e ms) := by
  have longer (ms : List Move) (m : Move) : ms <+: ms ++ [m] := List.prefix_append _ _
  refine run_induction (I := fun ms s => Recorded e ms → Founded e ms s ∧ Heeded e ms s) boots ms
    fresh (fun _ => ⟨founded_raise, heeded_raise boots⟩) ?_ ?_ ?_ recorded
  · intro ms m prior ih hm recorded
    have before := recorded.mono (longer ms m)
    obtain ⟨founded, heeded⟩ := ih before
    exact ⟨(founded.drift boots prior before hm).mono (longer ms m),
      heeded.drift boots prior before hm⟩
  · intro ms hm ih recorded
    obtain ⟨founded, heeded⟩ := ih (recorded.mono (longer ms _))
    exact ⟨founded.mono (longer ms _), heeded.pass hm⟩
  · intro ms message rest prior fresh ih hm hears recorded
    obtain ⟨founded, heeded⟩ := ih (recorded.mono (longer ms _))
    exact ⟨(founded.deliver boots prior fresh hm hears).mono (longer ms _),
      heeded.deliver boots prior fresh hm hears⟩

/-- If some points of a run are such, there is a last one. -/
theorem exists_last (P : List Move → Prop) (ms : List Move) :
    (∀ p, p <+: ms → ¬ P p) ∨ ∃ p, p <+: ms ∧ P p ∧ ∀ q, q <+: ms → P q → q <+: p := by
  induction ms using List.reverseRecOn with
  | nil =>
    by_cases h : P []
    · exact .inr ⟨[], List.prefix_refl _, h, fun _ hq _ => hq⟩
    · refine .inl fun p hp => ?_
      rwa [List.prefix_nil.mp hp]
  | append_singleton ms m ih =>
    by_cases h : P (ms ++ [m])
    · exact .inr ⟨_, List.prefix_refl _, h, fun _ hq _ => hq⟩
    · have shorter : ∀ {q}, q <+: ms ++ [m] → P q → q <+: ms := by
        rintro q hq here
        rcases List.prefix_concat_iff.mp hq with rfl | hq
        · exact (h here).elim
        · exact hq
      refine ih.imp (fun none p hp here => none p (shorter hp here) here) ?_
      rintro ⟨p, hp, here, last⟩
      exact ⟨p, hp.trans (List.prefix_append _ _), here,
        fun q hq there => last q (shorter hq there) there⟩

/-- When all is done, a journey whose goal is an event has converted at the earliest occurrence that
was on record at some point, or not at all if there was none; unless it came converted. All checks
that were asked for before it converted were asked for up to that point. -/
theorem converts_at_earliest_recorded (boots : e.BootsFrom snapshot) (ms : List Move)
    (fresh : e.FreshIds snapshot (after e ms).engine.issued) (recorded : Recorded e ms)
    (idle : (after e ms).engine.isIdle = true) (done : (after e ms).mailbox = []) :
    ∀ k ∈ (after e ms).engine.store.active, k.HasEventGoal → WasConverted e k ∨
      ∃ mid, mid <+: ms ∧ k.convertedAt = k.earliest (record e mid) ∧
        ∀ prior, prior <+: ms → Prompted e k prior → prior <+: mid := by
  intro k hk event
  obtain ⟨founded, heeded⟩ := founded_heeded boots ms fresh recorded
  refine (founded.found k hk event).imp_right fun was => ?_
  obtain ⟨-, tasks⟩ : (after e ms).engine.flights = [] ∧ (after e ms).engine.tasks = [] := by
    simpa [isIdle] using idle
  have early : ∀ prior, prior <+: ms → Prompted e k prior →
      NoLater k.convertedAt (k.earliest (record e prior)) := by
    intro prior hp prompted
    rcases heeded.heeds k hk event prior hp prompted with ⟨t, ht, -⟩ | ⟨t, early, taken⟩
    · rw [tasks] at ht
      cases ht
    · rcases taken with rfl | ⟨task, waits⟩
      · exact early
      · rw [done] at waits
        cases waits
  -- The time was found at some point, be it before or after the last check was asked for.
  have within : ∀ mid, mid <+: ms → k.earliest (record e mid) = k.convertedAt →
      ∃ mid, mid <+: ms ∧ k.convertedAt = k.earliest (record e mid) ∧
        ∀ prior, prior <+: ms → Prompted e k prior → prior <+: mid := by
    intro mid hmid found
    rcases exists_last (Prompted e k) ms with none | ⟨last, hlast, prompted, latest⟩
    · exact ⟨mid, hmid, found.symm, fun prior hp here => (none prior hp here).elim⟩
    · rcases List.prefix_or_prefix_of_prefix hmid hlast with before | after
      · refine ⟨last, hlast, (early last hlast prompted).antisymm ?_, latest⟩
        exact found ▸ (recorded.mono hlast).noLater boots before k
      · exact ⟨mid, hmid, found.symm, fun prior hp here => (latest prior hp here).trans after⟩
  rcases hc : k.convertedAt with _ | t
  · obtain ⟨prior, hp, prompted⟩ := heeded.prompted k hk hc
    have open_yet : NoLater (k.earliest (record e prior)) k.convertedAt := hc ▸ .none _
    exact hc ▸ within prior hp (open_yet.antisymm (early prior hp prompted))
  · obtain ⟨mid, hmid, found⟩ := was t hc
    exact hc ▸ within mid hmid (found.trans hc.symm)

/-- The occurrence was on record when an event with it was handled. -/
def Told (e : Engine) (ms : List Move) (o : Occurrence) : Prop :=
  ∃ before event, before ++ [.deliver] <+: ms ∧ event.occurrence = o ∧
    (after e before).mailbox.head? = some (.command (.event event)) ∧ o ∈ record e before

/-- Who buys converts, at whatever time. -/
def buying : Campaign := { Campaign.pausing with
  goal := some ⟨.event, some "bought", none, none, none⟩ }

def purchase (time : Instant) : HostEvent := ⟨"purchase", "bought", "ann", [], time⟩

/-- The host of a user who bought at these times. -/
def bought (times : List Instant) : Host :=
  { Host.new .epoch "ann" ⟨[], [], [], []⟩ with
    log := ⟨times.map fun time => (purchase time).occurrence, false⟩ }

/-- The journey of a user who buys comes to its wait and parks. -/
def buyerWaits : List Move :=
  [.send (.start buying "ann" none), .deliver, .work 1, .work 2, .work 2, .deliver, .deliver]

/-- A purchase is recorded, and later an earlier one. -/
def buysTwice (between rest : List Move) : List Move :=
  buyerWaits ++ [.host (bought [afterwards])] ++ between ++
    [.host (bought [afterwards, .epoch])] ++ rest

theorem recorded_buysTwice {between rest : List Move}
    (other : ∀ m ∈ between ++ rest, ∀ host, m ≠ .host host)
    (kept : ∀ o ∈ record (inMemory .empty .epoch)
      (buyerWaits ++ [.host (bought [afterwards])] ++ between),
      o = (purchase afterwards).occurrence) :
    Recorded (inMemory .empty .epoch) (buysTwice between rest) := by
  have start : Recorded (inMemory .empty .epoch) [] :=
    ⟨⟨rfl, rfl⟩, fun prior host h => by simp at h⟩
  have waits : Recorded (inMemory .empty .epoch) buyerWaits :=
    start.append (by simp)
  have first := waits.host (bought [afterwards]) ⟨rfl, rfl⟩
    (by with_unfolding_all exact List.nil_subset _)
  have second := (first.append fun m hm => other m (List.mem_append_left _ hm)).host
    (bought [afterwards, .epoch]) ⟨rfl, rfl⟩ fun o ho => by simp [kept o ho, bought]
  exact second.append fun m hm => other m (List.mem_append_right _ hm)

/-- Two checks are asked for. The first is run when both purchases are on record, and reports after
the second. -/
def checksOverlap : List Move :=
  buysTwice [.send (.event (purchase afterwards)), .send (.event tap), .deliver, .deliver, .work 5]
    [.work 3, .deliver, .deliver, .work 4, .work 4, .deliver, .work 6, .work 6, .deliver]

theorem overlapping_checks_find_earliest :
    let engine := (after (inMemory .empty .epoch) checksOverlap).engine
    engine.store.active.map (·.convertedAt) = [some .epoch] ∧
    ∀ k ∈ engine.store.active, ∃ mid, mid <+: checksOverlap ∧
      k.convertedAt = k.earliest (record (inMemory .empty .epoch) mid) ∧
      ∀ prior, prior <+: checksOverlap → Prompted (inMemory .empty .epoch) k prior →
        prior <+: mid := by
  intro engine
  refine ⟨by decide +kernel, fun k hk => ?_⟩
  have events : ∀ k ∈ engine.store.active, k.goal.any (·.kind == .event) = true := by
    decide +kernel
  obtain ⟨goal, goal_eq, kind⟩ := (Option.any_eq_true _ _).mp (events k hk)
  rcases converts_at_earliest_recorded (bootsFrom_inMemory .empty .epoch) checksOverlap
    ⟨by decide +kernel, by decide +kernel⟩
    (recorded_buysTwice (by simp) (by with_unfolding_all exact List.forall_mem_singleton.mpr rfl))
    (by decide +kernel) (by with_unfolding_all rfl) k hk ⟨goal, goal_eq, by simpa using kind⟩ with
    ⟨i, hi, -⟩ | found
  · cases hi
  · exact found

/-- The earlier purchase is recorded and reported when the journey has converted. -/
def findsOut : List Move :=
  buysTwice [.send (.event (purchase afterwards)), .deliver, .work 3, .work 4, .work 4, .deliver,
    .deliver] [.send (.event (purchase .epoch)), .deliver, .work 5, .work 5, .deliver]

/-- Not every journey has converted at the earliest occurrence on record, even if all occurrences on
record have been reported. -/
theorem converted_after_earliest :
    ¬ ∀ (e : Engine) (snapshot : Snapshot) (ms : List Move), e.BootsFrom snapshot →
      e.FreshIds snapshot (after e ms).engine.issued → Recorded e ms →
      (after e ms).engine.isIdle = true → (after e ms).mailbox = [] →
      (∀ o ∈ record e ms, Told e ms o) →
      ∀ k ∈ (after e ms).engine.store.active, k.HasEventGoal → k.exitPolicy = .never →
        k.convertedAt = k.earliest (record e ms) := by
  intro at_earliest
  have late : ∃ k ∈ (after (inMemory .empty .epoch) findsOut).engine.store.active,
      k.goal.any (·.kind == .event) = true ∧ k.exitPolicy = .never ∧
      k.convertedAt ≠ k.earliest (record (inMemory .empty .epoch) findsOut) := by decide +kernel
  have both : record (inMemory .empty .epoch) findsOut =
      [(purchase afterwards).occurrence, (purchase .epoch).occurrence] := by
    with_unfolding_all rfl
  have told : ∀ o ∈ record (inMemory .empty .epoch) findsOut,
      Told (inMemory .empty .epoch) findsOut o := by
    rw [both]
    rintro o (_ | ⟨_, _ | ⟨_, ⟨⟩⟩⟩)
    · refine ⟨findsOut.take 9, purchase afterwards, ?_, rfl, by with_unfolding_all rfl, ?_⟩
      · exact List.take_prefix 10 findsOut
      · with_unfolding_all exact List.mem_singleton_self _
    · refine ⟨findsOut.take 17, purchase .epoch, ?_, rfl, by with_unfolding_all rfl, ?_⟩
      · exact List.take_prefix 18 findsOut
      · with_unfolding_all exact List.mem_cons_of_mem _ (List.mem_singleton_self _)
  obtain ⟨k, hk, events, never, late⟩ := late
  obtain ⟨goal, goal_eq, kind⟩ := (Option.any_eq_true _ _).mp events
  exact late (at_earliest (inMemory .empty .epoch) .empty findsOut
    (bootsFrom_inMemory .empty .epoch) ⟨by decide +kernel, by decide +kernel⟩
    (recorded_buysTwice (by simp) (by with_unfolding_all exact List.forall_mem_singleton.mpr rfl))
    (by decide +kernel) (by with_unfolding_all rfl) told k hk
    ⟨goal, goal_eq, by simpa using kind⟩ never)

end Session

end Engagement
