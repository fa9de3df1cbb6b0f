import Engagement.Proofs.Engine.GoalReports
import Engagement.Proofs.Session.Conversions
import Engagement.Proofs.Session.Progress

/-! # Reports of met goals in a run

Several checks of a goal may be outstanding at once. Their outcomes are reported each time that one is
earlier than all before it, as long as the journey goes on: so once if they come in order, or if the
journey ends with its goal.
-/

namespace Engagement

namespace Journey

variable {j k : Journey} {c : Instant} {outcomes : List Instant}

/-- A journey has converted no later than at each of the times found. -/
theorem Latches.le (h : j.Latches outcomes k) (found : c ∈ j.convertedAt.toList ++ outcomes) :
    ∃ c', k.convertedAt = some c' ∧ c' ≤ c := by
  rcases hk : k.convertedAt with _ | c'
  · have none := h.earliest.symm.trans hk
    simp [List.min?_eq_none_iff.mp none] at found
  · have least := h.earliest.symm.trans hk
    exact ⟨c', rfl, (List.min?_eq_some_iff.mp least).2 c found⟩

end Journey

namespace Session

open Engine

variable {s : Session} {e e' : Engine} {snapshot : Snapshot} {id : JourneyId} {j : Journey}
  {m : Message} {times : List Instant}

/-- The engine, which has gone on from `origin`, has reported a journey to have met its goal once for
each of some times, and not later. As long as the journey goes on, it keeps the last of them or an
earlier one. -/
structure Reported (origin : Engine) (snapshot : Snapshot) (id : JourneyId) (times : List Instant)
    (e : Engine) : Prop where
  count : e.goalsMet id = origin.goalsMet id + times.length
  earlier : times.Pairwise fun t u => u < t
  latched : ∀ j ∈ e.store.active, j.id = id → ∀ t ∈ times, ∃ c, j.convertedAt = some c ∧ c ≤ t
  goes_on : times ≠ [] → ∀ j ∈ e.store.active, j.id = id → j.exitPolicy = .never
  known : times ≠ [] → id ∈ snapshot.ids ++ origin.idsUpTo e.issued

namespace Reported

variable {origin : Engine}

theorem drift (reported : Reported origin snapshot id times e) (h : Drift e e') :
    Reported origin snapshot id times e' where
  count := (goalsMet_of_events h.events).trans reported.count
  earlier := reported.earlier
  latched := h.active ▸ reported.latched
  goes_on := h.active ▸ reported.goes_on
  known := h.issued ▸ reported.known

/-- A journey that is known has latched what a message has found about it: none that starts now has
its id. -/
theorem latched_of_known (known : Known origin snapshot e) (hears : e.Hears m)
    (fresh : origin.FreshIds snapshot (e.handle m).issued)
    (held : id ∈ snapshot.ids ++ origin.idsUpTo e.issued) :
    ∀ k ∈ (e.handle m).store.active, k.id = id →
      ∃ j ∈ e.store.active, j.id = id ∧ j.Latches (m.metAt? id).toList k := by
  rintro k hk rfl
  rcases latches_handle hears.sound hears.not_boot hk with ⟨j, hj, latches⟩ | ⟨a, ha, latches⟩
  · exact ⟨j, hj, latches.id.symm, by rwa [latches.id]⟩
  · have new := known.admitted_new hears.sound hears.not_boot fresh ha
    rw [← latches.id] at new
    exact (new held).elim

/-- What a journey has latched it keeps, or it converts even earlier. -/
theorem latched_on {k : Journey} {found : List Instant} (reported : Reported origin snapshot id times e)
    (hj : j ∈ e.store.active) (hid : j.id = id) (latches : j.Latches found k) :
    ∀ t ∈ times, ∃ c, k.convertedAt = some c ∧ c ≤ t := by
  intro t ht
  obtain ⟨c, hc, hle⟩ := reported.latched j hj hid t ht
  obtain ⟨c', hc', hle'⟩ := latches.le (c := c) (by simp [hc])
  exact ⟨c', hc', Int.le_trans hle' hle⟩

/-- Nothing is reported of the journey. -/
theorem silent (reported : Reported origin snapshot id times e) (known : Known origin snapshot e)
    (hears : e.Hears m) (fresh : origin.FreshIds snapshot (e.handle m).issued)
    (same : (e.handle m).goalsMet id = e.goalsMet id) :
    Reported origin snapshot id times (e.handle m) := by
  have before := fun some : times ≠ [] => latched_of_known known hears fresh (reported.known some)
  constructor
  · exact same.trans reported.count
  · exact reported.earlier
  · intro k hk hid t ht
    obtain ⟨j, hj, hjid, latches⟩ := before (List.ne_nil_of_mem ht) k hk hid
    exact reported.latched_on hj hjid latches t ht
  · intro some k hk hid
    obtain ⟨j, hj, hjid, latches⟩ := before some k hk hid
    exact latches.exitPolicy.trans (reported.goes_on some j hj hjid)
  · exact fun some => mem_known_of_le hears.issued_le (reported.known some)

/-- A time is reported that is before all those that were. -/
theorem meets {t : Instant} (reported : Reported origin snapshot j.id times e)
    (known : Known origin snapshot e) (hears : e.Hears m)
    (fresh : origin.FreshIds snapshot (e.handle m).issued) (found : m.metAt? j.id = some t)
    (meets : Meets e (e.handle m) t j) :
    Reported origin snapshot j.id (times ++ [t]) (e.handle m) := by
  have held := known.within.active j meets.under_way
  have before := latched_of_known known hears fresh held
  constructor
  · rw [meets.reported, reported.count, List.length_append, List.length_singleton, Nat.add_assoc]
  · rw [List.pairwise_append]
    refine ⟨reported.earlier, List.pairwise_singleton _ _, ?_⟩
    intro u hu t' ht
    obtain rfl := List.mem_singleton.mp ht
    obtain ⟨c, hc, hle⟩ := reported.latched j meets.under_way rfl u hu
    exact Int.lt_of_lt_of_le (meets.earlier c hc) hle
  · intro k hk hid u hu
    obtain ⟨i, hi, hiid, latches⟩ := before k hk hid
    rcases List.mem_append.mp hu with hu | hu
    · exact reported.latched_on hi hiid latches u hu
    · obtain rfl := List.mem_singleton.mp hu
      exact latches.le (by simp [found])
  · intro _ k hk hid
    obtain ⟨i, hi, hiid, latches⟩ := before k hk hid
    obtain rfl := hears.sound.distinct.eq_of_id hi meets.under_way hiid
    rcases hp : i.exitPolicy with _ | _
    · exact (meets.ends hp k hk hid).elim
    · exact latches.exitPolicy.trans hp
  · exact fun _ => mem_known_of_le hears.issued_le held

end Reported

/-- A run has reported a journey to have met its goal once for each of some of the outcomes of its
checks. After the first report it may be another only if the journey goes on. -/
def Recounts (e : Engine) (snapshot : Snapshot) (id : JourneyId) (ms : List Move)
    (times : List Instant) : Prop :=
  times.Sublist ((raise e).outcomes id (ms.map .move)) ∧
    Reported e snapshot id times (after e ms).engine ∧
    (1 < times.length → ∃ prior, prior <+: ms ∧
      ∃ j ∈ (after e prior).engine.store.active, j.id = id ∧ j.exitPolicy = .never)

theorem reported_raise (boots : e.BootsFrom snapshot) (id : JourneyId) :
    Reported e snapshot id [] (raise e).engine := by
  obtain ⟨campaigns, loaded, hg⟩ := e.greeted_eq
  refine ⟨boots.calms_raise.goalsMet_eq.trans (goalsMet_of_events (by rw [hg])), ?_, ?_, ?_, ?_⟩ <;>
    simp

theorem outcomes_moves_snoc (e : Engine) (id : JourneyId) (ms : List Move) (m : Move) :
    (raise e).outcomes id ((ms ++ [m]).map .move) = (raise e).outcomes id (ms.map .move) ++
      (((after e ms).handles? (.move m)).bind (Message.metAt? id)).toList := by
  rw [List.map_append, List.map_singleton, outcomes_snoc, ← moves_eq_foldl_take]
  rfl

theorem recounts (boots : e.BootsFrom snapshot) (ms : List Move)
    (fresh : e.FreshIds snapshot (after e ms).engine.issued) (id : JourneyId) :
    ∃ times, Recounts e snapshot id ms times := by
  induction ms using List.reverseRecOn with
  | nil => exact ⟨[], List.nil_sublist _, reported_raise boots id, by simp⟩
  | append_singleton ms m ih =>
    have prior := fresh.mono (boots.evolves_append ms [m]).issued_le
    obtain ⟨times, sublist, reported, again⟩ := ih prior
    have again : 1 < times.length → ∃ prior, prior <+: ms ++ [m] ∧
        ∃ j ∈ (after e prior).engine.store.active, j.id = id ∧ j.exitPolicy = .never := by
      intro more
      obtain ⟨prior, hp, goes_on⟩ := again more
      exact ⟨prior, hp.trans (List.prefix_append _ _), goes_on⟩
    unfold Recounts
    rw [outcomes_moves_snoc]
    have sublist_on := sublist.trans (List.sublist_append_left _
      (((after e ms).handles? (.move m)).bind (Message.metAt? id)).toList)
    rw [after_snoc] at fresh ⊢
    rcases (boots.up ms).move_cases m with d | ⟨message, rest, hm, -, rfl, he, -⟩
    · exact ⟨times, sublist_on, reported.drift d, again⟩
    · have hears := hears boots ms prior hm
      have known := boots.known ms prior
      rw [he] at fresh ⊢
      rcases hears.meets id with same | ⟨t, j, found, rfl, meets⟩
      · exact ⟨times, sublist_on, reported.silent known hears fresh same, again⟩
      · refine ⟨times ++ [t], ?_, reported.meets known hears fresh found meets, fun more => ?_⟩
        · have handled : (after e ms).handles? (.move .deliver) = some message := by
            simp [handles?, hm]
          simpa [handled, found] using sublist
        · have some : times ≠ [] := by
            rintro rfl
            simp at more
          exact ⟨ms, List.prefix_append _ _, j, meets.under_way, rfl,
            reported.goes_on some j meets.under_way rfl⟩

/-- A journey is reported to have met its goal once for each of some of the outcomes of its checks, of
which each is earlier than all before it. So there is one report at most if the outcomes come to be
handled in order, and if the journey ends with its goal. -/
theorem goal_reports_earlier (boots : e.BootsFrom snapshot) (ms : List Move)
    (fresh : e.FreshIds snapshot (after e ms).engine.issued) (id : JourneyId) :
    let outcomes := (raise e).outcomes id (ms.map .move)
    let engine := (after e ms).engine
    (∃ times : List Instant, times.Sublist outcomes ∧ times.Pairwise (fun t u => u < t) ∧
      engine.goalsMet id = e.goalsMet id + times.length) ∧
    ((outcomes.Pairwise (· ≤ ·) ∨ ∀ prior, prior <+: ms →
        ∀ j ∈ (after e prior).engine.store.active, j.id = id → j.exitPolicy = .onGoalMet) →
      engine.goalsMet id ≤ e.goalsMet id + 1) := by
  intro outcomes engine
  obtain ⟨times, sublist, reported, again⟩ := recounts boots ms fresh id
  refine ⟨⟨times, sublist, reported.earlier, reported.count⟩, fun orderly => ?_⟩
  have single : times.length ≤ 1 := by
    rcases orderly with in_order | ends
    · rcases times with _ | ⟨t, _ | ⟨u, rest⟩⟩
      · simp
      · simp
      · have earlier : u < t := (List.pairwise_cons.mp reported.earlier).1 u (by simp)
        have later : t ≤ u := (List.pairwise_cons.mp (in_order.sublist sublist)).1 u (by simp)
        exact (Int.not_le.mpr earlier later).elim
    · by_contra more
      obtain ⟨prior, hp, j, hj, hid, policy⟩ := again (by omega)
      simp [ends prior hp j hj hid] at policy
  rw [reported.count]
  omega

/-- A journey whose user has left the members goes on. The check at the start reports after a later
one. -/
def reportsLate : List Move :=
  [.send (.start leaving "ann" none), .deliver, .host (.new afterwards "ann" .empty),
    .send (.event tap), .deliver, .work 3, .deliver, .work 1, .deliver]

theorem reports_goal_again :
    let start := inMemory .empty .epoch
    let outcomes := (raise start).outcomes ⟨0⟩ (reportsLate.map .move)
    outcomes = [afterwards, .epoch] ∧
      (∃ times : List Instant, times.Sublist outcomes ∧ times.Pairwise (fun t u => u < t) ∧
        times.length = 2) ∧
      (after start (reportsLate.take 7)).engine.goalsMet ⟨0⟩ ≤ 1 := by
  intro start outcomes
  have boots : start.BootsFrom .empty := bootsFrom_inMemory .empty .epoch
  have twice : (after start reportsLate).engine.goalsMet ⟨0⟩ = 2 := by decide +kernel
  obtain ⟨⟨times, sublist, earlier, count⟩, -⟩ := goal_reports_earlier boots reportsLate
    ⟨by decide +kernel, by decide +kernel⟩ ⟨0⟩
  refine ⟨by decide +kernel, ⟨times, sublist, earlier, ?_⟩, ?_⟩
  · have none : start.goalsMet ⟨0⟩ = 0 := rfl
    rw [none] at count
    omega
  · refine (goal_reports_earlier boots (reportsLate.take 7)
      ⟨by decide +kernel, by decide +kernel⟩ ⟨0⟩).2 (.inl ?_)
    have first : (raise start).outcomes ⟨0⟩ ((reportsLate.take 7).map .move) = [afterwards] := by
      decide +kernel
    rw [first]
    exact List.pairwise_singleton _ _

/-- One report per journey is not what a run keeps to. -/
theorem goal_reported_twice :
    ¬ ∀ (e : Engine) (snapshot : Snapshot) (ms : List Move), e.BootsFrom snapshot →
      e.FreshIds snapshot (after e ms).engine.issued →
      ∀ id, (after e ms).engine.goalsMet id ≤ e.goalsMet id + 1 := by
  intro once
  have single := once (inMemory .empty .epoch) .empty reportsLate (bootsFrom_inMemory .empty .epoch)
    ⟨by decide +kernel, by decide +kernel⟩ ⟨0⟩
  revert single
  decide +kernel

end Session

end Engagement
