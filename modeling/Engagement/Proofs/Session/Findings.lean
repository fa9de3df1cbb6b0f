import Engagement.Proofs.Campaign.Graphs
import Engagement.Proofs.Engine.Bookkeeping
import Engagement.Proofs.Session.Progress

/-! # Results and what they are applied to

A result that waits to be handled was found by the step that reports it, and that step was set off
for the present stay of its journey. Whatever else reports is dropped.
-/

namespace Engagement

/-- What the step may come to. -/
def Flight.Finds (f : Flight) (result : StepResult) : Prop :=
  Step.Finds f.node f.journey f.context result

theorem Flight.Finds.plan {f g : Flight} {result : StepResult} (h : f.Finds result)
    (same : g.plan = f.plan) : g.Finds result := by
  rw [Flight.plan, Flight.plan, mk.injEq] at same
  unfold Finds
  rw [same.2.1, same.2.2.1, same.2.2.2.1]
  exact h

namespace Session

open Engine

variable {s : Session} {e : Engine} {snapshot : Snapshot} {f : Flight}

/-- The results that steps have, and those that they have reported, are what they found. -/
structure Grounded (s : Session) : Prop where
  finished : ∀ f ∈ s.engine.flights, ∀ result, f.phase = .finished result → f.Finds result
  reported : ∀ task id node result, .report (.step task id node result) ∈ s.mailbox →
    ∀ f ∈ s.engine.flights, f.task = task → f.Finds result

theorem finds_of_stage {host : Host} {result : StepResult}
    (h : (stage host f).2 = .finished result) : f.Finds result := by
  unfold stage at h
  split at h
  · split at h
    · rename_i after found hx
      obtain rfl := Phase.finished.inj h
      exact .atOnce hx
    · cases h
  · rename_i showing hp
    split at h
    · rename_i flow hn
      rcases hx : Step.closeContent host f.node f.journey flow showing with ⟨after, found⟩
      rw [hx] at h
      obtain rfl := Phase.finished.inj h
      exact .closing hn hx
    · rw [hp] at h
      cases h
  · cases h
  · rename_i hp
    rw [hp] at h
    cases h
  · rename_i hp
    rw [hp] at h
    cases h

namespace Grounded

theorem idles {s' : Session} (grounded : s.Grounded) (idles : s.Idles s') : s'.Grounded := by
  obtain ⟨go, hgo, h⟩ := idles.flights
  obtain ⟨news, hn, quiet⟩ := idles.mailbox
  have plan : ∀ f, (go f).plan = f.plan := by
    intro f
    rcases h f with he | ⟨gate, shown, -, he⟩ <;> rw [he]
    rfl
  constructor
  · rw [hgo]
    intro f' hf' result hp
    obtain ⟨f, hf, rfl⟩ := List.mem_map.mp hf'
    refine Flight.Finds.plan ?_ (plan f)
    rcases h f with he | ⟨gate, shown, -, he⟩
    · exact grounded.finished f hf result (he ▸ hp)
    · rw [he] at hp
      cases hp
  · rw [hgo, hn]
    intro task id node result hm f' hf' ht
    obtain ⟨f, hf, rfl⟩ := List.mem_map.mp hf'
    have hm := (List.mem_append.mp hm).resolve_right (quiet task id node result)
    refine (grounded.reported task id node result hm f hf ?_).plan (plan f)
    have same := congrArg Flight.task (plan f)
    exact same.symm.trans ht

theorem runFlight (grounded : s.Grounded) (orderly : s.engine.Orderly)
    (hf : f ∈ s.engine.flights) : (s.runFlight f).Grounded := by
  constructor
  · intro f' hf' result hp
    rw [runFlight_engine] at hf'
    obtain ⟨g, hg, rfl⟩ := List.mem_map.mp hf'
    refine Flight.Finds.plan ?_ (inPhase_plan _ _ g)
    unfold inPhase at hp
    split at hp
    · rename_i ht
      obtain rfl := orderly.eq_of_task hg hf ht
      exact finds_of_stage hp
    · exact grounded.finished g hg result hp
  · intro task id node result hm f' hf' ht
    rw [runFlight_engine] at hf'
    obtain ⟨g, hg, rfl⟩ := List.mem_map.mp hf'
    have same : g.task = task :=
      (congrArg Flight.task (inPhase_plan f.task (stage s.engine.host f).2 g)).symm.trans ht
    refine Flight.Finds.plan ?_ (inPhase_plan _ _ g)
    rw [runFlight_mailbox] at hm
    rcases List.mem_append.mp hm with hm | hm
    · exact grounded.reported task id node result hm g hg same
    · split at hm
      · rename_i found hp
        obtain ⟨rfl, -, -, rfl⟩ : task = f.task ∧ id = f.journey.id ∧ node = f.node.id ∧
            result = found := by simpa using hm
        obtain rfl := orderly.eq_of_task hg hf same
        exact grounded.finished g hg result hp
      · simp at hm

theorem deliver {message : Message} {rest : List Message} (grounded : s.Grounded)
    (tracked : s.Tracked) (hm : s.mailbox = message :: rest) (hears : s.engine.Hears message) :
    s.deliver.Grounded := by
  have hlast : (s.engine.takeIn message).lastTask = s.engine.lastTask := takeIn_lastTask _ _
  have kept : ∀ f ∈ (s.engine.handle message).flights, f ∈ s.engine.flights ∨
      s.engine.lastTask < f.task ∧ f.phase = .ready := by
    intro f hf
    have new := Changes.flights_new hears.changes hf
    rw [hlast] at new
    exact new.imp_left fun hf => (s.engine.takeIn_flights message).subset hf
  constructor
  · rw [deliver_engine hm]
    intro f hf result hp
    rcases kept f hf with hf | ⟨-, ready⟩
    · exact grounded.finished f hf result hp
    · rw [ready] at hp
      cases hp
  · rw [deliver_engine hm, deliver_mailbox hm]
    intro task id node result hr f hf ht
    have hr : .report (.step task id node result) ∈ s.mailbox := hm ▸ List.mem_cons_of_mem _ hr
    rcases kept f hf with hf | ⟨hlt, -⟩
    · exact grounded.reported task id node result hr f hf ht
    · have hle := (tracked.mail task id node result hr).1
      omega

end Grounded

theorem grounded_raise (boots : e.BootsFrom snapshot) : (raise e).Grounded := by
  have flights : ∀ f ∈ (raise e).engine.flights, f.phase = .ready := by
    intro f hf
    obtain ⟨campaigns, loaded, hg⟩ := e.greeted_eq
    rcases Changes.flights_new (Calms.changes boots.calms_raise) hf with hf | ⟨-, ready⟩
    · rw [hg] at hf
      simp [boots.flights_eq] at hf
    · exact ready
  constructor
  · intro f hf result hp
    rw [flights f hf] at hp
    cases hp
  · intro task id node result hm
    cases hm

theorem grounded (boots : e.BootsFrom snapshot) (ms : List Move)
    (fresh : e.FreshIds snapshot (after e ms).engine.issued) : (after e ms).Grounded := by
  induction ms using List.reverseRecOn with
  | nil => exact grounded_raise boots
  | append_singleton ms m ih =>
    have prior := fresh.mono (boots.evolves_append ms [m]).issued_le
    have tracked := tracked boots ms prior
    rw [after_snoc]
    rcases (after e ms).move_cases m with rfl | ⟨task, f, rfl, hf, he⟩ | ⟨idles, -⟩
    · rcases hm : (after e ms).mailbox with _ | ⟨message, rest⟩
      · rw [move_deliver_of_empty hm]
        exact ih prior
      · exact (ih prior).deliver tracked hm (hears boots ms prior hm)
    · exact he ▸ (ih prior).runFlight tracked.orderly (List.mem_of_find?_eq_some hf)
    · exact (ih prior).idles idles

/-! ## Bookkeeping -/

/-- Between messages only firing takes timers away, and nothing touches the counts of nodes. -/
theorem tidy_move {m : Move} (tidy : s.engine.Tidy) (hm : m ≠ .deliver) :
    (s.move m).engine.Tidy := by
  have active := (s.move_drift hm).active
  have kept : (s.move m).engine.steps = s.engine.steps ∧
      (s.move m).engine.timers ⊆ s.engine.timers := by
    cases m with
    | send c =>
      by_cases hc : c = .boot
      · exact hc ▸ ⟨rfl, List.Subset.refl _⟩
      · rw [move_send s hc, send]
        split <;> exact ⟨rfl, List.Subset.refl _⟩
    | deliver => exact (hm rfl).elim
    | work task =>
      rw [move]
      rcases s.run_cases task with ⟨f, -, hr⟩ | ⟨job, report, tasks, -, hr⟩ | hr <;> rw [hr]
      · rw [runFlight_engine]
        exact ⟨rfl, List.Subset.refl _⟩
      · exact ⟨rfl, List.Subset.refl _⟩
      · exact ⟨rfl, List.Subset.refl _⟩
    | fire timer => exact ⟨rfl, List.erase_subset⟩
    | release gate =>
      obtain ⟨host, f, -, -, he⟩ := s.release_engine gate
      rw [move, he]
      exact ⟨rfl, List.Subset.refl _⟩
    | _ => exact ⟨rfl, List.Subset.refl _⟩
  exact tidy.of_active active (fun t ht _ => kept.2 ht) (fun id hs => kept.1 ▸ hs)

theorem tidy (boots : e.BootsFrom snapshot) (ms : List Move)
    (fresh : e.FreshIds snapshot (after e ms).engine.issued) : (after e ms).engine.Tidy := by
  refine run_induction (I := fun _ s => s.engine.Tidy) boots ms fresh boots.tidy_raise
    (fun _ _ _ tidy hm => tidy_move tidy hm) (fun _ _ tidy => tidy) ?_
  intro _ message rest _ _ tidy hm hears
  rw [deliver_engine hm]
  exact hears.tidy tidy

/-- Between two messages, all that is kept by the ids of journeys is of journeys in the mirror, what
is remembered is of journeys with a step, and each step executes the node at which its journey
stands, for the journey as the mirror has it but for a conversion found since. So the report of a
step is what this very step found for the present stay of its journey, or it is dropped. A move may
let a timer fire that stays set, as one does until its report is handled. -/
theorem work_is_of_present_stay (boots : e.BootsFrom snapshot) (ms : List Move)
    (fresh : e.FreshIds snapshot (after e ms).engine.issued) :
    let engine := (after e ms).engine
    let mirrored (id : JourneyId) := ∃ j ∈ engine.store.active, j.id = id
    (engine.flights.map (·.journey.id)).Nodup ∧
    (∀ f ∈ engine.flights, ∃ j ∈ engine.store.active, f.node.id = j.node ∧
      { f.journey with convertedAt := j.convertedAt, updatedAt := j.updatedAt } = j) ∧
    (∀ id, (engine.pending.get? id).isSome →
      mirrored id ∧ ∃ f ∈ engine.flights, f.journey.id = id) ∧
    (∀ t ∈ engine.timers, t.held = true → mirrored t.journey) ∧
    (∀ id, (engine.steps.get? id).isSome → mirrored id) ∧
    ∀ task id node result,
      (after e ms).mailbox.head? = some (.report (.step task id node result)) →
      (∃ f ∈ engine.flights, f.task = task ∧ f.node.id = node ∧ f.Finds result ∧
        ∃ j ∈ engine.store.active, j.id = id ∧ f.IsOf j) ∨
      engine.handle (.report (.step task id node result)) = engine := by
  intro engine mirrored
  have tracked := tracked boots ms fresh
  have orderly : engine.Orderly := tracked.orderly
  have tidy : engine.Tidy := tidy boots ms fresh
  refine ⟨orderly.single, ?_, ?_, tidy.timers, tidy.steps, ?_⟩
  · intro f hf
    obtain ⟨j, hj, of_j⟩ := orderly.anchored f hf
    exact ⟨j, hj, of_j.node, of_j.journey⟩
  · intro id hp
    obtain ⟨f, hf, hid⟩ := isFlying_iff.mp (noted boots ms fresh id hp)
    obtain ⟨j, hj, of_j⟩ := orderly.anchored f hf
    exact ⟨⟨j, hj, of_j.id.symm.trans hid⟩, f, hf, hid⟩
  · intro task id node result waiting
    by_cases taken : (engine.flight? id).any (·.task = task) = true
    · left
      obtain ⟨f, hf, ht⟩ := (Option.any_eq_true _ _).mp taken
      have hm : f ∈ engine.flights := List.mem_of_find?_eq_some hf
      have ht : f.task = task := by simpa using ht
      have mail := List.mem_of_mem_head? waiting
      obtain ⟨-, hid, hn⟩ := (tracked.mail task id node result mail).2 f hm ht
      obtain ⟨j, hj, of_j⟩ := orderly.anchored f hm
      exact ⟨f, hm, ht, hn, (grounded boots ms fresh).reported task id node result mail f hm ht,
        j, hj, of_j.id.symm.trans hid, of_j⟩
    · exact .inr (onStep_of_stale (by simpa using taken) node result)

/-- While a journey that has to wait is about to park, its step is the one that reports. -/
theorem pausing_reports_present_stay :
    let start := inMemory .empty .epoch
    let parking := after start (taps ++ [.deliver, .work 1])
    parking.engine.flights.map (·.task) = [1] ∧
      (∃ f ∈ parking.engine.flights, f.journey.id = ⟨0⟩) ∧
      ∃ task node result, parking.mailbox.head? = some (.report (.step task ⟨0⟩ node result)) ∧
        ((∃ f ∈ parking.engine.flights, f.task = task ∧ f.node.id = node ∧ f.Finds result ∧
          ∃ j ∈ parking.engine.store.active, j.id = ⟨0⟩ ∧ f.IsOf j) ∨
        parking.engine.handle (.report (.step task ⟨0⟩ node result)) = parking.engine) := by
  intro start parking
  obtain ⟨-, -, remembered, -, -, reports⟩ := work_is_of_present_stay
    (bootsFrom_inMemory .empty .epoch) (taps ++ [.deliver, .work 1])
    ⟨by decide +kernel, by decide +kernel⟩
  have found : parking.mailbox.head?.bind (Message.found? ⟨0⟩) =
      some (.suspend (Span.after? .epoch 60)) := by decide +kernel
  obtain ⟨message, waiting, found⟩ := Option.bind_eq_some_iff.mp found
  obtain ⟨task, node, rfl⟩ := Message.found?_eq_some.mp found
  refine ⟨by decide +kernel, (remembered ⟨0⟩ (by decide +kernel)).2, task, node, _, waiting, ?_⟩
  exact reports task ⟨0⟩ node _ waiting

end Session

end Engagement
