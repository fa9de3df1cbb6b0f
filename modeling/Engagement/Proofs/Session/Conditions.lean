import Engagement.Proofs.Engine.Conditions
import Engagement.Proofs.Session.Checks
import Engagement.Proofs.Session.Places

/-! # Conditions in a run

Whatever is set off in a run looks only at conditions of accepted campaigns, and comes to what it
would come to if a condition that is refused, or has an operator that is not known, stopped it.
-/

namespace Engagement

namespace Session

open Engine

variable {e : Engine} {snapshot : Snapshot}

/-- What a job finds out, if it comes to no condition that is refused or has an operator that is not
known. -/
def finding? (e : Engine) (task : Task) : Option (Option Report) :=
  match task.job with
  | .goal journey now => do
    let metAt ← journey.goalMetAt? e.host now
    some (some (.goal task.id journey.id metAt))
  | .trigger campaign condition user properties origin now => do
    let holds ← condition.holds? (e.host.reader user now (some properties))
    some (some (.trigger task.id campaign user origin holds))
  | _ => some (outcome? e task)

theorem finding?_eq {task : Task} (accepted : task.job.Accepted) (e : Engine) :
    finding? e task = some (outcome? e task) := by
  unfold finding? outcome?
  cases hjob : task.job with
  | goal journey now =>
    rw [hjob] at accepted
    simp [Journey.goalMetAt?_eq accepted]
  | trigger campaign condition user properties origin now =>
    rw [hjob] at accepted
    simp [Envelope.holds?_eq accepted]
  | _ => rfl

theorem vetted_raise (boots : e.BootsFrom snapshot)
    (restored : ∀ j ∈ snapshot.journeys, j.isTerminal = false → j.GoalAccepted) :
    (raise e).engine.Vetted := by
  have accepted := accepted_raise boots
  have greeted : e.greeted.Accepted :=
    accepted.of_campaigns (Calms.changes boots.calms_raise).campaigns_eq.symm
  obtain ⟨campaigns, loaded, hg⟩ := e.greeted_eq
  have held : ∀ j ∈ e.greeted.store.active, j.GoalAccepted := by
    rw [hg]
    intro j hj
    obtain ⟨hm, alive⟩ := Store.mem_of_mem_recovered boots.held hj
    exact restored j hm alive
  have idle : e.greeted.tasks = [] := by
    rw [hg]
    exact (congrArg Engine.tasks boots.down).symm
  refine ⟨accepted, ?_, ?_, ?_⟩
  · intro k hk
    obtain ⟨i, hi, latches⟩ := boots.calms_raise.carries k hk
    exact (held i (by simpa using hi)).continues latches.toContinues
  · refine boots.calms_raise.stepsAccepted greeted ?_
    intro f hf
    rw [hg] at hf
    have hf : f ∈ e.flights := hf
    simp [boots.flights_eq] at hf
  · intro t ht
    by_cases goal : ∃ j now, t.job = .goal j now
    · obtain ⟨j, now, hjob⟩ := goal
      rcases (looks_boot boots.held).checks t ht j now hjob with ht | ⟨hj, -⟩
      · simp [idle] at ht
      · exact hjob ▸ held j hj
    · rcases boots.calms_raise.tasks_cases ht with ht | plain
      · simp [idle] at ht
      · exact Job.accepted_of_plain (fun j now h => goal ⟨j, now, h⟩) plain

/-- In a run all that is evaluated has been accepted. -/
theorem vetted (boots : e.BootsFrom snapshot)
    (restored : ∀ j ∈ snapshot.journeys, j.isTerminal = false → j.GoalAccepted)
    (ms : List Move) : (after e ms).engine.Vetted := by
  induction ms using List.reverseRecOn with
  | nil => exact vetted_raise boots restored
  | append_singleton ms m ih =>
    rw [after_snoc]
    by_cases hd : m = .deliver
    · subst hd
      rcases hm : (after e ms).mailbox with _ | ⟨message, rest⟩
      · rwa [move_deliver_of_empty hm]
      · have up := boots.up ms
        rw [move, deliver_engine hm]
        exact ih.handle up.sound (mindful boots ms).2 (up.first_ne hm)
    · have drift := (after e ms).move_drift hd
      refine ⟨ih.campaigns.of_campaigns drift.campaigns, drift.active ▸ ih.goals, ?_, ?_⟩
      · intro f hf
        obtain ⟨g, hg, -, -, hn⟩ := drift.exists_flight hf
        exact hn ▸ ih.steps g hg
      · intro t ht
        obtain ⟨t', ht', hjob⟩ := ((after e ms).move_jobs hd).1 t ht
        exact hjob ▸ ih.jobs t' ht'

/-- Validation accepts a condition exactly if its version is supported, no operator at any depth is
unknown, and no window at any depth is longer than may be configured. For an accepted campaign it
has accepted every condition that is evaluated on the campaign's behalf. So none of these is refused
or comes to an unknown operator, whatever the answers, wherever it is evaluated: when a node is
executed, when a goal is checked, and when a trigger is. In a run only accepted campaigns are
installed, and no step or job that is set off comes to such a condition, if the goals of the
journeys that were loaded have been accepted. -/
theorem no_condition_refused (boots : e.BootsFrom snapshot)
    (restored : ∀ j ∈ snapshot.journeys, j.isTerminal = false →
      ∀ goal ∈ j.goal, goal.validate = .ok ()) (ms : List Move) :
    (∀ env : Envelope, env.validate = .ok () ↔
      1 ≤ env.version ∧ env.version ≤ Envelope.supportedVersion ∧
        (∀ sub : Expr, sub.Within env.expr → sub ≠ .unsupported) ∧
        ∀ sub : Expr, sub.Within env.expr → ∀ seconds, sub.window? = some seconds →
          seconds ≤ Span.configurable) ∧
    (∀ campaign : Campaign, campaign.validate = .ok () →
      (∀ env ∈ campaign.conditions, env.validate = .ok () ∧
        ∀ r, env.evaluate? r = some (env.evaluate r)) ∧
      (∀ node ∈ campaign.nodes, ∀ host journey ctx,
        Step.execute? host node journey ctx = some (Step.execute host node journey ctx)) ∧
      ∀ goal ∈ campaign.goal, ∀ host user anchor now,
        goal.metAt? host user anchor now = some (goal.metAt host user anchor now)) ∧
    let run := (after e ms).engine
    (∀ entry ∈ run.campaigns, entry.2.validate = .ok ()) ∧
      (∀ f ∈ run.flights, ∀ host, Step.execute? host f.node f.journey f.context =
        some (Step.execute host f.node f.journey f.context)) ∧
      ∀ t ∈ run.tasks, ∀ e' : Engine, finding? e' t = some (outcome? e' t) := by
  refine ⟨fun env => ?_, fun campaign accepted => ⟨fun env mem => ?_, ?_, ?_⟩, ?_⟩
  · rw [Envelope.validate_eq_ok_iff]
    exact ⟨fun h => ⟨h.version_pos, h.version_le, h.known, h.windows⟩,
      fun ⟨pos, le, known, windows⟩ => ⟨pos, le, known, windows⟩⟩
  · have valid := Campaign.valid_of_conditions accepted mem
    exact ⟨valid, Envelope.evaluate?_eq valid⟩
  · intro node hn host journey ctx
    exact Step.execute?_eq ((Campaign.covered_of_validate accepted).nodes node hn) host journey ctx
  · intro goal given host user anchor now
    exact Goal.metAt?_eq ((Campaign.covered_of_validate accepted).goal goal given) host user anchor
      now
  · have vetted := vetted boots restored ms
    exact ⟨vetted.campaigns, fun f hf host => Step.execute?_eq (vetted.steps f hf) host _ _,
      fun t ht e' => finding?_eq (vetted.jobs t ht) e'⟩

/-- While a user's tap is checked, the check comes to no condition that is refused. -/
theorem tap_not_refused :
    let run := (after (inMemory .empty .epoch) tapsBeforeRenewal).engine
    run.tasks.map (·.id) = [2] ∧ ∀ t ∈ run.tasks, ∀ e', finding? e' t = some (outcome? e' t) := by
  refine ⟨by decide +kernel, ?_⟩
  exact (no_condition_refused (bootsFrom_inMemory .empty .epoch) (by simp [Holdings.empty, Snapshot.empty])
    tapsBeforeRenewal).2.2.2.2

end Session

end Engagement
