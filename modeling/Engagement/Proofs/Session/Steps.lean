import Engagement.Proofs.Engine.Arrivals

/-! # How a step goes

A step that acts on the outside has its result at once. One that shows content obtains at most one
outcome, and with it a result that does not make the journey wait.
-/

namespace Engagement

/-- Whether the execution of a node acts on the outside without showing content. -/
def Action.acts : Action → Bool
  | .callHost .. | .setAttribute .. | .sendEvent .. => true
  | _ => false

/-- Whether the step has not begun. -/
def Phase.isReady : Phase → Bool
  | .ready => true
  | _ => false

theorem Phase.isReady_iff {phase : Phase} : phase.isReady = true ↔ phase = .ready := by
  cases phase <;> simp [isReady]

def Effect.isOutcome : Effect → Bool
  | .presented _ => true
  | _ => false

namespace Host

variable {host : Host} {id : JourneyId}

/-- How many presentations for a journey ended with an outcome. -/
def outcomes (host : Host) (id : JourneyId) : Nat :=
  host.effects.countP fun (journey, effect) => journey = some id && effect.isOutcome

theorem outcomes_note (host : Host) (journey : Option JourneyId) (effect : Effect) :
    (host.note journey effect).outcomes id =
      host.outcomes id + if journey = some id ∧ effect.isOutcome then 1 else 0 := by
  simp [outcomes, note, List.countP_append, List.countP_cons]

theorem outcomes_of_effects {host' : Host} (h : host'.effects = host.effects) :
    host'.outcomes id = host.outcomes id := by
  unfold outcomes
  rw [h]

theorem outcomes_guarded {service : Service} {changed host' : Host}
    (h : host.guarded service (.ok changed) = .ok host') : host' = changed := by
  unfold guarded at h
  split at h
  · cases h
  · exact (Except.ok.inj h).symm

theorem outcomes_track {journey : JourneyId} {name : String} {properties : Json.Fields}
    {host' : Host} (h : host.track journey name properties = .ok host') :
    host'.outcomes id = host.outcomes id := by
  rw [outcomes_guarded h, outcomes_note]
  simp [Effect.isOutcome, outcomes]

theorem outcomes_setAttribute {key : String} {value : Json} {host' : Host}
    (h : host.setAttribute key value = .ok host') : host'.outcomes id = host.outcomes id := by
  rw [outcomes_guarded h, outcomes_note]
  simp [Effect.isOutcome, outcomes, setProperty]

end Host

namespace StepResult

@[simp] theorem proceedOrEnd_isSuspend (next : Option String) :
    (proceedOrEnd next).isSuspend = false := by cases next <;> rfl

@[simp] theorem ofFault_isSuspend (service : String) (fault : HostFault) :
    (ofFault service fault).isSuspend = false := rfl

end StepResult

namespace Step

variable (host : Host) (node : Node) (journey : Journey) {id : JourneyId}

theorem trackPurchase_outcomes (flow product : String) (transaction : Option String) :
    (trackPurchase host journey flow product transaction).outcomes id = host.outcomes id := by
  unfold trackPurchase
  dsimp only
  split
  · rename_i h
    exact Host.outcomes_track h
  · rfl

theorem conclude_outcomes (flow : String) (result : Showing) :
    (conclude host node journey flow result).1.outcomes id = host.outcomes id ∨
      (journey.id = id ∧ (conclude host node journey flow result).1.outcomes id =
        host.outcomes id + 1 ∧ (conclude host node journey flow result).2.isSuspend = false) := by
  by_cases hid : journey.id = id
  · match result with
    | .error fault =>
      left
      unfold conclude
      split <;> first | rfl | contradiction
    | .ok outcome =>
      have hn : ∀ h : Host, h.effects = host.effects →
          (h.note journey.id (.presented flow)).outcomes id = host.outcomes id + 1 := by
        intro h he
        rw [Host.outcomes_note, Host.outcomes_of_effects he, if_pos ⟨by rw [hid], rfl⟩]
      refine .inr ⟨hid, ?_⟩
      cases outcome with
      | purchased product transaction =>
        exact ⟨(trackPurchase_outcomes ..).trans (hn _ rfl), rfl⟩
      | dismissed => exact ⟨hn _ rfl, StepResult.proceedOrEnd_isSuspend _⟩
      | timedOut => exact ⟨hn _ rfl, StepResult.proceedOrEnd_isSuspend _⟩
      | _ => exact ⟨hn _ rfl, rfl⟩
  · left
    have hn : ∀ h : Host, h.effects = host.effects →
        (h.note journey.id (.presented flow)).outcomes id = host.outcomes id := by
      intro h he
      rw [Host.outcomes_note, Host.outcomes_of_effects he, if_neg fun hc => hid (by simpa using hc.1)]
      rfl
    unfold conclude
    split
    · rfl
    · rfl
    · rfl
    · split
      · exact hn _ rfl
      · exact hn _ rfl
      · exact (trackPurchase_outcomes ..).trans (hn _ rfl)
      · exact hn _ rfl
      · exact hn _ rfl

theorem showContent_outcomes (flow : String) (ctx : StepContext) :
    (showContent host node journey flow ctx).1.outcomes id = host.outcomes id ∨
      (journey.id = id ∧ (showContent host node journey flow ctx).1.outcomes id =
        host.outcomes id + 1 ∧ ∃ result, (showContent host node journey flow ctx).2 =
          .finished result ∧ result.isSuspend = false) := by
  unfold showContent
  split
  · exact .inl rfl
  · have hn : ∀ cue : Cue, ∀ presenter : Presenter,
        Host.outcomes (if cue.gate.isSome then
          { host with presenter := presenter }.note journey.id (.showing flow)
        else { host with presenter := presenter }) id = host.outcomes id := by
      intro cue presenter
      split
      · rw [Host.outcomes_note]
        simp [Effect.isOutcome, Host.outcomes]
      · rfl
    dsimp only
    split
    · exact .inl (hn _ _)
    · apply (conclude_outcomes _ node journey flow _).imp (·.trans (hn _ _))
      rintro ⟨hid, ho, hs⟩
      exact ⟨hid, by rw [ho, hn], _, rfl, hs⟩

theorem change_acts {service : String} {changed : Except HostFault Host}
    (h : ∀ host', changed = .ok host' → host'.outcomes id = host.outcomes id) :
    (change host node service changed).1.outcomes id = host.outcomes id ∧
      ∃ result, (change host node service changed).2 = .finished result ∧
        result.isSuspend = false := by
  unfold change
  split
  · exact ⟨h _ rfl, _, rfl, StepResult.proceedOrEnd_isSuspend _⟩
  · exact ⟨rfl, _, rfl, rfl⟩

variable (id) in
/-- Acting on the outside is over at once, and does not make the journey wait. -/
theorem execute_acts (ctx : StepContext) (acts : node.action.acts = true) :
    (execute host node journey ctx).1.outcomes id = host.outcomes id ∧
      ∃ result, (execute host node journey ctx).2 = .finished result ∧
        result.isSuspend = false := by
  unfold execute
  split
  case h_5 name payload _ =>
    split
    · exact ⟨rfl, _, rfl, rfl⟩
    · apply change_acts host node
      intro host' h
      rw [← Except.ok.inj h, Host.outcomes_note]
      simp [Effect.isOutcome]
  case h_6 key value _ => exact change_acts host node fun _ h => Host.outcomes_setAttribute h
  case h_7 name properties _ =>
    split
    · exact ⟨rfl, _, rfl, rfl⟩
    · exact change_acts host node fun _ h => Host.outcomes_track h
  all_goals simp_all [Action.acts]

variable (id) in
theorem execute_outcomes (ctx : StepContext) :
    (execute host node journey ctx).1.outcomes id = host.outcomes id ∨
      (journey.id = id ∧ (execute host node journey ctx).1.outcomes id = host.outcomes id + 1 ∧
        ∃ result, (execute host node journey ctx).2 = .finished result ∧
          result.isSuspend = false) := by
  by_cases acts : node.action.acts = true
  · exact .inl (execute_acts host node journey id ctx acts).1
  · unfold execute
    split
    case h_2 flow _ => exact showContent_outcomes host node journey flow ctx
    all_goals first | exact .inl rfl | simp_all [Action.acts]

end Step

namespace Session

variable (host : Host) (f : Flight) (id : JourneyId)

theorem stage_acts (ready : f.phase = .ready) (acts : f.node.action.acts = true) :
    (stage host f).1.outcomes id = host.outcomes id ∧
      ∃ result, (stage host f).2 = .finished result ∧ result.isSuspend = false := by
  have h := Step.execute_acts host f.node f.journey id f.context acts
  unfold stage
  rw [ready]
  dsimp only
  rcases hx : Step.execute host f.node f.journey f.context with ⟨after, result | ⟨gate, result⟩⟩
  · simpa [hx] using h
  · simp [hx] at h

/-- A stage that obtains an outcome ends the step, and the journey does not wait. -/
theorem stage_outcomes : (stage host f).1.outcomes id = host.outcomes id ∨
    (f.journey.id = id ∧ (stage host f).1.outcomes id = host.outcomes id + 1 ∧
      ∃ result, (stage host f).2 = .finished result ∧ result.isSuspend = false) := by
  unfold stage
  split
  · have h := Step.execute_outcomes host f.node f.journey id f.context
    rcases hx : Step.execute host f.node f.journey f.context with ⟨after, result | ⟨gate, result⟩⟩
    · simpa [hx] using h
    · simpa [hx] using h
  · split
    · apply (Step.conclude_outcomes _ f.node f.journey _ _).imp_right
      rintro ⟨hid, ho, hs⟩
      exact ⟨hid, ho, _, rfl, hs⟩
    · exact .inl rfl
  · exact .inl rfl
  · exact .inl rfl
  · exact .inl rfl

variable (s : Session) {m : Move}

/-- A move by which no step goes on, but for content that leaves the screen. -/
structure Idles (s s' : Session) : Prop where
  flights : ∃ go : Flight → Flight, s'.engine.flights = s.engine.flights.map go ∧
    ∀ f, go f = f ∨
      ∃ gate result, f.phase = .showing gate result ∧ go f = { f with phase := .closing result }
  mailbox : ∃ news, s'.mailbox = s.mailbox ++ news ∧
    ∀ task journey node result, .report (.step task journey node result) ∉ news
  effects : s'.engine.host.effects = s.engine.host.effects

theorem Idles.of_mailbox {s' : Session} (flights : s'.engine.flights = s.engine.flights)
    (effects : s'.engine.host.effects = s.engine.host.effects) (news : List Message)
    (mailbox : s'.mailbox = s.mailbox ++ news)
    (quiet : ∀ task journey node result, .report (.step task journey node result) ∉ news) :
    Idles s s' :=
  ⟨⟨id, by rw [flights, List.map_id], fun _ => .inl rfl⟩, ⟨news, mailbox, quiet⟩, effects⟩

theorem Idles.refl : Idles s s := .of_mailbox s rfl rfl [] (List.append_nil _).symm (by simp)

theorem outcome_not_step {e : Engine} {task : Task} {report : Report}
    (h : outcome? e task = some report) (id : Nat) (journey : JourneyId) (node : String)
    (result : StepResult) : .step id journey node result ≠ report := by
  rintro rfl
  unfold outcome? at h
  split at h
  · cases h
  · cases h
  · cases h
  · split at h <;> cases h

theorem release_idles (gate : String) : Idles s (s.release gate) := by
  unfold release
  dsimp only
  split
  · exact .of_mailbox s rfl rfl [] (List.append_nil _).symm (by simp)
  · refine ⟨⟨_, rfl, fun f => ?_⟩, ⟨[], (List.append_nil _).symm, by simp⟩, rfl⟩
    split
    · rename_i gate result h
      split
      · exact .inr ⟨gate, result, h, rfl⟩
      · exact .inl rfl
    · exact .inl rfl

/-- A move delivers a message, lets one step go on, or is idle. -/
theorem move_cases (m : Move) : m = .deliver ∨
    (∃ task f, m = .work task ∧ s.engine.flights.find? (·.task = task) = some f ∧
      s.move m = s.runFlight f) ∨
    Idles s (s.move m) ∧ ∀ task, m = .work task →
      s.engine.flights.find? (·.task = task) = none := by
  cases m with
  | deliver => exact .inl rfl
  | work task =>
    right
    rcases hf : s.engine.flights.find? (·.task = task) with _ | f
    · refine .inr ⟨?_, fun t ht => ?_⟩
      · rw [move]
        rcases s.run_cases task with ⟨g, hg, -⟩ | ⟨job, report, tasks, ho, hr⟩ | hr
        · rw [hf] at hg
          cases hg
        · refine .of_mailbox s (by rw [hr]; rfl) (by rw [hr]; rfl) [.report report]
            (by rw [hr]; rfl) ?_
          intro id journey node result hm
          exact outcome_not_step ho id journey node result
            (Message.report.inj (List.mem_singleton.mp hm))
        · rw [hr]
          exact .refl s
      · cases ht
        exact hf
    · exact .inl ⟨task, f, rfl, hf, by simp [move, run, hf]⟩
  | send c =>
    refine .inr (.inr ⟨?_, fun _ ht => by cases ht⟩)
    by_cases hc : c = .boot
    · exact hc ▸ .refl s
    · rw [move_send s hc, send]
      split
      · exact .of_mailbox s rfl rfl [.command c] rfl (by simp)
      · exact .refl s
  | fire timer =>
    exact .inr (.inr ⟨.of_mailbox s rfl rfl [.report (.timer timer.journey timer.node)] rfl
      (by simp), fun _ ht => by cases ht⟩)
  | release gate => exact .inr (.inr ⟨s.release_idles gate, fun _ ht => by cases ht⟩)
  | _ =>
    exact .inr (.inr ⟨.of_mailbox s rfl rfl [] (List.append_nil _).symm (by simp),
      fun _ ht => by cases ht⟩)

end Session

end Engagement
