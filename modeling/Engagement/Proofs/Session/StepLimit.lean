import Mathlib.Data.List.Infix
import Engagement.Proofs.Engine.StepLimit
import Engagement.Proofs.Session.Progress

/-! # No journey runs on and on

Between two pauses of a journey as many of its nodes are executed as the settings allow, and one
more. Whatever else reaches the engine meanwhile, the count keeps up with the executions: a step that
is to begin has all of them behind it, and one that has begun is the last of them.
-/

namespace Engagement

open Engine

namespace Session

variable {s : Session} {e : Engine} {snapshot : Snapshot} {id : JourneyId} {m : Move} {n : Nat}

/-- Whether a move executes the node of a journey's step. -/
def executes (s : Session) (id : JourneyId) : Move → Bool
  | .work task => (s.engine.flights.find? (·.task = task)).any fun f =>
    f.journey.id = id && f.phase.isReady
  | _ => false

/-- How many of some moves execute a node of a journey. -/
def executions (s : Session) (id : JourneyId) : List Move → Nat
  | [] => 0
  | m :: ms => (s.executes id m).toNat + (s.move m).executions id ms

/-- Whether a journey comes to wait with a move. -/
def parks (s : Session) (id : JourneyId) : Move → Bool
  | .deliver => s.mailbox.head?.any (s.engine.suspends id)
  | _ => false

theorem executions_snoc (s : Session) (id : JourneyId) (ms : List Move) (m : Move) :
    s.executions id (ms ++ [m]) = s.executions id ms + ((s.moves ms).executes id m).toNat := by
  induction ms generalizing s with
  | nil => simp [executions]
  | cons first ms ih => simp [executions, ih, Nat.add_assoc]

theorem exists_of_executes (h : s.executes id m = true) :
    ∃ f ∈ s.engine.flights, f.journey.id = id ∧ f.phase.isReady = true := by
  cases m with
  | work task =>
    obtain ⟨f, hf, h⟩ := (Option.any_eq_true _ _).mp h
    rw [Bool.and_eq_true, decide_eq_true_iff] at h
    exact ⟨f, List.mem_of_find?_eq_some hf, h⟩
  | _ => cases h

theorem stage_begun (host : Host) (f : Flight) : (stage host f).2.isReady = false := by
  unfold stage
  split
  · split <;> rfl
  · rename_i closing
    split
    · rfl
    · simp [closing, Phase.isReady]
  · rfl
  · rename_i showing
    simp [showing, Phase.isReady]
  · rename_i reported
    simp [reported, Phase.isReady]

/-- A step that is still to begin after a move was so before, and the move has not executed it. -/
theorem ready_before_move (orderly : s.engine.Orderly) (hm : m ≠ .deliver) {f' : Flight}
    (hf' : f' ∈ (s.move m).engine.flights) (ready : f'.phase.isReady = true) :
    ∃ f ∈ s.engine.flights, f.journey.id = f'.journey.id ∧ f.phase.isReady = true ∧
      s.executes f'.journey.id m = false := by
  rcases s.move_cases m with hd | ⟨task, f, rfl, hf, he⟩ | ⟨idles, hnone⟩
  · exact (hm hd).elim
  · have hfm : f ∈ s.engine.flights := List.mem_of_find?_eq_some hf
    rw [he, runFlight_engine] at hf'
    obtain ⟨g, hg, rfl⟩ := List.mem_map.mp hf'
    unfold inPhase at ready ⊢
    split at ready
    · rw [stage_begun] at ready
      cases ready
    · rename_i other
      rw [if_neg other]
      have hid : f.journey.id ≠ g.journey.id := fun h =>
        other (congrArg Flight.task (orderly.eq_of_journey hfm hg h)).symm
      exact ⟨g, hg, rfl, ready, by simp [executes, hf, hid]⟩
  · obtain ⟨go, hgo, h⟩ := idles.flights
    obtain ⟨f, hf, rfl⟩ := List.mem_map.mp (hgo ▸ hf')
    have quiet : ∀ id, s.executes id m = false := by
      intro id
      cases m with
      | work task => simp [executes, hnone task rfl]
      | _ => rfl
    rcases h f with same | ⟨gate, result, -, closing⟩
    · rw [same] at ready ⊢
      exact ⟨f, hf, rfl, ready, quiet _⟩
    · rw [closing] at ready
      cases ready

theorem limited (boots : e.BootsFrom snapshot) (ms : List Move)
    (fresh : e.FreshIds snapshot (after e ms).engine.issued) : (after e ms).engine.Limited := by
  refine run_induction (I := fun _ s => s.engine.Limited) boots ms fresh ?_ ?_
    (fun _ _ limited => limited) ?_
  · refine Limited.calms ?_ boots.calms_raise
    obtain ⟨campaigns, loaded, hg⟩ := e.greeted_eq
    have steps : e.steps = [] := (congrArg Engine.steps boots.down).symm
    intro id
    simp [hg, progress, steps, Table.get?]
  · intro ms m _ limited hm
    have d := (after e ms).move_drift hm
    exact limited.of_le d.settings fun _ => Nat.le_of_eq (progress_of_steps d.steps)
  · intro _ message rest _ _ limited hm hears
    rw [deliver_engine hm]
    exact hears.limited limited

/-- The count of a journey keeps up with `n` executions of its nodes. -/
structure Paced (s : Session) (id : JourneyId) (n : Nat) : Prop where
  within : n ≤ s.engine.settings.maxSteps + 1
  counted : ∀ f ∈ s.engine.flights, f.journey.id = id →
    n ≤ s.engine.progress id + (!f.phase.isReady).toNat
  present : 0 < n → s.engine.Gone id ∨ s.engine.isFlying id = true

namespace Paced

theorem zero (s : Session) (id : JourneyId) : s.Paced id 0 :=
  ⟨Nat.zero_le _, fun _ _ _ => Nat.zero_le _, fun h => (Nat.lt_irrefl 0 h).elim⟩

/-- A journey that has left has no step. -/
theorem of_gone (orderly : s.engine.Orderly) (gone : s.engine.Gone id)
    (within : n ≤ s.engine.settings.maxSteps + 1) : s.Paced id n := by
  refine ⟨within, fun f hf hid => ?_, fun _ => .inl gone⟩
  obtain ⟨j, hj, of_j⟩ := orderly.anchored f hf
  exact (gone j hj (of_j.id.symm.trans hid)).elim

theorem of_flight (orderly : s.engine.Orderly) {f : Flight} (hf : f ∈ s.engine.flights)
    (hid : f.journey.id = id) (counted : n ≤ s.engine.progress id + (!f.phase.isReady).toNat)
    (within : n ≤ s.engine.settings.maxSteps + 1) : s.Paced id n := by
  refine ⟨within, fun g hg hgid => ?_, fun _ => .inr (isFlying_iff.mpr ⟨f, hf, hid⟩)⟩
  rwa [orderly.eq_of_journey hg hf (hgid.trans hid.symm)]

theorem drift (paced : s.Paced id n) (orderly : s.engine.Orderly) (limited : s.engine.Limited)
    (hm : m ≠ .deliver) : (s.move m).Paced id (n + (s.executes id m).toNat) := by
  have d := s.move_drift hm
  have count : (s.move m).engine.progress id = s.engine.progress id := progress_of_steps d.steps
  refine ⟨?_, fun f' hf' hid => ?_, fun some_time => ?_⟩
  · rw [d.settings]
    by_cases executed : s.executes id m = true
    · obtain ⟨f, hf, hid, ready⟩ := exists_of_executes executed
      have behind := paced.counted f hf hid
      have limit := limited id
      simp only [executed, ready, Bool.not_true, Bool.toNat_false, Bool.toNat_true] at behind ⊢
      omega
    · simpa [executed] using paced.within
  · rw [count]
    rcases begun : f'.phase.isReady with _ | _
    · by_cases executed : s.executes id m = true
      · obtain ⟨f, hf, hid, ready⟩ := exists_of_executes executed
        have behind := paced.counted f hf hid
        simpa [executed, ready] using behind
      · obtain ⟨g, hg, -, hj, -⟩ := d.exists_flight hf'
        have behind := paced.counted g hg (hj ▸ hid)
        have le := Bool.toNat_le (!g.phase.isReady)
        simp only [executed, Bool.not_false, Bool.toNat_false, Bool.toNat_true]
        omega
    · obtain ⟨f, hf, same, ready, idle⟩ := ready_before_move orderly hm hf' begun
      have behind := paced.counted f hf (same.trans hid)
      simpa [hid ▸ idle, ready] using behind
  · rw [d.isFlying_eq id]
    have gone : s.engine.Gone id → (s.move m).engine.Gone id := fun gone j hj =>
      gone j (d.active ▸ hj)
    by_cases executed : s.executes id m = true
    · obtain ⟨f, hf, hid, -⟩ := exists_of_executes executed
      exact .inr (isFlying_iff.mpr ⟨f, hf, hid⟩)
    · exact (paced.present (by simpa [executed] using some_time)).imp_left gone

theorem deliver {message : Message} {rest : List Message} (paced : s.Paced id n)
    (tracked : s.Tracked) (orderly : s.deliver.engine.Orderly)
    (hm : s.mailbox = message :: rest) (hears : s.engine.Hears message)
    (others : 0 < n → ∀ a ∈ s.engine.admissions message, a.journey.id ≠ id)
    (goes_on : s.parks id .deliver = false) : s.deliver.Paced id n := by
  rcases Nat.eq_zero_or_pos n with rfl | some_time
  · exact zero _ id
  have others := others some_time
  have goes_on : s.engine.suspends id message = false := by simpa [parks, hm] using goes_on
  have traces := traces_handle hears.sound hears.not_boot
  have within : n ≤ s.deliver.engine.settings.maxSteps + 1 := by
    rw [deliver_engine hm, traces.changes.settings_eq, takeIn_settings]
    exact paced.within
  rcases paced.present some_time with gone | flying
  · refine .of_gone orderly ?_ within
    rw [deliver_engine hm]
    exact traces.gone others (by simpa [Gone] using gone)
  · obtain ⟨f, hf, rfl⟩ := isFlying_iff.mp flying
    have counted := paced.counted f hf rfl
    have he := deliver_engine hm
    rcases hears.paces hf others goes_on with gone | ⟨stays, same⟩ | ⟨⟨node, result, rfl⟩, goes⟩
    · exact .of_gone orderly (he ▸ gone) within
    · exact .of_flight orderly (he ▸ stays) rfl (by rw [he, same]; exact counted) within
    · have reported : f.phase = .reported :=
        ((tracked.mail f.task f.journey.id node result (by simp [hm])).2 f hf rfl).1
      rcases goes with gone | ⟨g, hg, hid, ready, next⟩
      · exact .of_gone orderly (he ▸ gone) within
      · refine .of_flight orderly (he ▸ hg) hid ?_ within
        have le := Bool.toNat_le (!f.phase.isReady)
        rw [he, next]
        omega

end Paced

/-- While a journey does not come to wait, its count keeps up with the executions of its nodes. -/
theorem paced (boots : e.BootsFrom snapshot) (id : JourneyId) (ms ms' : List Move)
    (fresh : e.FreshIds snapshot (after e (ms ++ ms')).engine.issued)
    (on : ∀ prior m, prior ++ [m] <+: ms' → (after e (ms ++ prior)).parks id m = false) :
    (after e (ms ++ ms')).Paced id ((after e ms).executions id ms') ∧
      (0 < (after e ms).executions id ms' →
        id ∈ snapshot.ids ++ e.idsUpTo (after e (ms ++ ms')).engine.issued) := by
  induction ms' using List.reverseRecOn with
  | nil => exact ⟨.zero _ id, fun h => (Nat.lt_irrefl 0 h).elim⟩
  | append_singleton ms' m ih =>
    have le := (boots.evolves_append (ms ++ ms') [m]).issued_le
    rw [← List.append_assoc] at fresh ⊢
    have prior := fresh.mono le
    obtain ⟨paced, given⟩ := ih prior fun prior m h => on prior m (h.trans (List.prefix_append _ _))
    have goes_on := on ms' m (List.prefix_refl _)
    have tracked := tracked boots (ms ++ ms') prior
    rw [executions_snoc, ← after_append]
    by_cases hd : m = .deliver
    · subst hd
      have idle : ((after e (ms ++ ms')).executes id .deliver).toNat = 0 := rfl
      rw [idle, Nat.add_zero]
      refine ⟨?_, fun some_time => mem_known_of_le le (given some_time)⟩
      rcases hm : (after e (ms ++ ms')).mailbox with _ | ⟨message, rest⟩
      · rw [after_snoc, move_deliver_of_empty hm]
        exact paced
      · have hears := hears boots (ms ++ ms') prior hm
        have orderly := boots.orderly _ fresh
        rw [after_snoc] at fresh orderly ⊢
        refine paced.deliver tracked orderly hm hears (fun some_time a ha same => ?_) goes_on
        have new := (boots.known _ prior).admitted_new hears.sound hears.not_boot
          (deliver_engine hm ▸ fresh) ha
        exact new (same ▸ given some_time)
    · rw [after_snoc] at le ⊢
      refine ⟨paced.drift tracked.orderly (limited boots _ prior) hd, fun _ => ?_⟩
      by_cases executed : (after e (ms ++ ms')).executes id m = true
      · obtain ⟨f, hf, rfl, -⟩ := exists_of_executes executed
        obtain ⟨j, hj, of_j⟩ := tracked.orderly.anchored f hf
        exact mem_known_of_le le (of_j.id ▸ (boots.known _ prior).within.active j hj)
      · exact mem_known_of_le le (given (by simp_all))

/-- As long as a journey does not come to wait, at most one more of its nodes is executed than the
settings allow. When so many have been and its step asks to go on once more, the journey ends in
error instead. -/
theorem executions_limited (boots : e.BootsFrom snapshot) (id : JourneyId) (ms ms' : List Move)
    (fresh : e.FreshIds snapshot (after e (ms ++ ms')).engine.issued)
    (on : ∀ prior m, prior ++ [m] <+: ms' → (after e (ms ++ prior)).parks id m = false) :
    let s := after e (ms ++ ms')
    let engine := (after e (ms ++ ms' ++ [.deliver])).engine
    (after e ms).executions id ms' ≤ e.settings.maxSteps + 1 ∧
    ((after e ms).executions id ms' = e.settings.maxSteps + 1 → ∀ task node result next,
      s.mailbox.head? = some (.report (.step task id node result)) →
      (s.engine.flight? id).any (·.task = task) = true → result.next? = some next →
        engine.Gone id ∧ ∃ j ∈ s.engine.store.active, j.id = id ∧
          .ofJourney (j.ended (.endless e.settings.maxSteps) s.engine.now) ∈
            engine.store.ledger) := by
  intro s engine
  have settings : s.engine.settings = e.settings := by
    obtain ⟨campaigns, installed, evolves⟩ := boots.evolves (ms ++ ms')
    exact evolves.settings_eq
  obtain ⟨paced, -⟩ := paced boots id ms ms' fresh on
  refine ⟨settings ▸ paced.within, fun all task node result next waiting taken leads => ?_⟩
  obtain ⟨rest, hm⟩ := List.head?_eq_some_iff.mp waiting
  have hears := hears boots (ms ++ ms') fresh hm
  have limit : s.engine.settings.maxSteps ≤ s.engine.progress id := by
    obtain ⟨f, hf, -⟩ := (Option.any_eq_true _ _).mp taken
    have counted : _ ≤ s.engine.progress id + _ := paced.counted f (List.mem_of_find?_eq_some hf)
      (by simpa using List.find?_some hf)
    have le := Bool.toNat_le (!f.phase.isReady)
    rw [all, ← settings] at counted
    omega
  have ends := hears.ends_at_limit taken leads limit
  rw [← settings]
  simpa only [engine, after_deliver waiting] using ends

/-- A campaign that greets the user again and again. -/
def insistent : Campaign := { Campaign.greeting .once with
  nodes := [⟨"hello", ["hello"], .callHost "greet" .null⟩] }

/-- An engine that lets journeys go on for one node. -/
def brief : Engine :=
  .new { EngineSettings.default with maxSteps := 1 } (.new .epoch "ann" ⟨[], [], [], []⟩)
    (.memory .empty []) fun n => ⟨BitVec.ofNat 128 n⟩

/-- The user is greeted, then what is due is taken up, and the user is greeted again. -/
def greetsOn : List Move :=
  [.send (.start insistent "ann" none), .deliver, .work 1, .send .resumeDue, .work 1, .deliver,
    .deliver, .work 2, .work 2]

/-- A third greeting does not follow. -/
theorem greeted_at_most_twice :
    (after brief []).executions ⟨0⟩ greetsOn = 2 ∧
      (after brief (greetsOn ++ [.deliver])).engine.Gone ⟨0⟩ ∧
      ∃ j ∈ (after brief greetsOn).engine.store.active, j.id = ⟨0⟩ ∧
        .ofJourney (j.ended (.endless 1) (after brief greetsOn).engine.now) ∈
          (after brief (greetsOn ++ [.deliver])).engine.store.ledger := by
  have boots : brief.BootsFrom .empty := bootsFrom_new _ _ _ rfl
  have on : ∀ prior ∈ greetsOn.inits, ∀ m ∈ greetsOn,
      (after brief prior).parks ⟨0⟩ m = false := by decide +kernel
  have twice : (after brief []).executions ⟨0⟩ greetsOn = 2 := by decide +kernel
  refine ⟨twice, ?_⟩
  obtain ⟨-, ends⟩ := executions_limited boots ⟨0⟩ [] greetsOn
    ⟨by decide +kernel, by decide +kernel⟩ fun prior m h => on prior
      ((List.mem_inits _ _).mpr ((List.prefix_append _ _).trans h)) m
      (h.subset (List.mem_append_right _ (List.mem_singleton_self _)))
  exact ends twice 2 "hello" (.proceed "hello") "hello" (by with_unfolding_all rfl)
    (by decide +kernel) rfl

end Session

end Engagement
