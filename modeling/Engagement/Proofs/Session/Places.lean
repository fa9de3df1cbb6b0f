import Mathlib.Data.List.Infix
import Engagement.Proofs.Engine.Places
import Engagement.Proofs.Session.Findings

/-! # Journeys stay in their graphs

A campaign is installed only when its graph is closed, and whatever a node's execution comes to leads
to one of the node's successors. So as long as a campaign is not replaced, its journeys stand at
its nodes.
-/

namespace Engagement

namespace Session

open Engine

variable {s : Session} {e : Engine} {snapshot : Snapshot} {d : Campaign}

theorem accepted_raise (boots : e.BootsFrom snapshot) : (raise e).engine.Accepted := by
  rcases boots.campaigns_raise with none | ⟨profile, same⟩
  · simp [Accepted, none]
  · exact fun _ h => (admissible_install (same ▸ h)).2

/-- All campaigns installed at any time have been accepted. -/
theorem accepted (boots : e.BootsFrom snapshot) (ms : List Move) :
    (after e ms).engine.Accepted := by
  induction ms using List.reverseRecOn with
  | nil => exact accepted_raise boots
  | append_singleton ms m ih =>
    rw [after_snoc]
    rcases (boots.up ms).move_cases m with d | ⟨message, rest, -, changes, -, he, -⟩
    · exact ih.of_campaigns d.campaigns
    · rw [he]
      exact (ih.takeIn message).of_campaigns changes.campaigns_eq

/-- The step whose report is handled next has found an error, of the content that it shows, in the
words of the record. -/
def Quotes (s : Session) (r : Completion) : Prop :=
  ∃ task node, s.mailbox.head? =
      some (.report (.step task r.journeyId node (.complete r.exitReason))) ∧
    ∃ f ∈ s.engine.flights, f.task = task ∧ f.Finds (.complete r.exitReason) ∧
      f.node.action.isShowContent = true

/-- A record that was there from before, or that quotes a step of the run. -/
def Accountable (e : Engine) (ms : List Move) (r : Completion) : Prop :=
  r ∈ e.store.recovered.ledger ∨
    ∃ prior, prior ++ [.deliver] <+: ms ∧ (after e prior).Quotes r

theorem Accountable.snoc {ms : List Move} {r : Completion} (h : Accountable e ms r) (m : Move) :
    Accountable e (ms ++ [m]) r := by
  apply h.imp_right
  rintro ⟨prior, hp, quotes⟩
  exact ⟨prior, hp.trans (List.prefix_append _ _), quotes⟩

theorem Confined.drift {e e' : Engine} {known : Completion → Prop} (confined : e.Confined d known)
    (h : Drift e e') : e'.Confined d known where
  places := h.active ▸ confined.places
  steps f hf := by
    obtain ⟨g, hg, -, hj, hn⟩ := h.exists_flight hf
    exact hj ▸ hn ▸ confined.steps g hg
  ended := h.ledger ▸ confined.ended

theorem confined_raise (boots : e.BootsFrom snapshot) (sole : (raise e).engine.Sole d)
    (restored : ∀ j ∈ snapshot.journeys, j.isTerminal = false → j.campaignId = d.id →
      (d.node? j.node).isSome) : (raise e).engine.Confined d (Accountable e []) := by
  have sole : e.greeted.Sole d :=
    sole.of_campaigns (Calms.changes boots.calms_raise).campaigns_eq.symm
  refine boots.calms_raise.confined sole ?_
  obtain ⟨campaigns, loaded, hg⟩ := e.greeted_eq
  rw [hg]
  constructor
  · intro j hj
    obtain ⟨hm, alive⟩ := Store.mem_of_mem_recovered boots.held hj
    exact restored j hm alive
  · simp [boots.flights_eq]
  · exact fun r hr _ _ => .inl hr

theorem confined (boots : e.BootsFrom snapshot) (ms : List Move)
    (fresh : e.FreshIds snapshot (after e ms).engine.issued)
    (unchanged : ∀ prior, prior <+: ms →
      ∀ c, (d.id, c) ∈ (after e prior).engine.campaigns → c = d)
    (restored : ∀ j ∈ snapshot.journeys, j.isTerminal = false → j.campaignId = d.id →
      (d.node? j.node).isSome) : (after e ms).engine.Confined d (Accountable e ms) := by
  have sole : ∀ prior, prior <+: ms → (after e prior).engine.Sole d := fun prior hp =>
    sole_of_accepted (accepted boots prior) (mindful boots prior).1 (unchanged prior hp)
  clear unchanged
  induction ms using List.reverseRecOn with
  | nil => exact confined_raise boots (sole [] (List.prefix_refl _)) restored
  | append_singleton ms m ih =>
    have prior := fresh.mono (boots.evolves_append ms [m]).issued_le
    have sole' := sole _ (List.prefix_refl _)
    have before := ih prior fun _ hp => sole _ (hp.trans (List.prefix_append _ _))
    have before : (after e ms).engine.Confined d (Accountable e (ms ++ [m])) :=
      before.mono fun _ h => h.snoc m
    rw [after_snoc] at sole' ⊢
    by_cases hd : m = .deliver
    · subst hd
      rcases hm : (after e ms).mailbox with _ | ⟨message, rest⟩
      · rw [move_deliver_of_empty hm]
        exact before
      · have hears := hears boots ms prior hm
        have he : ((after e ms).move .deliver).engine = (after e ms).engine.handle message :=
          deliver_engine hm
        rw [he] at sole' ⊢
        by_cases step : ∃ task id node result, message = .report (.step task id node result)
        · obtain ⟨task, id, node, result, rfl⟩ := step
          have mail : _ ∈ (after e ms).mailbox := hm ▸ List.mem_cons_self ..
          have found := (grounded boots ms prior).reported task id node result mail
          refine confined_onStep hears.sound hears.orderly
            (sole ms (List.prefix_append _ _)) before ?_ ?_
          · intro f hf ht
            obtain ⟨hid, hn⟩ := hears.named task id node result rfl f hf ht
            exact ⟨hid, hn, found f hf ht⟩
          · rintro r f hf ht same ⟨missing, hr⟩ rfl
            obtain ⟨rfl, -⟩ := hears.named _ _ _ _ rfl f hf ht
            have finds := found f hf ht
            refine .inr ⟨ms, List.prefix_refl _, task, node, by rw [hm, same]; rfl, f, hf, ht,
              finds, ?_⟩
            exact Step.Finds.shows_of_nodeMissing (hr ▸ finds)
        · have quiet : ∀ id, message.found? id = none := by
            intro id
            rcases hf : message.found? id with _ | result
            · rfl
            · obtain ⟨task, node, rfl⟩ := Message.found?_eq_some.mp hf
              exact (step ⟨_, _, _, _, rfl⟩).elim
          have deeds := deeds_handle hears.sound (fun _ _ _ _ h => (step ⟨_, _, _, _, h⟩).elim)
            hears.not_boot
          have taken : ((after e ms).engine.takeIn message).Confined d _ :=
            before.of_subset (fun _ hj => by simpa using hj)
              (fun _ hf => ((after e ms).engine.takeIn_flights message).subset hf) (by simp)
          exact deeds.confined quiet (sole'.of_campaigns deeds.changes.campaigns_eq.symm) taken
    · exact Confined.drift before ((after e ms).move_drift hd)

/-- In an accepted campaign, the node that comes after a step is a successor of the step's node and
is found in the campaign. All installed campaigns have been accepted. As long as what is installed
under a campaign's id is that campaign, and its journeys that were loaded stood at nodes of it, all
its journeys stand at nodes of it. None of them ends because its node is missing: a record that
says so is from before, or quotes an error that was reported of content shown. -/
theorem journeys_stay_in_graph (boots : e.BootsFrom snapshot) (ms : List Move)
    (fresh : e.FreshIds snapshot (after e ms).engine.issued) :
    (∀ campaign : Campaign, campaign.validate = .ok () → ∀ node ∈ campaign.nodes,
      ∀ journey ctx result, Step.Finds node journey ctx result →
        ∀ next, result.next? = some next →
          next ∈ node.successors ∧ (campaign.node? next).isSome) ∧
    (∀ entry ∈ (after e ms).engine.campaigns, entry.2.validate = .ok ()) ∧
    ∀ d : Campaign,
      (∀ prior, prior <+: ms → ∀ c, (d.id, c) ∈ (after e prior).engine.campaigns → c = d) →
      (∀ j ∈ snapshot.journeys, j.isTerminal = false → j.campaignId = d.id →
        (d.node? j.node).isSome) →
      (∀ j ∈ (after e ms).engine.store.active, j.campaignId = d.id →
        (d.node? j.node).isSome) ∧
      ∀ r ∈ (after e ms).engine.store.ledger, r.campaignId = d.id →
        ∀ node : String, r.exitReason = .errored s!"node {node} not found in campaign {d.id}" →
          r ∈ e.store.recovered.ledger ∨
            ∃ prior, prior ++ [.deliver] <+: ms ∧ (after e prior).Quotes r := by
  refine ⟨?_, accepted boots ms, fun d unchanged restored => ?_⟩
  · exact fun _ accepted _ hn _ _ _ found _ => Campaign.leads_within accepted hn found
  · have confined := confined boots ms fresh unchanged restored
    exact ⟨confined.places, fun r hr of_d node missing => confined.ended r hr of_d ⟨node, missing⟩⟩

/-- A campaign that greets the user and then waits for up to a minute. -/
def unhurried : Campaign := { Campaign.pausing with
  id := "unhurried"
  entry := "hello"
  nodes := ⟨"hello", ["pause"], .callHost "greet" .null⟩ :: Campaign.pausing.nodes }

/-- A journey greets its user and enters the wait. -/
def goesOnToPause : List Move :=
  [.send (.start unhurried "ann" none), .deliver, .work 1, .work 1, .deliver]

theorem unhurried_unchanged (prior : List Move) (hp : prior <+: goesOnToPause) (c : Campaign)
    (h : (unhurried.id, c) ∈ (after (inMemory .empty .epoch) prior).engine.campaigns) :
    c = unhurried := by
  have installed : ∀ prior ∈ goesOnToPause.inits,
      (after (inMemory .empty .epoch) prior).engine.campaigns = [] ∨
      (after (inMemory .empty .epoch) prior).engine.campaigns = [("unhurried", unhurried)] := by
    simp only [goesOnToPause, List.inits, List.map, List.forall_mem_cons]
    refine ⟨.inl rfl, .inl rfl, ?_, ?_, ?_, ?_, by simp⟩
    all_goals exact .inr (by with_unfolding_all rfl)
  rcases installed prior ((List.mem_inits _ _).mpr hp) with he | he
  · simp [he] at h
  · rw [he] at h
    exact (Prod.mk.inj (List.mem_singleton.mp h)).2

theorem goes_on_in_graph :
    let later := (after (inMemory .empty .epoch) goesOnToPause).engine
    later.store.active.map (fun j => (j.campaignId, j.node)) = [("unhurried", "pause")] ∧
      (∀ entry ∈ later.campaigns, entry.2.validate = .ok ()) ∧
      ∀ j ∈ later.store.active, (unhurried.node? j.node).isSome := by
  intro later
  have places : later.store.active.map (fun j => (j.campaignId, j.node)) =
    [("unhurried", "pause")] := by decide +kernel
  obtain ⟨-, accepted, stay⟩ := journeys_stay_in_graph (bootsFrom_inMemory .empty .epoch)
    goesOnToPause ⟨by decide +kernel, by decide +kernel⟩
  refine ⟨places, accepted, fun j hj => ?_⟩
  refine (stay unhurried unhurried_unchanged (by simp [Holdings.empty, Snapshot.empty])).1 j hj ?_
  have hm : (j.campaignId, j.node) ∈ [("unhurried", "pause")] := places ▸ List.mem_map_of_mem hj
  exact (Prod.mk.inj (List.mem_singleton.mp hm)).1

end Session

end Engagement
