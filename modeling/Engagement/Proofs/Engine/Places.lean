import Engagement.Proofs.Campaign.Wording
import Engagement.Proofs.Engine.Attention

/-! # Where journeys stand

As long as no other campaign takes its place, the journeys of a campaign stand at its nodes and go
on to its nodes. So none of them ends because its node is missing.
-/

namespace Engagement

namespace Engine

variable {e e' : Engine} {j k : Journey} {m : Message} {l : List Admission} {d : Campaign}
  {known : Completion → Prop}

/-- Installed campaigns have been accepted. -/
def Accepted (e : Engine) : Prop := ∀ entry ∈ e.campaigns, entry.2.validate = .ok ()

theorem Accepted.takeIn (accepted : e.Accepted) (m : Message) : (e.takeIn m).Accepted :=
  fun entry h => (admissible_takeIn h).elim (accepted entry) And.right

theorem Accepted.of_campaigns (accepted : e.Accepted) (same : e'.campaigns = e.campaigns) :
    e'.Accepted := by
  unfold Accepted
  rwa [same]

/-- What is installed under the campaign's id is the campaign, whose graph is closed. -/
def Sole (e : Engine) (d : Campaign) : Prop :=
  ∀ entry ∈ e.campaigns, entry.1 = d.id ∨ entry.2.id = d.id → entry.2 = d ∧ d.Closed

theorem Sole.of_campaigns (sole : e.Sole d) (same : e'.campaigns = e.campaigns) : e'.Sole d := by
  unfold Sole
  rwa [same]

theorem sole_of_accepted (accepted : e.Accepted) (keyed : e.Keyed)
    (unchanged : ∀ c, (d.id, c) ∈ e.campaigns → c = d) : e.Sole d := by
  rintro ⟨key, c⟩ h named
  obtain rfl : key = c.id := keyed _ h
  have named : c.id = d.id := named.elim id id
  obtain rfl : c = d := unchanged c (named ▸ h)
  exact ⟨rfl, Campaign.closed_of_validate (accepted _ h)⟩

/-- A campaign that is looked up for a journey of this one is this one. -/
theorem Sole.of_get? (sole : e.Sole d) {c : Campaign} {key : String} (of_d : key = d.id)
    (h : e.campaigns.get? key = some c) : c = d ∧ d.Closed := by
  obtain ⟨⟨key', c'⟩, hm, rfl⟩ := Option.map_eq_some_iff.mp h
  have same : key' = key := by simpa using List.find?_some hm
  exact sole _ (List.mem_of_find?_eq_some hm) (.inl (same.trans of_d))

/-- The journeys of the campaign stand at its nodes, and their steps execute such. Only known ones
have ended for want of a node. -/
structure Confined (e : Engine) (d : Campaign) (known : Completion → Prop) : Prop where
  places : ∀ j ∈ e.store.active, j.campaignId = d.id → (d.node? j.node).isSome
  steps : ∀ f ∈ e.flights, f.journey.campaignId = d.id → f.node ∈ d.nodes ∧ d.Closed
  ended : ∀ r ∈ e.store.ledger, r.campaignId = d.id →
    (∃ node, r.exitReason = .nodeMissing node d.id) → known r

namespace Confined

theorem mono {known' : Completion → Prop} (confined : e.Confined d known)
    (h : ∀ r, known r → known' r) : e.Confined d known' where
  places := confined.places
  steps := confined.steps
  ended r hr of_d missing := h r (confined.ended r hr of_d missing)

theorem of_subset (confined : e.Confined d known)
    (active : ∀ j ∈ e'.store.active, j ∈ e.store.active) (flights : ∀ f ∈ e'.flights, f ∈ e.flights)
    (ledger : e'.store.ledger = e.store.ledger) : e'.Confined d known where
  places j hj := confined.places j (active j hj)
  steps f hf := confined.steps f (flights f hf)
  ended := ledger ▸ confined.ended

theorem of_puts (confined : e.Confined d known) (puts : e.store.Puts k e'.store)
    (flights : e'.flights = e.flights) (here : k.campaignId = d.id → (d.node? k.node).isSome) :
    e'.Confined d known where
  places i hi := by
    rcases mem_of_mem_upsert (puts.active ▸ hi) with rfl | hi
    · exact here
    · exact confined.places i hi
  steps := flights ▸ confined.steps
  ended := puts.ledger ▸ confined.ended

/-- A journey that ends, not for want of a node, leaves the others where they are. -/
theorem finish {reason : ExitReason} (confined : e.Confined d known) (alive : k.isTerminal = false)
    (flights : e'.flights = e.flights)
    (store_eq : e'.store = e.store ∨ ∃ fault, e.store.save k = (e'.store, .error fault))
    (present : ∀ r : Completion, r.journeyId = k.id → k.campaignId = d.id → r.exitReason = reason →
      (∃ node, reason = .nodeMissing node d.id) → known r) :
    (e'.finish k reason).Confined d known := by
  have completes := completes_finish alive reason store_eq
  constructor
  · exact fun i hi => confined.places i (mem_without.mp (completes.active ▸ hi)).1
  · rw [finish_eq _ alive]
    exact fun f hf => confined.steps f (flights ▸ (List.mem_filter.mp hf).1)
  · intro r hr of_d missing
    rcases List.mem_append.mp (completes.ledger ▸ hr) with hr | hr
    · exact confined.ended r hr of_d missing
    · obtain rfl := List.mem_singleton.mp hr
      exact present _ rfl of_d rfl missing

end Confined

/-- A journey of the campaign ends for other reasons than that its node is missing. -/
theorem Cause.present {reason : ExitReason} {node : String} (cause : e.Cause j reason)
    (confined : e.Confined d known) (sole : e.Sole d) (under_way : j ∈ e.store.active)
    (of_d : j.campaignId = d.id) : reason ≠ .nodeMissing node d.id := by
  cases cause with
  | goalMet => simp [ExitReason.nodeMissing]
  | unavailable => simp [ExitReason.nodeMissing]
  | unsaved refused => exact unsaved_ne_nodeMissing refused
  | endless => exact endless_ne_nodeMissing _
  | astray found missing =>
    obtain ⟨rfl, -⟩ := sole.of_get? of_d found
    have stands := confined.places j under_way of_d
    simp [missing] at stands

theorem Confined.finish_of_cause {reason : ExitReason} (confined : e.Confined d known)
    (sole : e.Sole d) (under_way : j ∈ e.store.active) (cause : e.Cause j reason)
    (continues : j.Continues k) (alive : k.isTerminal = false) (flights : e'.flights = e.flights)
    (store_eq : e'.store = e.store ∨ ∃ fault, e.store.save k = (e'.store, .error fault)) :
    (e'.finish k reason).Confined d known := by
  refine confined.finish alive flights store_eq fun r _ of_d _ missing => ?_
  obtain ⟨node, missing⟩ := missing
  exact (cause.present confined sole under_way (continues.campaignId.symm.trans of_d) missing).elim

theorem Calm.confined (h : Calm e e') (sole : e.Sole d) (confined : e.Confined d known) :
    e'.Confined d known := by
  have same : ∀ {e' : Engine}, e'.store = e.store → e'.flights = e.flights →
      e'.Confined d known := fun store flights =>
    confined.of_subset (fun _ hj => store ▸ hj) (fun _ hf => flights ▸ hf) (by rw [store])
  cases h with
  | @setTimer j k => exact same (setTimer_store e k) (setTimer_flights e k)
  | @launch j node under_way alive free here =>
    constructor
    · exact confined.places
    · intro f hf of_d
      rcases List.mem_append.mp hf with hf | hf
      · exact confined.steps f hf of_d
      · obtain rfl := List.mem_singleton.mp hf
        obtain ⟨c, found, here⟩ := Option.bind_eq_some_iff.mp here
        obtain ⟨rfl, closed⟩ := sole.of_get? of_d found
        exact ⟨List.mem_of_find?_eq_some here, closed⟩
    · exact confined.ended
  | @park j deadline store under_way alive saved =>
    refine confined.of_puts (k := e.parkedUntil j deadline) ?_ (setTimer_flights _ _)
      (confined.places j under_way)
    rw [setTimer_store]
    exact Store.puts_of_save saved
  | finish under_way alive continues store_eq _ cause =>
    exact confined.finish_of_cause sole under_way cause continues alive rfl store_eq
  | _ => exact same rfl rfl

theorem Calms.confined (h : Calms e e') (sole : e.Sole d) (confined : e.Confined d known) :
    e'.Confined d known := by
  induction h with
  | refl => exact confined
  | tail hs h ih => exact h.confined (sole.of_campaigns (Calms.changes hs).campaigns_eq) ih

theorem Deed.confined (h : Deed m e l e') (quiet : ∀ id, m.found? id = none) (sole : e.Sole d)
    (confined : e.Confined d known) : e'.Confined d known := by
  cases h with
  | calm h => exact h.confined sole confined
  | advance _ _ _ _ _ _ found => simp [quiet] at found
  | conclude _ _ found => simp [quiet] at found
  | @enter key user campaign origin installed =>
    have entry : campaign.id = d.id → (d.node? campaign.entry).isSome := by
      intro of_d
      obtain ⟨rfl, closed⟩ := sole _ installed (.inr of_d)
      exact closed.entry
    rcases enter_cases installed with ⟨-, reason, he⟩ | ⟨-, start, store, fault, refused, he⟩ |
      ⟨-, store, saved, start, he⟩
    · rw [he]
      exact confined.of_subset (fun _ hj => hj) (fun _ hf => hf) rfl
    · rw [he]
      refine confined.finish start.store_cases.1 rfl (.inr ⟨fault, refused⟩) ?_
      rintro r - - - ⟨node, missing⟩
      exact (unsaved_ne_nodeMissing refused missing).elim
    · rw [he]
      refine (calms_drive _ _ _).confined (sole.of_campaigns ?_) ?_ <;> rw [entered_eq]
      exact confined.of_puts (Store.puts_of_save saved) rfl entry
  | @convert j t store under_way _ _ saved =>
    exact confined.of_puts (Store.puts_of_save saved) rfl (confined.places j under_way)
  | _ => exact confined.of_subset (fun _ hj => hj) (fun _ hf => hf) rfl

theorem Deeds.confined (h : Deeds m e l e') (quiet : ∀ id, m.found? id = none) (sole : e.Sole d)
    (confined : e.Confined d known) : e'.Confined d known := by
  induction h with
  | refl => exact confined
  | tail hs h ih => exact h.confined quiet (sole.of_campaigns hs.changes.campaigns_eq) ih

/-! ## Steps -/

theorem confined_advance (sole : e.Sole d) (confined : e.Confined d known)
    (under_way : j ∈ e.store.active) (alive : j.isTerminal = false) {next : String}
    (leads : j.campaignId = d.id → (d.node? next).isSome) (kind : Analytics.Kind) :
    (e.advance j next kind).Confined d known := by
  rcases e.advance_cases alive next kind with
    ⟨k, store, reason, continues, alive', store_eq, cause, he⟩ | ⟨store, saved, he⟩
  · rw [he]
    exact confined.finish_of_cause sole under_way cause continues alive' rfl store_eq
  · rw [he]
    have moved : (e.moved store j next kind).Confined d known :=
      confined.of_puts (Store.puts_of_save saved) rfl leads
    exact (calms_drive _ _ _).confined (sole.of_campaigns rfl) moved

/-- A result that leads to a node of the campaign, if anywhere, keeps the journey at its nodes. -/
theorem confined_apply (sole : e.Sole d) (confined : e.Confined d known)
    (under_way : j ∈ e.store.active) (alive : j.isTerminal = false)
    (free : e.isFlying j.id = false) {result : StepResult}
    (leads : j.campaignId = d.id → ∀ next, result.next? = some next → (d.node? next).isSome)
    (told : j.campaignId = d.id → ∀ r : Completion, r.journeyId = j.id →
      (∃ node, r.exitReason = .nodeMissing node d.id) →
      result = .complete r.exitReason → known r) : (e.apply j result).Confined d known := by
  match result with
  | .proceed next =>
    exact confined_advance sole confined under_way alive (fun of_d => leads of_d next rfl) _
  | .skip (some next) =>
    exact confined_advance sole confined under_way alive (fun of_d => leads of_d next rfl) _
  | .skip none =>
    refine confined.finish alive rfl (.inl rfl) ?_
    rintro r - - - ⟨node, missing⟩
    cases missing
  | .suspend deadline => exact (calms_park under_way alive free deadline).confined sole confined
  | .complete reason =>
    refine confined.finish alive rfl (.inl rfl) fun r same of_d ended missing => ?_
    exact told of_d r same (ended ▸ missing) (by rw [ended])

/-- The report of a step keeps the journeys of the campaign at its nodes, if the step found what it
reports. A journey may end with a text that its step reports. -/
theorem confined_onStep (sound : e.Sound) (orderly : e.Orderly) (sole : e.Sole d)
    (confined : e.Confined d known) {task : Nat} {id : JourneyId} {node : String}
    {result : StepResult} (named : ∀ f ∈ e.flights, f.task = task →
      f.journey.id = id ∧ f.node.id = node ∧ Step.Finds f.node f.journey f.context result)
    (told : ∀ r : Completion, ∀ f ∈ e.flights, f.task = task → f.journey.id = r.journeyId →
      (∃ node, r.exitReason = .nodeMissing node d.id) →
      result = .complete r.exitReason → known r) :
    (e.onStep task id node result).Confined d known := by
  by_cases taken : (e.flight? id).any (·.task = task) = true
  · obtain ⟨f, hf, ht⟩ := (Option.any_eq_true _ _).mp taken
    have hm : f ∈ e.flights := List.mem_of_find?_eq_some hf
    have ht : f.task = task := by simpa using ht
    obtain ⟨rfl, rfl, found⟩ := named f hm ht
    obtain ⟨j, hj, of_j, he⟩ := onStep_of_flight sound orderly hm taken result
    let landed : Engine := { e with flights := e.flights.filter (·.journey.id ≠ j.id) }
    have below : landed.Confined d known :=
      confined.of_subset (fun _ hi => hi) (fun _ hg => (List.mem_filter.mp hg).1) rfl
    have sole' : landed.Sole d := sole
    have free : landed.isFlying j.id = false := by simp [landed, isFlying_eq_false]
    have applied : (landed.apply j result).Confined d known := by
      refine confined_apply sole' below hj (sound.alive j hj) free ?_ ?_
      · intro of_d next hn
        obtain ⟨placed, closed⟩ := confined.steps f hm (of_j.campaignId.trans of_d)
        exact closed.successors _ placed next (found.leadsFrom next hn)
      · exact fun _ r same => told r f hm ht (of_j.id.trans same.symm)
    have quiets := quiets_apply (e := landed) hj (sound.alive j hj) free result
    rw [he]
    split
    · refine (calms_retryPresentations _ _).confined (sole'.of_campaigns ?_) applied
      exact quiets.changes.campaigns_eq
    · exact applied
  · rw [onStep_of_stale (by simpa using taken)]
    exact confined

end Engine

end Engagement
