import Engagement.Proofs.Engine.Dismissals
import Engagement.Proofs.Session.Entries

/-! # Content of journeys that have ended

Content is dismissed when the journey that shows it ends, as long as its campaign is installed. Who
shows the content is not recorded: it is guessed from the step under way and from the node of the
journey in the campaigns installed. So it stays when a profile withdraws the campaign, and it is
dismissed when another journey ends that has found the screen taken.
-/

namespace Engagement

open Engine

/-- Whether the step has content on screen. -/
def Phase.shows : Phase → Bool
  | .showing .. | .closing _ => true
  | _ => false

/-- A campaign of one node, which shows a flow of its own name, perhaps to users who are no members
yet. -/
def Campaign.offer (id : String) (goal : Option Goal) : Campaign where
  id := id
  name := id
  version := 1
  trigger := .event "opened" none
  entry := "show"
  nodes := [⟨"show", [], .showContent id⟩]
  goal := goal
  exitPolicy := .onGoalMet
  anchor := .journeyStart
  reentry := .once

/-- The user becomes a member. -/
def Goal.membership : Goal := ⟨.segmentEnter, none, some "members", none, none⟩

/-- The user is a member, and the first flow named `a` stays on screen until a gate is released. -/
def Host.showroom : Host :=
  { Host.new .epoch "ann" ⟨[], ["members"], [], []⟩ with
    presenter := { Presenter.empty with cues := [⟨"a", .ok .dismissed, some "gate"⟩] } }

def Engine.showroom : Engine :=
  .new .default .showroom (.memory .empty []) fun n => ⟨BitVec.ofNat 128 n⟩

theorem Engine.bootsFrom_showroom : showroom.BootsFrom .empty := bootsFrom_new _ _ _ rfl

namespace Session

variable {e : Engine} {snapshot : Snapshot}

/-- When a message is handled, content is dismissed at most once for each journey that ends; and it
is dismissed if a journey ends whose step has content on screen and whose node, in the campaigns
installed then, shows content. -/
theorem dismisses_content_of_ended (boots : e.BootsFrom snapshot) (ms : List Move)
    (fresh : e.FreshIds snapshot (after e (ms ++ [.deliver])).engine.issued)
    {message : Message} (waiting : (after e ms).mailbox.head? = some message) :
    let before := (after e ms).engine
    let later := (after e (ms ++ [.deliver])).engine
    before.dismissals ≤ later.dismissals ∧
    later.dismissals - before.dismissals ≤
      later.store.ledger.length - before.store.ledger.length ∧
    ∀ f ∈ before.flights, f.phase.shows = true → ∀ j ∈ before.store.active,
      j.id = f.journey.id → (before.takeIn message).atContent j = true → later.Gone j.id →
      before.dismissals < later.dismissals := by
  intro before later
  have hl : later = before.handle message := after_deliver waiting
  have changes := boots.handles_fresh ms fresh waiting
  rw [← hl] at changes
  have host : (before.takeIn message).dismissals = before.dismissals :=
    congrArg (fun host : Host => host.presenter.dismissals) (takeIn_host before message)
  obtain ⟨grows, ended⟩ := Changes.dismisses (FreshChanges.changes changes)
  have grows : before.dismissals ≤ later.dismissals := host ▸ grows
  have ended : later.dismissals + before.store.ledger.length ≤
      before.dismissals + later.store.ledger.length := by rwa [host, takeIn_store] at ended
  refine ⟨grows, by omega, ?_⟩
  intro f hf shows j hj hid content gone
  have tracked : (after e ms).Tracked :=
    tracked boots ms (fresh.mono (boots.evolves_append ms [.deliver]).issued_le)
  have orderly : before.Orderly := tracked.orderly
  -- The report of a step that has content on screen has not been posted yet.
  have flying : f ∈ (before.takeIn message).flights := by
    by_contra hn
    obtain ⟨task, node, result, rfl, ht⟩ := landed_of_not_mem hf hn
    have htask : f.task = task := by simpa [orderly.flight?_eq hf] using ht
    have posted : .report (.step task f.journey.id node result) ∈ (after e ms).mailbox :=
      List.mem_of_mem_head? waiting
    have reported := ((tracked.mail _ _ _ _ posted).2 f hf htask).1
    rw [reported] at shows
    cases shows
  have occupies : (before.takeIn message).Occupies f := ⟨flying, j, by simpa using hj, hid, content⟩
  rcases occupies.changes changes with ⟨-, k, hk, hkid, -⟩ | hlt
  · exact (gone k hk (hkid.trans hid.symm)).elim
  · exact host ▸ hlt

/-- Content is shown for a journey that is to end once its user is a member. -/
def showsOffer : List Move :=
  [.send (.start (.offer "a" (some .membership)) "ann" none), .deliver, .work 2]

/-- The user turns out to be a member: the journey ends, and its content is dismissed. -/
theorem member_dismissed :
    let before := (after .showroom (showsOffer ++ [.work 1])).engine
    let later := (after .showroom (showsOffer ++ [.work 1] ++ [.deliver])).engine
    before.flights.map (·.phase.shows) = [true] ∧ later.store.active.length = 0 ∧
      before.dismissals < later.dismissals := by
  intro before later
  have ended : later.store.active.length = 0 := by decide +kernel
  have shown : ∀ f ∈ before.flights, f.phase.shows = true ∧ ∀ j ∈ before.store.active,
      j.id = f.journey.id := by decide +kernel
  have found : (after .showroom (showsOffer ++ [.work 1])).mailbox.head?.any (fun message =>
      before.store.active.all fun j => (before.takeIn message).atContent j) = true := by
    decide +kernel
  obtain ⟨message, waiting, content⟩ := (Option.any_eq_true _ _).mp found
  obtain ⟨f, hf⟩ := List.exists_mem_of_length_pos (l := before.flights) (by decide +kernel)
  obtain ⟨j, hj⟩ := List.exists_mem_of_length_pos (l := before.store.active) (by decide +kernel)
  obtain ⟨shows, its⟩ := shown f hf
  have fresh : Engine.showroom.FreshIds .empty later.issued :=
    ⟨by decide +kernel, by decide +kernel⟩
  have gone : later.Gone j.id := by
    intro k hk
    rw [List.length_eq_zero_iff.mp ended] at hk
    cases hk
  have at_content := List.all_eq_true.mp content j hj
  obtain ⟨-, -, dismissed⟩ :=
    dismisses_content_of_ended bootsFrom_showroom (showsOffer ++ [.work 1]) fresh waiting
  exact ⟨by decide +kernel, ended, dismissed f hf shows j hj (its j hj) at_content gone⟩

/-- A profile withdraws the campaign whose content is on screen; the content stays. And content is
dismissed that another journey shows, when one ends whose step has found the screen taken. -/
theorem dismissals_mismatched :
    (let withdrawn := showsOffer ++ [.send .refreshProfile, .deliver, .work 3]
     (after .showroom withdrawn).engine.flights.map (·.phase.shows) = [true] ∧
     (after .showroom (withdrawn ++ [.deliver])).engine.store.active.length = 0 ∧
     (after .showroom (withdrawn ++ [.deliver])).engine.dismissals = 0) ∧
    (let busy : List Move := [.send (.start (.offer "a" none) "ann" none), .deliver, .work 1,
      .send (.start (.offer "b" (some .membership)) "ann" none), .deliver, .work 3, .work 2]
     let before := (after .showroom busy).engine
     let later := (after .showroom (busy ++ [.deliver])).engine
     before.flights.map (fun f => (f.journey.campaignId, f.phase.shows)) =
        [("a", true), ("b", false)] ∧
     later.flights.map (fun f => (f.journey.campaignId, f.phase.shows)) = [("a", true)] ∧
     before.dismissals = 0 ∧ later.dismissals = 1) := by
  decide +kernel

end Session

end Engagement
