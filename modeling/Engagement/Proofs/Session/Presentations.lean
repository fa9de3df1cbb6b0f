import Engagement.Proofs.Engine.Presentations
import Engagement.Proofs.Session.Dismissals
import Engagement.Proofs.Session.Wakes

/-! # Journeys that wait for the screen

A journey that finds the screen taken parks at its content. It is driven again when a presentation
comes to its end by the report of its own step, and after a grace period. When a presenting journey
ends otherwise nobody is driven, and the journeys that wait keep waiting for a screen that is free.
So does a journey that has not parked yet when the screen becomes free.
-/

namespace Engagement

open Engine

namespace Session

variable {e : Engine} {snapshot : Snapshot} {except : Option JourneyId}

/-- After a message that frees the screen, each journey that is parked at content that is installed
has a step under way, but for the one whose presentation has come to its end. By the time the engine
is idle it has ended or arrived anew, or its content has been asked for once more. So a journey left
at its content by an idle engine has asked for it since each such message that found it parked. -/
theorem parked_presentations_driven (boots : e.BootsFrom snapshot) (ms : List Move)
    {message : Message} (waiting : (after e ms).mailbox.head? = some message)
    (frees : (after e ms).engine.frees? message = some except) :
    let engine := (after e (ms ++ [.deliver])).engine
    ∀ j ∈ engine.store.active, some j.id ≠ except → j.status = .paused →
      engine.atContent j = true → engine.isFlying j.id = true ∧
      ∀ ms', e.FreshIds snapshot (after e (ms ++ .deliver :: ms')).engine.issued →
        (after e (ms ++ .deliver :: ms')).engine.isIdle = true →
        (after e (ms ++ .deliver :: ms')).engine.Gone j.id ∨
        engine.arrivals j.id < (after e (ms ++ .deliver :: ms')).engine.arrivals j.id ∨
        ∃ prior m later, ms' = prior ++ m :: later ∧
          (after e (ms ++ .deliver :: prior)).Executes (after e ms).engine.lastTask j m := by
  intro engine j hj others paused content
  have roused : engine.Roused (after e ms).engine.lastTask j.id := by
    have he : engine = (after e ms).engine.handle message := after_deliver waiting
    rw [he] at hj content ⊢
    exact roused_of_frees? (boots.up ms).sound frees hj others paused content
  have lingers : Lingers engine j := .of_node? (boots.up (ms ++ [.deliver])).sound hj content
  have later := (boots.evolves_append ms [.deliver]).lastTask_le
  exact ⟨roused.isFlying, fun ms' fresh idle =>
    executed_by_idle boots ms .deliver ms' fresh lingers later (.inr roused) idle⟩

/-- Two offers: the first is on screen, the second finds the screen taken and parks. -/
def offersTwice : List Move :=
  showsOffer ++ [.send (.start (.offer "b" none) "ann" none), .deliver, .work 3, .work 3, .deliver]

/-- The first offer is taken off the screen. -/
def takesOffer : List Move := offersTwice ++ [.release "gate", .work 2, .work 2]

/-- Before the second offer is asked for once more, the host takes the screen for something of its
own. -/
def triesAgain : List Move :=
  [.work 1, .deliver,
    .host { Host.showroom with presenter := { Presenter.empty with presenting := true } },
    .work 4, .work 4, .deliver]

/-- When the first offer is taken off the screen, the second is driven again, and its content is
asked for before the engine is idle. -/
theorem second_offer_driven :
    let engine := (after .showroom (takesOffer ++ [.deliver])).engine
    engine.store.active.map (·.campaignId) = ["b"] ∧
      ∀ j ∈ engine.store.active, engine.isFlying j.id = true ∧
        ∃ prior m later, triesAgain = prior ++ m :: later ∧
          (after .showroom (takesOffer ++ .deliver :: prior)).Executes
            (after .showroom takesOffer).engine.lastTask j m := by
  intro engine
  let final := (after .showroom (takesOffer ++ .deliver :: triesAgain)).engine
  have closes : (after .showroom takesOffer).mailbox.head?.map
      (after .showroom takesOffer).engine.frees? = some (some (some ⟨0⟩)) := by decide +kernel
  obtain ⟨message, waiting, frees⟩ := Option.map_eq_some_iff.mp closes
  have parked : ∀ j ∈ engine.store.active, some j.id ≠ some ⟨0⟩ ∧ j.status = .paused ∧
      engine.atContent j = true := by decide +kernel
  have lingers : ∀ j ∈ engine.store.active,
      (∃ k ∈ final.store.active, k.id = j.id) ∧ final.arrivals j.id ≤ engine.arrivals j.id := by
    decide +kernel
  have fresh : Engine.showroom.FreshIds .empty final.issued :=
    ⟨by decide +kernel, by decide +kernel⟩
  have idle : final.isIdle = true := by decide +kernel
  have driven := parked_presentations_driven bootsFrom_showroom takesOffer waiting frees
  refine ⟨by decide +kernel, fun j hj => ?_⟩
  obtain ⟨other, paused, content⟩ := parked j hj
  obtain ⟨⟨k, hk, hid⟩, hle⟩ := lingers j hj
  obtain ⟨flying, asked⟩ := driven j hj other paused content
  refine ⟨flying, ?_⟩
  rcases asked triesAgain fresh idle with gone | hlt | executes
  · exact (gone k hk hid).elim
  · exact (Nat.not_lt.mpr hle hlt).elim
  · exact executes

/-- The user turns out to be a member, so the first offer ends while it is on screen. -/
def endsOffer : List Move := offersTwice ++ [.work 1, .deliver]

/-- The second offer has found the screen taken, but reports so only after the first has come to its
end. -/
def answersLate : List Move :=
  showsOffer ++ [.send (.start (.offer "b" none) "ann" none), .deliver, .work 3, .release "gate",
    .work 2, .work 2, .work 3, .deliver, .deliver, .work 1, .deliver]

/-- Nothing is under way, nothing waits to be handled, and content may be shown on a screen that is
free; but journeys stay parked at their content, one of each of the campaigns. -/
def Strands (s : Session) (campaigns : List String) : Prop :=
  s.engine.isIdle = true ∧ s.engine.timers.length = 0 ∧ s.mailbox.length = 0 ∧
    s.engine.canPresent = true ∧ s.engine.host.presenter.presenting = false ∧
    s.engine.store.active.map (·.campaignId) = campaigns ∧
    ∀ j ∈ s.engine.store.active, j.status = .paused ∧ j.resumeAt = none ∧
      s.engine.atContent j = true

instance (s : Session) (campaigns : List String) : Decidable (s.Strands campaigns) :=
  inferInstanceAs (Decidable (_ ∧ _))

/-- The second offer is stranded when the presenting journey ends by its goal, and when the answer
that the screen is taken comes behind the report that it is free. -/
theorem second_offer_stranded :
    (after .showroom endsOffer).Strands ["b"] ∧ (after .showroom answersLate).Strands ["b"] := by
  decide +kernel

end Session

end Engagement
