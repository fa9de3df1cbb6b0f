import Mathlib.Data.List.Infix
import Engagement.Proofs.Engine.GoalChecks
import Engagement.Proofs.Engine.Trails
import Engagement.Proofs.Session.Places

/-! # Trails of journeys in a run

What a run reports of a journey that starts in it is a faithful trail, whichever messages come late
and whichever writes fail: first the entry, if the journey could be saved, then its way through the
graph, step by step, and at last its end if there is a record of it.
-/

namespace Engagement

namespace Engine

variable {e : Engine} {snapshot : Snapshot} {id : JourneyId} {m : Message} {a : Admission}

/-- The id of a journey that is admitted is among those given by then. -/
theorem Known.admitted_given {origin : Engine} (known : Known origin snapshot e) (sound : e.Sound)
    (hm : m ≠ .command .boot) (ha : a ∈ e.admissions m) :
    a.journey.id ∈ origin.idsUpTo (e.handle m).issued :=
  (idsUpTo_sublist_of_le known.issued_le known.ids_eq).subset
    (admitted_ids sound hm ▸ List.mem_map_of_mem ha)

end Engine

namespace Session

open Engine

variable {e : Engine} {snapshot : Snapshot} {id : JourneyId} {a : Admission} {message : Message}
  {ms prior later : List Move}

/-- An id that storage did not hold is not to be seen when the engine has come up. -/
theorem unseen_raise (boots : e.BootsFrom snapshot) (new : id ∉ snapshot.ids) :
    (raise e).engine.view id = ⟨e.events.filter (·.journey = some id), [], none⟩ := by
  obtain ⟨campaigns, loaded, hg⟩ := e.greeted_eq
  have sound : e.greeted.Sound := hg ▸ sound_loaded boots.held campaigns loaded
  have held : ∀ j ∈ snapshot.journeys, j.id ≠ id := fun j hj same =>
    new (List.mem_append_left _ (List.mem_map.mpr ⟨j, hj, same⟩))
  have unseen : e.greeted.view id = ⟨e.events.filter (·.journey = some id), [], none⟩ := by
    rw [hg]
    unfold view
    dsimp only
    congr 1
    · rw [Store.recovered_ledger boots.held, List.filter_eq_nil_iff]
      intro r hr
      rw [decide_eq_true_iff]
      rcases List.mem_append.mp hr with hr | hr
      · exact fun same => new (List.mem_append_right _ (List.mem_map.mpr ⟨r, hr, same⟩))
      · obtain ⟨j, hj, rfl⟩ := List.mem_map.mp hr
        exact held j (List.mem_filter.mp hj).1
    · rw [Option.map_eq_none_iff, get?_eq_none]
      exact fun j hj => held j (Store.mem_of_mem_recovered boots.held hj).1
  have same := (boots.calms_raise.goesOn sound id).eq_of_away (by rw [unseen])
  rw [same, unseen]

/-- No journey starts under an id that was known at some point or is not given by another. -/
theorem goesOn_after (boots : e.BootsFrom snapshot) (prior later : List Move)
    (fresh : e.FreshIds snapshot (after e (prior ++ later)).engine.issued)
    (settled : id ∈ snapshot.ids ++ e.idsUpTo (after e prior).engine.issued ∨
      id ∉ e.idsUpTo (after e (prior ++ later)).engine.issued) :
    View.GoesOn ((after e prior).engine.view id) ((after e (prior ++ later)).engine.view id) := by
  induction later using List.reverseRecOn with
  | nil => rw [List.append_nil]
  | append_singleton later m ih =>
    rw [← List.append_assoc] at fresh settled ⊢
    have le := (boots.evolves_append (prior ++ later) [m]).issued_le
    have before := fresh.mono le
    refine (ih before (settled.imp_right fun not_given given => ?_)).trans ?_
    · exact not_given ((idsUpTo_sublist le).subset given)
    rw [after_snoc] at fresh settled ⊢
    rcases (boots.up (prior ++ later)).move_cases m with d | ⟨message, rest, hm, -, rfl, he, -⟩
    · have same : ((after e (prior ++ later)).move m).engine.view id =
          (after e (prior ++ later)).engine.view id := by
        simp only [view, Store.get?, d.events, d.ledger, d.active]
      rw [same]
    · have hears := hears boots (prior ++ later) before hm
      have known := boots.known (prior ++ later) before
      rw [he] at fresh settled ⊢
      refine hears.goesOn fun a ha same => ?_
      subst same
      rcases settled with held | not_given
      · refine known.admitted_new hears.sound hears.not_boot fresh ha (mem_known_of_le ?_ held)
        exact (boots.evolves_append prior later).issued_le
      · exact not_given (known.admitted_given hears.sound hears.not_boot ha)

/-- From its start on, what is to be seen of a journey is faithful to it. -/
theorem faithful_after (boots : e.BootsFrom snapshot)
    (fresh : e.FreshIds snapshot (after e ms).engine.issued) (handled : prior ++ [.deliver] <+: ms)
    (waiting : (after e prior).mailbox.head? = some message)
    (started : a ∈ (after e prior).engine.admissions message) :
    View.Faithful (e.events.filter (·.journey = some a.journey.id)) a.journey.node a.Saved
      ((after e ms).engine.view a.journey.id) := by
  obtain ⟨later, rfl⟩ := handled
  obtain ⟨rest, hm⟩ := List.head?_eq_some_iff.mp waiting
  have le := (boots.evolves_append (prior ++ [.deliver]) later).issued_le
  have first := (boots.evolves_append prior [.deliver]).issued_le
  have fresh' := fresh.mono le
  have before := fresh'.mono first
  have hears := hears boots prior before hm
  have known := boots.known prior before
  have he := after_deliver (e := e) waiting
  rw [he] at fresh'
  have given := known.admitted_given hears.sound hears.not_boot started
  have new := known.admitted_new hears.sound hears.not_boot fresh' started
  rw [List.mem_append, not_or] at new
  have unseen : (after e prior).engine.view a.journey.id =
      ⟨e.events.filter (·.journey = some a.journey.id), [], none⟩ := by
    have goes : View.GoesOn ((after e []).engine.view a.journey.id)
        ((after e prior).engine.view a.journey.id) :=
      goesOn_after boots [] prior before (.inr new.2)
    have raised := unseen_raise boots new.1
    exact (goes.eq_of_away (congrArg View.place raised)).trans raised
  have starts := hears.starts (known.admitted_distinct hears.sound hears.not_boot fresh') started
    unseen
  rw [← he] at starts
  refine starts.goesOn (goesOn_after boots _ later fresh (.inl (List.mem_append_right _ ?_)))
  rw [he]
  exact given

open Analytics in
/-- What a run reports of a journey that starts in it, in any order of moves and whichever writes
fail, has three parts. If the journey could be saved when it was admitted, the first is its entry,
at the entry node of its campaign; otherwise it and the second are empty. On the way steps, waits
and met goals are reported; the first step is one from the entry node and each other one from the
node to which the one before it led, and while the journey is under way it stands where the last one
led. The third part is the end of the journey, once there is a record of it, with the kind and the
text of the reason on record; after it nothing is reported. -/
theorem trail_faithful (boots : e.BootsFrom snapshot)
    (fresh : e.FreshIds snapshot (after e ms).engine.issued) (handled : prior ++ [.deliver] <+: ms)
    (waiting : (after e prior).mailbox.head? = some message)
    (started : a ∈ (after e prior).engine.admissions message) :
    let engine := (after e ms).engine
    let entry := a.journey.node
    let records := engine.store.ledger.filter (·.journeyId = a.journey.id)
    (∃ key campaign, (key, campaign) ∈ (after e (prior ++ [.deliver])).engine.campaigns ∧
      a.journey.campaignId = campaign.id ∧ entry = campaign.entry) ∧
    ∃ opening way ending : List Event,
      engine.events.filter (·.journey = some a.journey.id) =
        e.events.filter (·.journey = some a.journey.id) ++ (opening ++ way ++ ending) ∧
      (a.Saved → opening.map (fun event => (event.kind, event.node)) = [(.entered, some entry)]) ∧
      (¬ a.Saved → opening = [] ∧ way = []) ∧
      (∀ event ∈ way, event.kind ∈ [.stepCompleted, .stepSkipped, .parked, .goalMet]) ∧
      (steps way).map (·.node) = (some entry :: (steps way).map (·.detail)).dropLast ∧
      (∀ j ∈ engine.store.active, j.id = a.journey.id →
        (some entry :: (steps way).map (·.detail)).getLast? = some (some j.node)) ∧
      records.length ≤ 1 ∧
      ending.map (fun event => (event.kind, event.detail)) =
        records.map fun r => (.ofStatus r.exitReason.status, some r.exitReason.label) := by
  intro engine entry records
  constructor
  · obtain ⟨rest, hm⟩ := List.head?_eq_some_iff.mp waiting
    obtain ⟨later, rfl⟩ := handled
    have before := fresh.mono ((boots.evolves_append prior [.deliver]).issued_le.trans
      (boots.evolves_append (prior ++ [.deliver]) later).issued_le)
    rw [after_deliver waiting]
    exact (hears boots prior before hm).node_eq started
  · obtain ⟨opening, way, ending, seen, opens, unsaved, kinds, chains, leads, once, ends⟩ :=
      (faithful_after boots fresh handled waiting started).parts
    refine ⟨opening, way, ending, seen, opens, unsaved, kinds, chains, ?_, once, ends⟩
    intro j hj same
    have place : (engine.view a.journey.id).place = some j.node := by
      rw [← same, view_of_under_way (boots.up ms).sound hj]
    exact leads _ place

open Analytics in
theorem pausing_leaves_trail :
    let start := inMemory .empty .epoch
    let entering := Message.command (.start unhurried "ann" none)
    ∃ a ∈ (after start (goesOnToPause.take 1)).engine.admissions entering, a.Saved ∧
      ∃ opening way : List Event,
        (after start goesOnToPause).engine.events.filter (·.journey = some a.journey.id) =
          opening ++ way ∧
        opening.map (fun event => (event.kind, event.node)) = [(.entered, some "hello")] ∧
        (steps way).map (·.node) = (some "hello" :: (steps way).map (·.detail)).dropLast ∧
        (some "hello" :: (steps way).map (·.detail)).getLast? = some (some "pause") := by
  intro start entering
  let before := (after start (goesOnToPause.take 1)).engine
  let a : Admission := ⟨before.newcomer unhurried "ann" none, before.store⟩
  have ha : a ∈ before.admissions entering := by
    have only : before.admissions entering = [a] := by with_unfolding_all rfl
    rw [only]
    exact List.mem_singleton_self a
  have saved : a.Saved := by with_unfolding_all rfl
  have fresh : start.FreshIds ⟨[], []⟩ (after start goesOnToPause).engine.issued :=
    ⟨by decide +kernel, by decide +kernel⟩
  have handled : goesOnToPause.take 1 ++ [.deliver] <+: goesOnToPause :=
    ⟨goesOnToPause.drop 2, rfl⟩
  have waiting : (after start (goesOnToPause.take 1)).mailbox.head? = some entering := by
    with_unfolding_all rfl
  obtain ⟨-, opening, way, ending, seen, opens, -, -, chains, stands, -, ends⟩ :=
    trail_faithful (bootsFrom_inMemory .empty .epoch) fresh handled waiting ha
  have unrecorded : (after start goesOnToPause).engine.store.ledger = [] :=
    List.length_eq_zero_iff.mp (by decide +kernel)
  have places : (after start goesOnToPause).engine.store.active.map (fun j => (j.id, j.node)) =
    [(a.journey.id, "pause")] := by decide +kernel
  refine ⟨a, ha, saved, opening, way, ?_, opens saved, chains, ?_⟩
  · rw [unrecorded, List.filter_nil, List.map_nil, List.map_eq_nil_iff] at ends
    rw [seen, ends, List.append_nil]
    rfl
  · obtain ⟨j, hj, he⟩ := List.mem_map.mp (places ▸ List.mem_singleton_self (a.journey.id, "pause"))
    obtain ⟨same, here⟩ := Prod.mk.inj he
    exact here ▸ stands j hj same

end Session

end Engagement
