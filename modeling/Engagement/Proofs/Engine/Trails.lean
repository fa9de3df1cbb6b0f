import Engagement.Proofs.Engine.GoalReports
import Engagement.Proofs.Journey.Trails

/-! # What is reported of journeys

Whatever is done on a message, what is to be seen of a journey that does not start then goes on as
that of a journey under way may. A journey that starts is reported to have entered once it is saved;
otherwise its end is all that is reported of it.
-/

namespace Engagement

/-- Whether the journey that is admitted can be saved then. -/
def Admission.Saved (a : Admission) : Prop := (a.store.save a.journey).2 = .ok ()

namespace Store

theorem find?_without (gone id : JourneyId) (l : List Journey) :
    (without gone l).find? (·.id = id) = if gone = id then none else l.find? (·.id = id) := by
  unfold without
  rw [List.find?_filter]
  by_cases hid : gone = id
  · simp [hid]
  · rw [if_neg hid]
    congr
    funext j
    by_cases here : j.id = id
    · simp [here, Ne.symm hid]
    · simp [here]

end Store

namespace Engine

variable {e e' e'' : Engine} {j k : Journey} {id : JourneyId} {m : Message} {l : List Admission}

/-- What is to be seen of a journey. -/
def view (e : Engine) (id : JourneyId) : View where
  events := e.events.filter (·.journey = some id)
  records := e.store.ledger.filter (·.journeyId = id)
  place := (e.store.get? id).map (·.node)

theorem view_of_eq (events : e'.events = e.events) (store : e'.store = e.store) :
    e'.view id = e.view id := by
  simp only [view, events, store]

theorem view_of_under_way (sound : e.Sound) (under_way : j ∈ e.store.active) :
    e.view j.id = { e.view j.id with place := some j.node } := by
  simp only [view, sound.get?_eq under_way, Option.map_some]

theorem view_report (e : Engine) (kind : Analytics.Kind) (j : Journey) (node : String)
    (detail : Option String) (id : JourneyId) : (e.report kind j node detail).view id =
      if j.id = id then { e.view id with
        events := (e.view id).events ++ [.ofJourney kind e.uptime j node detail] }
      else e.view id := by
  unfold report note view Analytics.Event.ofJourney
  by_cases hid : j.id = id <;> simp [hid]

/-- A journey that is saved is to be seen where it stands. -/
theorem view_puts {store : Store} (puts : e.store.Puts k store) (id : JourneyId) :
    { e with store := store }.view id =
      if k.id = id then { e.view id with place := some k.node } else e.view id := by
  unfold view Store.get?
  dsimp only
  rw [puts.active, puts.ledger, Store.find?_upsert]
  split <;> rfl

/-- The end of a journey is reported and recorded, also when a save of it has failed before. -/
theorem view_finish (events : e'.events = e.events) (alive : k.isTerminal = false)
    (store_eq : e'.store = e.store ∨ ∃ fault, e.store.save k = (e'.store, .error fault))
    (reason : ExitReason) (id : JourneyId) :
    ∃ event record, View.Closes event record ∧ (e'.finish k reason).view id =
      if k.id = id then ⟨(e.view id).events ++ [event], (e.view id).records ++ [record], none⟩
      else e.view id := by
  have completes := completes_finish (e := e') alive reason store_eq
  have told : ∃ time, (e'.finish k reason).events = e'.events ++
      [.ofJourney (.ofStatus reason.status) time (k.ended reason e'.now) k.node
        (some reason.label)] := by
    rw [finish_eq e' alive]
    exact ⟨_, rfl⟩
  obtain ⟨time, told⟩ := told
  have of_k : (Completion.ofJourney (k.ended reason e'.now)).journeyId = k.id := rfl
  have same : (k.ended reason e'.now).id = k.id := rfl
  refine ⟨.ofJourney (.ofStatus reason.status) time (k.ended reason e'.now) k.node
    (some reason.label), .ofJourney (k.ended reason e'.now), ⟨rfl, rfl⟩, ?_⟩
  unfold view Store.get?
  rw [completes.active, completes.ledger, Store.find?_without, told, events]
  by_cases hid : k.id = id <;> simp [Analytics.Event.ofJourney, same, of_k, hid]

/-! ## On the way -/

/-- A journey under way ends. -/
theorem view_goesOn_finish (sound : e.Sound) (under_way : j ∈ e.store.active) (same : k.id = j.id)
    (alive : k.isTerminal = false) (events : e'.events = e.events)
    (store_eq : e'.store = e.store ∨ ∃ fault, e.store.save k = (e'.store, .error fault))
    (reason : ExitReason) (id : JourneyId) :
    View.GoesOn (e.view id) ((e'.finish k reason).view id) := by
  obtain ⟨event, record, closes, he⟩ := view_finish events alive store_eq reason id
  rw [he]
  split
  · rename_i hid
    obtain rfl := same.symm.trans hid
    rw [view_of_under_way sound under_way]
    exact .single (.ends closes)
  · exact .refl

/-- A journey that is saved where it stands is seen there still. -/
theorem view_puts_here (sound : e.Sound) (under_way : j ∈ e.store.active) (same : k.id = j.id)
    (here : k.node = j.node) {store : Store} (puts : e.store.Puts k store) (id : JourneyId) :
    { e with store := store }.view id = e.view id := by
  rw [view_puts puts]
  split
  · rename_i hid
    obtain rfl := same.symm.trans hid
    rw [here, ← view_of_under_way sound under_way]
  · rfl

theorem Calm.goesOn (h : Calm e e') (sound : e.Sound) (id : JourneyId) :
    View.GoesOn (e.view id) (e'.view id) := by
  cases h with
  | setTimer => rw [view_of_eq (setTimer_events _ _) (setTimer_store _ _)]
  | @park j deadline store under_way alive saved =>
    have here := view_puts_here sound under_way (k := e.parkedUntil j deadline) rfl rfl
      (Store.puts_of_save saved) id
    rw [view_of_eq (setTimer_events _ _) (setTimer_store _ _), view_report, here]
    split
    · rename_i hid
      obtain rfl : j.id = id := hid
      rw [view_of_under_way sound under_way]
      exact .single (.remark rfl)
    · exact .refl
  | finish under_way alive continues store_eq =>
    exact view_goesOn_finish sound under_way continues.id alive (by rfl) (by exact store_eq) _ id
  | _ => exact .refl

theorem Calms.goesOn (h : Calms e e') (sound : e.Sound) (id : JourneyId) :
    View.GoesOn (e.view id) (e'.view id) := by
  induction h with
  | refl => exact .refl
  | tail hs h ih => exact ih.trans (h.goesOn (sound.changes (Calms.changes hs)) id)

theorem view_goesOn_advance (sound : e.Sound) (under_way : j ∈ e.store.active)
    (free : e.isFlying j.id = false) (next : String) {kind : Analytics.Kind}
    (arrival : kind.isArrival = true) (on_way : kind ≠ .entered) (id : JourneyId) :
    View.GoesOn (e.view id) ((e.advance j next kind).view id) := by
  have alive := sound.alive j under_way
  have steps : kind.isStep = true := by
    cases kind <;> simp_all [Analytics.Kind.isArrival, Analytics.Kind.isStep]
  rcases e.advance_cases alive next kind with
    ⟨k, store, reason, continues, alive', store_eq, -, he⟩ | ⟨store, saved, he⟩
  · rw [he]
    exact view_goesOn_finish sound under_way continues.id alive' (by rfl) (by exact store_eq) _ id
  · have first := quiets_moved under_way alive free arrival on_way saved
    rw [he]
    refine Relation.ReflTransGen.trans ?_
      ((calms_drive _ _ _).goesOn (sound.changes first.changes) id)
    have here := view_puts (Store.puts_of_save saved) id
    have stored : { e with
        steps := e.steps.insert j.id ((e.steps.get? j.id).getD 0 + 1)
        store := store }.view id = { e with store := store }.view id := rfl
    rw [moved, view_report, stored, here]
    by_cases hid : j.id = id
    · subst hid
      have of_j : (e.movedTo j next).id = j.id := rfl
      rw [if_pos of_j, if_pos of_j, view_of_under_way sound under_way]
      exact .single (.step steps rfl rfl)
    · have other : (e.movedTo j next).id ≠ id := hid
      rw [if_neg other, if_neg other]

/-! ## Starts -/

theorem view_entered (store : Store) (puts : e.store.Puts j store) (id : JourneyId) :
    ∃ event, View.Opens j.node event ∧ (e.entered store j).view id =
      if j.id = id then ⟨(e.view id).events ++ [event], (e.view id).records, some j.node⟩
      else e.view id := by
  let saved : Engine := { e with issued := e.issued + 1, store := store }
  obtain ⟨tasks, last, checked, -⟩ := checkGoal_eq saved j
  have here : (saved.checkGoal j).view id = { e with store := store }.view id := by
    rw [checked]
    rfl
  refine ⟨.ofJourney .entered (saved.checkGoal j).uptime j j.node none, ⟨rfl, rfl⟩, ?_⟩
  rw [entered, view_report, here, view_puts puts]
  split <;> rfl

/-- The end of a journey that could not be saved at its start is reported and recorded. -/
theorem view_unsaved {store : Store} {fault : Fault} (alive : j.isTerminal = false)
    (refused : e.store.save j = (store, .error fault)) (id : JourneyId) :
    ∃ event record, View.Closes event record ∧
      ({ e with issued := e.issued + 1, store := store }.giveUp j fault).view id =
        if j.id = id then ⟨(e.view id).events ++ [event], (e.view id).records ++ [record], none⟩
        else e.view id := by
  have events : ({ e with issued := e.issued + 1, store := store } : Engine).events = e.events :=
    rfl
  exact view_finish events alive (.inr ⟨fault, refused⟩) (.errored fault.message) id

theorem view_rejected (e : Engine) (time : Nat) (campaign user reason : String) (id : JourneyId) :
    (e.note (.rejection time campaign user reason)).view id = e.view id := by
  simp [view, note, Analytics.Event.rejection]

/-- A journey starts at the entry of an installed campaign. -/
theorem Start.node_eq (h : Start e j e') : ∃ key campaign, (key, campaign) ∈ e.campaigns ∧
    j.campaignId = campaign.id ∧ j.node = campaign.entry := by
  cases h with
  | enter known _ new => exact ⟨_, _, known, by rw [new]; rfl, by rw [new]; rfl⟩
  | fail known _ new => exact ⟨_, _, known, by rw [new]; rfl, by rw [new]; rfl⟩

/-- A start goes unseen of every journey but the one that starts. -/
theorem view_goesOn_enter (sound : e.Sound) {key user : String} {campaign : Campaign}
    {origin : Option Origin} (known : (key, campaign) ∈ e.campaigns)
    (other : ∀ a ∈ e.admission campaign user origin, a.journey.id ≠ id) :
    View.GoesOn (e.view id) ((e.enter campaign user origin).1.view id) := by
  rcases enter_cases known with ⟨-, reason, he⟩ | ⟨admitted, start, store, fault, refused, he⟩ |
    ⟨admitted, store, saved, start, he⟩
  · rw [he, view_rejected]
  · rw [admitted] at other
    have ne := other _ (List.mem_singleton_self _)
    obtain ⟨event, record, -, seen⟩ := view_unsaved start.store_cases.1 refused id
    rw [he, seen, if_neg ne]
  · rw [admitted] at other
    have ne := other _ (List.mem_singleton_self _)
    obtain ⟨event, -, seen⟩ := view_entered store (Store.puts_of_save saved) id
    rw [if_neg ne] at seen
    rw [he, ← seen]
    exact (calms_drive _ _ _).goesOn (sound.change (.start start)) id

variable {a : Admission} {earlier : List Analytics.Event}

/-- What is to be seen of a journey that starts is faithful to it. -/
theorem starts_enter (sound : e.Sound) {key user : String} {campaign : Campaign}
    {origin : Option Origin} (known : (key, campaign) ∈ e.campaigns)
    (ha : a ∈ e.admission campaign user origin)
    (unseen : e.view a.journey.id = ⟨earlier, [], none⟩) :
    View.Faithful earlier a.journey.node a.Saved
      ((e.enter campaign user origin).1.view a.journey.id) := by
  rcases enter_cases known with ⟨refused, -⟩ | ⟨admitted, start, store, fault, refused, he⟩ |
    ⟨admitted, store, saved, start, he⟩
  · rw [refused] at ha
    cases ha
  · obtain rfl := List.mem_singleton.mp (admitted ▸ ha)
    obtain ⟨event, record, closes, seen⟩ := view_unsaved start.store_cases.1 refused
      (e.newcomer campaign user origin).id
    rw [he, seen, if_pos rfl, unseen]
    exact .unsaved (by simp [Admission.Saved, refused]) closes
  · obtain rfl := List.mem_singleton.mp (admitted ▸ ha)
    obtain ⟨event, opens, seen⟩ := view_entered store (Store.puts_of_save saved)
      (e.newcomer campaign user origin).id
    rw [if_pos rfl, unseen] at seen
    have entered : View.Faithful earlier (e.newcomer campaign user origin).node
        (Admission.Saved ⟨e.newcomer campaign user origin, e.store⟩)
        ⟨earlier ++ ([event] ++ []), [], some (e.newcomer campaign user origin).node⟩ :=
      .under_way (by simp [Admission.Saved, saved]) opens (.nil _)
    rw [he]
    refine entered.goesOn ?_
    rw [List.append_nil, ← seen]
    exact (calms_drive _ _ _).goesOn (sound.change (.start start)) _

theorem Deed.goesOn (h : Deed m e l e') (quiet : ∀ id, m.metAt? id = none) (sound : e.Sound)
    (other : ∀ a ∈ l, a.journey.id ≠ id) : View.GoesOn (e.view id) (e'.view id) := by
  cases h with
  | calm h => exact h.goesOn sound id
  | advance under_way _ free _ arrival on_way =>
    exact view_goesOn_advance sound under_way free _ arrival on_way id
  | conclude under_way alive =>
    exact view_goesOn_finish sound under_way rfl alive rfl (.inl rfl) _ id
  | enter known => exact view_goesOn_enter sound known other
  | meet found => simp [quiet] at found
  | convert _ _ found => simp [quiet] at found
  | _ => exact .refl

theorem Deeds.goesOn (h : Deeds m e l e') (quiet : ∀ id, m.metAt? id = none) (sound : e.Sound)
    (other : ∀ a ∈ l, a.journey.id ≠ id) : View.GoesOn (e.view id) (e'.view id) := by
  induction h with
  | refl => exact .refl
  | tail hs h ih =>
    have first := ih fun a ha => other a (List.mem_append_left _ ha)
    exact first.trans (h.goesOn quiet (sound.changes hs.changes)
      fun a ha => other a (List.mem_append_right _ ha))

theorem Deed.starts (h : Deed m e l e') (sound : e.Sound) (ha : a ∈ l)
    (unseen : e.view a.journey.id = ⟨earlier, [], none⟩) :
    View.Faithful earlier a.journey.node a.Saved (e'.view a.journey.id) := by
  cases h with
  | enter known => exact starts_enter sound known ha unseen
  | _ => cases ha

theorem Deeds.starts (h : Deeds m e l e') (quiet : ∀ id, m.metAt? id = none) (sound : e.Sound)
    (distinct : (l.map (·.journey.id)).Nodup) (ha : a ∈ l)
    (unseen : e.view a.journey.id = ⟨earlier, [], none⟩) :
    View.Faithful earlier a.journey.node a.Saved (e'.view a.journey.id) := by
  induction h with
  | refl => cases ha
  | @tail e₁ e₂ l l' hs h ih =>
    rw [List.map_append, List.nodup_append] at distinct
    obtain ⟨first, -, apart⟩ := distinct
    have sound' := sound.changes hs.changes
    rcases List.mem_append.mp ha with ha | ha
    · refine (ih first ha).goesOn (h.goesOn quiet sound' fun b hb same => ?_)
      exact apart _ (List.mem_map_of_mem ha) _ (List.mem_map_of_mem hb) same.symm
    · refine h.starts sound' ha ?_
      have goes : View.GoesOn (e.view a.journey.id) (e₁.view a.journey.id) :=
        hs.goesOn quiet sound fun b hb same =>
          apart _ (List.mem_map_of_mem hb) _ (List.mem_map_of_mem ha) same
      rw [goes.eq_of_away (by rw [unseen]), unseen]

/-! ## Messages -/

/-- An outcome of a check is remarked for a journey under way, and may end it. -/
theorem view_goesOn_onGoal (sound : e.Sound) (i : JourneyId) (metAt : Option Instant)
    (id : JourneyId) : View.GoesOn (e.view id) ((e.onGoal i metAt).view id) := by
  rcases e.onGoal_cases i metAt with he | ⟨t, j, k, -, hj, alive, recorded, he⟩
  · rw [he]
  · obtain ⟨under_way, rfl⟩ := mem_of_get? hj
    obtain rfl := Journey.of_recordConversion recorded
    let converted : Journey := { j with convertedAt := some t }
    let told : Engine := e.report .goalMet converted converted.node none
    have remarked : View.GoesOn (e.view id) (told.view id) := by
      rw [view_report]
      split
      · rename_i hid
        obtain rfl : j.id = id := hid
        rw [view_of_under_way sound under_way]
        exact .single (.remark rfl)
      · exact .refl
    have sound : told.Sound := ⟨sound.distinct, sound.alive⟩
    have under_way : j ∈ told.store.active := under_way
    rw [he]
    refine remarked.trans ?_
    change View.GoesOn _ ((told.convert converted).view id)
    unfold convert
    split
    · exact view_goesOn_finish (k := converted) sound under_way rfl alive rfl (.inl rfl) _ id
    · unfold saving
      split
      · rename_i store saved
        have stays := view_puts_here sound under_way (by rfl) (by rfl) (Store.puts_of_save saved) id
        exact stays ▸ .refl
      · rename_i store fault refused
        exact view_goesOn_finish sound under_way (by rfl) (by exact alive) (by rfl)
          (.inr ⟨fault, by exact refused⟩) _ id

theorem view_takeIn (e : Engine) (m : Message) (id : JourneyId) :
    (e.takeIn m).view id = e.view id := view_of_eq (takeIn_events e m) (by simp)

namespace Hears

/-- When a message is handled, what is to be seen of a journey that does not start then goes on. -/
theorem goesOn (hears : e.Hears m) (other : ∀ a ∈ e.admissions m, a.journey.id ≠ id) :
    View.GoesOn (e.view id) ((e.handle m).view id) := by
  by_cases goal : ∃ task i metAt, m = .report (.goal task i metAt)
  · obtain ⟨task, i, metAt, rfl⟩ := goal
    exact view_goesOn_onGoal (e := e.dropTask task) ⟨hears.sound.distinct, hears.sound.alive⟩
      i metAt id
  · have taken : (e.takeIn m).Sound := (Happens.takeIn e m).sound hears.sound
    rw [← view_takeIn e m]
    exact hears.deeds.goesOn (Message.metAt?_eq_none goal) taken other

/-- A journey that is admitted starts at the entry of a campaign that is installed then. -/
theorem node_eq (hears : e.Hears m) (ha : a ∈ e.admissions m) : ∃ key campaign,
    (key, campaign) ∈ (e.handle m).campaigns ∧ a.journey.campaignId = campaign.id ∧
      a.journey.node = campaign.entry := by
  obtain ⟨e₁, e₂, first, start, -, -⟩ :=
    (traces_handle hears.sound hears.not_boot).exists_start ha
  obtain ⟨key, campaign, known, same, entry⟩ := start.node_eq
  rw [first.campaigns_eq, ← hears.changes.campaigns_eq] at known
  exact ⟨key, campaign, known, same, entry⟩

/-- What is to be seen of a journey that starts when a message is handled is faithful to it. -/
theorem starts (hears : e.Hears m) (distinct : ((e.admissions m).map (·.journey.id)).Nodup)
    (ha : a ∈ e.admissions m) (unseen : e.view a.journey.id = ⟨earlier, [], none⟩) :
    View.Faithful earlier a.journey.node a.Saved ((e.handle m).view a.journey.id) := by
  have quiet : ¬ ∃ task i metAt, m = .report (.goal task i metAt) := by
    rintro ⟨task, i, metAt, rfl⟩
    cases ha
  have taken : (e.takeIn m).Sound := (Happens.takeIn e m).sound hears.sound
  rw [← view_takeIn e m] at unseen
  exact hears.deeds.starts (Message.metAt?_eq_none quiet) taken distinct ha unseen

end Hears

end Engine

end Engagement