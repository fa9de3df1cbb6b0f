import Engagement.Proofs.Engine.Gains
import Engagement.Proofs.Store.Prospects

/-! # One event in two engines

What comes of an event is decided by what there is of its user, by the campaigns and by whether the
coming writes fail. So two engines that agree on these make the same of it, but for the ids that
they give.
-/

namespace Engagement

/-! ## Other ids -/

variable {ρ : JourneyId → JourneyId}

def Analytics.Event.renamed (ρ : JourneyId → JourneyId) (event : Analytics.Event) :
    Analytics.Event :=
  { event with journey := event.journey.map ρ }

def Completion.renamed (ρ : JourneyId → JourneyId) (record : Completion) : Completion :=
  { record with journeyId := ρ record.journeyId }

/-- A journey that has just started, as it starts with another id. The seed goes with the id. -/
def Journey.renamed (ρ : JourneyId → JourneyId) (j : Journey) : Journey :=
  { j with id := ρ j.id, context := [(Journey.seedKey, .nat (ρ j.id).seed.toNat)] }

namespace Gain

def renamed (ρ : JourneyId → JourneyId) (g : Gain) : Gain :=
  ⟨g.news.map (·.renamed ρ), g.records.map (·.renamed ρ), g.joined.map (·.renamed ρ)⟩

theorem renamed_append (ρ : JourneyId → JourneyId) (g h : Gain) :
    (g ++ h).renamed ρ = g.renamed ρ ++ h.renamed ρ := by
  change Gain.mk _ _ _ = Gain.mk _ _ _
  rw [mk.injEq]
  exact ⟨List.map_append, List.map_append, List.map_append⟩

end Gain

/-! ## What decides on a start -/

namespace Store

variable (store : Store) (user : String)

/-- The campaigns that a user is in. -/
def campaignsOf : List String :=
  (store.active.filter (·.distinctId = user)).map (·.campaignId)

/-- The campaigns that a user has been through, and when. -/
def historyOf : List (String × Instant) :=
  (store.ledger.filter (·.distinctId = user)).map fun r => (r.campaignId, r.completedAt)

theorem length_activeFor : (store.activeFor user).length = (store.campaignsOf user).length := by
  simp [activeFor, campaignsOf]

theorem any_activeFor (campaign : String) :
    (store.activeFor user).any (·.campaignId = campaign) =
      (store.campaignsOf user).contains campaign := by
  rw [Bool.eq_iff_iff]
  simp [activeFor, campaignsOf]

theorem completedAt_ledgerFor (campaign : String) :
    (store.ledgerFor user campaign).map (·.completedAt) =
      ((store.historyOf user).filter (·.1 = campaign)).map (·.2) := by
  simp only [ledgerFor, historyOf, List.filter_map, List.map_map, List.filter_filter]
  congr 1
  refine List.filter_congr fun r _ => ?_
  simp [Bool.and_comm]

end Store

namespace Engine

variable {e e' f f' : Engine} {user : String} {campaign : Campaign} {origin : Option Origin}
  {store store' : Store} {j : Journey} {reason : ExitReason} {g : Gain}

/-- The engines agree on all that decides what comes of an event of the user. -/
structure Concurs (user : String) (e e' : Engine) : Prop where
  settings : e'.settings = e.settings
  now : e'.now = e.now
  elapsed : e'.elapsed = e.elapsed
  campaigns : e'.campaigns = e.campaigns
  profileLoaded : e'.profileLoaded = e.profileLoaded
  store : e.store.Alike e'.store
  inside : (e'.store.campaignsOf user).Perm (e.store.campaignsOf user)
  past : e'.store.historyOf user = e.store.historyOf user

namespace Concurs

theorem uptime (concurs : Concurs user e e') : e'.uptime = e.uptime := by
  unfold Engine.uptime
  rw [concurs.elapsed, concurs.store.waited]

theorem refusal?_eq (concurs : Concurs user e e') (campaign : Campaign) :
    e'.refusal? campaign user = e.refusal? campaign user := by
  have records : (e'.store.ledgerFor user campaign.id).map (·.completedAt) =
      (e.store.ledgerFor user campaign.id).map (·.completedAt) := by
    rw [Store.completedAt_ledgerFor, Store.completedAt_ledgerFor, concurs.past]
  have recorded : (e'.store.ledgerFor user campaign.id).isEmpty =
      (e.store.ledgerFor user campaign.id).isEmpty := by
    rw [← List.isEmpty_map, records, List.isEmpty_map]
  have inside (campaign : String) : (e'.store.campaignsOf user).contains campaign =
      (e.store.campaignsOf user).contains campaign := by
    rw [Bool.eq_iff_iff, List.contains_iff_mem, List.contains_iff_mem, concurs.inside.mem_iff]
  unfold refusal? cooldownOver
  simp only [Store.length_activeFor, Store.any_activeFor, concurs.settings, inside,
    concurs.inside.length_eq, concurs.now, records, recorded]

theorem dismissal?_eq (concurs : Concurs user e e') (ρ : JourneyId → JourneyId) (j : Journey) :
    e'.dismissal? (j.renamed ρ) = e.dismissal? j := by
  unfold dismissal?
  rw [concurs.campaigns, concurs.profileLoaded]
  rfl

/-- Whether a journey ends alike does not depend on its id. -/
theorem ending (concurs : Concurs user e e') (alike : store.Alike store')
    (ρ : JourneyId → JourneyId) (j : Journey) (reason : ExitReason) :
    (e'.ending store' (j.renamed ρ) reason).gain = (e.ending store j reason).gain.renamed ρ ∧
      (e.ending store j reason).store.Alike (e'.ending store' (j.renamed ρ) reason).store := by
  have left := alike.complete (j.ended reason e.now) ((j.renamed ρ).ended reason e'.now)
  refine ⟨?_, left⟩
  unfold Engine.ending
  dsimp only
  rw [left.waited, concurs.elapsed, concurs.now]
  rfl

theorem joining (concurs : Concurs user e e') (alike : store.Alike store')
    (ρ : JourneyId → JourneyId) (j : Journey) :
    (e'.joining store' (j.renamed ρ)).gain = (e.joining store j).gain.renamed ρ ∧
      (e.joining store j).store.Alike (e'.joining store' (j.renamed ρ)).store := by
  unfold Engine.joining
  rw [concurs.dismissal?_eq ρ j, alike.waited, concurs.elapsed]
  rcases e.dismissal? j with _ | reason <;> dsimp only
  · exact ⟨rfl, alike⟩
  · obtain ⟨gain, left⟩ := concurs.ending alike ρ j reason
    rw [gain, Gain.renamed_append]
    exact ⟨rfl, left⟩

/-- Starts in engines that concur come to the same. -/
theorem upshot (concurs : Concurs user e e') (campaign : Campaign) (origin : Option Origin)
    (named : e.refusal? campaign user = none → ρ (e.ids e.issued) = e'.ids e'.issued) :
    (e'.upshot campaign user origin).gain = (e.upshot campaign user origin).gain.renamed ρ ∧
      (e.upshot campaign user origin).store.Alike (e'.upshot campaign user origin).store := by
  unfold Engine.upshot
  rw [concurs.refusal?_eq, concurs.uptime]
  rcases admitted : e.refusal? campaign user with _ | reason <;> dsimp only
  · have newcomer : e'.newcomer campaign user origin =
        (e.newcomer campaign user origin).renamed ρ := by
      simp only [Engine.newcomer, Journey.start, Journey.renamed, named admitted, concurs.now]
    rw [newcomer]
    generalize e.newcomer campaign user origin = j
    obtain ⟨answer, alike⟩ := concurs.store.save j (j.renamed ρ)
    rcases h : e.store.save j with ⟨store, result⟩
    rcases h' : e'.store.save (j.renamed ρ) with ⟨store', result'⟩
    rw [h, h'] at answer alike
    obtain rfl : result' = result := answer
    cases result' with
    | error fault => exact concurs.ending alike ρ j _
    | ok => exact concurs.joining alike ρ j
  · exact ⟨rfl, concurs.store⟩

/-- Engines that concur do so after gains that differ in ids alone. -/
theorem gains (concurs : Concurs user e e') (gains : e.Gains g f)
    (gains' : e'.Gains (g.renamed ρ) f') (changes : Changes e f) (changes' : Changes e' f')
    (alike : f.store.Alike f'.store) : Concurs user f f' := by
  have inside : (f'.store.campaignsOf user).Perm (f.store.campaignsOf user) := by
    have before := concurs.inside
    simp only [Store.campaignsOf] at before ⊢
    rw [gains.active, gains'.active, List.filter_append, List.filter_append, List.map_append,
      List.map_append]
    simp only [Gain.renamed, List.filter_map, List.map_map]
    exact before.append_right _
  have past : f'.store.historyOf user = f.store.historyOf user := by
    have before := concurs.past
    simp only [Store.historyOf] at before ⊢
    rw [gains.ledger, gains'.ledger, List.filter_append, List.filter_append, List.map_append,
      List.map_append, before]
    simp only [Gain.renamed, List.filter_map, List.map_map]
    rfl
  have frame := changes.frame
  have frame' := changes'.frame
  refine ⟨?_, ?_, ?_, ?_, ?_, alike, inside, past⟩ <;> rw [frame, frame']
  exacts [concurs.settings, concurs.now, concurs.elapsed, concurs.campaigns, concurs.profileLoaded]

end Concurs

/-! ## The course of an event -/

variable {start start' : Engine} {snapshot snapshot' : Snapshot} {event : HostEvent}
  {c : Campaign × Option Envelope} {l : List (Campaign × Option Envelope)}

theorem Concurs.offers (concurs : Concurs user e e') (offers : e.Offers l) : e'.Offers l := by
  unfold Offers
  rw [concurs.campaigns]
  exact offers

theorem issued_enter_of_refusal {reason : String}
    (refused : e.refusal? campaign user = some reason) :
    (e.enter campaign user origin).1.issued = e.issued := by
  rw [enter, refused]
  rfl

/-- A start takes an id in both engines or in none. -/
theorem Concurs.issued (concurs : Concurs user e e') (campaign : Campaign)
    (origin : Option Origin) : ∃ n, (e.enter campaign user origin).1.issued = e.issued + n ∧
      (e'.enter campaign user origin).1.issued = e'.issued + n := by
  have same := concurs.refusal?_eq campaign
  rcases decided : e.refusal? campaign user with _ | reason
  · exact ⟨1, issued_enter decided, issued_enter (same.trans decided)⟩
  · exact ⟨0, issued_enter_of_refusal decided, issued_enter_of_refusal (same.trans decided)⟩

theorem Concurs.recheck (concurs : Concurs user e e') (sound : e.Sound) (sound' : e'.Sound)
    (reason : ResumeReason) : Concurs user (e.recheck user reason) (e'.recheck user reason) := by
  have looked := replans_recheck sound user reason
  have looked' := replans_recheck sound' user reason
  have gains' : e'.Gains (Gain.nothing.renamed id) (e'.recheck user reason) := looked'.gains
  exact concurs.gains looked.gains gains' (quiets_recheck ..).changes (quiets_recheck ..).changes
    (looked.store_eq ▸ looked'.store_eq ▸ concurs.store)

/-- Engines that concur, and are ready to start journeys, make the same of a campaign. -/
theorem concurs_pursue (concurs : Concurs event.occurrence.distinctId e e')
    (ready : Ready start snapshot e) (ready' : Ready start' snapshot' e')
    (fresh : start.FreshIds snapshot (pursue event e c).issued)
    (fresh' : start'.FreshIds snapshot' (pursue event e' c).issued) (offers : e.Offers (c :: l))
    (named : e.issued < (pursue event e c).issued → ρ (e.ids e.issued) = e'.ids e'.issued) :
    e'.gainFrom event c = (e.gainFrom event c).renamed ρ ∧
      Concurs event.occurrence.distinctId (pursue event e c) (pursue event e' c) ∧
      ∃ n, (pursue event e c).issued = e.issued + n ∧
        (pursue event e' c).issued = e'.issued + n := by
  have gains := gains_pursue ready fresh
  have gains' := gains_pursue ready' fresh'
  have changes : Changes e (pursue event e c) := offers.changes
  have changes' : Changes e' (pursue event e' c) := (concurs.offers offers).changes
  obtain ⟨campaign, condition⟩ := c
  cases condition with
  | some condition =>
    have gains' : e'.Gains (Gain.nothing.renamed ρ) (pursue event e' (campaign, some condition)) :=
      gains'
    exact ⟨rfl, concurs.gains gains gains' changes changes' concurs.store, 0, rfl, rfl⟩
  | none =>
    let user := event.occurrence.distinctId
    have given (admitted : e.refusal? campaign user = none) :
        e.issued < (pursue event e (campaign, none)).issued :=
      issued_enter (e := e) admitted ▸ Nat.lt_succ_self _
    obtain ⟨gain, alike⟩ := concurs.upshot campaign (some event.origin)
      fun admitted => named (given admitted)
    have left := (gains_enter (e := e) fun given => ready.new (fresh.mono given)).2
    have left' := (gains_enter (e := e') fun given => ready'.new (fresh'.mono given)).2
    have same : e'.gainFrom event (campaign, none) =
        (e.gainFrom event (campaign, none)).renamed ρ := gain
    rw [← left, ← left'] at alike
    exact ⟨same, concurs.gains gains (same ▸ gains') changes changes' alike,
      concurs.issued campaign (some event.origin)⟩

/-- What is made of one campaign after the other is the same, with the same number of ids given. -/
theorem concurs_foldl_pursue (concurs : Concurs event.occurrence.distinctId e e')
    (ready : Ready start snapshot e) (ready' : Ready start' snapshot' e') (offers : e.Offers l)
    (fresh : start.FreshIds snapshot (l.foldl (pursue event) e).issued)
    (fresh' : start'.FreshIds snapshot' (l.foldl (pursue event) e').issued)
    (named : ∀ n, e.issued + n < (l.foldl (pursue event) e).issued →
      ρ (e.ids (e.issued + n)) = e'.ids (e'.issued + n)) :
    e'.gainAlong event l = (e.gainAlong event l).renamed ρ ∧
      ∃ n, (l.foldl (pursue event) e).issued = e.issued + n ∧
        (l.foldl (pursue event) e').issued = e'.issued + n := by
  induction l generalizing e e' with
  | nil => exact ⟨rfl, 0, rfl, rfl⟩
  | cons c l ih =>
    have offers' := concurs.offers offers
    have first : Changes e (pursue event e c) := offers.changes
    have first' : Changes e' (pursue event e' c) := offers'.changes
    have rest : Changes (pursue event e c) (l.foldl (pursue event) (pursue event e c)) :=
      offers.next.foldl
    have rest' : Changes (pursue event e' c) (l.foldl (pursue event) (pursue event e' c)) :=
      offers'.next.foldl
    have fresh_now := fresh.mono rest.issued_le
    have fresh_now' := fresh'.mono rest'.issued_le
    obtain ⟨gain, still, n, given, given'⟩ := concurs_pursue concurs ready ready' fresh_now
      fresh_now' offers fun gives => named 0 (Nat.lt_of_lt_of_le gives rest.issued_le)
    -- The ids that the other campaigns take follow the `n` of the first.
    obtain ⟨gains, m, more, more'⟩ := ih still (ready.changes fresh_now first)
      (ready'.changes fresh_now' first') offers.next fresh fresh' fun m lt => by
        rw [given, Nat.add_assoc] at lt ⊢
        rw [given', Nat.add_assoc, first.ids_eq, first'.ids_eq]
        exact named (n + m) lt
    refine ⟨?_, n + m, ?_, ?_⟩
    · change e'.gainFrom event c ++ _ = (e.gainFrom event c ++ _).renamed ρ
      rw [Gain.renamed_append, gain, gains]
    · exact more.trans (by rw [given, Nat.add_assoc])
    · exact more'.trans (by rw [given', Nat.add_assoc])

/-- Engines that concur make the same of an event, and give the same number of ids. -/
theorem concurs_onEvent (concurs : Concurs event.occurrence.distinctId e e')
    (ready : Ready start snapshot e) (ready' : Ready start' snapshot' e')
    (fresh : start.FreshIds snapshot (e.onEvent event).issued)
    (fresh' : start'.FreshIds snapshot' (e'.onEvent event).issued)
    (named : ∀ n, e.issued + n < (e.onEvent event).issued →
      ρ (e.ids (e.issued + n)) = e'.ids (e'.issued + n)) :
    e'.gain event = (e.gain event).renamed ρ ∧
      ∃ n, (e.onEvent event).issued = e.issued + n ∧
        (e'.onEvent event).issued = e'.issued + n := by
  let user := event.occurrence.distinctId
  let reason : ResumeReason := .event event.occurrence.name
  have still : Concurs user (e.recheck user reason) (e'.recheck user reason) :=
    concurs.recheck ready.sound ready'.sound reason
  have quiet : Changes e (e.recheck user reason) := (quiets_recheck ..).changes
  have quiet' : Changes e' (e'.recheck user reason) := (quiets_recheck ..).changes
  have chosen : (e'.recheck user reason).chosen (triggeredBy event.occurrence.name) =
      (e.recheck user reason).chosen (triggeredBy event.occurrence.name) := by
    unfold Engine.chosen
    rw [still.campaigns]
  have issued : (e.recheck user reason).issued = e.issued := by
    rw [replans_recheck ready.sound user reason]
  have issued' : (e'.recheck user reason).issued = e'.issued := by
    rw [replans_recheck ready'.sound user reason]
  have offers := offers_chosen (e.recheck user reason) event.occurrence.name
  have offers' := offers_chosen (e'.recheck user reason) event.occurrence.name
  rw [onEvent_eq] at fresh fresh' named
  rw [onEvent_eq, onEvent_eq]
  have before := ready.changes (fresh.mono offers.foldl.issued_le) quiet
  have before' := ready'.changes (fresh'.mono offers'.foldl.issued_le) quiet'
  unfold Engine.gain
  dsimp only
  rw [chosen] at fresh' ⊢
  have same := concurs_foldl_pursue still before before' offers fresh fresh' fun n lt => by
    rw [issued] at lt ⊢
    rw [issued', quiet.ids_eq, quiet'.ids_eq]
    exact named n lt
  rw [issued, issued'] at same
  exact same

end Engine

end Engagement
