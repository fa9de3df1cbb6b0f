import Engagement.Proofs.Engine.Bystanders
import Engagement.Proofs.Engine.Intact
import Engagement.Proofs.Engine.Flights

/-! # What comes of an event

An event adds reports, records and journeys to those that there are, and takes none away. To look
at the user's journeys adds nothing. A start is rejected, or is given up as it cannot be saved, or
makes a journey join, which ends at once if its campaign or its node is unknown.
-/

namespace Engagement

/-- Reports, records and journeys that are added to those of an engine. -/
structure Gain where
  news : List Analytics.Event
  records : List Completion
  joined : List Journey

namespace Gain

def nothing : Gain := ⟨[], [], []⟩

instance : Append Gain :=
  ⟨fun g h => ⟨g.news ++ h.news, g.records ++ h.records, g.joined ++ h.joined⟩⟩

/-- All that is added is a user's. -/
structure IsOf (g : Gain) (user : String) : Prop where
  news : ∀ event ∈ g.news, event.distinctId = user
  records : ∀ r ∈ g.records, r.distinctId = user
  joined : ∀ j ∈ g.joined, j.distinctId = user

variable {g h : Gain} {user : String}

theorem isOf_nothing (user : String) : nothing.IsOf user := ⟨by simp [nothing], by simp [nothing],
  by simp [nothing]⟩

theorem IsOf.append (hg : g.IsOf user) (hh : h.IsOf user) : (g ++ h).IsOf user :=
  ⟨List.forall_mem_append.mpr ⟨hg.news, hh.news⟩,
    List.forall_mem_append.mpr ⟨hg.records, hh.records⟩,
    List.forall_mem_append.mpr ⟨hg.joined, hh.joined⟩⟩

end Gain

namespace Engine

variable {e e' e'' : Engine} {g h : Gain} {j : Journey} {campaign : Campaign} {user : String}
  {origin : Option Origin} {reason : ExitReason}

/-- `e'` has what `e` has, and the gain behind it. -/
structure Gains (e : Engine) (g : Gain) (e' : Engine) : Prop where
  events : e'.events = e.events ++ g.news
  ledger : e'.store.ledger = e.store.ledger ++ g.records
  active : e'.store.active = e.store.active ++ g.joined

theorem Gains.trans (first : e.Gains g e') (rest : e'.Gains h e'') : e.Gains (g ++ h) e'' :=
  ⟨by rw [rest.events, first.events, List.append_assoc]; rfl,
    by rw [rest.ledger, first.ledger, List.append_assoc]; rfl,
    by rw [rest.active, first.active, List.append_assoc]; rfl⟩

/-! ## Looking at journeys -/

/-- Nothing has changed but work under way and the plans for more. -/
def Replans (e e' : Engine) : Prop := e' = { e with
  flights := e'.flights, pending := e'.pending, tasks := e'.tasks, timers := e'.timers
  steps := e'.steps, lastTask := e'.lastTask }

namespace Replans

theorem refl (e : Engine) : Replans e e := rfl

theorem trans (h : Replans e e') (h' : Replans e' e'') : Replans e e'' := by
  apply Eq.trans h'
  rw [h]

theorem store_eq (h : Replans e e') : e'.store = e.store := by rw [h]

theorem gains (h : Replans e e') : e.Gains .nothing e' := by
  rw [h]
  exact ⟨(List.append_nil _).symm, (List.append_nil _).symm, (List.append_nil _).symm⟩

end Replans

/-- Why a journey ends as soon as it is driven. -/
def dismissal? (e : Engine) (j : Journey) : Option ExitReason :=
  match e.campaigns.get? j.campaignId with
  | none => if e.profileLoaded then some .campaignUnavailable else none
  | some campaign =>
    match campaign.node? j.node with
    | none => some (.errored s!"node {j.node} not found in campaign {campaign.id}")
    | some _ => none

theorem driveAt_cases (e : Engine) (j : Journey) (resume : ResumeReason) :
    (∃ reason, e.dismissal? j = some reason ∧ e.driveAt j resume = e.finish j reason) ∨
      (e.dismissal? j = none ∧ Replans e (e.driveAt j resume)) := by
  unfold dismissal? driveAt
  rcases e.campaigns.get? j.campaignId with _ | campaign <;> dsimp only
  · by_cases loaded : e.profileLoaded = true
    · exact .inl ⟨_, if_pos loaded, if_pos loaded⟩
    · rw [if_neg loaded, if_neg loaded]
      exact .inr ⟨rfl, .refl e⟩
  · rcases campaign.node? j.node with _ | node <;> dsimp only
    · exact .inl ⟨_, rfl, rfl⟩
    · exact .inr ⟨rfl, rfl⟩

theorem dismissal?_of_atWait (h : e.atWait j = true) : e.dismissal? j = none := by
  unfold atWait node? at h
  unfold dismissal?
  rcases hc : e.campaigns.get? j.campaignId with _ | campaign
  · simp [hc] at h
  · rcases hn : campaign.node? j.node with _ | node
    · simp [hc, hn] at h
    · simp [hn]

theorem replans_drive (sound : e.Sound) (under_way : j ∈ e.store.active)
    (stays : e.dismissal? j = none) (resume : ResumeReason) : Replans e (e.drive j.id resume) := by
  unfold drive
  split
  · rfl
  · rw [sound.get?_eq under_way]
    dsimp only
    split
    · exact .refl e
    · rcases e.driveAt_cases j resume with ⟨reason, dismissed, -⟩ | ⟨-, replans⟩
      · rw [stays] at dismissed
        cases dismissed
      · exact replans

theorem replans_checkGoal (e : Engine) (j : Journey) : Replans e (e.checkGoal j) := by
  obtain ⟨tasks, last, h, -⟩ := e.checkGoal_eq j
  rw [h]
  rfl

/-- A journey that waits is only driven on, so that none ends. -/
theorem replans_look (sound : e.Sound) (under_way : j ∈ e.store.active) (resume : ResumeReason) :
    Replans e (look resume e j) := by
  have checked := replans_checkGoal e j
  unfold look
  split
  · rename_i waits
    have sound' : (e.checkGoal j).Sound :=
      ⟨checked.store_eq ▸ sound.distinct, checked.store_eq ▸ sound.alive⟩
    have waits' : (e.checkGoal j).atWait j = true := by
      rw [checked]
      exact waits
    exact checked.trans (replans_drive sound' (checked.store_eq ▸ under_way)
      (dismissal?_of_atWait waits') resume)
  · exact checked

theorem replans_recheck (sound : e.Sound) (user : String) (resume : ResumeReason) :
    Replans e (e.recheck user resume) := by
  rw [recheck_eq]
  refine List.foldlRecOn _ (look resume) (.refl e) fun e' so_far j hj => ?_
  have sound' : e'.Sound := ⟨so_far.store_eq ▸ sound.distinct, so_far.store_eq ▸ sound.alive⟩
  exact so_far.trans (replans_look sound' (so_far.store_eq ▸ (mem_activeFor.mp hj).1) resume)

/-! ## Starting journeys -/

/-- What is added, and the store that is left. -/
structure Upshot where
  gain : Gain
  store : Store

/-- What comes of it when a journey ends. -/
def ending (e : Engine) (store : Store) (j : Journey) (reason : ExitReason) : Upshot :=
  let ended := j.ended reason e.now
  let left := (store.complete ended).1
  let report := .ofJourney (.ofStatus reason.status) (e.elapsed + left.waited) ended j.node
    (some reason.label)
  ⟨⟨[report], [.ofJourney ended], []⟩, left⟩

/-- What comes of it when a journey has been saved that joins. -/
def joining (e : Engine) (store : Store) (j : Journey) : Upshot :=
  let arrival : Gain := ⟨[.ofJourney .entered (e.elapsed + store.waited) j j.node none], [], []⟩
  match e.dismissal? j with
  | some reason => ⟨arrival ++ (e.ending store j reason).gain, (e.ending store j reason).store⟩
  | none => ⟨arrival ++ ⟨[], [], [j]⟩, store⟩

/-- What comes of it when a user is to enter a campaign. -/
def upshot (e : Engine) (campaign : Campaign) (user : String) (origin : Option Origin) : Upshot :=
  match e.refusal? campaign user with
  | some reason => ⟨⟨[.rejection e.uptime campaign.id user reason], [], []⟩, e.store⟩
  | none =>
    let j := e.newcomer campaign user origin
    match e.store.save j with
    | (store, .error fault) => e.ending store j (.errored fault.message)
    | (store, .ok ()) => e.joining store j

/-- A journey ends that was not in the mirror before it was saved. -/
theorem gains_finish {before : Store} (alive : j.isTerminal = false)
    (new : ∀ k ∈ before.active, k.id ≠ j.id) (active : e.store.active = upsert j before.active)
    (ledger : e.store.ledger = before.ledger) (reason : ExitReason) :
    { e with store := before }.Gains (e.ending e.store j reason).gain (e.finish j reason) := by
  have completes := Store.completes_complete e.store (j.ended reason e.now)
  have left : without j.id e.store.active = before.active := by
    rw [active, without_upsert, without_of_not_mem new]
  rw [finish_eq e alive]
  refine ⟨rfl, ?_, ?_⟩
  · rw [← ledger]
    exact completes.ledger
  · exact (completes.active.trans left).trans (List.append_nil _).symm

theorem finish_store (alive : j.isTerminal = false) (reason : ExitReason) :
    (e.finish j reason).store = (e.ending e.store j reason).store := by
  rw [finish_eq e alive]
  rfl

/-! ### Coming in -/

theorem entered_store (e : Engine) (store : Store) (j : Journey) :
    (e.entered store j).store = store := by rw [entered_eq]

theorem entered_events (e : Engine) (store : Store) (j : Journey) : (e.entered store j).events =
    e.events ++ [.ofJourney .entered (e.elapsed + store.waited) j j.node none] := by
  obtain ⟨tasks, last, h, -⟩ := checkGoal_eq { e with issued := e.issued + 1, store := store } j
  rw [entered, h]
  rfl

theorem dismissal?_entered (e : Engine) (store : Store) (j k : Journey) :
    (e.entered store j).dismissal? k = e.dismissal? k := by
  unfold dismissal?
  rw [entered_eq]

theorem ending_entered (e : Engine) (store store' : Store) (j k : Journey) (reason : ExitReason) :
    (e.entered store j).ending store' k reason = e.ending store' k reason := by
  unfold ending
  rw [entered_eq]
  rfl

theorem drive_entered {store : Store} (alive : j.isTerminal = false)
    (free : e.isFlying j.id = false) (found : store.get? j.id = some j) :
    (e.entered store j).drive j.id .start = (e.entered store j).driveAt j .start := by
  have free' : (e.entered store j).isFlying j.id = false := by
    rw [entered_eq]
    exact free
  unfold drive
  rw [free', entered_store, found]
  simp [alive]

/-- A journey that has been saved joins, or else ends at once. -/
theorem gains_entered {store : Store} (alive : j.isTerminal = false)
    (new : ∀ k ∈ e.store.active, k.id ≠ j.id) (free : e.isFlying j.id = false)
    (puts : e.store.Puts j store) :
    e.Gains (e.joining store j).gain ((e.entered store j).drive j.id .start) ∧
      ((e.entered store j).drive j.id .start).store = (e.joining store j).store := by
  have joined : store.active = e.store.active ++ [j] := puts.active.trans (upsert_of_new new)
  rw [drive_entered alive free puts.get?_self, joining]
  rcases (e.entered store j).driveAt_cases j .start with ⟨reason, dismissed, ends⟩ |
    ⟨stays, replans⟩
  · rw [dismissal?_entered] at dismissed
    rw [ends, dismissed]
    -- Ending takes the journey out again, so the arrival is told apart from its being saved.
    have arrived : e.Gains ⟨[.ofJourney .entered (e.elapsed + store.waited) j j.node none], [], []⟩
        { e.entered store j with store := e.store } :=
      ⟨entered_events .., (List.append_nil _).symm, (List.append_nil _).symm⟩
    have ended := gains_finish (e := e.entered store j) alive new
      ((entered_store ..).symm ▸ puts.active) ((entered_store ..).symm ▸ puts.ledger) reason
    have left := finish_store (e := e.entered store j) alive reason
    rw [entered_store, ending_entered] at ended left
    exact ⟨arrived.trans ended, left⟩
  · rw [dismissal?_entered] at stays
    rw [stays]
    have kept : ((e.entered store j).driveAt j .start).store = store :=
      replans.store_eq.trans (entered_store ..)
    refine ⟨⟨?_, ?_, ?_⟩, kept⟩
    · rw [replans]
      exact entered_events ..
    · rw [kept]
      exact puts.ledger.trans (List.append_nil _).symm
    · rw [kept]
      exact joined

/-- What a start that is admitted, refused or given up adds is as computed. -/
theorem gains_enter
    (new : e.issued < (e.enter campaign user origin).1.issued →
      (∀ k ∈ e.store.active, k.id ≠ e.ids e.issued) ∧ e.isFlying (e.ids e.issued) = false) :
    e.Gains (e.upshot campaign user origin).gain (e.enter campaign user origin).1 ∧
      (e.enter campaign user origin).1.store = (e.upshot campaign user origin).store := by
  unfold upshot newcomer
  rcases admitted : e.refusal? campaign user with _ | reason
  · obtain ⟨absent, free⟩ := new (by rw [issued_enter admitted]; exact Nat.lt_succ_self _)
    unfold enter
    rw [admitted]
    dsimp only
    rcases saved : e.store.save (.start (e.ids e.issued) campaign user origin e.now) with
      ⟨store, fault | _⟩ <;> dsimp only
    · obtain ⟨active, ledger, -⟩ := Store.of_save_error saved
      have ends := gains_finish (e := { e with issued := e.issued + 1, store := store })
        rfl absent active ledger (.errored fault.message)
      exact ⟨⟨ends.events, ends.ledger, ends.active⟩, finish_store rfl _⟩
    · exact gains_entered rfl absent free (Store.puts_of_save saved)
  · unfold enter
    rw [admitted]
    exact ⟨⟨rfl, (List.append_nil _).symm, (List.append_nil _).symm⟩, rfl⟩

theorem isOf_ending (e : Engine) (store : Store) (j : Journey) (reason : ExitReason) :
    (e.ending store j reason).gain.IsOf j.distinctId :=
  ⟨List.forall_mem_singleton.mpr rfl, List.forall_mem_singleton.mpr rfl, List.forall_mem_nil _⟩

theorem isOf_joining (e : Engine) (store : Store) (j : Journey) :
    (e.joining store j).gain.IsOf j.distinctId := by
  have arrival : Gain.IsOf ⟨[.ofJourney .entered (e.elapsed + store.waited) j j.node none], [], []⟩
      j.distinctId :=
    ⟨List.forall_mem_singleton.mpr rfl, List.forall_mem_nil _, List.forall_mem_nil _⟩
  have joined : Gain.IsOf ⟨[], [], [j]⟩ j.distinctId :=
    ⟨List.forall_mem_nil _, List.forall_mem_nil _, List.forall_mem_singleton.mpr rfl⟩
  unfold joining
  split
  · exact arrival.append (isOf_ending e store j _)
  · exact arrival.append joined

/-- All that comes of a start is the user's. -/
theorem isOf_upshot (e : Engine) (campaign : Campaign) (user : String) (origin : Option Origin) :
    (e.upshot campaign user origin).gain.IsOf user := by
  unfold upshot
  split
  · exact ⟨List.forall_mem_singleton.mpr rfl, List.forall_mem_nil _, List.forall_mem_nil _⟩
  · dsimp only
    split
    · exact isOf_ending e _ (e.newcomer campaign user origin) _
    · exact isOf_joining e _ (e.newcomer campaign user origin)

/-! ## Events -/

variable {start : Engine} {snapshot : Snapshot} {event : HostEvent}
  {c : Campaign × Option Envelope} {l : List (Campaign × Option Envelope)}

/-- All that is held was loaded or started, and the steps under way are those of journeys in the
mirror. -/
structure Ready (start : Engine) (snapshot : Snapshot) (e : Engine) : Prop where
  sound : e.Sound
  known : Known start snapshot e
  orderly : e.Orderly

/-- The next id is that of no journey in the mirror, and of none with a step. -/
theorem Ready.new (ready : Ready start snapshot e)
    (fresh : start.FreshIds snapshot (e.issued + 1)) :
    (∀ k ∈ e.store.active, k.id ≠ e.ids e.issued) ∧ e.isFlying (e.ids e.issued) = false := by
  have absent := ready.known.next_new fresh
  refine ⟨absent, isFlying_eq_false.mpr fun f hf same => ?_⟩
  obtain ⟨j, hj, of_j⟩ := ready.orderly.anchored f hf
  exact absent j hj (of_j.id.symm.trans same)

theorem Ready.changes (ready : Ready start snapshot e)
    (fresh : start.FreshIds snapshot e'.issued) (c : Changes e e') : Ready start snapshot e' := by
  obtain ⟨changes, known⟩ := ready.known.changes ready.sound fresh c
  exact ⟨ready.sound.changes c, known, ready.orderly.changes changes⟩

/-- What comes at once of a campaign that an event triggers. -/
def gainFrom (event : HostEvent) (e : Engine) : Campaign × Option Envelope → Gain
  | (_, some _) => .nothing
  | (campaign, none) =>
    (e.upshot campaign event.occurrence.distinctId (some event.origin)).gain

/-- What comes at once of the campaigns that an event triggers, one after the other. -/
def gainAlong (event : HostEvent) : Engine → List (Campaign × Option Envelope) → Gain
  | _, [] => .nothing
  | e, c :: rest => e.gainFrom event c ++ (pursue event e c).gainAlong event rest

/-- What comes at once of an event. -/
def gain (e : Engine) (event : HostEvent) : Gain :=
  let rechecked := e.recheck event.occurrence.distinctId (.event event.occurrence.name)
  rechecked.gainAlong event (rechecked.chosen (triggeredBy event.occurrence.name))

theorem gains_pursue (ready : Ready start snapshot e)
    (fresh : start.FreshIds snapshot (pursue event e c).issued) :
    e.Gains (e.gainFrom event c) (pursue event e c) := by
  obtain ⟨campaign, condition⟩ := c
  cases condition with
  | some condition => exact Replans.gains rfl
  | none => exact (gains_enter fun given => ready.new (fresh.mono given)).1

theorem gains_foldl_pursue (ready : Ready start snapshot e) (offers : e.Offers l)
    (fresh : start.FreshIds snapshot (l.foldl (pursue event) e).issued) :
    e.Gains (e.gainAlong event l) (l.foldl (pursue event) e) := by
  induction l generalizing e with
  | nil => exact Replans.gains rfl
  | cons c l ih =>
    have first : start.FreshIds snapshot (pursue event e c).issued :=
      fresh.mono offers.next.foldl.issued_le
    have rest := ih (ready.changes first offers.changes) offers.next fresh
    exact (gains_pursue ready first).trans rest

theorem isOf_gainAlong (event : HostEvent) (l : List (Campaign × Option Envelope)) (e : Engine) :
    (e.gainAlong event l).IsOf event.occurrence.distinctId := by
  induction l generalizing e with
  | nil => exact Gain.isOf_nothing _
  | cons c l ih =>
    refine Gain.IsOf.append ?_ (ih _)
    obtain ⟨campaign, condition⟩ := c
    cases condition with
    | some condition => exact Gain.isOf_nothing _
    | none => exact isOf_upshot ..

/-- What an event adds is as computed. -/
theorem gains_onEvent (ready : Ready start snapshot e)
    (fresh : start.FreshIds snapshot (e.onEvent event).issued) :
    e.Gains (e.gain event) (e.onEvent event) := by
  let reason : ResumeReason := .event event.occurrence.name
  have looked := replans_recheck ready.sound event.occurrence.distinctId reason
  have quiet : Changes e (e.recheck event.occurrence.distinctId reason) :=
    (quiets_recheck ..).changes
  rw [onEvent_eq] at fresh ⊢
  have offers := offers_chosen (e.recheck event.occurrence.distinctId reason) event.occurrence.name
  have ready' := ready.changes (fresh.mono offers.foldl.issued_le) quiet
  exact looked.gains.trans (gains_foldl_pursue ready' offers fresh)

/-- All that comes of an event is its user's. -/
theorem isOf_gain (e : Engine) (event : HostEvent) :
    (e.gain event).IsOf event.occurrence.distinctId := isOf_gainAlong ..

end Engine

end Engagement
