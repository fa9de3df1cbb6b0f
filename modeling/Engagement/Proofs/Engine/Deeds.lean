import Engagement.Proofs.Campaign.Graphs
import Engagement.Proofs.Engine.Gate
import Engagement.Proofs.Engine.Wakes

/-! # What is done on a message

After a message has been taken in, calm changes are made; beyond them the journey of a step that the
message reports may go on to its next node or end, a journey may start, a conversion that the message
reports may be announced and recorded, triggers that match the message are checked, and a signal about
the app is heeded. A journey that goes on and one that starts are driven at once, so that none of
these leaves a journey behind that is due and has no step.
-/

namespace Engagement

namespace Message

/-- The time at which the message reports a journey to have converted. -/
def metAt? (id : JourneyId) : Message → Option Instant
  | .report (.goal _ journey metAt) => if journey = id then metAt else none
  | _ => none

theorem metAt?_eq_some {id : JourneyId} {m : Message} {t : Instant} :
    m.metAt? id = some t ↔ ∃ task, m = .report (.goal task id (some t)) := by
  constructor
  · intro h
    unfold metAt? at h
    split at h
    · rename_i task journey metAt
      split at h
      · rename_i same
        exact ⟨task, by rw [same, h]⟩
      · cases h
    · cases h
  · rintro ⟨task, rfl⟩
    exact if_pos rfl

theorem metAt?_eq_none {m : Message}
    (other : ¬ ∃ task id metAt, m = .report (.goal task id metAt)) (id : JourneyId) :
    m.metAt? id = none := by
  unfold metAt?
  split
  · exact (other ⟨_, _, _, rfl⟩).elim
  · rfl

/-- What the message reports of the step of a journey. -/
def found? (id : JourneyId) : Message → Option StepResult
  | .report (.step _ journey _ result) => if journey = id then some result else none
  | _ => none

theorem found?_eq_some {id : JourneyId} {m : Message} {result : StepResult} :
    m.found? id = some result ↔ ∃ task node, m = .report (.step task id node result) := by
  constructor
  · intro h
    unfold found? at h
    split at h
    · rename_i task journey node found
      split at h
      · rename_i same
        exact ⟨task, node, by rw [same, Option.some.inj h]⟩
      · cases h
    · cases h
  · rintro ⟨task, node, rfl⟩
    simp [found?]

/-- What the message tells about the app. -/
def signal? : Message → Option Lifecycle
  | .command (.lifecycle signal) => some signal
  | _ => none

end Message

namespace Engine

variable {e e' e'' : Engine} {j k : Journey} {id : JourneyId} {m : Message}
  {l l' : List Admission}

/-- The check that is set off on a message for a campaign whose trigger matches it up to a
condition. -/
def checkOn? (e : Engine) (m : Message) (campaign : Campaign) : Option Job :=
  match m with
  | .command (.event event) =>
    match triggeredBy event.occurrence.name campaign with
    | some (some condition) => some (.trigger campaign.id condition event.occurrence.distinctId
        event.occurrence.properties (some event.origin) e.now)
    | _ => none
  | .command .segmentsChanged => (segmentCondition campaign).map fun condition =>
      .trigger campaign.id condition e.user [] none e.now
  | _ => none

/-- What is done on a message, with the admissions that come with it. -/
inductive Deed (m : Message) (e : Engine) : List Admission → Engine → Prop
  | calm {e' : Engine} (h : Calm e e') : Deed m e [] e'
  | advance {j : Journey} {next : String} {kind : Analytics.Kind}
      (under_way : j ∈ e.store.active) (alive : j.isTerminal = false)
      (free : e.isFlying j.id = false) (resolved : e.Resolved j.id)
      (arrival : kind.isArrival = true) (on_way : kind ≠ .entered)
      (found : (m.found? j.id).bind StepResult.next? = some next) :
    Deed m e [] (e.advance j next kind)
  | conclude {j : Journey} {reason : ExitReason} (under_way : j ∈ e.store.active)
      (alive : j.isTerminal = false)
      (found : (m.found? j.id).bind StepResult.exit? = some reason) :
    Deed m e [] (e.finish j reason)
  | enter {key user : String} {campaign : Campaign} {origin : Option Origin}
      (known : (key, campaign) ∈ e.campaigns) :
    Deed m e (e.admission campaign user origin) (e.enter campaign user origin).1
  | meet {j : Journey} (found : (m.metAt? j.id).isSome) :
    Deed m e [] (e.report .goalMet j j.node none)
  | check {key : String} {campaign : Campaign} {job : Job} (known : (key, campaign) ∈ e.campaigns)
      (asked : e.checkOn? m campaign = some job) : Deed m e [] (e.spawn job)
  | convert {j : Journey} {t : Instant} {store : Store} (under_way : j ∈ e.store.active)
      (alive : j.isTerminal = false) (found : m.metAt? j.id = some t)
      (saved : e.store.save { j with convertedAt := some t, updatedAt := e.now } =
        (store, .ok ())) : Deed m e [] { e with store := store }
  | signal (told : m.signal?.isSome) (foreground ready : Bool) :
    Deed m e [] { e with foreground := foreground, presentationReady := ready }
  | cancelTimers (told : m.signal?.isSome) :
    Deed m e [] { e with timers := e.timers.filter (!·.held) }

inductive Deeds (m : Message) (e : Engine) : List Admission → Engine → Prop
  | refl : Deeds m e [] e
  | tail {e' e'' : Engine} {l l' : List Admission} (deeds : Deeds m e l e')
      (deed : Deed m e' l' e'') : Deeds m e (l ++ l') e''

namespace Deeds

theorem single (h : Deed m e l e') : Deeds m e l e' := refl.tail h

theorem trans (h : Deeds m e l e') (h' : Deeds m e' l' e'') : Deeds m e (l ++ l') e'' := by
  induction h' with
  | refl => rwa [List.append_nil]
  | tail _ deed ih =>
    rw [← List.append_assoc]
    exact ih.tail deed

theorem head (h : Deed m e [] e') (h' : Deeds m e' l e'') : Deeds m e l e'' :=
  (single h).trans h'

theorem calms (h : Deeds m e l e') (h' : Calms e' e'') : Deeds m e l e'' := by
  induction h' with
  | refl => exact h
  | tail _ c ih => simpa using ih.tail (.calm c)

end Deeds

theorem Calms.deeds (h : Calms e e') : Deeds m e [] e' := Deeds.refl.calms h

/-- Every step under way is of a journey whose campaign is not merely unknown yet. -/
def Minded (e : Engine) : Prop := ∀ id, e.isFlying id = true → e.Resolved id

theorem deeds_apply (under_way : j ∈ e.store.active) (alive : j.isTerminal = false)
    (free : e.isFlying j.id = false) (resolved : e.Resolved j.id) {result : StepResult}
    (found : m.found? j.id = some result) : Deeds m e [] (e.apply j result) := by
  match result with
  | .proceed next =>
    exact .single (.advance under_way alive free resolved rfl (by decide) (by rw [found]; rfl))
  | .skip (some next) =>
    exact .single (.advance under_way alive free resolved rfl (by decide) (by rw [found]; rfl))
  | .skip none => exact .single (.conclude under_way alive (by rw [found]; rfl))
  | .suspend deadline => exact (calms_park under_way alive free deadline).deeds
  | .complete reason => exact .single (.conclude under_way alive (by rw [found]; rfl))

theorem deeds_onStep (sound : e.Sound) (minded : e.Minded) (task : Nat) (id : JourneyId)
    (node : String) (result : StepResult) : Deeds (.report (.step task id node result))
      (e.takeIn (.report (.step task id node result))) [] (e.onStep task id node result) := by
  unfold takeIn
  dsimp only
  split
  · rename_i taken
    rw [onStep_of_taken taken]
    split
    · exact .refl
    · rename_i j hj
      obtain ⟨hm, rfl⟩ := mem_of_get? hj
      split
      · exact .refl
      · have flying : e.isFlying j.id = true := by
          obtain ⟨f, hf, -⟩ := (Option.any_eq_true _ _).mp taken
          simp [isFlying, hf]
        let landed : Engine := { e with flights := e.flights.filter (·.journey.id ≠ j.id) }
        have free : landed.isFlying j.id = false := by simp [landed, isFlying_eq_false]
        have happly : Deeds (.report (.step task j.id node result)) landed []
            (landed.apply j result) :=
          deeds_apply (e := landed) hm (sound.alive j hm) free (minded j.id flying) (if_pos rfl)
        split
        · exact happly.calms (calms_retryPresentations _ _)
        · exact happly
  · rename_i stale
    rw [onStep_of_stale (by simpa using stale)]
    exact .refl

theorem deeds_convert (under_way : j ∈ e.store.active) (alive : j.isTerminal = false) {t : Instant}
    (found : m.metAt? j.id = some t) :
    Deeds m e [] (e.convert { j with convertedAt := some t }) := by
  have continues : ∀ now, j.Continues { j with convertedAt := some t, updatedAt := now } :=
    fun _ => ⟨rfl, rfl, rfl, rfl, rfl, rfl, rfl, rfl, rfl, rfl⟩
  unfold convert
  split
  · exact .single
      (.calm (.finish under_way alive (continues j.updatedAt) (.inl rfl) (.inl rfl) .goalMet))
  · unfold saving
    split
    · rename_i store saved
      exact .single (.convert under_way alive found saved)
    · rename_i store fault refused
      exact Calms.deeds (calms_giveUp under_way alive (continues e.now) refused (.inl rfl))

theorem deeds_onGoal (task : Nat) (id : JourneyId) (metAt : Option Instant) :
    Deeds (.report (.goal task id metAt)) e [] (e.onGoal id metAt) := by
  rcases e.onGoal_cases id metAt with he | ⟨t, j, k, rfl, hj, alive, recorded, he⟩
  · rw [he]
    exact .refl
  · obtain ⟨hm, rfl⟩ := mem_of_get? hj
    obtain rfl := Journey.of_recordConversion recorded
    have found : Message.metAt? j.id (.report (.goal task j.id (some t))) = some t := if_pos rfl
    rw [he]
    exact .head (.meet (j := { j with convertedAt := some t }) (by simp [found]))
      (deeds_convert (e := e.report .goalMet _ _ none) hm alive found)

theorem deeds_along (event : HostEvent) (rest : List (Campaign × Option Envelope)) (e : Engine)
    (known : ∀ c ∈ rest, ∃ key, (key, c.1) ∈ e.campaigns)
    (matching : ∀ c ∈ rest, triggeredBy event.occurrence.name c.1 = some c.2) :
    Deeds (.command (.event event)) e (e.admissionsAlong event rest)
      (rest.foldl (fun e (campaign, condition) =>
        match condition with
        | some condition =>
          e.checkTrigger campaign.id condition event.occurrence.distinctId
            event.occurrence.properties (some event.origin)
        | none => (e.enter campaign event.occurrence.distinctId (some event.origin)).1) e) := by
  induction rest generalizing e with
  | nil => exact .refl
  | cons c rest ih =>
    obtain ⟨campaign, condition⟩ := c
    obtain ⟨key, hkey⟩ := known (campaign, condition) (by simp)
    have later : ∀ c ∈ rest, triggeredBy event.occurrence.name c.1 = some c.2 :=
      fun c hc => matching c (by simp [hc])
    cases condition with
    | some condition =>
      refine .head (.check hkey ?_) (ih _ (fun c hc => known c (by simp [hc])) later)
      simp [checkOn?, matching (campaign, some condition)]
    | none =>
      refine (Deeds.single (.enter hkey)).trans (ih _ (fun c hc => ?_) later)
      rw [(traces_enter hkey).changes.campaigns_eq]
      exact known c (by simp [hc])

theorem deeds_onEvent (event : HostEvent) : Deeds (.command (.event event)) e
    (e.admissions (.command (.event event))) (e.onEvent event) := by
  have first := calms_recheck e event.occurrence.distinctId (.event event.occurrence.name)
  exact first.deeds.trans (deeds_along event _ _ (fun _ hc => (mem_chosen hc).1)
    fun _ hc => (mem_chosen hc).2)

theorem deeds_checks (rest : List (Campaign × Envelope)) (e : Engine)
    (known : ∀ c ∈ rest, ∃ key, (key, c.1) ∈ e.campaigns)
    (matching : ∀ c ∈ rest, segmentCondition c.1 = some c.2) :
    Deeds (.command .segmentsChanged) e [] (rest.foldl (fun e' (campaign, condition) =>
      e'.checkTrigger campaign.id condition e.user [] none) e) := by
  induction rest generalizing e with
  | nil => exact .refl
  | cons c rest ih =>
    obtain ⟨campaign, condition⟩ := c
    obtain ⟨key, hkey⟩ := known (campaign, condition) (by simp)
    refine .head (.check hkey ?_) (ih _ (fun c hc => known c (by simp [hc]))
      fun c hc => matching c (by simp [hc]))
    simp [checkOn?, matching (campaign, condition)]

theorem deeds_onSegmentsChanged (e : Engine) :
    Deeds (.command .segmentsChanged) e [] e.onSegmentsChanged := by
  have first := calms_recheck e e.user .segmentChange
  have user : (e.recheck e.user .segmentChange).user = e.user := by
    rw [(Calms.changes first).frame]
    rfl
  have checks := deeds_checks ((e.recheck e.user .segmentChange).chosen segmentCondition)
    (e.recheck e.user .segmentChange) (fun _ hc => (mem_chosen hc).1) fun _ hc => (mem_chosen hc).2
  rw [user] at checks
  exact first.deeds.trans checks

theorem deeds_onLifecycle (signal : Lifecycle) :
    Deeds (.command (.lifecycle signal)) e [] (e.onLifecycle signal) := by
  cases signal with
  | enteredBackground =>
    apply Deeds.head (.signal rfl false false)
    exact (calms_dropGrace _).deeds.tail (.cancelTimers rfl)
  | entersForeground =>
    apply Deeds.head (.signal rfl true e.presentationReady)
    rw [onLifecycle_entersForeground]
    have rearmed := calms_rearms e.now e.store.active { e with foreground := true } fun _ hj => hj
    have resumed := rearmed.trans (calms_onResumeDue _)
    exact Calms.deeds (resumed.trans (Calms.foldl calms_checkGoal _ _))
  | becameActive =>
    apply Deeds.head (.signal rfl true e.presentationReady)
    exact ((calms_dropGrace _).deeds.tail (.calm (.spawn _ rfl))).tail (.calm (.grace _ _))

/-- Handling a message other than the first is to take it in and then to do deeds, with the
admissions that are listed for it. -/
theorem deeds_handle (sound : e.Sound)
    (minded : ∀ task id node result, m = .report (.step task id node result) → e.Minded)
    (h : m ≠ .command .boot) : Deeds m (e.takeIn m) (e.admissions m) (e.handle m) := by
  match m with
  | .command .boot => exact (h rfl).elim
  | .command (.start campaign user origin) =>
    suffices hs : Deeds (.command (.start campaign user origin))
        (e.takeIn (.command (.start campaign user origin)))
        (e.admissions (.command (.start campaign user origin)))
        (e.onStart campaign user origin).1 from hs.calms (.single (.answer _ _))
    rcases hv : campaign.validate with _ | _
    · simp only [admissions, onStart, takeIn, hv]
      exact .refl
    · simp only [admissions, onStart, takeIn, hv]
      exact .single (.enter (List.mem_cons_self ..))
  | .command (.event event) => exact deeds_onEvent event
  | .command .segmentsChanged => exact deeds_onSegmentsChanged e
  | .command .refreshProfile => exact .single (.calm (.spawn e rfl))
  | .command (.contentInvalidated flow) =>
    unfold handle onCommand
    dsimp only
    split
    · exact .single (.calm (.spawn e rfl))
    · exact .refl
  | .command .resumeDue => exact (calms_onResumeDue e).deeds
  | .command (.lifecycle signal) => exact deeds_onLifecycle signal
  | .report (.profile task (.error fault) requested) =>
    apply Deeds.head (.calm (.dropTask e task))
    unfold handle onReport
    dsimp only
    split
    · exact .single (.calm (.answer _ _))
    · exact .refl
  | .report (.profile task (.ok profile) requested) =>
    have hp := calms_onProfile ⟨sound.distinct, sound.alive⟩ (e := e.dropTask task) profile
    unfold handle onReport
    dsimp only
    split
    · exact Calms.deeds (hp.tail (.answer _ _))
    · exact hp.deeds
  | .report (.grace task) => exact (calms_onGrace e task).deeds
  | .report (.timer id node) => exact (calms_onTimer e id node).deeds
  | .report (.step task id node result) =>
    exact deeds_onStep sound (minded task id node result rfl) task id node result
  | .report (.goal task id metAt) =>
    exact .head (.calm (.dropTask e task)) (deeds_onGoal task id metAt)
  | .report (.trigger task campaign user origin holds) =>
    apply Deeds.head (.calm (.dropTask e task))
    unfold handle onReport
    dsimp only
    rcases hc : (e.dropTask task).campaigns.get? campaign with _ | c
    · simp only [admissions, onTrigger, hc]
      exact .refl
    · cases holds
      · simp only [admissions, onTrigger, hc, Bool.false_eq_true, if_false]
        exact .refl
      · obtain ⟨⟨key, d⟩, hm, rfl⟩ := Option.map_eq_some_iff.mp hc
        simp only [admissions, onTrigger, hc, if_true]
        exact .single (.enter (List.mem_of_find?_eq_some hm))

/-! ## What deeds keep -/

/-- A journey that starts, once it is saved and before it is driven. -/
def entered (e : Engine) (store : Store) (j : Journey) : Engine :=
  ({ e with issued := e.issued + 1, store := store }.checkGoal j).report .entered j j.node none

theorem entered_eq (e : Engine) (store : Store) (j : Journey) : e.entered store j = { e with
    issued := e.issued + 1, store := store
    tasks := (e.entered store j).tasks, lastTask := (e.entered store j).lastTask
    events := (e.entered store j).events } := by
  obtain ⟨tasks, last, h, -⟩ := checkGoal_eq { e with issued := e.issued + 1, store := store } j
  rw [entered, h]
  rfl

/-- A start is refused, or fails and leaves no trace, or the journey comes in and is driven. -/
theorem enter_cases {key user : String} {campaign : Campaign} {origin : Option Origin}
    (known : (key, campaign) ∈ e.campaigns) :
    let j := e.newcomer campaign user origin
    (e.admission campaign user origin = [] ∧
      ∃ reason, (e.enter campaign user origin).1 =
        e.note (.rejection e.uptime campaign.id user reason)) ∨
    (e.admission campaign user origin = [⟨j, e.store⟩] ∧
      Start e j (e.enter campaign user origin).1 ∧
      ∃ store fault, e.store.save j = (store, .error fault) ∧ (e.enter campaign user origin).1 =
        { e with issued := e.issued + 1, store := store }.giveUp j fault) ∨
    (e.admission campaign user origin = [⟨j, e.store⟩] ∧
      ∃ store, e.store.save j = (store, .ok ()) ∧ Start e j (e.entered store j) ∧
        (e.enter campaign user origin).1 = (e.entered store j).drive j.id .start) := by
  unfold admission enter
  rcases admitted : e.refusal? campaign user with _ | reason
  · dsimp only
    split
    · rename_i store fault refused
      exact .inr (.inl ⟨rfl, .fail known admitted rfl refused, store, fault, refused, rfl⟩)
    · rename_i store saved
      exact .inr (.inr ⟨rfl, store, saved, .enter known admitted rfl saved, rfl⟩)
  · exact .inl ⟨rfl, reason, rfl⟩

theorem Deed.traces (h : Deed m e l e') : Traces e l e' := by
  cases h with
  | calm h => exact Traces.refl.quiets h.quiets
  | advance under_way alive free resolved arrival on_way =>
    exact Traces.refl.quiets (quiets_advance under_way alive free _ arrival on_way)
  | conclude under_way alive => exact Traces.refl.quiets (quiets_finish under_way alive _)
  | enter known => exact traces_enter known
  | meet => exact Traces.refl.quiet (.aside (.note e rfl))
  | check => exact Traces.refl.quiet (.aside (.spawn e _))
  | convert under_way alive found saved =>
    exact Traces.refl.quiet (.amend under_way alive (.convert _ _) saved
      fun _ => Journey.agrees_convert _ _ _)
  | signal told foreground ready =>
    exact Traces.refl.quiet (.aside (.signal e foreground ready))
  | cancelTimers => exact Traces.refl.quiet (.aside (.cancelTimers e))

theorem Deed.changes (h : Deed m e l e') : Changes e e' := h.traces.changes

theorem Deeds.changes (h : Deeds m e l e') : Changes e e' := by
  induction h with
  | refl => exact .refl
  | tail _ h ih => exact ih.trans h.changes

/-! ## Campaigns of journeys with a step -/

/-- Each campaign is installed under its id. -/
def Keyed (e : Engine) : Prop := ∀ entry ∈ e.campaigns, entry.1 = entry.2.id

theorem Keyed.resolves {key : String} {campaign : Campaign} (keyed : e.Keyed)
    (known : (key, campaign) ∈ e.campaigns) : e.resolves campaign.id = true := by
  obtain rfl : key = campaign.id := keyed _ known
  simp [Engine.resolves, Table.get?_isSome_of_mem _ known]

theorem Keyed.changes (keyed : e.Keyed) (h : Changes e e') : e'.Keyed := by
  unfold Keyed
  rw [h.campaigns_eq]
  exact keyed

/-- The campaign is installed under its id, and has been accepted. -/
def Admissible (entry : String × Campaign) : Prop :=
  entry.1 = entry.2.id ∧ entry.2.validate = .ok ()

theorem mem_foldl_insert {entry : String × Campaign} (l : List Campaign)
    {table : Table String Campaign} (h : entry ∈ l.foldl (fun table c => table.insert c.id c) table) :
    entry ∈ table ∨ ∃ c ∈ l, entry = (c.id, c) := by
  induction l generalizing table with
  | nil => exact .inl h
  | cons c l ih =>
    rcases ih h with h | ⟨c', hc, he⟩
    · rcases List.mem_cons.mp h with he | h
      · exact .inr ⟨c, List.mem_cons_self .., he⟩
      · exact .inl (List.mem_filter.mp h).1
    · exact .inr ⟨c', List.mem_cons_of_mem _ hc, he⟩

theorem admissible_install {entry : String × Campaign} {profile : Profile}
    (h : entry ∈ (e.install profile).campaigns) : Admissible entry := by
  rcases mem_foldl_insert _ h with h | ⟨c, hc, rfl⟩
  · cases h
  · exact ⟨rfl, Campaign.validate_of_mem_ofRawList hc⟩

/-- A message installs only campaigns that have been accepted, each under its id. -/
theorem admissible_takeIn {entry : String × Campaign} (h : entry ∈ (e.takeIn m).campaigns) :
    entry ∈ e.campaigns ∨ Admissible entry := by
  unfold takeIn at h
  split at h
  · split at h
    · rename_i accepted
      rcases List.mem_cons.mp h with rfl | h
      · exact .inr ⟨rfl, accepted⟩
      · exact .inl (List.mem_filter.mp h).1
    · exact .inl h
  · exact .inr (admissible_install h)
  · split at h <;> exact .inl h
  · exact .inl h

theorem Keyed.takeIn (keyed : e.Keyed) (m : Message) : (e.takeIn m).Keyed :=
  fun entry h => (admissible_takeIn h).elim (keyed entry) And.left

theorem Start.resolves (h : Start e j e') (keyed : e.Keyed) :
    e'.resolves j.campaignId = true := by
  obtain ⟨key, campaign, known, hc, -⟩ := h.admits
  rw [(Change.start h).resolves_eq, hc]
  exact keyed.resolves known

/-- The campaign of a journey that starts is known. -/
theorem Start.resolved (h : Start e j e') (sound : e.Sound) (keyed : e.Keyed) :
    e'.Resolved j.id := by
  intro k hk hid
  obtain ⟨-, puts | ⟨reason, completes⟩⟩ := h.store_cases
  · rcases (mem_upsert_iff sound.distinct).mp (puts.active ▸ hk) with rfl | ⟨-, hne⟩
    · exact h.resolves keyed
    · exact (hne hid).elim
  · exact ((mem_without.mp (completes.active ▸ hk)).2 hid).elim

theorem Resolved.start (resolved : e.Resolved id) (keyed : e.Keyed) (h : Start e j e') :
    e'.Resolved id := by
  intro k hk hid
  have known : ∀ i ∈ e.store.active, i.id = id → e'.resolves i.campaignId = true :=
    fun i hi hid => (Change.start h).resolves_eq ▸ resolved i hi hid
  obtain ⟨-, puts | ⟨reason, completes⟩⟩ := h.store_cases
  · rcases mem_of_mem_upsert (puts.active ▸ hk) with rfl | hk
    · exact h.resolves keyed
    · exact known k hk hid
  · exact known k (mem_without.mp (completes.active ▸ hk)).1 hid

theorem flying_of_finish (alive : j.isTerminal = false) {reason : ExitReason}
    (flying : (e.finish j reason).isFlying id = true) : e.isFlying id = true := by
  rw [finish_eq _ alive] at flying
  obtain ⟨f, hf, rfl⟩ := isFlying_iff.mp flying
  exact isFlying_iff.mpr ⟨f, (List.mem_filter.mp hf).1, rfl⟩

/-- A calm change sets off a step only at a node of an installed campaign. -/
theorem Calm.flying (h : Calm e e') (sound : e.Sound) (flying : e'.isFlying id = true) :
    e.isFlying id = true ∨ e.Resolved id := by
  cases h with
  | setTimer =>
    rw [setTimer_isFlying] at flying
    exact .inl flying
  | park =>
    rw [setTimer_isFlying] at flying
    exact .inl flying
  | @launch j node under_way _ _ here =>
    obtain ⟨f, hf, rfl⟩ := isFlying_iff.mp flying
    rcases List.mem_append.mp hf with hf | hf
    · exact .inl (isFlying_iff.mpr ⟨f, hf, rfl⟩)
    · obtain rfl := List.mem_singleton.mp hf
      exact .inr (resolved_of_node? sound under_way (p := fun _ => true) (by simp [here]))
  | @finish _ _ store _ _ alive =>
    exact .inl (flying_of_finish (e := { e with store := store }) alive flying)
  | _ => exact .inl flying

theorem Calm.minded (h : Calm e e') (sound : e.Sound) (minded : e.Minded) : e'.Minded :=
  fun _ flying => ((h.flying sound flying).elim (minded _) id).quiets h.quiets

theorem Calms.minded (h : Calms e e') (sound : e.Sound) (minded : e.Minded) : e'.Minded := by
  induction h with
  | refl => exact minded
  | tail hs h ih => exact h.minded (sound.changes (Calms.changes hs)) ih

/-- Campaigns become known of more journeys, never of fewer. -/
theorem Resolved.changes_keyed (resolved : e.Resolved id) (keyed : e.Keyed) (h : Changes e e') :
    e'.Resolved id := by
  induction h with
  | refl => exact resolved
  | tail hs h ih =>
    cases h with
    | quiet h => exact ih.quiets (.single h)
    | start h => exact ih.start (keyed.changes hs) h

/-- Nothing is lost to mind by changes that set off no step. -/
theorem Minded.changes (minded : e.Minded) (keyed : e.Keyed) (h : Changes e e')
    (flying : ∀ id, e'.isFlying id = true → e.isFlying id = true) : e'.Minded :=
  fun id hf => (minded id (flying id hf)).changes_keyed keyed h

theorem Minded.takeIn (minded : e.Minded) (m : Message) : (e.takeIn m).Minded := by
  intro id flying
  obtain ⟨f, hf, rfl⟩ := isFlying_iff.mp flying
  have flew : e.isFlying f.journey.id = true :=
    isFlying_iff.mpr ⟨f, (e.takeIn_flights m).subset hf, rfl⟩
  exact (minded _ flew).takeIn m

theorem Deed.minded (h : Deed m e l e') (sound : e.Sound) (keyed : e.Keyed) (minded : e.Minded) :
    e'.Minded := by
  have changes := h.changes
  cases h with
  | calm h => exact h.minded sound minded
  | @advance j next kind under_way alive free resolved arrival on_way =>
    rcases e.advance_cases alive next kind with ⟨k, store, reason, -, alive', -, -, he⟩ |
      ⟨store, saved, he⟩
    · refine minded.changes keyed changes fun id hf => ?_
      rw [he] at hf
      have flew := flying_of_finish alive' hf
      exact flew
    · have first := (quiets_moved under_way alive free arrival on_way saved).changes
      rw [he]
      exact (calms_drive _ _ _).minded (sound.changes first)
        (minded.changes keyed first fun _ hf => hf)
  | conclude under_way alive =>
    exact minded.changes keyed changes fun _ hf => flying_of_finish alive hf
  | enter known =>
    rcases enter_cases known with ⟨-, reason, he⟩ | ⟨-, start, store, fault, refused, he⟩ |
      ⟨-, store, saved, start, he⟩
    · rw [he] at changes ⊢
      exact minded.changes keyed changes fun _ hf => hf
    · refine minded.changes keyed changes fun id hf => ?_
      rw [he, giveUp] at hf
      have flew := flying_of_finish start.store_cases.1 hf
      exact flew
    · have first : Changes e _ := .single (.start start)
      rw [he]
      refine (calms_drive _ _ _).minded (sound.changes first) (minded.changes keyed first ?_)
      rw [entered_eq]
      exact fun _ hf => hf
  | _ => exact minded.changes keyed changes fun _ hf => hf

theorem Deeds.minded (h : Deeds m e l e') (sound : e.Sound) (keyed : e.Keyed)
    (minded : e.Minded) : e'.Minded := by
  induction h with
  | refl => exact minded
  | tail hs h ih => exact h.minded (sound.changes hs.changes) (keyed.changes hs.changes) ih

theorem minded_handle (sound : e.Sound) (keyed : e.Keyed) (minded : e.Minded)
    (h : m ≠ .command .boot) : (e.handle m).Minded :=
  (deeds_handle sound (fun _ _ _ _ _ => minded) h).minded ((Happens.takeIn e m).sound sound)
    (keyed.takeIn m) (minded.takeIn m)

/-! ## What is remembered -/

/-- It is remembered to drive the journey again only while it has a step. -/
def Noted (e : Engine) (id : JourneyId) : Prop :=
  (e.pending.get? id).isSome → e.isFlying id = true

theorem Noted.finish (noted : e.Noted id) (alive : j.isTerminal = false) (reason : ExitReason) :
    (e.finish j reason).Noted id := by
  rw [finish_eq _ alive]
  intro hp
  by_cases hid : id = j.id
  · simp [hid] at hp
  · obtain ⟨f, hf, hfid⟩ := isFlying_iff.mp (noted (by simpa [hid] using hp))
    exact isFlying_iff.mpr ⟨f, List.mem_filter.mpr ⟨hf, by simpa [hfid] using hid⟩, hfid⟩

theorem Noted.setTimer (noted : e.Noted id) (j : Journey) : (e.setTimer j).Noted id := by
  intro hp
  rw [setTimer_pending] at hp
  rw [setTimer_isFlying]
  exact noted hp

theorem Calm.noted (h : Calm e e') (noted : e.Noted id) : e'.Noted id := by
  cases h with
  | setTimer => exact noted.setTimer _
  | @remember other flying reason =>
    intro hp
    by_cases hid : id = other
    · exact hid ▸ flying
    · exact noted (by simpa [hid] using hp)
  | @forget other free =>
    intro hp
    by_cases hid : id = other
    · simp [hid] at hp
    · exact noted (by simpa [hid] using hp)
  | launch =>
    intro hp
    obtain ⟨f, hf, hfid⟩ := isFlying_iff.mp (noted hp)
    exact isFlying_iff.mpr ⟨f, List.mem_append_left _ hf, hfid⟩
  | @park j deadline store =>
    exact Noted.setTimer (e := { e with store := store }.report .parked _ _ _) noted _
  | @finish _ _ store _ _ alive => exact Noted.finish (e := { e with store := store }) noted alive _
  | _ => exact noted

theorem Calms.noted (h : Calms e e') (noted : e.Noted id) : e'.Noted id := by
  induction h with
  | refl => exact noted
  | tail _ h ih => exact h.noted ih

theorem Deed.noted (h : Deed m e l e') (noted : e.Noted id) : e'.Noted id := by
  cases h with
  | calm h => exact h.noted noted
  | @advance j next kind _ alive =>
    rcases e.advance_cases alive next kind with
      ⟨k, store, reason, -, alive', -, -, he⟩ | ⟨store, -, he⟩
    · rw [he]
      exact Noted.finish (by exact noted) alive' _
    · rw [he]
      exact (calms_drive _ _ _).noted (by exact noted)
  | conclude _ alive => exact noted.finish alive _
  | enter known =>
    rcases enter_cases known with ⟨-, reason, he⟩ | ⟨-, start, store, fault, -, he⟩ |
      ⟨-, store, -, -, he⟩
    · rw [he]
      exact noted
    · rw [he]
      exact Noted.finish (by exact noted) (by exact start.store_cases.1) _
    · rw [he]
      refine (calms_drive _ _ _).noted ?_
      rw [entered_eq]
      exact noted
  | _ => exact noted

theorem Deeds.noted (h : Deeds m e l e') (noted : e.Noted id) : e'.Noted id := by
  induction h with
  | refl => exact noted
  | tail _ h ih => exact h.noted ih

end Engine

end Engagement
