import Engagement.Proofs.Engine.Rounds
import Engagement.Proofs.Engine.StepLimit

/-! # Journeys without a campaign

Where the campaign of a journey is not installed, the journey is ended or is left where it lies: no
step is set off for it, and it neither moves on nor is parked anew. A profile that comes in ends
every journey whose campaign it lacks. An engine that comes up with one ends those that it does not
let wait.
-/

namespace Engagement

/-- The profile has a campaign of that id that can be installed. -/
def Profile.Offers (profile : Profile) (id : String) : Prop :=
  ∃ c ∈ profile.parseCampaigns.1, c.id = id

/-- The journey waits for a deadline that is still to come. -/
def Journey.Awaits (j : Journey) (now : Instant) : Prop :=
  j.status = .paused ∧ j.resumeAt.any (now < ·)

namespace Message

/-- The profile that the message brings. -/
def profile? : Message → Option Profile
  | .report (.profile _ (.ok profile) _) => some profile
  | _ => none

theorem profile?_eq_some {m : Message} {profile : Profile} : m.profile? = some profile ↔
    ∃ task requested, m = .report (.profile task (.ok profile) requested) := by
  constructor
  · intro h
    unfold profile? at h
    split at h
    · obtain rfl := Option.some.inj h
      exact ⟨_, _, rfl⟩
    · cases h
  · rintro ⟨task, requested, rfl⟩
    rfl

end Message

namespace Engine

variable {e e' e'' : Engine} {j k : Journey} {id : JourneyId} {m : Message} {profile : Profile}

/-- The campaign of the journey is not installed. -/
def Lacks (e : Engine) (j : Journey) : Prop := e.campaigns.get? j.campaignId = none

/-- Journeys whose campaign is not installed end or lie where they lay; steps are set off for others
only. -/
structure Neglects (e e' : Engine) : Prop where
  campaigns : e'.campaigns = e.campaigns
  lying : ∀ k ∈ e'.store.active, e.Lacks k → ∃ j ∈ e.store.active, j.Remains k
  flights : ∀ f ∈ e'.flights, f ∈ e.flights ∨ ¬ e.Lacks f.journey

namespace Neglects

theorem lacks_iff (h : Neglects e e') : e'.Lacks j ↔ e.Lacks j := by
  rw [Lacks, h.campaigns, Lacks]

theorem of_frame (campaigns : e'.campaigns = e.campaigns)
    (active : e'.store.active = e.store.active) (flights : e'.flights = e.flights) :
    Neglects e e' :=
  ⟨campaigns, fun k hk _ => ⟨k, active ▸ hk, .refl k⟩, fun _ hf => .inl (flights ▸ hf)⟩

theorem refl (e : Engine) : Neglects e e := .of_frame rfl rfl rfl

theorem trans (h : Neglects e e') (h' : Neglects e' e'') : Neglects e e'' where
  campaigns := h'.campaigns.trans h.campaigns
  lying k hk lacks := by
    obtain ⟨j, hj, remains⟩ := h'.lying k hk (h.lacks_iff.mpr lacks)
    have lacked : e.Lacks j := by rwa [Lacks, ← remains.campaignId]
    obtain ⟨i, hi, remains'⟩ := h.lying j hj lacked
    exact ⟨i, hi, remains'.trans remains⟩
  flights f hf := by
    rcases h'.flights f hf with hf | installed
    · exact h.flights f hf
    · exact .inr fun lacks => installed (h.lacks_iff.mpr lacks)

/-- A journey is put that has a campaign, or that stays where it is. -/
theorem put (active : e'.store.active = upsert k e.store.active)
    (fit : ¬ e.Lacks k ∨ ∃ j ∈ e.store.active, j.Remains k)
    (campaigns : e'.campaigns = e.campaigns) (flights : e'.flights = e.flights) :
    Neglects e e' := by
  refine ⟨campaigns, fun i hi lacks => ?_, fun _ hf => .inl (flights ▸ hf)⟩
  rcases mem_of_mem_upsert (active ▸ hi) with rfl | hi
  · exact fit.resolve_left fun installed => installed lacks
  · exact ⟨i, hi, .refl i⟩

theorem finish (e e' : Engine) (alive : k.isTerminal = false)
    (campaigns : e'.campaigns = e.campaigns) (flights : e'.flights = e.flights)
    (store_eq : e'.store = e.store ∨ ∃ fault, e.store.save k = (e'.store, .error fault))
    (reason : ExitReason) : Neglects e (e'.finish k reason) where
  campaigns := by
    rw [finish_eq _ alive]
    exact campaigns
  lying i hi _ := by
    have active := (completes_finish alive reason store_eq).active
    exact ⟨i, (mem_without.mp (active ▸ hi)).1, .refl i⟩
  flights f hf := by
    rw [finish_eq _ alive] at hf
    exact .inl (flights ▸ (List.mem_filter.mp hf).1)

end Neglects

/-! ## Driving -/

theorem neglects_checkGoal (e : Engine) (j : Journey) : Neglects e (e.checkGoal j) := by
  unfold checkGoal
  split
  · exact .of_frame rfl rfl rfl
  · exact .refl e

theorem neglects_driveAt (alive : j.isTerminal = false) (reason : ResumeReason) :
    Neglects e (e.driveAt j reason) := by
  unfold driveAt
  split
  · split
    · exact .finish e e alive rfl rfl (.inl rfl) _
    · exact .refl e
  · rename_i campaign installed
    split
    · exact .finish e e alive rfl rfl (.inl rfl) _
    · refine ⟨rfl, fun k hk _ => ⟨k, hk, .refl k⟩, fun f hf => ?_⟩
      rcases List.mem_append.mp hf with hf | hf
      · exact .inl hf
      · obtain rfl := List.mem_singleton.mp hf
        exact .inr (by simp [Lacks, installed])

theorem neglects_drive (e : Engine) (id : JourneyId) (reason : ResumeReason) :
    Neglects e (e.drive id reason) := by
  unfold drive
  split
  · exact .of_frame rfl rfl rfl
  · split
    · split
      · exact .refl e
      · rename_i alive
        exact neglects_driveAt (by simpa using alive) reason
    · exact .refl e

theorem abides_neglects (l : List Journey) : Abides l Neglects where
  trans := .trans
  touch touches :=
    .of_frame touches.campaigns_eq (by rw [touches.store_eq]) touches.flights_eq
  dropTask _ _ := .of_frame rfl rfl rfl
  spawn _ _ _ := .of_frame rfl rfl rfl
  checkGoal e j _ := neglects_checkGoal e j
  drive := neglects_drive

theorem neglects_advance (alive : j.isTerminal = false) (installed : ¬ e.Lacks j) (next : String)
    (kind : Analytics.Kind) : Neglects e (e.advance j next kind) := by
  rcases e.advance_cases alive next kind with ⟨k, store, reason, -, alive', store_eq, -, he⟩ |
    ⟨store, saved, he⟩
  · rw [he]
    exact .finish e { e with steps := _, store := store } alive' rfl rfl store_eq reason
  · rw [he]
    have first : Neglects e (e.moved store j next kind) :=
      .put (k := e.movedTo j next) (Store.puts_of_save saved).active (.inl installed) rfl rfl
    exact first.trans (neglects_drive _ _ _)

theorem neglects_park (alive : j.isTerminal = false) (installed : ¬ e.Lacks j)
    (deadline : Option Instant) : Neglects e (e.park j deadline) := by
  have timed : ∀ e' : Engine, Neglects e e' →
      Neglects e ((e'.setTimer (e.parkedUntil j deadline)).drivePending j.id) :=
    fun e' h => (h.trans ((abides_neglects []).setTimer e' _)).trans
      ((abides_neglects []).drivePending ..)
  rcases e.park_cases alive deadline with ⟨store, fault, refused, he⟩ |
    ⟨e', he, ⟨-, -, rfl⟩ | ⟨store, saved, rfl⟩⟩ <;> rw [he]
  · exact .finish e { e with steps := _, store := store } (k := e.parkedUntil j deadline) rfl rfl
      rfl (.inr ⟨fault, refused⟩) _
  · exact timed _ (.of_frame rfl rfl rfl)
  · exact timed _ (.put (k := e.parkedUntil j deadline) (Store.puts_of_save saved).active
      (.inl installed) rfl rfl)

theorem neglects_apply (alive : j.isTerminal = false) (installed : ¬ e.Lacks j)
    (result : StepResult) : Neglects e (e.apply j result) := by
  match result with
  | .proceed next => exact neglects_advance alive installed next _
  | .skip (some next) => exact neglects_advance alive installed next _
  | .skip none => exact .finish e e alive rfl rfl (.inl rfl) _
  | .suspend deadline => exact neglects_park alive installed deadline
  | .complete reason => exact .finish e e alive rfl rfl (.inl rfl) reason

/-! ## Messages -/

theorem neglects_enter {key user : String} {campaign : Campaign} {origin : Option Origin}
    (keyed : e.Keyed) (known : (key, campaign) ∈ e.campaigns) :
    Neglects e (e.enter campaign user origin).1 := by
  have installed : ¬ e.Lacks (e.newcomer campaign user origin) := by
    obtain rfl : key = campaign.id := keyed _ known
    obtain ⟨c, hc⟩ := Option.isSome_iff_exists.mp (Table.get?_isSome_of_mem _ known)
    exact fun lacks => by cases hc.symm.trans lacks
  rcases enter_cases known with ⟨-, reason, he⟩ | ⟨-, start, store, fault, refused, he⟩ |
    ⟨-, store, saved, start, he⟩
  · rw [he]
    exact .of_frame rfl rfl rfl
  · rw [he]
    exact .finish e { e with issued := e.issued + 1, store := store } start.store_cases.1 rfl rfl
      (.inr ⟨fault, refused⟩) _
  · have entered : Neglects e (e.entered store (e.newcomer campaign user origin)) := by
      rw [entered_eq]
      exact .put (Store.puts_of_save saved).active (.inl installed) rfl rfl
    rw [he]
    exact entered.trans (neglects_drive _ _ _)

theorem neglects_along (event : HostEvent) (rest : List (Campaign × Option Envelope)) (e : Engine)
    (keyed : e.Keyed) (known : ∀ c ∈ rest, ∃ key, (key, c.1) ∈ e.campaigns) :
    Neglects e (rest.foldl (fun e (campaign, condition) =>
      match condition with
      | some condition =>
        e.checkTrigger campaign.id condition event.occurrence.distinctId
          event.occurrence.properties (some event.origin)
      | none => (e.enter campaign event.occurrence.distinctId (some event.origin)).1) e) := by
  induction rest generalizing e with
  | nil => exact .refl e
  | cons c rest ih =>
    obtain ⟨campaign, condition⟩ := c
    obtain ⟨key, hkey⟩ := known (campaign, condition) (by simp)
    have goes_on : ∀ e' : Engine, Neglects e e' → e'.Keyed ∧
        ∀ c ∈ rest, ∃ key, (key, c.1) ∈ e'.campaigns := fun e' h =>
      ⟨by rw [Keyed, h.campaigns]; exact keyed,
        fun c hc => h.campaigns ▸ known c (List.mem_cons_of_mem _ hc)⟩
    rw [List.foldl_cons]
    cases condition with
    | some condition =>
      have first : Neglects e (e.checkTrigger campaign.id condition event.occurrence.distinctId
        event.occurrence.properties (some event.origin)) := .of_frame rfl rfl rfl
      exact first.trans (ih _ (goes_on _ first).1 (goes_on _ first).2)
    | none =>
      have first : Neglects e
          (e.enter campaign event.occurrence.distinctId (some event.origin)).1 :=
        neglects_enter keyed hkey
      exact first.trans (ih _ (goes_on _ first).1 (goes_on _ first).2)

theorem neglects_onGoal (e : Engine) (id : JourneyId) (metAt : Option Instant) :
    Neglects e (e.onGoal id metAt) := by
  rcases e.onGoal_cases id metAt with he | ⟨t, j, k, -, hj, alive, recorded, he⟩
  · rw [he]
    exact .refl e
  · obtain ⟨hm, -⟩ := mem_of_get? hj
    obtain rfl := Journey.of_recordConversion recorded
    have announced : Neglects e (e.report .goalMet { j with convertedAt := some t } j.node none) :=
      .of_frame rfl rfl rfl
    rw [he]
    unfold convert
    split
    · exact announced.trans (.finish _ _ (by exact alive) rfl rfl (.inl rfl) _)
    · unfold saving
      split
      · rename_i store saved
        exact .put (Store.puts_of_save saved).active
          (.inr ⟨j, hm, ⟨rfl, rfl, rfl, rfl, rfl, rfl, rfl, rfl, rfl, rfl⟩, rfl, rfl, rfl, rfl⟩)
          rfl rfl
      · rename_i store fault refused
        refine announced.trans (.finish _ _ ?_ ?_ ?_ (.inr ⟨fault, refused⟩) _)
        · exact alive
        · rfl
        · rfl

theorem neglects_onStep {f : Flight} (sound : e.Sound) (orderly : e.Orderly)
    (hf : f ∈ e.flights) (installed : ¬ e.Lacks f.journey) {task : Nat}
    (taken : (e.flight? f.journey.id).any (·.task = task) = true) (result : StepResult) :
    Neglects { e with flights := e.flights.filter (·.journey.id ≠ f.journey.id) }
      (e.onStep task f.journey.id f.node.id result) := by
  obtain ⟨j, hj, of_j, he⟩ := onStep_of_flight sound orderly hf taken result
  have applied := neglects_apply
    (e := { e with flights := e.flights.filter (·.journey.id ≠ j.id) }) (sound.alive j hj)
    (fun lacks => installed (by rw [Lacks, of_j.campaignId]; exact lacks)) result
  rw [he, of_j.id]
  split
  · exact applied.trans ((abides_neglects []).retryPresentations ..)
  · exact applied

/-- Each step is of a journey whose campaign is installed. -/
def Equipped (e : Engine) : Prop := ∀ f ∈ e.flights, ¬ e.Lacks f.journey

/-- Handling a message that brings no profile neglects the journeys without a campaign. -/
theorem neglects_handle (hears : e.Hears m) (equipped : e.Equipped) (brought : m.profile? = none) :
    Neglects (e.takeIn m) (e.handle m) := by
  have keyed : (e.takeIn m).Keyed := hears.keyed.takeIn m
  obtain ⟨sound, orderly, -, -, not_boot, named⟩ := hears
  match m with
  | .command .boot => exact (not_boot rfl).elim
  | .command (.start campaign user origin) =>
    suffices started : Neglects (e.takeIn (.command (.start campaign user origin)))
        (e.onStart campaign user origin).1 from
      ⟨started.campaigns, started.lying, started.flights⟩
    rcases hv : campaign.validate with _ | _
    · simp only [takeIn, onStart, hv]
      exact .refl e
    · simp only [takeIn, onStart, hv] at keyed ⊢
      exact neglects_enter keyed (List.mem_cons_self ..)
  | .command (.event event) =>
    have looked := (abides_neglects e.store.active).recheck event.occurrence.distinctId
      (.event event.occurrence.name) (List.Subset.refl _)
    have keyed' : (e.recheck event.occurrence.distinctId (.event event.occurrence.name)).Keyed := by
      rw [Keyed, looked.campaigns]
      exact keyed
    exact looked.trans (neglects_along event _ _ keyed' fun _ hc => (mem_chosen hc).1)
  | .report (.profile task (.ok profile) requested) => cases brought
  | .report (.step task id node result) =>
    by_cases taken : (e.flight? id).any (·.task = task) = true
    · obtain ⟨f, hf, ht⟩ := (Option.any_eq_true _ _).mp taken
      have hm := List.mem_of_find?_eq_some hf
      obtain ⟨rfl, rfl⟩ := named task id node result rfl f hm (by simpa using ht)
      unfold takeIn
      dsimp only
      rw [if_pos taken]
      exact neglects_onStep sound orderly hm (equipped f hm) taken result
    · have stale := onStep_of_stale (by simpa using taken) node result
      unfold takeIn
      dsimp only
      rw [if_neg taken]
      exact .of_frame (congrArg campaigns stale) (congrArg (·.store.active) stale)
        (congrArg flights stale)
  | .report (.goal task id metAt) =>
    have dropped : Neglects e (e.dropTask task) := .of_frame rfl rfl rfl
    exact dropped.trans (neglects_onGoal _ _ _)
  | .report (.trigger task campaign user origin holds) =>
    have dropped : Neglects e (e.dropTask task) := .of_frame rfl rfl rfl
    suffices started : Neglects (e.dropTask task)
        ((e.dropTask task).onTrigger campaign user origin holds) from dropped.trans started
    unfold onTrigger
    split
    · rename_i c hc
      split
      · obtain ⟨⟨key, d⟩, hd, rfl⟩ := Option.map_eq_some_iff.mp hc
        exact neglects_enter keyed (List.mem_of_find?_eq_some hd)
      · exact .refl _
    · exact .refl _
  | .command .segmentsChanged | .command .refreshProfile | .command (.contentInvalidated _)
  | .command .resumeDue | .command (.lifecycle _) | .report (.profile _ (.error _) _)
  | .report (.grace _) | .report (.timer ..) =>
    exact (abides_neglects e.store.active).handle (List.Subset.refl _) rfl

/-! ## Profiles -/

/-- Only a profile takes campaigns away. -/
theorem takeIn_keeps (h : m.profile? = none) :
    (e.takeIn m).profileLoaded = e.profileLoaded ∧
      ∀ id, (e.campaigns.get? id).isSome → ((e.takeIn m).campaigns.get? id).isSome := by
  unfold takeIn
  split
  · split
    · exact ⟨rfl, fun id hs => Table.get?_insert_isSome _ _ hs⟩
    · exact ⟨rfl, fun _ hs => hs⟩
  · cases h
  · split <;> exact ⟨rfl, fun _ hs => hs⟩
  · exact ⟨rfl, fun _ hs => hs⟩

theorem lacks_iff_isSome : ¬ e.Lacks j ↔ (e.campaigns.get? j.campaignId).isSome := by
  rw [Lacks, Option.isSome_iff_ne_none]

theorem Lacks.of_takeIn (lacks : (e.takeIn m).Lacks j) (brought : m.profile? = none) :
    e.Lacks j := by
  by_contra installed
  exact lacks_iff_isSome.mpr ((takeIn_keeps brought).2 _ (lacks_iff_isSome.mp installed)) lacks

theorem get?_foldl_insert_isSome (l : List Campaign) (table : Table String Campaign) (id : String) :
    ((l.foldl (fun table c => table.insert c.id c) table).get? id).isSome ↔
      (table.get? id).isSome ∨ ∃ c ∈ l, c.id = id := by
  induction l generalizing table with
  | nil => simp
  | cons c l ih =>
    rw [List.foldl_cons, ih]
    constructor
    · rintro (h | ⟨d, hd, hid⟩)
      · rcases Table.eq_or_isSome_of_get?_insert _ h with rfl | h
        · exact .inr ⟨c, by simp, rfl⟩
        · exact .inl h
      · exact .inr ⟨d, by simp [hd], hid⟩
    · rintro (h | ⟨d, hd, rfl⟩)
      · exact .inl (Table.get?_insert_isSome _ _ h)
      · rcases List.mem_cons.mp hd with rfl | hd
        · exact .inl (by simp)
        · exact .inr ⟨d, hd, rfl⟩

/-- With a profile the campaigns are installed that it offers. -/
theorem lacks_install : (e.install profile).Lacks j ↔ ¬ profile.Offers j.campaignId := by
  have installed := get?_foldl_insert_isSome profile.parseCampaigns.1 [] j.campaignId
  rw [← not_iff_not, lacks_iff_isSome, not_not]
  exact installed.trans (by simp [Table.get?, Profile.Offers])

/-- The record of a journey that ends now because its campaign is gone. -/
def withdrawal (e : Engine) (j : Journey) : Completion :=
  .ofJourney (j.ended .campaignUnavailable e.now)

/-- Ends a journey if its campaign is not installed. -/
def withdraw (e : Engine) (j : Journey) : Engine :=
  if (e.campaigns.get? j.campaignId).isSome then e else e.finish j .campaignUnavailable

theorem onProfile_eq (e : Engine) (profile : Profile) : e.onProfile (.ok profile) =
    (e.store.active.foldl withdraw (e.install profile), .ok ()) := rfl

theorem recorded_finish (e : Engine) (alive : j.isTerminal = false) :
    e.withdrawal j ∈ (e.finish j .campaignUnavailable).store.ledger := by
  rw [(completes_finish alive _ (.inl rfl)).ledger]
  exact List.mem_append_right _ (List.mem_singleton_self _)

theorem withdraw_of_lacks (lacks : e.Lacks j) :
    withdraw e j = e.finish j .campaignUnavailable :=
  if_neg (lacks_iff_isSome.not_right.mp lacks)

/-- Journeys are gone through, and each that is ready for it is withdrawn. One that is ready stays so
until it is its turn. -/
theorem foldl_withdraws {f : Engine → Journey → Engine} {P : Engine → Journey → Prop}
    (calms : ∀ e j, e.Sound → j ∈ e.store.active → Calms e (f e j))
    (others : ∀ e i k, e.Sound → i ∈ e.store.active → k ∈ e.store.active → k.id ≠ i.id →
      k ∈ (f e i).store.active)
    (stays : ∀ e i k, e.Sound → i ∈ e.store.active → k.id ≠ i.id → P e k → P (f e i) k)
    (ends : ∀ e j, e.Sound → j ∈ e.store.active → P e j →
      f e j = e.finish j .campaignUnavailable)
    (l : List Journey) (e : Engine) (sound : e.Sound) (distinct : DistinctIds l)
    (under_way : ∀ j ∈ l, j ∈ e.store.active) :
    Calms e (l.foldl f e) ∧ ∀ j ∈ l, P e j →
      (l.foldl f e).Gone j.id ∧ e.withdrawal j ∈ (l.foldl f e).store.ledger := by
  induction l generalizing e with
  | nil => exact ⟨.refl, by simp⟩
  | cons i l ih =>
    have hi := under_way i (by simp)
    have first := calms e i sound hi
    have sound' := sound.changes first.changes
    obtain ⟨rest, later⟩ := ih (f e i) sound' distinct.tail fun k hk =>
      others e i k sound hi (under_way k (by simp [hk])) (distinct.head_ne hk)
    refine ⟨first.trans rest, fun j hj ready => ?_⟩
    rw [List.foldl_cons]
    rcases List.mem_cons.mp hj with rfl | hj
    · have alive := sound.alive j hi
      have gone : (f e j).Gone j.id := ends e j sound hi ready ▸ gone_finish e alive _
      have recorded : e.withdrawal j ∈ (f e j).store.ledger :=
        ends e j sound hi ready ▸ recorded_finish e alive
      exact ⟨rest.gone gone, (rest.changes.evolves sound').ledger_grows.subset recorded⟩
    · have kept := later j hj (stays e i j sound hi (distinct.head_ne hj) ready)
      rwa [withdrawal, first.changes.now_eq] at kept

theorem withdraws (l : List Journey) (e : Engine) (sound : e.Sound) (distinct : DistinctIds l)
    (under_way : ∀ j ∈ l, j ∈ e.store.active) :
    ∀ j ∈ l, e.Lacks j →
      (l.foldl withdraw e).Gone j.id ∧ e.withdrawal j ∈ (l.foldl withdraw e).store.ledger := by
  have calms : ∀ (e : Engine) j, e.Sound → j ∈ e.store.active → Calms e (withdraw e j) := by
    intro e j sound hj
    unfold withdraw
    split
    · exact .refl
    · exact calms_finish hj (sound.alive j hj) .unavailable
  refine (foldl_withdraws calms ?_ ?_ (fun _ _ _ _ lacks => withdraw_of_lacks lacks) l e sound
    distinct under_way).2
  · intro e i k sound hi hk hne
    unfold withdraw
    split
    · exact hk
    · rw [(completes_finish (sound.alive i hi) _ (.inl rfl)).active, mem_without]
      exact ⟨hk, hne⟩
  · intro e i k sound hi _ lacks
    rwa [Lacks, (calms e i sound hi).changes.campaigns_eq]

theorem handle_profile (e : Engine) (task : Nat) (profile : Profile) (requested : Bool) :
    let withdrawn := ((e.dropTask task).onProfile (.ok profile)).1
    let handled := e.handle (.report (.profile task (.ok profile) requested))
    handled.store = withdrawn.store ∧ handled.campaigns = withdrawn.campaigns := by
  unfold handle onReport
  dsimp only
  split <;> exact ⟨rfl, rfl⟩

/-- A profile that comes in ends the journeys whose campaign it does not offer. -/
theorem withdrawn_of_profile? (sound : e.Sound) (brought : m.profile? = some profile)
    (hj : j ∈ e.store.active) (absent : ¬ profile.Offers j.campaignId) :
    (e.handle m).Gone j.id ∧ e.withdrawal j ∈ (e.handle m).store.ledger := by
  obtain ⟨task, requested, rfl⟩ := Message.profile?_eq_some.mp brought
  have dropped : (e.dropTask task).Sound := ⟨sound.distinct, sound.alive⟩
  have installed : ((e.dropTask task).install profile).Sound := ⟨sound.distinct, sound.alive⟩
  obtain ⟨store, -⟩ := e.handle_profile task profile requested
  rw [Gone, store, onProfile_eq]
  exact withdraws e.store.active _ installed sound.distinct (fun _ hj => hj) j hj
    (lacks_install.mpr absent)

/-- Once a profile has come in, the campaign of every journey is installed. -/
theorem installed_of_profile? (sound : e.Sound) (brought : m.profile? = some profile)
    (hk : k ∈ (e.handle m).store.active) : ¬ (e.handle m).Lacks k := by
  intro lacks
  obtain ⟨task, requested, rfl⟩ := Message.profile?_eq_some.mp brought
  obtain ⟨store, campaigns⟩ := e.handle_profile task profile requested
  have calms := calms_onProfile (e := e.dropTask task) ⟨sound.distinct, sound.alive⟩ profile
  obtain ⟨j, hj, continues⟩ := Quiets.continues calms.quiets (store ▸ hk)
  have absent : ¬ profile.Offers j.campaignId := by
    rw [← lacks_install (e := e.dropTask task), Lacks, ← calms.changes.campaigns_eq, ← campaigns,
      ← continues.campaignId]
    exact lacks
  exact (withdrawn_of_profile? sound brought hj absent).1 k hk continues.id

/-- A journey that lacks its campaign lacked it before, and lies where it lay. -/
theorem Lacks.before (lacks : (e.handle m).Lacks k) (hk : k ∈ (e.handle m).store.active)
    (hears : e.Hears m) (equipped : e.Equipped) :
    m.profile? = none ∧ ∃ j ∈ e.store.active, e.Lacks j ∧ j.Remains k := by
  rcases brought : m.profile? with _ | profile
  · have neglects := neglects_handle hears equipped brought
    obtain ⟨j, hj, remains⟩ := neglects.lying k hk (neglects.lacks_iff.mp lacks)
    have lacked : (e.takeIn m).Lacks j := by
      rw [Lacks, ← remains.campaignId]
      exact neglects.lacks_iff.mp lacks
    exact ⟨rfl, j, by simpa using hj, lacked.of_takeIn brought, remains⟩
  · exact (installed_of_profile? hears.sound brought hk lacks).elim

theorem Equipped.handle (equipped : e.Equipped) (hears : e.Hears m)
    (orderly : (e.handle m).Orderly) : (e.handle m).Equipped := by
  intro f hf lacks
  rcases brought : m.profile? with _ | profile
  · have neglects := neglects_handle hears equipped brought
    have lacked := neglects.lacks_iff.mp lacks
    rcases neglects.flights f hf with hf | installed
    · exact equipped f ((e.takeIn_flights m).subset hf) (lacked.of_takeIn brought)
    · exact installed lacked
  · obtain ⟨j, hj, of_j⟩ := orderly.anchored f hf
    refine installed_of_profile? hears.sound brought hj ?_
    rwa [Lacks, ← of_j.campaignId]

/-! ## Coming up -/

/-- A journey flies after a drive only if it did before, or was driven. -/
theorem isFlying_drive {reason : ResumeReason} {driven : JourneyId}
    (flying : (e.drive driven reason).isFlying id = true) (hne : id ≠ driven) :
    e.isFlying id = true := by
  unfold drive at flying
  split at flying
  · exact flying
  · split at flying
    · rename_i j hj
      obtain ⟨-, rfl⟩ := mem_of_get? hj
      split at flying
      · exact flying
      · rename_i alive
        have alive : j.isTerminal = false := by simpa using alive
        unfold driveAt at flying
        split at flying
        · split at flying
          · exact flying_of_finish alive flying
          · exact flying
        · split at flying
          · exact flying_of_finish alive flying
          · obtain ⟨f, hf, rfl⟩ := isFlying_iff.mp flying
            rcases List.mem_append.mp hf with hf | hf
            · exact isFlying_iff.mpr ⟨f, hf, rfl⟩
            · obtain rfl := List.mem_singleton.mp hf
              exact (hne rfl).elim
    · exact flying

theorem isFlying_restore {now : Instant} (flying : (e.restore now j).isFlying id = true)
    (hne : id ≠ j.id) : e.isFlying id = true := by
  unfold restore at flying
  split at flying
  · rwa [setTimer_isFlying] at flying
  · exact isFlying_drive flying hne

/-- A journey that is not let wait ends if its campaign is not installed. -/
theorem restore_of_lacks (sound : e.Sound) (loaded : e.profileLoaded = true)
    (under_way : j ∈ e.store.active) (free : e.isFlying j.id = false) (lacks : e.Lacks j)
    {now : Instant} (hw : ¬ j.Awaits now) : e.restore now j = e.finish j .campaignUnavailable := by
  unfold restore
  rw [if_neg (by exact hw)]
  simp only [drive, free, sound.get?_eq under_way, sound.alive j under_way, driveAt, loaded,
    Bool.false_eq_true, if_false, if_true]
  rw [lacks]

/-- An engine that takes up its journeys with a profile ends those that have no campaign and are not
let wait. -/
theorem restores_end (now : Instant) (l : List Journey) (e : Engine) (sound : e.Sound)
    (loaded : e.profileLoaded = true) (distinct : DistinctIds l)
    (under_way : ∀ j ∈ l, j ∈ e.store.active) (free : e.flights = []) :
    ∀ j ∈ l, e.Lacks j → ¬ j.Awaits now → (l.foldl (·.restore now) e).Gone j.id ∧
      e.withdrawal j ∈ (l.foldl (·.restore now) e).store.ledger := by
  intro j hj lacks hw
  refine (foldl_withdraws (f := fun e j => e.restore now j)
    (P := fun e j => e.profileLoaded = true ∧ e.isFlying j.id = false ∧ e.Lacks j ∧
      ¬ j.Awaits now) (fun _ _ _ => calms_restore) (fun _ _ _ _ _ => mem_restore) ?_ ?_ l e sound
    distinct under_way).2 j hj ⟨loaded, by simp [isFlying_eq_false, free], lacks, hw⟩
  · rintro e i k - hi hne ⟨loaded, free, lacks, hw⟩
    refine ⟨(calms_restore hi).changes.profileLoaded_eq.trans loaded, ?_,
      ((abides_neglects []).restore now e i).lacks_iff.mpr lacks, hw⟩
    by_contra flying
    have flew := isFlying_restore (by simpa using flying) hne
    simp [free] at flew
  · rintro e j sound hj ⟨loaded, free, lacks, hw⟩
    exact restore_of_lacks sound loaded hj free lacks hw

section

variable {snapshot : Snapshot}

theorem BootsFrom.neglects_raise (boots : e.BootsFrom snapshot) :
    Neglects e.greeted (Session.raise e).engine :=
  (abides_neglects _).boot boots.held (List.Subset.refl _)

theorem BootsFrom.greeted_flights (boots : e.BootsFrom snapshot) : e.greeted.flights = [] := by
  obtain ⟨campaigns, installed, hg⟩ := e.greeted_eq
  rw [hg]
  exact boots.flights_eq

theorem BootsFrom.equipped_raise (boots : e.BootsFrom snapshot) :
    (Session.raise e).engine.Equipped := by
  intro f hf lacks
  rcases boots.neglects_raise.flights f hf with hf | installed
  · simp [boots.greeted_flights] at hf
  · exact installed (boots.neglects_raise.lacks_iff.mp lacks)

theorem greeted_active (e : Engine) : e.greeted.store.active = e.store.recovered.active := by
  obtain ⟨campaigns, installed, hg⟩ := e.greeted_eq
  rw [hg]

theorem lacks_greeted (fetched : e.host.fetchProfile = .ok profile) :
    e.greeted.Lacks j ↔ ¬ profile.Offers j.campaignId := by
  have same : e.greeted.campaigns = (e.install profile).campaigns := by
    simp [greeted, fetched, install]
  rw [← lacks_install (e := e), Lacks, same, Lacks]

/-- With a profile the engine takes up no journey whose campaign it does not offer, except to let it
wait. -/
theorem BootsFrom.withdrawn (boots : e.BootsFrom snapshot)
    (fetched : e.host.fetchProfile = .ok profile) (hj : j ∈ e.store.recovered.active)
    (absent : ¬ profile.Offers j.campaignId) (hw : ¬ j.Awaits e.now) :
    (Session.raise e).engine.Gone j.id ∧
      e.withdrawal j ∈ (Session.raise e).engine.store.ledger := by
  have sound := sound_greeted boots.held
  let journeys := e.greeted.store.active
  let restored : Engine := journeys.foldl (·.restore e.now) e.greeted
  have first : Calms e.greeted restored :=
    calms_restores e.now journeys e.greeted sound.distinct fun _ hj => hj
  have rest : Calms restored (Session.raise e).engine := by
    rw [boots.raise_eq]
    exact (Calms.foldl calms_checkGoal journeys restored).tail (.answer _ _)
  have under_way : j ∈ e.greeted.store.active := by rwa [greeted_active]
  obtain ⟨gone, recorded⟩ := restores_end e.now journeys e.greeted sound
    (profileLoaded_greeted fetched) sound.distinct (fun _ hj => hj) boots.greeted_flights j
    under_way ((lacks_greeted fetched).mpr absent) hw
  have now : e.greeted.now = e.now := by
    obtain ⟨campaigns, installed, hg⟩ := e.greeted_eq
    rw [hg]
    rfl
  rw [withdrawal, now] at recorded
  exact ⟨rest.gone gone, (rest.changes.evolves (sound.changes first.changes)).ledger_grows.subset
    recorded⟩

/-- A journey that comes up with a profile and without its campaign is let wait. -/
theorem BootsFrom.awaits_of_lacks (boots : e.BootsFrom snapshot)
    (fetched : e.host.fetchProfile = .ok profile) (hk : k ∈ (Session.raise e).engine.store.active)
    (lacks : (Session.raise e).engine.Lacks k) :
    ∃ j ∈ e.store.recovered.active, ¬ profile.Offers j.campaignId ∧ j.Awaits e.now ∧
      j.Remains k := by
  have neglects := boots.neglects_raise
  have lacked := neglects.lacks_iff.mp lacks
  obtain ⟨j, hj, remains⟩ := neglects.lying k hk lacked
  rw [greeted_active] at hj
  have absent : ¬ profile.Offers j.campaignId := by
    rw [← lacks_greeted fetched, Lacks, ← remains.campaignId]
    exact lacked
  refine ⟨j, hj, absent, ?_, remains⟩
  by_contra hw
  exact (boots.withdrawn fetched hj absent hw).1 k hk remains.id

end

end Engine

end Engagement
