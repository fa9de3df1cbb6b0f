import Engagement.Proofs.Campaign.Graphs
import Engagement.Proofs.Engine.Deeds
import Engagement.Proofs.Engine.Rounds
import Engagement.Proofs.Journey.Waits

/-! # Waits on a timeline

Where every limit of a wait, counted from one of some times, is over at one of them or after them
all, a clock that stands at one of the times after the other never skips a deadline: journeys wait
only for deadlines of that kind.
-/

namespace Engagement

/-! ## Deadlines of steps -/

/-- The paths of a node that waits. -/
def Action.paths : Action → List WaitPath
  | .waitUntil paths => paths
  | _ => []

namespace StepResult

/-- The instant until which the journey is to wait. -/
def deadline? : StepResult → Option Instant
  | .suspend deadline => deadline
  | _ => none

@[simp] theorem proceedOrEnd_deadline? (next : Option String) :
    (proceedOrEnd next).deadline? = none := by
  cases next <;> rfl

end StepResult

namespace Step

variable {node : Node} {journey : Journey} {ctx : StepContext} {result : StepResult} {d : Instant}

theorem conclude_deadline? (host : Host) (node : Node) (journey : Journey) (flow : String)
    (showing : Showing) : (conclude host node journey flow showing).2.deadline? = none := by
  unfold conclude
  split
  · rfl
  · rfl
  · rfl
  · dsimp only
    split
    · exact StepResult.proceedOrEnd_deadline? _
    · exact StepResult.proceedOrEnd_deadline? _
    · rfl
    · rfl
    · rfl

theorem showContent_deadline? {host : Host} {flow : String}
    (h : (showContent host node journey flow ctx).2 = .finished result) :
    result.deadline? = none := by
  unfold showContent at h
  split at h
  · obtain rfl := Progress.finished.inj h
    rfl
  · dsimp only at h
    split at h
    · cases h
    · obtain rfl := Progress.finished.inj h
      exact conclude_deadline? ..

theorem change_deadline? {host : Host} {service : String} {changed : Except HostFault Host}
    (h : (change host node service changed).2 = .finished result) : result.deadline? = none := by
  unfold change at h
  split at h
  · obtain rfl := Progress.finished.inj h
    exact StepResult.proceedOrEnd_deadline? _
  · obtain rfl := Progress.finished.inj h
    rfl

/-- Only nodes that wait come to a deadline: that of one of their limits. -/
theorem Finds.of_deadline? (h : Finds node journey ctx result) (hd : result.deadline? = some d) :
    ∃ path ∈ node.action.paths, path.deadline? journey.enteredAt = some d := by
  have none_left : ∀ {r : StepResult}, result = r → r.deadline? = none → False := by
    rintro _ rfl hn
    cases hd.symm.trans hn
  cases h with
  | @atOnce host _ _ h =>
    have h : (execute host node journey ctx).2 = .finished result := by rw [h]
    unfold execute at h
    split at h
    case h_1 =>
      refine (none_left (Progress.finished.inj h).symm ?_).elim
      split <;> rfl
    case h_2 => exact (none_left rfl (showContent_deadline? h)).elim
    case h_3 paths waits =>
      obtain rfl := Progress.finished.inj h
      rw [waits, Action.paths]
      generalize hr : waitUntil (host.reader journey.distinctId ctx.now none) journey.enteredAt
        ctx.now paths = result at hd
      cases result with
      | suspend deadline =>
        obtain rfl : deadline = some d := hd
        exact deadline_of_suspend hr
      | _ => cases hd
    case h_4 =>
      refine (none_left (Progress.finished.inj h).symm ?_).elim
      unfold randomBranch
      split <;> rfl
    case h_5 =>
      split at h
      · exact (none_left (Progress.finished.inj h).symm rfl).elim
      · exact (none_left rfl (change_deadline? h)).elim
    case h_6 => exact (none_left rfl (change_deadline? h)).elim
    case h_7 =>
      split at h
      · exact (none_left (Progress.finished.inj h).symm rfl).elim
      · exact (none_left rfl (change_deadline? h)).elim
    case h_8 => exact (none_left (Progress.finished.inj h).symm rfl).elim
  | closing shows h =>
    exact (none_left (congrArg Prod.snd h).symm (conclude_deadline? ..)).elim

end Step

/-! ## What suits some times -/

variable {times : List Instant} {now : Instant} {j k : Journey}

/-- The instant is one of the times, or none of them comes after it. -/
def Instant.Suits (t : Instant) (times : List Instant) : Prop := t ∈ times ∨ ∀ u ∈ times, u ≤ t

instance (t : Instant) : Decidable (t.Suits times) := inferInstanceAs (Decidable (_ ∨ _))

/-- Counted from any of the times, the limit is over at an instant that suits them. -/
def WaitPath.Suits (path : WaitPath) (times : List Instant) : Prop :=
  ∀ t ∈ times, ∀ d ∈ path.deadline? t, d.Suits times

instance (path : WaitPath) : Decidable (path.Suits times) :=
  inferInstanceAs (Decidable (∀ t ∈ times, ∀ d ∈ path.deadline? t, d.Suits times))

/-- Every limit of a wait suits the times. -/
def Campaign.Suits (campaign : Campaign) (times : List Instant) : Prop :=
  ∀ node ∈ campaign.nodes, ∀ path ∈ node.action.paths, path.Suits times

instance (campaign : Campaign) : Decidable (campaign.Suits times) :=
  inferInstanceAs
    (Decidable (∀ node ∈ campaign.nodes, ∀ path ∈ node.action.paths, path.Suits times))

/-- The campaigns that can be installed suit the times. -/
def Profile.Suits (profile : Profile) (times : List Instant) : Prop :=
  ∀ campaign ∈ profile.parseCampaigns.1, campaign.Suits times

instance (profile : Profile) : Decidable (profile.Suits times) :=
  inferInstanceAs (Decidable (∀ campaign ∈ profile.parseCampaigns.1, campaign.Suits times))

def StepResult.Suits (result : StepResult) (times : List Instant) : Prop :=
  ∀ d ∈ result.deadline?, d.Suits times

structure Journey.Suits (j : Journey) (times : List Instant) : Prop where
  entered : j.enteredAt ∈ times
  due : ∀ d ∈ j.resumeAt, d.Suits times

structure Flight.Suits (f : Flight) (times : List Instant) : Prop where
  entered : f.journey.enteredAt ∈ times
  paths : ∀ path ∈ f.node.action.paths, path.Suits times
  found : ∀ result, f.phase = .finished result → result.Suits times

/-- The message is not the one on which the engine comes up, and what it brings suits the times. -/
def Message.Suits (times : List Instant) : Message → Prop
  | .command .boot => False
  | .command (.start campaign ..) => campaign.Suits times
  | .report (.profile _ (.ok profile) _) => profile.Suits times
  | .report (.step _ _ _ result) => result.Suits times
  | _ => True

theorem Flight.Suits.of_finds {f : Flight} {result : StepResult} (suits : f.Suits times)
    (finds : Step.Finds f.node f.journey f.context result) : result.Suits times := by
  intro d hd
  obtain ⟨path, hp, ends⟩ := finds.of_deadline? hd
  exact suits.paths path hp _ suits.entered d ends

namespace Engine

variable {e e' : Engine}

/-- The clock stands at `now`, which is one of the times, and everything at hand suits them. -/
structure Suits (times : List Instant) (now : Instant) (e : Engine) : Prop where
  clock : e.now = now
  reached : now ∈ times
  profile : e.host.profile.Suits times
  campaigns : ∀ entry ∈ e.campaigns, entry.2.Suits times
  journeys : ∀ j ∈ e.store.active, j.Suits times
  steps : ∀ f ∈ e.flights, f.Suits times

namespace Suits

theorem of_parts (suits : e.Suits times now) (clock : e'.now = e.now)
    (profile : e'.host.profile = e.host.profile) (campaigns : e'.campaigns = e.campaigns)
    (journeys : ∀ j ∈ e'.store.active, j ∈ e.store.active ∨ j.Suits times)
    (steps : ∀ f ∈ e'.flights, f ∈ e.flights ∨ f.Suits times) : e'.Suits times now where
  clock := clock.trans suits.clock
  reached := suits.reached
  profile := profile ▸ suits.profile
  campaigns := campaigns ▸ suits.campaigns
  journeys j hj := (journeys j hj).elim (suits.journeys j) id
  steps f hf := (steps f hf).elim (suits.steps f) id

theorem reads_clock (suits : e.Suits times now) : e.now ∈ times := suits.clock ▸ suits.reached

/-- Elsewhere the engine may change. -/
theorem of_same (suits : e.Suits times now) (clock : e'.now = e.now)
    (profile : e'.host.profile = e.host.profile) (campaigns : e'.campaigns = e.campaigns)
    (active : e'.store.active = e.store.active) (flights : e'.flights = e.flights) :
    e'.Suits times now :=
  suits.of_parts clock profile campaigns (fun _ hj => .inl (active ▸ hj))
    fun _ hf => .inl (flights ▸ hf)

theorem finish (suits : e.Suits times now) (j : Journey) (reason : ExitReason) :
    (e.finish j reason).Suits times now := by
  have left : ∀ f ∈ e.flights.filter (·.journey.id ≠ j.id), f ∈ e.flights ∨ f.Suits times :=
    fun _ hf => .inl (List.mem_filter.mp hf).1
  unfold Engine.finish
  rw [abandon_eq]
  dsimp only
  split
  · exact suits.of_parts rfl rfl rfl (fun _ hi => .inl hi) left
  · rename_i ended _
    refine suits.of_parts rfl rfl rfl (fun i hi => .inl ?_) left
    have active := (Store.completes_complete e.store ended).active
    exact (mem_without.mp (active ▸ hi)).1

theorem drive (suits : e.Suits times now) (id : JourneyId) (reason : ResumeReason) :
    (e.drive id reason).Suits times now := by
  unfold Engine.drive
  split
  · exact suits.of_same rfl rfl rfl rfl rfl
  · split
    · rename_i j hj
      split
      · exact suits
      · unfold driveAt
        split
        · split
          · exact suits.finish j _
          · exact suits
        · rename_i campaign installed
          split
          · exact suits.finish j _
          · rename_i node here
            refine suits.of_parts rfl rfl rfl (fun _ hi => .inl hi) fun f hf => ?_
            rcases List.mem_append.mp hf with hf | hf
            · exact .inl hf
            · obtain rfl := List.mem_singleton.mp hf
              obtain ⟨entry, hm, rfl⟩ := Option.map_eq_some_iff.mp installed
              exact .inr ⟨(suits.journeys j (mem_of_get? hj).1).entered,
                suits.campaigns entry (List.mem_of_find?_eq_some hm) node
                  (List.mem_of_find?_eq_some here), by simp⟩
    · exact suits

theorem checkGoal (suits : e.Suits times now) (j : Journey) :
    (e.checkGoal j).Suits times now := by
  obtain ⟨tasks, last, he, -⟩ := e.checkGoal_eq j
  rw [he]
  exact suits.of_same rfl rfl rfl rfl rfl

/-- Going around its journeys, the engine goes on to suit the times. -/
theorem abides (times : List Instant) (now : Instant) (l : List Journey) :
    Abides l fun e e' => e.Suits times now → e'.Suits times now where
  trans h h' suits := h' (h suits)
  touch touches suits := by
    rw [touches.frame]
    exact suits.of_same rfl rfl rfl rfl rfl
  dropTask _ _ suits := suits.of_same rfl rfl rfl rfl rfl
  spawn _ _ _ suits := suits.of_same rfl rfl rfl rfl rfl
  checkGoal _ j _ suits := suits.checkGoal j
  drive _ id reason suits := suits.drive id reason

/-- A journey is put into the mirror. -/
theorem put (suits : e.Suits times now) (fits : j.Suits times) (clock : e'.now = e.now)
    (profile : e'.host.profile = e.host.profile) (campaigns : e'.campaigns = e.campaigns)
    (active : e'.store.active = upsert j e.store.active) (flights : e'.flights = e.flights) :
    e'.Suits times now := by
  refine suits.of_parts clock profile campaigns (fun i hi => ?_) fun _ hf => .inl (flights ▸ hf)
  rcases mem_of_mem_upsert (active ▸ hi) with rfl | hi
  · exact .inr fits
  · exact .inl hi

theorem saving (suits : e.Suits times now) (fits : j.Suits times) {next : Engine → Engine}
    (goes_on : ∀ e : Engine, e.Suits times now → (next e).Suits times now) :
    (e.saving j next).Suits times now := by
  unfold Engine.saving
  split
  · rename_i store saved
    have active := (Store.puts_of_save saved).active
    exact goes_on { e with store := store } (suits.put fits rfl rfl rfl active rfl)
  · rename_i store fault refused
    have active := (Store.of_save_error refused).1
    exact finish (e := { e with store := store }) (suits.put fits rfl rfl rfl active rfl) j _

/-! ## Steps -/

theorem advance (suits : e.Suits times now) (alive : j.isTerminal = false) (next : String)
    (kind : Analytics.Kind) : (e.advance j next kind).Suits times now := by
  have counted : ∀ steps, ({ e with steps := steps } : Engine).Suits times now :=
    fun steps => suits.of_same rfl rfl rfl rfl rfl
  unfold Engine.advance
  dsimp only
  split
  · exact (counted _).finish j _
  · rw [Journey.advanceTo_of_alive alive]
    have fits : (e.movedTo j next).Suits times := ⟨suits.reads_clock, by simp [movedTo]⟩
    refine (counted _).saving (j := e.movedTo j next) fits fun e' suits => ?_
    have reported : (e'.report kind (e.movedTo j next) j.node (some next)).Suits times now :=
      suits.of_same rfl rfl rfl rfl rfl
    exact reported.drive _ _

theorem park (suits : e.Suits times now) (under_way : j ∈ e.store.active)
    (alive : j.isTerminal = false) {deadline : Option Instant}
    (due : ∀ d ∈ deadline, d.Suits times) : (e.park j deadline).Suits times now := by
  have fits : (e.parkedUntil j deadline).Suits times :=
    ⟨(suits.journeys j under_way).entered, due⟩
  have timed : ∀ e' : Engine, e'.Suits times now →
      ((e'.setTimer (e.parkedUntil j deadline)).drivePending j.id).Suits times now := fun e' suits =>
    (abides times now []).drivePending _ _ ((abides times now []).setTimer e' _ suits)
  rcases e.park_cases alive deadline with ⟨store, fault, refused, he⟩ |
    ⟨e', he, ⟨-, -, rfl⟩ | ⟨store, saved, rfl⟩⟩ <;> rw [he]
  · have active := (Store.of_save_error refused).1
    exact finish (e := { e with steps := e.steps.erase j.id, store := store })
      (suits.put fits rfl rfl rfl active rfl) _ _
  · exact timed _ (suits.of_same rfl rfl rfl rfl rfl)
  · exact timed _ (suits.put fits rfl rfl rfl (Store.puts_of_save saved).active rfl)

theorem apply (suits : e.Suits times now) (under_way : j ∈ e.store.active)
    (alive : j.isTerminal = false) {result : StepResult} (found : result.Suits times) :
    (e.apply j result).Suits times now := by
  match result with
  | .proceed next => exact suits.advance alive next _
  | .skip (some next) => exact suits.advance alive next _
  | .skip none => exact suits.finish j _
  | .suspend deadline => exact suits.park under_way alive found
  | .complete reason => exact suits.finish j reason

theorem onStep (suits : e.Suits times now) (task : Nat) (id : JourneyId) (node : String)
    {result : StepResult} (found : result.Suits times) :
    (e.onStep task id node result).Suits times now := by
  have landed : ({ e with flights := e.flights.filter (·.journey.id ≠ id) } : Engine).Suits
      times now :=
    suits.of_parts rfl rfl rfl (fun _ hj => .inl hj) fun _ hf => .inl (List.mem_filter.mp hf).1
  unfold Engine.onStep
  split
  · exact suits
  · split
    · exact suits
    · dsimp only
      split
      · exact landed
      · rename_i j hj
        split
        · exact landed
        · rename_i here
          have alive : j.isTerminal = false := by simpa using (not_or.mp here).1
          have applied := landed.apply (mem_of_get? hj).1 alive found
          split
          · exact (abides times now []).retryPresentations _ _ applied
          · exact applied

/-! ## Other messages -/

theorem enter (suits : e.Suits times now) (campaign : Campaign) (user : String)
    (origin : Option Origin) : (e.enter campaign user origin).1.Suits times now := by
  unfold Engine.enter
  split
  · exact suits.of_same rfl rfl rfl rfl rfl
  · have fits : (e.newcomer campaign user origin).Suits times :=
      ⟨suits.reads_clock, by simp [newcomer, Journey.start]⟩
    have started : ∀ store : Store,
        store.active = upsert (e.newcomer campaign user origin) e.store.active →
        ({ e with issued := e.issued + 1, store := store } : Engine).Suits times now :=
      fun store active => suits.put fits rfl rfl rfl active rfl
    dsimp only
    split
    · rename_i store fault refused
      exact (started store (Store.of_save_error refused).1).finish
        (e.newcomer campaign user origin) (.errored fault.message)
    · rename_i store saved
      have entered : (e.entered store (e.newcomer campaign user origin)).Suits times now :=
        ((started store (Store.puts_of_save saved).active).checkGoal _).of_same rfl rfl rfl rfl rfl
      exact entered.drive _ _

theorem onGoal (suits : e.Suits times now) (id : JourneyId) (metAt : Option Instant) :
    (e.onGoal id metAt).Suits times now := by
  rcases e.onGoal_cases id metAt with he | ⟨t, j, k, -, hj, -, recorded, he⟩ <;> rw [he]
  · exact suits
  · obtain rfl := Journey.of_recordConversion recorded
    obtain ⟨entered, due⟩ := suits.journeys j (mem_of_get? hj).1
    have announced : (e.report .goalMet { j with convertedAt := some t } j.node none).Suits
        times now := suits.of_same rfl rfl rfl rfl rfl
    unfold convert
    split
    · exact announced.finish _ _
    · exact announced.saving (j := { j with convertedAt := some t, updatedAt := e.now })
        ⟨entered, due⟩ fun _ suits => suits

theorem install (suits : e.Suits times now) {profile : Profile} (fits : profile.Suits times) :
    (e.install profile).Suits times now where
  clock := suits.clock
  reached := suits.reached
  profile := suits.profile
  campaigns entry h := by
    rcases mem_foldl_insert _ h with h | ⟨c, hc, rfl⟩
    · cases h
    · exact fits c hc
  journeys := suits.journeys
  steps := suits.steps

theorem onProfile (suits : e.Suits times now) {profile : Profile} (fits : profile.Suits times) :
    (e.onProfile (.ok profile)).1.Suits times now := by
  refine (abides times now []).foldl (fun e j _ suits => ?_) _ (suits.install fits)
  split
  · exact suits
  · exact suits.finish j _

theorem onStart (suits : e.Suits times now) {campaign : Campaign} (fits : campaign.Suits times)
    (user : String) (origin : Option Origin) :
    (e.onStart campaign user origin).1.Suits times now := by
  unfold Engine.onStart
  split
  · exact suits
  · refine enter (e := { e with campaigns := e.campaigns.insert campaign.id campaign })
      ⟨suits.clock, suits.reached, suits.profile, fun entry h => ?_, suits.journeys, suits.steps⟩
      campaign user origin
    rcases List.mem_cons.mp h with rfl | h
    · exact fits
    · exact suits.campaigns entry (List.mem_filter.mp h).1

theorem onEvent (suits : e.Suits times now) (event : HostEvent) :
    (e.onEvent event).Suits times now := by
  have looked := (abides times now e.store.active).recheck event.occurrence.distinctId
    (.event event.occurrence.name) (List.Subset.refl _) suits
  refine (abides times now []).foldl (fun e c _ suits => ?_) _ looked
  obtain ⟨campaign, condition⟩ := c
  cases condition with
  | none => exact suits.enter ..
  | some condition => exact suits.of_same rfl rfl rfl rfl rfl

theorem onTrigger (suits : e.Suits times now) (campaign user : String) (origin : Option Origin)
    (holds : Bool) : (e.onTrigger campaign user origin holds).Suits times now := by
  unfold Engine.onTrigger
  split
  · split
    · exact suits.enter ..
    · exact suits
  · exact suits

/-- On every message that suits the times, but for the one on which it comes up, the engine goes on
to suit them. -/
theorem handle (suits : e.Suits times now) {m : Message} (fits : m.Suits times) :
    (e.handle m).Suits times now := by
  have dropped : ∀ task, (e.dropTask task).Suits times now :=
    fun task => suits.of_same rfl rfl rfl rfl rfl
  match m with
  | .command .boot => exact fits.elim
  | .command (.start campaign user origin) =>
    exact (suits.onStart fits user origin).of_same rfl rfl rfl rfl rfl
  | .command (.event event) => exact suits.onEvent event
  | .report (.profile task (.ok profile) requested) =>
    have installed := (dropped task).onProfile fits
    unfold Engine.handle onReport
    dsimp only
    split
    · exact installed.of_same rfl rfl rfl rfl rfl
    · exact installed
  | .report (.step task id node result) => exact suits.onStep task id node fits
  | .report (.goal task id metAt) => exact (dropped task).onGoal id metAt
  | .report (.trigger task campaign user origin holds) =>
    exact (dropped task).onTrigger campaign user origin holds
  | .command .segmentsChanged | .command .refreshProfile | .command (.contentInvalidated _)
  | .command .resumeDue | .command (.lifecycle _) | .report (.profile _ (.error _) _)
  | .report (.grace _) | .report (.timer ..) =>
    exact (abides times now e.store.active).handle (List.Subset.refl _) rfl suits

end Suits

end Engine

end Engagement
