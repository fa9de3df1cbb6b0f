import Engagement.Proofs.Engine.Deeds
import Engagement.Proofs.Store.Bystanders

/-! # Journeys that an event passes by

Driving a journey, ending it and starting one leave all that is held of any other journey as it is:
what the store and its storage hold, the step under way, the reason to drive it again, its timers
and the count of its steps. An event of a user does no more than look at the user's journeys and
start some, so it passes by all others.
-/

namespace Engagement

namespace Engine

variable {e e' e'' : Engine} {id : JourneyId} {j : Journey}

/-- All that is held of a journey stays. -/
structure Spares (id : JourneyId) (e e' : Engine) : Prop where
  store : e.store.Spares id e'.store
  flight : e'.flights.filter (·.journey.id = id) = e.flights.filter (·.journey.id = id)
  pending : e'.pending.get? id = e.pending.get? id
  timers : e'.timers.filter (·.journey = id) = e.timers.filter (·.journey = id)
  steps : e'.steps.get? id = e.steps.get? id

namespace Spares

theorem refl (id : JourneyId) (e : Engine) : Spares id e e := ⟨.refl _ _, rfl, rfl, rfl, rfl⟩

theorem trans (h : Spares id e e') (h' : Spares id e' e'') : Spares id e e'' :=
  ⟨h.store.trans h'.store, h'.flight.trans h.flight, h'.pending.trans h.pending,
    h'.timers.trans h.timers, h'.steps.trans h.steps⟩

theorem foldl {α : Type} {f : Engine → α → Engine} {l : List α}
    (h : ∀ e, ∀ a ∈ l, Spares id e (f e a)) (e : Engine) : Spares id e (l.foldl f e) :=
  List.foldlRecOn l f (.refl id e) fun e' so_far a ha => so_far.trans (h e' a ha)

end Spares

theorem spares_spawn (id : JourneyId) (e : Engine) (job : Job) : Spares id e (e.spawn job) :=
  ⟨.refl _ _, rfl, rfl, rfl, rfl⟩

theorem spares_note (id : JourneyId) (e : Engine) (event : Analytics.Event) :
    Spares id e (e.note event) := ⟨.refl _ _, rfl, rfl, rfl, rfl⟩

theorem spares_checkGoal (id : JourneyId) (e : Engine) (j : Journey) :
    Spares id e (e.checkGoal j) := by
  obtain ⟨tasks, last, h, -⟩ := e.checkGoal_eq j
  rw [h]
  exact ⟨.refl _ _, rfl, rfl, rfl, rfl⟩

theorem filter_timers_of_ne (other : j.id ≠ id) (timers : List Timer) :
    (timers.filter fun t => !(t.held && t.journey = j.id)).filter (·.journey = id) =
      timers.filter (·.journey = id) := by
  rw [List.filter_filter]
  refine List.filter_congr fun t _ => ?_
  by_cases here : t.journey = id
  · simp [here, other.symm]
  · simp [here]

theorem spares_remember (e : Engine) (other : j.id ≠ id) (reason : ResumeReason) :
    Spares id e { e with pending := e.pending.insert j.id reason } :=
  ⟨.refl _ _, rfl, Table.get?_insert_of_ne _ other.symm reason, rfl, rfl⟩

theorem spares_launch (other : j.id ≠ id) (e : Engine) (node : Node) :
    Spares id e (e.launch j node) :=
  ⟨.refl _ _, by simp [launch, other], rfl, rfl, rfl⟩

theorem spares_cancelTimer (other : j.id ≠ id) (e : Engine) : Spares id e (e.cancelTimer j.id) :=
  ⟨.refl _ _, rfl, rfl, filter_timers_of_ne other _, rfl⟩

theorem spares_forgetSteps (other : j.id ≠ id) (e : Engine) :
    Spares id e { e with steps := e.steps.erase j.id } :=
  ⟨.refl _ _, rfl, rfl, rfl, Table.get?_erase_of_ne _ other.symm⟩

/-- Ending a journey passes by the others, also when a save of it has failed before. -/
theorem spares_finish {before : Store} (other : j.id ≠ id) (alive : j.isTerminal = false)
    (reason : ExitReason)
    (store_eq : e.store = before ∨ ∃ fault, before.save j = (e.store, .error fault)) :
    Spares id { e with store := before } (e.finish j reason) := by
  have completes := completes_finish alive reason store_eq
  refine ⟨completes.spares other, ?_, ?_, ?_, ?_⟩ <;> rw [finish_eq e alive]
  · rw [List.filter_filter]
    refine List.filter_congr fun f _ => ?_
    by_cases here : f.journey.id = id
    · simp [here, other.symm]
    · simp [here]
  · exact Table.get?_erase_of_ne _ other.symm
  · exact filter_timers_of_ne other _
  · exact Table.get?_erase_of_ne _ other.symm

theorem spares_driveAt (other : j.id ≠ id) (alive : j.isTerminal = false) (e : Engine)
    (reason : ResumeReason) : Spares id e (e.driveAt j reason) := by
  unfold driveAt
  split
  · split
    · exact spares_finish other alive _ (.inl rfl)
    · exact .refl id e
  · split
    · exact spares_finish other alive _ (.inl rfl)
    · have launched (e : Engine) (node : Node) :
          Spares id e ((e.cancelTimer j.id).launch j node) :=
        (spares_cancelTimer other e).trans (spares_launch other _ node)
      split
      · exact launched e _
      · exact (spares_forgetSteps other e).trans (launched _ _)

theorem spares_drive (other : j.id ≠ id) (e : Engine) (reason : ResumeReason) :
    Spares id e (e.drive j.id reason) := by
  unfold drive
  split
  · exact spares_remember e other reason
  · split
    · rename_i k hk
      split
      · exact .refl id e
      · rename_i alive
        have same := (mem_of_get? hk).2
        exact spares_driveAt (same ▸ other) (by simpa using alive) e reason
    · exact .refl id e

theorem spares_look (other : j.id ≠ id) (reason : ResumeReason) (e : Engine) :
    Spares id e (look reason e j) := by
  unfold look
  split
  · exact (spares_checkGoal id e j).trans (spares_drive other _ reason)
  · exact spares_checkGoal id e j

/-! ## Starts -/

variable {campaign : Campaign} {user : String} {origin : Option Origin}

theorem entered_issued (e : Engine) (store : Store) (j : Journey) :
    (e.entered store j).issued = e.issued + 1 := by rw [entered_eq]

/-- A user who is admitted is given one id, whatever becomes of the start. -/
theorem issued_enter (admitted : e.refusal? campaign user = none) :
    (e.enter campaign user origin).1.issued = e.issued + 1 := by
  let j := e.newcomer campaign user origin
  unfold enter
  rw [admitted]
  dsimp only
  split
  · rw [giveUp, finish_eq _ rfl]
  · rename_i store saved
    have kept : ((e.entered store j).drive j.id .start).issued = (e.entered store j).issued :=
      (Traces.refl.quiets (quiets_drive _ _ _)).ids_eq.1
    exact kept.trans (entered_issued e store j)

/-- A start passes by all journeys but the one with the id that is given. -/
theorem spares_enter
    (new : e.issued < (e.enter campaign user origin).1.issued → e.ids e.issued ≠ id) :
    Spares id e (e.enter campaign user origin).1 := by
  let j := e.newcomer campaign user origin
  rcases admitted : e.refusal? campaign user with _ | reason
  · have given : j.id ≠ id := new (by rw [issued_enter admitted]; exact Nat.lt_succ_self _)
    unfold enter
    rw [admitted]
    dsimp only
    split
    · rename_i store fault refused
      have ended := spares_finish (e := { e with issued := e.issued + 1, store := store })
        given rfl (.errored fault.message) (.inr ⟨fault, refused⟩)
      exact ⟨ended.store, ended.flight, ended.pending, ended.timers, ended.steps⟩
    · rename_i store saved
      have held : Spares id e { e with issued := e.issued + 1, store := store } :=
        ⟨(Store.puts_of_save saved).spares given, rfl, rfl, rfl, rfl⟩
      have entered : Spares id e (e.entered store j) :=
        (held.trans (spares_checkGoal id _ j)).trans (spares_note id _ _)
      exact entered.trans (spares_drive given _ .start)
  · unfold enter
    rw [admitted]
    exact spares_note id e _

/-! ## Events -/

/-- What is done about a campaign that an event triggers. -/
def pursue (event : HostEvent) (e : Engine) : Campaign × Option Envelope → Engine
  | (campaign, some condition) =>
    e.checkTrigger campaign.id condition event.occurrence.distinctId event.occurrence.properties
      (some event.origin)
  | (campaign, none) => (e.enter campaign event.occurrence.distinctId (some event.origin)).1

/-- The journeys of the event's user are looked at, and then the campaigns that it triggers. -/
theorem onEvent_eq (e : Engine) (event : HostEvent) :
    let rechecked := e.recheck event.occurrence.distinctId (.event event.occurrence.name)
    e.onEvent event =
      (rechecked.chosen (triggeredBy event.occurrence.name)).foldl (pursue event) rechecked := by
  unfold onEvent
  dsimp only
  congr 1
  funext e ⟨campaign, condition⟩
  cases condition <;> rfl

/-- The campaigns are installed. -/
def Offers (e : Engine) (l : List (Campaign × Option Envelope)) : Prop :=
  ∀ c ∈ l, ∃ key, (key, c.1) ∈ e.campaigns

variable {event : HostEvent} {c : Campaign × Option Envelope}
  {l : List (Campaign × Option Envelope)}

theorem offers_chosen (e : Engine) (name : String) : e.Offers (e.chosen (triggeredBy name)) :=
  fun _ hc => (mem_chosen hc).1

theorem Offers.changes (offers : e.Offers (c :: l)) : Changes e (pursue event e c) := by
  obtain ⟨campaign, condition⟩ := c
  obtain ⟨key, known⟩ := offers _ List.mem_cons_self
  cases condition with
  | some condition => exact .single (.quiet (.aside (.spawn e _)))
  | none => exact (traces_enter known).changes

theorem Offers.next (offers : e.Offers (c :: l)) : (pursue event e c).Offers l := by
  intro other ho
  have step : Changes e (pursue event e c) := offers.changes
  rw [step.campaigns_eq]
  exact offers other (List.mem_cons_of_mem _ ho)

theorem Offers.foldl (offers : e.Offers l) : Changes e (l.foldl (pursue event) e) := by
  induction l generalizing e with
  | nil => exact .refl
  | cons c l ih => exact offers.changes.trans (ih offers.next)

theorem Offers.spares (offers : e.Offers l)
    (new : ∀ n, e.issued ≤ n → n < (l.foldl (pursue event) e).issued → e.ids n ≠ id) :
    Spares id e (l.foldl (pursue event) e) := by
  induction l generalizing e with
  | nil => exact .refl id e
  | cons c l ih =>
    have first : Changes e (pursue event e c) := offers.changes
    have rest : Changes (pursue event e c) (l.foldl (pursue event) (pursue event e c)) :=
      offers.next.foldl
    have here : Spares id e (pursue event e c) := by
      obtain ⟨campaign, condition⟩ := c
      cases condition with
      | some condition => exact spares_spawn id e _
      | none =>
        exact spares_enter fun given =>
          new _ (Nat.le_refl _) (Nat.lt_of_lt_of_le given rest.issued_le)
    refine here.trans (ih offers.next fun n le lt => ?_)
    rw [first.ids_eq]
    exact new n (Nat.le_trans first.issued_le le) lt

theorem changes_onEvent (e : Engine) (event : HostEvent) : Changes e (e.onEvent event) := by
  rw [onEvent_eq]
  exact (quiets_recheck ..).changes.trans (offers_chosen _ _).foldl

/-- An event passes by each journey that is not one of its user's and does not start on it. -/
theorem spares_onEvent
    (other : ∀ j ∈ e.store.active, j.distinctId = event.occurrence.distinctId → j.id ≠ id)
    (new : ∀ n, e.issued ≤ n → n < (e.onEvent event).issued → e.ids n ≠ id) :
    Spares id e (e.onEvent event) := by
  rw [onEvent_eq] at new ⊢
  let reason : ResumeReason := .event event.occurrence.name
  have looked : Spares id e (e.recheck event.occurrence.distinctId reason) := by
    rw [recheck_eq]
    refine .foldl (fun e j hj => ?_) e
    obtain ⟨under_way, own⟩ := mem_activeFor.mp hj
    exact spares_look (other j under_way own) reason e
  have quiet : Changes e (e.recheck event.occurrence.distinctId reason) :=
    (quiets_recheck ..).changes
  refine looked.trans ((offers_chosen _ _).spares fun n le lt => ?_)
  rw [quiet.ids_eq]
  exact new n (Nat.le_trans quiet.issued_le le) lt

end Engine

end Engagement
