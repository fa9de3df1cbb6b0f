import Mathlib.Logic.Relation
import Engagement.Engine.Handle
import Engagement.Proofs.Journey.Transitions
import Engagement.Proofs.Store.Writes

/-! # What the engine can do

The handling of a message is a sequence of changes. Most leave journeys and their steps alone; the
others launch a step, save a journey's new state, end a journey, or start one. An invariant is proved
once for each kind of change.
-/

namespace Engagement

/-- Whether a journey arrives at a node when this is reported. -/
def Analytics.Kind.isArrival : Analytics.Kind → Bool
  | .entered | .stepCompleted | .stepSkipped => true
  | _ => false

namespace Engine

variable {e e' : Engine} {j k : Journey}

theorem mem_of_get? {store : Store} {id : JourneyId} (h : store.get? id = some j) :
    j ∈ store.active ∧ j.id = id :=
  ⟨List.mem_of_find?_eq_some h, by simpa using List.find?_some h⟩

theorem get?_eq_none {store : Store} {id : JourneyId} :
    store.get? id = none ↔ ∀ j ∈ store.active, j.id ≠ id := by
  simp [Store.get?]

theorem isFlying_iff {id : JourneyId} :
    e.isFlying id = true ↔ ∃ f ∈ e.flights, f.journey.id = id := by
  simp [isFlying, flight?, List.find?_isSome]

theorem isFlying_eq_false {id : JourneyId} :
    e.isFlying id = false ↔ ∀ f ∈ e.flights, f.journey.id ≠ id := by
  rw [← Bool.not_eq_true, isFlying_iff]
  simp

/-! ## The end of a journey -/

theorem abandon_eq (e : Engine) (j : Journey) : e.abandon j = { e with
    host := { e.host with presenter := (e.abandon j).host.presenter }
    flights := e.flights.filter (·.journey.id ≠ j.id) } := by
  unfold abandon
  split
  · rename_i h
    have hf : e.flights.filter (·.journey.id ≠ j.id) = e.flights := by
      simpa [flight?] using h
    rw [hf]
  · rfl

/-- Ending a journey that has not ended yet. -/
theorem finish_eq (e : Engine) (alive : j.isTerminal = false) (reason : ExitReason) :
    e.finish j reason = { e with
      host := { e.host with presenter := (e.abandon j).host.presenter }
      flights := e.flights.filter (·.journey.id ≠ j.id)
      timers := e.timers.filter fun t => !(t.held && t.journey = j.id)
      pending := e.pending.erase j.id
      steps := e.steps.erase j.id
      store := (e.store.complete (j.ended reason e.now)).1
      events := e.events ++ [.ofJourney (.ofStatus reason.status)
        (e.elapsed + (e.store.complete (j.ended reason e.now)).1.waited) (j.ended reason e.now) j.node
        (some reason.label)] } := by
  unfold finish
  rw [abandon_eq]
  simp only [Journey.finish_of_alive alive]
  rfl

@[simp] theorem report_store (kind : Analytics.Kind) (node : String) (detail : Option String) :
    (e.report kind j node detail).store = e.store := rfl

theorem checkGoal_eq (e : Engine) (j : Journey) :
    ∃ tasks last, e.checkGoal j = { e with tasks := tasks, lastTask := last } ∧
      e.lastTask ≤ last := by
  unfold checkGoal
  split
  · exact ⟨_, _, rfl, Nat.le_succ _⟩
  · exact ⟨_, _, rfl, Nat.le_refl _⟩

@[simp] theorem checkGoal_store : (e.checkGoal j).store = e.store := by
  obtain ⟨tasks, last, h, -⟩ := e.checkGoal_eq j
  rw [h]

/-! ## Changes -/

/-- A change that leaves journeys and their steps alone. -/
inductive Aside : Engine → Engine → Prop
  | note (e : Engine) {event : Analytics.Event} (quiet : event.kind.isArrival = false) :
    Aside e (e.note event)
  | answer (e : Engine) (a : Answer) : Aside e (e.answer a)
  | spawn (e : Engine) (job : Job) : Aside e (e.spawn job)
  | dropTask (e : Engine) (task : Nat) : Aside e (e.dropTask task)
  | grace (e : Engine) (task : Option Nat) : Aside e { e with grace := task }
  | signal (e : Engine) (foreground ready : Bool) :
    Aside e { e with foreground := foreground, presentationReady := ready }
  | setTimer (e : Engine) (j : Journey) : Aside e (e.setTimer j)
  | cancelTimer (e : Engine) (id : JourneyId) : Aside e (e.cancelTimer id)
  | releaseTimer (e : Engine) (id : JourneyId) : Aside e (e.releaseTimer id)
  | cancelTimers (e : Engine) : Aside e { e with timers := e.timers.filter (!·.held) }
  /-- A journey is to be driven again. -/
  | remember (e : Engine) (id : JourneyId) (reason : ResumeReason) :
    Aside e { e with pending := e.pending.insert id reason }
  /-- Of a journey without a step it need not be remembered any more. -/
  | forget (e : Engine) {id : JourneyId} (free : e.isFlying id = false) :
    Aside e { e with pending := e.pending.erase id }
  | steps (e : Engine) (steps : Table JourneyId Nat) : Aside e { e with steps := steps }

theorem setTimer_eq (e : Engine) (j : Journey) :
    ∃ timers, e.setTimer j = { e with timers := timers } := by
  unfold setTimer
  split
  · split
    · exact ⟨_, rfl⟩
    · exact ⟨_, rfl⟩
  · exact ⟨_, rfl⟩

section

variable (e : Engine) (j : Journey)

@[simp] theorem setTimer_store : (e.setTimer j).store = e.store := by
  obtain ⟨timers, h⟩ := e.setTimer_eq j
  rw [h]

@[simp] theorem setTimer_flights : (e.setTimer j).flights = e.flights := by
  obtain ⟨timers, h⟩ := e.setTimer_eq j
  rw [h]

@[simp] theorem setTimer_tasks : (e.setTimer j).tasks = e.tasks := by
  obtain ⟨timers, h⟩ := e.setTimer_eq j
  rw [h]

@[simp] theorem setTimer_lastTask : (e.setTimer j).lastTask = e.lastTask := by
  obtain ⟨timers, h⟩ := e.setTimer_eq j
  rw [h]

@[simp] theorem setTimer_pending : (e.setTimer j).pending = e.pending := by
  obtain ⟨timers, h⟩ := e.setTimer_eq j
  rw [h]

@[simp] theorem setTimer_events : (e.setTimer j).events = e.events := by
  obtain ⟨timers, h⟩ := e.setTimer_eq j
  rw [h]

@[simp] theorem setTimer_foreground : (e.setTimer j).foreground = e.foreground := by
  obtain ⟨timers, h⟩ := e.setTimer_eq j
  rw [h]

@[simp] theorem setTimer_steps : (e.setTimer j).steps = e.steps := by
  obtain ⟨timers, h⟩ := e.setTimer_eq j
  rw [h]

@[simp] theorem setTimer_isFlying (id : JourneyId) :
    (e.setTimer j).isFlying id = e.isFlying id := by
  simp [isFlying, flight?]

end

theorem Aside.frame (h : Aside e e') : e' = { e with
    events := e'.events, answers := e'.answers, pending := e'.pending, tasks := e'.tasks
    timers := e'.timers, grace := e'.grace, steps := e'.steps, foreground := e'.foreground
    presentationReady := e'.presentationReady, lastTask := e'.lastTask } := by
  cases h with
  | setTimer j =>
    obtain ⟨timers, h⟩ := e.setTimer_eq j
    rw [h]
  | _ => rfl

namespace Aside

theorem store_eq (h : Aside e e') : e'.store = e.store := by rw [h.frame]
theorem flights_eq (h : Aside e e') : e'.flights = e.flights := by rw [h.frame]
theorem campaigns_eq (h : Aside e e') : e'.campaigns = e.campaigns := by rw [h.frame]
theorem settings_eq (h : Aside e e') : e'.settings = e.settings := by rw [h.frame]
theorem ids_eq (h : Aside e e') : e'.ids = e.ids := by rw [h.frame]
theorem issued_eq (h : Aside e e') : e'.issued = e.issued := by rw [h.frame]

theorem lastTask_le (h : Aside e e') : e.lastTask ≤ e'.lastTask := by
  cases h with
  | spawn job => exact Nat.le_succ _
  | setTimer j => exact Nat.le_of_eq (setTimer_lastTask e j).symm
  | _ => exact Nat.le_refl _

/-- What is remembered of a journey in flight stays so. -/
theorem pending_stays {id : JourneyId} (h : Aside e e') (flying : e.isFlying id = true)
    (hp : (e.pending.get? id).isSome) : (e'.pending.get? id).isSome := by
  cases h with
  | remember other reason => exact Table.get?_insert_isSome _ _ hp
  | @forget other free =>
    have hne : id ≠ other := by
      rintro rfl
      simp [free] at flying
    simpa [Table.get?_erase_of_ne _ hne] using hp
  | setTimer j => rwa [setTimer_pending]
  | _ => exact hp

/-- What is reported aside is no arrival. -/
theorem events_eq (h : Aside e e') :
    ∃ news, e'.events = e.events ++ news ∧ ∀ event ∈ news, event.kind.isArrival = false := by
  cases h with
  | note quiet => exact ⟨[_], rfl, by simpa using quiet⟩
  | setTimer j => exact ⟨[], by simp, by simp⟩
  | _ => exact ⟨[], (List.append_nil _).symm, by simp⟩

end Aside

/-- The journey that starts next. -/
def newcomer (e : Engine) (campaign : Campaign) (user : String) (origin : Option Origin) :
    Journey :=
  .start (e.ids e.issued) campaign user origin e.now

/-- A change of a journey that stays at its node. -/
inductive Amends (now : Instant) : Journey → Journey → Prop
  | park (j : Journey) (resumeAt : Option Instant) :
    Amends now j { j with status := .paused, resumeAt := resumeAt, updatedAt := now }
  | convert (j : Journey) (t : Instant) :
    Amends now j { j with convertedAt := some t, updatedAt := now }

theorem Amends.continues {now : Instant} {k : Journey} (h : Amends now j k) : j.Continues k := by
  cases h <;> exact ⟨rfl, rfl, rfl, rfl, rfl, rfl, rfl, rfl, rfl, rfl⟩

/-- A journey that has moved on to a node. -/
def movedTo (e : Engine) (j : Journey) (next : String) : Journey :=
  { j with
    status := .active, node := next, enteredAt := e.now, resumeAt := none, updatedAt := e.now }

/-- A change by which no journey starts. -/
inductive Quiet : Engine → Engine → Prop
  | aside {e e' : Engine} (h : Aside e e') : Quiet e e'
  | launch {e : Engine} {j : Journey} {node : Node} (under_way : j ∈ e.store.active)
      (alive : j.isTerminal = false) (free : e.isFlying j.id = false) (here : node.id = j.node) :
    Quiet e (e.launch j node)
  | advance {e : Engine} {j : Journey} {next : String} {kind : Analytics.Kind} {store : Store}
      (under_way : j ∈ e.store.active) (alive : j.isTerminal = false)
      (free : e.isFlying j.id = false) (arrival : kind.isArrival = true)
      (on_way : kind ≠ .entered) (saved : e.store.save (e.movedTo j next) = (store, .ok ())) :
    Quiet e ({ e with store := store }.report kind (e.movedTo j next) j.node (some next))
  | amend {e : Engine} {j k : Journey} {store : Store} (under_way : j ∈ e.store.active)
      (alive : j.isTerminal = false) (amends : Amends e.now j k)
      (saved : e.store.save k = (store, .ok ()))
      (steady : e.isFlying j.id = true → j.Agrees k) :
    Quiet e { e with store := store }
  /-- A journey whose step is under way ends where it stands. -/
  | finish {e : Engine} {j k : Journey} {store : Store} {reason : ExitReason}
      (under_way : j ∈ e.store.active) (alive : k.isTerminal = false) (continues : j.Continues k)
      (store_eq : store = e.store ∨ ∃ fault, e.store.save k = (store, .error fault))
      (placed : k.node = j.node ∨ e.isFlying j.id = false) :
    Quiet e ({ e with store := store }.finish k reason)

abbrev Quiets : Engine → Engine → Prop := Relation.ReflTransGen Quiet

/-- The start of a journey that is admitted. -/
inductive Start (e : Engine) (j : Journey) : Engine → Prop
  | enter {campaign : Campaign} {key user : String} {origin : Option Origin} {store : Store}
      (known : (key, campaign) ∈ e.campaigns) (admitted : e.refusal? campaign user = none)
      (new : j = e.newcomer campaign user origin) (saved : e.store.save j = (store, .ok ())) :
    Start e j (({ e with issued := e.issued + 1, store := store }.checkGoal j).report .entered j
      j.node none)
  /-- A start that cannot be saved. -/
  | fail {campaign : Campaign} {key user : String} {origin : Option Origin} {store : Store}
      {fault : Fault} (known : (key, campaign) ∈ e.campaigns)
      (admitted : e.refusal? campaign user = none) (new : j = e.newcomer campaign user origin)
      (refused : e.store.save j = (store, .error fault)) :
    Start e j ({ e with issued := e.issued + 1, store := store }.giveUp j fault)

inductive Change : Engine → Engine → Prop
  | quiet {e e' : Engine} (h : Quiet e e') : Change e e'
  | start {e e' : Engine} {j : Journey} (h : Start e j e') : Change e e'

/-- A sequence of changes. -/
abbrev Changes : Engine → Engine → Prop := Relation.ReflTransGen Change

theorem Quiets.changes (h : Quiets e e') : Changes e e' := by
  induction h with
  | refl => exact .refl
  | tail _ h ih => exact ih.tail (.quiet h)

/-! ## What changes keep -/

/-- Ending a journey completes it, also when a save of it has failed before. -/
theorem completes_finish {before : Store} (alive : j.isTerminal = false) (reason : ExitReason)
    (store_eq : e.store = before ∨ ∃ fault, before.save j = (e.store, .error fault)) :
    before.Completes (j.ended reason e.now) (e.finish j reason).store := by
  rw [finish_eq e alive]
  rcases store_eq with rfl | ⟨fault, refused⟩
  · exact Store.completes_complete _ _
  · exact .of_save_error refused rfl (Store.completes_complete _ _)

/-- A change leaves the store as it is, puts a journey under way or completes one. -/
theorem Quiet.store_cases (h : Quiet e e') : e'.store = e.store ∨
    ∃ j k, j ∈ e.store.active ∧ j.Continues k ∧
      ((k.isTerminal = false ∧ e.store.Puts k e'.store) ∨
        ∃ reason, e.store.Completes (k.ended reason e.now) e'.store) := by
  cases h with
  | aside h => exact .inl h.store_eq
  | launch => exact .inl rfl
  | @advance j next _ _ under_way alive free arrival on_way saved =>
    exact .inr ⟨j, e.movedTo j next, under_way,
      ⟨rfl, rfl, rfl, rfl, rfl, rfl, rfl, rfl, rfl, rfl⟩, .inl ⟨rfl, Store.puts_of_save saved⟩⟩
  | @amend j k _ under_way alive amends saved =>
    refine .inr ⟨j, k, under_way, amends.continues, .inl ⟨?_, Store.puts_of_save saved⟩⟩
    cases amends
    · rfl
    · exact alive
  | @finish j k store reason under_way alive continues store_eq =>
    have hc := completes_finish (e := { e with store := store }) alive reason store_eq
    exact .inr ⟨j, k, under_way, continues, .inr ⟨reason, hc⟩⟩

theorem Quiet.issued_eq (h : Quiet e e') : e'.issued = e.issued := by
  cases h with
  | aside h => exact h.issued_eq
  | finish under_way alive => rw [finish_eq _ alive]
  | _ => rfl

namespace Start

/-- A journey that starts is put into the mirror, or else completed as it could not be saved. -/
theorem store_cases (h : Start e j e') : j.isTerminal = false ∧ (e.store.Puts j e'.store ∨
    ∃ reason, e.store.Completes (j.ended reason e.now) e'.store) := by
  cases h with
  | enter known admitted new saved =>
    refine ⟨new ▸ rfl, .inl ?_⟩
    rw [report_store, checkGoal_store]
    exact Store.puts_of_save saved
  | @fail _ _ _ _ store _ known admitted new refused =>
    have alive : j.isTerminal = false := new ▸ rfl
    exact ⟨alive, .inr ⟨_, completes_finish
      (e := { e with issued := e.issued + 1, store := store }) alive _ (.inr ⟨_, refused⟩)⟩⟩

theorem id_eq (h : Start e j e') : j.id = e.ids e.issued := by
  cases h with
  | enter known admitted new => rw [new]; rfl
  | fail known admitted new => rw [new]; rfl

theorem issued_eq (h : Start e j e') : e'.issued = e.issued + 1 := by
  cases h with
  | @enter _ _ _ _ store =>
    obtain ⟨tasks, last, h, -⟩ := checkGoal_eq { e with issued := e.issued + 1, store := store } j
    rw [h]
    rfl
  | fail known admitted new =>
    have alive : j.isTerminal = false := new ▸ rfl
    rw [giveUp, finish_eq _ alive]

theorem convertedAt_eq (h : Start e j e') : j.convertedAt = none := by
  cases h with
  | enter known admitted new => rw [new]; rfl
  | fail known admitted new => rw [new]; rfl

end Start

/-- The engine with all that a change may touch taken from `e'`. -/
def touched (e e' : Engine) : Engine := { e with
  host := { e.host with presenter := e'.host.presenter }
  store := e'.store, issued := e'.issued, events := e'.events, answers := e'.answers
  flights := e'.flights, pending := e'.pending, tasks := e'.tasks, timers := e'.timers
  grace := e'.grace, steps := e'.steps, foreground := e'.foreground
  presentationReady := e'.presentationReady, lastTask := e'.lastTask }

namespace Change

/-- A change leaves the store as it is, puts a journey or completes one. -/
theorem store_cases (h : Change e e') :
    e'.store = e.store ∨ (∃ j, j.isTerminal = false ∧ e.store.Puts j e'.store) ∨
      ∃ ended, e.store.Completes ended e'.store := by
  cases h with
  | quiet h =>
    rcases h.store_cases with hs | ⟨j, k, -, -, ⟨alive, puts⟩ | ⟨reason, completes⟩⟩
    · exact .inl hs
    · exact .inr (.inl ⟨k, alive, puts⟩)
    · exact .inr (.inr ⟨_, completes⟩)
  | start h =>
    obtain ⟨alive, puts | ⟨reason, completes⟩⟩ := h.store_cases
    · exact .inr (.inl ⟨_, alive, puts⟩)
    · exact .inr (.inr ⟨_, completes⟩)

theorem frame (h : Change e e') : e' = e.touched e' := by
  cases h with
  | quiet h =>
    cases h with
    | aside h => rw [h.frame]; rfl
    | finish under_way alive => rw [finish_eq _ alive]; rfl
    | _ => rfl
  | @start j h =>
    cases h with
    | @enter _ _ _ _ store =>
      obtain ⟨tasks, last, h, -⟩ := checkGoal_eq { e with issued := e.issued + 1, store := store } j
      rw [h]
      rfl
    | fail known admitted new =>
      have alive : j.isTerminal = false := new ▸ rfl
      rw [giveUp, finish_eq _ alive]
      rfl

theorem campaigns_eq (h : Change e e') : e'.campaigns = e.campaigns := by rw [h.frame]; rfl
theorem settings_eq (h : Change e e') : e'.settings = e.settings := by rw [h.frame]; rfl
theorem ids_eq (h : Change e e') : e'.ids = e.ids := by rw [h.frame]; rfl

theorem issued_le (h : Change e e') : e.issued ≤ e'.issued := by
  cases h with
  | quiet h => exact Nat.le_of_eq h.issued_eq.symm
  | start h => exact h.issued_eq ▸ Nat.le_succ _

end Change

/-! ## Soundness -/

/-- The mirror has one journey per id, and none that has ended. -/
structure Sound (e : Engine) : Prop where
  distinct : DistinctIds e.store.active
  alive : ∀ j ∈ e.store.active, j.isTerminal = false

theorem Sound.get?_eq (sound : e.Sound) (hj : j ∈ e.store.active) :
    e.store.get? j.id = some j := by
  rcases hk : e.store.get? j.id with _ | k
  · exact (get?_eq_none.mp hk j hj rfl).elim
  · obtain ⟨hm, hid⟩ := mem_of_get? hk
    rw [sound.distinct.eq_of_id hm hj hid]

theorem Sound.change (sound : e.Sound) (h : Change e e') : e'.Sound := by
  rcases h.store_cases with hs | ⟨j, alive, puts⟩ | ⟨ended, completes⟩
  · exact ⟨by rw [hs]; exact sound.distinct, by rw [hs]; exact sound.alive⟩
  · refine ⟨by rw [puts.active]; exact sound.distinct.upsert j, ?_⟩
    intro k hk
    rcases mem_of_mem_upsert (puts.active ▸ hk) with rfl | hk
    · exact alive
    · exact sound.alive k hk
  · refine ⟨by rw [completes.active]; exact sound.distinct.without _, ?_⟩
    intro k hk
    rw [completes.active, mem_without] at hk
    exact sound.alive k hk.1

theorem Sound.changes (sound : e.Sound) (h : Changes e e') : e'.Sound := by
  induction h with
  | refl => exact sound
  | tail _ h ih => exact ih.change h

theorem Changes.frame (h : Changes e e') : e' = e.touched e' := by
  induction h with
  | refl => rfl
  | tail _ h ih =>
    apply h.frame.trans
    rw [ih]
    rfl

theorem Changes.campaigns_eq (h : Changes e e') : e'.campaigns = e.campaigns := by rw [h.frame]; rfl
theorem Changes.settings_eq (h : Changes e e') : e'.settings = e.settings := by rw [h.frame]; rfl
theorem Changes.ids_eq (h : Changes e e') : e'.ids = e.ids := by rw [h.frame]; rfl

theorem Changes.now_eq (h : Changes e e') : e'.now = e.now := by
  rw [h.frame]
  rfl

theorem Changes.effects_eq (h : Changes e e') : e'.host.effects = e.host.effects := by
  rw [h.frame]
  rfl

theorem Changes.issued_le (h : Changes e e') : e.issued ≤ e'.issued := by
  induction h with
  | refl => exact Nat.le_refl _
  | tail _ h ih => exact Nat.le_trans ih h.issued_le

end Engine

end Engagement
