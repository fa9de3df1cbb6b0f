import Engagement.Proofs.Session.Moves

/-! # How the engine evolves

Between two messages the host changes, steps and jobs go on and time passes; the engine drifts. A
message is taken in, and then the engine changes. An invariant of the engine is kept by all three.
-/

namespace Engagement

/-- A step as it was set off. -/
def Flight.plan (flight : Flight) : Flight := { flight with phase := .ready }

namespace Engine

variable {e e' : Engine}

/-- What is left alone between two messages. -/
structure Drift (e e' : Engine) : Prop where
  active : e'.store.active = e.store.active
  ledger : e'.store.ledger = e.store.ledger
  durable : e'.store.durable = e.store.durable
  settings : e'.settings = e.settings
  ids : e'.ids = e.ids
  issued : e'.issued = e.issued
  events : e'.events = e.events
  campaigns : e'.campaigns = e.campaigns
  flights : e'.flights.map Flight.plan = e.flights.map Flight.plan
  lastTask : e'.lastTask = e.lastTask
  pending : e'.pending = e.pending
  steps : e'.steps = e.steps
  profileLoaded : e'.profileLoaded = e.profileLoaded
  backend : e'.store.backend = e.store.backend ∨
    ∃ refusals, e'.store.backend = e.store.backend.refusing refusals

theorem Drift.refl (e : Engine) : Drift e e :=
  ⟨rfl, rfl, rfl, rfl, rfl, rfl, rfl, rfl, rfl, rfl, rfl, rfl, rfl, .inl rfl⟩

theorem Drift.of_flights {f : Flight → Flight} (h : ∀ g, (f g).plan = g.plan) (host : Host) :
    Drift e { e with host := host, flights := e.flights.map f } :=
  ⟨rfl, rfl, rfl, rfl, rfl, rfl, rfl, rfl, by simp [Function.comp_def, h], rfl, rfl, rfl,
    rfl, .inl rfl⟩

theorem Drift.sound (drift : Drift e e') (sound : e.Sound) : e'.Sound :=
  ⟨drift.active ▸ sound.distinct, drift.active ▸ sound.alive⟩

/-- A step under way was under way before, in some phase. -/
theorem Drift.exists_flight {f : Flight} (drift : Drift e e') (hf : f ∈ e'.flights) :
    ∃ g ∈ e.flights, g.task = f.task ∧ g.journey = f.journey ∧ g.node = f.node := by
  have hm : f.plan ∈ e.flights.map Flight.plan := drift.flights ▸ List.mem_map_of_mem hf
  obtain ⟨g, hg, hgf⟩ := List.mem_map.mp hm
  rw [Flight.plan, Flight.plan, Flight.mk.injEq] at hgf
  exact ⟨g, hg, hgf.1, hgf.2.1, hgf.2.2.1⟩

inductive Happens : Engine → Engine → Prop
  | takeIn (e : Engine) (message : Message) : Happens e (e.takeIn message)
  | change {e e' : Engine} (sound : e.Sound) (h : Change e e') : Happens e e'
  | drift {e e' : Engine} (h : Drift e e') : Happens e e'

abbrev Evolves : Engine → Engine → Prop := Relation.ReflTransGen Happens

theorem Changes.evolves (sound : e.Sound) (h : Changes e e') : Evolves e e' := by
  induction h with
  | refl => exact .refl
  | tail hs h ih => exact ih.tail (.change (sound.changes hs) h)

theorem Happens.sound (h : Happens e e') (sound : e.Sound) : e'.Sound := by
  cases h with
  | takeIn m => exact ⟨by simpa using sound.distinct, by simpa using sound.alive⟩
  | change _ h => exact sound.change h
  | drift h => exact h.sound sound

theorem Happens.ids_eq (h : Happens e e') : e'.ids = e.ids := by
  cases h with
  | takeIn m => simp
  | change _ h => exact h.ids_eq
  | drift h => exact h.ids

theorem Happens.settings_eq (h : Happens e e') : e'.settings = e.settings := by
  cases h with
  | takeIn m => simp
  | change _ h => exact h.settings_eq
  | drift h => exact h.settings

theorem Happens.issued_le (h : Happens e e') : e.issued ≤ e'.issued := by
  cases h with
  | takeIn m => simp
  | change _ h => exact h.issued_le
  | drift h => exact Nat.le_of_eq h.issued.symm

/-- The ledger only grows at its end. -/
theorem Happens.ledger_grows (h : Happens e e') : e.store.ledger <+: e'.store.ledger := by
  cases h with
  | takeIn m => simp
  | change _ h =>
    rcases h.store_cases with hs | ⟨j, -, puts⟩ | ⟨ended, completes⟩
    · exact hs ▸ List.prefix_refl _
    · exact puts.ledger ▸ List.prefix_refl _
    · rw [completes.ledger]
      exact List.prefix_append _ _
  | drift h => exact h.ledger ▸ List.prefix_refl _

theorem Evolves.sound (h : Evolves e e') (sound : e.Sound) : e'.Sound := by
  induction h with
  | refl => exact sound
  | tail _ h ih => exact h.sound ih

theorem Evolves.ids_eq (h : Evolves e e') : e'.ids = e.ids := by
  induction h with
  | refl => rfl
  | tail _ h ih => exact h.ids_eq.trans ih

theorem Evolves.settings_eq (h : Evolves e e') : e'.settings = e.settings := by
  induction h with
  | refl => rfl
  | tail _ h ih => exact h.settings_eq.trans ih

theorem Evolves.issued_le (h : Evolves e e') : e.issued ≤ e'.issued := by
  induction h with
  | refl => exact Nat.le_refl _
  | tail _ h ih => exact Nat.le_trans ih h.issued_le

theorem Evolves.ledger_grows (h : Evolves e e') : e.store.ledger <+: e'.store.ledger := by
  induction h with
  | refl => exact List.prefix_refl _
  | tail _ h ih => exact ih.trans h.ledger_grows

end Engine

namespace Session

open Engine

variable {s : Session}

@[simp] theorem post_engine (s : Session) (m : Message) : (s.post m).engine = s.engine := rfl

@[simp] theorem post_mailbox (s : Session) (m : Message) :
    (s.post m).mailbox = s.mailbox ++ [m] := rfl

theorem move_deliver_of_empty (hm : s.mailbox = []) : s.move .deliver = s := by
  simp [move, deliver, hm]

theorem deliver_engine {message : Message} {rest : List Message}
    (h : s.mailbox = message :: rest) : s.deliver.engine = s.engine.handle message := by
  simp [deliver, h]

theorem deliver_mailbox {message : Message} {rest : List Message}
    (h : s.mailbox = message :: rest) : s.deliver.mailbox = rest := by
  simp [deliver, h]

/-- To deliver a message is to let the engine handle it. -/
theorem after_deliver {e : Engine} {ms : List Move} {message : Message}
    (waiting : (after e ms).mailbox.head? = some message) :
    (after e (ms ++ [.deliver])).engine = (after e ms).engine.handle message := by
  obtain ⟨rest, hm⟩ := List.head?_eq_some_iff.mp waiting
  rw [after_snoc]
  exact deliver_engine hm

/-! ## Steps and jobs -/

/-- The step of a task as it is in a phase. -/
def inPhase (task : Nat) (phase : Phase) (f : Flight) : Flight :=
  if f.task = task then { f with phase := phase } else f

theorem inPhase_plan (task : Nat) (phase : Phase) (f : Flight) :
    (inPhase task phase f).plan = f.plan := by
  unfold inPhase
  split <;> rfl

theorem runFlight_engine (s : Session) (f : Flight) : (s.runFlight f).engine = { s.engine with
    host := (stage s.engine.host f).1
    flights := s.engine.flights.map (inPhase f.task (stage s.engine.host f).2) } := by
  unfold runFlight
  dsimp only
  split
  · rfl
  · split <;> rfl

theorem runFlight_mailbox (s : Session) (f : Flight) : (s.runFlight f).mailbox =
    s.mailbox ++ match f.phase with
      | .finished result => [.report (.step f.task f.journey.id f.node.id result)]
      | _ => [] := by
  unfold runFlight
  dsimp only
  cases f.phase with
  | finished result => rfl
  | _ =>
    rw [List.append_nil]
    dsimp only
    split <;> rfl

/-- Work is a step that goes on, a job that reports, or abandoned. -/
theorem run_cases (s : Session) (id : Nat) :
    (∃ f, s.engine.flights.find? (·.task = id) = some f ∧ s.run id = s.runFlight f) ∨
      (∃ task report tasks, outcome? s.engine task = some report ∧
        s.run id = { s with engine := { s.engine with tasks := tasks } }.post (.report report)) ∨
      s.run id = s := by
  unfold run
  split
  · rename_i f hf
    exact .inl ⟨f, hf, rfl⟩
  · rename_i task _ _
    split
    · exact .inr (.inr rfl)
    · unfold runTask
      split
      · exact .inr (.inr rfl)
      · rename_i report h
        exact .inr (.inl ⟨task, report, _, h, rfl⟩)
  · exact .inr (.inr rfl)

theorem release_engine (s : Session) (gate : String) : ∃ (host : Host) (f : Flight → Flight),
    (∀ g, (f g).plan = g.plan) ∧ host.effects = s.engine.host.effects ∧
      (s.release gate).engine =
        { s.engine with host := host, flights := s.engine.flights.map f } := by
  unfold release
  dsimp only
  split
  · exact ⟨{ s.engine.host with presenter := s.engine.host.presenter.release gate }, id,
      fun _ => rfl, rfl, by rw [List.map_id]⟩
  · refine ⟨s.engine.host, _, fun g => ?_, rfl, rfl⟩
    split
    · split <;> rfl
    · rfl

/-! ## Moves -/

/-- Between two messages the engine drifts. -/
theorem move_drift (s : Session) {m : Move} (h : m ≠ .deliver) :
    Drift s.engine (s.move m).engine := by
  cases m with
  | send c =>
    by_cases hc : c = .boot
    · exact hc ▸ .refl _
    · rw [move_send s hc, send]
      split <;> exact .refl _
  | deliver => exact (h rfl).elim
  | work task =>
    rw [move]
    rcases s.run_cases task with ⟨f, -, hr⟩ | ⟨job, report, tasks, -, hr⟩ | hr <;> rw [hr]
    · rw [runFlight_engine]
      exact .of_flights (inPhase_plan _ _) _
    · exact ⟨rfl, rfl, rfl, rfl, rfl, rfl, rfl, rfl, rfl, rfl, rfl, rfl, rfl, .inl rfl⟩
    · exact .refl _
  | release gate =>
    obtain ⟨host, f, hf, -, he⟩ := s.release_engine gate
    rw [move, he]
    exact .of_flights hf host
  | refuse refusals =>
    exact ⟨rfl, rfl, Backend.durable_refusing _ _, rfl, rfl, rfl, rfl, rfl, rfl, rfl, rfl, rfl, rfl,
      .inr ⟨refusals, rfl⟩⟩
  | _ => exact ⟨rfl, rfl, rfl, rfl, rfl, rfl, rfl, rfl, rfl, rfl, rfl, rfl, rfl, .inl rfl⟩

/-- Between two messages nothing is told about the screen. -/
theorem move_screen (s : Session) {m : Move} (h : m ≠ .deliver) :
    (s.move m).engine.foreground = s.engine.foreground ∧
      (s.move m).engine.presentationReady = s.engine.presentationReady ∧
      (s.move m).engine.grace = s.engine.grace := by
  cases m with
  | send c =>
    by_cases hc : c = .boot
    · exact hc ▸ ⟨rfl, rfl, rfl⟩
    · rw [move_send s hc, send]
      split <;> exact ⟨rfl, rfl, rfl⟩
  | deliver => exact (h rfl).elim
  | work task =>
    rw [move]
    rcases s.run_cases task with ⟨f, -, hr⟩ | ⟨job, report, tasks, -, hr⟩ | hr <;> rw [hr]
    · rw [runFlight_engine]
      exact ⟨rfl, rfl, rfl⟩
    · exact ⟨rfl, rfl, rfl⟩
    · exact ⟨rfl, rfl, rfl⟩
  | release gate =>
    obtain ⟨host, f, -, -, he⟩ := s.release_engine gate
    rw [move, he]
    exact ⟨rfl, rfl, rfl⟩
  | _ => exact ⟨rfl, rfl, rfl⟩

/-- The engine has come up, and will not be told to do so again. -/
structure Up (s : Session) : Prop where
  sound : s.engine.Sound
  once : Message.command .boot ∉ s.mailbox

theorem move_mailbox_sublist_or_append (s : Session) (m : Move) :
    (s.move m).mailbox.Sublist s.mailbox ∨
      ∃ message, message ≠ .command .boot ∧ (s.move m).mailbox = s.mailbox ++ [message] := by
  cases m with
  | send c =>
    by_cases hc : c = .boot
    · exact .inl (hc ▸ .refl _)
    · rw [move_send s hc, send]
      split
      · exact .inr ⟨.command c, by simpa using hc, rfl⟩
      · exact .inl (.refl _)
  | deliver =>
    unfold move deliver
    dsimp only
    split
    · exact .inl (.refl _)
    · rename_i h
      rw [h]
      exact .inl (List.sublist_cons_self _ _)
  | work task =>
    rw [move]
    rcases s.run_cases task with ⟨f, -, hr⟩ | ⟨job, report, tasks, -, hr⟩ | hr <;> rw [hr]
    · rw [runFlight_mailbox]
      split
      · exact .inr ⟨_, by simp, rfl⟩
      · exact .inl (by simp)
    · exact .inr ⟨.report report, by simp, rfl⟩
    · exact .inl (.refl _)
  | fire timer => exact .inr ⟨_, by simp, rfl⟩
  | release gate =>
    left
    unfold move release
    dsimp only
    split <;> exact .refl _
  | _ => exact .inl (.refl _)

/-- A move lets the engine drift, or hands it the first message. -/
theorem Up.move_cases (up : s.Up) (m : Move) :
    Drift s.engine (s.move m).engine ∨ ∃ message rest, s.mailbox = message :: rest ∧
      Changes (s.engine.takeIn message) (s.engine.handle message) ∧ m = .deliver ∧
      (s.move m).engine = s.engine.handle message ∧ (s.move m).mailbox = rest := by
  by_cases hm : m = .deliver
  · subst hm
    rcases hb : s.mailbox with _ | ⟨message, rest⟩
    · exact .inl (by simpa [move, deliver, hb] using Drift.refl _)
    · have hne : message ≠ .command .boot := fun h => up.once (by simp [hb, h])
      exact .inr ⟨message, rest, rfl, changes_handle up.sound hne, rfl, deliver_engine hb,
        deliver_mailbox hb⟩
  · exact .inl (s.move_drift hm)

theorem Up.evolves_move (up : s.Up) (m : Move) : Evolves s.engine (s.move m).engine := by
  rcases up.move_cases m with drift | ⟨message, rest, -, changes, -, he, -⟩
  · exact .single (.drift drift)
  · rw [he]
    exact .head (.takeIn _ message) (changes.evolves ((Happens.takeIn _ _).sound up.sound))

theorem Up.move (up : s.Up) (m : Move) : (s.move m).Up := by
  refine ⟨(up.evolves_move m).sound up.sound, ?_⟩
  intro h
  rcases s.move_mailbox_sublist_or_append m with hs | ⟨message, hne, ha⟩
  · exact up.once (hs.subset h)
  · rw [ha, List.mem_append, List.mem_singleton] at h
    exact h.elim up.once fun h => hne h.symm

theorem Up.moves (up : s.Up) (ms : List Move) : (s.moves ms).Up := by
  induction ms generalizing s with
  | nil => exact up
  | cons m ms ih => exact ih (up.move m)

theorem Up.evolves (up : s.Up) (ms : List Move) : Evolves s.engine (s.moves ms).engine := by
  induction ms generalizing s with
  | nil => exact .refl
  | cons m ms ih => exact (up.evolves_move m).trans (ih (up.move m))

end Session

end Engagement
