import Engagement.Proofs.Session.Evolution

/-! # Coming up

An engine that is down comes up if storage can be read. What it holds from then on evolves from the
store recovered.
-/

namespace Engagement

namespace Engine

variable {e : Engine} {snapshot : Snapshot}

/-- The engine is down, and storage answers with `snapshot` when it comes up. -/
structure BootsFrom (e : Engine) (snapshot : Snapshot) : Prop where
  down : e.halt = e
  held : e.store.backend.load.2 = .ok snapshot

/-- The engine once it has taken over what storage holds. -/
def loaded (e : Engine) (campaigns : Table String Campaign) (installed : Bool) : Engine :=
  { e with
    user := e.host.distinctId, campaigns := campaigns, profileLoaded := installed
    store := e.store.recovered }

theorem sound_loaded (held : e.store.backend.load.2 = .ok snapshot)
    (campaigns : Table String Campaign) (installed : Bool) : (e.loaded campaigns installed).Sound :=
  ⟨Store.recovered_distinct held, fun _ hj => (Store.mem_of_mem_recovered held hj).2⟩

/-- The engine comes up exactly if storage can be read. -/
theorem onBoot_ok_iff : e.onBoot.2 = .ok () ↔ ∃ snapshot, e.store.backend.load.2 = .ok snapshot := by
  constructor
  · intro h
    rcases hl : e.store.backend.load with ⟨backend, fault | snapshot⟩
    · have hs : e.store.load.2 = .error fault := by simp [Store.load, hl]
      have hr : ∀ e' : Engine, e'.store = e.store → e'.recover.2 = .error fault := by
        intro e' he
        unfold recover
        rw [he]
        rcases hp : e.store.load with ⟨store, _ | _⟩ <;> simp_all
      unfold onBoot at h
      dsimp only at h
      split at h
      · rw [hr _ (by rfl)] at h
        cases h
      · rw [hr _ (by rfl)] at h
        cases h
    · exact ⟨snapshot, rfl⟩
  · rintro ⟨snapshot, h⟩
    exact (onBoot_of_load h).1

namespace BootsFrom

theorem flights_eq (boots : e.BootsFrom snapshot) : e.flights = [] :=
  (congrArg Engine.flights boots.down).symm

theorem up_raise (boots : e.BootsFrom snapshot) : ∃ campaigns installed,
    Quiets (e.loaded campaigns installed) (Session.raise e).engine ∧ (Session.raise e).Up := by
  obtain ⟨-, campaigns, installed, quiets⟩ := onBoot_of_load boots.held
  have hr : Quiets (e.loaded campaigns installed) (Session.raise e).engine :=
    quiets.tail (.aside (.answer _ _))
  exact ⟨campaigns, installed, hr,
    (sound_loaded boots.held campaigns installed).changes hr.changes, List.not_mem_nil⟩

/-- An engine that has come up has the campaigns of a profile, or none. -/
theorem campaigns_raise (boots : e.BootsFrom snapshot) : (Session.raise e).engine.campaigns = [] ∨
    ∃ profile, (Session.raise e).engine.campaigns = (e.install profile).campaigns :=
  e.boot_campaigns.imp_left fun same => same.trans (congrArg Engine.campaigns boots.down).symm

theorem up (boots : e.BootsFrom snapshot) (ms : List Move) : (Session.after e ms).Up := by
  obtain ⟨_, _, -, up⟩ := boots.up_raise
  exact up.moves ms

theorem evolves (boots : e.BootsFrom snapshot) (ms : List Move) : ∃ campaigns installed,
    Evolves (e.loaded campaigns installed) (Session.after e ms).engine := by
  obtain ⟨campaigns, installed, quiets, up⟩ := boots.up_raise
  exact ⟨campaigns, installed,
    (quiets.changes.evolves (sound_loaded boots.held campaigns installed)).trans (up.evolves ms)⟩

theorem evolves_append (boots : e.BootsFrom snapshot) (ms ms' : List Move) :
    Evolves (Session.after e ms).engine (Session.after e (ms ++ ms')).engine := by
  rw [Session.after_append]
  exact (boots.up ms).evolves ms'

end BootsFrom

/-- The engine in front of a store that it has recovered, with the profile and all journeys taken
up. -/
def resumed (e : Engine) (store : Store) : Engine :=
  let e := { e with user := e.host.distinctId, store := store }
  let e := match e.host.fetchProfile with
    | .ok profile => e.install profile
    | .error _ => e
  (e.store.active.foldl checkGoal (e.store.active.foldl (·.restore e.now) e)).answer (.done (.ok ()))

/-- The session of an engine that has come up with a store. -/
def risen (e : Engine) (store : Store) : Session := { Session.new e with
  engine := e.resumed store
  running := true
  turns := .engine :: Session.turnsOf (e.resumed store) e.lastTask (e.resumed store).lastTask }

/-- Storage is read once while the engine comes up. -/
theorem raise_of_load {backend : Backend} (loads : e.store.backend.load = (backend, .ok snapshot)) :
    Session.raise e = e.risen ((snapshot.journeys.filter Journey.isTerminal).foldl
      (fun store j => (store.complete j).1) { e.store with
        backend := backend
        active := (snapshot.journeys.filter (!·.isTerminal)).foldl (fun held j => upsert j held) []
        ledger := snapshot.ledger }) := by
  have held := congrArg Prod.snd loads
  have handled : e.handle (.command .boot) = e.resumed e.store.recovered := by
    rw [handle, onCommand, onBoot_eq held]
    unfold greeted resumed
    dsimp only
    cases e.host.fetchProfile <;> rfl
  have recovered := Store.recovered_of_load held
  rw [Store.takenOver, loads] at recovered
  rw [← recovered]
  simp [Session.raise, Session.post, Session.deliver, Session.new, risen, handled]

/-- A new engine is down. -/
theorem bootsFrom_new {backend : Backend} (settings : EngineSettings) (host : Host)
    (ids : Nat → JourneyId) (h : backend.load.2 = .ok snapshot) :
    (Engine.new settings host backend ids).BootsFrom snapshot :=
  ⟨rfl, h⟩

/-- An engine in front of storage in memory, with ids that count up. -/
def inMemory (held : Holdings) (now : Instant) : Engine :=
  .new .default (.new now "ann" ⟨[], [], [], []⟩) (.memory held []) fun n => ⟨BitVec.ofNat 128 n⟩

theorem bootsFrom_inMemory (held : Holdings) (now : Instant) :
    (inMemory held now).BootsFrom held := bootsFrom_new _ _ _ rfl

/-- A document with a text. -/
def written (text : String) (known : Option Snapshot) : Document :=
  ⟨"journeys.json", Files.put (fun _ => .absent) "journeys.json" (.text text), known⟩

theorem load_written {text : String} (held : Disk.read (.text text) = .ok snapshot) :
    (Backend.file (written text none)).load =
      (.file (written text (some snapshot)), .ok snapshot) := by
  have placed : Path.place "journeys.json" = "journeys.json" := by decide +kernel
  have named : Path.namesFile "journeys.json" = true := by decide +kernel
  simp [Backend.load, Document.load, written, Document.read_none, Files.read, placed, named, held]

/-- An engine in front of a document, with ids that count up. -/
def onDocument (text : String) (now : Instant) : Engine :=
  .new .default (.new now "ann" ⟨[], [], [], []⟩) (.file (written text none))
    fun n => ⟨BitVec.ofNat 128 n⟩

end Engine

/-- A campaign of one node, which greets the user. -/
def Campaign.greeting (reentry : Reentry) : Campaign where
  id := "greeting"
  name := "Greeting"
  version := 1
  trigger := .event "opened" none
  entry := "hello"
  nodes := [⟨"hello", [], .callHost "greet" .null⟩]
  goal := none
  exitPolicy := .never
  anchor := .journeyStart
  reentry := reentry

/-- The host has a user greeted. -/
def Session.greets (reentry : Reentry) : List Move :=
  [.send (.start (.greeting reentry) "ann" none), .deliver]

/-! ## Turns are moves -/

/-- Whether the move is one of the engine's own, without the host. -/
def Move.isInner : Move → Bool
  | .deliver | .work _ | .fire _ | .pass _ | .arrange _ => true
  | _ => false

namespace Session

/-- Some moves of the engine's own lead from one session to the other. -/
def Unfolds (s s' : Session) : Prop := ∃ ms : List Move, (∀ m ∈ ms, m.isInner) ∧ s.moves ms = s'

namespace Unfolds

variable {s s' s'' : Session}

theorem refl (s : Session) : s.Unfolds s := ⟨[], by simp, rfl⟩

theorem trans (h : s.Unfolds s') (h' : s'.Unfolds s'') : s.Unfolds s'' := by
  obtain ⟨ms, inner, rfl⟩ := h
  obtain ⟨ms', inner', rfl⟩ := h'
  exact ⟨ms ++ ms', fun m hm => (List.mem_append.mp hm).elim (inner m) (inner' m),
    moves_append ..⟩

theorem of_move (s : Session) {m : Move} (inner : m.isInner) : s.Unfolds (s.move m) :=
  ⟨[m], by simpa using inner, rfl⟩

theorem arrange (s : Session) (turns : List Turn) : s.Unfolds { s with turns := turns } :=
  of_move s (m := .arrange turns) rfl

/-- What a move of the engine's own keeps, they all keep. -/
theorem keeps {I : Session → Prop} (h : s.Unfolds s')
    (step : ∀ s m, m.isInner → I s → I (s.move m)) (here : I s) : I s' := by
  obtain ⟨ms, inner, rfl⟩ := h
  exact List.foldlRecOn ms move here fun s kept m hm => step s m (inner m hm) kept

end Unfolds

variable {s s' : Session}

theorem unfolds_foldl_fire (timers : List Timer) (s : Session) :
    s.Unfolds (timers.foldl fire s) := by
  induction timers generalizing s with
  | nil => exact .refl s
  | cons timer timers ih => exact (Unfolds.of_move s (m := .fire timer) rfl).trans (ih _)

theorem unfolds_wake (s : Session) : s.Unfolds s.wake := by
  unfold wake
  exact (unfolds_foldl_fire _ s).trans (.arrange _ _)

theorem unfolds_sleepUntil (s : Session) (t : Nat) : s.Unfolds (s.sleepUntil t) := by
  unfold sleepUntil
  exact (Unfolds.arrange s _).trans (.of_move _ (m := .pass t) rfl)

/-- The next message is handled, and turns may be given anew. -/
theorem unfolds_handleNext (s : Session) : s.deliver.Unfolds s.handleNext := by
  unfold handleNext
  dsimp only
  split
  · exact .refl _
  · exact .arrange _ _

theorem unfolds_step (h : s.step? = some s') : s.Unfolds s' := by
  unfold step? at h
  split at h
  · split at h
    · obtain rfl := Option.some.inj h
      exact .arrange s _
    · obtain rfl := Option.some.inj h
      exact (Unfolds.of_move s (m := .deliver) rfl).trans s.unfolds_handleNext
  · rename_i id rest _
    obtain rfl := Option.some.inj h
    exact (Unfolds.arrange s rest).trans (.of_move _ (m := .work id) rfl)
  · obtain rfl := Option.some.inj h
    exact .arrange s _
  · obtain rfl := Option.some.inj h
    exact .arrange s _
  · dsimp only at h
    split at h
    · cases h
    · obtain rfl := Option.some.inj h
      exact s.unfolds_wake

theorem unfolds_exhaust (isOver : Session → Bool) (fuel : Nat) (s : Session) :
    s.Unfolds (exhaust isOver fuel s) := by
  induction fuel generalizing s with
  | zero => exact .refl s
  | succ fuel ih =>
    unfold exhaust
    split
    · exact .refl s
    · split
      · rename_i next h
        exact (unfolds_step h).trans (ih next)
      · exact .refl s

theorem unfolds_rest (s : Session) : s.Unfolds s.rest := unfolds_exhaust _ _ s

theorem unfolds_idle (fuel : Nat) (s : Session) : s.Unfolds (idle fuel s) := by
  induction fuel generalizing s with
  | zero => exact .refl s
  | succ fuel ih =>
    unfold idle
    dsimp only
    split
    · exact s.unfolds_rest
    · split
      · exact s.unfolds_rest.trans ((unfolds_sleepUntil _ _).trans (ih _))
      · exact s.unfolds_rest

theorem unfolds_settle (s : Session) : s.Unfolds s.settle := unfolds_idle _ s

theorem unfolds_waitFor (n fuel : Nat) (s : Session) : s.Unfolds (waitFor n fuel s) := by
  induction fuel generalizing s with
  | zero => exact .refl s
  | succ fuel ih =>
    have hx := unfolds_exhaust (·.hasAnswered n) turnLimit s
    unfold waitFor
    dsimp only
    split
    · exact hx
    · split
      · exact hx.trans ((unfolds_sleepUntil _ _).trans (ih _))
      · exact hx

theorem exhaust_of_step {isOver : Session → Bool} (on : isOver s = false)
    (h : s.step? = some s') (fuel : Nat) : exhaust isOver (fuel + 1) s = exhaust isOver fuel s' := by
  simp [exhaust, on, h]

/-- An engine that is to come up comes up first. -/
theorem await_unfolds (e : Engine) :
    (raise e).Unfolds ({ new e with running := true }.post (.command .boot)).await := by
  let asked := { new e with running := true }.post (.command .boot)
  have first : exhaust (·.hasAnswered e.answers.length) turnLimit asked =
      exhaust (·.hasAnswered e.answers.length) (turnLimit - 1) asked.handleNext :=
    exhaust_of_step (by simp [hasAnswered, asked, post, new])
      (by simp [step?, isPausing, asked, post, new]) (turnLimit - 1)
  have exhausted : (raise e).Unfolds (exhaust (·.hasAnswered e.answers.length) turnLimit asked) :=
    asked.unfolds_handleNext.trans (first ▸ unfolds_exhaust _ _ _)
  have answered : (raise e).Unfolds (waitFor e.answers.length skipLimit asked) := by
    unfold skipLimit waitFor
    dsimp only
    split
    · exact exhausted
    · split
      · exact exhausted.trans ((unfolds_sleepUntil _ _).trans (unfolds_waitFor _ _ _))
      · exact exhausted
  exact answered.trans (unfolds_rest _)

/-- Coming up by turns is coming up and some moves. -/
theorem boot_unfolds (e : Engine) {s : Session} (h : (new e).boot = (s, .ok ())) :
    (raise e).Unfolds s := by
  unfold boot at h
  dsimp only [new] at h
  simp only [Bool.false_eq_true, if_false] at h
  split at h
  · obtain rfl := congrArg Prod.fst h
    exact await_unfolds e
  · cases congrArg Prod.snd h
  · cases congrArg Prod.snd h

end Session

end Engagement
