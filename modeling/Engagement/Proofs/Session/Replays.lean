import Engagement.Replay
import Engagement.Proofs.Engine.Timelines
import Engagement.Proofs.Session.Findings
import Engagement.Proofs.Session.Occurrences

/-! # Replays on time

A replay sets the clock from one event to the next, and takes up the journeys whose deadline has
passed meanwhile only once the next event is on record. Where no deadline passes between two events,
the replay is what it would be if the clock stopped at every deadline on its way.
-/

namespace Engagement

namespace Session

open Engine

variable {s s' : Session} {e : Engine} {m : Move} {times : List Instant} {now since t d : Instant}

/-! ## Sessions that suit some times -/

/-- The clock stands at `now`, which is one of the times, and everything at hand and in the mailbox
suits them. -/
structure Suits (times : List Instant) (now : Instant) (s : Session) : Prop where
  engine : s.engine.Suits times now
  mailbox : ∀ message ∈ s.mailbox, message.Suits times

namespace Suits

theorem post (suits : s.Suits times now) {message : Message} (fits : message.Suits times) :
    (s.post message).Suits times now where
  engine := suits.engine
  mailbox m hm := by
    rcases List.mem_append.mp hm with hm | hm
    · exact suits.mailbox m hm
    · exact List.mem_singleton.mp hm ▸ fits

theorem runFlight {f : Flight} (suits : s.Suits times now) (hf : f ∈ s.engine.flights) :
    (s.runFlight f).Suits times now := by
  have records := records_stage s.engine.host f
  constructor
  · rw [runFlight_engine]
    refine suits.engine.of_parts records.now records.profile rfl (fun _ hj => .inl hj) ?_
    intro f' hf'
    obtain ⟨g, hg, rfl⟩ := List.mem_map.mp hf'
    unfold inPhase
    split
    · obtain ⟨entered, paths, -⟩ := suits.engine.steps g hg
      refine .inr ⟨entered, paths, fun result found => ?_⟩
      exact (suits.engine.steps f hf).of_finds (finds_of_stage found)
    · exact .inl hg
  · intro message hm
    rw [runFlight_mailbox] at hm
    rcases List.mem_append.mp hm with hm | hm
    · exact suits.mailbox message hm
    · split at hm
      · rename_i result hp
        obtain rfl := List.mem_singleton.mp hm
        exact (suits.engine.steps f hf).found result hp
      · cases hm

theorem outcome {task : Task} {report : Report} (suits : e.Suits times now)
    (told : outcome? e task = some report) : (Message.report report).Suits times := by
  unfold outcome? at told
  split at told
  · obtain rfl := Option.some.inj told
    trivial
  · obtain rfl := Option.some.inj told
    trivial
  · obtain rfl := Option.some.inj told
    unfold Host.fetchProfile Host.guarded
    split
    · trivial
    · exact suits.profile
  · split at told
    · obtain rfl := Option.some.inj told
      trivial
    · cases told

/-- Whatever the engine does by itself, it goes on to suit the times. -/
theorem move (suits : s.Suits times now) (inner : m.isInner) : (s.move m).Suits times now := by
  cases m with
  | deliver =>
    rcases hm : s.mailbox with _ | ⟨message, rest⟩
    · rwa [move_deliver_of_empty hm]
    · constructor
      · rw [Session.move, deliver_engine hm]
        exact suits.engine.handle (suits.mailbox message (by simp [hm]))
      · rw [Session.move, deliver_mailbox hm]
        exact fun m h => suits.mailbox m (by simp [hm, h])
  | work task =>
    rw [Session.move]
    rcases s.run_cases task with ⟨f, hf, hr⟩ | ⟨job, report, tasks, told, hr⟩ | hr <;> rw [hr]
    · exact suits.runFlight (List.mem_of_find?_eq_some hf)
    · exact post (s := { s with engine := { s.engine with tasks := tasks } })
        ⟨suits.engine.of_same rfl rfl rfl rfl rfl, suits.mailbox⟩ (outcome suits.engine told)
    · exact suits
  | fire timer =>
    exact post (s := { s with engine := { s.engine with timers := s.engine.timers.erase timer } })
      ⟨suits.engine.of_same rfl rfl rfl rfl rfl, suits.mailbox⟩ trivial
  | pass => exact ⟨suits.engine.of_same rfl rfl rfl rfl rfl, suits.mailbox⟩
  | arrange => exact ⟨suits.engine, suits.mailbox⟩
  | _ => cases inner

theorem unfolds (suits : s.Suits times now) (h : s.Unfolds s') : s'.Suits times now :=
  h.keeps (fun _ _ inner suits => suits.move inner) suits

theorem send (suits : s.Suits times now) {c : Command} (fits : (Message.command c).Suits times) :
    (s.send c).1.Suits times now := by
  unfold Session.send
  split
  · exact suits.post fits
  · exact suits

theorem setClock (suits : s.Suits times now) (ht : t ∈ times) : (s.setClock t).Suits times t where
  engine := ⟨rfl, ht, suits.engine.profile, suits.engine.campaigns, suits.engine.journeys,
    suits.engine.steps⟩
  mailbox := suits.mailbox

theorem play (suits : s.Suits times now) {event : HostEvent}
    (ht : event.occurrence.time ∈ times) : (s.play event).Suits times event.occurrence.time := by
  have clocked := suits.setClock ht
  have recorded : ((s.setClock event.occurrence.time).recordEvent event.occurrence).Suits times
      event.occurrence.time :=
    ⟨clocked.engine.of_same rfl rfl rfl rfl rfl, clocked.mailbox⟩
  have sent : ((((s.setClock event.occurrence.time).recordEvent event.occurrence).resumeDue).send
      (.event event)).1.Suits times event.occurrence.time :=
    (recorded.send (c := .resumeDue) trivial).send trivial
  exact sent.unfolds (unfolds_settle _)

end Suits

/-- An engine that comes up in front of empty storage, with a profile that suits the times. -/
theorem suits_raise (boots : e.BootsFrom .empty) (reached : e.now ∈ times)
    (profile : e.host.profile.Suits times) : (raise e).Suits times e.now := by
  have loaded : (e.loaded e.campaigns e.profileLoaded).Suits times e.now := by
    refine ⟨rfl, reached, profile, ?_, ?_, ?_⟩
    · rintro entry hm
      rw [show (e.loaded e.campaigns e.profileLoaded).campaigns = [] from
        (congrArg Engine.campaigns boots.down).symm] at hm
      cases hm
    · rintro j hj
      cases (Store.mem_of_mem_recovered boots.held hj).1
    · rintro f hf
      rw [show (e.loaded e.campaigns e.profileLoaded).flights = [] from boots.flights_eq] at hf
      cases hf
  have greeted : e.greeted.Suits times e.now := by
    unfold Engine.greeted
    dsimp only
    split
    · rename_i fetched answered
      unfold Host.fetchProfile Host.guarded at answered
      split at answered
      · cases answered
      · obtain rfl := Except.ok.inj answered
        exact loaded.install profile
    · exact loaded
  refine ⟨(Engine.Suits.abides times e.now e.greeted.store.active).boot boots.held
    (List.Subset.refl _) greeted, ?_⟩
  intro message hm
  cases hm

/-! ## The clock stops at deadlines -/

/-- The first deadline of a journey that waits, out of those between two instants. -/
def nextDeadline? (s : Session) (since t : Instant) : Option Instant :=
  ((s.engine.store.active.filter (·.status = .paused)).filterMap fun j =>
    j.resumeAt.filter fun d => since < d ∧ d < t).min?

theorem nextDeadline?_eq_some (h : s.nextDeadline? since t = some d) :
    (∃ j ∈ s.engine.store.active, j.resumeAt = some d) ∧ since < d ∧ d < t := by
  obtain ⟨j, hj, hd⟩ := List.mem_filterMap.mp (List.min?_mem h)
  obtain ⟨due, between⟩ := Option.filter_eq_some_iff.mp hd
  exact ⟨⟨j, (List.mem_filter.mp hj).1, due⟩, by simpa using between⟩

/-- The clock is set to every deadline on the way to `t`, one after the other, and the journeys that
are due are taken up there. -/
def passDeadlines (t since : Instant) (s : Session) : Session :=
  match _ : s.nextDeadline? since t with
  | none => s
  | some d => passDeadlines t d (s.setClock d).resumeDue.settle
termination_by (t.position - since.position).toNat
decreasing_by
  obtain ⟨-, after, before⟩ := nextDeadline?_eq_some ‹_›
  have after : since.position < d.position := after
  have before : d.position < t.position := before
  omega

theorem passDeadlines_of_none (h : s.nextDeadline? since t = none) :
    passDeadlines t since s = s := by
  rw [passDeadlines]
  split
  · rfl
  · cases h.symm.trans ‹_›

theorem passDeadlines_of_some (h : s.nextDeadline? since t = some d) :
    passDeadlines t since s = passDeadlines t d (s.setClock d).resumeDue.settle := by
  rw [passDeadlines]
  split
  · cases h.symm.trans ‹_›
  · rename_i d' h'
    obtain rfl := Option.some.inj (h.symm.trans h')
    rfl

theorem Up.unfolds (up : s.Up) (h : s.Unfolds s') : s'.Up ∧ s'.engine.now = s.engine.now := by
  refine h.keeps (I := fun s' => s'.Up ∧ s'.engine.now = s.engine.now) ?_ ⟨up, rfl⟩
  rintro s' m inner ⟨up', same⟩
  have other : ∀ host, m ≠ .host host := by
    rintro host rfl
    cases inner
  exact ⟨up'.move m, (records_move up' other).now.trans same⟩

/-- Whoever is due at an instant is taken up there, and the clock stays. -/
theorem Up.stop (up : s.Up) (d : Instant) : (s.setClock d).resumeDue.settle.Up ∧
    (s.setClock d).resumeDue.settle.engine.now = d := by
  have clocked : (s.setClock d).Up := ⟨⟨up.sound.distinct, up.sound.alive⟩, up.once⟩
  have resumed : (s.setClock d).resumeDue.Up := clocked.move (.send .resumeDue)
  have same : (s.setClock d).resumeDue.engine = (s.setClock d).engine := by
    unfold resumeDue send
    split <;> rfl
  obtain ⟨settled, now⟩ := resumed.unfolds (unfolds_settle _)
  exact ⟨settled, now.trans (congrArg Engine.now same)⟩

/-- A clock that has stopped at every deadline on its way leaves none behind. -/
theorem passDeadlines_stops (up : s.Up) (t : Instant) :
    (passDeadlines t s.engine.now s).nextDeadline? (passDeadlines t s.engine.now s).engine.now t =
      none := by
  generalize clock : s.engine.now = since
  fun_induction passDeadlines t since s with
  | case1 since s none_left => rwa [clock]
  | case2 since s d next ih =>
    obtain ⟨settled, now⟩ := up.stop d
    exact ih settled now

/-- Plays one event after every deadline before it. -/
def playOnTime (s : Session) (event : HostEvent) : Session :=
  (passDeadlines event.occurrence.time s.engine.now s).play event

theorem playOnTime_of_none {event : HostEvent}
    (none_left : s.nextDeadline? s.engine.now event.occurrence.time = none) :
    s.playOnTime event = s.play event := by
  rw [playOnTime, passDeadlines_of_none none_left]

theorem playOnTime_of_one {event : HostEvent}
    (due : s.nextDeadline? s.engine.now event.occurrence.time = some d)
    (last : (s.setClock d).resumeDue.settle.nextDeadline? d event.occurrence.time = none) :
    s.playOnTime event = (s.setClock d).resumeDue.settle.play event := by
  rw [playOnTime, passDeadlines_of_some due, passDeadlines_of_none last]

theorem foldl_playOnTime {events : List HostEvent} {s : Session}
    (punctual : ∀ before event rest, events = before ++ event :: rest →
      (before.foldl play s).nextDeadline? (before.foldl play s).engine.now event.occurrence.time =
        none) : events.foldl playOnTime s = events.foldl play s := by
  induction events generalizing s with
  | nil => rfl
  | cons event rest ih =>
    have first : s.playOnTime event = s.play event :=
      playOnTime_of_none (punctual [] event rest rfl)
    rw [List.foldl_cons, List.foldl_cons, first]
    apply ih
    rintro before next later rfl
    exact punctual (event :: before) next later rfl

/-- When the clock goes on from one of the times to the next, it passes no deadline. -/
theorem Suits.nextDeadline?_eq_none (suits : s.Suits times now) (ht : t ∈ times)
    (adjacent : ∀ u ∈ times, u ≤ now ∨ t ≤ u) : s.nextDeadline? s.engine.now t = none := by
  rw [suits.engine.clock]
  rcases h : s.nextDeadline? now t with _ | d
  · rfl
  · obtain ⟨⟨j, hj, due⟩, after, before⟩ := nextDeadline?_eq_some h
    rcases (suits.engine.journeys j hj).due d due with hd | last
    · rcases adjacent d hd with le | le
      · exact (Std.not_le.mpr after le).elim
      · exact (Std.not_le.mpr before le).elim
    · exact (Std.not_le.mpr before (last t ht)).elim

end Session

/-! ## Timelines -/

theorem HostEvent.ownedBy_time (user : String) (event : HostEvent) :
    (event.ownedBy user).occurrence.time = event.occurrence.time := by
  unfold ownedBy
  split <;> rfl

/-- What a clock that has stood at `start` shows after some events. -/
def clockAfter (start : Instant) (events : List HostEvent) : Instant :=
  events.foldl (fun _ event => event.occurrence.time) start

theorem Session.Suits.foldl_play {times : List Instant} {now : Instant} {s : Session}
    (suits : s.Suits times now) {events : List HostEvent}
    (reached : ∀ event ∈ events, event.occurrence.time ∈ times) :
    (events.foldl Session.play s).Suits times (clockAfter now events) := by
  induction events generalizing s now with
  | nil => exact suits
  | cons event events ih =>
    exact ih (suits.play (reached event (by simp))) fun later h => reached later (by simp [h])

namespace Script

variable (script : Script)

/-- The times of the events. -/
def times : List Instant := script.events.map (·.occurrence.time)

/-- Counted from any event, every limit of a wait is over at some event, or not before the last. -/
def KeepsTime : Prop :=
  ∀ campaign ∈ (Campaign.ofRawList script.campaigns).1, campaign.Suits script.times

instance : Decidable script.KeepsTime :=
  inferInstanceAs
    (Decidable (∀ campaign ∈ (Campaign.ofRawList script.campaigns).1, campaign.Suits script.times))

variable {script} {before rest : List HostEvent} {event : HostEvent}

theorem mem_times_iff {t : Instant} :
    t ∈ script.times ↔ ∃ event ∈ script.timeline, event.occurrence.time = t := by
  simp [times, timeline, HostEvent.ownedBy_time]

theorem time_mem (h : event ∈ script.timeline) : event.occurrence.time ∈ script.times :=
  mem_times_iff.mpr ⟨event, h, rfl⟩

theorem timeline_sorted :
    script.timeline.Pairwise fun a b => a.occurrence.time ≤ b.occurrence.time := by
  let le (a b : HostEvent) : Bool := decide (a.occurrence.time ≤ b.occurrence.time)
  have sorted : script.timeline.Pairwise fun a b => le a b :=
    List.pairwise_mergeSort (fun a b c => by simpa [le] using Std.le_trans)
      (fun a b => by simpa [le] using Std.le_total) _
  simpa [le] using sorted

/-- A replay of some events begins with one of them. -/
theorem start_mem (h : event ∈ script.timeline) (now : Instant) :
    script.start now ∈ script.times := by
  rcases ht : script.timeline with _ | ⟨first, later⟩
  · rw [ht] at h
    cases h
  · rw [start, ht]
    exact time_mem (by simp [ht])

/-- No event comes between one and the next. -/
theorem adjacent (h : script.timeline = before ++ event :: rest) (now : Instant) :
    ∀ t ∈ script.times, t ≤ clockAfter (script.start now) before ∨ event.occurrence.time ≤ t := by
  have sorted := h ▸ script.timeline_sorted
  intro t ht
  obtain ⟨other, hm, rfl⟩ := mem_times_iff.mp ht
  rw [h] at hm
  obtain ⟨earlier, later, -⟩ := List.pairwise_append.mp sorted
  rcases List.mem_append.mp hm with hm | hm
  · left
    rcases List.eq_nil_or_concat before with rfl | ⟨prior, last, rfl⟩
    · cases hm
    · rw [List.concat_eq_append] at hm earlier ⊢
      rw [clockAfter, List.foldl_append]
      rcases List.mem_append.mp hm with hm | hm
      · exact (List.pairwise_append.mp earlier).2.2 other hm last (by simp)
      · obtain rfl := List.mem_singleton.mp hm
        exact Std.le_refl _
  · right
    rcases List.mem_cons.mp hm with rfl | hm
    · exact Std.le_refl _
    · exact (List.pairwise_cons.mp later).1 other hm

end Script

/-! ## Replays -/

namespace Replay

/-- A replay in which the clock stops at every deadline on its way. -/
def runOnTime (settings : EngineSettings) (script : Script) (backend : Backend)
    (ids : Nat → JourneyId) (now : Instant) : Session × Except Fault Unit :=
  let engine := Engine.new settings (script.host now) backend ids
  match (Session.new engine).boot with
  | (s, .error fault) => (s, .error fault)
  | (s, .ok ()) => ((script.timeline.foldl Session.playOnTime s).resumeDue.settle, .ok ())

/-- No deadline passes between two events: when the clock goes on from one to the next, no journey
waits for an instant between them. -/
def Punctual (settings : EngineSettings) (script : Script) (backend : Backend)
    (ids : Nat → JourneyId) (now : Instant) : Prop :=
  ∀ s, (Session.new (.new settings (script.host now) backend ids)).boot = (s, .ok ()) →
    ∀ before event rest, script.timeline = before ++ event :: rest →
      let reached := before.foldl Session.play s
      reached.nextDeadline? reached.engine.now event.occurrence.time = none

variable {settings : EngineSettings} {script : Script} {backend : Backend} {ids : Nat → JourneyId}
  {now : Instant}

theorem runOnTime_of_boot {s : Session}
    (up : (Session.new (.new settings (script.host now) backend ids)).boot = (s, .ok ())) :
    runOnTime settings script backend ids now =
      ((script.timeline.foldl Session.playOnTime s).resumeDue.settle, .ok ()) := by
  unfold runOnTime
  dsimp only
  rw [up]

theorem run_eq_runOnTime (punctual : Punctual settings script backend ids now) :
    run settings script backend ids now = runOnTime settings script backend ids now := by
  unfold run runOnTime
  dsimp only
  rcases up : (Session.new (.new settings (script.host now) backend ids)).boot with ⟨s, fault | _⟩
  · rfl
  · dsimp only
    rw [Session.foldl_playOnTime (punctual s up)]

theorem punctual_of_keepsTime (keeps : script.KeepsTime) (empty : backend.load.2 = .ok .empty) :
    Punctual settings script backend ids now := by
  rintro s up before event rest h reached
  have played : ∀ e ∈ before ++ event :: rest, e.occurrence.time ∈ script.times :=
    fun e he => Script.time_mem (h ▸ he)
  have listed : event ∈ script.timeline := by simp [h]
  have raised : (Session.raise (.new settings (script.host now) backend ids)).Suits script.times
      (script.start now) :=
    Session.suits_raise (Engine.bootsFrom_new settings (script.host now) ids empty)
      (Script.start_mem listed now) keeps
  have suits : reached.Suits script.times (clockAfter (script.start now) before) :=
    (raised.unfolds (Session.boot_unfolds _ up)).foldl_play fun e he => played e (by simp [he])
  exact suits.nextDeadline?_eq_none (played event (by simp)) (Script.adjacent h now)

/-- A clock that stops at every deadline on its way to an event leaves none behind. If no deadline
passes between two events, the replay is the same as one with such a clock: it ends with the same
records, the same effects on the host and the same journeys under way. None does in front of empty
storage if every limit of a wait, counted from any event, is over at the time of some event or not
before the last. -/
theorem replay_on_time (settings : EngineSettings) (script : Script) (backend : Backend)
    (ids : Nat → JourneyId) (now : Instant) :
    (∀ s : Session, s.Up → ∀ t, let stopped := s.passDeadlines t s.engine.now
      stopped.nextDeadline? stopped.engine.now t = none) ∧
    (Punctual settings script backend ids now →
      run settings script backend ids now = runOnTime settings script backend ids now) ∧
    (script.KeepsTime → backend.load.2 = .ok .empty → Punctual settings script backend ids now) :=
  ⟨fun _ up t => Session.passDeadlines_stops up t, run_eq_runOnTime, punctual_of_keepsTime⟩

end Replay

/-- A user who has opened the app is thanked on a purchase and nudged after ten seconds. -/
def Campaign.tenSeconds : Campaign where
  id := "offer"
  name := "Offer"
  version := 1
  trigger := .event "opened" none
  entry := "wait"
  nodes :=
    [⟨"wait", [], .waitUntil [⟨some ⟨1, .eventOccurred "bought" none⟩, none, "thanks"⟩,
      ⟨none, some 10, "nudge"⟩]⟩,
    ⟨"thanks", [], .exit (some "thanks")⟩, ⟨"nudge", [], .exit (some "nudge")⟩]
  goal := none
  exitPolicy := .never
  anchor := .journeyStart
  reentry := .once

/-- Events of one user to whom the offer is made. -/
def Script.offering (events : List (String × Instant)) : Script where
  campaigns := [Campaign.tenSeconds.encode]
  segments := []
  user := "ann"
  events := events.map fun (name, time) => ⟨name, ⟨name, "ann", [], time⟩⟩

theorem Script.timeline_offering {events : List (String × Instant)}
    (sorted : events.Pairwise fun a b => a.2 ≤ b.2) :
    (Script.offering events).timeline = (Script.offering events).events := by
  have owned : (Script.offering events).events.map (·.ownedBy "ann") =
      (Script.offering events).events := by
    simp [Script.offering, HostEvent.ownedBy]
  unfold timeline
  rw [show (Script.offering events).user = "ann" from rfl, owned]
  apply List.mergeSort_of_pairwise
  simpa [Script.offering, List.pairwise_map] using sorted

namespace Replay

/-- The tenth second of the first day. -/
def tenth : Instant := (Instant.make? 10 0).getD .epoch
def minute : Instant := (Instant.make? 60 0).getD .epoch
def twoMinutes : Instant := (Instant.make? 120 0).getD .epoch

/-- A clock on its way through two minutes stops at the end of a wait of one. A purchase in the tenth
second comes as the offer's limit is over. -/
theorem bought_in_time :
    let waiting := Session.after (Engine.inMemory .empty .epoch)
      (Session.taps ++ [.deliver, .work 1, .deliver])
    let stopped := waiting.passDeadlines twoMinutes waiting.engine.now
    let script := Script.offering [("opened", .epoch), ("bought", tenth)]
    let ids := fun n => ⟨BitVec.ofNat 128 n⟩
    waiting.nextDeadline? waiting.engine.now twoMinutes = some minute ∧
      stopped.nextDeadline? stopped.engine.now twoMinutes = none ∧
      script.KeepsTime ∧ run .default script (.memory .empty []) ids .epoch =
        runOnTime .default script (.memory .empty []) ids .epoch := by
  intro waiting stopped script ids
  have up : waiting.Up := (Engine.bootsFrom_inMemory .empty .epoch).up _
  have keeps : script.KeepsTime := by decide +kernel
  obtain ⟨none_left, same, punctual⟩ :=
    replay_on_time .default script (.memory .empty []) ids .epoch
  exact ⟨by decide +kernel, none_left waiting up twoMinutes, keeps, same (punctual keeps rfl)⟩

/-- A minute passes before the purchase. The replay thanks the user, whom a clock that stops at the
deadline has nudged fifty seconds before. -/
theorem thanked_too_late :
    let script := Script.offering [("opened", .epoch), ("bought", minute)]
    let ids := fun n => ⟨BitVec.ofNat 128 n⟩
    let exits := fun replay : Session × Except Fault Unit =>
      replay.1.engine.store.ledger.map (·.exitReason)
    exits (run .default script (.memory .empty []) ids .epoch) = [.exitNode (some "thanks")] ∧
      exits (runOnTime .default script (.memory .empty []) ids .epoch) =
        [.exitNode (some "nudge")] := by
  intro script ids exits
  have timeline : script.timeline = script.events := Script.timeline_offering (by decide +kernel)
  have host : script.host .epoch = .new .epoch "ann"
      { Profile.empty with campaigns := script.campaigns, segments := [] } := by
    rw [Script.host, Script.start, timeline]
    rfl
  let started := (Session.new (.new .default (script.host .epoch) (.memory .empty []) ids)).boot
  let opened : HostEvent := ⟨"opened", ⟨"opened", "ann", [], .epoch⟩⟩
  let bought : HostEvent := ⟨"bought", ⟨"bought", "ann", [], minute⟩⟩
  have first : started.1.playOnTime opened = started.1.play opened := by
    apply Session.playOnTime_of_none
    unfold started
    rw [host]
    decide +kernel
  have second : (started.1.play opened).playOnTime bought =
      ((started.1.play opened).setClock tenth).resumeDue.settle.play bought := by
    apply Session.playOnTime_of_one <;> unfold started <;> rw [host] <;> decide +kernel
  constructor
  · unfold exits run
    rw [host, timeline]
    decide +kernel
  · have up : started.2.isOk = true := by
      unfold started
      rw [host]
      decide +kernel
    have up : started = (started.1, .ok ()) := by
      rcases hs : started with ⟨s, _ | _⟩
      · simp [hs, Except.isOk, Except.toBool] at up
      · rfl
    unfold exits
    rw [runOnTime_of_boot up, timeline, show script.events = [opened, bought] from rfl,
      List.foldl_cons, List.foldl_cons, List.foldl_nil, first, second]
    unfold started
    rw [host]
    decide +kernel

end Replay

end Engagement
