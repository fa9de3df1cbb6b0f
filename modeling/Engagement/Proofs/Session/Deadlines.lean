import Engagement.Proofs.Engine.Deadlines
import Engagement.Proofs.Session.Progress

/-! # No deadline is lost

A journey that waits for a deadline while the app is in the foreground will hear of it: a timer of
its own sleeps, or has fired and its report waits in the mailbox.
-/

namespace Engagement

namespace Engine

variable {e : Engine} {m : Message}

theorem profileLoaded_takeIn (loaded : e.profileLoaded = true) :
    (e.takeIn m).profileLoaded = true := by
  unfold takeIn
  split
  · split <;> exact loaded
  · rfl
  · split <;> exact loaded
  · exact loaded

end Engine

/-- The lifecycle signal that the host sends. -/
def Move.signal? : Move → Option Lifecycle
  | .send (.lifecycle signal) => some signal
  | _ => none

namespace Session

open Engine

variable {s s' : Session} {e : Engine} {snapshot : Snapshot} {profile : Profile} {k : Journey}
  {m : Move} {ms : List Move}

/-- The lifecycle signals that the host sends in some moves, as they follow one another. -/
def signals (ms : List Move) : List Lifecycle := ms.filterMap Move.signal?

theorem signals_snoc (ms : List Move) (m : Move) :
    signals (ms ++ [m]) = signals ms ++ m.signal?.toList := by
  rw [signals, signals, List.filterMap_append]
  cases h : m.signal? <;> simp [h]

theorem signals_deliver (ms : List Move) : signals (ms ++ [.deliver]) = signals ms :=
  (signals_snoc ms .deliver).trans (List.append_nil _)

/-- Nothing is handled. The signal joins the messages that wait, as does the report of a timer that
fires. -/
structure Ticks (signal : Option Lifecycle) (s s' : Session) : Prop where
  running : s'.running = s.running
  foreground : s'.engine.foreground = s.engine.foreground
  mailbox : ∃ news, s'.mailbox = s.mailbox ++ news ∧
    news.filterMap Message.signal? = signal.toList ∧
    ∀ t ∈ s.engine.timers, t ∈ s'.engine.timers ∨ .report (.timer t.journey t.node) ∈ news

theorem Ticks.of_timers {signal : Option Lifecycle} (running : s'.running = s.running)
    (foreground : s'.engine.foreground = s.engine.foreground)
    (timers : s'.engine.timers = s.engine.timers) (news : List Message)
    (mailbox : s'.mailbox = s.mailbox ++ news)
    (signals : news.filterMap Message.signal? = signal.toList) : Ticks signal s s' :=
  ⟨running, foreground, news, mailbox, signals, fun _ ht => .inl (timers ▸ ht)⟩

theorem ticks_runFlight (s : Session) (f : Flight) : Ticks none s (s.runFlight f) := by
  have running : (s.runFlight f).running = s.running := by
    unfold runFlight
    dsimp only
    split
    · rfl
    · split <;> rfl
  refine .of_timers running (by rw [runFlight_engine]) (by rw [runFlight_engine]) _
    (s.runFlight_mailbox f) ?_
  split <;> rfl

theorem ticks_release (s : Session) (gate : String) : Ticks none s (s.release gate) := by
  unfold release
  dsimp only
  split <;> exact .of_timers rfl rfl rfl [] (List.append_nil _).symm rfl

theorem ticks_fire (s : Session) (timer : Timer) : Ticks none s (s.fire timer) := by
  refine ⟨rfl, rfl, [.report (.timer timer.journey timer.node)], rfl, rfl, fun t ht => ?_⟩
  by_cases hne : t = timer
  · exact .inr (by simp [hne])
  · exact .inl ((List.mem_erase_of_ne hne).mpr ht)

theorem ticks_move (running : s.running = true) (hm : m ≠ .deliver) :
    Ticks m.signal? s (s.move m) := by
  have same : Ticks none s s := .of_timers rfl rfl rfl [] (List.append_nil _).symm rfl
  cases m with
  | deliver => exact (hm rfl).elim
  | send c =>
    by_cases hc : c = .boot
    · exact hc ▸ same
    · rw [move_send s hc, send, if_pos running]
      refine .of_timers rfl rfl rfl [.command c] rfl ?_
      cases c <;> rfl
  | work task =>
    rw [move]
    rcases s.run_cases task with ⟨f, -, hr⟩ | ⟨job, report, tasks, -, hr⟩ | hr <;> rw [hr]
    · exact s.ticks_runFlight f
    · exact .of_timers rfl rfl rfl [.report report] rfl rfl
    · exact same
  | fire timer => exact s.ticks_fire timer
  | release gate => exact s.ticks_release gate
  | _ => exact .of_timers rfl rfl rfl [] (List.append_nil _).symm rfl

/-- Where a session stands in the signals of the app: some are handled and the others wait. As long
as they come in order, deadlines are kept. -/
structure Punctual (ms : List Move) (s : Session) : Prop where
  running : s.running = true
  loaded : s.engine.profileLoaded = true
  heard : ∃ handled, signals ms = handled ++ s.mailbox.filterMap Message.signal? ∧
    s.engine.foreground = Lifecycle.frontAfter true handled
  kept : Lifecycle.inOrder true (signals ms) = true → s.engine.Kept s.mailbox

namespace Punctual

theorem drift (punctual : Punctual ms s) (hm : m ≠ .deliver) :
    Punctual (ms ++ [m]) (s.move m) := by
  have ticks := ticks_move punctual.running hm
  have d := s.move_drift hm
  obtain ⟨news, mailbox, signal, timers⟩ := ticks.mailbox
  have here := signals_snoc ms m
  obtain ⟨handled, waiting, front⟩ := punctual.heard
  refine ⟨ticks.running.trans punctual.running, d.profileLoaded.trans punctual.loaded,
    ⟨handled, ?_, ticks.foreground.trans front⟩, ?_⟩
  · rw [here, waiting, mailbox, List.filterMap_append, signal, List.append_assoc]
  · intro ordered front k hk paused deadline free
    rw [here, Lifecycle.inOrder_append, Bool.and_eq_true] at ordered
    rcases punctual.kept ordered.1 (ticks.foreground ▸ front) k (d.active ▸ hk) paused deadline
      (d.isFlying_eq k.id ▸ free) with ⟨t, ht, hid, hn⟩ | hmem
    · rcases timers t ht with still | fired
      · exact .inl ⟨t, still, hid, hn⟩
      · exact .inr (mailbox ▸ List.mem_append_right _ (hid ▸ hn ▸ fired))
    · exact .inr (mailbox ▸ List.mem_append_left _ hmem)

theorem pass (punctual : Punctual ms s) : Punctual (ms ++ [.deliver]) s := by
  have here := signals_deliver ms
  exact ⟨punctual.running, punctual.loaded, here ▸ punctual.heard, here ▸ punctual.kept⟩

theorem deliver {message : Message} {rest : List Message} (punctual : Punctual ms s)
    (hm : s.mailbox = message :: rest) (hears : s.engine.Hears message) :
    Punctual (ms ++ [.deliver]) s.deliver := by
  have here := signals_deliver ms
  have running : s.deliver.running = s.running := by simp [Session.deliver, hm]
  obtain ⟨handled, waiting, front⟩ := punctual.heard
  rw [hm, List.filterMap_cons] at waiting
  have foreground := hears.foreground
  refine ⟨running.trans punctual.running, ?_, ?_, ?_⟩
  · rw [deliver_engine hm]
    exact hears.changes.profileLoaded_eq.trans (profileLoaded_takeIn punctual.loaded)
  · rw [here, deliver_engine hm, deliver_mailbox hm]
    rcases hs : message.signal? with _ | signal
    · exact ⟨handled, by simpa [hs] using waiting, by simpa [hs, front] using foreground⟩
    · refine ⟨handled ++ [signal], by simpa [hs] using waiting, ?_⟩
      simpa [hs, Lifecycle.frontAfter] using foreground
  · intro ordered
    rw [here] at ordered
    rw [deliver_engine hm, deliver_mailbox hm]
    refine (hm ▸ punctual.kept ordered).handle hears punctual.loaded fun hs => ?_
    rw [waiting, hs, Lifecycle.inOrder_append] at ordered
    have next := (Bool.and_eq_true_iff.mp ordered).2
    exact (by simpa [Lifecycle.inOrder, front] using next : _ ∧ _).1

end Punctual

theorem punctual_raise (boots : e.BootsFrom snapshot)
    (fetched : e.host.fetchProfile = .ok profile) : Punctual [] (raise e) where
  running := rfl
  loaded := (Calms.changes boots.calms_raise).profileLoaded_eq.trans (profileLoaded_greeted fetched)
  heard := ⟨[], rfl, (Calms.foreground_eq boots.calms_raise).trans boots.greeted_foreground⟩
  kept _ := kept_of_attended (boots.attended_raise fetched)

theorem punctual (boots : e.BootsFrom snapshot) (fetched : e.host.fetchProfile = .ok profile)
    (ms : List Move) (fresh : e.FreshIds snapshot (after e ms).engine.issued) :
    Punctual ms (after e ms) :=
  run_induction (I := Punctual) boots ms fresh (punctual_raise boots fetched)
    (fun _ _ _ punctual hm => punctual.drift hm) (fun _ _ punctual => punctual.pass)
    (fun _ _ _ _ _ punctual hm hears => punctual.deliver hm hears)

/-- As long as the app enters the foreground before it becomes active again, no deadline is lost:
in the foreground each journey that waits for one and has no step under way has a timer for the node
where it stands, or the report of such a timer is still to be handled. -/
theorem deadlines_kept (boots : e.BootsFrom snapshot) (fetched : e.host.fetchProfile = .ok profile)
    (ms : List Move) (fresh : e.FreshIds snapshot (after e ms).engine.issued)
    (ordered : Lifecycle.inOrder true (signals ms) = true)
    (front : (after e ms).engine.foreground = true) (hk : k ∈ (after e ms).engine.store.active)
    (paused : k.status = .paused) (deadline : k.resumeAt.isSome)
    (free : (after e ms).engine.isFlying k.id = false) :
    (∃ t ∈ (after e ms).engine.timers, t.journey = k.id ∧ t.node = k.node) ∨
      .report (.timer k.id k.node) ∈ (after e ms).mailbox :=
  (punctual boots fetched ms fresh).kept ordered front k hk paused deadline free

/-- While a journey waits, the app goes to the background, where its timer is dropped, and comes
back. -/
def awayAndBack : List Move :=
  taps ++ .deliver :: looksAgain ++ [.send (.lifecycle .enteredBackground), .deliver,
    .send (.lifecycle .entersForeground), .deliver, .send (.lifecycle .becameActive)]

theorem pausing_keeps_deadline :
    let s := after (inMemory .empty .epoch) awayAndBack
    s.engine.store.active.map (fun j => (j.status, j.resumeAt.isSome)) = [(.paused, true)] ∧
      ∀ j ∈ s.engine.store.active, (∃ t ∈ s.engine.timers, t.journey = j.id ∧ t.node = j.node) ∨
        .report (.timer j.id j.node) ∈ s.mailbox := by
  intro s
  have waits : s.engine.store.active.map (fun j => (j.status, j.resumeAt.isSome)) =
      [(.paused, true)] := by
    decide +kernel
  have free : ∀ j ∈ s.engine.store.active, s.engine.isFlying j.id = false := by decide +kernel
  refine ⟨waits, fun j hj => ?_⟩
  have hw : (j.status, j.resumeAt.isSome) ∈ [(Status.paused, true)] :=
    waits ▸ List.mem_map_of_mem hj
  obtain ⟨paused, deadline⟩ := Prod.ext_iff.mp (List.mem_singleton.mp hw)
  exact deadlines_kept (bootsFrom_inMemory .empty .epoch) rfl awayAndBack
    ⟨by decide +kernel, by decide +kernel⟩ (by decide) (by decide +kernel) hj paused deadline
    (free j hj)

end Session

end Engagement
