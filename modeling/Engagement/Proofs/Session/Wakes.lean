import Engagement.Proofs.Engine.Wakes
import Engagement.Proofs.Session.Entries

/-! # No wake-up is lost

Once a waiting journey is woken, its node is executed by a later step before the engine is idle,
unless the journey arrives elsewhere or ends. A step that is under way when the journey is woken
does not count, whatever it has found out already.
-/

namespace Engagement

open Engine

/-- A campaign of one node, at which a journey waits for up to a minute. -/
def Campaign.pausing : Campaign where
  id := "pausing"
  name := "Pausing"
  version := 1
  trigger := .event "opened" none
  entry := "pause"
  nodes := [⟨"pause", [], .waitUntil [⟨none, some 60, "pause"⟩]⟩]
  goal := none
  exitPolicy := .never
  anchor := .journeyStart
  reentry := .once

namespace Session

def tap : HostEvent := ⟨"tap", "tapped", "ann", [], .epoch⟩

/-- A journey comes to its wait and finds that it has to wait. Before it has parked, its user
taps. -/
def taps : List Move :=
  [.send (.start .pausing "ann" none), .deliver, .work 1, .send (.event tap)]

/-- The journey parks and looks again. -/
def looksAgain : List Move := [.work 1, .deliver, .work 2, .work 2, .deliver]

variable {s : Session} {e : Engine} {snapshot : Snapshot} {id : JourneyId} {j : Journey}
  {a n : Nat}

/-- The move executes the node at which a journey stands, in a step with a number above `n`. -/
def Executes (s : Session) (n : Nat) (j : Journey) : Move → Prop
  | .work task => n < task ∧ ∃ f, s.engine.flights.find? (·.task = task) = some f ∧
    f.phase = .ready ∧ f.StandsAt j
  | _ => False

/-- A journey that is in the mirror is where it was, and its campaign is not merely unknown. -/
structure Lingers (e : Engine) (j : Journey) : Prop where
  stands : ∀ k ∈ e.store.active, k.id = j.id → k.node = j.node ∧ k.enteredAt = j.enteredAt
  resolved : e.Resolved j.id

theorem Lingers.of_node? (sound : e.Sound) (under_way : j ∈ e.store.active) {p : Node → Bool}
    (h : (e.node? j).any p = true) : Lingers e j := by
  refine ⟨fun k hk hid => ?_, resolved_of_node? sound under_way h⟩
  obtain rfl := sound.distinct.eq_of_id hk under_way hid
  exact ⟨rfl, rfl⟩

theorem Lingers.move (lingers : Lingers s.engine j) (up : s.Up) (m : Move)
    (same : (s.move m).engine.arrivals j.id = s.engine.arrivals j.id) :
    Lingers (s.move m).engine j := by
  constructor
  · intro k hk hid
    rcases (up.evolves_move m).arrives_or_stays with hlt | stays
    · exact (Nat.lt_irrefl _ (same ▸ hlt)).elim
    · obtain ⟨i, hi, hiid, hn, ht⟩ := stays k hk hid
      obtain ⟨hn', ht'⟩ := lingers.stands i hi hiid
      exact ⟨hn.trans hn', ht.trans ht'⟩
  · rcases up.move_cases m with drift | ⟨message, rest, -, changes, -, he, -⟩
    · exact lingers.resolved.drift drift
    · rw [he] at same ⊢
      rcases (lingers.resolved.takeIn message).changes changes with resolved | hlt
      · exact resolved
      · rw [arrivals_of_events (takeIn_events _ message), same] at hlt
        exact (Nat.lt_irrefl _ hlt).elim

/-! ## A journey stays roused -/

theorem roused_idles {s' : Session} (roused : s.engine.Roused n id) (d : Drift s.engine s'.engine)
    (idles : s.Idles s') : s'.engine.Roused n id := by
  obtain ⟨f, hf, hid, hr⟩ := roused
  obtain ⟨go, hgo, h⟩ := idles.flights
  refine ⟨go f, hgo ▸ List.mem_map_of_mem hf, ?_⟩
  rw [d.pending]
  rcases h f with he | ⟨gate, shown, hp, he⟩
  · rw [he]
    exact ⟨hid, hr⟩
  · rw [he]
    refine ⟨hid, .inr (hr.resolve_left ?_)⟩
    rintro ⟨-, ready⟩
    rw [hp] at ready
    cases ready

/-- A step that goes on leaves its journey roused, unless it is the awaited one. -/
theorem roused_runFlight {f : Flight} (roused : s.engine.Roused n id) (orderly : s.engine.Orderly)
    (hf : f ∈ s.engine.flights) :
    f.journey.id = id ∧ n < f.task ∧ f.phase = .ready ∨ (s.runFlight f).engine.Roused n id := by
  obtain ⟨g, hg, hid, hr⟩ := roused
  rw [runFlight_engine]
  have next : ∀ p : Phase, (n < g.task ∧ p = .ready ∨ (s.engine.pending.get? id).isSome) →
      inPhase f.task (stage s.engine.host f).2 g = { g with phase := p } →
      Roused { s.engine with
        host := (stage s.engine.host f).1
        flights := s.engine.flights.map (inPhase f.task (stage s.engine.host f).2) } n id :=
    fun p hp he => ⟨_, List.mem_map_of_mem hg, by rw [he]; exact hid, by rw [he]; exact hp⟩
  by_cases ht : g.task = f.task
  · obtain rfl := orderly.eq_of_task hg hf ht
    rcases hr with ⟨hlt, ready⟩ | hp
    · exact .inl ⟨hid, hlt, ready⟩
    · exact .inr (next _ (.inr hp) (if_pos rfl))
  · exact .inr (next _ hr (if_neg ht))

theorem heeded_deliver {message : Message} {rest : List Message} (roused : s.engine.Roused n id)
    (up : s.Up) (tracked : s.Tracked) (resolved : s.engine.Resolved id) (hn : n ≤ s.engine.lastTask)
    (ha : a ≤ s.engine.arrivals id) (hm : s.mailbox = message :: rest) :
    s.deliver.engine.Heeded a n id := by
  have hne : message ≠ .command .boot := fun h => up.once (by simp [hm, h])
  have changes := changes_handle up.sound hne
  have taken : (s.engine.takeIn message).arrivals id = s.engine.arrivals id :=
    arrivals_of_events (takeIn_events _ _)
  rw [deliver_engine hm]
  obtain ⟨f, hf, rfl, hr⟩ := roused
  by_cases hstill : f ∈ (s.engine.takeIn message).flights
  · have heeded : (s.engine.takeIn message).Heeded a n f.journey.id :=
      .inr ⟨f, hstill, rfl, by simpa using hr⟩
    exact heeded.changes (taken ▸ ha) changes
  · obtain ⟨task, node, result, rfl, ht⟩ := landed_of_not_mem hf hstill
    have htask : f.task = task := by simpa [tracked.orderly.flight?_eq hf] using ht
    have hmem : .report (.step f.task f.journey.id node result) ∈ s.mailbox := by
      simp [hm, htask]
    -- The step that lands had begun, so the journey is remembered.
    obtain ⟨reported, -, rfl⟩ := (tracked.mail _ _ _ _ hmem).2 f hf rfl
    have hp : (s.engine.pending.get? f.journey.id).isSome := by
      refine hr.resolve_left ?_
      rintro ⟨-, ready⟩
      rw [reported] at ready
      cases ready
    by_cases waits : result.isSuspend = true
    · exact (roused_onStep up.sound tracked.orderly hf resolved hn hp ht waits).imp_left .inl
    · have hs := onStep_spends up.sound tracked.orderly hf ht (by simpa using waits)
      exact .inl (hs.imp_right (Nat.lt_of_le_of_lt ha))

/-- While a journey lingers, a move executes its node or the journey stays heeded. -/
theorem heeded_move (up : s.Up) (tracked : s.Tracked) (lingers : Lingers s.engine j)
    (hn : n ≤ s.engine.lastTask) (ha : a ≤ s.engine.arrivals j.id)
    (heeded : s.engine.Heeded a n j.id) (m : Move) :
    s.Executes n j m ∨ (s.move m).engine.Heeded a n j.id := by
  rcases heeded with settled | roused
  · have evolves := up.evolves_move m
    refine .inr (.inl ?_)
    rcases settled with gone | hlt
    · exact evolves.arrives_or_stays.symm.imp (fun stays => stays.gone gone)
        (Nat.lt_of_le_of_lt ha)
    · exact .inr (Nat.lt_of_lt_of_le hlt evolves.arrivals_le)
  · by_cases hd : m = .deliver
    · right
      subst hd
      rcases hm : s.mailbox with _ | ⟨message, rest⟩
      · rw [move_deliver_of_empty hm]
        exact .inr roused
      · exact heeded_deliver roused up tracked lingers.resolved hn ha hm
    · rcases s.move_cases m with h | ⟨task, f, rfl, hf, he⟩ | ⟨idles, -⟩
      · exact (hd h).elim
      · have hm : f ∈ s.engine.flights := List.mem_of_find?_eq_some hf
        have htask : f.task = task := by simpa using List.find?_some hf
        rw [he]
        rcases roused_runFlight roused tracked.orderly hm with ⟨hid, hlt, ready⟩ | roused
        · obtain ⟨k, hk, at_k⟩ := tracked.orderly.anchored f hm
          obtain ⟨hnode, hentered⟩ := lingers.stands k hk (at_k.id.symm.trans hid)
          exact .inl ⟨htask ▸ hlt, f, hf, ready, hid, at_k.node.trans hnode,
            at_k.standsAt.place.trans hnode, at_k.standsAt.enteredAt.trans hentered⟩
        · exact .inr (.inr roused)
      · exact .inr (.inr (roused_idles roused (s.move_drift hd) idles))

/-! ## Runs -/

/-- As long as a journey does not arrive anew, some move executes its node, or the journey stays
heeded. -/
theorem executes_or_heeded (boots : e.BootsFrom snapshot) (ms ms' : List Move)
    (fresh : e.FreshIds snapshot (after e (ms ++ ms')).engine.issued)
    (lingers : Lingers (after e ms).engine j) (hn : n ≤ (after e ms).engine.lastTask)
    (heeded : (after e ms).engine.Heeded ((after e ms).engine.arrivals j.id) n j.id)
    (same : (after e (ms ++ ms')).engine.arrivals j.id = (after e ms).engine.arrivals j.id) :
    (∃ prior m later, ms' = prior ++ m :: later ∧ (after e (ms ++ prior)).Executes n j m) ∨
      (after e (ms ++ ms')).engine.Heeded ((after e ms).engine.arrivals j.id) n j.id := by
  induction ms' generalizing ms with
  | nil =>
    rw [List.append_nil]
    exact .inr heeded
  | cons m ms' ih =>
    have hstep := after_snoc e ms m
    have hcons : ms ++ m :: ms' = (ms ++ [m]) ++ ms' := by simp
    have up := boots.up ms
    have whole := boots.evolves_append ms (m :: ms')
    have tracked := tracked boots ms (fresh.mono whole.issued_le)
    rw [hcons] at fresh same ⊢
    have here := arrivals_steady boots ms m ms' same
    rcases heeded_move up tracked lingers hn (Nat.le_refl _) heeded m with executes | heeded
    · exact .inl ⟨[], m, ms', rfl, by simpa using executes⟩
    · rw [← hstep] at heeded
      have evolves := boots.evolves_append ms [m]
      rcases ih (ms ++ [m]) fresh (hstep ▸ lingers.move up m (hstep ▸ here))
        (Nat.le_trans hn evolves.lastTask_le) (here ▸ heeded) (same.trans here.symm) with
        ⟨prior, m', rest, rfl, executes⟩ | heeded
      · exact .inl ⟨m :: prior, m', rest, rfl, by simpa using executes⟩
      · exact .inr (here ▸ heeded)

theorem arrivals_le_later (boots : e.BootsFrom snapshot) (ms : List Move) (m : Move)
    (ms' : List Move) : (after e (ms ++ [m])).engine.arrivals id ≤
      (after e (ms ++ m :: ms')).engine.arrivals id := by
  rw [List.append_cons ms m ms']
  exact (boots.evolves_append (ms ++ [m]) ms').arrivals_le

/-- A journey that is heeded after some move has ended or arrived anew by the time the engine is
idle, or its node has been executed in between by a step with a number above `n`. -/
theorem executed_by_idle (boots : e.BootsFrom snapshot) (ms : List Move) (m : Move)
    (ms' : List Move) (fresh : e.FreshIds snapshot (after e (ms ++ m :: ms')).engine.issued)
    (lingers : Lingers (after e (ms ++ [m])).engine j)
    (hn : n ≤ (after e (ms ++ [m])).engine.lastTask)
    (heeded : (after e (ms ++ [m])).engine.Heeded ((after e (ms ++ [m])).engine.arrivals j.id) n
      j.id)
    (idle : (after e (ms ++ m :: ms')).engine.isIdle = true) :
    (after e (ms ++ m :: ms')).engine.Gone j.id ∨
    (after e (ms ++ [m])).engine.arrivals j.id < (after e (ms ++ m :: ms')).engine.arrivals j.id ∨
    ∃ prior m' later, ms' = prior ++ m' :: later ∧
      (after e (ms ++ m :: prior)).Executes n j m' := by
  rcases Nat.lt_or_eq_of_le (arrivals_le_later boots ms m ms') with hlt | same
  · exact .inr (.inl hlt)
  · have hcons := List.append_cons ms m
    rw [hcons ms'] at fresh idle same ⊢
    rcases executes_or_heeded boots (ms ++ [m]) ms' fresh lingers hn heeded same.symm with
      ⟨prior, m', later, hms, executes⟩ | (gone | hlt) | ⟨f, hf, -⟩
    · exact .inr (.inr ⟨prior, m', later, hms, hcons prior ▸ executes⟩)
    · exact .inl gone
    · exact .inr (.inl hlt)
    · simp [isIdle] at idle
      simp [idle.1] at hf

/-- When an event of a user or a change of segments is handled, each journey of the user that waits
is woken: by the time the engine is idle it has ended or arrived anew, or its node has been executed
for the present entry, in a step set off since. -/
theorem no_wake_lost (boots : e.BootsFrom snapshot) (ms ms' : List Move)
    (fresh : e.FreshIds snapshot (after e (ms ++ .deliver :: ms')).engine.issued)
    {message : Message} (waiting : (after e ms).mailbox.head? = some message)
    (rechecked : (after e ms).engine.rechecked? message = some j.distinctId)
    (under_way : j ∈ (after e ms).engine.store.active)
    (waits : (after e ms).engine.atWait j = true)
    (idle : (after e (ms ++ .deliver :: ms')).engine.isIdle = true) :
    (after e (ms ++ .deliver :: ms')).engine.Gone j.id ∨
    (after e ms).engine.arrivals j.id < (after e (ms ++ .deliver :: ms')).engine.arrivals j.id ∨
    ∃ prior m later, ms' = prior ++ m :: later ∧
      (after e (ms ++ .deliver :: prior)).Executes (after e ms).engine.lastTask j m := by
  have up := boots.up ms
  have hstep := after_snoc e ms .deliver
  have evolves := boots.evolves_append ms [.deliver]
  rcases Nat.lt_or_eq_of_le evolves.arrivals_le with hlt | same
  · exact .inr (.inl (Nat.lt_of_lt_of_le hlt (arrivals_le_later boots ms .deliver ms')))
  · have lingers : Lingers (after e (ms ++ [.deliver])).engine j :=
      hstep ▸ (Lingers.of_node? up.sound under_way waits).move up .deliver (hstep ▸ same.symm)
    have heeded : (after e (ms ++ [.deliver])).engine.Heeded
        ((after e (ms ++ [.deliver])).engine.arrivals j.id) (after e ms).engine.lastTask j.id := by
      rw [← same, after_deliver waiting]
      exact heeded_handle up.sound under_way waits rechecked
    rw [same]
    exact executed_by_idle boots ms .deliver ms' fresh lingers evolves.lastTask_le heeded idle

/-- A journey that has found that it has to wait, but has not parked yet, looks again. -/
theorem looks_again_after_tap :
    let start := inMemory .empty .epoch
    let engine := (after start taps).engine
    engine.store.active.length = 1 ∧ engine.lastTask = 1 ∧ ∀ j ∈ engine.store.active,
      ∃ prior m later, looksAgain = prior ++ m :: later ∧
        (after start (taps ++ .deliver :: prior)).Executes engine.lastTask j m := by
  intro start engine
  let final := (after start (taps ++ .deliver :: looksAgain)).engine
  have tapped : (after start taps).mailbox.head?.map engine.rechecked? = some (some "ann") := by
    decide +kernel
  obtain ⟨message, waiting, rechecked⟩ := Option.map_eq_some_iff.mp tapped
  have woken : ∀ j ∈ engine.store.active, engine.atWait j = true ∧ "ann" = j.distinctId := by
    decide +kernel
  have lingers : ∀ j ∈ engine.store.active,
      (∃ k ∈ final.store.active, k.id = j.id) ∧ final.arrivals j.id ≤ engine.arrivals j.id := by
    decide +kernel
  have fresh : start.FreshIds .empty final.issued := ⟨by decide +kernel, by decide +kernel⟩
  have idle : final.isIdle = true := by decide +kernel
  refine ⟨by decide +kernel, by decide +kernel, fun j hj => ?_⟩
  obtain ⟨waits, user⟩ := woken j hj
  obtain ⟨⟨k, hk, hid⟩, hle⟩ := lingers j hj
  rcases no_wake_lost (bootsFrom_inMemory .empty .epoch) taps looksAgain fresh waiting
    (user ▸ rechecked) hj waits idle with gone | hlt | executes
  · exact (gone k hk hid).elim
  · exact (Nat.not_lt.mpr hle hlt).elim
  · exact executes

end Session

end Engagement
