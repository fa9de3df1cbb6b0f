import Engagement.Proofs.Session.Steps

/-! # Acting once per entry

From one arrival of a journey to the next its node is executed to the outside at most once: once a
step has a result that does not make the journey wait, nothing sets off another before the result
is applied.
-/

namespace Engagement

open Engine

namespace Session

variable {s : Session} {e : Engine} {snapshot : Snapshot} {id : JourneyId} {m : Move}

/-- Steps are in order, and reports of theirs that wait are of steps that have reported. -/
structure Tracked (s : Session) : Prop where
  orderly : s.engine.Orderly
  mail : ∀ task journey node result, .report (.step task journey node result) ∈ s.mailbox →
    task ≤ s.engine.lastTask ∧ ∀ f ∈ s.engine.flights, f.task = task →
      f.phase = .reported ∧ f.journey.id = journey ∧ f.node.id = node

theorem Tracked.idles {s' : Session} (tracked : s.Tracked) (d : Drift s.engine s'.engine)
    (idles : s.Idles s') : s'.Tracked := by
  refine ⟨tracked.orderly.drift d, ?_⟩
  intro task journey node result hm
  obtain ⟨news, hn, quiet⟩ := idles.mailbox
  obtain ⟨go, hf, hgo⟩ := idles.flights
  rw [hn] at hm
  have hm := (List.mem_append.mp hm).resolve_right (quiet task journey node result)
  obtain ⟨hle, h⟩ := tracked.mail task journey node result hm
  refine ⟨d.lastTask ▸ hle, ?_⟩
  intro f' hf' ht
  obtain ⟨f, hm, rfl⟩ := List.mem_map.mp (hf ▸ hf')
  rcases hgo f with he | ⟨gate, shown, hp, he⟩
  · rw [he] at ht ⊢
    exact h f hm ht
  · rw [he] at ht
    have hr := (h f hm ht).1
    rw [hp] at hr
    cases hr

/-- When a step goes on, the others stay in their phase. -/
theorem runFlight_flights {f f' : Flight} (orderly : s.engine.Orderly) (hf : f ∈ s.engine.flights)
    (hf' : f' ∈ (s.runFlight f).engine.flights) :
    ∃ g ∈ s.engine.flights, f'.task = g.task ∧ f'.journey = g.journey ∧ f'.node = g.node ∧
      (f'.phase = g.phase ∨ g = f ∧ f'.phase = (stage s.engine.host f).2) := by
  rw [runFlight_engine] at hf'
  obtain ⟨g, hg, rfl⟩ := List.mem_map.mp hf'
  unfold inPhase
  split
  · rename_i ht
    exact ⟨g, hg, rfl, rfl, rfl, .inr ⟨orderly.eq_of_task hg hf ht, rfl⟩⟩
  · exact ⟨g, hg, rfl, rfl, rfl, .inl rfl⟩

theorem Tracked.runFlight {f : Flight} (tracked : s.Tracked) (hf : f ∈ s.engine.flights) :
    (s.runFlight f).Tracked := by
  have d : Drift s.engine (s.runFlight f).engine := by
    rw [runFlight_engine]
    exact .of_flights (inPhase_plan _ _) _
  have orderly := tracked.orderly
  refine ⟨orderly.drift d, ?_⟩
  intro task journey node result hm
  rw [d.lastTask]
  rw [runFlight_mailbox] at hm
  rcases List.mem_append.mp hm with hm | hm
  · obtain ⟨hle, h⟩ := tracked.mail task journey node result hm
    refine ⟨hle, ?_⟩
    intro f' hf' ht
    obtain ⟨g, hg, htask, hj, hn, hp⟩ := runFlight_flights orderly hf hf'
    obtain ⟨hr, hgj, hgn⟩ := h g hg (htask ▸ ht)
    refine ⟨?_, hj ▸ hgj, hn ▸ hgn⟩
    rcases hp with hp | ⟨rfl, hp⟩
    · rw [hp, hr]
    · rw [hp]
      simp [stage, hr]
  · split at hm
    · rename_i r hp
      obtain ⟨rfl, rfl, rfl, rfl⟩ : task = f.task ∧ journey = f.journey.id ∧ node = f.node.id ∧
          result = r := by simpa using hm
      refine ⟨orderly.numbered f hf, ?_⟩
      intro f' hf' ht
      rw [runFlight_engine] at hf'
      obtain ⟨g, hg, rfl⟩ := List.mem_map.mp hf'
      have htask : g.task = f.task := by
        unfold inPhase at ht
        split at ht <;> exact ht
      obtain rfl := orderly.eq_of_task hg hf htask
      rw [inPhase, if_pos rfl]
      refine ⟨?_, rfl, rfl⟩
      simp [stage, hp]
    · simp at hm

theorem Tracked.deliver {message : Message} {rest : List Message} (tracked : s.Tracked)
    (hm : s.mailbox = message :: rest)
    (changes : FreshChanges (s.engine.takeIn message) (s.engine.handle message)) :
    s.deliver.Tracked := by
  have plain := FreshChanges.changes changes
  refine ⟨deliver_engine hm ▸ (tracked.orderly.takeIn message).changes changes, ?_⟩
  rw [deliver_engine hm, deliver_mailbox hm]
  intro task journey node result hr
  obtain ⟨hle, h⟩ := tracked.mail task journey node result (hm ▸ List.mem_cons_of_mem _ hr)
  have hlast : (s.engine.takeIn message).lastTask = s.engine.lastTask := by simp
  refine ⟨Nat.le_trans hle (hlast ▸ plain.lastTask_le), ?_⟩
  intro f hf ht
  rcases plain.flights_new hf with hf | ⟨hlt, -⟩
  · exact h f ((s.engine.takeIn_flights message).subset hf) ht
  · rw [hlast, ht] at hlt
    omega

theorem tracked (boots : e.BootsFrom snapshot) (ms : List Move)
    (fresh : e.FreshIds snapshot (after e ms).engine.issued) : (after e ms).Tracked := by
  refine boots.moves_induction (I := Tracked) ms fresh ?_ ?_ ?_
  · intro campaigns installed changes
    refine ⟨(boots.orderly_loaded campaigns installed).changes changes, ?_⟩
    intro task journey node result hm
    cases hm
  · intro s m _ h hm
    rcases s.move_cases m with hd | ⟨task, f, -, hf, he⟩ | ⟨idles, -⟩
    · exact (hm hd).elim
    · rw [he]
      exact h.runFlight (List.mem_of_find?_eq_some hf)
    · exact h.idles (s.move_drift hm) idles
  · exact fun s message rest _ h hm changes => h.deliver hm changes

/-! ## Steps that are spent -/

/-- The step has a result that does not make its journey wait, or has reported nothing else. -/
def IsSpent (f : Flight) (mailbox : List Message) : Prop :=
  (∃ result, f.phase = .finished result ∧ result.isSuspend = false) ∨
    f.phase = .reported ∧ ∀ journey node result,
      .report (.step f.task journey node result) ∈ mailbox → result.isSuspend = false

/-- The journey has left the mirror, or its step is spent. -/
def Spent (s : Session) (id : JourneyId) : Prop :=
  s.engine.Gone id ∨ ∃ f ∈ s.engine.flights, f.journey.id = id ∧ IsSpent f s.mailbox

/-- Whether a move executes a node of a journey that acts on the outside. -/
def acts (s : Session) (id : JourneyId) : Move → Bool
  | .work task => (s.engine.flights.find? (·.task = task)).any fun f =>
    f.journey.id = id && f.phase.isReady && f.node.action.acts
  | _ => false

theorem acts_work {task : Nat} {f : Flight}
    (h : s.engine.flights.find? (·.task = task) = some f) : s.acts id (.work task) =
      (f.journey.id = id && f.phase.isReady && f.node.action.acts) := by
  simp [acts, h]

theorem acts_eq_false
    (h : ∀ task, m = .work task → s.engine.flights.find? (·.task = task) = none) :
    s.acts id m = false := by
  cases m with
  | work task => simp [acts, h task rfl]
  | _ => rfl

/-- How many of some moves execute a node of a journey that acts on the outside. -/
def actions (id : JourneyId) : Session → List Move → Nat
  | _, [] => 0
  | s, m :: ms => (s.acts id m).toNat + (s.move m).actions id ms

theorem IsSpent.idles {s' : Session} {f : Flight} (spent : IsSpent f s.mailbox)
    (idles : s.Idles s') : IsSpent f s'.mailbox := by
  obtain ⟨news, hn, quiet⟩ := idles.mailbox
  rw [hn]
  apply spent.imp_right
  rintro ⟨hp, h⟩
  refine ⟨hp, ?_⟩
  intro journey node result hm
  exact h journey node result ((List.mem_append.mp hm).resolve_right (quiet _ _ _ _))

theorem Spent.idles {s' : Session} (spent : s.Spent id) (d : Drift s.engine s'.engine)
    (idles : s.Idles s') : s'.Spent id := by
  rcases spent with gone | ⟨f, hf, hid, spent⟩
  · exact .inl fun j hj => gone j (d.active ▸ hj)
  · obtain ⟨go, hgo, h⟩ := idles.flights
    have hfix : go f = f := by
      rcases h f with he | ⟨gate, shown, hp, -⟩
      · exact he
      · rcases spent with ⟨result, hr, -⟩ | ⟨hr, -⟩ <;> rw [hp] at hr <;> cases hr
    exact .inr ⟨f, hgo ▸ hfix ▸ List.mem_map_of_mem hf, hid, spent.idles idles⟩

/-- A step that is spent does nothing more than to report. -/
theorem stage_spent {f : Flight} {mailbox : List Message} (host : Host)
    (spent : IsSpent f mailbox) : stage host f = (host, .reported) := by
  rcases spent with ⟨result, hp, -⟩ | ⟨hp, -⟩ <;> simp [stage, hp]

theorem Spent.runFlight {f : Flight} (spent : s.Spent id) (tracked : s.Tracked)
    (hf : f ∈ s.engine.flights) : (s.runFlight f).Spent id := by
  rcases spent with gone | ⟨g, hg, hid, spent⟩
  · exact .inl (by rw [runFlight_engine]; exact gone)
  · refine .inr ⟨inPhase f.task (stage s.engine.host f).2 g, ?_, ?_, ?_⟩
    · rw [runFlight_engine]
      exact List.mem_map_of_mem hg
    · rw [← hid]
      unfold inPhase
      split <;> rfl
    · rw [runFlight_mailbox]
      by_cases ht : g.task = f.task
      · obtain rfl := tracked.orderly.eq_of_task hg hf ht
        rw [inPhase, if_pos rfl, stage_spent _ spent]
        refine .inr ⟨rfl, ?_⟩
        intro journey node result hm
        have old : .report (.step g.task journey node result) ∈ s.mailbox →
            result.isSuspend = false := by
          intro hm
          have hr := ((tracked.mail _ _ _ _ hm).2 g hg rfl).1
          rcases spent with ⟨r, hp, -⟩ | ⟨-, h⟩
          · rw [hp] at hr
            cases hr
          · exact h journey node result hm
        rcases spent with ⟨r, hp, hr⟩ | ⟨hp, -⟩
        · rw [hp] at hm
          rcases List.mem_append.mp hm with hm | hm
          · exact old hm
          · obtain ⟨-, -, rfl⟩ : journey = g.journey.id ∧ node = g.node.id ∧ result = r := by
              simpa using hm
            exact hr
        · rw [hp] at hm
          exact old (by simpa using hm)
      · rw [inPhase, if_neg ht]
        apply spent.imp_right
        rintro ⟨hp, h⟩
        refine ⟨hp, ?_⟩
        intro journey node result hm
        rcases List.mem_append.mp hm with hm | hm
        · exact h journey node result hm
        · split at hm
          · exact (ht (by simp at hm; exact hm.1)).elim
          · simp at hm

theorem IsSpent.sublist {f : Flight} {mailbox rest : List Message} (spent : IsSpent f mailbox)
    (h : rest.Sublist mailbox) : IsSpent f rest :=
  spent.imp_right fun ⟨hp, hm⟩ => ⟨hp, fun journey node result hr =>
    hm journey node result (h.subset hr)⟩

/-- Handling a message leaves a journey's step spent, unless the journey arrives anew. -/
theorem Spent.deliver {message : Message} {rest : List Message} (spent : s.Spent id) (up : s.Up)
    (tracked : s.Tracked) (hm : s.mailbox = message :: rest) : s.deliver.Spent id ∨
      s.engine.arrivals id < s.deliver.engine.arrivals id := by
  have hne : message ≠ .command .boot := fun h => up.once (by simp [hm, h])
  have changes := changes_handle up.sound hne
  have taken : (s.engine.takeIn message).arrivals id = s.engine.arrivals id :=
    arrivals_of_events (takeIn_events _ _)
  unfold Spent
  rw [deliver_engine hm, deliver_mailbox hm]
  rcases spent with gone | ⟨f, hf, rfl, spent⟩
  · have gone : (s.engine.takeIn message).Gone id := by simpa [Gone] using gone
    exact taken ▸ (changes.gone gone).imp_left .inl
  · by_cases hstill : f ∈ (s.engine.takeIn message).flights
    · rcases changes.flight_stays hstill with hf' | gone | hlt
      · have hs : rest.Sublist s.mailbox := hm ▸ List.sublist_cons_self _ _
        exact .inl (.inr ⟨f, hf', rfl, spent.sublist hs⟩)
      · exact .inl (.inl gone)
      · exact .inr (taken ▸ hlt)
    · obtain ⟨task, node, result, rfl, ht⟩ := landed_of_not_mem hf hstill
      have htask : f.task = task := by
        simpa [tracked.orderly.flight?_eq hf] using ht
      have hmem : .report (.step f.task f.journey.id node result) ∈ s.mailbox := by
        simp [hm, htask]
      obtain ⟨hp, -, rfl⟩ := (tracked.mail _ _ _ _ hmem).2 f hf rfl
      have goes_on : result.isSuspend = false := by
        rcases spent with ⟨r, hr, -⟩ | ⟨-, h⟩
        · rw [hp] at hr
          cases hr
        · exact h _ _ _ hmem
      exact (onStep_spends up.sound tracked.orderly hf ht goes_on).imp_left .inl

/-! ## Moves -/

theorem handle_outcomes (up : s.Up) {message : Message} {rest : List Message}
    (hm : s.mailbox = message :: rest) :
    s.deliver.engine.host.outcomes id = s.engine.host.outcomes id := by
  have hne : message ≠ .command .boot := fun h => up.once (by simp [hm, h])
  have he := (changes_handle up.sound hne).effects_eq
  rw [takeIn_host] at he
  rw [deliver_engine hm]
  exact Host.outcomes_of_effects he

theorem deliver_outcomes (up : s.Up) :
    s.deliver.engine.host.outcomes id = s.engine.host.outcomes id := by
  rcases hm : s.mailbox with _ | ⟨message, rest⟩
  · simp [deliver, hm]
  · exact handle_outcomes up hm

theorem runFlight_outcomes (f : Flight) : (s.runFlight f).engine.host.outcomes id =
    (stage s.engine.host f).1.outcomes id := by rw [runFlight_engine]

variable (id) in
/-- A move that acts for a journey or obtains an outcome for it leaves its step spent. -/
theorem move_spends (up : s.Up) (m : Move) :
    (s.acts id m = false ∧
      (s.move m).engine.host.outcomes id = s.engine.host.outcomes id) ∨
    ((s.move m).engine.host.outcomes id ≤ s.engine.host.outcomes id + 1 ∧
      (s.move m).Spent id) := by
  rcases s.move_cases m with rfl | ⟨task, f, rfl, hf, he⟩ | ⟨idles, hnone⟩
  · exact .inl ⟨rfl, deliver_outcomes up⟩
  · have hm : f ∈ s.engine.flights := List.mem_of_find?_eq_some hf
    -- The step as it is after the move, spent once it has such a result.
    have spends : f.journey.id = id → (∃ result, (stage s.engine.host f).2 = .finished result ∧
        result.isSuspend = false) → (s.runFlight f).Spent id := by
      rintro hid ⟨result, hr, hs⟩
      refine .inr ⟨inPhase f.task (stage s.engine.host f).2 f, ?_, ?_, .inl ⟨result, ?_, hs⟩⟩
      · rw [runFlight_engine]
        exact List.mem_map_of_mem hm
      · rw [inPhase, if_pos rfl]
        exact hid
      · rw [inPhase, if_pos rfl, hr]
    rw [he, runFlight_outcomes]
    by_cases hacts : s.acts id (.work task) = true
    · rw [acts_work hf, Bool.and_eq_true, Bool.and_eq_true, decide_eq_true_iff] at hacts
      obtain ⟨⟨hid, ready⟩, acts⟩ := hacts
      obtain ⟨ho, hr⟩ := stage_acts s.engine.host f id (Phase.isReady_iff.mp ready) acts
      exact .inr ⟨by omega, spends hid hr⟩
    · rcases stage_outcomes s.engine.host f id with ho | ⟨hid, ho, hr⟩
      · exact .inl ⟨by simpa using hacts, ho⟩
      · exact .inr ⟨by omega, spends hid hr⟩
  · exact .inl ⟨acts_eq_false hnone, Host.outcomes_of_effects idles.effects⟩

/-- While a journey's step is spent nothing acts for the journey. -/
theorem Spent.no_act (spent : s.Spent id) (up : s.Up) (tracked : s.Tracked) (m : Move) :
    s.acts id m = false ∧ (s.move m).engine.host.outcomes id = s.engine.host.outcomes id := by
  rcases s.move_cases m with rfl | ⟨task, f, rfl, hf, he⟩ | ⟨idles, hnone⟩
  · exact ⟨rfl, deliver_outcomes up⟩
  · have hm : f ∈ s.engine.flights := List.mem_of_find?_eq_some hf
    rw [he, runFlight_outcomes, acts_work hf]
    by_cases hid : f.journey.id = id
    · have fspent : IsSpent f s.mailbox := by
        rcases spent with gone | ⟨g, hg, hgid, spent⟩
        · obtain ⟨j, hj, at_j⟩ := tracked.orderly.anchored f hm
          exact (gone j hj (at_j.id.symm.trans hid)).elim
        · exact tracked.orderly.eq_of_journey hg hm (hgid.trans hid.symm) ▸ spent
      rw [stage_spent _ fspent]
      refine ⟨?_, rfl⟩
      rcases fspent with ⟨result, hp, -⟩ | ⟨hp, -⟩ <;> simp [hp, Phase.isReady]
    · refine ⟨by simp [hid], ?_⟩
      rcases stage_outcomes s.engine.host f id with ho | ⟨h, -⟩
      · exact ho
      · exact (hid h).elim
  · exact ⟨acts_eq_false hnone, Host.outcomes_of_effects idles.effects⟩

theorem Spent.move (spent : s.Spent id) (up : s.Up) (tracked : s.Tracked) (m : Move)
    (same : (s.move m).engine.arrivals id = s.engine.arrivals id) : (s.move m).Spent id := by
  by_cases hd : m = .deliver
  · subst hd
    rcases hm : s.mailbox with _ | ⟨message, rest⟩
    · simpa [Session.move, Session.deliver, hm] using spent
    · rcases spent.deliver up tracked hm with h | hlt
      · exact h
      · exact (Nat.lt_irrefl _ (same ▸ hlt)).elim
  · rcases s.move_cases m with h | ⟨task, f, -, hf, he⟩ | ⟨idles, -⟩
    · exact (hd h).elim
    · exact he ▸ spent.runFlight tracked (List.mem_of_find?_eq_some hf)
    · exact spent.idles (s.move_drift hd) idles

/-- If a journey does not arrive during some moves, it does not in the first of them. -/
theorem arrivals_steady (boots : e.BootsFrom snapshot) (ms : List Move) (m : Move)
    (ms' : List Move) (same : (after e ((ms ++ [m]) ++ ms')).engine.arrivals id =
      (after e ms).engine.arrivals id) :
    (after e (ms ++ [m])).engine.arrivals id = (after e ms).engine.arrivals id := by
  apply Nat.le_antisymm
  · rw [← same]
    exact (boots.evolves_append (ms ++ [m]) ms').arrivals_le
  · exact (boots.evolves_append ms [m]).arrivals_le

/-- Until a journey arrives anew nothing acts for it once its step is spent, and at most one move
does before. -/
theorem actions_le (boots : e.BootsFrom snapshot) (id : JourneyId) (ms ms' : List Move)
    (fresh : e.FreshIds snapshot (after e (ms ++ ms')).engine.issued)
    (same : (after e (ms ++ ms')).engine.arrivals id = (after e ms).engine.arrivals id) :
    ((after e ms).Spent id → (after e ms).actions id ms' = 0 ∧
      (after e (ms ++ ms')).engine.host.outcomes id = (after e ms).engine.host.outcomes id) ∧
    (after e ms).actions id ms' ≤ 1 ∧
      (after e (ms ++ ms')).engine.host.outcomes id ≤
        (after e ms).engine.host.outcomes id + 1 := by
  induction ms' generalizing ms with
  | nil => simp [actions]
  | cons m ms' ih =>
    have hstep := after_snoc e ms m
    have hcons : ms ++ m :: ms' = (ms ++ [m]) ++ ms' := by simp
    rw [hcons] at fresh same ⊢
    have up := boots.up ms
    have whole := boots.evolves_append ms (m :: ms')
    rw [hcons] at whole
    have tracked := tracked boots ms (fresh.mono whole.issued_le)
    have here := arrivals_steady boots ms m ms' same
    obtain ⟨hspent, hactions, houtcomes⟩ := ih (ms ++ [m]) fresh (same.trans here.symm)
    rw [hstep] at here hspent hactions houtcomes
    unfold actions
    constructor
    · intro spent
      obtain ⟨hacts, hout⟩ := spent.no_act up tracked m
      obtain ⟨ha, ho⟩ := hspent (spent.move up tracked m here)
      exact ⟨by rw [hacts, ha]; rfl, ho.trans hout⟩
    · rcases move_spends id up m with ⟨hacts, hout⟩ | ⟨hout, spent⟩
      · rw [hacts]
        exact ⟨by simpa using hactions, by omega⟩
      · obtain ⟨ha, ho⟩ := hspent spent
        have hle := Bool.toNat_le ((after e ms).acts id m)
        exact ⟨by omega, by omega⟩

/-- From one arrival of a journey to the next it stands at one node, at most one move executes this
node to the outside, and at most one presentation for the journey ends with an outcome. -/
theorem acts_once_per_entry (boots : e.BootsFrom snapshot) (id : JourneyId) (ms ms' : List Move)
    (fresh : e.FreshIds snapshot (after e (ms ++ ms')).engine.issued)
    (same : (after e (ms ++ ms')).engine.arrivals id = (after e ms).engine.arrivals id) :
    (after e ms).engine.Stays (after e (ms ++ ms')).engine id ∧
      (after e ms).actions id ms' ≤ 1 ∧
      (after e (ms ++ ms')).engine.host.outcomes id ≤
        (after e ms).engine.host.outcomes id + 1 := by
  have stays : (after e ms).engine.Stays (after e (ms ++ ms')).engine id := by
    rcases (boots.evolves_append ms ms').arrives_or_stays with hlt | stays
    · exact (Nat.lt_irrefl _ (same ▸ hlt)).elim
    · exact stays
  exact ⟨stays, (actions_le boots id ms ms' fresh same).2⟩

/-- The host is called once for a journey that has arrived once. -/
theorem acts_once_after_start :
    (after (.inMemory .empty .epoch) (greets .once)).actions ⟨0⟩ [.work 1] = 1 ∧
      (after (.inMemory .empty .epoch) (greets .once)).actions ⟨0⟩ [.work 1, .work 1] ≤ 1 :=
  ⟨by decide +kernel,
    (acts_once_per_entry (bootsFrom_inMemory .empty .epoch) ⟨0⟩ (greets .once) [.work 1, .work 1]
      ⟨by decide +kernel, by decide +kernel⟩ (by decide +kernel)).2.1⟩

end Session

end Engagement
