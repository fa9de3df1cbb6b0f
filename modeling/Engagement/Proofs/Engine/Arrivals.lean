import Engagement.Proofs.Engine.Flights

/-! # Arrivals

A journey arrives at a node when it starts and when it moves on; both are reported. Without an
arrival a step that is under way stays so, unless its journey ends, and a result that does not make
the journey wait is applied once.
-/

namespace Engagement

namespace Engine

variable {e e' e'' : Engine} {j : Journey} {id : JourneyId} {f : Flight}

/-- How often a journey has arrived at a node. -/
def arrivals (e : Engine) (id : JourneyId) : Nat :=
  e.events.countP fun event => event.kind.isArrival && event.journey = some id

/-- The journey is not in the mirror. -/
def Gone (e : Engine) (id : JourneyId) : Prop := ∀ j ∈ e.store.active, j.id ≠ id

theorem arrivals_report (e : Engine) (kind : Analytics.Kind) (j : Journey) (node : String)
    (detail : Option String) : (e.report kind j node detail).arrivals id =
      e.arrivals id + if kind.isArrival ∧ j.id = id then 1 else 0 := by
  unfold arrivals report note Analytics.Event.ofJourney
  by_cases hk : kind.isArrival = true <;> by_cases hid : j.id = id <;>
    simp [List.countP_append, hk, hid]

theorem arrivals_finish_le (e : Engine) (alive : j.isTerminal = false) (reason : ExitReason) :
    e.arrivals id ≤ (e.finish j reason).arrivals id := by
  rw [finish_eq e alive]
  unfold arrivals
  rw [List.countP_append]
  exact Nat.le_add_right _ _

theorem Aside.arrivals_eq (h : Aside e e') : e'.arrivals id = e.arrivals id := by
  obtain ⟨news, hn, quiet⟩ := h.events_eq
  unfold arrivals
  rw [hn, List.countP_append]
  have h0 : news.countP (fun event => event.kind.isArrival && event.journey = some id) = 0 := by
    rw [List.countP_eq_zero]
    intro event hm
    simp [quiet event hm]
  rw [h0, Nat.add_zero]

theorem Change.arrivals_le (h : Change e e') : e.arrivals id ≤ e'.arrivals id := by
  cases h with
  | quiet h =>
    cases h with
    | aside h => exact Nat.le_of_eq h.arrivals_eq.symm
    | advance =>
      rw [arrivals_report]
      exact Nat.le_add_right _ _
    | @finish _ _ store _ _ alive => exact arrivals_finish_le { e with store := store } alive _
    | _ => exact Nat.le_refl _
  | @start j h =>
    cases h with
    | @enter _ _ _ _ store =>
      obtain ⟨tasks, last, h, -⟩ := checkGoal_eq
        { e with issued := e.issued + 1, store := store } j
      rw [h, arrivals_report]
      exact Nat.le_add_right _ _
    | @fail _ _ _ _ store _ known admitted new =>
      have alive : j.isTerminal = false := new ▸ rfl
      exact arrivals_finish_le { e with issued := e.issued + 1, store := store } alive _

theorem Changes.arrivals_le (h : Changes e e') : e.arrivals id ≤ e'.arrivals id := by
  induction h with
  | refl => exact Nat.le_refl _
  | tail _ h ih => exact Nat.le_trans ih h.arrivals_le

theorem arrivals_of_events (h : e'.events = e.events) : e'.arrivals id = e.arrivals id := by
  unfold arrivals
  rw [h]

theorem Happens.arrivals_le (h : Happens e e') : e.arrivals id ≤ e'.arrivals id := by
  cases h with
  | takeIn m => exact Nat.le_of_eq (arrivals_of_events (takeIn_events _ m)).symm
  | change _ h => exact h.arrivals_le
  | drift d => exact Nat.le_of_eq (arrivals_of_events d.events).symm

theorem Evolves.arrivals_le (h : Evolves e e') : e.arrivals id ≤ e'.arrivals id := by
  induction h with
  | refl => exact Nat.le_refl _
  | tail _ h ih => exact Nat.le_trans ih h.arrivals_le

/-! ## Where journeys stand -/

/-- A journey of `e'` was in the mirror of `e`, at the node at which it stands now. -/
def Stays (e e' : Engine) (id : JourneyId) : Prop :=
  ∀ k ∈ e'.store.active, k.id = id →
    ∃ j ∈ e.store.active, j.id = id ∧ k.node = j.node ∧ k.enteredAt = j.enteredAt

theorem Stays.of_subset (h : ∀ k ∈ e'.store.active, k ∈ e.store.active) : e.Stays e' id :=
  fun k hk hid => ⟨k, h k hk, hid, rfl, rfl⟩

theorem Stays.trans (h : e.Stays e' id) (h' : e'.Stays e'' id) : e.Stays e'' id := by
  intro k hk hid
  obtain ⟨j, hj, hjid, hn, ht⟩ := h' k hk hid
  obtain ⟨i, hi, hiid, hn', ht'⟩ := h j hj hjid
  exact ⟨i, hi, hiid, hn.trans hn', ht.trans ht'⟩

theorem Stays.gone (stays : e.Stays e' id) (gone : e.Gone id) : e'.Gone id := by
  intro k hk hid
  obtain ⟨j, hj, hjid, -⟩ := stays k hk hid
  exact gone j hj hjid

/-- A journey that is put where it arrives leaves the others where they stand. -/
theorem arrives_or_stays_of_upsert {k : Journey}
    (active : e'.store.active = upsert k e.store.active)
    (arrives : k.id = id → e.arrivals id < e'.arrivals id) :
    e.arrivals id < e'.arrivals id ∨ e.Stays e' id := by
  by_cases hid : k.id = id
  · exact .inl (arrives hid)
  · right
    intro i hi hi'
    rcases mem_of_mem_upsert (active ▸ hi) with rfl | hi
    · exact (hid hi').elim
    · exact ⟨i, hi, hi', rfl, rfl⟩

/-- Only by arriving anew does a journey come to stand elsewhere. -/
theorem Change.arrives_or_stays (h : Change e e') :
    e.arrivals id < e'.arrivals id ∨ e.Stays e' id := by
  cases h with
  | quiet h =>
    cases h with
    | aside h => exact .inr (.of_subset fun k hk => h.store_eq ▸ hk)
    | launch => exact .inr (.of_subset fun _ hk => hk)
    | advance under_way alive free arrival on_way saved =>
      apply arrives_or_stays_of_upsert (Store.puts_of_save saved).active
      intro hid
      rw [arrivals_report, if_pos ⟨arrival, hid⟩]
      exact Nat.lt_succ_self _
    | @amend j k store under_way alive amends saved =>
      right
      intro i hi hid
      rcases mem_of_mem_upsert ((Store.puts_of_save saved).active ▸ hi) with rfl | hi
      · refine ⟨j, under_way, amends.continues.id ▸ hid, ?_⟩
        cases amends <;> exact ⟨rfl, rfl⟩
      · exact ⟨i, hi, hid, rfl, rfl⟩
    | @finish j k store reason under_way alive continues store_eq =>
      have hc := completes_finish (e := { e with store := store }) alive reason store_eq
      exact .inr (.of_subset fun i hi => (mem_without.mp (hc.active ▸ hi)).1)
  | @start j h =>
    cases h with
    | @enter _ _ _ _ store known admitted new saved =>
      obtain ⟨tasks, last, h, -⟩ := checkGoal_eq
        { e with issued := e.issued + 1, store := store } j
      rw [h]
      apply arrives_or_stays_of_upsert (Store.puts_of_save saved).active
      intro hid
      rw [arrivals_report, if_pos ⟨rfl, hid⟩]
      exact Nat.lt_succ_self _
    | fail known admitted new refused =>
      have alive : j.isTerminal = false := new ▸ rfl
      refine .inr (.of_subset ?_)
      intro i hi
      rw [giveUp, (completes_finish alive _ (.inr ⟨_, refused⟩)).active] at hi
      exact (mem_without.mp hi).1

theorem Happens.arrives_or_stays (h : Happens e e') :
    e.arrivals id < e'.arrivals id ∨ e.Stays e' id := by
  cases h with
  | takeIn m => exact .inr (.of_subset fun k hk => by simpa using hk)
  | change _ h => exact h.arrives_or_stays
  | drift d => exact .inr (.of_subset fun k hk => d.active ▸ hk)

theorem Evolves.arrives_or_stays (h : Evolves e e') :
    e.arrivals id < e'.arrivals id ∨ e.Stays e' id := by
  induction h with
  | refl => exact .inr (.of_subset fun _ hk => hk)
  | tail hs h ih =>
    rcases ih with hlt | stays
    · exact .inl (Nat.lt_of_lt_of_le hlt h.arrivals_le)
    · refine h.arrives_or_stays.imp (fun hlt => ?_) stays.trans
      exact Nat.lt_of_le_of_lt (Evolves.arrivals_le hs) hlt

/-- A journey that is not in the mirror only comes in by arriving. -/
theorem Change.gone (h : Change e e') (gone : e.Gone id) :
    e'.Gone id ∨ e.arrivals id < e'.arrivals id :=
  h.arrives_or_stays.symm.imp_left fun stays => stays.gone gone

theorem Changes.gone (h : Changes e e') (gone : e.Gone id) :
    e'.Gone id ∨ e.arrivals id < e'.arrivals id := by
  induction h with
  | refl => exact .inl gone
  | tail hs h ih =>
    rcases ih with ih | ih
    · exact (h.gone ih).imp_right (Nat.lt_of_le_of_lt (Changes.arrivals_le hs))
    · exact .inr (Nat.lt_of_lt_of_le ih h.arrivals_le)

/-- Once a journey has left the mirror or arrived anew, one or the other stays so. -/
theorem Changes.settles {n : Nat} (h : Changes e e') (hn : n ≤ e.arrivals id)
    (hs : e.Gone id ∨ n < e.arrivals id) : e'.Gone id ∨ n < e'.arrivals id := by
  rcases hs with gone | hlt
  · exact (h.gone gone).imp_right (Nat.lt_of_le_of_lt hn)
  · exact .inr (Nat.lt_of_lt_of_le hlt h.arrivals_le)

/-! ## Steps under way -/

/-- A journey leaves the mirror with its step and with what is remembered of it. -/
structure Leaves (e : Engine) (id : JourneyId) (e' : Engine) : Prop where
  gone : e'.Gone id
  flights : e'.flights = e.flights.filter (·.journey.id ≠ id)
  pending : e'.pending = e.pending.erase id

theorem leaves_finish {store : Store} (alive : j.isTerminal = false)
    (store_eq : store = e.store ∨ ∃ fault, e.store.save j = (store, .error fault))
    (reason : ExitReason) :
    e.Leaves j.id ({ e with store := store }.finish j reason) := by
  have hc := completes_finish (e := { e with store := store }) alive reason store_eq
  refine ⟨?_, by rw [finish_eq _ alive], by rw [finish_eq _ alive]⟩
  unfold Gone
  rw [hc.active]
  exact fun k hk => (mem_without.mp hk).2

/-- A change makes one journey leave, or keeps all steps and what is remembered of their
journeys. -/
theorem Change.leaves_or_keeps (h : Change e e') : (∃ id, e.Leaves id e') ∨
    (e.flights <+: e'.flights ∧ ∀ id, e.isFlying id = true → (e.pending.get? id).isSome →
      (e'.pending.get? id).isSome) := by
  cases h with
  | quiet h =>
    cases h with
    | aside h =>
      refine .inr ⟨h.flights_eq ▸ List.prefix_refl _, ?_⟩
      intro id flying hp
      exact h.pending_stays flying hp
    | launch => exact .inr ⟨List.prefix_append _ _, fun _ _ hp => hp⟩
    | finish under_way alive continues store_eq => exact .inl ⟨_, leaves_finish alive store_eq _⟩
    | _ => exact .inr ⟨List.prefix_refl _, fun _ _ hp => hp⟩
  | @start j h =>
    cases h with
    | @enter _ _ _ _ store =>
      obtain ⟨tasks, last, h, -⟩ := checkGoal_eq
        { e with issued := e.issued + 1, store := store } j
      rw [h]
      exact .inr ⟨List.prefix_refl _, fun _ _ hp => hp⟩
    | @fail _ _ _ _ store _ known admitted new refused =>
      have alive : j.isTerminal = false := new ▸ rfl
      obtain ⟨gone, flights, pending⟩ := leaves_finish (e := { e with issued := e.issued + 1 })
        alive (.inr ⟨_, refused⟩) (.errored _)
      exact .inl ⟨j.id, gone, flights, pending⟩

/-- A step under way stays so until its journey ends. -/
theorem Change.flight_stays (h : Change e e') (hf : f ∈ e.flights) :
    f ∈ e'.flights ∨ e'.Gone f.journey.id := by
  rcases h.leaves_or_keeps with ⟨id, leaves⟩ | ⟨flights, -⟩
  · by_cases hid : f.journey.id = id
    · exact .inr (hid ▸ leaves.gone)
    · left
      rw [leaves.flights]
      exact List.mem_filter.mpr ⟨hf, by simpa using hid⟩
  · exact .inl (flights.subset hf)

theorem Changes.flight_stays (h : Changes e e') (hf : f ∈ e.flights) :
    f ∈ e'.flights ∨ e'.Gone f.journey.id ∨ e.arrivals f.journey.id < e'.arrivals f.journey.id := by
  induction h with
  | refl => exact .inl hf
  | tail hs h ih =>
    rcases ih with ih | ih | ih
    · exact (h.flight_stays ih).imp_right .inl
    · exact .inr ((h.gone ih).imp_right (Nat.lt_of_le_of_lt (Changes.arrivals_le hs)))
    · exact .inr (.inr (Nat.lt_of_lt_of_le ih h.arrivals_le))

/-- Steps that were not under way before have later numbers and have not begun. -/
theorem Changes.flights_new (h : Changes e e') (hf : f ∈ e'.flights) :
    f ∈ e.flights ∨ e.lastTask < f.task ∧ f.phase = .ready := by
  have numbered : e.lastTask ≤ e'.lastTask ∧
      ∀ g ∈ e'.flights, g ∈ e.flights ∨ e.lastTask < g.task ∧ g.phase = .ready := by
    clear hf
    induction h with
    | refl => exact ⟨Nat.le_refl _, fun g hg => .inl hg⟩
    | tail _ h ih =>
      refine ⟨Nat.le_trans ih.1 h.lastTask_le, ?_⟩
      intro g hg
      rcases h.flights_cases with ⟨hs, -⟩ | ⟨j, node, -, -, -, rfl⟩
      · exact ih.2 g (hs.subset hg)
      · rcases List.mem_append.mp hg with hg | hg
        · exact ih.2 g hg
        · obtain rfl := List.mem_singleton.mp hg
          exact .inr ⟨Nat.lt_succ_of_le ih.1, rfl⟩
  exact numbered.2 f hf

theorem Changes.lastTask_le (h : Changes e e') : e.lastTask ≤ e'.lastTask := by
  induction h with
  | refl => exact Nat.le_refl _
  | tail _ h ih => exact Nat.le_trans ih h.lastTask_le

theorem Happens.lastTask_le (h : Happens e e') : e.lastTask ≤ e'.lastTask := by
  cases h with
  | takeIn m => simp
  | change _ h => exact h.lastTask_le
  | drift d => exact Nat.le_of_eq d.lastTask.symm

theorem Evolves.lastTask_le (h : Evolves e e') : e.lastTask ≤ e'.lastTask := by
  induction h with
  | refl => exact Nat.le_refl _
  | tail _ h ih => exact Nat.le_trans ih h.lastTask_le

/-! ## Results -/

theorem gone_finish (e : Engine) (alive : j.isTerminal = false) (reason : ExitReason) :
    (e.finish j reason).Gone j.id :=
  (leaves_finish alive (.inl rfl) reason).gone

theorem advance_spends (alive : j.isTerminal = false) (next : String) {kind : Analytics.Kind}
    (arrival : kind.isArrival = true) : (e.advance j next kind).Gone j.id ∨
      e.arrivals j.id < (e.advance j next kind).arrivals j.id := by
  unfold advance
  dsimp only
  split
  · exact .inl (gone_finish _ alive _)
  · rw [Journey.advanceTo_of_alive alive]
    dsimp only
    unfold saving
    split
    · rename_i store hs
      refine .inr (Nat.lt_of_lt_of_le ?_ (quiets_drive _ _ _).changes.arrivals_le)
      rw [arrivals_report, if_pos ⟨arrival, rfl⟩]
      exact Nat.lt_succ_self _
    · exact .inl (gone_finish _ rfl _)

/-- A result that does not make the journey wait ends it or makes it arrive. -/
theorem apply_spends (alive : j.isTerminal = false) {result : StepResult}
    (goes_on : result.isSuspend = false) :
    (e.apply j result).Gone j.id ∨ e.arrivals j.id < (e.apply j result).arrivals j.id := by
  match result with
  | .proceed next => exact advance_spends alive next rfl
  | .skip (some next) => exact advance_spends alive next rfl
  | .skip none => exact .inl (gone_finish _ alive _)
  | .complete reason => exact .inl (gone_finish _ alive _)
  | .suspend deadline => simp [StepResult.isSuspend] at goes_on

/-- Only the report of a step itself lands it. -/
theorem landed_of_not_mem {m : Message} (hf : f ∈ e.flights) (hn : f ∉ (e.takeIn m).flights) :
    ∃ task node result, m = .report (.step task f.journey.id node result) ∧
      (e.flight? f.journey.id).any (·.task = task) = true := by
  unfold takeIn at hn
  split at hn
  · split at hn <;> exact (hn hf).elim
  · exact (hn hf).elim
  · rename_i task id node result
    split at hn
    · rename_i taken
      have hid : f.journey.id = id := by simpa [hf] using hn
      exact ⟨task, node, result, by rw [hid], by rw [hid]; exact taken⟩
    · exact (hn hf).elim
  · exact (hn hf).elim

/-- The report of a step under way is applied to its journey, which stands where the step does. -/
theorem onStep_of_flight (sound : e.Sound) (orderly : e.Orderly) (hf : f ∈ e.flights) {task : Nat}
    (taken : (e.flight? f.journey.id).any (·.task = task) = true) (result : StepResult) :
    ∃ j ∈ e.store.active, f.IsOf j ∧
      let applied := { e with flights := e.flights.filter (·.journey.id ≠ j.id) }.apply j result
      e.onStep task f.journey.id f.node.id result =
        if !result.isSuspend && e.atContent j && applied.canPresent then
          applied.retryPresentations (some j.id)
        else applied := by
  obtain ⟨j, hj, at_j⟩ := orderly.anchored f hf
  refine ⟨j, hj, at_j, ?_⟩
  rw [onStep_of_taken taken, at_j.id, sound.get?_eq hj]
  dsimp only
  rw [if_neg (by simp [sound.alive j hj, at_j.node])]

/-- The report of a step that stands where its journey does ends the journey or makes it arrive,
unless it makes the journey wait. -/
theorem onStep_spends (sound : e.Sound) (orderly : e.Orderly) (hf : f ∈ e.flights) {task : Nat}
    (taken : (e.flight? f.journey.id).any (·.task = task) = true) {result : StepResult}
    (goes_on : result.isSuspend = false) :
    (e.onStep task f.journey.id f.node.id result).Gone f.journey.id ∨
      e.arrivals f.journey.id <
        (e.onStep task f.journey.id f.node.id result).arrivals f.journey.id := by
  obtain ⟨j, hj, of_j, he⟩ := onStep_of_flight sound orderly hf taken result
  rw [he, of_j.id]
  have alive := sound.alive j hj
  let landed : Engine := { e with flights := e.flights.filter (·.journey.id ≠ j.id) }
  have free : landed.isFlying j.id = false := by simp [landed, isFlying_eq_false]
  have hs := apply_spends (e := landed) alive goes_on
  have hle : landed.arrivals j.id ≤ (landed.apply j result).arrivals j.id :=
    (quiets_apply (e := landed) hj alive free result).changes.arrivals_le
  split
  · exact (quiets_retryPresentations _ _).changes.settles hle hs
  · exact hs

end Engine

end Engagement
