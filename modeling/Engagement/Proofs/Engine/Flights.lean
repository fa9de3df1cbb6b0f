import Engagement.Proofs.Engine.Identity

/-! # Steps under way

At most one step of a journey is under way. It executes the node at which the journey stands, for
the journey as the mirror has it, but for a conversion found since.
-/

namespace Engagement

/-- The step executes the node of a journey that has not moved since. -/
structure Flight.StandsAt (f : Flight) (j : Journey) : Prop where
  id : f.journey.id = j.id
  node : f.node.id = j.node
  place : f.journey.node = j.node
  enteredAt : f.journey.enteredAt = j.enteredAt

/-- The step was set off for a journey that at most has converted since. -/
structure Flight.IsOf (f : Flight) (j : Journey) : Prop where
  node : f.node.id = j.node
  journey : f.journey.Agrees j

namespace Flight.IsOf

variable {f : Flight} {j k : Journey}

theorem id (h : f.IsOf j) : f.journey.id = j.id := h.journey.id.symm

theorem campaignId (h : f.IsOf j) : f.journey.campaignId = j.campaignId :=
  h.journey.campaignId.symm

theorem standsAt (h : f.IsOf j) : f.StandsAt j :=
  ⟨h.id, h.node, h.journey.node.symm, h.journey.enteredAt.symm⟩

theorem agrees (h : f.IsOf j) (same : j.Agrees k) : f.IsOf k :=
  ⟨h.node.trans same.node.symm, h.journey.trans same⟩

end Flight.IsOf

namespace Engine

variable {e e' : Engine} {snapshot : Snapshot}

structure Orderly (e : Engine) : Prop where
  anchored : ∀ f ∈ e.flights, ∃ j ∈ e.store.active, f.IsOf j
  single : (e.flights.map (·.journey.id)).Nodup
  tasks : (e.flights.map (·.task)).Nodup
  numbered : ∀ f ∈ e.flights, f.task ≤ e.lastTask

namespace Orderly

variable {f g : Flight}

theorem eq_of_journey (orderly : e.Orderly) (hf : f ∈ e.flights) (hg : g ∈ e.flights)
    (h : f.journey.id = g.journey.id) : f = g :=
  List.inj_on_of_nodup_map orderly.single hf hg h

theorem eq_of_task (orderly : e.Orderly) (hf : f ∈ e.flights) (hg : g ∈ e.flights)
    (h : f.task = g.task) : f = g :=
  List.inj_on_of_nodup_map orderly.tasks hf hg h

theorem flight?_eq (orderly : e.Orderly) (hf : f ∈ e.flights) :
    e.flight? f.journey.id = some f := by
  have hs : e.isFlying f.journey.id = true := isFlying_iff.mpr ⟨f, hf, rfl⟩
  obtain ⟨g, hg⟩ := Option.isSome_iff_exists.mp hs
  have hm : g ∈ e.flights := List.mem_of_find?_eq_some hg
  have hid : g.journey.id = f.journey.id := by simpa using List.find?_some hg
  rw [hg, orderly.eq_of_journey hm hf hid]

end Orderly

/-- A change launches a step of a journey that has none, or at most lands some. -/
theorem Change.flights_cases (h : Change e e') :
    (e'.flights.Sublist e.flights ∧ e.lastTask ≤ e'.lastTask) ∨
      ∃ j node, j ∈ e.store.active ∧ e.isFlying j.id = false ∧ node.id = j.node ∧
        e' = e.launch j node := by
  cases h with
  | quiet h =>
    cases h with
    | aside h => exact .inl ⟨h.flights_eq ▸ .refl _, h.lastTask_le⟩
    | launch under_way alive free here => exact .inr ⟨_, _, under_way, free, here, rfl⟩
    | finish under_way alive =>
      rw [finish_eq _ alive]
      exact .inl ⟨List.filter_sublist, Nat.le_refl _⟩
    | _ => exact .inl ⟨.refl _, Nat.le_refl _⟩
  | @start j h =>
    cases h with
    | @enter _ _ _ _ store =>
      obtain ⟨tasks, last, h, hle⟩ := checkGoal_eq
        { e with issued := e.issued + 1, store := store } j
      rw [h]
      exact .inl ⟨.refl _, hle⟩
    | fail known admitted new =>
      have alive : j.isTerminal = false := new ▸ rfl
      rw [giveUp, finish_eq _ alive]
      exact .inl ⟨List.filter_sublist, Nat.le_refl _⟩

theorem Change.lastTask_le (h : Change e e') : e.lastTask ≤ e'.lastTask := by
  rcases h.flights_cases with ⟨-, hle⟩ | ⟨j, node, -, -, -, rfl⟩
  · exact hle
  · exact Nat.le_succ _

namespace Orderly

variable {j k : Journey} {store : Store}

/-- A journey that is put in the place of another leaves the steps of others where they are. -/
theorem anchored_upsert (orderly : e.Orderly) {f : Flight} (hf : f ∈ e.flights)
    (hne : f.journey.id ≠ k.id) : ∃ j ∈ upsert k e.store.active, f.IsOf j := by
  obtain ⟨j, hj, at_j⟩ := orderly.anchored f hf
  exact ⟨j, mem_upsert_of_ne hj (at_j.id ▸ hne), at_j⟩

/-- A journey that ends takes only its own step along. -/
theorem anchored_finish (orderly : e.Orderly) {reason : ExitReason} (alive : k.isTerminal = false)
    (store_eq : store = e.store ∨ ∃ fault, e.store.save k = (store, .error fault)) :
    ∀ f ∈ ({ e with store := store }.finish k reason).flights,
      ∃ j ∈ ({ e with store := store }.finish k reason).store.active, f.IsOf j := by
  have hc := completes_finish (e := { e with store := store }) alive reason store_eq
  rw [hc.active, finish_eq _ alive]
  intro f hf
  obtain ⟨hf, hne⟩ := List.mem_filter.mp hf
  obtain ⟨j, hj, at_j⟩ := orderly.anchored f hf
  have hid : j.id ≠ k.id := at_j.id ▸ by simpa using hne
  exact ⟨j, mem_without.mpr ⟨hj, hid⟩, at_j⟩

theorem anchored_quiet (orderly : e.Orderly) (sound : e.Sound) (h : Quiet e e') :
    ∀ f ∈ e'.flights, ∃ j ∈ e'.store.active, f.IsOf j := by
  cases h with
  | aside h =>
    rw [h.flights_eq, h.store_eq]
    exact orderly.anchored
  | @launch j node under_way alive free here =>
    intro f hf
    rcases List.mem_append.mp hf with hf | hf
    · exact orderly.anchored f hf
    · obtain rfl := List.mem_singleton.mp hf
      exact ⟨j, under_way, ⟨here, .refl j⟩⟩
  | @advance j next kind store under_way alive free arrival on_way saved =>
    intro f hf
    rw [report_store, (Store.puts_of_save saved).active]
    exact orderly.anchored_upsert hf (isFlying_eq_false.mp free f hf)
  | @amend j k store under_way alive amends saved steady =>
    intro f (hf : f ∈ e.flights)
    rw [(Store.puts_of_save saved).active]
    obtain ⟨i, hi, at_i⟩ := orderly.anchored f hf
    by_cases hid : i.id = k.id
    · obtain rfl := sound.distinct.eq_of_id hi under_way (hid.trans amends.continues.id)
      have same := steady (isFlying_iff.mpr ⟨f, hf, at_i.id⟩)
      exact ⟨k, mem_upsert_self k _, at_i.agrees same⟩
    · exact ⟨i, mem_upsert_of_ne hi hid, at_i⟩
  | finish under_way alive continues store_eq => exact orderly.anchored_finish alive store_eq

theorem anchored_start (orderly : e.Orderly) (new : ∀ i ∈ e.store.active, i.id ≠ j.id)
    (h : Start e j e') : ∀ f ∈ e'.flights, ∃ j ∈ e'.store.active, f.IsOf j := by
  cases h with
  | @enter _ _ _ _ store known admitted _ saved =>
    obtain ⟨tasks, last, h, -⟩ := checkGoal_eq { e with issued := e.issued + 1, store := store } j
    rw [h]
    intro f (hf : f ∈ e.flights)
    obtain ⟨i, hi, at_i⟩ := orderly.anchored f hf
    rw [report_store, (Store.puts_of_save saved).active]
    exact orderly.anchored_upsert hf (at_i.id ▸ new i hi)
  | @fail _ _ _ _ store _ known admitted started refused =>
    have alive : j.isTerminal = false := started ▸ rfl
    have given : { e with issued := e.issued + 1 }.Orderly :=
      ⟨orderly.anchored, orderly.single, orderly.tasks, orderly.numbered⟩
    exact given.anchored_finish alive (.inr ⟨_, refused⟩)

end Orderly

theorem Orderly.change (orderly : e.Orderly) (c : FreshChange e e') : e'.Orderly := by
  have anchored : ∀ f ∈ e'.flights, ∃ j ∈ e'.store.active, f.IsOf j := by
    cases c.change with
    | quiet h => exact orderly.anchored_quiet c.sound h
    | start h =>
      refine orderly.anchored_start ?_ h
      rw [h.id_eq]
      exact c.new (h.issued_eq ▸ Nat.lt_succ_self _)
  rcases c.change.flights_cases with ⟨hs, hle⟩ | ⟨j, node, -, free, -, rfl⟩
  · exact ⟨anchored, orderly.single.sublist (hs.map _), orderly.tasks.sublist (hs.map _),
      fun f hf => Nat.le_trans (orderly.numbered f (hs.subset hf)) hle⟩
  · have hj := isFlying_eq_false.mp free
    refine ⟨anchored, ?_, ?_, ?_⟩
    · simpa [launch, List.nodup_append, orderly.single] using hj
    · have hn : ∀ f ∈ e.flights, f.task ≠ e.lastTask + 1 := fun f hf =>
        Nat.ne_of_lt (Nat.lt_succ_of_le (orderly.numbered f hf))
      simpa [launch, List.nodup_append, orderly.tasks] using hn
    · intro f hf
      rcases List.mem_append.mp hf with hf | hf
      · exact Nat.le_succ_of_le (orderly.numbered f hf)
      · obtain rfl := List.mem_singleton.mp hf
        exact Nat.le_refl _

theorem Orderly.changes (orderly : e.Orderly) (c : FreshChanges e e') : e'.Orderly := by
  induction c with
  | refl => exact orderly
  | tail _ h ih => exact ih.change h

theorem Orderly.takeIn (orderly : e.Orderly) (m : Message) : (e.takeIn m).Orderly := by
  have hs := e.takeIn_flights m
  refine ⟨?_, orderly.single.sublist (hs.map _), orderly.tasks.sublist (hs.map _), ?_⟩
  · intro f hf
    simpa using orderly.anchored f (hs.subset hf)
  · intro f hf
    simpa using orderly.numbered f (hs.subset hf)

theorem Orderly.drift (orderly : e.Orderly) (d : Drift e e') : e'.Orderly := by
  refine ⟨?_, ?_, ?_, ?_⟩
  · intro f hf
    obtain ⟨g, hg, -, hj, hn⟩ := d.exists_flight hf
    obtain ⟨j, hm, at_j⟩ := orderly.anchored g hg
    exact ⟨j, d.active ▸ hm, hn ▸ at_j.node, hj ▸ at_j.journey⟩
  · have h := congrArg (List.map fun f => f.journey.id) d.flights
    simp only [List.map_map] at h
    exact (congrArg List.Nodup h).mpr orderly.single
  · have h := congrArg (List.map fun f => f.task) d.flights
    simp only [List.map_map] at h
    exact (congrArg List.Nodup h).mpr orderly.tasks
  · intro f hf
    obtain ⟨g, hg, ht, -, -⟩ := d.exists_flight hf
    exact ht ▸ d.lastTask ▸ orderly.numbered g hg

theorem BootsFrom.orderly_loaded (boots : e.BootsFrom snapshot)
    (campaigns : Table String Campaign) (installed : Bool) :
    (e.loaded campaigns installed).Orderly := by
  have hf : (e.loaded campaigns installed).flights = [] := boots.flights_eq
  refine ⟨?_, ?_, ?_, ?_⟩ <;> simp [hf]

/-- Steps under way stay orderly. -/
theorem BootsFrom.orderly (boots : e.BootsFrom snapshot) (ms : List Move)
    (fresh : e.FreshIds snapshot (Session.after e ms).engine.issued) :
    (Session.after e ms).engine.Orderly := by
  refine boots.moves_induction (I := fun s => s.engine.Orderly) ms fresh ?_ ?_ ?_
  · exact fun campaigns installed changes =>
      (boots.orderly_loaded campaigns installed).changes changes
  · exact fun s m _ h hm => h.drift (s.move_drift hm)
  · intro s message rest _ h hm changes
    exact Session.deliver_engine hm ▸ (h.takeIn message).changes changes

end Engine

end Engagement
