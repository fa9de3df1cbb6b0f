import Engagement.Proofs.Session.ComingUp

/-! # Ids of journeys

Ids for new journeys come from outside. As long as the ids given are new, the ids in the mirror and
in the ledger together are those loaded and those given, each as often as it came in.
-/

namespace Engagement

variable {j : Journey} {given : List JourneyId}

/-- The ids of the journeys and of the records held. -/
def Snapshot.ids (snapshot : Snapshot) : List JourneyId :=
  snapshot.journeys.map (·.id) ++ snapshot.ledger.map (·.journeyId)

namespace Store

variable {store store' : Store}

/-- The mirror and the ledger account for each of some ids. -/
def Accounts (store : Store) (given : List JourneyId) : Prop :=
  (store.active.map (·.id) ++ store.ledger.map (·.journeyId)).Perm given

theorem Accounts.puts (h : store.Accounts given) (puts : store.Puts j store')
    (here : j.id ∈ store.active.map (·.id)) : store'.Accounts given := by
  unfold Accounts
  rw [puts.active, puts.ledger, map_id_upsert, if_pos here]
  exact h

theorem Accounts.puts_new (h : store.Accounts given) (puts : store.Puts j store')
    (new : ∀ k ∈ store.active, k.id ≠ j.id) : store'.Accounts (given ++ [j.id]) := by
  unfold Accounts
  rw [puts.active, puts.ledger, upsert_of_new new, List.map_append, List.append_assoc]
  have hs := @List.perm_append_comm _ [j.id] (store.ledger.map (·.journeyId))
  have hp := hs.append_left (store.active.map (·.id))
  rw [← List.append_assoc _ _ [j.id]] at hp
  exact hp.trans (h.append_right _)

theorem Accounts.completes {ended : Journey} (h : store.Accounts given)
    (completes : store.Completes ended store') (distinct : DistinctIds store.active)
    (hj : j ∈ store.active) (hid : ended.id = j.id) : store'.Accounts given := by
  unfold Accounts
  have hr : (Completion.ofJourney ended).journeyId = j.id := hid
  rw [completes.active, completes.ledger, hid, List.map_append, List.map_singleton, hr]
  refine List.Perm.trans ?_ h
  have hs := @List.perm_append_comm _ (store.ledger.map (·.journeyId)) [j.id]
  have hp := hs.append_left ((without j.id store.active).map (·.id))
  rw [← List.append_assoc _ [j.id]] at hp
  refine hp.trans (List.Perm.append_right _ ?_)
  have hm := (cons_without_perm distinct hj).map (·.id)
  exact (@List.perm_append_comm _ _ [j.id]).trans hm

theorem Accounts.completes_new {ended : Journey} (h : store.Accounts given)
    (completes : store.Completes ended store') (new : ∀ k ∈ store.active, k.id ≠ ended.id) :
    store'.Accounts (given ++ [ended.id]) := by
  unfold Accounts
  rw [completes.active, completes.ledger, without_of_not_mem new, List.map_append,
    ← List.append_assoc]
  exact h.append_right _

/-- All ids in the store and in its storage are among some. -/
structure Within (given : List JourneyId) (store : Store) : Prop where
  active : ∀ j ∈ store.active, j.id ∈ given
  recorded : ∀ r ∈ store.ledger, r.journeyId ∈ given
  stored : ∀ j ∈ store.durable.journeys, j.id ∈ given

theorem Within.mono {more : List JourneyId} (h : store.Within given) (le : given ⊆ more) :
    store.Within more :=
  ⟨fun j hj => le (h.active j hj), fun r hr => le (h.recorded r hr),
    fun j hj => le (h.stored j hj)⟩

theorem Within.puts (h : store.Within given) (puts : store.Puts j store') (own : j.id ∈ given) :
    store'.Within given where
  active k hk := by
    rw [puts.active] at hk
    rcases mem_of_mem_upsert hk with rfl | hk
    · exact own
    · exact h.active k hk
  recorded r hr := h.recorded r (puts.ledger ▸ hr)
  stored k hk := by
    rw [puts.durable] at hk
    rcases mem_of_mem_upsert hk with rfl | hk
    · exact own
    · exact h.stored k hk

theorem Within.completes {ended : Journey} (h : store.Within given)
    (completes : store.Completes ended store') (own : ended.id ∈ given) :
    store'.Within given where
  active k hk := h.active k (mem_without.mp (completes.active ▸ hk)).1
  recorded r hr := by
    rw [completes.ledger] at hr
    rcases List.mem_append.mp hr with hr | hr
    · exact h.recorded r hr
    · exact List.mem_singleton.mp hr ▸ own
  stored k hk := by
    rcases completes.durable with hd | hd | hd <;> rw [hd] at hk
    · exact h.stored k (mem_without.mp hk).1
    · rcases mem_of_mem_upsert hk with rfl | hk
      · exact own
      · exact h.stored k hk
    · exact h.stored k hk

/-- All that is recovered comes from storage. -/
theorem within_recovered {snapshot : Snapshot} (h : store.backend.load.2 = .ok snapshot) :
    store.recovered.Within snapshot.ids := by
  have journey {j : Journey} (hj : j ∈ snapshot.journeys) : j.id ∈ snapshot.ids :=
    List.mem_append_left _ (List.mem_map_of_mem hj)
  have taken : (store.takenOver snapshot).Within snapshot.ids := by
    refine ⟨fun j hj => ?_, fun r hr => List.mem_append_right _ (List.mem_map_of_mem hr), ?_⟩
    · rcases mem_foldl_upsert hj with hj | hj
      · exact journey (List.mem_filter.mp hj).1
      · cases hj
    · have hd : (store.takenOver snapshot).durable = snapshot := Backend.durable_load h
      rw [hd]
      exact fun j hj => journey hj
  rw [recovered_of_load h]
  exact List.foldlRecOn _ _ taken fun store within j hj =>
    within.completes (completes_complete store j) (journey (List.mem_filter.mp hj).1)

/-- Recovery accounts for all that storage holds. -/
theorem accounts_recovered {snapshot : Snapshot} (h : store.backend.load.2 = .ok snapshot)
    (distinct : DistinctIds snapshot.journeys) : store.recovered.Accounts snapshot.ids := by
  have hp := List.filter_append_perm (fun j => !j.isTerminal) snapshot.journeys
  have hf : snapshot.journeys.filter (fun j => !(!j.isTerminal)) =
      snapshot.journeys.filter Journey.isTerminal := by simp
  rw [hf] at hp
  have hm := (hp.map (·.id)).append_right (snapshot.ledger.map (·.journeyId))
  unfold Accounts Snapshot.ids
  refine List.Perm.trans ?_ hm
  rw [recovered_active h distinct, recovered_ledger h, List.map_append, List.map_append,
    List.map_map, List.append_assoc]
  exact List.perm_append_comm.append_left _

end Store

namespace Engine

variable {e e' : Engine} {snapshot : Snapshot} {n : Nat}

/-- The ids that are given next, up to the `n`-th. -/
def idsUpTo (e : Engine) (n : Nat) : List JourneyId :=
  (List.range' e.issued (n - e.issued)).map e.ids

theorem idsUpTo_succ (h : e.issued ≤ n) : e.idsUpTo (n + 1) = e.idsUpTo n ++ [e.ids n] := by
  have hn : n + 1 - e.issued = n - e.issued + 1 := by omega
  have he : e.issued + (n - e.issued) = n := by omega
  simp [idsUpTo, hn, List.range'_concat, he]

theorem mem_idsUpTo {id : JourneyId} :
    id ∈ e.idsUpTo n ↔ ∃ k, e.issued ≤ k ∧ k < n ∧ e.ids k = id := by
  unfold idsUpTo
  rw [List.mem_map]
  constructor
  · rintro ⟨k, hk, rfl⟩
    rw [List.mem_range'_1] at hk
    exact ⟨k, hk.1, by omega, rfl⟩
  · rintro ⟨k, hl, hr, rfl⟩
    exact ⟨k, by rw [List.mem_range'_1]; omega, rfl⟩

theorem idsUpTo_sublist {m : Nat} (h : m ≤ n) : (e.idsUpTo m).Sublist (e.idsUpTo n) := by
  apply List.Sublist.map _
  rw [List.range'_sublist_right]
  omega

/-- What is loaded or given by some point is so later. -/
theorem mem_known_of_le {m : Nat} {id : JourneyId} (h : m ≤ n)
    (held : id ∈ snapshot.ids ++ e.idsUpTo m) : id ∈ snapshot.ids ++ e.idsUpTo n := by
  rw [List.mem_append] at held ⊢
  exact held.imp_right fun given => (idsUpTo_sublist h).subset given

/-- The ids that are given next, up to the `n`-th, differ from each other and from those that
storage holds. -/
structure FreshIds (e : Engine) (snapshot : Snapshot) (n : Nat) : Prop where
  distinct : (e.idsUpTo n).Nodup
  new : ∀ id ∈ e.idsUpTo n, id ∉ snapshot.ids

theorem FreshIds.mono {m : Nat} (fresh : e.FreshIds snapshot n) (h : m ≤ n) :
    e.FreshIds snapshot m :=
  ⟨fresh.distinct.sublist (idsUpTo_sublist h), fun id hid =>
    fresh.new id ((idsUpTo_sublist h).subset hid)⟩

/-- The next id that is given is held neither by storage nor by a journey started since. -/
theorem FreshIds.next (fresh : e.FreshIds snapshot (n + 1)) (h : e.issued ≤ n) :
    e.ids n ∉ snapshot.ids ++ e.idsUpTo n := by
  have hd := fresh.distinct
  rw [idsUpTo_succ h] at hd
  intro hm
  rcases List.mem_append.mp hm with hm | hm
  · exact fresh.new _ (mem_idsUpTo.mpr ⟨n, h, by omega, rfl⟩) hm
  · exact (List.nodup_append.mp hd).2.2 _ hm _ (by simp) rfl

/-- All that is held by `e`, which has gone on from `origin`, was loaded or started. -/
structure Known (origin : Engine) (snapshot : Snapshot) (e : Engine) : Prop where
  ids_eq : e.ids = origin.ids
  issued_le : origin.issued ≤ e.issued
  within : e.store.Within (snapshot.ids ++ origin.idsUpTo e.issued)

/-- A change that gives no id twice. -/
structure FreshChange (e e' : Engine) : Prop where
  sound : e.Sound
  new : e.issued < e'.issued → ∀ j ∈ e.store.active, j.id ≠ e.ids e.issued
  change : Change e e'

abbrev FreshChanges : Engine → Engine → Prop := Relation.ReflTransGen FreshChange

theorem FreshChanges.changes (h : FreshChanges e e') : Changes e e' := by
  induction h with
  | refl => exact .refl
  | tail _ h ih => exact ih.tail h.change

theorem Known.next_new {origin : Engine} (h : Known origin snapshot e)
    (fresh : origin.FreshIds snapshot (e.issued + 1)) :
    ∀ j ∈ e.store.active, j.id ≠ e.ids e.issued := by
  intro j hj he
  have hm := h.within.active j hj
  rw [he, h.ids_eq] at hm
  exact fresh.next h.issued_le hm

/-- A change touches no journey, one under way or the next newcomer. -/
theorem Change.id_cases (h : Change e e') :
    (e'.issued = e.issued ∧ (e'.store = e.store ∨ ∃ j k, j ∈ e.store.active ∧ k.id = j.id ∧
      (e.store.Puts k e'.store ∨ e.store.Completes k e'.store))) ∨
    (e'.issued = e.issued + 1 ∧ ∃ k, k.id = e.ids e.issued ∧
      (e.store.Puts k e'.store ∨ e.store.Completes k e'.store)) := by
  cases h with
  | quiet h =>
    refine .inl ⟨h.issued_eq, h.store_cases.imp_right ?_⟩
    rintro ⟨j, k, hj, continues, ⟨-, puts⟩ | ⟨reason, completes⟩⟩
    · exact ⟨j, k, hj, continues.id, .inl puts⟩
    · exact ⟨j, k.ended reason e.now, hj, continues.id, .inr completes⟩
  | @start j h =>
    refine .inr ⟨h.issued_eq, ?_⟩
    obtain ⟨-, puts | ⟨reason, completes⟩⟩ := h.store_cases
    · exact ⟨j, h.id_eq, .inl puts⟩
    · exact ⟨j.ended reason e.now, h.id_eq, .inr completes⟩

theorem Known.change {origin : Engine} (h : Known origin snapshot e) (c : Change e e') :
    Known origin snapshot e' := by
  refine ⟨c.ids_eq.trans h.ids_eq, Nat.le_trans h.issued_le c.issued_le, ?_⟩
  rcases c.id_cases with ⟨hn, hc⟩ | ⟨hn, k, hk, hc⟩
  · rw [hn]
    rcases hc with he | ⟨j, k, hj, hk, puts | completes⟩
    · exact he ▸ h.within
    · exact h.within.puts puts (hk ▸ h.within.active j hj)
    · exact h.within.completes completes (hk ▸ h.within.active j hj)
  · rw [hn, idsUpTo_succ h.issued_le, ← h.ids_eq, ← hk, ← List.append_assoc]
    have more := h.within.mono (List.subset_append_left _ [k.id])
    have own := List.mem_append_right (snapshot.ids ++ origin.idsUpTo e.issued)
      (List.mem_singleton_self k.id)
    rcases hc with puts | completes
    · exact more.puts puts own
    · exact more.completes completes own

/-- Changes give no id twice while ids are fresh. -/
theorem Known.changes {origin : Engine} (h : Known origin snapshot e) (sound : e.Sound)
    (fresh : origin.FreshIds snapshot e'.issued) (c : Changes e e') :
    FreshChanges e e' ∧ Known origin snapshot e' := by
  induction c with
  | refl => exact ⟨.refl, h⟩
  | @tail e₁ e₂ c₁ c₂ ih =>
    obtain ⟨hc, hk⟩ := ih (fresh.mono c₂.issued_le)
    have hf : FreshChange e₁ e₂ := by
      refine ⟨sound.changes c₁, fun hlt => hk.next_new (fresh.mono (by omega)), c₂⟩
    exact ⟨hc.tail hf, hk.change c₂⟩

/-- A journey that is admitted has an id that was neither loaded nor given before. -/
theorem Known.admitted_new {origin : Engine} (h : Known origin snapshot e) (sound : e.Sound)
    {m : Message} (hm : m ≠ .command .boot) (fresh : origin.FreshIds snapshot (e.handle m).issued)
    {a : Admission} (ha : a ∈ e.admissions m) :
    a.journey.id ∉ snapshot.ids ++ origin.idsUpTo e.issued := by
  obtain ⟨issued, ids⟩ := (traces_handle sound hm).ids_eq
  rw [takeIn_issued] at issued ids
  have given : a.journey.id ∈ (List.range' e.issued (e.admissions m).length).map e.ids := by
    rw [← takeIn_ids e m, ← ids]
    exact List.mem_map_of_mem ha
  obtain ⟨n, hn, hid⟩ := List.mem_map.mp given
  rw [List.mem_range'_1] at hn
  have new := (fresh.mono (m := n + 1) (by omega)).next (Nat.le_trans h.issued_le hn.1)
  rw [← hid, h.ids_eq]
  exact fun held => new (mem_known_of_le hn.1 held)

theorem Known.takeIn {origin : Engine} (h : Known origin snapshot e) (m : Message) :
    Known origin snapshot (e.takeIn m) :=
  ⟨by simpa using h.ids_eq, by simpa using h.issued_le, by simpa using h.within⟩

theorem Known.drift {origin : Engine} (h : Known origin snapshot e) (d : Drift e e') :
    Known origin snapshot e' := by
  refine ⟨d.ids.trans h.ids_eq, d.issued ▸ h.issued_le, ?_, ?_, ?_⟩ <;> rw [d.issued]
  · exact d.active ▸ h.within.active
  · exact d.ledger ▸ h.within.recorded
  · exact d.durable ▸ h.within.stored

theorem BootsFrom.known_loaded (boots : e.BootsFrom snapshot) (campaigns : Table String Campaign)
    (installed : Bool) : Known e snapshot (e.loaded campaigns installed) := by
  exact ⟨rfl, Nat.le_refl _,
    (Store.within_recovered boots.held).mono (List.subset_append_left _ _)⟩

/-- What holds when an engine has come up and is kept by every move holds after any moves, as long
as ids are fresh. -/
theorem BootsFrom.moves_induction {I : Session → Prop} (boots : e.BootsFrom snapshot)
    (ms : List Move) (fresh : e.FreshIds snapshot (Session.after e ms).engine.issued)
    (base : ∀ campaigns installed,
      FreshChanges (e.loaded campaigns installed) (Session.raise e).engine → I (Session.raise e))
    (drift : ∀ (s : Session) (m : Move), s.Up → I s → m ≠ .deliver → I (s.move m))
    (deliver : ∀ (s : Session) (message : Message) (rest : List Message), s.Up → I s →
      s.mailbox = message :: rest →
      FreshChanges (s.engine.takeIn message) (s.engine.handle message) → I s.deliver) :
    I (Session.after e ms) := by
  suffices H : ∀ ms (s : Session), s.Up → Known e snapshot s.engine → I s →
      e.FreshIds snapshot (s.moves ms).engine.issued → I (s.moves ms) by
    obtain ⟨campaigns, installed, quiets, up⟩ := boots.up_raise
    obtain ⟨hc, ha⟩ := (boots.known_loaded campaigns installed).changes
      (sound_loaded boots.held campaigns installed)
      (fresh.mono (up.evolves ms).issued_le) quiets.changes
    exact H ms _ up ha (base campaigns installed hc) fresh
  intro ms
  induction ms with
  | nil => exact fun _ _ _ hI _ => hI
  | cons m ms ih =>
    intro s up ha hI fresh
    have hle := ((up.move m).evolves ms).issued_le
    by_cases hd : m = .deliver
    · subst hd
      rcases hm : s.mailbox with _ | ⟨message, rest⟩
      · rw [Session.moves_cons, Session.move_deliver_of_empty hm] at fresh ⊢
        exact ih s up ha hI fresh
      · have he := Session.deliver_engine hm
        have hne : message ≠ .command .boot := fun h => up.once (by simp [hm, h])
        obtain ⟨hc, ha'⟩ := (ha.takeIn message).changes ((Happens.takeIn _ _).sound up.sound)
          (fresh.mono (he ▸ hle)) (changes_handle up.sound hne)
        exact ih _ (up.move _) (he ▸ ha') (deliver s message rest up hI hm hc) fresh
    · exact ih _ (up.move m) (ha.drift (s.move_drift hd)) (drift s m up hI hd) fresh

theorem BootsFrom.known (boots : e.BootsFrom snapshot) (ms : List Move)
    (fresh : e.FreshIds snapshot (Session.after e ms).engine.issued) :
    Known e snapshot (Session.after e ms).engine := by
  have kept : ∀ {e₁ e₂ : Engine}, Known e snapshot e₁ → FreshChanges e₁ e₂ →
      Known e snapshot e₂ := by
    intro e₁ e₂ h c
    induction c with
    | refl => exact h
    | tail _ c ih => exact ih.change c.change
  refine boots.moves_induction (I := fun s => Known e snapshot s.engine) ms fresh ?_ ?_ ?_
  · exact fun campaigns installed changes => kept (boots.known_loaded campaigns installed) changes
  · exact fun s m _ h hm => h.drift (s.move_drift hm)
  · intro s message rest _ h hm changes
    exact Session.deliver_engine hm ▸ kept (h.takeIn message) changes

/-- The handling of a message gives no id twice. -/
theorem BootsFrom.handles_fresh (boots : e.BootsFrom snapshot) (ms : List Move)
    (fresh : e.FreshIds snapshot (Session.after e (ms ++ [.deliver])).engine.issued)
    {message : Message} (waiting : (Session.after e ms).mailbox.head? = some message) :
    FreshChanges ((Session.after e ms).engine.takeIn message)
      ((Session.after e ms).engine.handle message) := by
  have up := boots.up ms
  have hne : message ≠ .command .boot :=
    fun h => up.once (h ▸ List.mem_of_mem_head? waiting)
  have known := boots.known ms (fresh.mono (boots.evolves_append ms [.deliver]).issued_le)
  rw [Session.after_deliver waiting] at fresh
  exact ((known.takeIn message).changes ((Happens.takeIn _ _).sound up.sound) fresh
    (changes_handle up.sound hne)).1

/-- Everything held by `e`, which has gone on from `origin`, is accounted for. -/
structure Accounted (origin : Engine) (snapshot : Snapshot) (e : Engine) : Prop where
  ids_eq : e.ids = origin.ids
  issued_le : origin.issued ≤ e.issued
  accounts : e.store.Accounts (snapshot.ids ++ origin.idsUpTo e.issued)

theorem Accounted.change {origin : Engine} (h : Accounted origin snapshot e)
    (c : FreshChange e e') : Accounted origin snapshot e' := by
  refine ⟨c.change.ids_eq.trans h.ids_eq, Nat.le_trans h.issued_le c.change.issued_le, ?_⟩
  have hs := h.accounts
  rcases c.change.id_cases with ⟨hi, hc⟩ | ⟨hi, k, hk, hc⟩
  · rw [hi]
    rcases hc with he | ⟨j, k, hj, hk, puts | completes⟩
    · rwa [he]
    · exact hs.puts puts (hk ▸ List.mem_map_of_mem hj)
    · exact hs.completes completes c.sound.distinct hj hk
  · have new : ∀ j ∈ e.store.active, j.id ≠ k.id := hk ▸ c.new (by omega)
    rw [hi, idsUpTo_succ h.issued_le, ← h.ids_eq, ← hk, ← List.append_assoc]
    rcases hc with puts | completes
    · exact hs.puts_new puts new
    · exact hs.completes_new completes new

theorem Accounted.changes {origin : Engine} (h : Accounted origin snapshot e)
    (c : FreshChanges e e') : Accounted origin snapshot e' := by
  induction c with
  | refl => exact h
  | tail _ hc ih => exact ih.change hc

theorem Accounted.takeIn {origin : Engine} (h : Accounted origin snapshot e) (m : Message) :
    Accounted origin snapshot (e.takeIn m) :=
  ⟨by simpa using h.ids_eq, by simpa using h.issued_le, by simpa using h.accounts⟩

theorem Accounted.drift {origin : Engine} (h : Accounted origin snapshot e) (d : Drift e e') :
    Accounted origin snapshot e' := by
  refine ⟨d.ids.trans h.ids_eq, d.issued ▸ h.issued_le, ?_⟩
  unfold Store.Accounts
  rw [d.active, d.ledger, d.issued]
  exact h.accounts

theorem accounted_loaded (held : e.store.backend.load.2 = .ok snapshot)
    (distinct : DistinctIds snapshot.journeys) (campaigns : Table String Campaign)
    (installed : Bool) : Accounted e snapshot (e.loaded campaigns installed) := by
  have hn : e.idsUpTo (e.loaded campaigns installed).issued = [] := by simp [idsUpTo, loaded]
  have hs := Store.accounts_recovered held distinct
  exact ⟨rfl, Nat.le_refl _, by rwa [hn, List.append_nil]⟩

theorem BootsFrom.accounted (boots : e.BootsFrom snapshot)
    (distinct : DistinctIds snapshot.journeys) (ms : List Move)
    (fresh : e.FreshIds snapshot (Session.after e ms).engine.issued) :
    Accounted e snapshot (Session.after e ms).engine := by
  refine boots.moves_induction (I := fun s => Accounted e snapshot s.engine) ms fresh ?_ ?_ ?_
  · exact fun campaigns installed changes =>
      (accounted_loaded boots.held distinct campaigns installed).changes changes
  · exact fun s m _ h hm => h.drift (s.move_drift hm)
  · intro s message rest _ h hm changes
    exact Session.deliver_engine hm ▸ (h.takeIn message).changes changes

end Engine

end Engagement
