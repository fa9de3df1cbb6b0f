import Engagement.Proofs.Store.Consistency
import Engagement.Proofs.Store.Tally

/-! # What a restart finds

Storage holds a record for each journey that has ended, in its ledger or as the ended journey
itself, unless both writes of its completion were refused. Without such losses an engine set up
anew finds the journeys and the records that were held before.
-/

namespace Engagement

variable {j k : Journey} {l : List Journey}

theorem upsert_of_mem (distinct : DistinctIds l) (hj : j ∈ l) : upsert j l = l := by
  induction l with
  | nil => simp at hj
  | cons known rest ih =>
    rcases List.mem_cons.mp hj with rfl | hj
    · simp [upsert]
    · have hne : known.id ≠ j.id := fun he => distinct.head_ne hj he.symm
      rw [upsert, if_neg hne, ih distinct.tail hj]

namespace Snapshot

variable {s : Snapshot}

/-- The records held, and those of the ended journeys that are still stored. -/
def records (s : Snapshot) : List Completion :=
  s.ledger ++ (s.journeys.filter Journey.isTerminal).map Completion.ofJourney

theorem filter_upsert_of_alive (alive : j.isTerminal = false)
    (others : ∀ k ∈ l, k.id = j.id → k.isTerminal = false) :
    (upsert j l).filter Journey.isTerminal = l.filter Journey.isTerminal := by
  induction l with
  | nil => simp [upsert, alive]
  | cons k l ih =>
    have hk := others k (by simp)
    by_cases hid : k.id = j.id
    · simp [upsert, hid, alive, hk hid]
    · simp only [upsert, hid, if_false, List.filter_cons]
      rw [ih fun i hi => others i (by simp [hi])]

theorem filter_upsert_of_terminal (ended : j.isTerminal = true) (distinct : DistinctIds l)
    (others : ∀ k ∈ l, k.id = j.id → k.isTerminal = false) :
    ((upsert j l).filter Journey.isTerminal).Perm (l.filter Journey.isTerminal ++ [j]) := by
  induction l with
  | nil => simp [upsert, ended]
  | cons k l ih =>
    have hk := others k (by simp)
    by_cases hid : k.id = j.id
    · simp only [upsert, hid, if_true, List.filter_cons, ended, hk hid]
      exact @List.perm_append_comm _ [j] _
    · simp only [upsert, hid, if_false, List.filter_cons]
      have ih := ih distinct.tail fun i hi => others i (by simp [hi])
      split
      · exact ih.cons k
      · exact ih

theorem filter_without (id : JourneyId)
    (others : ∀ k ∈ l, k.id = id → k.isTerminal = false) :
    (without id l).filter Journey.isTerminal = l.filter Journey.isTerminal := by
  unfold without
  rw [List.filter_filter]
  apply List.filter_congr
  intro k hk
  by_cases hid : k.id = id
  · simp [others k hk hid]
  · simp [hid]

theorem records_put (alive : j.isTerminal = false)
    (others : ∀ k ∈ s.journeys, k.id = j.id → k.isTerminal = false) :
    (s.apply (.put j)).records = s.records := by
  unfold records apply
  rw [filter_upsert_of_alive alive others]

theorem records_put_ended (ended : j.isTerminal = true) (distinct : DistinctIds s.journeys)
    (others : ∀ k ∈ s.journeys, k.id = j.id → k.isTerminal = false) :
    (s.apply (.put j)).records.Perm (s.records ++ [.ofJourney j]) := by
  have h := (filter_upsert_of_terminal ended distinct others).map Completion.ofJourney
  rw [List.map_append] at h
  unfold records apply
  rw [List.append_assoc]
  exact h.append_left _

theorem records_complete {id : JourneyId} (r : Completion)
    (others : ∀ k ∈ s.journeys, k.id = id → k.isTerminal = false) :
    (s.apply (.complete id r)).records.Perm (s.records ++ [r]) := by
  unfold records apply
  dsimp only
  rw [filter_without id others, List.append_assoc, List.append_assoc]
  exact List.perm_append_comm.append_left _

/-- Completing a journey that is stored as ended only moves its record. -/
theorem records_complete_ended (distinct : DistinctIds s.journeys) (hj : j ∈ s.journeys)
    (ended : j.isTerminal = true) :
    (s.apply (.complete j.id (.ofJourney j))).records.Perm s.records := by
  have hp : ((without j.id s.journeys).filter Journey.isTerminal ++ [j]).Perm
      (s.journeys.filter Journey.isTerminal) := by
    have h := (cons_without_perm distinct hj).filter Journey.isTerminal
    rw [List.filter_cons, if_pos ended] at h
    exact (@List.perm_append_comm _ _ [j]).trans h
  have h := hp.map Completion.ofJourney
  rw [List.map_append] at h
  unfold records apply
  dsimp only
  rw [List.append_assoc]
  exact (List.perm_append_comm.trans h).append_left _

/-- The chosen journeys that are under way and those that have ended, recorded or not. -/
theorem tally_eq (s : Snapshot) (p : String → String → Bool) : s.tally p =
    (s.journeys.filter (!·.isTerminal)).countP (·.fits p) + s.records.countP (·.fits p) := by
  have ht : s.journeys.filter (fun j => !(!j.isTerminal)) = s.journeys.filter Journey.isTerminal := by
    simp
  have hj := List.countP_eq_countP_filter_add s.journeys (fun j => j.fits p) fun j => !j.isTerminal
  have hr : ((s.journeys.filter Journey.isTerminal).map Completion.ofJourney).countP (·.fits p) =
      (s.journeys.filter Journey.isTerminal).countP (·.fits p) := by
    rw [List.countP_map]
    rfl
  rw [ht] at hj
  rw [tally, records, List.countP_append, hr, hj]
  omega

end Snapshot

namespace Store

variable {store store' : Store} {lost : List Completion}

/-- The ledger held is what storage has records of, but for those lost. A journey that storage has
under way is, or its record was lost. -/
structure Balanced (lost : List Completion) (store : Store) : Prop where
  ledger : store.ledger.Perm (store.durable.records ++ lost)
  alive : ∀ j ∈ store.durable.journeys, j.isTerminal = false →
    j ∈ store.active ∨ ∃ r ∈ lost, r.journeyId = j.id

theorem Balanced.puts (h : store.Balanced lost) (distinct : DistinctIds store.durable.journeys)
    (puts : store.Puts j store') (alive : j.isTerminal = false)
    (others : ∀ k ∈ store.durable.journeys, k.id = j.id → k.isTerminal = false) :
    store'.Balanced lost := by
  constructor
  · rw [puts.ledger, puts.durable, Snapshot.records_put alive others]
    exact h.ledger
  · intro k hk ht
    have hk : k ∈ upsert j store.durable.journeys := by rwa [puts.durable] at hk
    rw [puts.active]
    rcases (mem_upsert_iff distinct).mp hk with rfl | ⟨hk, hne⟩
    · exact .inl (mem_upsert_self k _)
    · exact (h.alive k hk ht).imp_left fun hk => mem_upsert_of_ne hk hne

/-- A completion is balanced again, perhaps with one more record lost. -/
theorem Balanced.completes {ended : Journey} (h : store.Balanced lost)
    (distinct : DistinctIds store.durable.journeys) (completes : store.Completes ended store')
    (terminal : ended.isTerminal = true)
    (others : ∀ k ∈ store.durable.journeys, k.id = ended.id → k.isTerminal = false) :
    ∃ lost', store'.Balanced lost' := by
  have kept : ∀ k ∈ store.durable.journeys, k.isTerminal = false → k.id ≠ ended.id →
      k ∈ store'.active ∨ ∃ r ∈ lost, r.journeyId = k.id := by
    intro k hk ht hne
    rw [completes.active, mem_without]
    exact (h.alive k hk ht).imp_left fun hk => ⟨hk, hne⟩
  have gained : ∀ {records : List Completion},
      records.Perm (store.durable.records ++ [.ofJourney ended]) →
      store'.ledger.Perm (records ++ lost) := by
    intro records hp
    rw [completes.ledger]
    apply (h.ledger.append_right _).trans
    refine List.Perm.trans ?_ (hp.append_right lost).symm
    rw [List.append_assoc, List.append_assoc]
    exact List.perm_append_comm.append_left _
  rcases completes.durable with hd | hd | hd
  · refine ⟨lost, ?_, fun k hk ht => ?_⟩ <;> rw [hd] at *
    · exact gained (Snapshot.records_complete _ others)
    · obtain ⟨hk, hne⟩ := mem_without.mp hk
      exact kept k hk ht hne
  · refine ⟨lost, ?_, fun k hk ht => ?_⟩ <;> rw [hd] at *
    · exact gained (Snapshot.records_put_ended terminal distinct others)
    · rcases (mem_upsert_iff distinct).mp hk with rfl | ⟨hk, hne⟩
      · rw [terminal] at ht
        cases ht
      · exact kept k hk ht hne
  · refine ⟨lost ++ [.ofJourney ended], ?_, fun k hk ht => ?_⟩ <;> rw [hd] at *
    · rw [completes.ledger, ← List.append_assoc]
      exact h.ledger.append_right _
    · by_cases hid : k.id = ended.id
      · exact .inr ⟨.ofJourney ended, by simp, hid.symm⟩
      · apply (kept k hk ht hid).imp_right
        rintro ⟨r, hr, he⟩
        exact ⟨r, List.mem_append_left _ hr, he⟩

/-- Recovery loses no record: what it cannot write stays stranded. -/
theorem records_foldl_complete (l : List Journey) (store : Store)
    (distinct : DistinctIds store.durable.journeys) (hl : DistinctIds l)
    (h : ∀ j ∈ l, j ∈ store.durable.journeys ∧ j.isTerminal = true) :
    let after := l.foldl (fun store j => (store.complete j).1) store
    after.durable.records.Perm store.durable.records ∧
      ∀ j, j.isTerminal = false → j ∈ after.durable.journeys → j ∈ store.durable.journeys := by
  induction l generalizing store with
  | nil => exact ⟨.refl _, fun _ _ hj => hj⟩
  | cons k l ih =>
    obtain ⟨hk, ended⟩ := h k (by simp)
    have hs : DistinctIds (store.complete k).1.durable.journeys ∧
        (store.complete k).1.durable.records.Perm store.durable.records ∧
        (∀ j ∈ (store.complete k).1.durable.journeys, j ∈ store.durable.journeys) ∧
        ∀ j ∈ store.durable.journeys, j.id ≠ k.id →
          j ∈ (store.complete k).1.durable.journeys := by
      rcases (completes_complete store k).durable with hd | hd | hd <;> rw [hd]
      · exact ⟨distinct.without _, Snapshot.records_complete_ended distinct hk ended,
          fun j hj => (mem_without.mp hj).1, fun j hj hne => mem_without.mpr ⟨hj, hne⟩⟩
      · have hu : store.durable.apply (.put k) = store.durable := by
          simp [Snapshot.apply, upsert_of_mem distinct hk]
        rw [hu]
        exact ⟨distinct, .refl _, fun _ hj => hj, fun _ hj _ => hj⟩
      · exact ⟨distinct, .refl _, fun _ hj => hj, fun _ hj _ => hj⟩
    obtain ⟨hd, hp, hsub, hstay⟩ := hs
    obtain ⟨hp', halive⟩ := ih _ hd hl.tail fun j hj =>
      ⟨hstay j (h j (by simp [hj])).1 (hl.head_ne hj), (h j (by simp [hj])).2⟩
    exact ⟨hp'.trans hp, fun j ht hj => hsub j (halive j ht hj)⟩

theorem balanced_recovered {snapshot : Snapshot} (h : store.backend.load.2 = .ok snapshot)
    (distinct : DistinctIds snapshot.journeys) : store.recovered.Balanced [] := by
  have hd : (store.takenOver snapshot).durable = snapshot := Backend.durable_load h
  have hr := records_foldl_complete (snapshot.journeys.filter Journey.isTerminal)
    (store.takenOver snapshot) (hd.symm ▸ distinct) (distinct.filter _)
    (fun j hj => hd.symm ▸ List.mem_filter.mp hj)
  rw [← recovered_of_load h, hd] at hr
  refine ⟨?_, fun j hj ht => .inl ?_⟩
  · rw [recovered_ledger h, List.append_nil]
    exact hr.1.symm
  · rw [recovered_active h distinct]
    exact List.mem_filter.mpr ⟨hr.2 j ht hj, by simp [ht]⟩

theorem tally_recovered {snapshot : Snapshot} (h : store.backend.load.2 = .ok snapshot)
    (distinct : DistinctIds snapshot.journeys) (p : String → String → Bool) :
    store.recovered.under p + store.recovered.past p = snapshot.tally p := by
  rw [Snapshot.tally_eq, Snapshot.records, ← recovered_active h distinct, ← recovered_ledger h]
  rfl

/-- Unless a record was lost, what storage holds is in the mirror or in the ledger. -/
theorem Balanced.tally_pos {p : String → String → Bool} (h : store.Balanced [])
    (held : 0 < store.durable.tally p) : 0 < store.under p + store.past p := by
  have past : store.durable.records.countP (·.fits p) = store.past p := by
    have hp := h.ledger.countP_eq (·.fits p)
    rw [List.append_nil] at hp
    exact hp.symm
  rw [Snapshot.tally_eq, past, Nat.add_pos_iff_pos_or_pos, List.countP_pos_iff] at held
  rw [Nat.add_pos_iff_pos_or_pos]
  refine held.imp_left fun ⟨j, hj, fits⟩ => under_pos.mpr ⟨j, ?_, fits⟩
  obtain ⟨hj, alive⟩ := List.mem_filter.mp hj
  exact (h.alive j hj (by simpa using alive)).resolve_right (by simp)

/-! ## Coming up again -/

/-- Storage, opened once more, answers with what was last written, and has every record that is
held. -/
structure Survives (store : Store) : Prop where
  held : store.backend.load.2 = .ok store.durable
  kept : store.ledger.Subperm store.durable.records

theorem Balanced.lost_eq_nil (h : store.Balanced lost) (survives : store.Survives) :
    lost = [] := by
  have hl := h.ledger.length_eq
  have hk := survives.kept.length_le
  rw [List.length_append] at hl
  exact List.eq_nil_of_length_eq_zero (by omega)

/-- A store in front of the same data finds the journeys and the records that were held. -/
theorem Balanced.recovered_perm {again : Store} (h : store.Balanced lost)
    (consistent : store.Consistent []) (distinct : DistinctIds store.active)
    (alive : ∀ j ∈ store.active, j.isTerminal = false) (survives : store.Survives)
    (held : again.backend.load.2 = .ok store.durable) :
    again.recovered.active.Perm store.active ∧ again.recovered.ledger.Perm store.ledger := by
  obtain rfl := h.lost_eq_nil survives
  have durable_distinct : DistinctIds again.recovered.active := recovered_distinct held
  constructor
  · rw [List.perm_ext_iff_of_nodup durable_distinct.of_map distinct.of_map]
    intro j
    rw [recovered_active held consistent.distinct, List.mem_filter, Bool.not_eq_true']
    constructor
    · rintro ⟨hj, ht⟩
      exact (h.alive j hj ht).resolve_right (by simp)
    · exact fun hj => ⟨consistent.stored j hj, alive j hj⟩
  · rw [recovered_ledger held]
    have hp := h.ledger.symm
    rwa [List.append_nil] at hp

end Store

end Engagement
