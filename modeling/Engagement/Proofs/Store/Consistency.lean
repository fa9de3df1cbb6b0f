import Engagement.Proofs.Store.Recovery

/-! # Storage agrees with the mirror

The mirror changes before storage does, and writes may fail. What storage holds agrees with the
mirror all the same, whether a journey is put, completed or recovered.
-/

namespace Engagement

namespace Store

variable {store store' : Store} {owed : List Journey} {j : Journey}

/-- Storage agrees with the mirror, but for journeys whose record is still owed. -/
structure Consistent (owed : List Journey) (store : Store) : Prop where
  stored : ∀ j ∈ store.active, j ∈ store.durable.journeys
  recorded : store.durable.ledger.Sublist store.ledger
  settled : ∀ j ∈ store.durable.journeys,
    j ∈ store.active ∨ (∃ r ∈ store.ledger, r.journeyId = j.id) ∨ j ∈ owed
  distinct : DistinctIds store.durable.journeys

theorem Consistent.of_eq (h : store.Consistent owed) (active : store'.active = store.active)
    (ledger : store'.ledger = store.ledger) (durable : store'.durable = store.durable) :
    store'.Consistent owed := by
  refine ⟨?_, ?_, ?_, ?_⟩ <;> simp only [active, ledger, durable]
  exacts [h.stored, h.recorded, h.settled, h.distinct]

theorem Consistent.puts (h : store.Consistent owed) (distinct : DistinctIds store.active)
    (puts : store.Puts j store') : store'.Consistent owed := by
  have hd : store'.durable.journeys = upsert j store.durable.journeys := by rw [puts.durable]; rfl
  have hl : store'.durable.ledger = store.durable.ledger := by rw [puts.durable]; rfl
  refine ⟨?_, ?_, ?_, hd ▸ h.distinct.upsert j⟩
  · intro k hk
    rw [puts.active, mem_upsert_iff distinct] at hk
    rw [hd, mem_upsert_iff h.distinct]
    exact hk.imp_right fun ⟨hk, hne⟩ => ⟨h.stored k hk, hne⟩
  · rw [hl, puts.ledger]
    exact h.recorded
  · intro k hk
    rw [hd, mem_upsert_iff h.distinct] at hk
    rw [puts.active, mem_upsert_iff distinct, puts.ledger]
    rcases hk with rfl | ⟨hk, hne⟩
    · exact .inl (.inl rfl)
    · exact (h.settled k hk).imp_left fun hk => .inr ⟨hk, hne⟩

/-- A completion pays the record of a journey, however far its writes get. -/
theorem Consistent.completes {ended : Journey} (h : store.Consistent owed)
    (completes : store.Completes ended store') :
    store'.Consistent (owed.filter (·.id ≠ ended.id)) := by
  have hr : ∃ r ∈ store'.ledger, r.journeyId = ended.id :=
    ⟨.ofJourney ended, by simp [completes.ledger], rfl⟩
  have kept : ∀ k ∈ store.durable.journeys, k.id ≠ ended.id → k ∈ store'.active ∨
      (∃ r ∈ store'.ledger, r.journeyId = k.id) ∨ k ∈ owed.filter (·.id ≠ ended.id) := by
    intro k hk hne
    rw [completes.active, mem_without, completes.ledger]
    rcases h.settled k hk with hk | ⟨r, hm, hid⟩ | hk
    · exact .inl ⟨hk, hne⟩
    · exact .inr (.inl ⟨r, List.mem_append_left _ hm, hid⟩)
    · exact .inr (.inr (List.mem_filter.mpr ⟨hk, by simpa using hne⟩))
  have pays : ∀ k ∈ store.durable.journeys, k ∈ store'.active ∨
      (∃ r ∈ store'.ledger, r.journeyId = k.id) ∨ k ∈ owed.filter (·.id ≠ ended.id) := by
    intro k hk
    by_cases hid : k.id = ended.id
    · exact .inr (.inl (hid ▸ hr))
    · exact kept k hk hid
  have grown : store.durable.ledger.Sublist store'.ledger := by
    rw [completes.ledger]
    exact h.recorded.trans (List.sublist_append_left _ _)
  have active : ∀ k ∈ store'.active, k ∈ store.durable.journeys ∧ k.id ≠ ended.id := by
    intro k hk
    rw [completes.active, mem_without] at hk
    exact ⟨h.stored k hk.1, hk.2⟩
  rcases completes.durable with hd | hd | hd
  · refine ⟨fun k hk => ?_, ?_, fun k hk => ?_, ?_⟩ <;> rw [hd] at *
    · exact mem_without.mpr (active k hk)
    · rw [completes.ledger]
      exact h.recorded.append_right _
    · obtain ⟨hk, hne⟩ := mem_without.mp hk
      exact kept k hk hne
    · exact h.distinct.without _
  · refine ⟨fun k hk => ?_, ?_, fun k hk => ?_, ?_⟩ <;> rw [hd] at *
    · exact mem_upsert_of_ne (active k hk).1 (active k hk).2
    · exact grown
    · rcases mem_of_mem_upsert hk with rfl | hk
      · exact .inr (.inl hr)
      · exact pays k hk
    · exact h.distinct.upsert _
  · refine ⟨fun k hk => ?_, ?_, fun k hk => ?_, ?_⟩ <;> rw [hd] at *
    · exact (active k hk).1
    · exact grown
    · exact pays k hk
    · exact h.distinct

/-- Completing all journeys that are owed a record leaves none owed. -/
theorem Consistent.foldl_complete (l : List Journey) (store : Store) (h : store.Consistent l) :
    (l.foldl (fun store j => (store.complete j).1) store).Consistent [] := by
  -- Journeys completed on the way may already have paid for later ones.
  suffices H : ∀ owed, (∀ j ∈ owed, j ∈ l) → store.Consistent owed →
      (l.foldl (fun store j => (store.complete j).1) store).Consistent [] from
    H l (fun _ hj => hj) h
  clear h
  induction l generalizing store with
  | nil =>
    intro owed howed h
    obtain rfl : owed = [] := List.eq_nil_iff_forall_not_mem.mpr fun j hj => by simpa using howed j hj
    exact h
  | cons k l ih =>
    intro owed howed h
    refine ih _ _ ?_ (h.completes (completes_complete store k))
    intro j hj
    obtain ⟨hj, hne⟩ := List.mem_filter.mp hj
    rcases List.mem_cons.mp (howed j hj) with rfl | hl
    · simp at hne
    · exact hl

theorem consistent_recovered {snapshot : Snapshot} (h : store.backend.load.2 = .ok snapshot)
    (distinct : DistinctIds snapshot.journeys) : store.recovered.Consistent [] := by
  rw [recovered_of_load h]
  apply Consistent.foldl_complete
  have hd : (store.takenOver snapshot).durable = snapshot := Backend.durable_load h
  have hf : (store.takenOver snapshot).active = _ := takenOver_active distinct
  refine ⟨fun j hj => ?_, ?_, fun j hj => ?_, ?_⟩ <;> simp only [hf, hd] at *
  · exact (List.mem_filter.mp hj).1
  · exact .refl _
  · by_cases ht : j.isTerminal = true
    · exact .inr (.inr (List.mem_filter.mpr ⟨hj, ht⟩))
    · exact .inl (List.mem_filter.mpr ⟨hj, by simpa using ht⟩)
  · exact distinct

end Store

end Engagement
