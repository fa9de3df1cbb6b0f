import Engagement.Proofs.Store.Writes

/-! # Recovery of the store

When the engine comes up, the journeys under way are those that storage holds and that have not
ended. The others get their record in the ledger.
-/

namespace Engagement

namespace Store

variable {store : Store} {snapshot : Snapshot}

theorem foldl_complete_ledger (l : List Journey) (store : Store) :
    (l.foldl (fun store j => (store.complete j).1) store).ledger =
      store.ledger ++ l.map Completion.ofJourney := by
  induction l generalizing store with
  | nil => simp
  | cons j l ih =>
    rw [List.foldl_cons, ih, (completes_complete store j).ledger]
    simp

theorem foldl_complete_active_sublist (l : List Journey) (store : Store) :
    (l.foldl (fun store j => (store.complete j).1) store).active.Sublist store.active := by
  induction l generalizing store with
  | nil => exact .refl _
  | cons j l ih =>
    apply (ih _).trans
    rw [(completes_complete store j).active]
    exact List.filter_sublist

theorem foldl_complete_active (l : List Journey) (store : Store)
    (h : ∀ j ∈ l, ∀ k ∈ store.active, k.id ≠ j.id) :
    (l.foldl (fun store j => (store.complete j).1) store).active = store.active := by
  induction l generalizing store with
  | nil => rfl
  | cons j l ih =>
    have ha : (store.complete j).1.active = store.active :=
      (completes_complete store j).active.trans (without_of_not_mem (h j (by simp)))
    rw [List.foldl_cons, ih _ (by rw [ha]; exact fun k hk => h k (by simp [hk])), ha]

theorem recovered_ledger (h : store.backend.load.2 = .ok snapshot) :
    store.recovered.ledger = snapshot.ledger ++
      (snapshot.journeys.filter Journey.isTerminal).map Completion.ofJourney := by
  rw [recovered_of_load h]
  exact foldl_complete_ledger _ _

theorem recovered_active_sublist (h : store.backend.load.2 = .ok snapshot) :
    store.recovered.active.Sublist
      ((snapshot.journeys.filter (!·.isTerminal)).foldl (fun held j => upsert j held) []) := by
  rw [recovered_of_load h]
  exact foldl_complete_active_sublist _ _

theorem recovered_active (h : store.backend.load.2 = .ok snapshot)
    (distinct : DistinctIds snapshot.journeys) :
    store.recovered.active = snapshot.journeys.filter (!·.isTerminal) := by
  have ht : (store.takenOver snapshot).active = _ := takenOver_active distinct
  rw [recovered_of_load h, foldl_complete_active, ht]
  intro j hj k hk he
  rw [ht] at hk
  obtain ⟨hj, hjt⟩ := List.mem_filter.mp hj
  obtain ⟨hk, hkt⟩ := List.mem_filter.mp hk
  obtain rfl := distinct.eq_of_id hk hj he
  simp [hjt] at hkt

theorem foldl_upsert_distinct (l held : List Journey) (h : DistinctIds held) :
    DistinctIds (l.foldl (fun held j => upsert j held) held) := by
  induction l generalizing held with
  | nil => exact h
  | cons j l ih => exact ih _ (h.upsert j)

theorem mem_foldl_upsert {l held : List Journey} {j : Journey}
    (h : j ∈ l.foldl (fun held j => upsert j held) held) : j ∈ l ∨ j ∈ held := by
  induction l generalizing held with
  | nil => exact .inr h
  | cons k l ih =>
    rcases ih h with h | h
    · exact .inl (List.mem_cons_of_mem _ h)
    · rcases mem_of_mem_upsert h with rfl | h
      · exact .inl (List.mem_cons_self ..)
      · exact .inr h

/-- Whatever storage holds, the journeys recovered have distinct ids. -/
theorem recovered_distinct (h : store.backend.load.2 = .ok snapshot) :
    DistinctIds store.recovered.active :=
  (foldl_upsert_distinct _ [] (by simp [DistinctIds])).sublist ((recovered_active_sublist h).map _)

theorem mem_of_mem_recovered {j : Journey} (h : store.backend.load.2 = .ok snapshot)
    (hj : j ∈ store.recovered.active) : j ∈ snapshot.journeys ∧ j.isTerminal = false := by
  rcases mem_foldl_upsert ((recovered_active_sublist h).subset hj) with hj | hj
  · simpa using List.mem_filter.mp hj
  · simp at hj

end Store

end Engagement
