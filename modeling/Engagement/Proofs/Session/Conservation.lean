import Engagement.Proofs.Engine.Identity

/-! # No journey is lost

A journey that was loaded or started is under way or has one record in the ledger, never both and
never neither.
-/

namespace Engagement

namespace Store

variable {store : Store} {known : List JourneyId} {id : JourneyId}

/-- How many records a journey has. -/
def records (store : Store) (id : JourneyId) : Nat := store.ledger.countP (·.journeyId = id)

/-- An id that was accounted for once is in the mirror or has one record. -/
theorem Accounts.once (h : store.Accounts known) (distinct : DistinctIds store.active)
    (one : known.count id = 1) :
    ((∃ j ∈ store.active, j.id = id) ∧ store.records id = 0) ∨
      ((∀ j ∈ store.active, j.id ≠ id) ∧ store.records id = 1) := by
  have hc : (store.active.map (·.id)).count id + store.records id = 1 := by
    have hr : (store.ledger.map (·.journeyId)).count id = store.records id := by
      rw [List.count, List.countP_map]
      exact List.countP_congr fun r _ => by simp
    rw [← hr, ← List.count_append, h.count_eq, one]
  by_cases hm : id ∈ store.active.map (·.id)
  · have h1 := List.count_eq_one_of_mem distinct hm
    exact .inl ⟨List.mem_map.mp hm, by omega⟩
  · have h0 := List.count_eq_zero_of_not_mem hm
    exact .inr ⟨fun j hj he => hm (List.mem_map.mpr ⟨j, hj, he⟩), by omega⟩

/-- Beyond the ids of old records, the mirror holds only what came in. -/
theorem Accounts.mem_of_active {snapshot : Snapshot} {given : List JourneyId}
    (h : store.Accounts (snapshot.ids ++ given)) (old : snapshot.ledger <+: store.ledger)
    {j : Journey} (hj : j ∈ store.active) : j.id ∈ snapshot.journeys.map (·.id) ++ given := by
  by_contra hn
  rw [List.mem_append, not_or] at hn
  have hj0 := List.count_eq_zero_of_not_mem hn.1
  have hg0 := List.count_eq_zero_of_not_mem hn.2
  have ha : 0 < (store.active.map (·.id)).count j.id :=
    List.count_pos_iff.mpr (List.mem_map_of_mem hj)
  have hl := (old.sublist.map (·.journeyId)).count_le j.id
  have hc := h.count_eq j.id
  unfold Snapshot.ids at hc
  simp only [List.count_append] at hc
  omega

end Store

namespace Engine

variable {e : Engine} {snapshot : Snapshot} {n : Nat}

/-- The journeys that were loaded, and those started up to the `n`-th id. -/
def knownIds (e : Engine) (snapshot : Snapshot) (n : Nat) : List JourneyId :=
  snapshot.journeys.map (·.id) ++ e.idsUpTo n

/-- Each known id comes in once, unless there were records of loaded journeys. -/
theorem FreshIds.count_eq_one {id : JourneyId} (fresh : e.FreshIds snapshot n)
    (distinct : DistinctIds snapshot.journeys)
    (unrecorded : ∀ j ∈ snapshot.journeys, ∀ r ∈ snapshot.ledger, r.journeyId ≠ j.id)
    (h : id ∈ e.knownIds snapshot n) : (snapshot.ids ++ e.idsUpTo n).count id = 1 := by
  unfold Snapshot.ids
  rw [List.count_append, List.count_append]
  rcases List.mem_append.mp h with hl | hi
  · obtain ⟨j, hj, rfl⟩ := List.mem_map.mp hl
    have h1 := List.count_eq_one_of_mem distinct hl
    have h2 : (snapshot.ledger.map (·.journeyId)).count j.id = 0 := by
      apply List.count_eq_zero_of_not_mem
      intro hm
      obtain ⟨r, hr, he⟩ := List.mem_map.mp hm
      exact unrecorded j hj r hr he
    have h3 : (e.idsUpTo n).count j.id = 0 :=
      List.count_eq_zero_of_not_mem fun hm => fresh.new _ hm (List.mem_append_left _ hl)
    omega
  · have hn := fresh.new id hi
    have h1 : (snapshot.journeys.map (·.id)).count id = 0 :=
      List.count_eq_zero_of_not_mem fun hm => hn (List.mem_append_left _ hm)
    have h2 : (snapshot.ledger.map (·.journeyId)).count id = 0 :=
      List.count_eq_zero_of_not_mem fun hm => hn (List.mem_append_right _ hm)
    have h3 := List.count_eq_one_of_mem fresh.distinct hi
    omega

end Engine

namespace Session

open Engine

variable {e : Engine} {snapshot : Snapshot}

/-- Whatever the host does and whichever writes fail: a journey that was loaded or started is in the
mirror, has not ended and has no record, or it is not in the mirror and has one record. No other
journey is in the mirror, and the ledger only grows at its end. -/
theorem journeys_conserved (boots : e.BootsFrom snapshot)
    (distinct : DistinctIds snapshot.journeys)
    (unrecorded : ∀ j ∈ snapshot.journeys, ∀ r ∈ snapshot.ledger, r.journeyId ≠ j.id)
    (ms : List Move) (fresh : e.FreshIds snapshot (after e ms).engine.issued) :
    let engine := (after e ms).engine
    (∀ id ∈ e.knownIds snapshot engine.issued,
      ((∃ j ∈ engine.store.active, j.id = id ∧ j.isTerminal = false) ∧
        engine.store.records id = 0) ∨
      ((∀ j ∈ engine.store.active, j.id ≠ id) ∧ engine.store.records id = 1)) ∧
    DistinctIds engine.store.active ∧
    (∀ j ∈ engine.store.active, j.id ∈ e.knownIds snapshot engine.issued) ∧
    ∀ prior, prior <+: ms → (after e prior).engine.store.ledger <+: engine.store.ledger := by
  intro engine
  have sound : engine.Sound := (boots.up ms).sound
  have accounts : engine.store.Accounts (snapshot.ids ++ e.idsUpTo engine.issued) :=
    (boots.accounted distinct ms fresh).accounts
  have standing : ∀ id ∈ e.knownIds snapshot engine.issued, _ := fun id hid =>
    accounts.once sound.distinct (fresh.count_eq_one distinct unrecorded hid)
  refine ⟨?_, sound.distinct, ?_, ?_⟩
  · intro id hid
    apply (standing id hid).imp_left
    rintro ⟨⟨j, hj, he⟩, hr⟩
    exact ⟨⟨j, hj, he, sound.alive j hj⟩, hr⟩
  · intro j hj
    have old : snapshot.ledger <+: engine.store.ledger := by
      obtain ⟨campaigns, installed, evolves⟩ := boots.evolves ms
      have hr : (e.loaded campaigns installed).store.ledger = _ :=
        Store.recovered_ledger boots.held
      exact (hr ▸ List.prefix_append _ _).trans evolves.ledger_grows
    exact accounts.mem_of_active old hj
  · rintro prior ⟨rest, rfl⟩
    exact (boots.evolves_append prior rest).ledger_grows

/-- A journey that has just started is under way. -/
theorem conserved_after_start :
    let engine := (after (.inMemory .empty .epoch) (greets .once)).engine
    engine.issued = 1 ∧ ∀ j ∈ engine.store.active,
      j.id ∈ (inMemory .empty .epoch).knownIds .empty engine.issued :=
  ⟨by decide +kernel,
    (journeys_conserved (bootsFrom_inMemory .empty .epoch) (by decide) (by decide) (greets .once)
      ⟨by decide +kernel, by decide +kernel⟩).2.2.1⟩

end Session

end Engagement
