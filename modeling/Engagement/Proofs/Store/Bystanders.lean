import Engagement.Proofs.Store.Writes

/-! # Journeys that a write passes by

Putting or completing a journey leaves the others where they are, in the mirror, in the ledger and
in storage, whatever becomes of the writes.
-/

namespace Engagement

variable {j : Journey} {id : JourneyId}

theorem filter_upsert_of_ne (other : j.id ≠ id) (l : List Journey) :
    (upsert j l).filter (·.id = id) = l.filter (·.id = id) := by
  induction l with
  | nil => simp [upsert, other]
  | cons known rest ih =>
    by_cases same : known.id = j.id
    · have known_other : known.id ≠ id := same ▸ other
      simp [upsert, same, other]
    · simp only [upsert, same, if_false, List.filter_cons, ih]

theorem filter_without_of_ne (other : j.id ≠ id) (l : List Journey) :
    (without j.id l).filter (·.id = id) = l.filter (·.id = id) := by
  unfold without
  rw [List.filter_filter]
  refine List.filter_congr fun k _ => ?_
  by_cases here : k.id = id
  · simp [here, other.symm]
  · simp [here]

theorem filter_record_of_ne (other : j.id ≠ id) (l : List Completion) :
    (l ++ [Completion.ofJourney j]).filter (·.journeyId = id) = l.filter (·.journeyId = id) := by
  have elsewhere : (Completion.ofJourney j).journeyId ≠ id := other
  simp [elsewhere]

namespace Store

variable {store store' store'' : Store}

/-- What the store and its storage hold of a journey stays. -/
structure Spares (id : JourneyId) (store store' : Store) : Prop where
  active : store'.active.filter (·.id = id) = store.active.filter (·.id = id)
  records : store'.ledger.filter (·.journeyId = id) = store.ledger.filter (·.journeyId = id)
  stored : store'.durable.journeys.filter (·.id = id) =
    store.durable.journeys.filter (·.id = id)
  storedRecords : store'.durable.ledger.filter (·.journeyId = id) =
    store.durable.ledger.filter (·.journeyId = id)

namespace Spares

theorem refl (id : JourneyId) (store : Store) : Spares id store store := ⟨rfl, rfl, rfl, rfl⟩

theorem trans (h : Spares id store store') (h' : Spares id store' store'') :
    Spares id store store'' :=
  ⟨h'.active.trans h.active, h'.records.trans h.records, h'.stored.trans h.stored,
    h'.storedRecords.trans h.storedRecords⟩

/-- The entry of the journey in the mirror is among what stays. -/
theorem get?_eq (h : Spares id store store') : store'.get? id = store.get? id := by
  simp only [get?, ← List.head?_filter]
  rw [h.active]

end Spares

theorem Puts.spares (puts : store.Puts j store') (other : j.id ≠ id) : Spares id store store' := by
  refine ⟨?_, by rw [puts.ledger], ?_, by rw [puts.durable]; rfl⟩
  · rw [puts.active]
    exact filter_upsert_of_ne other _
  · rw [puts.durable]
    exact filter_upsert_of_ne other _

theorem Completes.spares (completes : store.Completes j store') (other : j.id ≠ id) :
    Spares id store store' := by
  have held : store'.active.filter (·.id = id) = store.active.filter (·.id = id) := by
    rw [completes.active]
    exact filter_without_of_ne other _
  have recorded : store'.ledger.filter (·.journeyId = id) =
      store.ledger.filter (·.journeyId = id) := by
    rw [completes.ledger]
    exact filter_record_of_ne other _
  refine ⟨held, recorded, ?_, ?_⟩
  · rcases completes.durable with hd | hd | hd <;> rw [hd]
    · exact filter_without_of_ne other _
    · exact filter_upsert_of_ne other _
  · rcases completes.durable with hd | hd | hd <;> rw [hd]
    · exact filter_record_of_ne other _
    · rfl

end Store

end Engagement
