import Engagement.Proofs.Journey.Transitions
import Engagement.Proofs.Store.Recovery

/-! # Counting journeys

The journeys under way and those that have ended, of chosen campaigns and users. A journey that is
put or completed in the place of one under way leaves their sum as it is.
-/

namespace Engagement

/-- Whether a journey is in a chosen campaign and of a chosen user. -/
def Journey.fits (p : String → String → Bool) (j : Journey) : Bool := p j.campaignId j.distinctId

def Completion.fits (p : String → String → Bool) (r : Completion) : Bool :=
  p r.campaignId r.distinctId

variable {p : String → String → Bool} {j k : Journey}

theorem Journey.Continues.fits_eq (h : j.Continues k) : k.fits p = j.fits p := by
  unfold fits
  rw [h.campaignId, h.distinctId]

@[simp] theorem Completion.fits_ofJourney (j : Journey) :
    (Completion.ofJourney j).fits p = j.fits p := rfl

/-- How many journeys and records of the chosen campaigns and users storage holds. -/
def Snapshot.tally (p : String → String → Bool) (snapshot : Snapshot) : Nat :=
  snapshot.journeys.countP (·.fits p) + snapshot.ledger.countP (·.fits p)

theorem Snapshot.tally_pos {snapshot : Snapshot} : 0 < snapshot.tally p ↔
    (∃ j ∈ snapshot.journeys, j.fits p = true) ∨ ∃ r ∈ snapshot.ledger, r.fits p = true := by
  unfold tally
  rw [Nat.add_pos_iff_pos_or_pos, List.countP_pos_iff, List.countP_pos_iff]

namespace Store

variable {store store' : Store} {reason : ExitReason} {now : Instant}

/-- How many of the chosen journeys are under way. -/
def under (p : String → String → Bool) (store : Store) : Nat := store.active.countP (·.fits p)

/-- How many of the chosen journeys have ended. -/
def past (p : String → String → Bool) (store : Store) : Nat := store.ledger.countP (·.fits p)

theorem Puts.past_eq (puts : store.Puts k store') : store'.past p = store.past p := by
  unfold past
  rw [puts.ledger]

theorem Puts.under_eq (puts : store.Puts k store') (distinct : DistinctIds store.active)
    (hj : j ∈ store.active) (continues : j.Continues k) : store'.under p = store.under p := by
  unfold under
  rw [puts.active]
  exact countP_upsert_of_mem _ distinct hj continues.id.symm continues.fits_eq.symm

theorem Puts.under_new (puts : store.Puts k store') (new : ∀ i ∈ store.active, i.id ≠ k.id) :
    store'.under p = store.under p + (k.fits p).toNat := by
  unfold under
  rw [puts.active, upsert_of_new new, List.countP_append, List.countP_singleton]
  cases k.fits p <;> rfl

theorem Completes.past_eq (completes : store.Completes (k.ended reason now) store') :
    store'.past p = store.past p + (k.fits p).toNat := by
  unfold past
  rw [completes.ledger, List.countP_append, List.countP_singleton, Completion.fits_ofJourney,
    (k.continues_ended reason now).fits_eq]
  cases k.fits p <;> rfl

theorem Completes.under_eq (completes : store.Completes (k.ended reason now) store')
    (distinct : DistinctIds store.active) (hj : j ∈ store.active) (continues : j.Continues k) :
    store'.under p + (k.fits p).toNat = store.under p := by
  have hid : (k.ended reason now).id = j.id := continues.id
  have hp := (cons_without_perm distinct hj).countP_eq (·.fits p)
  rw [List.countP_cons] at hp
  unfold under
  rw [completes.active, hid, ← hp, continues.fits_eq]
  cases j.fits p <;> rfl

theorem Completes.under_new (completes : store.Completes (k.ended reason now) store')
    (new : ∀ i ∈ store.active, i.id ≠ k.id) : store'.under p = store.under p := by
  have hw : without (k.ended reason now).id store.active = store.active := without_of_not_mem new
  unfold under
  rw [completes.active, hw]

/-! ## In storage

What a write brings into storage is in the mirror or in the ledger by then. -/

theorem under_pos : 0 < store.under p ↔ ∃ j ∈ store.active, j.fits p = true := List.countP_pos_iff

theorem past_pos : 0 < store.past p ↔ ∃ r ∈ store.ledger, r.fits p = true := List.countP_pos_iff

theorem Puts.tally_pos (puts : store.Puts k store') (h : 0 < store'.durable.tally p) :
    0 < store.durable.tally p ∨ 0 < store'.under p := by
  rw [puts.durable] at h
  rcases Snapshot.tally_pos.mp h with ⟨j, hj, fits⟩ | held
  · rcases mem_of_mem_upsert hj with rfl | hj
    · exact .inr (under_pos.mpr ⟨j, puts.active ▸ mem_upsert_self j _, fits⟩)
    · exact .inl (Snapshot.tally_pos.mpr (.inl ⟨j, hj, fits⟩))
  · exact .inl (Snapshot.tally_pos.mpr (.inr held))

theorem Completes.tally_pos (completes : store.Completes k store')
    (h : 0 < store'.durable.tally p) : 0 < store.durable.tally p ∨ 0 < store'.past p := by
  have recorded : k.fits p = true → 0 < store'.past p := fun fits =>
    past_pos.mpr ⟨.ofJourney k, by simp [completes.ledger], fits⟩
  rcases completes.durable with hd | hd | hd <;> rw [hd] at h
  · rcases Snapshot.tally_pos.mp h with ⟨j, hj, fits⟩ | ⟨r, hr, fits⟩
    · exact .inl (Snapshot.tally_pos.mpr (.inl ⟨j, (mem_without.mp hj).1, fits⟩))
    · rcases List.mem_append.mp hr with hr | hr
      · exact .inl (Snapshot.tally_pos.mpr (.inr ⟨r, hr, fits⟩))
      · obtain rfl := List.mem_singleton.mp hr
        exact .inr (recorded fits)
  · rcases Snapshot.tally_pos.mp h with ⟨j, hj, fits⟩ | held
    · rcases mem_of_mem_upsert hj with rfl | hj
      · exact .inr (recorded fits)
      · exact .inl (Snapshot.tally_pos.mpr (.inl ⟨j, hj, fits⟩))
    · exact .inl (Snapshot.tally_pos.mpr (.inr held))
  · exact .inl h

/-! ## By user -/

/-- The journeys of a user. -/
def ofUser (user : String) (_campaign distinctId : String) : Bool := distinctId = user

/-- The journeys of a user in a campaign. -/
def ofPair (id user campaign distinctId : String) : Bool := campaign = id && distinctId = user

theorem activeFor_perm (store : Store) (user : String) :
    (store.activeFor user).Perm (store.active.filter (·.distinctId = user)) :=
  List.mergeSort_perm _ _

theorem under_ofUser (store : Store) (user : String) :
    store.under (ofUser user) = (store.activeFor user).length := by
  rw [(store.activeFor_perm user).length_eq, ← List.countP_eq_length_filter]
  rfl

theorem under_ofPair (store : Store) (id user : String) :
    store.under (ofPair id user) = ((store.activeFor user).filter (·.campaignId = id)).length := by
  rw [((store.activeFor_perm user).filter _).length_eq, List.filter_filter,
    ← List.countP_eq_length_filter]
  rfl

theorem past_ofPair (store : Store) (id user : String) :
    store.past (ofPair id user) = (store.ledgerFor user id).length := by
  unfold past ledgerFor
  rw [← List.countP_eq_length_filter]
  apply List.countP_congr
  intro r _
  simp [Completion.fits, ofPair, and_comm]

end Store

end Engagement
