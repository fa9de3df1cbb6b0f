import Mathlib.Data.List.Nodup
import Mathlib.Data.List.Perm.Basic
import Engagement.Proofs.Store.Documents
import Engagement.Store.Basic

/-! # Writes to the store

Lists of journeys are kept by id. A save puts a journey both into the mirror and, if it succeeds,
into durable storage; a completion takes it out of the mirror whatever becomes of the writes.
-/

namespace Engagement

variable {j k : Journey} {l : List Journey} {id : JourneyId}

theorem DistinctIds.eq_of_id (h : DistinctIds l) (hj : j ∈ l) (hk : k ∈ l) (hid : j.id = k.id) :
    j = k :=
  List.inj_on_of_nodup_map h hj hk hid

theorem DistinctIds.tail (h : DistinctIds (j :: l)) : DistinctIds l := (List.nodup_cons.mp h).2

theorem DistinctIds.head_ne (h : DistinctIds (j :: l)) (hk : k ∈ l) : k.id ≠ j.id := fun he =>
  (List.nodup_cons.mp h).1 (List.mem_map.mpr ⟨k, hk, he⟩)

theorem mem_upsert_self (j : Journey) (l : List Journey) : j ∈ upsert j l := by
  induction l with
  | nil => simp [upsert]
  | cons known rest ih => by_cases h : known.id = j.id <;> simp [upsert, h, ih]

theorem mem_of_mem_upsert (h : k ∈ upsert j l) : k = j ∨ k ∈ l := by
  induction l with
  | nil => simpa [upsert] using h
  | cons known rest ih =>
    by_cases hid : known.id = j.id
    · simp only [upsert, hid, if_true, List.mem_cons] at h ⊢
      tauto
    · simp only [upsert, hid, if_false, List.mem_cons] at h ⊢
      tauto

theorem mem_upsert_of_ne (h : k ∈ l) (hne : k.id ≠ j.id) : k ∈ upsert j l := by
  induction l with
  | nil => simp at h
  | cons known rest ih =>
    rcases List.mem_cons.mp h with rfl | h
    · simp [upsert, hne]
    · by_cases hid : known.id = j.id <;> simp [upsert, hid, h, ih h]

theorem id_mem_upsert (h : k ∈ l) : ∃ i ∈ upsert j l, i.id = k.id := by
  by_cases hid : k.id = j.id
  · exact ⟨j, mem_upsert_self j l, hid.symm⟩
  · exact ⟨k, mem_upsert_of_ne h hid, rfl⟩

theorem mem_upsert_iff (h : DistinctIds l) :
    k ∈ upsert j l ↔ k = j ∨ (k ∈ l ∧ k.id ≠ j.id) := by
  constructor
  · intro hk
    rcases mem_of_mem_upsert hk with rfl | hl
    · exact .inl rfl
    · by_cases hid : k.id = j.id
      · exact .inl ((h.upsert j).eq_of_id hk (mem_upsert_self j l) hid)
      · exact .inr ⟨hl, hid⟩
  · rintro (rfl | ⟨hl, hne⟩)
    · exact mem_upsert_self k l
    · exact mem_upsert_of_ne hl hne

theorem upsert_of_new (h : ∀ k ∈ l, k.id ≠ j.id) : upsert j l = l ++ [j] := by
  induction l with
  | nil => rfl
  | cons known rest ih =>
    have hid : known.id ≠ j.id := h known (by simp)
    simp only [upsert, hid, if_false, ih fun k hk => h k (by simp [hk]), List.cons_append]

@[simp] theorem mem_without : k ∈ without id l ↔ k ∈ l ∧ k.id ≠ id := by simp [without]

theorem without_upsert (j : Journey) (l : List Journey) :
    without j.id (upsert j l) = without j.id l := by
  induction l with
  | nil => simp [upsert, Engagement.without]
  | cons known rest ih =>
    unfold Engagement.without at ih ⊢
    by_cases hid : known.id = j.id
    · simp [upsert, hid]
    · rw [upsert, if_neg hid, List.filter_cons, List.filter_cons, ih]

theorem without_of_not_mem (h : ∀ k ∈ l, k.id ≠ id) : without id l = l := by
  simpa [without] using h

theorem cons_without_perm (h : DistinctIds l) (hj : j ∈ l) : (j :: without j.id l).Perm l := by
  induction l with
  | nil => simp at hj
  | cons k l ih =>
    rcases List.mem_cons.mp hj with rfl | hj
    · have hl : without j.id (j :: l) = without j.id l := by simp [Engagement.without]
      rw [hl, without_of_not_mem fun k hk => h.head_ne hk]
    · have hne : k.id ≠ j.id := fun he => h.head_ne hj he.symm
      have hc : without j.id (k :: l) = k :: without j.id l := by simp [Engagement.without, hne]
      rw [hc]
      exact (List.Perm.swap k j _).trans ((ih h.tail hj).cons k)

theorem foldl_upsert (held : List Journey) (h : DistinctIds (held ++ l)) :
    l.foldl (fun held j => upsert j held) held = held ++ l := by
  induction l generalizing held with
  | nil => simp
  | cons j l ih =>
    have hnew : ∀ k ∈ held, k.id ≠ j.id := by
      intro k hk he
      rw [DistinctIds, List.map_append] at h
      exact (List.nodup_append.mp h).2.2 _ (List.mem_map.mpr ⟨k, hk, rfl⟩) _ (by simp) he
    rw [List.foldl_cons, upsert_of_new hnew, ih _ (by simpa using h)]
    simp

/-- Replacing a journey by one that agrees with it on `p` does not change how many satisfy `p`. -/
theorem countP_upsert_of_mem (p : Journey → Bool) (h : DistinctIds l) (hk : k ∈ l)
    (hid : k.id = j.id) (hp : p k = p j) : (upsert j l).countP p = l.countP p := by
  induction l with
  | nil => simp at hk
  | cons known rest ih =>
    rcases List.mem_cons.mp hk with rfl | hk
    · simp [upsert, hid, List.countP_cons, hp]
    · have hne : known.id ≠ j.id := fun he => h.head_ne hk (hid.trans he.symm)
      simp only [upsert, hne, if_false, List.countP_cons, ih h.tail hk]

/-! ## Durable storage -/

namespace Backend

/-- What storage holds: of a document, what was last read from it or written to it. -/
def durable : Backend → Snapshot
  | .memory held _ => held
  | .file document => document.held

theorem durable_load {b : Backend} {snapshot : Snapshot} (h : b.load.2 = .ok snapshot) :
    b.load.1.durable = snapshot := by
  cases b with
  | memory held refusals => simpa [load, durable] using h
  | file document => exact Document.held_of_load h

def isMemory : Backend → Bool
  | .memory .. => true
  | .file .. => false

/-- Storage in memory answers with what it holds. -/
theorem load_of_isMemory {b : Backend} (h : b.isMemory = true) : b.load.2 = .ok b.durable := by
  cases b with
  | memory held refusals => rfl
  | file document => cases h

/-- Opening storage anew does not change what it answers. -/
theorem load_reopen (b : Backend) : b.reopen.load.2 = b.load.2 := by
  cases b with
  | memory held refusals => rfl
  | file document => exact (document.reopen.load_snd none).trans (document.load_snd none).symm

/-- A write either fails without effect or takes effect. -/
theorem durable_write (b : Backend) (w : Write) :
    (b.write w).2 = .ok () ∧ (b.write w).1.durable = b.durable.apply w ∨
      (∃ fault, (b.write w).2 = .error fault) ∧ (b.write w).1.durable = b.durable := by
  cases b with
  | memory held refusals =>
    match refusals with
    | true :: refusals => exact .inr ⟨⟨_, rfl⟩, rfl⟩
    | [] => exact .inl ⟨rfl, rfl⟩
    | false :: refusals => exact .inl ⟨rfl, rfl⟩
  | file document => exact document.held_write w

theorem retry_of_error {b after : Backend} {w : Write} {fault : Fault} (backoff n extra : Nat)
    (h : b.write w = (after, .error fault)) :
    b.retry backoff w n (extra + 1) =
      ((after.retry backoff w (n + 1) extra).1,
        backoff * n + (after.retry backoff w (n + 1) extra).2.1,
        (after.retry backoff w (n + 1) extra).2.2) := by
  rw [retry.eq_def]
  dsimp only
  rw [h]

theorem durable_retry (backoff : Nat) (w : Write) (n extra : Nat) (b : Backend) :
    (b.retry backoff w n extra).2.2 = .ok () ∧
        (b.retry backoff w n extra).1.durable = b.durable.apply w ∨
      (∃ fault, (b.retry backoff w n extra).2.2 = .error fault) ∧
        (b.retry backoff w n extra).1.durable = b.durable := by
  induction extra generalizing b n with
  | zero =>
    have hw := b.durable_write w
    rw [retry.eq_def]
    rcases h : b.write w with ⟨after, _ | _⟩ <;> simpa [h] using hw
  | succ extra ih =>
    have hw := b.durable_write w
    rcases h : b.write w with ⟨after, fault | _⟩
    · have hd : after.durable = b.durable := by simpa [h] using hw
      rw [retry_of_error backoff n extra h]
      simpa only [hd] using ih (n + 1) after
    · rw [retry.eq_def]
      simpa [h] using hw

end Backend

namespace Store

variable (store : Store)

/-- What durable storage holds under the store. -/
def durable : Snapshot := store.backend.durable

@[simp] theorem write_active (w : Write) : (store.write w).1.active = store.active := rfl

@[simp] theorem write_ledger (w : Write) : (store.write w).1.ledger = store.ledger := rfl

theorem durable_write (w : Write) :
    (store.write w).2 = .ok () ∧ (store.write w).1.durable = store.durable.apply w ∨
      (∃ fault, (store.write w).2 = .error fault) ∧
        (store.write w).1.durable = store.durable := by
  rcases store.backend.durable_retry store.retry.backoff w 1 (store.attempts - 1) with
    ⟨hr, hd⟩ | ⟨⟨fault, hr⟩, hd⟩
  · exact .inl ⟨by simp [write, hr], hd⟩
  · exact .inr ⟨⟨_, by simp [write, hr]; rfl⟩, hd⟩

/-- `after` is `store` with a journey put in its place, durably too. -/
structure Puts (store : Store) (j : Journey) (after : Store) : Prop where
  active : after.active = upsert j store.active
  ledger : after.ledger = store.ledger
  durable : after.durable = store.durable.apply (.put j)

/-- `after` is `store` with a journey moved to the ledger. Durably the journey was moved, or put as
it ended, or is as before. -/
structure Completes (store : Store) (ended : Journey) (after : Store) : Prop where
  active : after.active = without ended.id store.active
  ledger : after.ledger = store.ledger ++ [Completion.ofJourney ended]
  durable : after.durable = store.durable.apply (.complete ended.id (.ofJourney ended)) ∨
    after.durable = store.durable.apply (.put ended) ∨ after.durable = store.durable

variable {store}

theorem find?_upsert (j : Journey) (l : List Journey) (id : JourneyId) :
    (upsert j l).find? (·.id = id) = if j.id = id then some j else l.find? (·.id = id) := by
  induction l with
  | nil => by_cases hid : j.id = id <;> simp [upsert, hid]
  | cons known rest ih =>
    unfold upsert
    by_cases same : known.id = j.id
    · rw [if_pos same, List.find?_cons, List.find?_cons, same]
      by_cases hid : j.id = id <;> simp [hid]
    · rw [if_neg same, List.find?_cons, List.find?_cons, ih]
      by_cases hid : j.id = id
      · have other : known.id ≠ id := hid ▸ same
        simp [hid, other]
      · simp [hid]

theorem puts_of_save {after : Store} (h : store.save j = (after, .ok ())) : store.Puts j after := by
  have hd := durable_write { store with active := upsert j store.active } (.put j)
  unfold save at h
  rw [h] at hd
  obtain rfl : _ = after := congrArg Prod.fst h
  exact ⟨rfl, rfl, by simpa [durable] using hd⟩

theorem Puts.get?_self {after : Store} (puts : store.Puts j after) :
    after.get? j.id = some j := by
  rw [get?, puts.active, find?_upsert, if_pos rfl]

theorem of_save_error {after : Store} {fault : Fault} (h : store.save j = (after, .error fault)) :
    after.active = upsert j store.active ∧ after.ledger = store.ledger ∧
      after.durable = store.durable := by
  have hd := durable_write { store with active := upsert j store.active } (.put j)
  unfold save at h
  rw [h] at hd
  obtain rfl : _ = after := congrArg Prod.fst h
  exact ⟨rfl, rfl, by simpa [durable] using hd⟩

/-- The store with an ended journey moved to the ledger, before that is written. -/
def filed (store : Store) (ended : Journey) : Store := { store with
  active := without ended.id store.active
  ledger := store.ledger ++ [Completion.ofJourney ended] }

theorem complete_of_ok {ended : Journey} {written : Store}
    (h : (store.filed ended).write (.complete ended.id (.ofJourney ended)) = (written, .ok ())) :
    store.complete ended = (written, .ok (.ofJourney ended)) := by
  rw [filed] at h
  unfold complete
  dsimp only
  rw [h]

theorem complete_of_error {ended : Journey} {refused : Store} {fault : Fault}
    (h : (store.filed ended).write (.complete ended.id (.ofJourney ended)) =
      (refused, .error fault)) :
    store.complete ended = ((refused.write (.put ended)).1, .error fault) := by
  rw [filed] at h
  unfold complete
  dsimp only
  rw [h]

theorem completes_complete (store : Store) (ended : Journey) :
    store.Completes ended (store.complete ended).1 := by
  let held := store.filed ended
  have hc := held.durable_write (.complete ended.id (.ofJourney ended))
  rcases h : held.write (.complete ended.id (.ofJourney ended)) with ⟨written, result⟩
  have ha : written.active = held.active := congrArg (fun p => p.1.active) h.symm
  have hl : written.ledger = held.ledger := congrArg (fun p => p.1.ledger) h.symm
  rw [h] at hc
  cases result with
  | ok =>
    rw [complete_of_ok h]
    exact ⟨ha, hl, .inl (by simpa [held, filed, durable] using hc)⟩
  | error fault =>
    rw [complete_of_error h]
    have hd : written.durable = store.durable := by simpa [held, filed, durable] using hc
    refine ⟨ha, hl, .inr ?_⟩
    rcases written.durable_write (.put ended) with ⟨-, hp⟩ | ⟨-, hp⟩
    · exact .inl (hp.trans (by rw [hd]))
    · exact .inr (hp.trans hd)

/-! ## Recovery -/

/-- The store with what storage holds taken over. -/
def takenOver (store : Store) (snapshot : Snapshot) : Store := { store with
  backend := store.backend.load.1
  active := (snapshot.journeys.filter (!·.isTerminal)).foldl (fun held j => upsert j held) []
  ledger := snapshot.ledger }

theorem takenOver_active {snapshot : Snapshot} (distinct : DistinctIds snapshot.journeys) :
    (store.takenOver snapshot).active = snapshot.journeys.filter (!·.isTerminal) := by
  have hf := foldl_upsert [] (l := snapshot.journeys.filter (!·.isTerminal))
    (by simpa using distinct.filter _)
  rwa [List.nil_append] at hf

theorem load_of_ok {snapshot : Snapshot} (h : store.backend.load.2 = .ok snapshot) :
    store.load = (store.takenOver snapshot, .ok (snapshot.journeys.filter Journey.isTerminal)) := by
  unfold load
  rcases hl : store.backend.load with ⟨backend, result⟩
  obtain rfl : result = .ok snapshot := by rw [← h, hl]
  simp [takenOver, hl]

/-- The store that has taken over what storage holds and has completed the journeys found
stranded. -/
def recovered (store : Store) : Store :=
  match store.load with
  | (loaded, .ok stranded) => stranded.foldl (fun store j => (store.complete j).1) loaded
  | (loaded, .error _) => loaded

theorem recovered_of_load {snapshot : Snapshot} (h : store.backend.load.2 = .ok snapshot) :
    store.recovered = (snapshot.journeys.filter Journey.isTerminal).foldl
      (fun store j => (store.complete j).1) (store.takenOver snapshot) := by
  rw [recovered, load_of_ok h]

/-- A save that failed leaves no trace once the journey is completed. -/
theorem Completes.of_save_error {after last : Store} {fault : Fault} {ended : Journey}
    (h : store.save j = (after, .error fault)) (hid : ended.id = j.id)
    (hc : after.Completes ended last) : store.Completes ended last := by
  obtain ⟨ha, hl, hd⟩ := Store.of_save_error h
  refine ⟨?_, by rw [hc.ledger, hl], by simpa only [hd] using hc.durable⟩
  rw [hc.active, ha, hid, without_upsert]

end Store

end Engagement
