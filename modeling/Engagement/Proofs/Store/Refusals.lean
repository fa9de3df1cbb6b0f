import Engagement.Proofs.Journey.Transitions
import Engagement.Proofs.Store.Writes

/-! # Completions that are refused

A completion may take two writes: the move to the ledger, and, if that fails, the journey as it
ended. Each is tried as often as the policy says, and both draw on the same refusals. How many there
are decides what is in storage afterwards; what it held of others stays.
-/

namespace Engagement

theorem DistinctIds.filter_id {j : Journey} {l : List Journey} (h : DistinctIds l) (hj : j ∈ l) :
    l.filter (·.id = j.id) = [j] := by
  induction l with
  | nil => cases hj
  | cons k l ih =>
    rcases List.mem_cons.mp hj with rfl | hj
    · have none_more : l.filter (·.id = j.id) = [] :=
        List.filter_eq_nil_iff.mpr fun k hk => by simpa using h.head_ne hk
      simp [none_more]
    · have hne : k.id ≠ j.id := fun he => h.head_ne hj he.symm
      simp [hne, ih h.tail hj]

namespace Backend

variable {k extra : Nat} {w : Write}

/-- Storage in memory that refuses the next `k` writes. -/
def faltering (held : Holdings) (k : Nat) : Backend := .memory held (.replicate k true)

@[simp] theorem durable_faltering (held : Holdings) (k : Nat) :
    (faltering held k).durable = held := rfl

theorem write_refused (held : Holdings) (k : Nat) (w : Write) :
    (faltering held (k + 1)).write w = (faltering held k, .error .writeRefused) := rfl

theorem retry_of_ok {b after : Backend} (backoff n extra : Nat) (h : b.write w = (after, .ok ())) :
    b.retry backoff w n extra = (after, 0, .ok ()) := by
  rw [retry.eq_def]
  dsimp only
  rw [h]

/-- A write gets through if there are more attempts than refusals. -/
theorem retry_of_le (held : Holdings) (w : Write) (h : k ≤ extra) (backoff n : Nat) :
    ∃ waited, (faltering held k).retry backoff w n extra =
      (faltering (held.apply w) 0, waited, .ok ()) := by
  induction k generalizing n extra with
  | zero => exact ⟨0, retry_of_ok backoff n extra rfl⟩
  | succ k ih =>
    obtain ⟨extra, rfl⟩ := Nat.exists_eq_add_one.mpr (Nat.lt_of_lt_of_le k.succ_pos h)
    obtain ⟨waited, he⟩ := ih (Nat.le_of_succ_le_succ h) (n + 1)
    exact ⟨_, by rw [retry_of_error backoff n extra (write_refused held k w), he]⟩

/-- A write that is refused in every attempt changes nothing. -/
theorem retry_of_lt (held : Holdings) (w : Write) (h : extra < k) (backoff n : Nat) :
    ∃ waited, (faltering held k).retry backoff w n extra =
      (faltering held (k - (extra + 1)), waited, .error .writeRefused) := by
  obtain ⟨k, rfl⟩ := Nat.exists_eq_add_one.mpr (Nat.lt_of_le_of_lt extra.zero_le h)
  induction extra generalizing k n with
  | zero =>
    rw [retry.eq_def]
    exact ⟨0, rfl⟩
  | succ extra ih =>
    have more : extra < k := Nat.lt_of_succ_lt_succ h
    obtain ⟨k, rfl⟩ := Nat.exists_eq_add_one.mpr (Nat.lt_of_le_of_lt extra.zero_le more)
    obtain ⟨waited, he⟩ := ih (n + 1) k more
    have left : k + 1 + 1 - (extra + 1 + 1) = k + 1 - (extra + 1) := by omega
    exact ⟨_, by rw [retry_of_error backoff n extra (write_refused held (k + 1) w), he, left]⟩

end Backend

namespace Store

variable {store : Store} {held : Holdings} {ended : Journey} {k : Nat}

theorem write_of_lt (storage : store.backend = .faltering held k) (h : k < store.attempts)
    (w : Write) :
    (store.write w).1.backend = .faltering (held.apply w) 0 ∧ (store.write w).2 = .ok () := by
  obtain ⟨waited, he⟩ := Backend.retry_of_le held w (Nat.le_sub_one_of_lt h)
    store.retry.backoff 1
  simp [write, storage, he]

theorem write_of_le (storage : store.backend = .faltering held k) (h : store.attempts ≤ k)
    (w : Write) :
    (store.write w).1.backend = .faltering held (k - store.attempts) ∧
      (store.write w).2 = .error (.writeFailed w.name store.attempts .writeRefused) := by
  have once : 1 ≤ store.attempts := Nat.le_max_left 1 _
  obtain ⟨waited, he⟩ := Backend.retry_of_lt held w
    (show store.attempts - 1 < k by omega) store.retry.backoff 1
  simp [write, storage, he, Nat.sub_add_cancel once]

/-- With attempts to spare the journey moves to the ledger; the other write is not tried. -/
theorem complete_of_lt (ended : Journey) (storage : store.backend = .faltering held k)
    (h : k < store.attempts) :
    (store.complete ended).2 = .ok (.ofJourney ended) ∧
      (store.complete ended).1.backend =
        .faltering (held.apply (.complete ended.id (.ofJourney ended))) 0 := by
  obtain ⟨after, moved⟩ := (store.filed ended).write_of_lt storage h
    (.complete ended.id (.ofJourney ended))
  rw [complete_of_ok (Prod.ext rfl moved)]
  exact ⟨rfl, after⟩

theorem complete_of_le (ended : Journey) (storage : store.backend = .faltering held k)
    (h : store.attempts ≤ k) :
    (store.complete ended).2 =
        .error (.writeFailed "complete_journey" store.attempts .writeRefused) ∧
      (store.complete ended).1.backend =
        if k < 2 * store.attempts then .faltering (held.apply (.put ended)) 0
        else .faltering held (k - 2 * store.attempts) := by
  obtain ⟨after, refused⟩ := (store.filed ended).write_of_le storage h
    (.complete ended.id (.ofJourney ended))
  rw [complete_of_error (Prod.ext rfl refused)]
  refine ⟨rfl, ?_⟩
  split
  · exact (write_of_lt after (show k - store.attempts < store.attempts by omega) (.put ended)).1
  · have more : store.attempts ≤ k - store.attempts := by omega
    have left : k - 2 * store.attempts = k - store.attempts - store.attempts := by omega
    rw [left]
    exact (write_of_le after more (.put ended)).1

/-- Storage keeps the other journeys and the records from before, whatever becomes of the writes. -/
theorem Completes.others {after : Store} (completes : store.Completes ended after) :
    without ended.id after.durable.journeys = without ended.id store.durable.journeys ∧
      store.durable.ledger <+: after.durable.ledger := by
  rcases completes.durable with he | he | he <;> rw [he]
  · exact ⟨by simp [Snapshot.apply, without], List.prefix_append _ _⟩
  · exact ⟨without_upsert ended _, List.prefix_refl _⟩
  · exact ⟨rfl, List.prefix_refl _⟩

/-- A store that takes over storage with an ended journey in it finds it stranded. -/
theorem load_of_stored (stored : ended ∈ held.journeys)
    (terminal : ended.isTerminal = true) (storage : store.backend = .faltering held k) :
    ∃ stranded, store.load.2 = .ok stranded ∧ ended ∈ stranded ∧
      ∀ j ∈ store.load.1.active, j.id ≠ ended.id := by
  have loads : store.backend.load.2 = .ok held := by rw [storage]; rfl
  rw [load_of_ok loads]
  refine ⟨_, rfl, List.mem_filter.mpr ⟨stored, terminal⟩, fun j hj same => ?_⟩
  rw [takenOver_active held.distinct, List.mem_filter] at hj
  obtain rfl := held.distinct.eq_of_id hj.1 stored same
  simp [terminal] at hj

/-- A completion in front of storage that refuses the next `k` writes, where every write is tried `n`
times. In the mirror the journey is gone and its record appended, whatever becomes of the writes. With
fewer refusals than attempts the same holds of storage. With fewer than twice as many storage has the
journey as it ended and no record, and whatever store takes it over finds the journey stranded. With
more of them storage is as it was. The other journeys and the records from before stay where they
are. -/
theorem completion_outcome (terminal : ended.isTerminal = true)
    (storage : store.backend = .faltering held k) :
    let record := Completion.ofJourney ended
    let n := max 1 store.retry.attempts
    let after := (store.complete ended).1
    let result := (store.complete ended).2
    let refused := Fault.writeFailed "complete_journey" n .writeRefused
    (after.active = without ended.id store.active ∧ after.ledger = store.ledger ++ [record]) ∧
    (k < n → result = .ok record ∧
      after.durable = ⟨without ended.id held.journeys, held.ledger ++ [record]⟩) ∧
    (n ≤ k → k < 2 * n → result = .error refused ∧ after.durable.ledger = held.ledger ∧
      after.durable.journeys.filter (·.id = ended.id) = [ended] ∧
      ∀ next : Store, next.backend = after.backend → ∃ stranded, next.load.2 = .ok stranded ∧
        ended ∈ stranded ∧ ∀ j ∈ next.load.1.active, j.id ≠ ended.id) ∧
    (2 * n ≤ k → result = .error refused ∧ after.durable = held) ∧
    without ended.id after.durable.journeys = without ended.id held.journeys ∧
    held.ledger <+: after.durable.ledger := by
  intro record n after result refused
  have completes : store.Completes ended after := completes_complete store ended
  have before : store.durable = held := congrArg Backend.durable storage
  refine ⟨⟨completes.active, completes.ledger⟩, fun few => ?_, fun some_left few_left => ?_,
    fun many => ?_, before ▸ completes.others⟩
  · obtain ⟨moved, stored⟩ := complete_of_lt ended storage few
    exact ⟨moved, congrArg Backend.durable stored⟩
  · obtain ⟨failed, stored⟩ := complete_of_le ended storage some_left
    have stored := stored.trans (if_pos few_left)
    have put : after.durable = held.apply (.put ended) := congrArg Backend.durable stored
    have mem : ended ∈ upsert ended held.journeys := mem_upsert_self ended held.journeys
    rw [put]
    exact ⟨failed, rfl, (held.distinct.upsert ended).filter_id mem, fun next same =>
      load_of_stored mem terminal (same.trans stored)⟩
  · obtain ⟨failed, stored⟩ := complete_of_le ended storage (show n ≤ k by omega)
    have stored := stored.trans (if_neg (Nat.not_lt.mpr many))
    exact ⟨failed, congrArg Backend.durable stored⟩

def visit (n : Nat) : Journey :=
  .start ⟨n⟩ ⟨"greeting", "greeting", 1, .event "open" none, "bye", [], none, .never, .journeyStart,
    .once⟩ "ann" none .epoch

def stubborn (refusals : Nat) : Store :=
  Store.new (.faltering { journeys := [visit 7, visit 8], ledger := [] } refusals) ⟨3, 50⟩

/-- Four refusals use up the three attempts at the move and one of those at the journey as it
ended. -/
theorem stranded_after_four_refusals :
    let left := (visit 7).ended .completed .epoch
    let after := ((stubborn 4).complete left).1
    after.durable.ledger = [] ∧ after.durable.journeys.filter (·.id = ⟨7⟩) = [left] ∧
      without ⟨7⟩ after.durable.journeys = [visit 8] ∧
      ∃ stranded, after.reopen.load.2 = .ok stranded ∧ left ∈ stranded := by
  intro left after
  have terminal : left.isTerminal = true := by decide
  have storage : (stubborn 4).backend =
      .faltering { journeys := [visit 7, visit 8], ledger := [] } 4 := rfl
  obtain ⟨-, -, few, -, others, -⟩ := completion_outcome terminal storage
  obtain ⟨-, ledger, stored, loads⟩ := few (by decide) (by decide)
  obtain ⟨stranded, read, found, -⟩ := loads after.reopen rfl
  exact ⟨ledger, stored, others.trans rfl, stranded, read, found⟩

end Store

end Engagement
