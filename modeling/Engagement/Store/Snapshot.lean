import Engagement.Completion
import Engagement.Json.Reader
import Engagement.Json.Writer

/-! # Snapshots

What durable storage holds: the journeys that have not ended, in the order in which they were
first put, and the ledger of those that have. The two writes of the engine act on it; each is all
or nothing. A document may list two journeys under one id; storage in memory cannot.
-/

namespace Engagement

structure Snapshot where
  journeys : List Journey
  ledger : List Completion

/-- A change of durable storage. -/
inductive Write where
  | put (journey : Journey)
  /-- Takes a journey out and keeps its record, at once. -/
  | complete (id : JourneyId) (record : Completion)

namespace Write

def name : Write → String
  | .put _ => "put_journey"
  | .complete .. => "complete_journey"

end Write

/-- Puts a journey in the place of the one with its id, or else last. -/
def upsert (journey : Journey) : List Journey → List Journey
  | [] => [journey]
  | known :: rest =>
    if known.id = journey.id then journey :: rest else known :: upsert journey rest

/-- The journeys but for those with an id. -/
def without (id : JourneyId) (journeys : List Journey) : List Journey :=
  journeys.filter (·.id ≠ id)

/-- No two journeys have the same id. -/
def DistinctIds (l : List Journey) : Prop := (l.map (·.id)).Nodup

instance {l : List Journey} : Decidable (DistinctIds l) :=
  inferInstanceAs (Decidable (l.map (·.id)).Nodup)

theorem map_id_upsert (j : Journey) (l : List Journey) :
    (upsert j l).map (·.id) =
      if j.id ∈ l.map (·.id) then l.map (·.id) else l.map (·.id) ++ [j.id] := by
  induction l with
  | nil => simp [upsert]
  | cons known rest ih =>
    by_cases hid : known.id = j.id
    · simp [upsert, hid]
    · have hne : j.id ≠ known.id := Ne.symm hid
      simp only [upsert, hid, if_false, List.map_cons, ih, List.mem_cons, hne, false_or]
      split <;> rfl

namespace DistinctIds

variable {l : List Journey}

theorem filter (h : DistinctIds l) (p : Journey → Bool) : DistinctIds (l.filter p) :=
  h.sublist (List.filter_sublist.map _)

theorem upsert (h : DistinctIds l) (j : Journey) : DistinctIds (upsert j l) := by
  unfold DistinctIds
  rw [map_id_upsert]
  split
  · exact h
  · rename_i hj
    exact List.nodup_append.mpr ⟨h, by simp, by
      rintro a ha b hb rfl
      exact hj (List.mem_singleton.mp hb ▸ ha)⟩

theorem without (h : DistinctIds l) (id : JourneyId) : DistinctIds (without id l) := h.filter _

end DistinctIds

namespace Snapshot

def empty : Snapshot := ⟨[], []⟩

def apply (snapshot : Snapshot) : Write → Snapshot
  | .put journey => { snapshot with journeys := upsert journey snapshot.journeys }
  | .complete id record => ⟨without id snapshot.journeys, snapshot.ledger ++ [record]⟩

def encode (snapshot : Snapshot) : Json :=
  Json.record [("journeys", .array (snapshot.journeys.map Journey.encode)),
    ("ledger", .array (snapshot.ledger.map Completion.encode))]

def decode? (j : Json) : Option Snapshot := do
  let slots ← j.slots? ["journeys", "ledger"]
  some ⟨← slots.withDefault "journeys" (Json.asList? Journey.decode?) [],
    ← slots.withDefault "ledger" (Json.asList? Completion.decode?) []⟩

def text (snapshot : Snapshot) : String := snapshot.encode.pretty 0

def ofText? : String → Option Snapshot := Json.readAs? decode?

end Snapshot

/-- What storage in memory holds: one journey per id. -/
structure Holdings extends Snapshot where
  distinct : DistinctIds journeys := by decide

namespace Holdings

instance : Coe Holdings Snapshot := ⟨toSnapshot⟩

def empty : Holdings := { Snapshot.empty with }

/-- Journeys that were put one after the other, and a ledger. -/
def ofSnapshot (snapshot : Snapshot) : Holdings where
  journeys := snapshot.journeys.foldl (fun held j => upsert j held) []
  ledger := snapshot.ledger
  distinct := List.foldlRecOn _ _ (by decide) fun _ held _ _ => held.upsert _

theorem distinct_apply (held : Holdings) : ∀ w, DistinctIds (held.toSnapshot.apply w).journeys
  | .put journey => held.distinct.upsert journey
  | .complete id _ => held.distinct.without id

def apply (held : Holdings) (w : Write) : Holdings :=
  { held.toSnapshot.apply w with distinct := held.distinct_apply w }

@[simp] theorem toSnapshot_apply (held : Holdings) (w : Write) :
    (held.apply w).toSnapshot = held.toSnapshot.apply w := rfl

end Holdings

end Engagement
