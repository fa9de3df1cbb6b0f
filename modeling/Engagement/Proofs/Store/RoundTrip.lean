import Engagement.Proofs.Journey.RoundTrip
import Engagement.Store.Snapshot

/-! # What is stored reads back

Conditions, campaigns, journeys, records and snapshots are read as they were written, and what has
been read in any form is read as the same once it is written. The texts of the times in them have to
name the same times.
-/

namespace Engagement

open Json (Slots)

namespace Snapshot

structure InRange (snapshot : Snapshot) : Prop where
  journeys : ∀ journey ∈ snapshot.journeys, journey.InRange

/-- The times of the journeys and the records. -/
def times (snapshot : Snapshot) : List Instant :=
  snapshot.journeys.flatMap Journey.times ++ snapshot.ledger.map (·.completedAt)

theorem decode?_encode {snapshot : Snapshot} (inRange : snapshot.InRange)
    (reads : ∀ t ∈ snapshot.times, t.ReadsBack) : decode? snapshot.encode = some snapshot := by
  have held : snapshot.encode.Holds _ := Json.record_holds (by simp)
  obtain ⟨slots, hs, found⟩ := held.slots? ["journeys", "ledger"]
  have journeys := Json.asList?_map fun journey hj =>
    Journey.decode?_encode (inRange.journeys journey hj) fun t ht =>
      reads t (List.mem_append_left _ (List.mem_flatMap.mpr ⟨journey, hj, ht⟩))
  have ledger := Json.asList?_map (l := snapshot.ledger) fun record hr =>
    Completion.decode?_encode (reads _ (List.mem_append_right _ (List.mem_map_of_mem hr)))
  simp [decode?, hs, found, Slots.withDefault, Json.slotOf, journeys, ledger]

theorem yields_decode? : Json.Yields decode? InRange := by
  intro j snapshot h
  simp only [decode?, Option.bind_eq_bind, Option.bind_eq_some_iff] at h
  obtain ⟨_, -, journeys, hj, _, -, ⟨⟩⟩ := h
  exact ⟨Journey.yields_decode?.list.withDefault hj (by simp)⟩

end Snapshot

/-- What is written reads back, and so does what has been read, if the texts of all times in it
do. -/
structure RoundTrips {α : Type} (encode : α → Json) (decode? : Json → Option α)
    (InRange : α → Prop) (times : α → List Instant) : Prop where
  written : ∀ a, InRange a → (∀ t ∈ times a, t.ReadsBack) → decode? (encode a) = some a
  read : ∀ j a, decode? j = some a → (∀ t ∈ times a, t.ReadsBack) → decode? (encode a) = some a

theorem RoundTrips.of_yields {α : Type} {encode : α → Json} {decode? : Json → Option α}
    {InRange : α → Prop} {times : α → List Instant}
    (written : ∀ a, InRange a → (∀ t ∈ times a, t.ReadsBack) → decode? (encode a) = some a)
    (yields : Json.Yields decode? InRange) : RoundTrips encode decode? InRange times :=
  ⟨written, fun j a h => written a (yields j a h)⟩

/-- Envelopes, campaigns, journeys, records and snapshots whose numbers have the width of their
fields are read as they were written. What is read of any value, as objects or arrays, with fields
left out or unknown, is read as the same after it has been written. -/
theorem formats_round_trip :
    RoundTrips Envelope.encode Envelope.decode? Envelope.InRange (fun _ => []) ∧
    RoundTrips Campaign.encode Campaign.decode? Campaign.InRange (fun _ => []) ∧
    RoundTrips Journey.encode Journey.decode? Journey.InRange Journey.times ∧
    RoundTrips Completion.encode Completion.decode? (fun _ => True) (fun r => [r.completedAt]) ∧
    RoundTrips Snapshot.encode Snapshot.decode? Snapshot.InRange Snapshot.times := by
  refine ⟨?_, ?_, ?_, ?_, ?_⟩
  · exact .of_yields (fun _ inRange _ => Envelope.decode?_encode inRange) Envelope.yields_decode?
  · exact .of_yields (fun _ inRange _ => Campaign.decode?_encode inRange) Campaign.yields_decode?
  · exact .of_yields (fun _ inRange reads => Journey.decode?_encode inRange reads)
      Journey.yields_decode?
  · exact .of_yields (fun _ _ reads => Completion.decode?_encode (reads _ (.head _)))
      fun _ _ _ => trivial
  · exact .of_yields (fun _ inRange reads => Snapshot.decode?_encode inRange reads)
      Snapshot.yields_decode?

/-- A campaign that wants two taps within a minute, beside a profile of a certain shape. -/
def wanting : Campaign where
  id := "wanting"
  name := "Wanting"
  version := 3
  trigger := .event "open" none
  entry := "ask"
  nodes :=
    [⟨"ask", ["end"], .callHost "ask" (.object [("why", .array [.int 1, .null])])⟩,
      ⟨"end", [], .exit none⟩]
  goal := some ⟨.attribute, none, none, some ⟨1, .and
    [.compare .equals (.userProperty "profile") (.literal (.object [("tags", .array [])])),
      .compare .greaterThanOrEqual (.eventCount "tap" (some 60)) (.literal (.int 2))]⟩, some (-1)⟩
  exitPolicy := .onGoalMet
  anchor := .journeyStart
  reentry := .cooldown 86400

theorem wanting_goal_inRange : ∀ goal ∈ wanting.goal, goal.InRange := by
  have leaf {e : Expr} (parts : e.parts = []) (window : ∀ w ∈ e.window?, w < twoTo 64) :
      e.InRange := Expr.inRange_iff.mpr ⟨window, by simp [parts]⟩
  have node {e : Expr} (window : e.window? = none) (parts : ∀ arg ∈ e.parts, arg.InRange) :
      e.InRange := Expr.inRange_iff.mpr ⟨by simp [window], parts⟩
  rintro _ ⟨⟩
  refine ⟨?_, by simp⟩
  rintro _ ⟨⟩
  refine ⟨by decide, node rfl ?_⟩
  simp only [Expr.parts, List.forall_mem_cons]
  refine ⟨node rfl ?_, node rfl ?_, by simp⟩ <;> simp only [Expr.parts, List.forall_mem_cons]
  · exact ⟨leaf rfl (by simp [Expr.window?]), leaf rfl (by simp [Expr.window?]), by simp⟩
  · exact ⟨leaf rfl (by simp [Expr.window?]), leaf rfl (by simp [Expr.window?]), by simp⟩

/-- A journey in the campaign has begun, and another one has ended. -/
def wanted : Snapshot where
  journeys := [.start ⟨7⟩ wanting "ann" none .epoch]
  ledger := [⟨"bob", "wanting", ⟨8⟩, .epoch, .exitNode none⟩]

theorem epoch_readsBack : Instant.epoch.ReadsBack := by
  unfold Instant.ReadsBack
  decide +kernel

theorem wanted_reads_back :
    Campaign.decode? wanting.encode = some wanting ∧
    Snapshot.decode? wanted.encode = some wanted ∧
    Envelope.decode? (.array [.int 1, .object [("args", .null), ("op", .string "nand")]]) =
      some ⟨1, .unsupported⟩ ∧
    Envelope.decode? (Envelope.encode ⟨1, .unsupported⟩) = some ⟨1, .unsupported⟩ := by
  have inRange : wanting.InRange := by
    refine ⟨by decide, by simp [wanting, Trigger.InRange], ?_, wanting_goal_inRange, ?_⟩
    · simp [wanting, Action.InRange]
    · change 86400 < twoTo 64
      decide
  have stored : wanted.InRange := by
    refine ⟨fun journey hj => ?_⟩
    obtain rfl := List.mem_singleton.mp hj
    exact ⟨inRange.version, inRange.goal⟩
  have times : ∀ t ∈ wanted.times, t = .epoch := by
    simp [wanted, Snapshot.times, Journey.times, Journey.start, wanting]
  have unknown : Envelope.decode?
      (.array [.int 1, .object [("args", .null), ("op", .string "nand")]]) =
    some ⟨1, .unsupported⟩ := by rfl
  obtain ⟨envelopes, campaigns, -, -, snapshots⟩ := formats_round_trip
  exact ⟨campaigns.written _ inRange (by simp),
    snapshots.written _ stored fun t ht => times t ht ▸ epoch_readsBack,
    unknown, envelopes.read _ _ unknown (by simp)⟩

end Engagement
