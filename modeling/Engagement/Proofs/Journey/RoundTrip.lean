import Mathlib.Tactic.Ring
import Engagement.Completion
import Engagement.Proofs.Campaign.RoundTrip

/-! # Journeys read back

A journey and its record are read as they were written, as far as the texts of their times name the
same times.
-/

namespace Engagement

open Json (Slots)

/-! ## Times -/

/-- The text of a time reads as the time. -/
def Instant.ReadsBack (t : Instant) : Prop := Timestamp.parse? t.text = some t

namespace Instant

theorem ReadsBack.decode?_encode {t : Instant} (reads : t.ReadsBack) :
    decode? t.encode = some t := by
  unfold ReadsBack at reads
  simp [decode?, encode, Json.asString?, reads]

theorem asOption?_encode {t : Option Instant} (reads : ∀ u ∈ t, u.ReadsBack) :
    Json.asOption? decode? (Json.ofOption encode t) = some t :=
  Json.asOption?_ofOption fun u hu => ⟨by simp [encode], (reads u hu).decode?_encode⟩

end Instant

/-! ## Ids -/

namespace JourneyId

theorem digit?_digit {n : Nat} (h : n < 16) : digit? (digit n) = some n := by
  have all : ∀ n < 16, digit? (digit n) = some n := by decide
  exact all n h

theorem foldl_digits (v a k : Nat) :
    ((List.range k).reverse.map fun i => v >>> (4 * i) % 16).foldl (fun n d => n * 16 + d) a =
      a * 16 ^ k + v % 16 ^ k := by
  induction k generalizing a with
  | zero => simp [Nat.mod_one]
  | succ k ih =>
    rw [List.range_succ, List.reverse_append, List.reverse_singleton, List.singleton_append,
      List.map_cons, List.foldl_cons, ih, Nat.shiftRight_eq_div_pow, Nat.pow_mul, Nat.mod_pow_succ]
    ring

theorem mapM_digit? (l : List Nat) (h : ∀ n ∈ l, n < 16) : (l.map digit).mapM digit? = some l := by
  induction l with
  | nil => rfl
  | cons n l ih =>
    obtain ⟨hn, hl⟩ := List.forall_mem_cons.mp h
    simp [digit?_digit hn, ih hl]

/-- What the digits stand for. -/
def places (id : JourneyId) : List Nat :=
  (List.range 32).reverse.map fun i => id.value.toNat >>> (4 * i) % 16

theorem digits_eq (id : JourneyId) : id.digits = id.places.map digit := by
  rw [digits, places, List.map_map]
  rfl

theorem ofDigits?_digits (id : JourneyId) : ofDigits? id.digits = some id := by
  have length : id.digits.length = 32 := by simp [digits]
  have values : id.digits.mapM digit? = some id.places := by
    rw [digits_eq]
    refine mapM_digit? _ fun n hn => ?_
    obtain ⟨i, -, rfl⟩ := List.mem_map.mp hn
    exact Nat.mod_lt _ (by decide)
  have total : id.places.foldl (fun n d => n * 16 + d) 0 = id.value.toNat := by
    rw [places, foldl_digits, Nat.zero_mul, Nat.zero_add]
    exact Nat.mod_eq_of_lt id.value.isLt
  rw [ofDigits?, if_pos length, values]
  simp [total]

/-- Digits in five groups with hyphens between them. -/
def grouped (ds : List Char) : List Char :=
  ds.take 8 ++ '-' :: ((ds.drop 8).take 4 ++ '-' :: ((ds.drop 12).take 4 ++
    '-' :: ((ds.drop 16).take 4 ++ '-' :: (ds.drop 20).take 12)))

theorem toList_text (id : JourneyId) : id.text.toList = grouped id.digits := by
  simp [text, grouped]

theorem ofGroups?_grouped (f : Nat → Char) :
    ofGroups? (grouped ((List.range 32).reverse.map f)) =
      ofDigits? ((List.range 32).reverse.map f) := rfl

/-- An id is read as it was written. -/
theorem parse?_text (id : JourneyId) : parse? id.text = some id := by
  have length : (grouped id.digits).length = 36 := rfl
  unfold parse?
  rw [toList_text]
  dsimp only
  rw [if_neg (by omega), if_neg (by omega), if_neg (by omega), digits, ofGroups?_grouped]
  exact ofDigits?_digits id

theorem decode?_encode (id : JourneyId) : decode? id.encode = some id := by
  simp [decode?, encode, Json.asString?, parse?_text]

end JourneyId

/-! ## Reasons -/

namespace ExitReason

theorem decode?_encode (reason : ExitReason) : decode? reason.encode = some reason := by
  cases reason with
  | exitNode reason =>
    obtain ⟨rest, slots, he, hs, found⟩ :=
      Json.record_union? "type" "exit_node" [("reason", Json.ofOption .string reason)] ["reason"]
        (by simp)
    simp [encode, typed, label, decode?, he, hs, found, Slots.nullable, Slots.withDefault,
      Json.slotOf, Json.asOption?_string]
  | purchased product transaction =>
    obtain ⟨rest, slots, he, hs, found⟩ :=
      Json.record_union? "type" "purchased" [("product_id", .string product),
        ("transaction_id", Json.ofOption .string transaction)] ["product_id", "transaction_id"]
        (by simp)
    simp [encode, typed, label, decode?, he, hs, found, Slots.required, Slots.nullable,
      Slots.withDefault, Json.slotOf, Json.asString?, Json.asOption?_string]
  | errored message =>
    obtain ⟨rest, slots, he, hs, found⟩ :=
      Json.record_union? "type" "errored" [("message", .string message)] ["message"] (by simp)
    simp [encode, typed, label, decode?, he, hs, found, Slots.required, Json.slotOf,
      Json.asString?]
  | completed =>
    obtain ⟨rest, he, unit⟩ := Json.record_unit? "type" "completed" completed
    simp [encode, typed, label, decode?, he, unit]
  | goalMet =>
    obtain ⟨rest, he, unit⟩ := Json.record_unit? "type" "goal_met" goalMet
    simp [encode, typed, label, decode?, he, unit]
  | restored =>
    obtain ⟨rest, he, unit⟩ := Json.record_unit? "type" "restored" restored
    simp [encode, typed, label, decode?, he, unit]
  | noMatch =>
    obtain ⟨rest, he, unit⟩ := Json.record_unit? "type" "no_match" noMatch
    simp [encode, typed, label, decode?, he, unit]
  | waitExpired =>
    obtain ⟨rest, he, unit⟩ := Json.record_unit? "type" "wait_expired" waitExpired
    simp [encode, typed, label, decode?, he, unit]
  | campaignUnavailable =>
    obtain ⟨rest, he, unit⟩ := Json.record_unit? "type" "campaign_unavailable" campaignUnavailable
    simp [encode, typed, label, decode?, he, unit]

theorem asOption?_encode (reason : Option ExitReason) :
    Json.asOption? decode? (Json.ofOption encode reason) = some reason :=
  Json.asOption?_ofOption fun reason _ => ⟨by simp [encode, Json.record], reason.decode?_encode⟩

end ExitReason

/-! ## Journeys -/

theorem Status.decode?_name (status : Status) : decode? (.string status.name) = some status := by
  cases status <;> rfl

namespace Journey

structure InRange (journey : Journey) : Prop where
  version : journey.campaignVersion < twoTo 32
  goal : ∀ goal ∈ journey.goal, goal.InRange

/-- The times of a journey. -/
def times (journey : Journey) : List Instant :=
  [journey.enteredAt, journey.anchorAt, journey.startedAt, journey.updatedAt] ++
    journey.convertedAt.toList ++ journey.resumeAt.toList ++ journey.completedAt.toList

theorem decode?_encode {journey : Journey} (inRange : journey.InRange)
    (reads : ∀ t ∈ journey.times, t.ReadsBack) : decode? journey.encode = some journey := by
  have held : journey.encode.Holds _ := Json.record_holds (by simp)
  obtain ⟨slots, hs, found⟩ := held.all_slots?
  simp only [List.forall_mem_cons] at found
  obtain ⟨id, campaign, version, user, status, node, entered, goal, policy, anchor, converted,
    resume, context, event, started, updated, completed, reason, -⟩ := found
  simp only [times, List.mem_append, List.mem_cons, List.not_mem_nil, or_false, Option.mem_toList,
    or_imp, forall_and, forall_eq] at reads
  obtain ⟨⟨⟨⟨enteredAt, anchorAt, startedAt, updatedAt⟩, convertedAt⟩, resumeAt⟩, completedAt⟩ :=
    reads
  refine Json.bind_of_some hs ?_
  refine Json.bind_of_some (Slots.required_of id journey.id.decode?_encode) ?_
  refine Json.bind_of_some (Slots.required_of campaign rfl) ?_
  refine Json.bind_of_some (Slots.required_of version (Json.asWord32?_nat inRange.version)) ?_
  refine Json.bind_of_some (Slots.required_of user rfl) ?_
  refine Json.bind_of_some (Slots.required_of status journey.status.decode?_name) ?_
  refine Json.bind_of_some (Slots.required_of node rfl) ?_
  refine Json.bind_of_some (Slots.required_of entered enteredAt.decode?_encode) ?_
  refine Json.bind_of_some (Slots.optional_of goal (Goal.asOption?_encode inRange.goal)) ?_
  refine Json.bind_of_some (Slots.required_of policy journey.exitPolicy.decode?_name) ?_
  refine Json.bind_of_some (Slots.required_of anchor anchorAt.decode?_encode) ?_
  refine Json.bind_of_some (Slots.optional_of converted (Instant.asOption?_encode convertedAt)) ?_
  refine Json.bind_of_some (Slots.optional_of resume (Instant.asOption?_encode resumeAt)) ?_
  refine Json.bind_of_some (Slots.withDefault_of context rfl) ?_
  refine Json.bind_of_some (Slots.nullable_of event (Json.asOption?_string _)) ?_
  refine Json.bind_of_some (Slots.required_of started startedAt.decode?_encode) ?_
  refine Json.bind_of_some (Slots.required_of updated updatedAt.decode?_encode) ?_
  refine Json.bind_of_some (Slots.nullable_of completed (Instant.asOption?_encode completedAt)) ?_
  exact Json.bind_of_some (Slots.nullable_of reason (ExitReason.asOption?_encode _)) rfl

theorem yields_decode? : Json.Yields decode? InRange := by
  intro j journey h
  iterate 3 obtain ⟨_, -, h⟩ := Option.bind_eq_some_iff.mp h
  obtain ⟨version, hv, h⟩ := Option.bind_eq_some_iff.mp h
  iterate 4 obtain ⟨_, -, h⟩ := Option.bind_eq_some_iff.mp h
  obtain ⟨goal, hg, h⟩ := Option.bind_eq_some_iff.mp h
  iterate 10 obtain ⟨_, -, h⟩ := Option.bind_eq_some_iff.mp h
  cases h
  exact ⟨Json.yields_word32.required hv, Goal.yields_decode?.optional hg⟩

end Journey

/-- A record of a journey is read as it was written. -/
theorem Completion.decode?_encode {record : Completion} (reads : record.completedAt.ReadsBack) :
    decode? record.encode = some record := by
  have held : record.encode.Holds _ := Json.record_holds (by simp)
  obtain ⟨slots, hs, found⟩ := held.slots?
    ["distinct_id", "campaign_id", "journey_id", "completed_at", "exit_reason"]
  simp [decode?, hs, found, Slots.required, Json.slotOf, Json.asString?,
    JourneyId.decode?_encode, reads.decode?_encode, ExitReason.decode?_encode]

end Engagement
