import Engagement.Host.Basic
import Engagement.Proofs.Condition.Comparisons
import Engagement.Proofs.Time.Spans

/-! # Look-ups in a window

The last and the first occurrence of an event, their number and whether there is one are looked up
in the same window, so they agree. Windows that meet count together what the whole one counts.
Conditions may ask in three ways whether an event has occurred, and get one answer.
-/

namespace Engagement

namespace EventLog

variable {log : EventLog} {since before : Option Instant} {t mid : Instant} {name user : String}

theorem inWindow_iff :
    inWindow since before t = true ↔ (∀ s ∈ since, s ≤ t) ∧ ∀ b ∈ before, t < b := by
  cases since <;> cases before <;> simp [inWindow]

/-- The part of a window before an instant up to its end. -/
theorem inWindow_early (up_to_end : ∀ b ∈ before, mid ≤ b) (t : Instant) :
    (inWindow since before t && decide (t < mid)) = inWindow since (some mid) t := by
  rw [Bool.eq_iff_iff, Bool.and_eq_true, inWindow_iff, inWindow_iff, decide_eq_true_iff]
  constructor
  · rintro ⟨⟨start, -⟩, early⟩
    exact ⟨start, by simpa using early⟩
  · rintro ⟨start, early⟩
    have early : t < mid := early mid rfl
    exact ⟨⟨start, fun b hb => Std.lt_of_lt_of_le early (up_to_end b hb)⟩, early⟩

/-- The part of a window from an instant on that is not before its start. -/
theorem inWindow_late (after_start : ∀ s ∈ since, s ≤ mid) (t : Instant) :
    (inWindow since before t && !decide (t < mid)) = inWindow (some mid) before t := by
  rw [Bool.eq_iff_iff, Bool.and_eq_true, inWindow_iff, inWindow_iff, Bool.not_eq_true',
    decide_eq_false_iff_not, Std.not_lt]
  constructor
  · rintro ⟨⟨-, ending⟩, late⟩
    exact ⟨by simpa using late, ending⟩
  · rintro ⟨late, ending⟩
    have late : mid ≤ t := late mid rfl
    exact ⟨⟨fun s hs => Std.le_trans (after_start s hs) late, ending⟩, late⟩

/-- The times of a user's occurrences of an event within a window, in a log that can be read. -/
def found (log : EventLog) (name user : String) (since before : Option Instant) : List Instant :=
  (log.occurrences.filter fun o =>
    o.name == name && o.distinctId == user && inWindow since before o.time).map (·.time)

theorem times_of_online (online : log.offline = false) (name user : String)
    (since before : Option Instant) :
    log.times name user since before = .ok (log.found name user since before) := by
  simp [times, found, online]

theorem times_of_offline (offline : log.offline = true) (name user : String)
    (since before : Option Instant) :
    log.times name user since before = .error (.unavailable "event store offline") := by
  simp [times, offline]

theorem of_mem_found (h : t ∈ log.found name user since before) :
    (∀ s ∈ since, s ≤ t) ∧ ∀ b ∈ before, t < b := by
  obtain ⟨o, ho, rfl⟩ := List.mem_map.mp h
  have here := (List.mem_filter.mp ho).2
  simp only [Bool.and_eq_true] at here
  exact inWindow_iff.mp here.2

theorem length_found_split (log : EventLog) (name user : String)
    (after_start : ∀ s ∈ since, s ≤ mid) (up_to_end : ∀ b ∈ before, mid ≤ b) :
    (log.found name user since before).length =
      (log.found name user since (some mid)).length +
        (log.found name user (some mid) before).length := by
  simp only [found, List.length_map, ← List.countP_eq_length_filter]
  rw [List.countP_eq_countP_filter_add _ _ fun o => decide (o.time < mid), List.countP_filter,
    List.countP_filter]
  simp only [Bool.and_assoc, inWindow_early up_to_end, inWindow_late after_start]

theorem last_of_online (online : log.offline = false) :
    log.last name user since before = .ok (log.found name user since before).max? := by
  rw [last, times_of_online online]
  rfl

theorem first_of_online (online : log.offline = false) :
    log.first name user since before = .ok (log.found name user since before).min? := by
  rw [first, times_of_online online]
  rfl

theorem count_of_online (online : log.offline = false) :
    log.count name user since before = .ok (log.found name user since before).length := by
  rw [count, times_of_online online]
  rfl

theorem has_of_online (online : log.offline = false) :
    log.has name user since before = .ok (log.found name user since before).max?.isSome := by
  rw [has, last_of_online online]
  rfl

end EventLog

namespace Expr

/-- Three conditions on whether an event has occurred in a window. -/
def occurrenceTests (name : String) (window : Option Nat) (value : Json) : List Expr :=
  [.eventOccurred name window,
    .compare .greaterThan (.eventCount name window) (.literal (.nat 0)),
    .compare .isSet (.eventLastTime name window) (.literal value)]

variable {name : String} {window : Option Nat} {value : Json} {e : Expr} {r : Reader}

/-- Where the number of occurrences and the last of them agree, so do the three conditions. -/
theorem truth_of_mem_occurrenceTests
    (agree : 0 < r.count name (windowStart r.now window) ↔
      (r.lastTime name (windowStart r.now window)).isSome)
    (he : e ∈ occurrenceTests name window value) :
    (e.eval r).truth = (r.lastTime name (windowStart r.now window)).isSome := by
  simp only [occurrenceTests, List.mem_cons, List.not_mem_nil, or_false] at he
  rcases he with rfl | rfl | rfl
  · rfl
  · change Operator.greaterThan.holds (.nat _) (.nat 0) = _
    rw [Operator.greaterThan_zero, Bool.eq_iff_iff, decide_eq_true_iff, agree]
  · change (!(Json.ofOption _ (r.lastTime name (windowStart r.now window))).isNull) = _
    cases r.lastTime name (windowStart r.now window) <;> rfl

/-- The three conditions are valid together. -/
theorem validate_of_mem_occurrenceTests (version : Nat)
    (he : e ∈ occurrenceTests name window value) :
    Envelope.validate ⟨version, e⟩ = Envelope.validate ⟨version, .eventOccurred name window⟩ := by
  simp only [occurrenceTests, List.mem_cons, List.not_mem_nil, or_false] at he
  rcases he with rfl | rfl | rfl
  · rfl
  all_goals
    cases window <;>
      simp [Envelope.validate, hasUnsupported, longestWindow, longer]

theorem holds_of_mem_occurrenceTests (version : Nat)
    (agree : 0 < r.count name (windowStart r.now window) ↔
      (r.lastTime name (windowStart r.now window)).isSome)
    (he : e ∈ occurrenceTests name window value) :
    Envelope.holds ⟨version, e⟩ r = Envelope.holds ⟨version, .eventOccurred name window⟩ r := by
  unfold Envelope.holds Envelope.evaluate
  rw [validate_of_mem_occurrenceTests version he]
  cases Envelope.validate ⟨version, .eventOccurred name window⟩ with
  | ok => exact truth_of_mem_occurrenceTests agree he
  | error fault => rfl

end Expr

namespace Host

variable {host : Host}

theorem guarded_of_working {α : Type} {service : Service} (working : host.fault? service = none)
    (answer : Except HostFault α) : host.guarded service answer = answer := by
  rw [guarded, working]

/-- Of a log that cannot be read, conditions learn that nothing has occurred. -/
theorem isSome_lastTime_reader (last : host.fault? .last = none) (user : String) (now : Instant)
    (event : Option Json.Fields) (name : String) (since : Option Instant) :
    ((host.reader user now event).lastTime name since).isSome =
      (host.log.has name user since none).toOption.getD false := by
  change (host.guarded .last _).toOption.join.isSome = _
  rw [guarded_of_working last]
  cases h : host.log.offline with
  | false =>
    rw [EventLog.has_of_online h, EventLog.last_of_online h]
    rfl
  | true =>
    rw [EventLog.has, EventLog.last, EventLog.times_of_offline h]
    rfl

theorem count_reader_pos_iff (last : host.fault? .last = none) (count : host.fault? .count = none)
    (user : String) (now : Instant) (event : Option Json.Fields) (name : String)
    (since : Option Instant) :
    0 < (host.reader user now event).count name since ↔
      ((host.reader user now event).lastTime name since).isSome := by
  rw [isSome_lastTime_reader last]
  change 0 < (host.guarded .count _).toOption.getD 0 ↔ _
  rw [guarded_of_working count]
  cases h : host.log.offline with
  | false =>
    rw [EventLog.has_of_online h, EventLog.count_of_online h]
    exact List.length_pos_iff.trans List.isSome_max?_iff.symm
  | true =>
    rw [EventLog.has, EventLog.last, EventLog.count, EventLog.times_of_offline h]
    exact ⟨fun h => (Nat.lt_irrefl 0 h).elim, fun h => nomatch h⟩

end Host

/-- The look-ups of a log agree with each other, and so do conditions that read them. -/
structure EventLog.Consistent (log : EventLog) : Prop where
  /-- What is counted has a last and a first occurrence, both in the window. -/
  online : log.offline = false → ∀ (name user : String) (since before : Option Instant),
    ∃ count last first has, log.count name user since before = .ok count ∧
      log.last name user since before = .ok last ∧ log.first name user since before = .ok first ∧
      log.has name user since before = .ok has ∧
      (0 < count ↔ last.isSome) ∧ (last.isSome ↔ first.isSome) ∧ (first.isSome ↔ has = true) ∧
      ∀ t ∈ first, ∀ u ∈ last, t ≤ u ∧ (∀ s ∈ since, s ≤ t ∧ s ≤ u) ∧ ∀ b ∈ before, t < b ∧ u < b
  /-- Two windows that meet count together what the whole one counts. -/
  splits : log.offline = false → ∀ (name user : String) (since before : Option Instant)
    (mid : Instant), (∀ s ∈ since, s ≤ mid) → (∀ b ∈ before, mid ≤ b) →
    ∃ early late, log.count name user since (some mid) = .ok early ∧
      log.count name user (some mid) before = .ok late ∧
      log.count name user since before = .ok (early + late)
  offline : log.offline = true → ∀ (name user : String) (since before : Option Instant),
    log.count name user since before = .error (.unavailable "event store offline") ∧
    log.last name user since before = .error (.unavailable "event store offline") ∧
    log.first name user since before = .error (.unavailable "event store offline") ∧
    log.has name user since before = .error (.unavailable "event store offline")
  /-- Three conditions ask the same, whether or not the log can be read. -/
  conditions : ∀ host : Host, host.log = log → host.fault? .last = none →
    host.fault? .count = none → ∀ (user : String) (now : Instant) (event : Option Json.Fields)
    (name : String) (window : Option Nat) (value : Json),
    ∀ e ∈ Expr.occurrenceTests name window value,
      (e.eval (host.reader user now event)).truth =
        (log.has name user (Expr.windowStart now window) none).toOption.getD false ∧
      ∀ version, Envelope.holds ⟨version, e⟩ (host.reader user now event) =
        Envelope.holds ⟨version, .eventOccurred name window⟩ (host.reader user now event)

theorem EventLog.queries_agree (log : EventLog) : log.Consistent where
  online online name user since before := by
    refine ⟨_, _, _, _, count_of_online online, last_of_online online, first_of_online online,
      has_of_online online, ?_, ?_, ?_, fun t ht u hu => ?_⟩
    · rw [List.length_pos_iff, List.isSome_max?_iff]
    · rw [List.isSome_max?_iff, List.isSome_min?_iff]
    · rw [List.isSome_max?_iff, List.isSome_min?_iff]
    · have earliest := List.min?_eq_some_iff.mp (Option.mem_def.mp ht)
      have latest := List.max?_mem (Option.mem_def.mp hu)
      obtain ⟨start, ending⟩ := of_mem_found earliest.1
      obtain ⟨start', ending'⟩ := of_mem_found latest
      exact ⟨earliest.2 u latest, fun s hs => ⟨start s hs, start' s hs⟩,
        fun b hb => ⟨ending b hb, ending' b hb⟩⟩
  splits online name user since before mid after_start up_to_end :=
    ⟨_, _, count_of_online online, count_of_online online, by
      rw [count_of_online online, length_found_split log name user after_start up_to_end]⟩
  offline offline name user since before := by
    simp [count, last, first, has, times_of_offline offline, Except.map]
  conditions host hl last count user now event name window value e he := by
    subst hl
    have agree := host.count_reader_pos_iff last count user now event name
      (Expr.windowStart now window)
    refine ⟨?_, fun version => ?_⟩
    · rw [Expr.truth_of_mem_occurrenceTests agree he]
      exact host.isSome_lastTime_reader last user now event name _
    · exact Expr.holds_of_mem_occurrenceTests version agree he

end Engagement
