import Engagement.Engine.Handle
import Engagement.Proofs.Host.Windows
import Engagement.Proofs.Journey.EventGoals

/-! # Longer spans

A span that leads beyond all instants stands for all of the past, for a limit that is not reached,
for a cooldown that does not end and for a window that stays open. Each time this is what shorter
spans tend to, so a longer span counts no fewer events, lets no limit pass earlier, admits nobody
that a shorter one keeps out and leaves every goal met.
-/

namespace Engagement

variable {seconds longer : Nat}

/-! ## Looking back -/

namespace EventLog

variable {log : EventLog} {since earlier before later : Option Instant} {name user : String}
  {t : Instant}

theorem length_found_of_earlier (le : ∀ v, earlier = some v → ∃ u, since = some u ∧ v ≤ u) :
    (log.found name user since before).length ≤ (log.found name user earlier before).length := by
  simp only [found, List.length_map, ← List.countP_eq_length_filter]
  refine List.countP_mono_left fun o _ here => ?_
  simp only [Bool.and_eq_true, inWindow_iff] at here ⊢
  obtain ⟨who, start, ending⟩ := here
  refine ⟨who, fun v hv => ?_, ending⟩
  obtain ⟨u, hu, far⟩ := le v hv
  exact Std.le_trans far (start u hu)

theorem mem_found : t ∈ log.found name user since before ↔
    ∃ o ∈ log.occurrences, ((o.name == name && o.distinctId == user) = true ∧
      inWindow since before o.time = true) ∧ o.time = t := by
  simp only [found, List.mem_map, List.mem_filter, Bool.and_eq_true, and_assoc]

/-- The first occurrence in a window stays the first when the window ends later. -/
theorem min?_found_of_later (le : NoLater before later)
    (h : (log.found name user since before).min? = some t) :
    (log.found name user since later).min? = some t := by
  obtain ⟨member, least⟩ := List.min?_eq_some_iff.mp h
  refine List.min?_eq_some_iff.mpr ⟨?_, fun u hu => ?_⟩
  · obtain ⟨o, ho, ⟨who, within⟩, rfl⟩ := mem_found.mp member
    obtain ⟨start, ending⟩ := inWindow_iff.mp within
    refine mem_found.mpr ⟨o, ho, ⟨who, inWindow_iff.mpr ⟨start, fun v hv => ?_⟩⟩, rfl⟩
    obtain ⟨v', hv', far⟩ := le v hv
    exact Std.lt_of_lt_of_le (ending v' hv') far
  · obtain ⟨o, ho, ⟨who, within⟩, rfl⟩ := mem_found.mp hu
    by_cases ends : ∀ b ∈ before, o.time < b
    · exact least _ (mem_found.mpr
        ⟨o, ho, ⟨who, inWindow_iff.mpr ⟨(inWindow_iff.mp within).1, ends⟩⟩, rfl⟩)
    · -- An occurrence that only the longer window holds lies beyond the end of the shorter one.
      simp only [not_forall, Std.not_lt] at ends
      obtain ⟨b, hb, past⟩ := ends
      exact Std.le_trans (Std.le_of_lt ((of_mem_found member).2 b hb)) past

end EventLog

namespace Host

variable {host : Host} {since earlier : Option Instant}

theorem count_reader_of_earlier (le : ∀ v, earlier = some v → ∃ u, since = some u ∧ v ≤ u)
    (user : String) (now : Instant) (event : Option Json.Fields) (name : String) :
    (host.reader user now event).count name since ≤
      (host.reader user now event).count name earlier := by
  change (host.guarded .count _).toOption.getD 0 ≤ (host.guarded .count _).toOption.getD 0
  unfold guarded
  cases host.fault? .count with
  | some fault => exact Nat.le_refl _
  | none =>
    cases h : host.log.offline with
    | true => simp [EventLog.count, EventLog.times_of_offline h]
    | false =>
      rw [EventLog.count_of_online h, EventLog.count_of_online h]
      exact EventLog.length_found_of_earlier le

end Host

/-! ## Limits, cooldowns and goals -/

/-- What comes later has passed later. -/
theorem NoLater.any_le {t u : Option Instant} {now : Instant} (h : NoLater t u)
    (past : u.any (· ≤ now) = true) : t.any (· ≤ now) = true := by
  obtain ⟨v, hv, ended⟩ := (Option.any_eq_true _ _).mp past
  obtain ⟨v', hv', early⟩ := h v hv
  exact (Option.any_eq_true _ _).mpr
    ⟨v', hv', decide_eq_true (Std.le_trans early (of_decide_eq_true ended))⟩

theorem Span.noLater_after? (le : seconds ≤ longer) (t : Instant) :
    NoLater (after? t seconds) (after? t longer) :=
  fun _ hv => after?_of_longer le hv

namespace Engine

variable {e : Engine} {campaign : Campaign} {user reason : String}

theorem cooldownOver_of_longer (le : seconds ≤ longer) {records : List Completion} {now : Instant}
    (h : cooldownOver longer records now = true) : cooldownOver seconds records now = true := by
  unfold cooldownOver at h ⊢
  split at h
  · rfl
  · exact (Span.noLater_after? le _).any_le h

theorem refusal?_of_longer (le : seconds ≤ longer)
    (h : e.refusal? { campaign with reentry := .cooldown seconds } user = some reason) :
    e.refusal? { campaign with reentry := .cooldown longer } user = some reason := by
  unfold refusal? at h ⊢
  dsimp only at h ⊢
  split at h
  · rwa [if_pos ‹_›]
  rw [if_neg ‹_›]
  split at h
  · rwa [if_pos ‹_›]
  rw [if_neg ‹_›]
  split at h
  · rwa [if_pos ‹_›]
  rw [if_neg ‹_›]
  split at h
  · cases h
  · rename_i resting
    rwa [if_neg fun rested => resting (cooldownOver_of_longer le rested)]

end Engine

namespace Goal

variable {goal : Goal} {host : Host} {user : String} {anchor now t : Instant}

theorem noLater_windowEnd? (goal : Goal) (anchor : Instant) (positive : 0 < seconds)
    (le : seconds ≤ longer) :
    NoLater ({ goal with window := some seconds }.windowEnd? anchor)
      ({ goal with window := some longer }.windowEnd? anchor) := by
  intro v hv
  obtain ⟨length, -, window, ends⟩ := Journey.windowEnd?_eq_some.mp hv
  obtain rfl : longer = length := Int.ofNat.inj (Option.some.inj window)
  obtain ⟨u, hu, early⟩ := Span.after?_of_longer le ends
  exact ⟨u, Journey.windowEnd?_eq_some.mpr ⟨seconds, positive, rfl, hu⟩, early⟩

theorem eventMetAt_of_longer (positive : 0 < seconds) (le : seconds ≤ longer)
    (h : { goal with window := some seconds }.eventMetAt host user anchor = some t) :
    { goal with window := some longer }.eventMetAt host user anchor = some t := by
  unfold eventMetAt at h ⊢
  obtain ⟨name, named, found⟩ := Option.bind_eq_some_iff.mp h
  refine Option.bind_eq_some_iff.mpr ⟨name, named, ?_⟩
  unfold Host.firstTime Host.guarded at found ⊢
  cases hf : host.fault? .first with
  | some fault =>
    rw [hf] at found
    cases found
  | none =>
    simp only [hf] at found ⊢
    cases ho : host.log.offline with
    | true =>
      rw [EventLog.first, EventLog.times_of_offline ho] at found
      cases found
    | false =>
      rw [EventLog.first_of_online ho] at found ⊢
      exact EventLog.min?_found_of_later (noLater_windowEnd? goal anchor positive le) found

theorem metAt_of_longer (positive : 0 < seconds) (le : seconds ≤ longer)
    (h : { goal with window := some seconds }.metAt host user anchor now = some t) :
    { goal with window := some longer }.metAt host user anchor now = some t := by
  have closes := noLater_windowEnd? goal anchor positive le
  obtain ⟨kind, eventName, segment, expression, window⟩ := goal
  cases kind with
  | event => exact eventMetAt_of_longer positive le h
  | _ =>
    simp only [metAt] at h ⊢
    split at h
    · cases h
    · rename_i opened
      exact (if_neg fun closed => opened (closes.any_le closed)).trans h

end Goal

/-! ## Everything that spans are for -/

namespace Span

/-- Where everything that a longer span leads to has its counterpart, the shorter span leads beyond
all instants only with the longer one. -/
theorem related_of_forall {shorter further : Option Instant} {R : Instant → Instant → Prop}
    (h : ∀ v, further = some v → ∃ u, shorter = some u ∧ R u v) :
    (shorter = none → further = none) ∧
      ∀ u v, shorter = some u → further = some v → R u v := by
  refine ⟨fun beyond => Option.eq_none_iff_forall_ne_some.mpr fun v hv => ?_, fun u v hu hv => ?_⟩
  · obtain ⟨u, hu, -⟩ := h v hv
    rw [beyond] at hu
    cases hu
  · obtain ⟨u', hu', related⟩ := h v hv
    rw [hu] at hu'
    exact Option.some.inj hu' ▸ related

/-- A longer span leads beyond all instants if a shorter one does, and else at least as far. So it
counts no fewer events, lets a limit pass no earlier, refuses whom the shorter cooldown does, and a
goal that was met in a shorter window is met at the same time. -/
theorem monotone_beyond_all_instants (le : seconds ≤ longer) :
    (∀ t : Instant,
      (after? t seconds = none → after? t longer = none) ∧
      (before? t seconds = none → before? t longer = none) ∧
      (∀ u v, after? t seconds = some u → after? t longer = some v → u ≤ v) ∧
      (∀ u v, before? t seconds = some u → before? t longer = some v → v ≤ u) ∧
      (t.isLeap = false → ∀ u, after? t seconds = some u → before? u seconds = some t)) ∧
    (∀ (host : Host) (user : String) (now : Instant) (event : Option Json.Fields) (name : String),
      let count (window : Nat) :=
        (Expr.eventCount name (some window)).eval (host.reader user now event)
      ∃ fewer more : Nat, (count seconds).value = .nat fewer ∧ (count longer).value = .nat more ∧
        fewer ≤ more) ∧
    (∀ (path : WaitPath) (enteredAt now : Instant),
      { path with limit := some longer }.hasElapsed enteredAt now = true →
        { path with limit := some seconds }.hasElapsed enteredAt now = true) ∧
    (∀ (e : Engine) (campaign : Campaign) (user : String) (origin : Option Origin),
      let start (cooldown : Nat) :=
        e.enter { campaign with reentry := .cooldown cooldown } user origin
      (start seconds).2 = .ok none → start longer = start seconds) ∧
    (∀ (journey : Journey) (goal : Goal) (host : Host) (now t : Instant), 0 < seconds →
      let metAt (window : Nat) :=
        { journey with goal := some { goal with window := some window } }.goalMetAt host now
      metAt seconds = some t → metAt longer = some t) := by
  refine ⟨fun t => ?_, ?_, ?_, ?_, ?_⟩
  · obtain ⟨after_none, after_le⟩ := related_of_forall fun _ => after?_of_longer (t := t) le
    obtain ⟨before_none, before_le⟩ := related_of_forall fun _ => before?_of_longer (t := t) le
    exact ⟨after_none, before_none, after_le, before_le, fun plain u hu => before?_after? plain hu⟩
  · intro host user now event name
    exact ⟨_, _, rfl, rfl, Host.count_reader_of_earlier (fun _ hv => before?_of_longer le hv) ..⟩
  · intro path enteredAt now
    exact (noLater_after? le enteredAt).any_le
  · intro e campaign user origin start refused
    cases hr : e.refusal? { campaign with reentry := .cooldown seconds } user with
    | some reason =>
      have still := Engine.refusal?_of_longer le hr
      simp only [start, Engine.enter, hr, still]
    | none =>
      exfalso
      simp only [start, Engine.enter, hr] at refused
      split at refused <;> cases refused
  · intro journey goal host now t positive metAt met
    unfold metAt at met ⊢
    unfold Journey.goalMetAt at met ⊢
    cases hc : journey.convertedAt with
    | some converted =>
      simp only [hc] at met ⊢
      exact met
    | none =>
      simp only [hc, Option.bind_some] at met ⊢
      exact Goal.metAt_of_longer positive le met

/-- The longest span there is leads from 1970 beyond all instants. As a limit it has not passed when
ten seconds have not, and a purchase that counts for ten seconds counts with it too. -/
theorem longest_beyond_all_instants :
    let longest := 18446744073709551615
    let path : WaitPath := ⟨none, some 10, "thanks"⟩
    let j := Journey.start ⟨BitVec.ofNat 128 1⟩ Journey.saleCampaign "ann" none .epoch
    let host := { Host.new .epoch "ann" .empty with log := ⟨Journey.sales, false⟩ }
    10 ≤ longest ∧ after? .epoch longest = none ∧
      before? Journey.tenth 10 = some .epoch ∧
      { path with limit := some longest }.hasElapsed .epoch Journey.seventh = false ∧
      { j with goal := some { Journey.sale with window := some longest } }.goalMetAt host .epoch =
        some Journey.seventh := by
  intro longest path j host
  have le : 10 ≤ longest := by decide
  obtain ⟨spans, -, limits, -, goals⟩ := monotone_beyond_all_instants le
  obtain ⟨-, -, -, -, back⟩ := spans .epoch
  refine ⟨le, by decide, back rfl _ (by decide), ?_, ?_⟩
  · refine Bool.eq_false_iff.mpr fun elapsed => ?_
    have early := limits path .epoch Journey.seventh elapsed
    revert early
    decide
  · exact goals j Journey.sale host .epoch Journey.seventh (by decide) (by decide +kernel)

end Span

end Engagement
