import Engagement.Proofs.Engine.Attention
import Engagement.Proofs.Engine.Conversions

/-! # Reports of met goals

A journey is reported to have met its goal when a check has found a time before the one known, and at
no other point. If the journey is to end with its goal, it is gone after the report.
-/

namespace Engagement

/-- Whether a journey is reported to have met its goal. -/
def Analytics.Event.meets (id : JourneyId) (event : Analytics.Event) : Bool :=
  event.kind = .goalMet && event.journey = some id

theorem Analytics.Kind.ofStatus_ne_goalMet (status : Status) :
    Analytics.Kind.ofStatus status ≠ .goalMet := by cases status <;> simp [ofStatus]

/-- A time is recorded only if it is before the one known. -/
theorem Journey.lt_of_recordConversion {j k : Journey} {t c : Instant}
    (recorded : j.recordConversion t = (k, true)) (known : j.convertedAt = some c) : t < c := by
  unfold recordConversion at recorded
  rw [known] at recorded
  by_contra later
  have hle : c ≤ t := Int.not_lt.mp later
  simp [hle] at recorded

namespace Engine

variable {e e' e'' : Engine} {j : Journey} {id : JourneyId} {m : Message} {l : List Admission}

/-- How often a journey was reported to have met its goal. -/
def goalsMet (e : Engine) (id : JourneyId) : Nat := e.events.countP (·.meets id)

theorem goalsMet_report (e : Engine) (kind : Analytics.Kind) (j : Journey) (node : String)
    (detail : Option String) (id : JourneyId) : (e.report kind j node detail).goalsMet id =
      e.goalsMet id + if kind = .goalMet ∧ j.id = id then 1 else 0 := by
  unfold goalsMet report note Analytics.Event.ofJourney
  simp [List.countP_append, List.countP_cons, Analytics.Event.meets]

theorem goalsMet_of_events (h : e'.events = e.events) : e'.goalsMet id = e.goalsMet id := by
  unfold goalsMet
  rw [h]

theorem goalsMet_report_of_ne {kind : Analytics.Kind} (other : kind ≠ .goalMet) (e : Engine)
    (j : Journey) (node : String) (detail : Option String) :
    (e.report kind j node detail).goalsMet id = e.goalsMet id := by
  simp [goalsMet_report, other]

/-- The end of a journey is reported as such. -/
theorem goalsMet_finish (e : Engine) (alive : j.isTerminal = false) (reason : ExitReason) :
    (e.finish j reason).goalsMet id = e.goalsMet id := by
  have other := Analytics.Kind.ofStatus_ne_goalMet reason.status
  rw [finish_eq e alive]
  simp [goalsMet, List.countP_append, Analytics.Event.meets, Analytics.Event.ofJourney, other]

/-! ## Without an outcome -/

theorem Calm.goalsMet_eq (h : Calm e e') : e'.goalsMet id = e.goalsMet id := by
  cases h with
  | setTimer => exact goalsMet_of_events (setTimer_events _ _)
  | @park j deadline store =>
    have other : Analytics.Kind.parked ≠ .goalMet := by decide
    exact (goalsMet_of_events (setTimer_events _ _)).trans
      (goalsMet_report_of_ne other { e with store := store } (e.parkedUntil j deadline) _ _)
  | @finish _ _ store _ _ alive => exact goalsMet_finish { e with store := store } alive _
  | _ => rfl

theorem Calms.goalsMet_eq (h : Calms e e') : e'.goalsMet id = e.goalsMet id := by
  induction h with
  | refl => rfl
  | tail _ h ih => exact h.goalsMet_eq.trans ih

theorem goalsMet_advance (alive : j.isTerminal = false) (next : String) {kind : Analytics.Kind}
    (arrival : kind.isArrival = true) : (e.advance j next kind).goalsMet id = e.goalsMet id := by
  have other : kind ≠ .goalMet := by
    rintro rfl
    cases arrival
  rcases e.advance_cases alive next kind with
    ⟨k, store, reason, -, alive', -, -, he⟩ | ⟨store, -, he⟩
  · rw [he]
    exact goalsMet_finish { e with steps := _, store := store } alive' reason
  · rw [he]
    exact (calms_drive _ _ _).goalsMet_eq.trans (goalsMet_report_of_ne other _ _ _ _)

theorem goalsMet_entered (store : Store) : (e.entered store j).goalsMet id = e.goalsMet id := by
  let saved := { e with issued := e.issued + 1, store := store }
  have checked : (saved.checkGoal j).goalsMet id = e.goalsMet id :=
    (calms_checkGoal saved j).goalsMet_eq
  exact (goalsMet_report_of_ne (by decide) _ _ _ _).trans checked

theorem Deed.goalsMet_eq (h : Deed m e l e') (quiet : ∀ id, m.metAt? id = none) :
    e'.goalsMet id = e.goalsMet id := by
  cases h with
  | calm h => exact h.goalsMet_eq
  | advance _ alive _ _ arrival => exact goalsMet_advance alive _ arrival
  | conclude _ alive => exact goalsMet_finish e alive _
  | enter known =>
    rcases enter_cases known with ⟨-, reason, he⟩ | ⟨-, start, store, fault, -, he⟩ |
      ⟨-, store, -, -, he⟩
    · rw [he]
      simp [goalsMet, note, Analytics.Event.meets, Analytics.Event.rejection]
    · rw [he]
      exact goalsMet_finish { e with issued := _, store := store } start.store_cases.1 _
    · rw [he]
      exact (calms_drive _ _ _).goalsMet_eq.trans (goalsMet_entered store)
  | meet found => simp [quiet] at found
  | _ => rfl

theorem Deeds.goalsMet_eq (h : Deeds m e l e') (quiet : ∀ id, m.metAt? id = none) :
    e'.goalsMet id = e.goalsMet id := by
  induction h with
  | refl => rfl
  | tail _ h ih => exact (h.goalsMet_eq quiet).trans ih

/-! ## With an outcome -/

theorem goalsMet_convert (alive : j.isTerminal = false) :
    (e.convert j).goalsMet id = e.goalsMet id := by
  unfold convert
  split
  · exact goalsMet_finish e alive _
  · unfold saving
    split
    · rfl
    · exact goalsMet_finish (j := { j with updatedAt := e.now }) { e with store := _ } alive _

theorem gone_convert (alive : j.isTerminal = false) (policy : j.exitPolicy = .onGoalMet) :
    (e.convert j).Gone j.id := by
  unfold convert
  rw [policy]
  intro k hk
  exact (mem_without.mp ((completes_finish alive .goalMet (.inl rfl)).active ▸ hk)).2

/-- A check has found a time for a journey under way that is before the one known, and that is
reported. -/
structure Meets (e e' : Engine) (t : Instant) (j : Journey) : Prop where
  under_way : j ∈ e.store.active
  earlier : ∀ c, j.convertedAt = some c → t < c
  reported : e'.goalsMet j.id = e.goalsMet j.id + 1
  ends : j.exitPolicy = .onGoalMet → e'.Gone j.id

/-- An outcome is reported for the journey that it is about, or for none. -/
theorem onGoal_meets (e : Engine) (i : JourneyId) (metAt : Option Instant) (id : JourneyId) :
    (e.onGoal i metAt).goalsMet id = e.goalsMet id ∨
      ∃ t j, metAt = some t ∧ i = id ∧ j.id = id ∧ Meets e (e.onGoal i metAt) t j := by
  rcases e.onGoal_cases i metAt with he | ⟨t, j, k, rfl, hj, alive, recorded, he⟩
  · exact .inl (by rw [he])
  · obtain ⟨hm, rfl⟩ := mem_of_get? hj
    have hk := Journey.of_recordConversion recorded
    have alive' : k.isTerminal = false := by rw [hk]; exact alive
    have same : k.id = j.id := by rw [hk]
    have policy_eq : k.exitPolicy = j.exitPolicy := by rw [hk]
    have count := (goalsMet_convert alive').trans (goalsMet_report e .goalMet k k.node none id)
    rw [← he, same] at count
    by_cases hid : j.id = id
    · subst hid
      rw [if_pos ⟨rfl, rfl⟩] at count
      refine .inr ⟨t, j, rfl, rfl, rfl, hm, ?_, count, fun policy => ?_⟩
      · exact fun c => Journey.lt_of_recordConversion recorded
      · rw [he, ← same]
        exact gone_convert alive' (policy_eq.trans policy)
    · rw [if_neg fun h => hid h.2] at count
      exact .inl count

/-- When a message is handled, a journey is reported to have met its goal if the message has found a
time for it that is before the one known. -/
theorem Hears.meets (hears : e.Hears m) (id : JourneyId) :
    (e.handle m).goalsMet id = e.goalsMet id ∨
      ∃ t j, m.metAt? id = some t ∧ j.id = id ∧ Meets e (e.handle m) t j := by
  by_cases goal : ∃ task i metAt, m = .report (.goal task i metAt)
  · obtain ⟨task, i, metAt, rfl⟩ := goal
    apply (onGoal_meets (e.dropTask task) i metAt id).imp_right
    rintro ⟨t, j, rfl, rfl, hid, meets⟩
    exact ⟨t, j, if_pos rfl, hid, meets.under_way, meets.earlier, meets.reported, meets.ends⟩
  · have quiet : (e.handle m).goalsMet id = (e.takeIn m).goalsMet id :=
      hears.deeds.goalsMet_eq (Message.metAt?_eq_none goal)
    exact .inl (quiet.trans (goalsMet_of_events (takeIn_events e m)))

end Engine

end Engagement
